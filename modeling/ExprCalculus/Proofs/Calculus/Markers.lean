import ExprCalculus.Evaluation.Doubles
import ExprCalculus.Expr.Traversal
import ExprCalculus.Proofs.Expansion.Distribution

/-!
# Unknown integrals in antiderivatives

An integration keeps three records of what it could not do: the tag of its result, the
markers of unknown integrals in the tree, and the notices.  They agree.  The result is tagged
as complete exactly if its tree holds no marker, the notices report the markers one by one
from left to right, and each marker stands for a part of the integrand that mentions the
variable.
-/

namespace ExprCalculus

variable {α : Type}

namespace Expr

mutual

/-- The unknown integrals in an expression from left to right, as integrands with their
variables. -/
def markers : Expr α → List (Expr α × String)
  | const _ => []
  | var _ => []
  | unary _ operand => operand.markers
  | binary _ left right => left.markers ++ right.markers
  | call _ first others => first.markers ++ markersAll others
  | integral integrand name => (integrand, name) :: integrand.markers

def markersAll : List (Expr α) → List (Expr α × String)
  | [] => []
  | expression :: rest => expression.markers ++ markersAll rest

end

section Markerless

mutual

theorem markers_eq_nil_iff {expression : Expr α} :
    expression.markers = [] ↔ expression.hasMarker = false := by
  match expression with
  | .const _ | .var _ => simp [markers, hasMarker]
  | .unary _ operand =>
      rw [markers, hasMarker]
      exact markers_eq_nil_iff
  | .binary _ left right =>
      rw [markers, hasMarker, List.append_eq_nil_iff, Bool.or_eq_false_iff]
      exact and_congr markers_eq_nil_iff markers_eq_nil_iff
  | .call _ first others =>
      rw [markers, hasMarker, List.append_eq_nil_iff, Bool.or_eq_false_iff]
      exact and_congr markers_eq_nil_iff markersAll_eq_nil_iff
  | .integral _ _ => simp [markers, hasMarker]

theorem markersAll_eq_nil_iff {expressions : List (Expr α)} :
    markersAll expressions = [] ↔ hasMarkerAny expressions = false := by
  match expressions with
  | [] => simp [markersAll, hasMarkerAny]
  | expression :: rest =>
      rw [markersAll, hasMarkerAny, List.append_eq_nil_iff, Bool.or_eq_false_iff]
      exact and_congr markers_eq_nil_iff markersAll_eq_nil_iff

end

theorem hasMarkerAny_eq_false_iff {expressions : List (Expr α)} :
    hasMarkerAny expressions = false ↔
      ∀ expression ∈ expressions, expression.hasMarker = false := by
  induction expressions with
  | nil => simp [hasMarkerAny]
  | cons expression rest ih => simp [hasMarkerAny, ih]

/-- An expression without markers is no marker, and nothing below it has one. -/
theorem hasMarker_eq_false_iff {expression : Expr α} :
    expression.hasMarker = false ↔ expression.kind ≠ .integral ∧
      ∀ child ∈ expression.children, child.hasMarker = false := by
  cases expression <;> simp [hasMarker, kind, children, hasMarkerAny_eq_false_iff]

theorem assembling_markerless :
    Assembling fun expression : Expr α => expression.hasMarker = false where
  const _ := rfl
  unary _ given := given
  binary _ leftGiven rightGiven := Bool.or_eq_false_iff.mpr ⟨leftGiven, rightGiven⟩
  reciprocal _ given := Bool.or_eq_false_iff.mpr ⟨given, rfl⟩

/-- Simplifying keeps an expression free of markers. -/
theorem renewing_markerless : Renewing fun expression : Expr α => expression.hasMarker = false where
  const _ := rfl
  negate given := given
  binary _ leftGiven rightGiven := Bool.or_eq_false_iff.mpr ⟨leftGiven, rightGiven⟩
  child given := (hasMarker_eq_false_iff.mp given).2
  unary _ renewedGiven := renewedGiven
  call _ renewedGiven othersGiven :=
    Bool.or_eq_false_iff.mpr ⟨renewedGiven, hasMarkerAny_eq_false_iff.mpr othersGiven⟩
  integral given _ := by cases given

end Markerless

section Search

variable {property : Expr α → Bool}

/-- The search for a property on a stack of expressions finds it if it holds somewhere in
one of them. -/
theorem anyBelow_iff {stack : List (Expr α)} :
    anyBelow property stack = true ↔
      ∃ expression ∈ stack, Somewhere (property · = true) expression := by
  fun_induction anyBelow property stack with
  | case1 => simp
  | case2 expression stack ih =>
      rw [Bool.or_eq_true, ih, List.exists_mem_cons_iff, somewhere_iff, or_assoc]
      simp only [List.mem_append, List.mem_reverse, or_and_right, exists_or]

theorem contains_iff {expression : Expr α} :
    expression.contains property = true ↔ Somewhere (property · = true) expression := by
  rw [contains, anyBelow_iff]
  simp

/-- The search for markers finds none in an expression without markers. -/
theorem contains_marker_eq_false {expression : Expr α}
    (markerless : expression.hasMarker = false) :
    (expression.contains fun part => part.kind = .integral) = false := by
  rw [Bool.eq_false_iff, ne_eq, contains_iff]
  intro found
  induction found with
  | here given => exact (hasMarker_eq_false_iff.mp markerless).1 (of_decide_eq_true given)
  | inside below _ ih => exact ih ((hasMarker_eq_false_iff.mp markerless).2 _ below)

end Search

end Expr

/-- The unknown integral that a notice reports. -/
def Notice.marker? : Notice α → Option (Expr α × String)
  | integralLeft integrand name _ => some (integrand, name)
  | _ => none

open ExprCalculus.Expr

/-- What integrating an expression leaves is accounted for: the tag tells whether there are
markers, the notices report the markers in their order, and every marker is over the variable
and has a part of the expression that mentions the variable as its integrand. -/
structure Accounted (name : String) (expression : Expr α) (notices : List (Notice α))
    (result : Antiderivative α) : Prop where
  tagged : result.supported = result.tree.markers.isEmpty
  reported : notices.map Notice.marker? = result.tree.markers.map some
  origin : ∀ marker ∈ result.tree.markers, marker.2 = name ∧
    Somewhere (· = marker.1) expression ∧ marker.1.mentions name = true

/-- An integration whose result, if it has one, is accounted for. -/
def Accounts (name : String) (expression : Expr α)
    (integration : Antiderivative.Integrating α (Antiderivative α)) : Prop :=
  ∀ result, integration.outcome = .ok result →
    Accounted name expression integration.notices result

namespace Accounts

variable {arithmetic : Arithmetic α} {name : String} {expression : Expr α}

theorem found {tree : Expr α} (markerless : tree.hasMarker = false) :
    Accounts name expression (Antiderivative.found tree) := by
  rintro _ ⟨⟩
  have none : tree.markers = [] := markers_eq_nil_iff.mpr markerless
  refine ⟨?_, ?_, ?_⟩
  · rw [none]
    rfl
  · rw [none]
    rfl
  · rw [none]
    exact nofun

/-- An expression that is left as it is. -/
theorem left {gap : IntegralGap} (markerless : expression.hasMarker = false)
    (mentioned : expression.mentions name = true) :
    Accounts name expression (Antiderivative.left name expression gap) := by
  rintro _ ⟨⟩
  have single : (integral expression name).markers = [(expression, name)] := by
    rw [markers, markers_eq_nil_iff.mpr markerless]
  refine ⟨?_, ?_, ?_⟩
  · rw [single]
    rfl
  · rw [single]
    rfl
  · intro marker member
    rw [single] at member
    cases List.mem_singleton.mp member
    exact ⟨rfl, .here rfl, mentioned⟩

/-- An integration that depends on a computed value. -/
theorem after {β : Type} {computed : Except (EvaluationFault α) β}
    {next : β → Antiderivative.Integrating α (Antiderivative α)}
    (nextAccounts : ∀ value, Accounts name expression (next value)) :
    Accounts name expression (Traced.ofExcept computed >>= next) := by
  cases computed with
  | error fault => exact nofun
  | ok value => exact nextAccounts value

section Parts

variable {part other : Expr α}
  {integration second : Antiderivative.Integrating α (Antiderivative α)}

/-- The integral of a part of the expression, in a tree with no further markers. -/
theorem map {image : Expr α → Expr α} (accounts : Accounts name part integration)
    (below : part ∈ expression.children)
    (image_markers : ∀ tree, (image tree).markers = tree.markers) :
    Accounts name expression
      (integration >>= fun inner => pure ⟨image inner.tree, inner.supported⟩) := by
  intro result made
  obtain ⟨inner, isInner, made⟩ := Traced.outcome_bind_eq_ok.mp made
  cases made
  obtain ⟨tagged, reported, origin⟩ := accounts inner isInner
  rw [Traced.notices_bind isInner, Traced.notices_pure, List.append_nil]
  refine ⟨?_, ?_, ?_⟩
  · rw [image_markers]
    exact tagged
  · rw [image_markers]
    exact reported
  · rw [image_markers]
    intro marker member
    obtain ⟨sameName, found, mentioned⟩ := origin marker member
    exact ⟨sameName, .inside below found, mentioned⟩

/-- The integrals of two parts of the expression, side by side. -/
theorem combine {operator : BinaryOperator} (accounts : Accounts name part integration)
    (secondAccounts : Accounts name other second) (below : part ∈ expression.children)
    (otherBelow : other ∈ expression.children) :
    Accounts name expression (do
      let first ← integration
      let next ← second
      return ⟨.binary operator first.tree next.tree, first.supported && next.supported⟩) := by
  intro result made
  obtain ⟨first, isFirst, rest⟩ := Traced.outcome_bind_eq_ok.mp made
  obtain ⟨next, isNext, made⟩ := Traced.outcome_bind_eq_ok.mp rest
  cases made
  obtain ⟨tagged, reported, origin⟩ := accounts first isFirst
  obtain ⟨nextTagged, nextReported, nextOrigin⟩ := secondAccounts next isNext
  rw [Traced.notices_bind isFirst, Traced.notices_bind isNext, Traced.notices_pure, List.append_nil]
  refine ⟨?_, ?_, ?_⟩
  · rw [markers, tagged, nextTagged]
    cases first.tree.markers <;> rfl
  · rw [markers, List.map_append, List.map_append, reported, nextReported]
  · intro marker member
    rw [markers] at member
    rcases List.mem_append.mp member with inFirst | inNext
    · obtain ⟨sameName, found, mentioned⟩ := origin marker inFirst
      exact ⟨sameName, .inside below found, mentioned⟩
    · obtain ⟨sameName, found, mentioned⟩ := nextOrigin marker inNext
      exact ⟨sameName, .inside otherBelow found, mentioned⟩

end Parts

section Rules

variable {first second argument : Expr α} {function : String}

theorem elementary (markerless : expression.hasMarker = false)
    (argumentMarkerless : argument.hasMarker = false)
    (mentioned : expression.mentions name = true) :
    Accounts name expression
      (Antiderivative.elementary arithmetic name expression function argument) := by
  unfold Antiderivative.elementary
  split
  next => exact .left markerless mentioned
  next rule isRule =>
    have ruled := assembling_markerless.antiderivativeRule isRule argumentMarkerless
    split
    · exact .found ruled
    refine .after fun affine? => ?_
    cases affine? with
    | none => exact .left markerless mentioned
    | some affine =>
        dsimp only
        split
        · exact .left markerless mentioned
        rw [Antiderivative.substitute_rule isRule]
        exact .found (assembling_markerless.binary .divide ruled rfl)

section Operands

variable (firstMarkerless : first.hasMarker = false) (secondMarkerless : second.hasMarker = false)
include firstMarkerless secondMarkerless

theorem power (mentioned : (first ^ second).mentions name = true) :
    Accounts name (first ^ second) (Antiderivative.power arithmetic name first second) := by
  have markerless : (first ^ second).hasMarker = false :=
    assembling_markerless.binary .power firstMarkerless secondMarkerless
  unfold Antiderivative.power
  dsimp only
  split
  · exact .found markerless
  split
  · split
    · exact .found rfl
    · exact .found rfl
  · exact .left markerless mentioned

theorem reciprocal (mentioned : (first / second).mentions name = true) :
    Accounts name (first / second) (Antiderivative.reciprocal arithmetic name first second) := by
  have markerless : (first / second).hasMarker = false :=
    assembling_markerless.binary .divide firstMarkerless secondMarkerless
  unfold Antiderivative.reciprocal
  dsimp only
  split
  · refine .after fun affine? => ?_
    split
    · exact .found (assembling_markerless.binary .divide secondMarkerless rfl)
    split
    · exact .found rfl
    · exact .left markerless mentioned
  · exact .left markerless mentioned

theorem quotient (mentioned : (first / second).mentions name = true) :
    Accounts name (first / second) (Antiderivative.quotient arithmetic name first second) := by
  unfold Antiderivative.quotient
  split
  · exact .found rfl
  · exact .reciprocal firstMarkerless secondMarkerless mentioned

theorem product (mentioned : (first * second).mentions name = true) :
    Accounts name (first * second) (Antiderivative.product arithmetic name first second) := by
  have unmatched : Accounts name (first * second)
      (Antiderivative.left name (first * second) .product) :=
    .left (assembling_markerless.binary .multiply firstMarkerless secondMarkerless) mentioned
  unfold Antiderivative.product
  dsimp only
  split
  case isFalse => exact unmatched
  case isTrue =>
    split
    next operator operand =>
      split
      case isFalse => exact unmatched
      case isTrue =>
        split
        · exact .found rfl
        · exact .found rfl
        · exact .found rfl
        · exact unmatched
    next base exponent =>
      split
      · exact .found (assembling_markerless.binary .multiply rfl secondMarkerless)
      · exact unmatched
    next => exact unmatched

end Operands

/-- What integrating an expression without markers leaves is accounted for. -/
theorem antiderivative {expression : Expr α} (markerless : expression.hasMarker = false) :
    Accounts name expression (expression.antiderivative arithmetic name) := by
  have childMarkerless := renewing_markerless.child markerless
  unfold Expr.antiderivative
  by_cases free : (!expression.mentions name) = true
  · rw [if_pos free]
    exact .found (assembling_markerless.binary .multiply markerless rfl)
  by_cases isVar : expression.isVar name = true
  · rw [if_neg free, if_pos isVar]
    exact .found rfl
  rw [if_neg free, if_neg isVar]
  have mentioned : expression.mentions name = true := by simpa using free
  split
  next left right =>
    have leftMarkerless := childMarkerless left List.mem_cons_self
    have rightMarkerless := childMarkerless right (List.mem_cons_of_mem _ List.mem_cons_self)
    exact (antiderivative leftMarkerless).combine (antiderivative rightMarkerless)
      List.mem_cons_self (List.mem_cons_of_mem _ List.mem_cons_self)
  next left right =>
    have leftMarkerless := childMarkerless left List.mem_cons_self
    have rightMarkerless := childMarkerless right (List.mem_cons_of_mem _ List.mem_cons_self)
    exact (antiderivative leftMarkerless).combine (antiderivative rightMarkerless)
      List.mem_cons_self (List.mem_cons_of_mem _ List.mem_cons_self)
  next left right =>
    have leftMarkerless := childMarkerless left List.mem_cons_self
    have rightMarkerless := childMarkerless right (List.mem_cons_of_mem _ List.mem_cons_self)
    have noMarkers {factor : Expr α} (factorMarkerless : factor.hasMarker = false)
        (tree : Expr α) : (factor * tree).markers = tree.markers := by
      change factor.markers ++ tree.markers = tree.markers
      rw [markers_eq_nil_iff.mpr factorMarkerless, List.nil_append]
    split
    · exact (antiderivative rightMarkerless).map (List.mem_cons_of_mem _ List.mem_cons_self)
        (noMarkers leftMarkerless)
    split
    · exact (antiderivative leftMarkerless).map List.mem_cons_self (noMarkers rightMarkerless)
    · exact .product leftMarkerless rightMarkerless mentioned
  next left right =>
    exact .quotient (childMarkerless left List.mem_cons_self)
      (childMarkerless right (List.mem_cons_of_mem _ List.mem_cons_self)) mentioned
  next left right =>
    exact .power (childMarkerless left List.mem_cons_self)
      (childMarkerless right (List.mem_cons_of_mem _ List.mem_cons_self)) mentioned
  next operand =>
    exact (antiderivative (childMarkerless operand List.mem_cons_self)).map List.mem_cons_self
      fun _ => rfl
  next operator operand _ =>
    split
    · exact .elementary markerless (childMarkerless operand List.mem_cons_self) mentioned
    · exact .left markerless mentioned
  next function first =>
    exact .elementary markerless (childMarkerless first List.mem_cons_self) mentioned
  next => exact .left markerless mentioned
  next => exact .left markerless mentioned

end Rules

end Accounts

/-- An antiderivative that is complete is complete after it is simplified. -/
theorem markerless_of_integrate {arithmetic : Arithmetic α} {name : String} {expression : Expr α}
    (markerless : expression.hasMarker = false) {result : Antiderivative α}
    (integrated : (expression.integrate arithmetic name).outcome = .ok result)
    (supported : result.supported = true) : result.tree.hasMarker = false := by
  obtain ⟨-, found, isFound, isSimplified, isTag⟩ := Expr.integrate_eq_ok.mp integrated
  have accounted := Accounts.antiderivative markerless found isFound
  have complete : found.tree.markers = [] := by
    rw [← List.isEmpty_iff, ← accounted.tagged, ← isTag]
    exact supported
  exact renewing_markerless.ofSimplify (markers_eq_nil_iff.mp complete) isSimplified

/-- Integrating an expression without markers tags its result as complete exactly if the
result holds no marker.  Every marker of the result is over the variable, and its integrand is
a part of the expression that mentions the variable.  The notices are one report for each
marker, in the order of the markers.  A result that is tagged as complete holds no marker
after it is simplified either. -/
theorem integration_tag_exact (arithmetic : Arithmetic α) (name : String) {expression : Expr α}
    (markerless : expression.hasMarker = false) :
    (∀ result, (expression.antiderivative arithmetic name).outcome = .ok result →
      (result.supported = true ↔ result.tree.hasMarker = false) ∧
      (∀ integrand bound, (integrand, bound) ∈ result.tree.markers →
        bound = name ∧ Somewhere (· = integrand) expression ∧ integrand.mentions name = true) ∧
      (expression.antiderivative arithmetic name).notices.map Notice.marker? =
        result.tree.markers.map some) ∧
    ∀ result, (expression.integrate arithmetic name).outcome = .ok result →
      result.supported = true →
        (result.tree.contains fun part => part.kind = .integral) = false := by
  refine ⟨fun result made => ?_, fun result integrated supported => ?_⟩
  · obtain ⟨tagged, reported, origin⟩ := Accounts.antiderivative markerless result made
    refine ⟨?_, fun integrand bound member => origin (integrand, bound) member, reported⟩
    rw [tagged, List.isEmpty_iff, markers_eq_nil_iff]
  · exact contains_marker_eq_false (markerless_of_integrate markerless integrated supported)

/-- The square of a sine is left as it is, and the variable beside it is integrated. -/
theorem integration_tag_of_sineSquare :
    let arithmetic := Doubles.arithmetic .standard
    let x : Expr Float := .var "x"
    let integration := (x + x.sin * x.sin).antiderivative arithmetic "x"
    let result : Antiderivative Float :=
      ⟨x ^ arithmetic.number 2 / arithmetic.number 2 + integral (x.sin * x.sin) "x", false⟩
    (x + x.sin * x.sin).hasMarker = false ∧ integration.outcome = .ok result ∧
      (result.supported = true ↔ result.tree.hasMarker = false) ∧
      result.tree.markers = [(x.sin * x.sin, "x")] ∧
      integration.notices.map Notice.marker? = [some (x.sin * x.sin, "x")] := by
  intro arithmetic x integration result
  have markerless : (x + x.sin * x.sin).hasMarker = false := rfl
  have isResult : integration.outcome = .ok result := rfl
  obtain ⟨tagged, -, reported⟩ :=
    (integration_tag_exact arithmetic "x" markerless).1 result isResult
  exact ⟨markerless, isResult, tagged, rfl, reported⟩

end ExprCalculus

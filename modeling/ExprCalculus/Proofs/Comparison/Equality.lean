import ExprCalculus.Proofs.Comparison.Likeness

/-!
# Equality of expressions

Comparing expressions decides whether they are alike: comparing digests first, or recognising
one object, never changes the answer.  Since constants agree with themselves and in both
directions, so do expressions, and equality is kept when a part is replaced by an equal one.
It is not transitive, as a tolerance is not.
-/

namespace ExprCalculus

namespace Expr

variable {α δ : Type} {same : α → α → Bool}

mutual

/-- Comparing shapes and constants decides likeness. -/
theorem sameBy_iff_alike {first second : Expr α} :
    sameBy same first second = true ↔ Alike (same · · = true) first second := by
  cases first with
  | const value =>
      cases second with
      | const other => rw [sameBy, alike_const]
      | _ => exact iff_of_false Bool.false_ne_true fun alike => by cases alike.kind_eq
  | var name =>
      cases second with
      | var other => rw [sameBy, alike_var, decide_eq_true_eq]
      | _ => exact iff_of_false Bool.false_ne_true fun alike => by cases alike.kind_eq
  | unary operator operand =>
      cases second with
      | unary other counterpart =>
          rw [sameBy, alike_unary, Bool.and_eq_true, decide_eq_true_eq, sameBy_iff_alike]
      | _ => exact iff_of_false Bool.false_ne_true fun alike => by cases alike.kind_eq
  | binary operator left right =>
      cases second with
      | binary other secondLeft secondRight =>
          rw [sameBy, alike_binary, Bool.and_eq_true, Bool.and_eq_true, decide_eq_true_eq,
            sameBy_iff_alike, sameBy_iff_alike, and_assoc]
      | _ => exact iff_of_false Bool.false_ne_true fun alike => by cases alike.kind_eq
  | call name argument others =>
      cases second with
      | call other counterpart further =>
          rw [sameBy, alike_call, Bool.and_eq_true, Bool.and_eq_true, decide_eq_true_eq,
            sameBy_iff_alike, sameAllBy_iff_alikeAll, and_assoc]
      | _ => exact iff_of_false Bool.false_ne_true fun alike => by cases alike.kind_eq
  | integral integrand name =>
      cases second with
      | integral counterpart other =>
          rw [sameBy, alike_integral, Bool.and_eq_true, decide_eq_true_eq, sameBy_iff_alike]
      | _ => exact iff_of_false Bool.false_ne_true fun alike => by cases alike.kind_eq

theorem sameAllBy_iff_alikeAll {firsts seconds : List (Expr α)} :
    sameAllBy same firsts seconds = true ↔ AlikeAll (same · · = true) firsts seconds := by
  match firsts, seconds with
  | [], [] => exact iff_of_true rfl ⟨rfl, .nil⟩
  | first :: firsts, second :: seconds =>
      rw [sameAllBy, alikeAll_cons, Bool.and_eq_true, sameBy_iff_alike, sameAllBy_iff_alikeAll]
  | [], second :: seconds =>
      exact iff_of_false Bool.false_ne_true fun alike => by cases alike.shapes
  | first :: firsts, [] =>
      exact iff_of_false Bool.false_ne_true fun alike => by cases alike.shapes

end

section Digests

variable (scheme : DigestScheme δ)

mutual

/-- The digest depends on the shape only. -/
theorem digest_map {β : Type} (image : α → β) (expression : Expr α) :
    (expression.map image).digest scheme = expression.digest scheme := by
  cases expression with
  | const _ | var _ => rfl
  | unary _ operand => rw [map, digest, digest, digest_map image operand]
  | binary _ left right =>
      rw [map, digest, digest, digest_map image left, digest_map image right]
  | call _ first others =>
      rw [map, digest, digest, digest_map image first, digestAll_mapAll image others]
  | integral integrand _ => rw [map, digest, digest, digest_map image integrand]

theorem digestAll_mapAll {β : Type} (image : α → β) (expressions : List (Expr α)) :
    digestAll scheme (mapAll image expressions) = digestAll scheme expressions := by
  match expressions with
  | [] => rfl
  | expression :: rest =>
      rw [mapAll, digestAll, digestAll, digest_map image expression, digestAll_mapAll image rest]

end

theorem Alike.digest_eq {agree : α → α → Prop} {first second : Expr α}
    (alike : Alike agree first second) : first.digest scheme = second.digest scheme := by
  have digests := congrArg (digest scheme) alike.shape
  rwa [Expr.shape, Expr.shape, digest_map, digest_map] at digests

end Digests

theorem alike_self {agree : α → α → Prop} (reflexive : ∀ value, agree value value)
    (expression : Expr α) : Alike agree expression expression :=
  ⟨rfl, List.forall₂_same.mpr fun value _ => reflexive value⟩

theorem Alike.symm {agree : α → α → Prop} {first second : Expr α}
    (symmetric : ∀ value other, agree value other → agree other value)
    (alike : Alike agree first second) : Alike agree second first :=
  ⟨alike.shape.symm, (alike.literals.imp symmetric).flip⟩

section Comparison

variable [DecidableEq δ] {scheme : DigestScheme δ} {identity : Identity α}
  (reflexive : ∀ value, same value value = true)
include reflexive

/-- Neither the digests nor the recognition of one object change the answer of a comparison
of parts. -/
theorem equalIf_eq_sameBy {first second : Expr α} {compared : Bool}
    (parts : compared = sameBy same first second) :
    equalIf scheme identity first second compared = sameBy same first second := by
  rw [equalIf, parts]
  cases recognised : identity.test first second with
  | true =>
      rw [identity.sound first second recognised,
        sameBy_iff_alike.mpr (alike_self reflexive second)]
      rfl
  | false =>
      cases answer : sameBy same first second with
      | false => simp
      | true =>
          -- Alike expressions pass the comparisons of kinds and digests.
          have alike := sameBy_iff_alike.mp answer
          simp [alike.kind_eq, alike.digest_eq scheme]

mutual

theorem partsEqual_eq_sameBy {first second : Expr α} :
    partsEqual scheme identity same first second = sameBy same first second := by
  cases first with
  | const value => cases second <;> rfl
  | var name => cases second <;> rfl
  | unary operator operand =>
      cases second with
      | unary other counterpart =>
          rw [partsEqual, sameBy, equalIf_eq_sameBy reflexive partsEqual_eq_sameBy]
      | _ => rfl
  | binary operator left right =>
      cases second with
      | binary other secondLeft secondRight =>
          rw [partsEqual, sameBy, equalIf_eq_sameBy reflexive partsEqual_eq_sameBy,
            equalIf_eq_sameBy reflexive partsEqual_eq_sameBy]
      | _ => rfl
  | call name argument others =>
      cases second with
      | call other counterpart further =>
          rw [partsEqual, sameBy, equalIf_eq_sameBy reflexive partsEqual_eq_sameBy,
            argumentsEqual_eq_sameAllBy]
      | _ => rfl
  | integral integrand name =>
      cases second with
      | integral counterpart other =>
          rw [partsEqual, sameBy, equalIf_eq_sameBy reflexive partsEqual_eq_sameBy]
      | _ => rfl

theorem argumentsEqual_eq_sameAllBy {firsts seconds : List (Expr α)} :
    argumentsEqual scheme identity same firsts seconds = sameAllBy same firsts seconds := by
  match firsts, seconds with
  | [], [] => rfl
  | first :: firsts, second :: seconds =>
      rw [argumentsEqual, sameAllBy, equalIf_eq_sameBy reflexive partsEqual_eq_sameBy,
        argumentsEqual_eq_sameAllBy]
  | [], second :: seconds => rfl
  | first :: firsts, [] => rfl

end

theorem equals_eq_sameBy (first second : Expr α) :
    equals scheme identity same first second = sameBy same first second :=
  equalIf_eq_sameBy reflexive (partsEqual_eq_sameBy reflexive)

end Comparison

/-- The second expression is the first one with another part in the place of one of its
parts. -/
inductive Replaced (part other : Expr α) : Expr α → Expr α → Prop
  | here : Replaced part other part other
  | operand {operator : UnaryOperator} {before after : Expr α} :
      Replaced part other before after →
      Replaced part other (unary operator before) (unary operator after)
  | left {operator : BinaryOperator} {before after right : Expr α} :
      Replaced part other before after →
      Replaced part other (binary operator before right) (binary operator after right)
  | right {operator : BinaryOperator} {left before after : Expr α} :
      Replaced part other before after →
      Replaced part other (binary operator left before) (binary operator left after)
  | first {name : String} {before after : Expr α} {others : List (Expr α)} :
      Replaced part other before after →
      Replaced part other (call name before others) (call name after others)
  | argument {name : String} {first before after : Expr α} {earlier later : List (Expr α)} :
      Replaced part other before after →
      Replaced part other (call name first (earlier ++ before :: later))
        (call name first (earlier ++ after :: later))
  | integrand {name : String} {before after : Expr α} :
      Replaced part other before after →
      Replaced part other (integral before name) (integral after name)

section Replacement

variable {agree : α → α → Prop} (reflexive : ∀ value, agree value value)
include reflexive

theorem alikeAll_self (expressions : List (Expr α)) : AlikeAll agree expressions expressions :=
  ⟨rfl, List.forall₂_same.mpr fun value _ => reflexive value⟩

theorem alikeAll_replaced {before after : Expr α} (alike : Alike agree before after)
    (earlier later : List (Expr α)) :
    AlikeAll agree (earlier ++ before :: later) (earlier ++ after :: later) := by
  induction earlier with
  | nil => exact alikeAll_cons.mpr ⟨alike, alikeAll_self reflexive later⟩
  | cons expression earlier ih => exact alikeAll_cons.mpr ⟨alike_self reflexive expression, ih⟩

/-- A part may be replaced by a part like it. -/
theorem Alike.replaced {part other before after : Expr α} (alike : Alike agree part other)
    (replaced : Replaced part other before after) : Alike agree before after := by
  induction replaced with
  | here => exact alike
  | operand _ ih => exact alike_unary.mpr ⟨rfl, ih⟩
  | left _ ih => exact alike_binary.mpr ⟨rfl, ih, alike_self reflexive _⟩
  | right _ ih => exact alike_binary.mpr ⟨rfl, alike_self reflexive _, ih⟩
  | first _ ih => exact alike_call.mpr ⟨rfl, ih, alikeAll_self reflexive _⟩
  | argument _ ih =>
      exact alike_call.mpr ⟨rfl, alike_self reflexive _, alikeAll_replaced reflexive ih _ _⟩
  | integrand _ ih => exact alike_integral.mpr ⟨rfl, ih⟩

end Replacement

end Expr

namespace Settings

variable {settings : Settings}

/-- Two constants are both undefined, equal, or nearer to each other than the tolerance. -/
def Agree (settings : Settings) (first second : Float) : Prop :=
  (first.isNaN = true ∧ second.isNaN = true) ∨ (first == second) = true ∨
    (first - second).abs < settings.epsilon

/-- No undefined constant is equal to a constant or near one. -/
theorem same_iff_agree {first second : Float} :
    settings.same first second = true ↔ settings.Agree first second := by
  unfold same Agree
  split
  next undefined =>
    rw [Bool.and_eq_true]
    refine ⟨.inl, fun agrees => agrees.resolve_right ?_⟩
    rintro (equal | near)
    · obtain ⟨firstDefined, secondDefined, -⟩ := Binary64.beq_iff.mp equal
      rw [firstDefined, secondDefined] at undefined
      cases undefined
    · have defined := (Binary64.lt_iff.mp near).1
      rw [Binary64.isNaN_abs] at defined
      obtain ⟨firstDefined, secondDefined⟩ := Binary64.isNaN_of_sub defined
      rw [firstDefined, secondDefined] at undefined
      cases undefined
  next defined =>
    rw [Bool.or_eq_true, near, decide_eq_true_eq]
    refine ⟨.inr, fun agrees => agrees.resolve_left fun undefined => ?_⟩
    rw [undefined.1] at defined
    exact defined rfl

theorem agree_self (value : Float) : settings.Agree value value :=
  same_iff_agree.mp (same_self settings value)

theorem agree_symm (first second : Float) (agrees : settings.Agree first second) :
    settings.Agree second first := by
  unfold Agree at agrees ⊢
  rw [Binary64.abs_sub_comm]
  refine agrees.imp And.symm (Or.imp_left fun equal => ?_)
  obtain ⟨firstDefined, secondDefined, sameRank⟩ := Binary64.beq_iff.mp equal
  exact Binary64.beq_iff.mpr ⟨secondDefined, firstDefined, sameRank.symm⟩

end Settings

open ExprCalculus.Expr

/-- Two expressions are equal exactly if they have one shape and corresponding constants are
both undefined, equal, or nearer than the tolerance, under every tolerance and every scheme
of digests; the comparison without digests gives the same answer.  So equality is reflexive
and symmetric, equal expressions have equal digests, and replacing a part by an equal one
gives an equal expression. -/
theorem equality_decides_likeness (settings : Settings) {δ : Type} [DecidableEq δ]
    (scheme : DigestScheme δ) (identity : Identity Float) :
    (∀ first second, equals scheme identity settings.same first second = true ↔
      first.shape = second.shape ∧
        List.Forall₂ settings.Agree first.literals second.literals) ∧
    (∀ first second, equals scheme identity settings.same first second =
      (Doubles.arithmetic settings).sameExpr first second) ∧
    (∀ expression, equals scheme identity settings.same expression expression = true) ∧
    (∀ first second, equals scheme identity settings.same first second =
      equals scheme identity settings.same second first) ∧
    (∀ first second, equals scheme identity settings.same first second = true →
      first.digest scheme = second.digest scheme) ∧
    ∀ part other before after, equals scheme identity settings.same part other = true →
      Replaced part other before after →
      equals scheme identity settings.same before after = true := by
  have decides (first second : Expr Float) :
      equals scheme identity settings.same first second = true ↔
        Alike settings.Agree first second := by
    rw [equals_eq_sameBy settings.same_self, sameBy_iff_alike]
    simp only [Settings.same_iff_agree]
  refine ⟨fun first second => ?_, fun first second => ?_, fun expression => ?_,
    fun first second => ?_, fun first second equal => ?_,
    fun part other before after equal replaced => ?_⟩
  · exact (decides first second).trans ⟨fun alike => ⟨alike.shape, alike.literals⟩,
      fun ⟨shape, literals⟩ => ⟨shape, literals⟩⟩
  · exact equals_eq_sameBy settings.same_self first second
  · exact (decides _ _).mpr (alike_self Settings.agree_self expression)
  · rw [Bool.eq_iff_iff, decides, decides]
    exact ⟨.symm Settings.agree_symm, .symm Settings.agree_symm⟩
  · exact ((decides _ _).mp equal).digest_eq scheme
  · exact (decides _ _).mpr (((decides _ _).mp equal).replaced Settings.agree_self replaced)

/-- Two sums are equal although a constant in one of them differs a little. -/
theorem equality_decides_likeness_within_tolerance :
    let scheme : DigestScheme Nat :=
      ⟨0, String.length, fun _ operand => operand, fun _ left right => left + right,
        fun _ arguments => arguments.sum, fun _ integrand => integrand⟩
    let identity : Identity Float :=
      ⟨fun _ _ => false, fun _ _ recognised => absurd recognised Bool.false_ne_true⟩
    let half : Expr Float := .const 0.5
    let nearHalf : Expr Float := .const 0.50000000001
    equals scheme identity Settings.standard.same half nearHalf = true ∧
      Replaced half nearHalf (.var "x" + half) (.var "x" + nearHalf) ∧
      equals scheme identity Settings.standard.same (.var "x" + half) (.var "x" + nearHalf) =
        true := by
  intro scheme identity half nearHalf
  have equal : equals scheme identity Settings.standard.same half nearHalf = true := by
    decide +kernel
  have replaced : Replaced half nearHalf (.var "x" + half) (.var "x" + nearHalf) := .right .here
  exact ⟨equal, replaced, (equality_decides_likeness Settings.standard scheme identity).2.2.2.2.2
    _ _ _ _ equal replaced⟩

end ExprCalculus

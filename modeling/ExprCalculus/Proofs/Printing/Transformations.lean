import ExprCalculus.Proofs.Expansion.Distribution
import ExprCalculus.Proofs.Printing.RoundTrip
import ExprCalculus.Proofs.Rebuilding.Polynomial
import ExprCalculus.Proofs.Rebuilding.Somewhere
import ExprCalculus.Proofs.Simplification.Folding

/-!
# Printing transformed trees

The transformations of a printable tree give printable trees, which are read back from
their texts, with one exception.  A call of a function named `integral` with two arguments
is printed like the marker of an unknown integral if its second argument is a variable.  A
printable tree has no such call, but simplifying the second argument may make a variable
of it.
-/

namespace ExprCalculus

namespace Expr

variable {tree operand left right first integrand replacement : Expr Float}
  {others : List (Expr Float)} {name : String}

theorem allPrintable_iff : AllPrintable others ↔ ∀ other ∈ others, other.Printable := by
  induction others with
  | nil => simp [AllPrintable]
  | cons other rest ih => simp [AllPrintable, ih]

/-- A call without a second argument of a function named by an identifier. -/
theorem printableCall_single (lower : Text.toLower name = name)
    (identifier : Token.IsIdentifier name) : PrintableCall name [] :=
  ⟨.inl ⟨lower, identifier⟩, nofun⟩

theorem printableCall_reciprocal (listed : name ∈ ["sec", "csc", "cot"]) :
    PrintableCall name [] := by
  simp only [List.mem_cons, List.not_mem_nil, or_false] at listed
  rcases listed with rfl | rfl | rfl
  all_goals
    exact printableCall_single (by decide +kernel) ⟨⟨.finish, "", 3⟩, by decide +kernel⟩

/-- Everything that transformations are built from is printable. -/
theorem calculating_printable : Calculating Printable where
  const _ := trivial
  negate given := given
  binary _ leftGiven rightGiven := ⟨leftGiven, rightGiven⟩
  child {parent} given child below := by
    cases parent with
    | const | var => cases below
    | unary operator operand =>
        rw [List.mem_singleton.mp below]
        exact given
    | binary operator left right =>
        rcases List.mem_cons.mp below with rfl | below
        · exact given.1
        · rw [List.mem_singleton.mp below]
          exact given.2
    | call name first others =>
        rcases List.mem_cons.mp below with rfl | below
        · exact given.2.1
        · exact allPrintable_iff.mp given.2.2 child below
    | integral integrand name =>
        rw [List.mem_singleton.mp below]
        exact given.1
  unary _ given := given
  reciprocal listed given := ⟨printableCall_reciprocal listed, given, trivial⟩
  integral given variableGiven := ⟨given, variableGiven⟩
  bound given := given.2

/-- A call keeps printable when as many arguments take the place of its arguments, if
they make no marker of it. -/
theorem PrintableCall.replace {function : String} {replaced : List (Expr Float)}
    (printable : PrintableCall function others) (sameLength : replaced.length = others.length)
    (notMarker : ∀ bound, function = "integral" → replaced = [.var bound] →
      ∃ other, others = [.var other]) : PrintableCall function replaced := by
  refine ⟨printable.1.imp_right fun ⟨reserved, single⟩ => ⟨reserved, sameLength.trans single⟩, ?_⟩
  intro bound isIntegral becomes
  obtain ⟨other, wasMarker⟩ := notMarker bound isIntegral becomes
  exact printable.2 other isIntegral wasMarker

section Substitution

/-- Only a variable becomes a variable when another variable is substituted. -/
theorem exists_var_of_substitute {bound : String}
    (becomes : substitute name replacement tree = .var bound) :
    ∃ other, tree = .var other := by
  cases tree with
  | var other => exact ⟨other, rfl⟩
  | _ => cases becomes

theorem substituteAll_eq_map :
    substituteAll name replacement others = others.map (substitute name replacement) := by
  induction others with
  | nil => rfl
  | cons other rest ih => rw [substituteAll, List.map_cons, ih]

theorem printableCall_substitute {function : String} (printable : PrintableCall function others) :
    PrintableCall function (substituteAll name replacement others) := by
  rw [substituteAll_eq_map]
  refine printable.replace (List.length_map _) fun bound _ becomes => ?_
  obtain ⟨second, rfl, substituted⟩ := List.map_eq_singleton_iff.mp becomes
  obtain ⟨other, rfl⟩ := exists_var_of_substitute substituted
  exact ⟨other, rfl⟩

mutual

/-- A printable replacement in a printable tree gives a printable tree. -/
theorem printable_substitute (replacementPrintable : replacement.Printable) {tree : Expr Float}
    (printable : tree.Printable) : (substitute name replacement tree).Printable := by
  match tree with
  | .const _ => trivial
  | .var other =>
      rw [substitute]
      split
      · exact replacementPrintable
      · exact printable
  | .unary _ operand =>
      have substituted : (substitute name replacement operand).Printable :=
        printable_substitute replacementPrintable printable
      exact substituted
  | .binary _ left right =>
      exact ⟨printable_substitute replacementPrintable printable.1,
        printable_substitute replacementPrintable printable.2⟩
  | .call function first others =>
      exact ⟨printableCall_substitute printable.1,
        printable_substitute replacementPrintable printable.2.1,
        allPrintable_substitute replacementPrintable printable.2.2⟩
  | .integral integrand bound =>
      refine ⟨printable_substitute replacementPrintable printable.1, ?_⟩
      unfold renamedBound
      split
      · split
        · exact replacementPrintable
        · exact printable.2
      · exact printable.2

theorem allPrintable_substitute (replacementPrintable : replacement.Printable)
    {trees : List (Expr Float)} (printable : AllPrintable trees) :
    AllPrintable (substituteAll name replacement trees) := by
  match trees with
  | [] => trivial
  | tree :: rest =>
      exact ⟨printable_substitute replacementPrintable printable.1,
        allPrintable_substitute replacementPrintable printable.2⟩

end

end Substitution

section Expansion

variable (arithmetic : Arithmetic Float)

/-- Only a variable is expanded to a variable. -/
theorem exists_var_of_expand {bound : String} (becomes : tree.expand arithmetic = .var bound) :
    ∃ other, tree = .var other := by
  have kinds : (tree.expand arithmetic).kind = tree.kind := kind_expand tree
  rw [becomes] at kinds
  cases tree with
  | var other => exact ⟨other, rfl⟩
  | _ => cases kinds

theorem printableCall_expand {function : String} (printable : PrintableCall function others) :
    PrintableCall function (expandAll arithmetic others) := by
  rw [expandAll_eq_map]
  refine printable.replace (List.length_map _) fun bound _ becomes => ?_
  obtain ⟨second, rfl, expanded⟩ := List.map_eq_singleton_iff.mp becomes
  obtain ⟨other, rfl⟩ := exists_var_of_expand arithmetic expanded
  exact ⟨other, rfl⟩

mutual

/-- The expanded form of a printable tree is printable. -/
theorem printable_expand {tree : Expr Float} (printable : tree.Printable) :
    (tree.expand arithmetic).Printable := by
  match tree with
  | .const _ => trivial
  | .var _ => exact printable
  | .unary _ operand =>
      have expanded : (operand.expand arithmetic).Printable := printable_expand printable
      exact expanded
  | .binary operator left right =>
      have leftPrintable := printable_expand printable.1
      have rightPrintable := printable_expand printable.2
      unfold expand
      dsimp only
      split
      · exact calculating_printable.distribute leftPrintable rightPrintable
      split
      · exact calculating_printable.expandedSquare arithmetic leftPrintable
      · exact ⟨leftPrintable, rightPrintable⟩
      · exact ⟨leftPrintable, rightPrintable⟩
  | .call function first others =>
      exact ⟨printableCall_expand arithmetic printable.1, printable_expand printable.2.1,
        allPrintable_expand printable.2.2⟩
  | .integral integrand bound =>
      exact ⟨printable_expand printable.1, printable.2⟩

theorem allPrintable_expand {trees : List (Expr Float)} (printable : AllPrintable trees) :
    AllPrintable (expandAll arithmetic trees) := by
  match trees with
  | [] => trivial
  | tree :: rest =>
      exact ⟨printable_expand printable.1, allPrintable_expand printable.2⟩

end

end Expansion

section Simplification

open Simplification

variable (arithmetic : Arithmetic Float)

/-- A call of a function named `integral` with two arguments, the second of which is
simplified to a variable. -/
inductive BecomesMarker : Expr Float → Prop
  | call {integrand argument : Expr Float} {bound : String}
      (becomes : (argument.simplify arithmetic).outcome = .ok (.var bound)) :
      BecomesMarker (.call "integral" integrand [argument])

/-- A printable tree in which no call becomes a marker when it is simplified. -/
def KeepsCalls (tree : Expr Float) : Prop :=
  tree.Printable ∧ ¬ Somewhere (BecomesMarker arithmetic) tree

theorem isDemanding_of_becomesMarker (tree : Expr Float) (becomes : BecomesMarker arithmetic tree) :
    IsDemanding tree := by
  cases becomes with
  | call =>
      change "integral" ∉ ["sec", "csc", "cot"]
      decide

theorem calculating_keepsCalls : Calculating (KeepsCalls arithmetic) :=
  calculating_printable.and
    (calculating_somewhere (isDemanding_of_becomesMarker arithmetic) False)

variable {arithmetic}

/-- A call that becomes a marker is printed like the marker. -/
theorem BecomesMarker.not_printable {result : Expr Float} (becomes : BecomesMarker arithmetic tree)
    (simplified : (tree.simplify arithmetic).outcome = .ok result) : ¬ result.Printable := by
  cases becomes with
  | @call _ _ bound argument =>
      obtain ⟨_, _, -, othersOutcome, made⟩ := simplify_call_eq_ok.mp simplified
      have pairs := simplifyAll_eq_ok.mp othersOutcome
      obtain ⟨second, none, isSecond, last, rfl⟩ := List.forall₂_cons_left_iff.mp pairs
      cases last
      cases argument.symm.trans isSecond
      rcases call_folded_or_kept made with ⟨_, constants, _, _, values, _⟩ | rfl
      · cases constants <;> cases values
      · exact fun printable => printable.1.2 bound rfl rfl

theorem printableCall_simplify {results : List (Expr Float)}
    (keeps : KeepsCalls arithmetic (.call name first others))
    (simplified : (simplifyAll arithmetic others).outcome = .ok results) :
    PrintableCall name results := by
  have pairs := simplifyAll_eq_ok.mp simplified
  refine keeps.1.1.replace pairs.length_eq.symm ?_
  rintro bound rfl rfl
  obtain ⟨argument, rest, becomes, none, rfl⟩ := List.forall₂_cons_right_iff.mp pairs
  cases none
  exact absurd (.here (.call becomes)) keeps.2

/-- Where no call becomes a marker, the simplified form of a printable tree is
printable. -/
theorem printable_simplify {tree result : Expr Float} (keeps : KeepsCalls arithmetic tree)
    (simplified : (tree.simplify arithmetic).outcome = .ok result) : result.Printable := by
  have calculating := calculating_keepsCalls arithmetic
  induction simplified using simplify_induction with
  | const value => trivial
  | var name => exact keeps.1
  | unary _ made ih =>
      have innerPrintable := ih (calculating.child keeps _ List.mem_cons_self)
      exact calculating_printable.ofUnary arithmetic innerPrintable made
  | binary _ _ made ihLeft ihRight =>
      exact calculating_printable.ofBinary arithmetic (ihLeft (calculating.below_left keeps))
        (ihRight (calculating.below_right keeps)) made
  | call _ othersSimplified made ihFirst ihOthers =>
      have childKeeps := calculating.child keeps
      have firstPrintable := ihFirst (childKeeps _ List.mem_cons_self)
      refine calculating_printable.ofCall arithmetic ⟨printableCall_simplify keeps othersSimplified,
        firstPrintable, allPrintable_iff.mpr ?_⟩ made
      intro renewed member
      obtain ⟨other, found, -, ih⟩ := exists_of_mem_right ihOthers member
      exact ih (childKeeps other (List.mem_cons_of_mem _ found))
  | integral _ ih => exact ⟨ih (calculating.child keeps _ List.mem_cons_self), keeps.1.2⟩

section Calculus

variable {result : Expr Float} (keeps : KeepsCalls arithmetic tree)
include keeps

theorem printable_differentiate
    (differentiated : (tree.differentiate arithmetic name).outcome = .ok result) :
    result.Printable := by
  obtain ⟨derivative, isDerivative, isSimplified⟩ := differentiate_eq_ok.mp differentiated
  exact printable_simplify ((calculating_keepsCalls arithmetic).ofDerivative keeps isDerivative)
    isSimplified

theorem printable_integrate {integral : Antiderivative Float}
    (identifier : Token.IsIdentifier name)
    (integrated : (tree.integrate arithmetic name).outcome = .ok integral) :
    integral.tree.Printable := by
  have variableKeeps : KeepsCalls arithmetic (.var name) := by
    refine ⟨identifier, fun found => ?_⟩
    cases somewhere_var.mp found
  obtain ⟨-, found, isFound, isSimplified, -⟩ := integrate_eq_ok.mp integrated
  have yields : Yields arithmetic (KeepsCalls arithmetic) (tree.antiderivative arithmetic name) :=
    (calculating_keepsCalls arithmetic).yields_antiderivative variableKeeps keeps
  exact printable_simplify (yields.tree found isFound) isSimplified

end Calculus

theorem printable_factor {settings : Settings} {requested? : Option String} {result : Expr Float}
    (keeps : KeepsCalls (Doubles.arithmetic settings) tree)
    (factored : (tree.factor (Doubles.factoring settings) requested?).outcome = .ok result) :
    result.Printable :=
  calculating_printable.ofFactor (fun _ => printable_simplify keeps) factored

end Simplification

/-- A printable tree: from its text the tree is read, with its constants spelled out and
up to the tolerance. -/
structure ReadsBack (tree : Expr Float) : Prop where
  printable : tree.Printable
  read : ∃ result, (Expr.ofText (tree.render Settings.standard)).outcome = .ok result ∧
    result.sameBy Settings.standard.same tree.normalized = true

theorem Printable.readsBack (printable : tree.Printable) : tree.ReadsBack :=
  ⟨printable, Printing.read_printable printable⟩

end Expr

open ExprCalculus.Expr

/-- Whatever the transformations make of a printable tree is printable and read back from
its text: always if it is expanded or another printable tree is substituted, and unless a
call in the tree becomes a marker, if it is simplified, differentiated, integrated or
factored. -/
theorem transformed_trees_read_back (settings : Settings) {tree replacement : Expr Float}
    {name : String} (printable : tree.Printable) (replacementPrintable : replacement.Printable)
    (identifier : Token.IsIdentifier name) :
    (tree.expand (Doubles.arithmetic settings)).ReadsBack ∧
    (substitute name replacement tree).ReadsBack ∧
    (¬ Somewhere (BecomesMarker (Doubles.arithmetic settings)) tree →
      (∀ result, (tree.simplify (Doubles.arithmetic settings)).outcome = .ok result →
        result.ReadsBack) ∧
      (∀ result, (tree.differentiate (Doubles.arithmetic settings) name).outcome = .ok result →
        result.ReadsBack) ∧
      (∀ result, (tree.integrate (Doubles.arithmetic settings) name).outcome = .ok result →
        result.tree.ReadsBack) ∧
      ∀ requested? result, requested? = none ∨ requested? = some name →
        (tree.factor (Doubles.factoring settings) requested?).outcome = .ok result →
          result.ReadsBack) := by
  refine ⟨(printable_expand _ printable).readsBack,
    (printable_substitute replacementPrintable printable).readsBack, fun noMarker => ?_⟩
  have keeps : KeepsCalls (Doubles.arithmetic settings) tree := ⟨printable, noMarker⟩
  refine ⟨fun _ simplified => (printable_simplify keeps simplified).readsBack,
    fun _ differentiated => (printable_differentiate keeps differentiated).readsBack,
    fun _ integrated => (printable_integrate keeps identifier integrated).readsBack, ?_⟩
  intro requested? result choice factored
  exact (printable_factor keeps factored).readsBack

/-- A call like a marker whose second argument is the double of a variable stays one. -/
theorem transformed_doubled_argument_reads_back :
    let arithmetic := Doubles.arithmetic Settings.standard
    let tree : Expr Float := .call "integral" (.var "x") [.const 2.0 * .var "y"]
    (tree.expand arithmetic).ReadsBack ∧ (substitute "x" (.const 3.0) tree).ReadsBack ∧
      ∀ result, (tree.simplify arithmetic).outcome = .ok result → result.ReadsBack := by
  intro arithmetic tree
  have isX : Token.IsIdentifier "x" := ⟨⟨.finish, "", 1⟩, by decide +kernel⟩
  have isY : Token.IsIdentifier "y" := ⟨⟨.finish, "", 1⟩, by decide +kernel⟩
  have isIntegral : Token.IsIdentifier "integral" := ⟨⟨.finish, "", 8⟩, by decide +kernel⟩
  have lower : Text.toLower "integral" = "integral" := by decide +kernel
  have called : PrintableCall "integral" [.const 2.0 * .var "y"] := by
    refine ⟨.inl ⟨lower, isIntegral⟩, ?_⟩
    rintro bound - ⟨⟩
  have printable : tree.Printable := ⟨called, isX, ⟨trivial, isY⟩, trivial⟩
  have doubled : ((.const 2.0 * .var "y" : Expr Float).simplify
      (Doubles.arithmetic Settings.standard)).outcome = .ok (.const 2.0 * .var "y") := rfl
  have replaced : (.const 3.0 : Expr Float).Printable := trivial
  obtain ⟨expanded, substituted, simplified⟩ :=
    transformed_trees_read_back Settings.standard printable replaced isX
  refine ⟨expanded, substituted, (simplified ?_).1⟩
  change ¬ Somewhere _ (.call "integral" (.var "x") [.binary .multiply (.const 2.0) (.var "y")])
  rw [somewhere_call, somewhere_var]
  rintro (marker | marker | ⟨other, member, inside⟩)
  · cases marker with
    | call becomes => cases doubled.symm.trans becomes
  · cases marker
  · rw [List.mem_singleton.mp member, somewhere_binary, somewhere_const, somewhere_var] at inside
    rcases inside with marker | marker | marker <;> cases marker

end ExprCalculus

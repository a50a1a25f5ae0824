import ExprCalculus.Proofs.Grammar.Recognition
import ExprCalculus.Proofs.Printing.Constants

/-!
# Texts of expressions

A tree is printable if its names are read back as what they stand for.  The text of a
printable tree renders a tree with the precedence of its root, and this is the tree with
its constants spelled out, up to the tolerance.  The reader therefore reads it back.
-/

namespace ExprCalculus

namespace Expr

/-- Whether a call of the name with one argument and the others is read back as it is:
the name is an identifier in lower case, or one of the two reserved names that stand for
calls, and the call is not taken for the marker of an integral. -/
def PrintableCall (name : String) (others : List (Expr Float)) : Prop :=
  ((Text.toLower name = name ∧ Token.IsIdentifier name) ∨
      ((name = "min" ∨ name = "max") ∧ others.length = 1)) ∧
    ∀ bound, name = "integral" → others ≠ [.var bound]

mutual

/-- Whether every name in the tree is read back as what it stands for. -/
def Printable : Expr Float → Prop
  | const _ => True
  | var name => Token.IsIdentifier name
  | unary _ operand => operand.Printable
  | binary _ left right => left.Printable ∧ right.Printable
  | call name first others => PrintableCall name others ∧ first.Printable ∧ AllPrintable others
  | integral integrand name => integrand.Printable ∧ Token.IsIdentifier name

def AllPrintable : List (Expr Float) → Prop
  | [] => True
  | tree :: rest => tree.Printable ∧ AllPrintable rest

end

mutual

/-- The tree with its constants spelled out. -/
def normalized : Expr Float → Expr Float
  | const value => spelled value
  | var name => var name
  | unary operator operand => unary operator operand.normalized
  | binary operator left right => binary operator left.normalized right.normalized
  | call name first others => call name first.normalized (allNormalized others)
  | integral integrand name => integral integrand.normalized name

def allNormalized : List (Expr Float) → List (Expr Float)
  | [] => []
  | tree :: rest => tree.normalized :: allNormalized rest

end

end Expr

namespace Printing

open Token Grammar ExprCalculus.Expr

/-- The text of a tree renders the tree with its constants spelled out, up to the
tolerance. -/
def RendersTree (tree : Expr Float) : Prop :=
  ∃ result,
    Renders (phraseOf tree.precedence) (tree.render Settings.standard) result ∧
    result.sameBy Settings.standard.same tree.normalized = true

def RendersTrees (trees : List (Expr Float)) : Prop :=
  ∃ results,
    List.Forall₂ (Renders .additive) (renderAll Settings.standard trees) results ∧
    sameAllBy Settings.standard.same results (allNormalized trees) = true

variable {tree operand left right first integrand : Expr Float} {others : List (Expr Float)}
  {name : String}

section Unary

theorem word_reserved {operator : UnaryOperator} {word : String}
    (isWord : operator.word? = some word) :
    word ∈ functionWords ∧ UnaryOperator.ofWord? word = some operator := by
  cases operator with
  | negate | factorial => cases isWord
  | _ =>
      cases isWord
      exact ⟨by decide, rfl⟩

theorem render_word {operator : UnaryOperator} {word : String} (isWord : operator.word? = some word)
    (settings : Settings) (operand : Expr Float) :
    (Expr.unary operator operand).render settings = word ++ "(" ++ (operand.render settings ++ ")") := by
  rw [← String.append_assoc, render.eq_def]
  cases operator with
  | negate | factorial => cases isWord
  | _ =>
      cases isWord
      rfl

theorem precedence_word {operator : UnaryOperator} {word : String}
    (isWord : operator.word? = some word) (operand : Expr Float) :
    (Expr.unary operator operand).precedence = .atom := by
  cases operator with
  | negate | factorial => cases isWord
  | _ => rfl

theorem sameBy_unary {same : Float → Float → Bool} {result : Expr Float} (operator : UnaryOperator)
    (equal : result.sameBy same operand.normalized = true) :
    (Expr.unary operator result).sameBy same (Expr.unary operator operand).normalized = true := by
  rw [normalized, sameBy, decide_eq_true rfl, Bool.true_and]
  exact equal

theorem rendersTree_unary (operator : UnaryOperator) (operandRenders : RendersTree operand) :
    RendersTree (.unary operator operand) := by
  obtain ⟨result, renders, equal⟩ := operandRenders
  refine ⟨.unary operator result, ?_, sameBy_unary operator equal⟩
  cases isWord : operator.word? with
  | some word =>
      obtain ⟨reserved, isOperator⟩ := word_reserved isWord
      rw [precedence_word isWord, render_word isWord]
      exact renders_keyword reserved (.last renders.additive) (.unary _ isOperator)
  | none =>
      cases operator with
      | negate =>
          have inside : Renders (phraseOf .unary)
              (parenthesizedIf (decide (operand.precedence ≤ .unary)) _) result :=
            renders.parenthesizedIf fun tighter => Nat.le_of_not_le (of_decide_eq_false tighter)
          rw [render]
          exact .negation inside
      | factorial =>
          have inside : Renders (phraseOf .postfixed)
              (parenthesizedIf (decide (operand.precedence < .atom)) _) result :=
            renders.parenthesizedIf fun tightest =>
              Nat.le_of_succ_le (Nat.le_of_not_lt (of_decide_eq_false tightest))
          rw [render]
          exact .factorial inside
      | _ => cases isWord

end Unary

section Binary

/-- The text of an operator with a symbol other than the power. -/
theorem render_spaced {operator : BinaryOperator} {symbol : String}
    (isSymbol : operator.symbol? = some symbol) (notPower : operator ≠ .power)
    (settings : Settings) (left right : Expr Float) :
    (Expr.binary operator left right).render settings =
      (parenthesizedIf (decide (left.precedence < operator.precedence)) (left.render settings) ++ " ") ++
        symbol ++ (" " ++
          parenthesizedIf (decide (right.precedence ≤ operator.precedence)) (right.render settings)) := by
  rw [render, isSymbol]
  dsimp only
  rw [if_neg notPower, enclosesLeft, if_neg notPower, enclosesRight, if_neg notPower,
    ← String.append_assoc]

theorem sameBy_binary {same : Float → Float → Bool} {leftResult rightResult : Expr Float}
    (operator : BinaryOperator) (leftEqual : leftResult.sameBy same left.normalized = true)
    (rightEqual : rightResult.sameBy same right.normalized = true) :
    (Expr.binary operator leftResult rightResult).sameBy same
      (Expr.binary operator left right).normalized = true := by
  rw [normalized, sameBy, decide_eq_true rfl, Bool.true_and, leftEqual, rightEqual]
  rfl

variable {leftResult rightResult : Expr Float}

/-- An operator that groups to the left: its left operand binds at least as tightly as
itself, and its right one as the next precedence. -/
theorem renders_spaced {operator : BinaryOperator} {symbol : String} {next : Precedence}
    (isSymbol : operator.symbol? = some symbol) (notPower : operator ≠ .power)
    (isNext : ∀ tight, operator.precedence < tight → next ≤ tight)
    (combine : ∀ leftText rightText, Renders (phraseOf operator.precedence) leftText leftResult →
      Renders (phraseOf next) rightText rightResult →
        Renders (phraseOf operator.precedence) (leftText ++ symbol ++ rightText)
          (.binary operator leftResult rightResult))
    (leftRenders : Renders (phraseOf left.precedence) (left.render Settings.standard) leftResult)
    (rightRenders : Renders (phraseOf right.precedence) (right.render Settings.standard) rightResult) :
    Renders (phraseOf (Expr.binary operator left right).precedence)
      ((Expr.binary operator left right).render Settings.standard)
      (.binary operator leftResult rightResult) := by
  have leftInside : Renders (phraseOf operator.precedence)
      (parenthesizedIf (decide (left.precedence < operator.precedence)) _) leftResult :=
    leftRenders.parenthesizedIf fun tight => Nat.le_of_not_lt (of_decide_eq_false tight)
  have rightInside : Renders (phraseOf next)
      (parenthesizedIf (decide (right.precedence ≤ operator.precedence)) _) rightResult :=
    rightRenders.parenthesizedIf fun tighter =>
      isNext _ (Nat.lt_of_not_le (of_decide_eq_false tighter))
  rw [render_spaced isSymbol notPower]
  exact combine _ _ (.spaceAfter leftInside) (.spaceBefore rightInside)

/-- A power groups to the right: only its left operand must bind tighter than itself. -/
theorem renders_power
    (leftRenders : Renders (phraseOf left.precedence) (left.render Settings.standard) leftResult)
    (rightRenders : Renders (phraseOf right.precedence) (right.render Settings.standard) rightResult) :
    Renders .power ((Expr.binary .power left right).render Settings.standard)
      (.binary .power leftResult rightResult) := by
  have leftInside : Renders (phraseOf .postfixed)
      (parenthesizedIf (decide (left.precedence ≤ .power)) _) leftResult :=
    leftRenders.parenthesizedIf fun tighter => Nat.lt_of_not_le (of_decide_eq_false tighter)
  have rightInside : Renders (phraseOf .power)
      (parenthesizedIf (decide (right.precedence < .power)) _) rightResult :=
    rightRenders.parenthesizedIf fun tight => Nat.le_of_not_lt (of_decide_eq_false tight)
  have exponent : Renders (phraseOf .unary) _ rightResult := rightInside.looser (by decide)
  rw [render]
  exact .raised leftInside exponent

theorem renders_logarithm
    (leftRenders : Renders (phraseOf left.precedence) (left.render Settings.standard) leftResult)
    (rightRenders : Renders (phraseOf right.precedence) (right.render Settings.standard) rightResult) :
    Renders .primary ((Expr.binary .logBase left right).render Settings.standard)
      (.binary .logBase leftResult rightResult) := by
  have reserved : "log" ∈ functionWords := by decide
  have arguments : RendersArguments (left.render Settings.standard ++ ", " ++
      (right.render Settings.standard ++ ")")) leftResult [rightResult] :=
    .more leftRenders.additive (.last rightRenders.additive)
  have isText : (Expr.binary .logBase left right).render Settings.standard =
      "log" ++ "(" ++ (left.render Settings.standard ++ ", " ++
        (right.render Settings.standard ++ ")")) := by
    rw [← String.append_assoc, ← String.append_assoc, ← String.append_assoc, render]
    rfl
  rw [isText]
  exact renders_keyword reserved arguments (.logarithm leftResult rightResult)

theorem rendersTree_binary (operator : BinaryOperator) (leftRendersTree : RendersTree left)
    (rightRendersTree : RendersTree right) : RendersTree (.binary operator left right) := by
  obtain ⟨leftResult, leftRenders, leftEqual⟩ := leftRendersTree
  obtain ⟨rightResult, rightRenders, rightEqual⟩ := rightRendersTree
  refine ⟨.binary operator leftResult rightResult, ?_, sameBy_binary operator leftEqual rightEqual⟩
  have afterAdditive : ∀ tight, Precedence.additive < tight → Precedence.multiplicative ≤ tight :=
    fun _ tighter => tighter
  have afterMultiplicative : ∀ tight, Precedence.multiplicative < tight →
      Precedence.unary ≤ tight :=
    fun _ tighter => tighter
  cases operator with
  | add | subtract =>
      exact renders_spaced rfl nofun afterAdditive (fun _ _ => .sum rfl rfl) leftRenders rightRenders
  | multiply | divide | modulo =>
      exact renders_spaced rfl nofun afterMultiplicative (fun _ _ => .multiple rfl rfl) leftRenders
        rightRenders
  | power => exact renders_power leftRenders rightRenders
  | logBase => exact renders_logarithm leftRenders rightRenders

end Binary

section Calls

/-- Only a variable is spelled as a variable. -/
theorem eq_var_of_sameBy {same : Float → Float → Bool}
    (equal : (Expr.var name).sameBy same tree.normalized = true) : tree = .var name := by
  cases tree with
  | var other =>
      rw [normalized, sameBy, decide_eq_true_eq] at equal
      rw [equal]
  | const value =>
      rw [normalized, spelled] at equal
      split_ifs at equal <;> rw [sameBy] at equal <;> cases equal
  | _ =>
      rw [normalized, sameBy] at equal <;> cases equal

theorem rendersTree_integral {bound : String} (identifier : IsIdentifier bound)
    (integrandRenders : RendersTree integrand) : RendersTree (.integral integrand bound) := by
  obtain ⟨result, renders, equal⟩ := integrandRenders
  have named : IsIdentifier "integral" := ⟨⟨.finish, "", 8⟩, by decide +kernel⟩
  have arguments : RendersArguments (integrand.render Settings.standard ++ ", " ++ (bound ++ ")"))
      result [.var bound] :=
    .more renders.additive (.last (.of_primary .additive (renders_variable identifier)))
  have isText : (Expr.integral integrand bound).render Settings.standard =
      "integral" ++ "(" ++ (integrand.render Settings.standard ++ ", " ++ (bound ++ ")")) := by
    rw [← String.append_assoc, ← String.append_assoc, ← String.append_assoc, render]
    rfl
  refine ⟨.integral result bound, ?_, ?_⟩
  · rw [isText]
    exact renders_named named arguments (.marker result bound (by decide))
  · rw [normalized, sameBy, decide_eq_true rfl, Bool.true_and]
    exact equal

/-- Arguments that are not a bare variable are not read back as one. -/
theorem ne_var_of_sameAllBy {same : Float → Float → Bool} {results : List (Expr Float)}
    (equal : sameAllBy same results (allNormalized others) = true)
    (notVariable : ∀ bound, others ≠ [.var bound]) (bound : String) : results ≠ [.var bound] := by
  rintro rfl
  match others with
  | [] => simp [allNormalized, sameAllBy] at equal
  | [second] =>
      rw [allNormalized, sameAllBy, Bool.and_eq_true] at equal
      exact notVariable bound (congrArg ([·]) (eq_var_of_sameBy equal.1))
  | second :: third :: rest => simp [allNormalized, sameAllBy] at equal

theorem rendersTree_call (printable : PrintableCall name others)
    (firstRenders : RendersTree first) (othersRender : RendersTrees others) :
    RendersTree (.call name first others) := by
  obtain ⟨firstResult, renders, firstEqual⟩ := firstRenders
  obtain ⟨results, allRender, allEqual⟩ := othersRender
  obtain ⟨named, notMarker⟩ := printable
  have isText : (Expr.call name first others).render Settings.standard =
      name ++ "(" ++ (", ".intercalate (first.render Settings.standard ::
        renderAll Settings.standard others) ++ ")") := by
    rw [← String.append_assoc, render]
  have arguments := rendersArguments_intercalate renders.additive allRender
  refine ⟨.call name firstResult results, ?_, ?_⟩
  · rw [isText]
    rcases named with ⟨lower, identifier⟩ | ⟨reserved, isSingle⟩
    · have called := NamedCall.call firstResult results fun bound isMarker =>
        ne_var_of_sameAllBy allEqual (fun other => notMarker other (lower.symm.trans isMarker)) bound
      rw [lower] at called
      exact renders_named identifier arguments called
    · obtain ⟨second, rfl⟩ := List.length_eq_one_iff.mp isSingle
      obtain ⟨secondResult, rfl⟩ : ∃ secondResult, results = [secondResult] := by
        rw [← List.length_eq_one_iff, ← allRender.length_eq]
        rfl
      rcases reserved with rfl | rfl
      · exact renders_keyword (by decide) arguments (.minimum firstResult secondResult)
      · exact renders_keyword (by decide) arguments (.maximum firstResult secondResult)
  · rw [normalized, sameBy, decide_eq_true rfl, Bool.true_and, firstEqual, allEqual]
    rfl

end Calls

mutual

/-- The text of a printable tree renders the tree. -/
theorem renders_printable : ∀ tree : Expr Float, tree.Printable → RendersTree tree
  | .const value, _ => renders_constant value
  | .var name, printable => by
      rw [Printable] at printable
      refine ⟨.var name, renders_variable printable, ?_⟩
      rw [normalized, sameBy]
      exact decide_eq_true rfl
  | .unary operator operand, printable => by
      rw [Printable] at printable
      exact rendersTree_unary operator (renders_printable operand printable)
  | .binary operator left right, printable => by
      rw [Printable] at printable
      exact rendersTree_binary operator (renders_printable left printable.1)
        (renders_printable right printable.2)
  | .call name first others, printable => by
      rw [Printable] at printable
      exact rendersTree_call printable.1 (renders_printable first printable.2.1)
        (renders_allPrintable others printable.2.2)
  | .integral integrand bound, printable => by
      rw [Printable] at printable
      exact rendersTree_integral printable.2 (renders_printable integrand printable.1)

theorem renders_allPrintable : ∀ trees : List (Expr Float), AllPrintable trees → RendersTrees trees
  | [], _ => ⟨[], .nil, rfl⟩
  | tree :: rest, printable => by
      rw [AllPrintable] at printable
      obtain ⟨result, renders, equal⟩ := renders_printable tree printable.1
      obtain ⟨results, allRender, allEqual⟩ := renders_allPrintable rest printable.2
      refine ⟨result :: results, .cons renders.additive allRender, ?_⟩
      rw [allNormalized, sameAllBy, equal, allEqual]
      rfl

end

/-- A text that renders a sum with a tree is read as the tree. -/
theorem outcome_ofText {text : String} (renders : Renders .additive text tree) :
    (Expr.ofText text).outcome = .ok tree := by
  obtain ⟨tokens, scans, forms⟩ := renders 0
  have scanned := scans.scan_eq nofun
  obtain ⟨body, stop, same, emitted⟩ := exists_emitted_of_scanFrom _ _ scanned
  have isBody : tokens = body := (List.append_inj' same rfl).1
  subst isBody
  have derives := forms.derives [] nofun
  rw [List.append_nil] at derives
  have sentence : Sentence tokens tree := ⟨derives, forms.insertable.isChain⟩
  have read := sentence.outcome emitted
  unfold Expr.ofText
  rw [Traced.outcome_bind, Traced.outcome_note]
  change (Traced.ofExcept ((scan text).mapError ReadError.lexical) >>= ofTokens).outcome = _
  rw [Traced.outcome_bind, Traced.outcome_ofExcept, scanned, same]
  exact read

end Printing

end ExprCalculus

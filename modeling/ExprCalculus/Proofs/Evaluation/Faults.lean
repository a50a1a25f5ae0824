import ExprCalculus.Evaluation.Doubles
import ExprCalculus.Proofs.Outcomes

/-!
# Faults of the functions of doubles

The operators and named functions of doubles give a double or end with a fault of the
expression, with one exception.  The logarithm of the gamma function bounds a factorial
or a number of permutations before it is computed, and this logarithm overflows where the
bound itself is beyond the largest double.
-/

namespace ExprCalculus

/-- The outcome is a value, a fault of the expression, or the overflow of the logarithm of
the gamma function, which requires the given condition. -/
def FailsOnly {α β : Type} (condition : Prop) (outcome : Except (EvaluationFault α) β) : Prop :=
  ∀ fault, outcome = .error fault →
    fault.isOrdinary = true ∨ fault = .logGammaOverflow ∧ condition

namespace FailsOnly

variable {α β γ : Type} {condition other : Prop} {outcome : Except (EvaluationFault α) β}

theorem ok (value : β) : FailsOnly condition (.ok value : Except (EvaluationFault α) β) :=
  nofun

theorem error {fault : EvaluationFault α} (ordinary : fault.isOrdinary = true) :
    FailsOnly condition (.error fault : Except (EvaluationFault α) β) := by
  rintro _ ⟨⟩
  exact .inl ordinary

theorem mono (fails : FailsOnly condition outcome) (implies : condition → other) :
    FailsOnly other outcome :=
  fun fault failed => (fails fault failed).imp_right fun ⟨isOverflow, holds⟩ =>
    ⟨isOverflow, implies holds⟩

theorem bind {next : β → Except (EvaluationFault α) γ} (fails : FailsOnly condition outcome)
    (nextFails : ∀ value, outcome = .ok value → FailsOnly condition (next value)) :
    FailsOnly condition (outcome >>= next) := by
  intro fault failed
  rcases except_bind_eq_error.mp failed with failed | ⟨value, isValue, failed⟩
  · exact fails fault failed
  · exact nextFails value isValue fault failed

end FailsOnly

namespace Combinatorics

variable (settings : Settings)

/-- The arguments of a factorial or of a number of permutations, by the name of the
function, for which the logarithm of the gamma function overflows. -/
inductive GammaOverflow : String → List Float → Prop
  | factorial {argument : Float} {number : Nat} (checked : settings.checkedCombinatorics = true)
      (whole : wholeArgument settings "factorial" argument = .ok number)
      (overflow : logGamma (number + 1) = .error .logGammaOverflow) :
      GammaOverflow "factorial" [argument]
  | permutation {name : String} {elements chosen : Float} {total part : Nat}
      (listed : name ∈ ["permutation", "perm", "npr"])
      (wholeElements : wholeArgument settings "permutation" elements = .ok total)
      (wholeChosen : wholeArgument settings "permutation" chosen = .ok part)
      (enough : part ≤ total)
      (overflow : logGamma (part + 1) = .error .logGammaOverflow) :
      GammaOverflow name [elements, chosen]

variable {condition : Prop}

theorem failsOnly_wholeArgument (function : String) (argument : Float) :
    FailsOnly condition (wholeArgument settings function argument) := by
  unfold wholeArgument
  split
  · exact .error rfl
  split
  · exact .error rfl
  · exact .ok _

theorem failsOnly_checkedResult (function : String) (exact : Nat) :
    FailsOnly condition (checkedResult function exact) := by
  unfold checkedResult
  split
  · exact .error rfl
  · exact .ok _

theorem failsOnly_uncheckedResult (function : String) (result : Float) :
    FailsOnly condition (uncheckedResult function result) := by
  unfold uncheckedResult
  split
  · exact .error rfl
  · exact .ok _

theorem failsOnly_logGamma (argument : Nat) :
    FailsOnly (logGamma argument = .error .logGammaOverflow) (logGamma argument) := by
  intro fault failed
  refine .inr ⟨?_, ?_⟩
  all_goals
    have overflow := failed
    unfold logGamma at failed
    split at failed
    · cases failed
    dsimp only at failed
    split at failed
    · cases failed
      first | rfl | exact overflow
    · cases failed

theorem failsOnly_factorial (argument : Float) :
    FailsOnly (GammaOverflow settings "factorial" [argument])
      (factorial .standard settings argument) := by
  unfold factorial
  refine (failsOnly_wholeArgument settings _ argument).bind fun number whole => ?_
  split
  next checked =>
    refine FailsOnly.bind (.bind ((failsOnly_logGamma _).mono (.factorial checked whole))
      fun logarithm _ => .ok _) fun refused _ => ?_
    split
    · exact .error rfl
    · exact failsOnly_checkedResult _ _
  next =>
    split
    · exact .error rfl
    · exact .ok _

theorem failsOnly_permutation {name : String} (listed : name ∈ ["permutation", "perm", "npr"])
    (elements chosen : Float) :
    FailsOnly (GammaOverflow settings name [elements, chosen])
      (permutation .standard settings elements chosen) := by
  unfold permutation
  refine (failsOnly_wholeArgument settings _ elements).bind fun total wholeElements => ?_
  refine (failsOnly_wholeArgument settings _ chosen).bind fun part wholeChosen => ?_
  split
  · exact .error rfl
  next enough =>
    have overflows (overflow : logGamma (part + 1) = .error .logGammaOverflow) :
        GammaOverflow settings name [elements, chosen] :=
      .permutation listed wholeElements wholeChosen (Nat.le_of_not_lt enough) overflow
    refine FailsOnly.bind (.bind ((failsOnly_logGamma _).mono overflows)
      fun factorialBound _ => .ok _) fun refused _ => ?_
    split
    · exact .error rfl
    split
    · exact failsOnly_checkedResult _ _
    · exact failsOnly_uncheckedResult _ _

theorem failsOnly_binomial (elements chosen : Float) :
    FailsOnly condition (binomial .standard settings elements chosen) := by
  unfold binomial
  refine (failsOnly_wholeArgument settings _ elements).bind fun total _ => ?_
  refine (failsOnly_wholeArgument settings _ chosen).bind fun part _ => ?_
  split
  · exact .ok _
  dsimp only
  split
  · exact .error rfl
  split
  · exact failsOnly_checkedResult _ _
  · exact failsOnly_uncheckedResult _ _

theorem failsOnly_greatestCommonDivisor (first second : Float) :
    FailsOnly condition (greatestCommonDivisor settings first second) := by
  unfold greatestCommonDivisor
  refine (failsOnly_wholeArgument settings _ first).bind fun _ _ => ?_
  refine (failsOnly_wholeArgument settings _ second).bind fun _ _ => ?_
  exact .ok _

theorem failsOnly_leastCommonMultiple (first second : Float) :
    FailsOnly condition (leastCommonMultiple settings first second) := by
  unfold leastCommonMultiple
  refine (failsOnly_wholeArgument settings _ first).bind fun _ _ => ?_
  refine (failsOnly_wholeArgument settings _ second).bind fun _ _ => ?_
  split
  · exact .ok _
  · exact failsOnly_checkedResult _ _

end Combinatorics

namespace Doubles

open ExprCalculus.Combinatorics

variable (settings : Settings)

section Functions

variable {condition : List Float → Prop} {shown : String}

theorem failsOnly_apply_one {function : Float → Except (EvaluationFault Float) Float}
    (fails : ∀ argument, FailsOnly (condition [argument]) (function argument))
    (arguments : List Float) :
    FailsOnly (condition arguments) ((NamedFunction.one function).apply shown arguments) := by
  unfold NamedFunction.apply
  split
  next applied argument same =>
    cases same
    exact fails argument
  next same => cases same
  next => exact .error rfl

theorem failsOnly_apply_two {function : Float → Float → Except (EvaluationFault Float) Float}
    (fails : ∀ first second, FailsOnly (condition [first, second]) (function first second))
    (arguments : List Float) :
    FailsOnly (condition arguments) ((NamedFunction.two function).apply shown arguments) := by
  unfold NamedFunction.apply
  split
  next same => cases same
  next applied first second same =>
    cases same
    exact fails first second
  next => exact .error rfl

theorem failsOnly_named {name : String} {function : NamedFunction Float}
    (named : named? settings name = some function) (arguments : List Float) :
    FailsOnly (GammaOverflow settings name arguments) (function.apply shown arguments) := by
  unfold named? at named
  split at named <;> cases named
  all_goals
    first
      | exact failsOnly_apply_one (fun _ => .ok _) arguments
      | exact failsOnly_apply_two (fun _ _ => .ok _) arguments
      | exact failsOnly_apply_one (failsOnly_factorial settings) arguments
      | exact failsOnly_apply_two (fun _ _ => failsOnly_greatestCommonDivisor settings _ _)
          arguments
      | exact failsOnly_apply_two (fun _ _ => failsOnly_leastCommonMultiple settings _ _) arguments
      | exact failsOnly_apply_two (fun _ _ => failsOnly_binomial settings _ _) arguments
      | refine failsOnly_apply_two (failsOnly_permutation settings ?_) arguments
        decide

end Functions

/-- A call by name without further functions. -/
theorem failsOnly_callByName (name : String) (arguments : List Float) :
    FailsOnly (GammaOverflow settings (Text.toLower name) arguments)
      ((arithmetic settings).callByName [] name arguments) := by
  unfold Arithmetic.callByName
  split
  next function named => exact failsOnly_named settings named arguments
  next => exact .error rfl

theorem failsOnly_unary (operator : UnaryOperator) (operand : Float) :
    FailsOnly (operator = .factorial ∧ GammaOverflow settings "factorial" [operand])
      ((arithmetic settings).unary operator operand) := by
  change FailsOnly _ (unary settings operator operand)
  unfold unary
  split
  next isFactorial => exact (failsOnly_factorial settings operand).mono fun overflow =>
    ⟨isFactorial, overflow⟩
  next => exact .ok _

end Doubles

end ExprCalculus

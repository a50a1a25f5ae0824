import ExprCalculus.Proofs.Combinatorics.DoubleProducts
import ExprCalculus.Proofs.Combinatorics.OverflowChecks

/-!
# Checked and unchecked counts

A checked call overflows if its exact count is beyond the largest double.  An unchecked one
multiplies doubles, so it overflows if one of its products is: for a binomial coefficient this
is a multiple of the coefficient, so that there are coefficients which only the checked call
returns.  Apart from this, and from the logarithm of the gamma function, which a checked
factorial and every number of permutations ask for, the two ways of computing fail alike.
-/

namespace ExprCalculus

namespace EvaluationFault

variable {α : Type}

def isOverflow : EvaluationFault α → Bool
  | tooLarge _ => true
  | beyondLimit _ _ => true
  | _ => false

def isInvalidArgument : EvaluationFault α → Bool
  | notWhole _ _ => true
  | tooFewElements => true
  | _ => false

end EvaluationFault

/-- The settings with counts computed exactly or as products of doubles. -/
def Settings.binding (settings : Settings) (checked : Bool) : Settings :=
  { settings with checkedCombinatorics := checked }

namespace Combinatorics

open Binary64
open scoped Nat

/-- The outcome is the overflow of a result or an argument. -/
def Overflows (outcome : Outcome Float) : Prop :=
  ∃ fault, outcome = .error fault ∧ fault.isOverflow = true

/-- The outcome is the refusal of an argument. -/
def Rejects (outcome : Outcome Float) : Prop :=
  ∃ fault, outcome = .error fault ∧ fault.isInvalidArgument = true

/-- A call of a function whose result may overflow. -/
inductive Call where
  | factorial (argument : Float)
  | binomial (elements chosen : Float)
  | permutation (elements chosen : Float)

namespace Call

def run (logarithms : Logarithms) (settings : Settings) : Call → Outcome Float
  | factorial argument => Combinatorics.factorial logarithms settings argument
  | binomial elements chosen => Combinatorics.binomial logarithms settings elements chosen
  | permutation elements chosen => Combinatorics.permutation logarithms settings elements chosen

/-- The whole numbers that the arguments of a call stand for. -/
inductive HasArguments (settings : Settings) : Call → ℕ → ℕ → Prop
  | factorial {argument : Float} {number : ℕ} (isArgument : IsArgument settings argument number) :
      HasArguments settings (.factorial argument) number number
  | binomial {elements chosen : Float} {total part : ℕ}
      (isElements : IsArgument settings elements total)
      (isChosen : IsArgument settings chosen part) :
      HasArguments settings (.binomial elements chosen) total part
  | permutation {elements chosen : Float} {total part : ℕ}
      (isElements : IsArgument settings elements total)
      (isChosen : IsArgument settings chosen part) :
      HasArguments settings (.permutation elements chosen) total part

def count (total part : ℕ) : Call → ℕ
  | factorial _ => part !
  | binomial _ _ => total.choose part
  | permutation _ _ => total.descFactorial part

/-- The largest product that is formed for a call: the numerator of a binomial coefficient is
multiplied before it is divided. -/
def product (total part : ℕ) : Call → ℕ
  | factorial _ => part !
  | binomial _ _ => min part (total - part) * total.choose part
  | permutation _ _ => total.descFactorial part

/-- The number that decides whether a call overflows. -/
def reach (checked : Bool) (total part : ℕ) (call : Call) : ℕ :=
  if checked then call.count total part else call.product total part

/-- Whether a call asks for a logarithm of the gamma function. -/
def needsGamma (checked : Bool) : Call → Bool
  | factorial _ => checked
  | binomial _ _ => false
  | permutation _ _ => true

/-- The logarithm of the gamma function that a call asks for overflows. -/
def GammaFails (logarithms : Logarithms) (checked : Bool) (part : ℕ) (call : Call) : Prop :=
  call.needsGamma checked = true ∧ logarithms.logGamma (part + 1) = .error .logGammaOverflow

end Call

/-- The logarithm of the gamma function may overflow but does not fail otherwise, and it has a
value wherever the factorial is a double. -/
structure Logarithms.GammaReturns (logarithms : Logarithms) : Prop where
  fails : ∀ number fault, logarithms.logGamma number = .error fault → fault = .logGammaOverflow
  returns : ∀ number ≤ 171, ∃ value, logarithms.logGamma number = .ok value

/-- How a call ends: the logarithm of the gamma function fails, or the result is too large, or
there is a result. -/
inductive Verdict (outcome : Outcome Float) (gammaFails tooLarge : Prop) : Prop
  | gamma (fails : gammaFails) (failed : outcome = .error .logGammaOverflow)
  | overflow (returns : ¬ gammaFails) (large : tooLarge) {fault : EvaluationFault Float}
      (failed : outcome = .error fault) (isOverflow : fault.isOverflow = true)
  | value (returns : ¬ gammaFails) (small : ¬ tooLarge) {value : Float}
      (returned : outcome = .ok value)

namespace Verdict

variable {outcome : Outcome Float} {gammaFails tooLarge other : Prop}

theorem congr (verdict : Verdict outcome gammaFails tooLarge) (same : tooLarge ↔ other) :
    Verdict outcome gammaFails other := by
  rwa [← propext same]

theorem overflows_iff (verdict : Verdict outcome gammaFails tooLarge) :
    Overflows outcome ↔ tooLarge ∧ outcome ≠ .error .logGammaOverflow := by
  cases verdict with
  | gamma fails failed =>
      subst failed
      refine iff_of_false ?_ fun both => both.2 rfl
      rintro ⟨_, ⟨⟩, isOverflow⟩
      cases isOverflow
  | overflow returns large failed isOverflow =>
      subst failed
      refine iff_of_true ⟨_, rfl, isOverflow⟩ ⟨large, ?_⟩
      rintro ⟨⟩
      cases isOverflow
  | value returns small returned =>
      subst returned
      refine iff_of_false ?_ fun both => small both.1
      rintro ⟨_, ⟨⟩, _⟩

theorem gamma_iff (verdict : Verdict outcome gammaFails tooLarge) :
    outcome = .error .logGammaOverflow ↔ gammaFails := by
  cases verdict with
  | gamma fails failed => exact iff_of_true failed fails
  | overflow returns large failed isOverflow =>
      subst failed
      refine iff_of_false ?_ returns
      rintro ⟨⟩
      cases isOverflow
  | value returns small returned =>
      subst returned
      exact iff_of_false nofun returns

theorem fault_cases (verdict : Verdict outcome gammaFails tooLarge)
    {fault : EvaluationFault Float} (failed : outcome = .error fault) :
    fault.isOverflow = true ∨ fault = .logGammaOverflow := by
  cases verdict with
  | gamma fails isGamma =>
      rw [isGamma] at failed
      cases failed
      exact .inr rfl
  | overflow returns large isFault isOverflow =>
      rw [isFault] at failed
      cases failed
      exact .inl isOverflow
  | value returns small returned =>
      rw [returned] at failed
      cases failed

end Verdict

theorem verdict_checkedResult (function : String) (exact : ℕ) {gammaFails : Prop}
    (returns : ¬ gammaFails) :
    Verdict (checkedResult function exact) gammaFails (largestNumber < exact) := by
  rw [checkedResult_eq]
  split
  next large => exact .overflow returns large rfl rfl
  next small => exact .value returns small rfl

theorem verdict_uncheckedResult (function : String) (result : Float) {gammaFails : Prop}
    (returns : ¬ gammaFails) :
    Verdict (uncheckedResult function result) gammaFails (result.isInf = true) := by
  unfold uncheckedResult
  split
  next large => exact .overflow returns large rfl rfl
  next small => exact .value returns small rfl

/-- A result that is refused before it is computed, or else computed. -/
theorem verdict_refused {outcome : Outcome Float} (function : String) (refused : Bool)
    {gammaFails tooLarge : Prop} (returns : ¬ gammaFails)
    (verdict : Verdict outcome gammaFails tooLarge) :
    Verdict (if refused = true then .error (.tooLarge function) else outcome) gammaFails
      (refused = true ∨ tooLarge) := by
  split
  next isRefused => exact .overflow returns (.inl isRefused) rfl rfl
  next passed => exact verdict.congr (or_iff_right passed).symm

section Calls

variable {logarithms : Logarithms} {settings : Settings} {elements chosen : Float} {total part : ℕ}

/-- A call ends as its verdict says, and what is too large is known at least for numbers that
are not very near to the largest double. -/
def Decided (outcome : Outcome Float) (gammaFails certain large : Prop) : Prop :=
  ∃ tooLarge, Verdict outcome gammaFails tooLarge ∧ (certain → (tooLarge ↔ large))

theorem decided_of_verdict {outcome : Outcome Float} {gammaFails certain large : Prop}
    (verdict : Verdict outcome gammaFails large) : Decided outcome gammaFails certain large :=
  ⟨large, verdict, fun _ => Iff.rfl⟩

theorem Decided.mono {outcome : Outcome Float} {gammaFails certain large : Prop}
    {otherFails otherCertain : Prop} (decided : Decided outcome gammaFails certain large)
    (same : gammaFails ↔ otherFails) (implies : otherCertain → certain) :
    Decided outcome otherFails otherCertain large := by
  obtain ⟨tooLarge, verdict, isLarge⟩ := decided
  exact ⟨tooLarge, propext same ▸ verdict, isLarge ∘ implies⟩

/-- What follows the logarithm of the gamma function. -/
theorem decided_afterGamma {next : Float → Outcome Float} {certain large : Prop}
    (gamma : logarithms.GammaReturns) (number : ℕ)
    (decided : ∀ logarithm, logarithms.logGamma number = .ok logarithm →
      Decided (next logarithm) False certain large) :
    Decided (logarithms.logGamma number >>= next)
      (logarithms.logGamma number = .error .logGammaOverflow) certain large := by
  cases isLogarithm : logarithms.logGamma number with
  | error fault =>
      obtain rfl := gamma.fails number fault isLogarithm
      exact decided_of_verdict (.gamma rfl rfl)
  | ok logarithm =>
      have never : False ↔ (Except.ok logarithm : Outcome Float) = .error .logGammaOverflow :=
        ⟨False.elim, nofun⟩
      rw [except_ok_bind, ← propext never]
      exact decided logarithm isLogarithm

/-- The settings of a binding have the same arguments. -/
theorem isArgument_binding (checked : Bool) {value : Float} {number : ℕ} :
    IsArgument (settings.binding checked) value number ↔ IsArgument settings value number :=
  Iff.rfl

theorem not_checked : ¬ (settings.binding false).checkedCombinatorics = true :=
  Bool.false_ne_true

theorem largestNumber_lt_factorial (large : 170 < part) : largestNumber < part ! := by
  have beyond : largestNumber < 171 ! := by decide +kernel
  exact beyond.trans_le (Nat.factorial_le large)

theorem factorial_le_largestNumber (small : part ≤ 170) : part ! ≤ largestNumber := by
  have within : 170 ! ≤ largestNumber := by decide +kernel
  exact (Nat.factorial_le small).trans within

theorem decided_factorial (limit : settings.factorialLimit = 170)
    (gamma : logarithms.GammaReturns) (accurate : logarithms.AccurateAt part part)
    (isChosen : IsArgument settings chosen part) (checked : Bool) (certain : Prop) :
    Decided (factorial logarithms (settings.binding checked) chosen)
      (checked = true ∧ logarithms.logGamma (part + 1) = .error .logGammaOverflow) certain
      (largestNumber < part !) := by
  cases checked with
  | true =>
      rw [factorial_of_checked rfl accurate ((isArgument_binding true).mpr isChosen)]
      simp only [true_and]
      exact decided_afterGamma gamma _ fun _ _ =>
        decided_of_verdict (verdict_checkedResult _ _ not_false)
  | false =>
      have isArgument := (isArgument_binding false).mpr isChosen "factorial"
      have returns : ¬ (false = true ∧
          logarithms.logGamma (part + 1) = .error .logGammaOverflow) := fun both => nomatch both.1
      have sameLimit : (settings.binding false).factorialLimit = 170 := limit
      unfold factorial
      rw [isArgument, except_ok_bind, if_neg not_checked, sameLimit]
      apply decided_of_verdict
      split
      next large => exact .overflow returns (largestNumber_lt_factorial (by omega)) rfl rfl
      next small =>
        exact .value returns (not_lt.mpr (factorial_le_largestNumber (by omega))) rfl

variable (gamma : logarithms.GammaReturns) (enough : part ≤ total)
  (accurate : logarithms.AccurateAt total part) (isElements : IsArgument settings elements total)
  (isChosen : IsArgument settings chosen part)
include enough accurate isElements isChosen

theorem decided_binomial_checked :
    Decided (binomial logarithms (settings.binding true) elements chosen) False True
      (largestNumber < total.choose part) := by
  rw [binomial_of_checked rfl enough accurate ((isArgument_binding true).mpr isElements)
    ((isArgument_binding true).mpr isChosen)]
  exact decided_of_verdict (verdict_checkedResult _ _ not_false)

theorem decided_binomial_unchecked :
    Decided (binomial logarithms (settings.binding false) elements chosen) False
      (Separated (min part (total - part) * total.choose part))
      (largestNumber < min part (total - part) * total.choose part) := by
  have sound := soundCheck_choice enough accurate
  have isTotal := (isArgument_binding false).mpr isElements "binomial"
  have isPart := (isArgument_binding false).mpr isChosen "binomial"
  unfold binomial
  rw [isTotal, except_ok_bind, isPart, except_ok_bind, if_neg (by omega)]
  dsimp only
  rw [if_neg not_checked]
  refine ⟨_, verdict_refused _ _ not_false (verdict_uncheckedResult _ _ not_false),
    fun separated => ?_⟩
  rw [← choose_min enough] at separated ⊢
  cases isRefused : logarithms.refusesChoice total (min part (total - part)) with
  | true =>
      -- Nothing is refused when nothing is chosen, so the product is not below the coefficient.
      have positive : 0 < min part (total - part) := by
        rw [Logarithms.refusesChoice, Bool.and_eq_true, decide_eq_true_eq] at isRefused
        exact isRefused.1
      have large := sound.refuses (congrArg Except.ok isRefused)
      rw [← choose_min enough] at large
      exact iff_of_true (.inl rfl) (large.trans_le (Nat.le_mul_of_pos_left _ positive))
  | false =>
      have few := sound.passes (congrArg Except.ok isRefused)
      rw [or_iff_right Bool.false_ne_true]
      exact isInf_choices (by omega) few separated

include gamma

theorem decided_permutation_checked :
    Decided (permutation logarithms (settings.binding true) elements chosen)
      (logarithms.logGamma (part + 1) = .error .logGammaOverflow) True
      (largestNumber < total.descFactorial part) := by
  rw [permutation_of_checked rfl enough accurate ((isArgument_binding true).mpr isElements)
    ((isArgument_binding true).mpr isChosen)]
  exact decided_afterGamma gamma _ fun _ _ =>
    decided_of_verdict (verdict_checkedResult _ _ not_false)

theorem decided_permutation_unchecked :
    Decided (permutation logarithms (settings.binding false) elements chosen)
      (logarithms.logGamma (part + 1) = .error .logGammaOverflow)
      (Separated (total.descFactorial part)) (largestNumber < total.descFactorial part) := by
  have sound := soundCheck_arrangement enough accurate
  have isTotal := (isArgument_binding false).mpr isElements "permutation"
  have isPart := (isArgument_binding false).mpr isChosen "permutation"
  unfold Logarithms.refusesArrangement at sound
  unfold permutation Logarithms.refusesArrangement
  rw [isTotal, except_ok_bind, isPart, except_ok_bind, if_neg (by omega),
    if_neg not_checked]
  simp only [bind_assoc, except_pure, except_ok_bind] at sound ⊢
  refine decided_afterGamma gamma _ fun logarithm isLogarithm => ?_
  rw [isLogarithm, except_ok_bind] at sound
  obtain ⟨refused, isRefused⟩ : ∃ refused, decide (logarithms.limit <
      if logarithms.powerBound total part < logarithm then logarithm
      else logarithms.powerBound total part) = refused := ⟨_, rfl⟩
  rw [isRefused] at sound ⊢
  refine ⟨_, verdict_refused _ _ not_false (verdict_uncheckedResult _ _ not_false),
    fun separated => ?_⟩
  cases refused with
  | true => exact iff_of_true (.inl rfl) (sound.refuses rfl)
  | false =>
      rw [or_iff_right Bool.false_ne_true]
      exact isInf_arrangements enough (sound.passes rfl) separated

omit enough accurate isElements isChosen gamma

/-- How a call with valid arguments ends. -/
theorem decided_run (limit : settings.factorialLimit = 170) (gamma : logarithms.GammaReturns)
    {call : Call} (hasArguments : call.HasArguments settings total part) (enough : part ≤ total)
    (accurate : logarithms.AccurateAt total part) (checked : Bool) :
    Decided (call.run logarithms (settings.binding checked))
      (call.GammaFails logarithms checked part)
      (checked = true ∨ Separated (call.product total part))
      (largestNumber < call.reach checked total part) := by
  have needed : logarithms.logGamma (part + 1) = .error .logGammaOverflow ↔
      true = true ∧ logarithms.logGamma (part + 1) = .error .logGammaOverflow :=
    (and_iff_right rfl).symm
  have unneeded : False ↔
      false = true ∧ logarithms.logGamma (part + 1) = .error .logGammaOverflow :=
    ⟨False.elim, fun both => nomatch both.1⟩
  cases hasArguments with
  | factorial isArgument =>
      have decided := decided_factorial limit gamma accurate isArgument checked
      cases checked <;> exact decided _
  | binomial isElements isChosen =>
      cases checked with
      | true =>
          exact (decided_binomial_checked enough accurate isElements isChosen).mono unneeded
            fun _ => trivial
      | false =>
          exact (decided_binomial_unchecked enough accurate isElements isChosen).mono unneeded
            fun certain => certain.resolve_left Bool.false_ne_true
  | permutation isElements isChosen =>
      cases checked with
      | true =>
          exact (decided_permutation_checked gamma enough accurate isElements isChosen).mono needed
            fun _ => trivial
      | false =>
          exact (decided_permutation_unchecked gamma enough accurate isElements isChosen).mono
            needed fun certain => certain.resolve_left Bool.false_ne_true

/-- A double is an argument of every function or of none. -/
theorem isArgument_or_notWhole (settings : Settings) (value : Float) :
    (∃ number, IsArgument settings value number) ∨
      ∀ function, wholeArgument settings function value = .error (.notWhole function value) := by
  unfold IsArgument wholeArgument
  cases nearestInt? value with
  | none => exact .inr fun _ => rfl
  | some nearest =>
      dsimp only
      split
      · exact .inr fun _ => rfl
      · exact .inl ⟨_, fun _ => rfl⟩

/-- A call with two arguments ends alike in both bindings if it does where the arguments are
whole numbers. -/
theorem bind_of_invalid {rest : Bool → ℕ → ℕ → Outcome Float} (function : String)
    (early : Outcome Float)
    (isEarly : ∀ total part, IsArgument settings elements total → IsArgument settings chosen part →
      ∀ checked, rest checked total part = early)
    (earlyInvalid : ∀ fault, early = .error fault → fault.isInvalidArgument = true) :
    ∃ outcome, (∀ checked : Bool, (do
        let total ← wholeArgument (settings.binding checked) function elements
        let part ← wholeArgument (settings.binding checked) function chosen
        rest checked total part) = outcome) ∧
      ∀ fault, outcome = .error fault → fault.isInvalidArgument = true := by
  obtain ⟨total, isElements⟩ | notWhole := isArgument_or_notWhole settings elements
  · obtain ⟨part, isChosen⟩ | notWhole := isArgument_or_notWhole settings chosen
    · refine ⟨early, fun checked => ?_, earlyInvalid⟩
      rw [(isArgument_binding checked).mpr isElements, except_ok_bind,
        (isArgument_binding checked).mpr isChosen, except_ok_bind]
      exact isEarly total part isElements isChosen checked
    · refine ⟨.error (.notWhole function chosen), fun checked => ?_, by rintro _ ⟨⟩; rfl⟩
      rw [(isArgument_binding checked).mpr isElements, except_ok_bind]
      exact congrArg (· >>= _) (notWhole function)
  · refine ⟨.error (.notWhole function elements), fun checked => ?_, by rintro _ ⟨⟩; rfl⟩
    exact congrArg (· >>= _) (notWhole function)

/-- A call without valid arguments ends alike in both bindings: with an invalid argument or,
if more elements are chosen than there are, with the value zero. -/
theorem run_of_invalid (logarithms : Logarithms) {call : Call}
    (invalid : ∀ total part, call.HasArguments settings total part → total < part) :
    ∃ outcome, (∀ checked, call.run logarithms (settings.binding checked) = outcome) ∧
      ∀ fault, outcome = .error fault → fault.isInvalidArgument = true := by
  cases call with
  | factorial argument =>
      obtain ⟨number, isArgument⟩ | notWhole := isArgument_or_notWhole settings argument
      · exact absurd (invalid _ _ (.factorial isArgument)) (lt_irrefl number)
      · refine ⟨.error (.notWhole "factorial" argument), fun checked => ?_, ?_⟩
        · exact congrArg (· >>= _) (notWhole "factorial")
        · rintro _ ⟨⟩
          rfl
  | binomial elements chosen =>
      refine bind_of_invalid "binomial" (.ok 0.0)
        (fun total part isElements isChosen checked => ?_) nofun
      exact if_pos (invalid _ _ (.binomial isElements isChosen))
  | permutation elements chosen =>
      refine bind_of_invalid "permutation" (.error .tooFewElements)
        (fun total part isElements isChosen checked => ?_) ?_
      · exact if_pos (invalid _ _ (.permutation isElements isChosen))
      · rintro _ ⟨⟩
        rfl

/-- A logarithm of the gamma function that overflows is that of a factorial which is beyond the
largest double. -/
theorem largestNumber_lt_of_gammaFails (gamma : logarithms.GammaReturns) {call : Call}
    (hasArguments : call.HasArguments settings total part) (enough : part ≤ total) {checked : Bool}
    (fails : call.GammaFails logarithms checked part) :
    largestNumber < call.count total part := by
  obtain ⟨needed, failed⟩ := fails
  have large : largestNumber < part ! := by
    refine largestNumber_lt_factorial (not_le.mp fun small => ?_)
    obtain ⟨value, isValue⟩ := gamma.returns (part + 1) (by omega)
    rw [isValue] at failed
    cases failed
  cases hasArguments with
  | factorial isArgument => exact large
  | binomial isElements isChosen => cases needed
  | permutation isElements isChosen => exact large.trans_le (factorial_le_descFactorial enough)

/-- With a limit of 170 for unchecked factorials, a call refuses the same arguments in both
bindings, and raises nothing else but an overflow.  In either binding this is the overflow of the
logarithm of the gamma function, if the call asks for it, or it is that of the result, exactly if
the exact count is beyond the largest double for a checked call, and the largest product for an
unchecked one; of the product it is assumed that it is not very near to the largest double. -/
theorem bindings_overflow (limit : settings.factorialLimit = 170)
    (gamma : logarithms.GammaReturns) (call : Call)
    (accurate : ∀ total part, call.HasArguments settings total part → part ≤ total →
      logarithms.AccurateAt total part) :
    (Rejects (call.run logarithms (settings.binding true)) ↔
        Rejects (call.run logarithms (settings.binding false))) ∧
      (∀ checked fault, call.run logarithms (settings.binding checked) = .error fault →
        fault.isInvalidArgument = true ∨ fault.isOverflow = true ∨ fault = .logGammaOverflow) ∧
      ((∀ total part, call.HasArguments settings total part → total < part) →
        call.run logarithms (settings.binding true) =
            call.run logarithms (settings.binding false) ∧
          ¬ Overflows (call.run logarithms (settings.binding true))) ∧
      ∀ total part, call.HasArguments settings total part → part ≤ total → ∀ checked,
        (call.run logarithms (settings.binding checked) = .error .logGammaOverflow ↔
          call.GammaFails logarithms checked part) ∧
        (call.GammaFails logarithms checked part → largestNumber < call.count total part) ∧
        (checked = true ∨ Separated (call.product total part) →
          (Overflows (call.run logarithms (settings.binding checked)) ↔
            largestNumber < call.reach checked total part ∧
              ¬ call.GammaFails logarithms checked part)) := by
  have valid {total part : ℕ} (hasArguments : call.HasArguments settings total part)
      (enough : part ≤ total) (checked : Bool) :=
    decided_run limit gamma hasArguments enough (accurate _ _ hasArguments enough) checked
  by_cases invalid : ∀ total part, call.HasArguments settings total part → total < part
  · -- Both bindings end before anything is computed.
    obtain ⟨outcome, same, onlyInvalid⟩ := run_of_invalid logarithms invalid
    have noOverflow : ¬ Overflows outcome := by
      rintro ⟨fault, failed, isOverflow⟩
      have isInvalid := onlyInvalid fault failed
      cases fault <;> cases isOverflow <;> cases isInvalid
    have sameRuns := (same true).trans (same false).symm
    refine ⟨by rw [sameRuns], fun checked fault failed => ?_, fun _ => ⟨sameRuns, ?_⟩,
      fun total part hasArguments enough => ?_⟩
    · rw [same] at failed
      exact .inl (onlyInvalid fault failed)
    · rwa [same]
    · exact absurd (invalid _ _ hasArguments) enough.not_gt
  · push Not at invalid
    obtain ⟨total, part, hasArguments, enough⟩ := invalid
    have onlyOverflow (checked : Bool) (fault : EvaluationFault Float)
        (failed : call.run logarithms (settings.binding checked) = .error fault) :
        fault.isOverflow = true ∨ fault = .logGammaOverflow := by
      obtain ⟨tooLarge, verdict, -⟩ := valid hasArguments enough checked
      exact verdict.fault_cases failed
    have noRejection (checked : Bool) :
        ¬ Rejects (call.run logarithms (settings.binding checked)) := by
      rintro ⟨fault, failed, isInvalid⟩
      rcases onlyOverflow checked fault failed with isOverflow | rfl
      · cases fault <;> cases isOverflow <;> cases isInvalid
      · cases isInvalid
    refine ⟨iff_of_false (noRejection true) (noRejection false), fun checked fault failed =>
      .inr (onlyOverflow checked fault failed), fun none => ?_, ?_⟩
    · exact absurd (none _ _ hasArguments) enough.not_gt
    · intro total part hasArguments enough checked
      obtain ⟨tooLarge, verdict, isLarge⟩ := valid hasArguments enough checked
      refine ⟨verdict.gamma_iff, largestNumber_lt_of_gammaFails gamma hasArguments enough,
        fun certain => ?_⟩
      rw [verdict.overflows_iff, isLarge certain, Ne, verdict.gamma_iff]

end Calls

section Disagreement

/-- The logarithms for the number of ways to choose four of `2 ^ 257` elements, to the accuracy
of doubles. -/
def logarithmsOfLargeChoice : Logarithms where
  log value :=
    if value == Binary64.largest then 709.782712893384
    else if value == ofInt (Nat.pow 2 255) then 176.75253104278605
    else 178.13882540390594
  logGamma number := if number ≤ 171 then .ok 3.1780538303479458 else .error .logGammaOverflow

theorem accurateAt_largeChoice : logarithmsOfLargeChoice.AccurateAt (2 ^ 257) 4 := by
  have lower := Real.log_two_gt_d9
  have upper := Real.log_two_lt_d9
  have smaller : min 4 (2 ^ 257 - 4) = 4 := Nat.min_eq_left (by decide +kernel)
  refine ⟨approximates_log_largestNumber (by decide +kernel), fun _ => ?_, ?_, ?_⟩
  · have isBound : toRat? (logarithmsOfLargeChoice.choiceBound (2 ^ 257) 4) =
        some (6218926819852213 / 2 ^ 43) := by decide +kernel
    have isRatio : ((2 ^ 257 : ℕ) : ℝ) / (4 : ℕ) = 2 ^ 255 := by
      rw [div_eq_iff (by norm_num), Nat.cast_pow, Nat.cast_ofNat, Nat.cast_ofNat,
        show (4 : ℝ) = 2 ^ 2 by norm_num, ← pow_add]
    rw [smaller, isRatio, Real.log_pow]
    refine .finite isBound (abs_le.mpr ⟨?_, ?_⟩) <;> push_cast <;> linarith
  · have isBound : toRat? (logarithmsOfLargeChoice.powerBound (2 ^ 257) 4) =
        some (6267702716478505 / 2 ^ 43) := by decide +kernel
    obtain ⟨others, isOthers, close, small⟩ : ∃ others, 2 ^ 257 - 4 = others ∧
        10 ^ 9 * 2 ^ 257 ≤ (10 ^ 9 + 1) * (others + 1) ∧ others + 1 ≤ 2 ^ 257 :=
      ⟨_, rfl, by decide +kernel, by decide +kernel⟩
    have below := mul_log_two_le others.succ_pos close
    have above := log_le_mul_log_two others.succ_pos small
    push_cast at below above
    rw [isOthers]
    refine .finite isBound (abs_le.mpr ⟨?_, ?_⟩) <;> push_cast <;> linarith
  · rintro _ ⟨⟩
    have isValue : toRat? 3.1780538303479458 = some (7156341023059193 / 2 ^ 51) := by
      decide +kernel
    have isLog : Real.log (Real.Gamma ((4 : ℕ) + 1)) = 3 * Real.log 2 + Real.log 3 := by
      rw [Real.Gamma_nat_eq_factorial, show (4 ! : ℝ) = 2 ^ 3 * 3 by norm_num [Nat.factorial],
        Real.log_mul (by norm_num) (by norm_num), Real.log_pow, Nat.cast_ofNat]
    have lowerThree := Real.log_three_gt_d9
    have upperThree := Real.log_three_lt_d9
    rw [isLog]
    refine .finite isValue (abs_le.mpr ⟨?_, ?_⟩) <;> push_cast <;> linarith

theorem gammaReturns_largeChoice : logarithmsOfLargeChoice.GammaReturns where
  fails number fault failed := by
    unfold logarithmsOfLargeChoice at failed
    dsimp only at failed
    split at failed <;> cases failed
    rfl
  returns number small := ⟨_, if_pos small⟩

theorem IsArgument.unique {settings : Settings} {value : Float} {first second : ℕ}
    (isFirst : IsArgument settings value first) (isSecond : IsArgument settings value second) :
    first = second :=
  Except.ok.inj ((isFirst "").symm.trans (isSecond ""))

theorem exists_largeChoice : ∃ total, total = 2 ^ 257 ∧ 4 ≤ total ∧
    total.choose 4 ≤ largestNumber ∧ largestNumber < min 4 (total - 4) * total.choose 4 ∧
      Separated (min 4 (total - 4) * total.choose 4) := by
  refine ⟨_, rfl, ?_⟩
  rw [Nat.choose_eq_descFactorial_div_factorial]
  decide +kernel

/-- Choosing four of `2 ^ 257` elements: the number of ways is a double, but four times as many
are not. -/
theorem bindings_overflow_large_choice :
    (Settings.standard.factorialLimit = 170 ∧ logarithmsOfLargeChoice.GammaReturns ∧
        logarithmsOfLargeChoice.AccurateAt (2 ^ 257) 4) ∧
      ¬ Overflows (binomial logarithmsOfLargeChoice (Settings.standard.binding true)
        (ofInt (Nat.pow 2 257)) 4.0) ∧
      Overflows (binomial logarithmsOfLargeChoice (Settings.standard.binding false)
        (ofInt (Nat.pow 2 257)) 4.0) := by
  obtain ⟨total, isTotal, enough, small, large, separated⟩ := exists_largeChoice
  have accurateAt := accurateAt_largeChoice
  have isElements : IsArgument .standard (ofInt (Nat.pow 2 257)) (2 ^ 257) :=
    isArgument_of_nearest (by decide +kernel) (by decide +kernel)
  have isChosen : IsArgument .standard 4.0 4 :=
    isArgument_of_nearest (by decide +kernel) (by decide +kernel)
  rw [← isTotal] at accurateAt isElements ⊢
  have hasArguments := Call.HasArguments.binomial isElements isChosen
  have accurate (elements part : ℕ)
      (other : Call.HasArguments .standard (.binomial (ofInt (Nat.pow 2 257)) 4.0) elements part)
      (_ : part ≤ elements) : logarithmsOfLargeChoice.AccurateAt elements part := by
    cases other with
    | binomial isOther isPart =>
        rw [isOther.unique isElements, isPart.unique isChosen]
        exact accurateAt
  obtain ⟨-, -, -, overflows⟩ := bindings_overflow rfl gammaReturns_largeChoice _ accurate
  refine ⟨⟨rfl, gammaReturns_largeChoice, accurateAt⟩, fun checkedOverflow => ?_, ?_⟩
  · have checkedCall := (overflows total 4 hasArguments enough true).2.2 (.inl rfl)
    exact (checkedCall.mp checkedOverflow).1.not_ge small
  · have uncheckedCall := (overflows total 4 hasArguments enough false).2.2 (.inr separated)
    exact uncheckedCall.mpr ⟨large, fun fails => nomatch fails.1⟩

end Disagreement

end Combinatorics

end ExprCalculus

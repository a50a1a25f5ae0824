import ExprCalculus.Proofs.Grammar.Completeness
import ExprCalculus.Proofs.Grammar.Outlines
import ExprCalculus.Proofs.Grammar.Soundness

/-!
# The token that the reader reports

The reader goes on as long as the tokens can still become an outline.  When it stops with an
error other than a wrong number of arguments, what it has read can be completed, and the token
that it reports cannot come next.  A step that succeeds reads an outline and stops where no
longer one goes on.  Both are shown together, by the recursion of the reader.
-/

namespace ExprCalculus

namespace Grammar

open Stage

/-- A token cannot come next after some tokens in front, which can still be completed to a
whole of a given form. -/
def Blames (stop : Token) (stage : Stage) (tokens : List Token) (whole : List Token → Prop)
    (token : Token) : Prop :=
  ∃ before after reached completion, tokens ++ [stop] = before ++ token :: after ∧
    stage.Leads before reached ∧ reached.Blocks token ∧ completion ⊆ fillers ∧
    whole (before ++ completion)

section Blames

variable {stop token : Token} {stage middle : Stage} {tokens consumed : List Token}
  {part whole : List Token → Prop}

/-- The next token is the one that cannot come next. -/
theorem Blames.head (blocks : stage.Blocks (tokens.headD stop))
    (completes : ∃ completion, completion ⊆ fillers ∧ whole completion) :
    Blames stop stage tokens whole (tokens.headD stop) := by
  obtain ⟨completion, filling, isWhole⟩ := completes
  cases tokens with
  | nil => exact ⟨[], [], stage, completion, rfl, leads_nil, blocks, filling, isWhole⟩
  | cons head rest =>
      exact ⟨[], rest ++ [stop], stage, completion, rfl, leads_nil, blocks, filling, isWhole⟩

/-- The token is reported after more tokens in front. -/
theorem Blames.under (blames : Blames stop middle tokens part token)
    (leads : stage.Leads consumed middle)
    (joins : ∀ list, part list →
      ∃ ending, ending ⊆ fillers ∧ whole (consumed ++ (list ++ ending))) :
    Blames stop stage (consumed ++ tokens) whole token := by
  obtain ⟨before, after, reached, completion, split, leadsOn, blocks, filling, isPart⟩ := blames
  obtain ⟨ending, fillingEnd, isWhole⟩ := joins _ isPart
  refine ⟨consumed ++ before, after, reached, completion ++ ending, ?_, leads.append leadsOn,
    blocks, List.append_subset.mpr ⟨filling, fillingEnd⟩, ?_⟩
  · rw [List.append_assoc, split, List.append_assoc]
  · rw [List.append_assoc, ← List.append_assoc before]
    exact isWhole

end Blames

section Outlining

theorem Outlines.ne_nil {phrase : Phrase} {tokens : List Token} :
    Outlines phrase tokens → tokens ≠ []
  | .product first | .factor first | .unsigned first | .base first | .unmarked first =>
      first.ne_nil
  | .sum .. | .multiple .. | .raised .. | .factorial .. => by simp
  | .negation .. | .affirmation .. | .number _ | .constant _ | .variableName _ | .call ..
  | .parentheses .. => List.cons_ne_nil _ _

/-- A name is an outline of every phrase. -/
theorem outlines_filler (phrase : Phrase) :
    ∃ completion, completion ⊆ fillers ∧ Outlines phrase completion := by
  have isPrimary : Outlines .primary [⟨.identifier, "x", 0⟩] := .variableName rfl
  refine ⟨_, List.cons_subset.mpr ⟨List.mem_cons_self, List.nil_subset _⟩, ?_⟩
  cases phrase with
  | additive => exact .product (.factor (.unsigned (.base (.unmarked isPrimary))))
  | multiplicative => exact .factor (.unsigned (.base (.unmarked isPrimary)))
  | unary => exact .unsigned (.base (.unmarked isPrimary))
  | power => exact .base (.unmarked isPrimary)
  | postfixed => exact .unmarked isPrimary
  | primary => exact isPrimary

end Outlining

end Grammar

namespace Token

/-- The text of a number, a constant, a function or an identifier fits that kind. -/
def Fits (token : Token) : Prop :=
  token.kind ∈ [Kind.number, .constant, .function, .identifier] → token.IsLexeme

end Token

namespace ParseError

def IsArity (problem : ParseError) : Prop :=
  ∃ expected actual, problem.cause = .arity expected actual

end ParseError

namespace Parser

open Grammar Stage

/-- A result is good, or it is a wrong number of arguments or blames a token, unless the text
of some token does not fit. -/
def Settles {β : Type} (stop : Token) (stage : Stage) (tokens : List Token)
    (whole : List Token → Prop) (good : β → Prop) : Except ReadError β → Prop
  | .ok value => good value
  | .error error => (∀ token ∈ tokens, token.Fits) → ∃ problem, error = .grammatical problem ∧
      (problem.IsArity ∨ Blames stop stage tokens whole problem.token)

section Settles

variable {β γ : Type} {stop : Token} {stage middle : Stage} {tokens consumed : List Token}
  {part whole : List Token → Prop} {good : β → Prop} {result : Except ReadError β}

theorem Settles.bind {further : β → Except ReadError γ} {best : γ → Prop}
    (settles : Settles stop stage tokens whole good result)
    (continues : ∀ value, good value → Settles stop stage tokens whole best (further value)) :
    Settles stop stage tokens whole best (result.bind further) := by
  cases result with
  | ok value => exact continues value settles
  | error error => exact settles

theorem Settles.map {image : β → γ} {best : γ → Prop}
    (settles : Settles stop stage tokens whole good result)
    (implies : ∀ value, good value → best (image value)) :
    Settles stop stage tokens whole best (result.map image) := by
  cases result with
  | ok value => exact implies value settles
  | error error => exact settles

theorem Settles.imp {better : β → Prop} (settles : Settles stop stage tokens whole good result)
    (implies : ∀ value, good value → better value) :
    Settles stop stage tokens whole better result := by
  cases result with
  | ok value => exact implies value settles
  | error error => exact settles

/-- A result after more tokens in front. -/
theorem Settles.under (settles : Settles stop middle tokens part good result)
    (leads : stage.Leads consumed middle)
    (joins : ∀ list, part list →
      ∃ ending, ending ⊆ fillers ∧ whole (consumed ++ (list ++ ending))) :
    Settles stop stage (consumed ++ tokens) whole good result := by
  cases result with
  | ok value => exact settles
  | error error =>
      intro fits
      obtain ⟨problem, same, blame⟩ := settles fun token member =>
        fits token (List.mem_append_right _ member)
      exact ⟨problem, same, blame.imp_right fun blames => blames.under leads joins⟩

/-- A result of a tighter phrase. -/
theorem Settles.looser (settles : Settles stop stage tokens part good result)
    (widens : ∀ list, part list → whole list) : Settles stop stage tokens whole good result := by
  refine settles.under leads_nil fun list isPart => ⟨[], List.nil_subset _, ?_⟩
  rw [List.append_nil]
  exact widens list isPart

/-- A result after one more token in front. -/
theorem Settles.under_token {token : Token} (settles : Settles stop middle tokens part good result)
    (next : stage.next? token = some middle) (joins : ∀ list, part list → whole (token :: list)) :
    Settles stop stage (token :: tokens) whole good result := by
  refine settles.under (leads_single next) fun list isPart => ⟨[], List.nil_subset _, ?_⟩
  rw [List.append_nil]
  exact joins list isPart

/-- The next token is reported. -/
theorem Settles.head {cause : ParseError.Cause} (blocks : stage.Blocks (tokens.headD stop))
    (completes : ∃ completion, completion ⊆ fillers ∧ whole completion) :
    Settles stop stage tokens whole good
      (.error (.grammatical ⟨cause, tokens.headD stop⟩)) :=
  fun _ => ⟨_, rfl, .inr (.head blocks completes)⟩

end Settles

section Blocking

variable {afterOperator : Bool} {enclosures : List Enclosure} {token : Token}

/-- What may not follow an operator is neither an operand nor a minus sign. -/
theorem blocks_of_mayFollowOperator (refused : mayFollowOperator token = false) :
    Blocks ⟨.operand true, enclosures⟩ token := by
  refine ⟨?_, fun _ => rfl⟩
  unfold mayFollowOperator at refused
  unfold next? afterOperand?
  split at refused <;> simp_all

/-- A closing parenthesis is no operand. -/
theorem blocks_of_closing (kind : token.kind = .rightParenthesis) :
    Blocks ⟨.operand afterOperator, enclosures⟩ token :=
  ⟨by simp [next?, afterOperand?, kind], fun _ => rfl⟩

/-- What begins no primary and is no sign is no operand. -/
theorem blocks_of_other (kind : token.kind = .operator ∨ token.kind = .rightParenthesis ∨
      token.kind = .comma ∨ token.kind = .factorial ∨ token.kind = .finish)
    (unsigned : ¬ IsSign token .subtract ∧ ¬ IsSign token .add) :
    Blocks ⟨.operand afterOperator, enclosures⟩ token := by
  refine ⟨?_, fun _ => rfl⟩
  rcases kind with kind | kind | kind | kind | kind <;> simp only [next?, afterOperand?, kind]
  have notMinus : token.text ≠ "-" := fun same => unsigned.1 ⟨kind, congrArg some same.symm⟩
  have notPlus : token.text ≠ "+" := fun same => unsigned.2 ⟨kind, congrArg some same.symm⟩
  simp [notMinus, notPlus]

/-- The end token is no operand. -/
theorem blocks_of_finish (finished : token.kind = .finish) :
    Blocks ⟨.operand afterOperator, enclosures⟩ token :=
  ⟨by simp [next?, afterOperand?, finished], fun _ => rfl⟩

/-- What follows the name of a function is an opening parenthesis. -/
theorem blocks_of_unopened (kind : token.kind ≠ .leftParenthesis) :
    Blocks ⟨.opening, enclosures⟩ token :=
  ⟨by simp [next?, kind], fun _ => rfl⟩

/-- What goes on with no sum is no sign. -/
theorem not_isSign_of_endsSum {rest : List Token} (ends : EndsSum (token :: rest))
    (operator : BinaryOperator) : ¬ IsSign token operator := by
  intro isSign
  cases operator with
  | add | subtract => exact ends.2 token rfl _ isSign rfl
  | multiply | divide | modulo => exact ends.1.2 token rfl _ isSign rfl
  | power => exact (ends.1.1 token rfl).2 isSign
  | logBase => cases isSign.2

theorem exists_symbol :
    ∀ text ∈ signs, ∃ operator, BinaryOperator.symbol? operator = some text := by
  simp only [signs, List.forall_mem_cons]
  exact ⟨⟨.add, rfl⟩, ⟨.subtract, rfl⟩, ⟨.multiply, rfl⟩, ⟨.divide, rfl⟩, ⟨.power, rfl⟩,
    ⟨.modulo, rfl⟩, List.forall_mem_nil _⟩

/-- What goes on with no sum goes on with nothing but a parenthesis or a comma. -/
theorem blocks_of_endsSum {afterName : Bool} {tokens : List Token} {stop : Token}
    (finished : stop.kind = .finish) (ends : EndsSum tokens)
    (notCall : afterName = true → ∀ next ∈ tokens.head?, next.kind ≠ .leftParenthesis)
    (unclosed : (tokens.headD stop).kind = .rightParenthesis → afterClosing? enclosures = none)
    (unseparated : (tokens.headD stop).kind = .comma → afterComma? enclosures = none)
    (incomplete : (tokens.headD stop).kind = .finish → enclosures ≠ []) :
    Blocks ⟨.operator afterName, enclosures⟩ (tokens.headD stop) := by
  refine ⟨?_, fun kind => ?_⟩
  · cases tokens with
    | nil => simp [next?, afterOperator?, finished]
    | cons token rest =>
        rw [List.headD_cons] at unclosed unseparated ⊢
        simp only [next?, afterOperator?]
        cases kind : token.kind with
        | number | constant | identifier | function | finish => rfl
        | factorial => exact absurd kind (ends.1.1 token rfl).1
        | rightParenthesis => exact unclosed kind
        | comma => exact unseparated kind
        | leftParenthesis => exact if_neg fun after => notCall after token rfl kind
        | operator =>
            refine if_neg fun listed => ?_
            obtain ⟨operator, named⟩ := exists_symbol _ (List.contains_iff_mem.mp listed)
            exact not_isSign_of_endsSum ends operator ⟨kind, named⟩
  · have enclosed := incomplete kind
    cases enclosures with
    | nil => exact absurd rfl enclosed
    | cons enclosure outer => rfl

end Blocking

/-- An outline that was read in front of the rest, and a name at its end does not begin a
call. -/
structure Reached (phrase : Phrase) (afterOperator : Bool) (enclosures : List Enclosure)
    (consumed rest : List Token) : Prop where
  outlines : Outlines phrase consumed
  leads : ∃ afterName,
    Leads ⟨.operand afterOperator, enclosures⟩ consumed ⟨.operator afterName, enclosures⟩ ∧
      (afterName = true → ∀ next ∈ rest.head?, next.kind ≠ .leftParenthesis)

/-- The tokens in front of the rest are an outline that was read. -/
def Passes (phrase : Phrase) (afterOperator : Bool) (enclosures : List Enclosure)
    (tokens rest : List Token) : Prop :=
  ∃ consumed, tokens = consumed ++ rest ∧ Reached phrase afterOperator enclosures consumed rest

/-- The tokens in front of the rest are arguments that were read. -/
def PassesArguments (enclosures : List Enclosure) (tokens rest : List Token) : Prop :=
  ∃ consumed, tokens = consumed ++ rest ∧ OutlinesArguments consumed ∧
    Leads ⟨.operand false, .call :: enclosures⟩ consumed ⟨.operator false, enclosures⟩

section Reached

variable {phrase wider other : Phrase} {afterOperator : Bool} {enclosures : List Enclosure}
  {consumed second tokens rest : List Token} {token : Token} {operator : BinaryOperator}

theorem Reached.looser (reached : Reached phrase afterOperator enclosures consumed rest)
    (widens : Outlines phrase consumed → Outlines wider consumed) :
    Reached wider afterOperator enclosures consumed rest :=
  ⟨widens reached.outlines, reached.leads⟩

theorem Reached.length_lt (reached : Reached phrase afterOperator enclosures consumed rest) :
    rest.length < (consumed ++ rest).length := by
  rw [List.length_append]
  exact Nat.lt_add_of_pos_left (List.length_pos_iff.mpr reached.outlines.ne_nil)

/-- An operator comes after what was read. -/
theorem Reached.leads_sign (reached : Reached phrase afterOperator enclosures consumed tokens)
    (isSign : IsSign token operator) :
    Leads ⟨.operand afterOperator, enclosures⟩ (consumed ++ [token])
      ⟨.operand true, enclosures⟩ := by
  obtain ⟨_, leads, -⟩ := reached.leads
  exact leads.append (leads_single (next?_sign isSign))

/-- What was read, an operator, and what was read after it. -/
theorem Reached.through (reached : Reached phrase afterOperator enclosures consumed tokens)
    (isSign : IsSign token operator) (further : Reached other true enclosures second rest)
    (outline : Outlines wider (consumed ++ token :: second)) :
    Reached wider afterOperator enclosures (consumed ++ token :: second) rest := by
  obtain ⟨afterName, leads, notCall⟩ := further.leads
  refine ⟨outline, afterName, ?_, notCall⟩
  rw [List.append_cons]
  exact (reached.leads_sign isSign).append leads

/-- What was read after a sign in front. -/
theorem Reached.under_token (reached : Reached phrase true enclosures consumed rest)
    (next : Stage.next? ⟨.operand afterOperator, enclosures⟩ token =
      some ⟨.operand true, enclosures⟩)
    (outline : Outlines wider (token :: consumed)) :
    Passes wider afterOperator enclosures (token :: (consumed ++ rest)) rest := by
  obtain ⟨afterName, leads, notCall⟩ := reached.leads
  exact ⟨token :: consumed, rfl, outline, afterName, leads_cons.mpr ⟨_, next, leads⟩, notCall⟩

/-- A token that is an operand by itself. -/
theorem Reached.single {afterName : Bool} (outline : Outlines .primary [token])
    (next : Stage.next? ⟨.operand afterOperator, enclosures⟩ token =
      some ⟨.operator afterName, enclosures⟩)
    (notCall : afterName = true → ∀ next ∈ rest.head?, next.kind ≠ .leftParenthesis) :
    Passes .primary afterOperator enclosures (token :: rest) rest :=
  ⟨[token], rfl, outline, afterName, leads_single next, notCall⟩

/-- Factorial marks after what was read. -/
theorem Reached.marked (reached : Reached .postfixed afterOperator enclosures consumed tokens)
    (operand : Expr Float) :
    Passes .postfixed afterOperator enclosures (consumed ++ tokens) (marked operand tokens).2 ∧
      ∀ next ∈ (marked operand tokens).2.head?, next.kind ≠ .factorial := by
  induction tokens generalizing operand consumed with
  | nil => exact ⟨⟨consumed, rfl, reached⟩, by rintro _ ⟨⟩⟩
  | cons token rest ih =>
      by_cases mark : token.kind = .factorial
      · obtain ⟨_, leads, -⟩ := reached.leads
        have longer : Reached .postfixed afterOperator enclosures (consumed ++ [token]) rest :=
          ⟨.factorial reached.outlines mark, false,
            leads.append (leads_single (next?_factorial mark)), by simp⟩
        rw [marked_of_factorial mark, List.append_cons]
        exact ih longer _
      · rw [marked_of_not_factorial (by rintro _ ⟨⟩; exact mark)]
        exact ⟨⟨consumed, rfl, reached⟩, by rintro _ ⟨⟩; exact mark⟩

variable {stop : Token} {β : Type} {good : β → Prop} {result : Except ReadError β}
  {whole : List Token → Prop}

/-- What is read after an operator, seen from in front of what was read before it. -/
theorem Reached.under_sign (reached : Reached phrase afterOperator enclosures consumed tokens)
    (isSign : IsSign token operator)
    (settles : Settles stop ⟨.operand true, enclosures⟩ rest (Outlines other) good result)
    (joins : ∀ list, Outlines other list → whole (consumed ++ token :: list)) :
    Settles stop ⟨.operand afterOperator, enclosures⟩ (consumed ++ token :: rest) whole good
      result := by
  rw [List.append_cons]
  refine settles.under (reached.leads_sign isSign) fun list outline => ⟨[], List.nil_subset _, ?_⟩
  rw [List.append_nil, ← List.append_cons]
  exact joins list outline

/-- The token after what was read is reported. -/
theorem Reached.blames {cause : ParseError.Cause}
    (reached : Reached phrase afterOperator enclosures consumed tokens)
    (blocks : ∀ afterName, (afterName = true → ∀ next ∈ tokens.head?,
      next.kind ≠ .leftParenthesis) → Blocks ⟨.operator afterName, enclosures⟩ (tokens.headD stop))
    (completes : ∃ completion, completion ⊆ fillers ∧ whole (consumed ++ completion)) :
    Settles stop ⟨.operand afterOperator, enclosures⟩ (consumed ++ tokens) whole good
      (.error (.grammatical ⟨cause, tokens.headD stop⟩)) := by
  obtain ⟨afterName, leads, notCall⟩ := reached.leads
  obtain ⟨completion, filling, isWhole⟩ := completes
  have head : Settles stop ⟨.operator afterName, enclosures⟩ tokens (· = []) good
      (.error (.grammatical ⟨cause, tokens.headD stop⟩)) :=
    Settles.head (blocks afterName notCall) ⟨[], List.nil_subset _, rfl⟩
  refine head.under leads fun list isNil => ⟨completion, filling, ?_⟩
  rw [isNil]
  exact isWhole

end Reached

variable (stop : Token)

/-- An operand or a minus sign comes after an operator, or the next token is reported. -/
theorem requireOperand_settles (text : String) (phrase : Phrase) (enclosures : List Enclosure)
    (tokens : List Token) :
    Settles stop ⟨.operand true, enclosures⟩ tokens (Outlines phrase) (fun _ => Starts true tokens)
      (requireOperand stop text tokens).outcome := by
  unfold requireOperand
  dsimp only
  split
  next admitted =>
    intro _ token isHead kind
    cases tokens with
    | nil => cases isHead
    | cons head others =>
        cases isHead
        simpa [mayFollowOperator, kind] using admitted
  next refused =>
    exact Settles.head (blocks_of_mayFollowOperator (Bool.eq_false_iff.mpr refused))
      (outlines_filler phrase)

/-- An operator and an operand come after what was read, and then more. -/
theorem operand_settles {phrase wider other : Phrase} {afterOperator : Bool}
    {enclosures : List Enclosure} {consumed rest : List Token} {token : Token}
    {operator : BinaryOperator} {ends : List Token → Prop} {γ : Type} {good : γ → Prop}
    {read : Except ReadError (Expr Float × List Token)}
    {further : Expr Float × List Token → Except ReadError γ}
    (reached : Reached phrase afterOperator enclosures consumed (token :: rest))
    (isSign : IsSign token operator)
    (joins : ∀ list, Outlines other list → Outlines wider (consumed ++ token :: list))
    (operand : Starts true rest → Settles stop ⟨.operand true, enclosures⟩ rest (Outlines other)
      (fun (_, after) => Passes other true enclosures rest after ∧ ends after) read)
    (continues : ∀ right second after,
      consumed ++ token :: rest = (consumed ++ token :: second) ++ after →
      after.length < rest.length →
      Reached wider afterOperator enclosures (consumed ++ token :: second) after → ends after →
      Settles stop ⟨.operand afterOperator, enclosures⟩ (consumed ++ token :: rest)
        (Outlines wider) good (further (right, after))) :
    Settles stop ⟨.operand afterOperator, enclosures⟩ (consumed ++ token :: rest) (Outlines wider)
      good ((requireOperand stop token.text rest).outcome.bind fun _ => read.bind further) := by
  refine (reached.under_sign isSign
    (requireOperand_settles stop token.text _ enclosures rest) joins).bind fun _ starts => ?_
  refine (reached.under_sign isSign (operand starts) joins).bind ?_
  rintro ⟨right, after⟩ ⟨⟨second, rfl, reachedRight⟩, endsRight⟩
  have longer := reached.through isSign reachedRight (joins second reachedRight.outlines)
  refine continues right second after ?_ reachedRight.length_lt longer endsRight
  rw [List.append_assoc, List.cons_append]

def IsEnclosed (tokens : List Token) : Prop :=
  ∃ inner closing, tokens = inner ++ [closing] ∧ Outlines .additive inner ∧
    closing.kind = .rightParenthesis

/-- A closing parenthesis completes a sum in parentheses. -/
theorem isEnclosed_filler {inner : List Token} (outline : Outlines .additive inner) :
    ∃ completion, completion ⊆ fillers ∧ IsEnclosed (inner ++ completion) :=
  ⟨[⟨.rightParenthesis, ")", 0⟩], by decide, inner, _, rfl, outline, rfl⟩

theorem isEnclosed_fillers : ∃ completion, completion ⊆ fillers ∧ IsEnclosed completion := by
  obtain ⟨inner, filling, outline⟩ := outlines_filler .additive
  obtain ⟨ending, fillingEnd, enclosed⟩ := isEnclosed_filler outline
  exact ⟨inner ++ ending, List.append_subset.mpr ⟨filling, fillingEnd⟩, enclosed⟩

/-- A closing parenthesis comes after a sum in parentheses, or the next token is reported. -/
theorem closing_settles (finished : stop.kind = .finish) {enclosures : List Enclosure}
    {consumed tokens : List Token}
    (reached : Reached .additive false (.parentheses :: enclosures) consumed tokens)
    (ends : EndsSum tokens) :
    Settles stop ⟨.operand false, .parentheses :: enclosures⟩ (consumed ++ tokens) IsEnclosed
      (fun closed => ∃ token, tokens = token :: closed.rest ∧ token.kind = .rightParenthesis)
      (closing stop tokens).outcome := by
  have blames (unclosed : (tokens.headD stop).kind ≠ .rightParenthesis) :
      Settles stop ⟨.operand false, .parentheses :: enclosures⟩ (consumed ++ tokens) IsEnclosed
        (fun closed : Closed tokens =>
          ∃ token, tokens = token :: closed.rest ∧ token.kind = .rightParenthesis)
        (.error (.grammatical ⟨.expectedClosing, tokens.headD stop⟩)) :=
    reached.blames (fun _ notCall => blocks_of_endsSum finished ends notCall
      (fun kind => absurd kind unclosed) (fun _ => rfl) (fun _ => List.cons_ne_nil _ _))
      (isEnclosed_filler reached.outlines)
  cases tokens with
  | nil => exact blames (by simp [finished])
  | cons token rest =>
      rw [closing]
      split
      next kind => exact ⟨token, rfl, kind⟩
      next unclosed => exact blames unclosed

/-- A call of a reserved name fails only with a wrong number of arguments. -/
theorem isArity_of_reservedCall {token : Token} {first : Expr Float} {others : List (Expr Float)}
    {error : ReadError} (reserved : token.text ∈ Token.functionWords)
    (failed : (reservedCall token first others).outcome = .error error) :
    ∃ problem, error = .grammatical problem ∧ problem.IsArity := by
  have known := functionWords_known token.text reserved
  unfold reservedCall at failed
  dsimp only at failed
  split at failed
  next =>
    split at failed <;> cases failed
    exact ⟨_, rfl, _, _, rfl⟩
  next notLogarithm =>
    split at failed
    next =>
      split at failed
      · split at failed <;> cases failed
      · cases failed
        exact ⟨_, rfl, _, _, rfl⟩
    next notBinary =>
      simp only [Bool.or_eq_true, decide_eq_true_eq, not_or] at notBinary
      split at failed
      · split at failed
        · cases failed
        next unknown => simp [notLogarithm, notBinary, unknown] at known
      · cases failed
        exact ⟨_, rfl, _, _, rfl⟩

/-- A call of any name fails only with a wrong number of arguments. -/
theorem callOf_settles {stage : Stage} {tokens : List Token} {whole : List Token → Prop}
    {token : Token} (member : token ∈ tokens) (first : Expr Float) (others : List (Expr Float)) :
    Settles stop stage tokens whole (fun _ => True) (callOf token first others) := by
  cases made : callOf token first others with
  | ok tree => trivial
  | error error =>
      intro fits
      unfold callOf at made
      split at made
      next kind =>
        have lexeme := fits token member (by simp [kind])
        simp only [Token.IsLexeme, kind] at lexeme
        obtain ⟨problem, same, isArity⟩ := isArity_of_reservedCall lexeme made
        exact ⟨problem, same, .inl isArity⟩
      next =>
        unfold furtherCall at made
        dsimp only at made
        split at made <;> cases made

/-- A name that is not empty is a variable. -/
theorem text_of_variableOf {token : Token} {error : ReadError}
    (failed : (variableOf token).outcome = .error error) : token.text = "" := by
  simp only [variableOf, Expr.var?, Traced.outcome_ofExcept] at failed
  split at failed
  next empty => exact String.isEmpty_iff.mp empty
  next => cases failed

/-- A closing parenthesis completes arguments. -/
theorem outlinesArguments_filler {argument : List Token} (outline : Outlines .additive argument) :
    ∃ completion, completion ⊆ fillers ∧ OutlinesArguments (argument ++ completion) :=
  ⟨[⟨.rightParenthesis, ")", 0⟩], by decide, .last outline rfl⟩

theorem outlinesArguments_fillers :
    ∃ completion, completion ⊆ fillers ∧ OutlinesArguments completion := by
  obtain ⟨argument, filling, outline⟩ := outlines_filler .additive
  obtain ⟨ending, fillingEnd, arguments⟩ := outlinesArguments_filler outline
  exact ⟨argument ++ ending, List.append_subset.mpr ⟨filling, fillingEnd⟩, arguments⟩

/-- A closing parenthesis or a comma comes after an argument, or the next token is reported. -/
theorem unseparated_settles {β : Type} {good : β → Prop} (finished : stop.kind = .finish)
    {enclosures : List Enclosure} {consumed tokens : List Token}
    (reached : Reached .additive false (.call :: enclosures) consumed tokens)
    (ends : EndsSum tokens) (notComma : (tokens.headD stop).kind ≠ .comma)
    (unclosed : (tokens.headD stop).kind ≠ .rightParenthesis) :
    Settles stop ⟨.operand false, .call :: enclosures⟩ (consumed ++ tokens) OutlinesArguments good
      (.error (.grammatical ⟨.expectedClosingOrComma, tokens.headD stop⟩)) :=
  reached.blames (fun _ notCall => blocks_of_endsSum finished ends notCall
    (fun kind => absurd kind unclosed) (fun kind => absurd kind notComma)
    (fun _ => List.cons_ne_nil _ _)) (outlinesArguments_filler reached.outlines)

/-- An opening parenthesis comes after the name of a function, or the next token is reported. -/
theorem unopened_settles {β : Type} {good : β → Prop} (finished : stop.kind = .finish)
    {afterOperator : Bool} {enclosures : List Enclosure} {token : Token} {rest : List Token}
    {cause : ParseError.Cause} (kind : token.kind = .function)
    (notCall : ∀ next ∈ rest.head?, next.kind ≠ .leftParenthesis) :
    Settles stop ⟨.operand afterOperator, enclosures⟩ (token :: rest) (Outlines .primary) good
      (.error (.grammatical ⟨cause, rest.headD stop⟩)) := by
  have unopened : (rest.headD stop).kind ≠ .leftParenthesis := by
    cases rest with
    | nil => simp [finished]
    | cons next after => exact notCall next rfl
  obtain ⟨arguments, filling, outline⟩ := outlinesArguments_fillers
  have completes : ∃ completion, completion ⊆ fillers ∧
      Outlines .primary (token :: completion) :=
    ⟨⟨.leftParenthesis, "(", 0⟩ :: arguments, List.cons_subset.mpr ⟨by decide, filling⟩,
      .call (.inl kind) rfl outline⟩
  have head : Settles stop ⟨.opening, enclosures⟩ rest
      (fun list => Outlines .primary (token :: list)) good
      (.error (.grammatical ⟨cause, rest.headD stop⟩)) :=
    Settles.head (blocks_of_unopened unopened) completes
  exact head.under_token (next?_function kind) fun _ outline => outline

mutual

theorem additive_settles (finished : stop.kind = .finish) (afterOperator : Bool)
    (enclosures : List Enclosure) (tokens : List Token) (starts : Starts afterOperator tokens) :
    Settles stop ⟨.operand afterOperator, enclosures⟩ tokens (Outlines .additive)
      (fun (_, rest) => Passes .additive afterOperator enclosures tokens rest ∧ EndsSum rest)
      (stepResult (additive stop tokens)) := by
  rw [stepResult_additive]
  refine ((multiplicative_settles finished afterOperator enclosures tokens starts).looser
    fun _ => .product).bind ?_
  rintro ⟨left, middle⟩ ⟨⟨consumed, rfl, reached⟩, ends⟩
  have shorter := reached.length_lt
  exact additiveTail_settles finished afterOperator enclosures consumed left middle
    (reached.looser .product) ends
termination_by (tokens.length, 6)

theorem additiveTail_settles (finished : stop.kind = .finish) (afterOperator : Bool)
    (enclosures : List Enclosure) (consumed : List Token) (left : Expr Float) (tokens : List Token)
    (reached : Reached .additive afterOperator enclosures consumed tokens)
    (ends : EndsProduct tokens) :
    Settles stop ⟨.operand afterOperator, enclosures⟩ (consumed ++ tokens) (Outlines .additive)
      (fun (_, rest) =>
        Passes .additive afterOperator enclosures (consumed ++ tokens) rest ∧ EndsSum rest)
      (extensionResult (additiveTail stop left tokens)) := by
  match tokens with
  | [] =>
      rw [extensionResult_additiveTail_nil]
      exact ⟨⟨consumed, rfl, reached⟩, endsSum_nil⟩
  | token :: rest =>
      rw [extensionResult_additiveTail_cons]
      cases isSum : additiveOperator? token with
      | none =>
          refine ⟨⟨consumed, rfl, reached⟩, ends, ?_⟩
          rintro _ ⟨⟩ operator isSign sum
          rw [additiveOperator?_eq_some.mpr ⟨isSign, sum⟩] at isSum
          cases isSum
      | some operator =>
          obtain ⟨isSign, sum⟩ := additiveOperator?_eq_some.mp isSum
          refine operand_settles stop reached isSign (fun _ => .sum reached.outlines isSign sum)
            (multiplicative_settles finished true enclosures rest) ?_
          intro right second after split shorter longer endsRight
          -- The longer sum is again something read in front of the rest.
          rw [split]
          exact additiveTail_settles finished afterOperator enclosures (consumed ++ token :: second)
            (.binary operator left right) after longer endsRight
termination_by (tokens.length, 5)

theorem multiplicative_settles (finished : stop.kind = .finish) (afterOperator : Bool)
    (enclosures : List Enclosure) (tokens : List Token) (starts : Starts afterOperator tokens) :
    Settles stop ⟨.operand afterOperator, enclosures⟩ tokens (Outlines .multiplicative)
      (fun (_, rest) =>
        Passes .multiplicative afterOperator enclosures tokens rest ∧ EndsProduct rest)
      (stepResult (multiplicative stop tokens)) := by
  rw [stepResult_multiplicative]
  refine ((signed_settles finished afterOperator enclosures tokens starts).looser
    fun _ => .factor).bind ?_
  rintro ⟨left, middle⟩ ⟨⟨consumed, rfl, reached⟩, ends⟩
  have shorter := reached.length_lt
  exact multiplicativeTail_settles finished afterOperator enclosures consumed left middle
    (reached.looser .factor) ends
termination_by (tokens.length, 4)

theorem multiplicativeTail_settles (finished : stop.kind = .finish) (afterOperator : Bool)
    (enclosures : List Enclosure) (consumed : List Token) (left : Expr Float) (tokens : List Token)
    (reached : Reached .multiplicative afterOperator enclosures consumed tokens)
    (ends : EndsPower tokens) :
    Settles stop ⟨.operand afterOperator, enclosures⟩ (consumed ++ tokens)
      (Outlines .multiplicative)
      (fun (_, rest) => Passes .multiplicative afterOperator enclosures (consumed ++ tokens) rest ∧
        EndsProduct rest)
      (extensionResult (multiplicativeTail stop left tokens)) := by
  match tokens with
  | [] =>
      rw [extensionResult_multiplicativeTail_nil]
      exact ⟨⟨consumed, rfl, reached⟩, endsSum_nil.1⟩
  | token :: rest =>
      rw [extensionResult_multiplicativeTail_cons]
      cases isProduct : multiplicativeOperator? token with
      | none =>
          refine ⟨⟨consumed, rfl, reached⟩, ends, ?_⟩
          rintro _ ⟨⟩ operator isSign product
          rw [multiplicativeOperator?_eq_some.mpr ⟨isSign, product⟩] at isProduct
          cases isProduct
      | some operator =>
          obtain ⟨isSign, product⟩ := multiplicativeOperator?_eq_some.mp isProduct
          refine operand_settles stop reached isSign
            (fun _ => .multiple reached.outlines isSign product)
            (signed_settles finished true enclosures rest) ?_
          intro right second after split shorter longer endsRight
          rw [split]
          exact multiplicativeTail_settles finished afterOperator enclosures
            (consumed ++ token :: second) (.binary operator left right) after longer endsRight
termination_by (tokens.length, 3)

theorem signed_settles (finished : stop.kind = .finish) (afterOperator : Bool)
    (enclosures : List Enclosure) (tokens : List Token) (starts : Starts afterOperator tokens) :
    Settles stop ⟨.operand afterOperator, enclosures⟩ tokens (Outlines .unary)
      (fun (_, rest) => Passes .unary afterOperator enclosures tokens rest ∧ EndsPower rest)
      (stepResult (signed stop tokens)) := by
  match tokens with
  | [] =>
      rw [stepResult_signed_nil]
      refine ((powered_settles finished afterOperator enclosures [] (by simp)).looser
        fun _ => .unsigned).imp ?_
      rintro ⟨tree, rest⟩ ⟨⟨consumed, same, reached⟩, ends⟩
      exact ⟨⟨consumed, same, reached.looser .unsigned⟩, ends⟩
  | token :: rest =>
      rw [stepResult_signed_cons]
      split
      next minus =>
        rw [isOperator_iff_isSign .subtract rfl] at minus
        have next {after : Bool} := @next?_minus enclosures token after minus
        refine ((requireOperand_settles stop token.text .unary enclosures rest).under_token next
          fun _ => .negation minus).bind fun _ startsRest => ?_
        refine ((signed_settles finished true enclosures rest startsRest).under_token next
          fun _ => .negation minus).map ?_
        rintro ⟨operand, after⟩ ⟨⟨consumed, rfl, reached⟩, ends⟩
        exact ⟨reached.under_token next (.negation minus reached.outlines), ends⟩
      next =>
        split
        next plus =>
          rw [isOperator_iff_isSign .add rfl] at plus
          cases afterOperator with
          | true =>
              -- The reader has let nothing but a minus sign through after an operator.
              have isMinus := starts rfl token rfl plus.1
              have isPlus := Option.some.inj plus.2
              rw [← isPlus] at isMinus
              exact absurd isMinus (by decide)
          | false =>
              have next := @next?_plus enclosures token plus
              refine ((requireOperand_settles stop token.text .unary enclosures rest).under_token
                next fun _ => .affirmation plus).bind fun _ startsRest => ?_
              refine ((signed_settles finished true enclosures rest startsRest).under_token next
                fun _ => .affirmation plus).imp ?_
              rintro ⟨operand, after⟩ ⟨⟨consumed, rfl, reached⟩, ends⟩
              exact ⟨reached.under_token next (.affirmation plus reached.outlines), ends⟩
        next notMinus notPlus =>
          rw [isOperator_iff_isSign .subtract rfl] at notMinus
          rw [isOperator_iff_isSign .add rfl] at notPlus
          have unsigned : ∀ head ∈ (token :: rest).head?,
              ¬ IsSign head .subtract ∧ ¬ IsSign head .add := by
            rintro _ ⟨⟩
            exact ⟨notMinus, notPlus⟩
          refine ((powered_settles finished afterOperator enclosures (token :: rest)
            unsigned).looser fun _ => .unsigned).imp ?_
          rintro ⟨tree, after⟩ ⟨⟨consumed, same, reached⟩, ends⟩
          exact ⟨⟨consumed, same, reached.looser .unsigned⟩, ends⟩
termination_by (tokens.length, 2)

theorem powered_settles (finished : stop.kind = .finish) (afterOperator : Bool)
    (enclosures : List Enclosure) (tokens : List Token)
    (unsigned : ∀ head ∈ tokens.head?, ¬ IsSign head .subtract ∧ ¬ IsSign head .add) :
    Settles stop ⟨.operand afterOperator, enclosures⟩ tokens (Outlines .power)
      (fun (_, rest) => Passes .power afterOperator enclosures tokens rest ∧ EndsPower rest)
      (stepResult (powered stop tokens)) := by
  rw [stepResult_powered]
  refine ((primary_settles finished afterOperator enclosures tokens unsigned).looser
    fun _ outline => .base (.unmarked outline)).bind ?_
  rintro ⟨base, middle⟩ ⟨consumed, rfl, reached⟩
  obtain ⟨⟨marks, same, reachedMarks⟩, ends⟩ := (reached.looser .unmarked).marked base
  have shorter : (marked base middle).2.length < (consumed ++ middle).length :=
    same ▸ reachedMarks.length_lt
  rw [same]
  exact exponent_settles finished afterOperator enclosures marks (marked base middle).1
    (marked base middle).2 reachedMarks ends
termination_by (tokens.length, 1)

theorem exponent_settles (finished : stop.kind = .finish) (afterOperator : Bool)
    (enclosures : List Enclosure) (consumed : List Token) (base : Expr Float) (tokens : List Token)
    (reached : Reached .postfixed afterOperator enclosures consumed tokens)
    (ends : ∀ next ∈ tokens.head?, next.kind ≠ .factorial) :
    Settles stop ⟨.operand afterOperator, enclosures⟩ (consumed ++ tokens) (Outlines .power)
      (fun (_, rest) =>
        Passes .power afterOperator enclosures (consumed ++ tokens) rest ∧ EndsPower rest)
      (extensionResult (exponent stop base tokens)) := by
  match tokens with
  | [] =>
      rw [extensionResult_exponent_nil]
      exact ⟨⟨consumed, rfl, reached.looser .base⟩, endsSum_nil.1.1⟩
  | token :: rest =>
      rw [extensionResult_exponent_cons]
      split
      next isPower =>
        rw [isOperator_iff_isSign .power rfl] at isPower
        refine operand_settles stop reached isPower (fun _ => .raised reached.outlines isPower)
          (signed_settles finished true enclosures rest) ?_
        intro raised second after split _ longer endsRaised
        exact ⟨⟨consumed ++ token :: second, split, longer⟩, endsRaised⟩
      next notPower =>
        rw [isOperator_iff_isSign .power rfl] at notPower
        refine ⟨⟨consumed, rfl, reached.looser .base⟩, ?_⟩
        rintro _ ⟨⟩
        exact ⟨ends token rfl, notPower⟩
termination_by (tokens.length, 0)

theorem primary_settles (finished : stop.kind = .finish) (afterOperator : Bool)
    (enclosures : List Enclosure) (tokens : List Token)
    (unsigned : ∀ head ∈ tokens.head?, ¬ IsSign head .subtract ∧ ¬ IsSign head .add) :
    Settles stop ⟨.operand afterOperator, enclosures⟩ tokens (Outlines .primary)
      (fun (_, rest) => Passes .primary afterOperator enclosures tokens rest)
      (stepResult (primary stop tokens)) := by
  match tokens with
  | [] =>
      rw [stepResult_primary_nil]
      exact @Settles.head _ stop _ [] _ _ _ (blocks_of_finish finished)
        (outlines_filler .primary)
  | token :: rest =>
      cases kind : token.kind with
      | number =>
          rw [stepResult_primary_number stop rest kind]
          cases value : Decimal.read? token.text with
          | some number =>
              exact Reached.single (.number kind) (next?_number (.inl kind)) (by simp)
          | none =>
              intro fits
              have readable := fits token List.mem_cons_self (by simp [kind])
              simp [Token.IsLexeme, kind, value] at readable
      | constant =>
          rw [stepResult_primary_constant stop rest kind]
          cases value : Token.constantValue? token.text with
          | some number =>
              exact Reached.single (.constant kind) (next?_number (.inr kind)) (by simp)
          | none =>
              intro fits
              have known := fits token List.mem_cons_self (by simp [kind])
              simp [Token.IsLexeme, kind, value] at known
      | function =>
          by_cases opens : ∃ opening ∈ rest.head?, opening.kind = .leftParenthesis
          · obtain ⟨opening, inner, rfl, isOpening⟩ := exists_opening opens
            exact call_settles finished afterOperator enclosures token opening inner (.inl kind)
              isOpening
          · have notCall : ∀ next ∈ rest.head?, next.kind ≠ .leftParenthesis := by
              simpa using opens
            rw [stepResult_primary_unopened stop rest kind notCall]
            exact unopened_settles stop finished kind notCall
      | identifier =>
          by_cases opens : ∃ opening ∈ rest.head?, opening.kind = .leftParenthesis
          · obtain ⟨opening, inner, rfl, isOpening⟩ := exists_opening opens
            exact call_settles finished afterOperator enclosures token opening inner (.inr kind)
              isOpening
          · have notCall : ∀ next ∈ rest.head?, next.kind ≠ .leftParenthesis := by
              simpa using opens
            rw [stepResult_primary_variable stop rest kind notCall]
            cases named : (variableOf token).outcome with
            | ok tree =>
                exact Reached.single (.variableName kind) (next?_name kind) fun _ => notCall
            | error error =>
                intro fits
                have lexeme := fits token List.mem_cons_self (by simp [kind])
                simp only [Token.IsLexeme, kind] at lexeme
                exact absurd (text_of_variableOf named) lexeme
      | leftParenthesis =>
          exact parenthesis_settles finished afterOperator enclosures token rest kind
      | operator | rightParenthesis | comma | factorial | finish =>
          have other : token.kind = .operator ∨ token.kind = .rightParenthesis ∨
              token.kind = .comma ∨ token.kind = .factorial ∨ token.kind = .finish := by
            simp [kind]
          rw [stepResult_primary_other stop rest other]
          exact @Settles.head _ stop _ (token :: rest) _ _ _
            (blocks_of_other other (unsigned token rfl)) (outlines_filler .primary)
termination_by (tokens.length, 0)

theorem parenthesis_settles (finished : stop.kind = .finish) (afterOperator : Bool)
    (enclosures : List Enclosure) (token : Token) (rest : List Token)
    (kind : token.kind = .leftParenthesis) :
    Settles stop ⟨.operand afterOperator, enclosures⟩ (token :: rest) (Outlines .primary)
      (fun (_, after) => Passes .primary afterOperator enclosures (token :: rest) after)
      (stepResult (primary stop (token :: rest))) := by
  rw [stepResult_primary_parenthesis stop rest kind]
  have next := @next?_parenthesis enclosures token afterOperator kind
  have joins (list : List Token) : IsEnclosed list → Outlines .primary (token :: list) := by
    rintro ⟨inner, closing, rfl, outline, closes⟩
    exact .parentheses kind outline closes
  split
  next closes =>
    exact (Settles.head (blocks_of_closing closes) isEnclosed_fillers).under_token
      next joins
  next =>
    refine (((additive_settles finished false (.parentheses :: enclosures) rest
      (starts_false rest)).under leads_nil fun inner outline => ?_).under_token next
        joins).bind ?_
    · exact isEnclosed_filler outline
    rintro ⟨inner, middle⟩ ⟨⟨consumed, rfl, reached⟩, ends⟩
    refine ((closing_settles stop finished reached ends).under_token next joins).map ?_
    rintro closed ⟨closing, shape, closes⟩
    obtain ⟨_, leads, -⟩ := reached.leads
    refine ⟨token :: (consumed ++ [closing]), ?_,
      .parentheses kind reached.outlines closes, false, ?_, by simp⟩
    · rw [List.cons_append, ← List.append_cons, ← shape]
    · exact leads_cons.mpr ⟨_, next,
        leads.append (leads_single (next?_closing closes))⟩
termination_by (rest.length, 7)

theorem call_settles (finished : stop.kind = .finish) (afterOperator : Bool)
    (enclosures : List Enclosure) (token opening : Token) (inner : List Token)
    (kind : token.kind = .function ∨ token.kind = .identifier)
    (opens : opening.kind = .leftParenthesis) :
    Settles stop ⟨.operand afterOperator, enclosures⟩ (token :: opening :: inner)
      (Outlines .primary)
      (fun (_, rest) =>
        Passes .primary afterOperator enclosures (token :: opening :: inner) rest)
      (stepResult (primary stop (token :: opening :: inner))) := by
  rw [stepResult_primary_call stop kind opens]
  have leadsCall := @leads_call enclosures token afterOperator opening kind opens
  refine ((callArguments_settles finished enclosures inner).under leadsCall
    fun list outline => ⟨[], List.nil_subset _, ?_⟩).bind ?_
  · rw [List.append_nil]
    exact .call kind opens outline
  rintro ⟨first, others, after⟩ ⟨consumed, rfl, outline, leads⟩
  refine (callOf_settles stop List.mem_cons_self first others).map fun tree _ => ?_
  exact ⟨token :: opening :: consumed, rfl, .call kind opens outline, false,
    leadsCall.append leads, by simp⟩
termination_by (inner.length + 1, 8)

theorem callArguments_settles (finished : stop.kind = .finish) (enclosures : List Enclosure)
    (tokens : List Token) :
    Settles stop ⟨.operand false, .call :: enclosures⟩ tokens OutlinesArguments
      (fun (_, _, rest) => PassesArguments enclosures tokens rest)
      (argumentsResult (callArguments stop tokens)) := by
  rw [argumentsResult_callArguments]
  split
  next closes => exact Settles.head (blocks_of_closing closes) outlinesArguments_fillers
  next =>
    refine ((additive_settles finished false (.call :: enclosures) tokens
      (starts_false tokens)).under leads_nil fun list outline => ?_).bind ?_
    · exact outlinesArguments_filler outline
    rintro ⟨first, middle⟩ ⟨⟨consumed, rfl, reached⟩, ends⟩
    have shorter := reached.length_lt
    exact (furtherArguments_settles finished enclosures consumed middle reached ends).map
      fun _ passes => passes
termination_by (tokens.length, 7)

theorem furtherArguments_settles (finished : stop.kind = .finish) (enclosures : List Enclosure)
    (consumed tokens : List Token)
    (reached : Reached .additive false (.call :: enclosures) consumed tokens)
    (ends : EndsSum tokens) :
    Settles stop ⟨.operand false, .call :: enclosures⟩ (consumed ++ tokens) OutlinesArguments
      (fun (_, rest) => PassesArguments enclosures (consumed ++ tokens) rest)
      (moreResult (furtherArguments stop tokens)) := by
  match tokens with
  | [] =>
      rw [moreResult_furtherArguments_nil]
      exact unseparated_settles stop finished reached ends (by simp [finished])
        (by simp [finished])
  | token :: rest =>
      rw [moreResult_furtherArguments_cons]
      obtain ⟨_, leads, -⟩ := reached.leads
      split
      next comma =>
        have leadsComma := leads.append (leads_single (next?_comma comma))
        have joins (list : List Token) (outline : OutlinesArguments list) :
            OutlinesArguments (consumed ++ [token] ++ list) := by
          rw [← List.append_cons]
          exact .more reached.outlines comma outline
        rw [List.append_cons]
        refine ((additive_settles finished false (.call :: enclosures) rest
          (starts_false rest)).under leadsComma fun list outline => ?_).bind ?_
        · obtain ⟨completion, filling, arguments⟩ := outlinesArguments_filler outline
          exact ⟨completion, filling, joins _ arguments⟩
        rintro ⟨argument, middle⟩ ⟨⟨second, rfl, further⟩, endsArgument⟩
        have shorter := further.length_lt
        refine ((furtherArguments_settles finished enclosures second middle further
          endsArgument).under leadsComma fun list outline => ⟨[], List.nil_subset _, ?_⟩).map ?_
        · rw [List.append_nil]
          exact joins list outline
        rintro ⟨others, after⟩ ⟨arguments, same, outline, leadsOn⟩
        refine ⟨consumed ++ [token] ++ arguments, ?_, joins _ outline, leadsComma.append leadsOn⟩
        rw [same, List.append_assoc _ arguments]
      next notComma =>
        split
        next closes =>
          refine ⟨consumed ++ [token], List.append_cons .., .last reached.outlines closes, ?_⟩
          exact leads.append (leads_single (next?_closing closes))
        next unclosed => exact unseparated_settles stop finished reached ends notComma unclosed
termination_by (tokens.length, 8)

end

end Parser

end ExprCalculus

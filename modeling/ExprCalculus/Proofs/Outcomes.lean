import ExprCalculus.Traced
import Mathlib.Data.List.Forall2

/-!
# Outcomes of computations

When a computation made of several ones has a result, and when it fails.
-/

namespace ExprCalculus

section Outcomes

variable {ε δ α β : Type} {first : Except ε α} {second : α → Except ε β}

@[simp]
theorem except_ok_bind (value : α) : (Except.ok value >>= second) = second value := rfl

@[simp]
theorem except_pure (value : α) : (pure value : Except ε α) = .ok value := rfl

/-- The value in a successful result, through a bind. -/
theorem except_bind_eq_ok {result : β} :
    (first >>= second) = .ok result ↔ ∃ value, first = .ok value ∧ second value = .ok result := by
  cases first with
  | error fault => simp [bind, Except.bind]
  | ok value => simp [bind, Except.bind]

/-- A computation after another one that returns: the other one returns, and so does what
comes next. -/
theorem returns_of_bind (returned : ∃ result, (first >>= second) = .ok result) :
    ∃ value, first = .ok value ∧ ∃ result, second value = .ok result := by
  obtain ⟨result, isResult⟩ := returned
  obtain ⟨value, isValue, next⟩ := except_bind_eq_ok.mp isResult
  exact ⟨value, isValue, result, next⟩

theorem first_returns_of_bind (returned : ∃ result, (first >>= second) = .ok result) :
    ∃ value, first = .ok value := by
  obtain ⟨value, isValue, -⟩ := returns_of_bind returned
  exact ⟨value, isValue⟩

theorem except_bind_eq_error {fault : ε} :
    (first >>= second) = .error fault ↔
      first = .error fault ∨ ∃ value, first = .ok value ∧ second value = .error fault := by
  cases first with
  | error fault => simp [bind, Except.bind]
  | ok value => simp [bind, Except.bind]

/-- A computation that is seen to succeed has a result. -/
theorem exists_eq_ok_of_isOk (succeeds : first.isOk = true) : ∃ value, first = .ok value := by
  cases first with
  | error fault => cases succeeds
  | ok value => exact ⟨value, rfl⟩

/-- A traced computation after another one fails if one of the two fails. -/
theorem Traced.outcome_bind_eq_error {ν : Type} {first : Traced ν ε α}
    {second : α → Traced ν ε β} {fault : ε} :
    (first >>= second).outcome = .error fault ↔
      first.outcome = .error fault ∨
        ∃ value, first.outcome = .ok value ∧ (second value).outcome = .error fault := by
  rw [Traced.outcome_bind]
  exact except_bind_eq_error

/-- The notices of a computation with a value come before those of what follows it. -/
theorem Traced.notices_bind {ν : Type} {first : Traced ν ε α} {second : α → Traced ν ε β}
    {value : α} (isValue : first.outcome = .ok value) :
    (first >>= second).notices = first.notices ++ (second value).notices := by
  obtain ⟨notices, outcome⟩ := first
  cases isValue
  rfl

theorem mapError_eq_ok {change : ε → δ} {result : α} :
    first.mapError change = .ok result ↔ first = .ok result := by
  cases first <;> simp [Except.mapError]

theorem mapError_eq_error {change : ε → δ} {fault : δ} :
    first.mapError change = .error fault ↔ ∃ other, first = .error other ∧ change other = fault := by
  cases first <;> simp [Except.mapError]

/-- Each member on the right of lists that are related one by one has its partner. -/
theorem exists_of_mem_right {related : α → β → Prop} {entries : List α} {results : List β}
    (pairs : List.Forall₂ related entries results) {result : β} (member : result ∈ results) :
    ∃ entry ∈ entries, related entry result := by
  induction pairs with
  | nil => cases member
  | cons isFirst _ ih =>
      rcases List.mem_cons.mp member with rfl | inRest
      · exact ⟨_, List.mem_cons_self, isFirst⟩
      · obtain ⟨entry, found, isResult⟩ := ih inRest
        exact ⟨entry, List.mem_cons_of_mem _ found, isResult⟩

theorem mapM_eq_ok {image : α → Except ε β} {entries : List α} {results : List β} :
    entries.mapM image = .ok results ↔
      List.Forall₂ (fun entry result => image entry = .ok result) entries results := by
  induction entries generalizing results with
  | nil => simp [pure, Except.pure, eq_comm]
  | cons entry entries ih =>
      simp only [List.mapM_cons, except_bind_eq_ok, List.forall₂_cons_left_iff, ← ih]
      constructor
      · rintro ⟨value, isValue, rest, isRest, total⟩
        cases total
        exact ⟨value, rest, isValue, isRest, rfl⟩
      · rintro ⟨value, rest, isValue, isRest, rfl⟩
        exact ⟨value, isValue, rest, isRest, rfl⟩

/-- Each result of a list of computations is the result of one of them. -/
theorem exists_of_mem_mapM {image : α → Except ε β} {entries : List α} {results : List β}
    (made : entries.mapM image = .ok results) {result : β} (member : result ∈ results) :
    ∃ entry ∈ entries, image entry = .ok result :=
  exists_of_mem_right (mapM_eq_ok.mp made) member

def Fails (computation : Except ε α) : Prop :=
  ∃ fault, computation = .error fault

@[simp]
theorem not_fails_ok (value : α) : ¬ Fails (.ok value : Except ε α) := by
  rintro ⟨fault, failed⟩
  cases failed

@[simp]
theorem fails_error (fault : ε) : Fails (.error fault : Except ε α) :=
  ⟨fault, rfl⟩

theorem not_fails {computation : Except ε α} :
    ¬ Fails computation ↔ ∃ value, computation = .ok value := by
  cases computation with
  | ok value => simp
  | error fault => simp

theorem fails_bind : Fails (first >>= second) ↔
    Fails first ∨ ∃ value, first = .ok value ∧ Fails (second value) := by
  cases first with
  | error fault => simp [Fails, bind, Except.bind]
  | ok value => simp [Fails, bind, Except.bind]

/-- A computation followed by one that fails or not whatever the value of the first is. -/
theorem fails_bind_iff_or {later : Prop}
    (fails : ∀ value, first = .ok value → (Fails (second value) ↔ later)) :
    Fails (first >>= second) ↔ Fails first ∨ later := by
  rw [fails_bind]
  by_cases failed : Fails first
  · simp [failed]
  · obtain ⟨value, isValue⟩ := not_fails.mp failed
    simp [isValue, fails value isValue]

/-- A computation followed by one that does not fail. -/
theorem fails_bind_of_returns (returns : ∀ value, first = .ok value → ¬ Fails (second value)) :
    Fails (first >>= second) ↔ Fails first :=
  (fails_bind_iff_or fun value isValue => iff_false_intro (returns value isValue)).trans
    (iff_of_eq (or_false _))

/-- A computation that may find nothing, followed by one that only goes on with what was
found. -/
theorem fails_bind_option {first : Except ε (Option α)} {second : Option α → Except ε β}
    {later : Prop} (none : ¬ Fails (second none))
    (some : ∀ value, Fails (second (some value)) ↔ later) :
    Fails (first >>= second) ↔ Fails first ∨ (∃ value, first = .ok (.some value)) ∧ later := by
  rw [fails_bind]
  refine or_congr_right ⟨?_, ?_⟩
  · rintro ⟨_ | value, isValue, failed⟩
    · exact absurd failed none
    · exact ⟨⟨value, isValue⟩, (some value).mp failed⟩
  · rintro ⟨⟨value, isValue⟩, failed⟩
    exact ⟨_, isValue, (some value).mpr failed⟩

theorem fails_map {image : α → β} : Fails (image <$> first) ↔ Fails first := by
  cases first <;> simp [Functor.map, Except.map]

/-- A list of computations fails if one of them does. -/
theorem fails_mapM {image : α → Except ε β} {entries : List α} :
    Fails (entries.mapM image) ↔ ∃ entry ∈ entries, Fails (image entry) := by
  induction entries with
  | nil => simp
  | cons entry entries ih =>
      rw [List.mapM_cons, List.exists_mem_cons_iff, ← ih]
      exact fails_bind_iff_or fun _ _ => fails_bind_of_returns fun _ _ => not_fails_ok _

/-- Steps that fail whatever the state is fail together if one of them does. -/
theorem fails_foldlM {step : β → α → Except ε β} {stops : α → Prop}
    (fails : ∀ state entry, Fails (step state entry) ↔ stops entry) {entries : List α}
    {start : β} : Fails (entries.foldlM step start) ↔ ∃ entry ∈ entries, stops entry := by
  induction entries generalizing start with
  | nil => simp
  | cons entry entries ih =>
      rw [List.foldlM_cons, List.exists_mem_cons_iff, ← fails start]
      exact fails_bind_iff_or fun _ _ => ih

/-- Going through a list one comes, after entries that let one pass, to an entry that stops
one. -/
inductive Reaches (passes stops : α → Prop) : List α → Prop
  | here {entry : α} {rest : List α} (stopped : stops entry) :
      Reaches passes stops (entry :: rest)
  | further {entry : α} {rest : List α} (passed : passes entry)
      (later : Reaches passes stops rest) : Reaches passes stops (entry :: rest)

@[simp]
theorem not_reaches_nil {passes stops : α → Prop} : ¬ Reaches passes stops [] := by
  rintro ⟨⟩

theorem reaches_cons {passes stops : α → Prop} {entry : α} {rest : List α} :
    Reaches passes stops (entry :: rest) ↔
      stops entry ∨ passes entry ∧ Reaches passes stops rest := by
  constructor
  · intro reached
    cases reached with
    | here stopped => exact .inl stopped
    | further passed later => exact .inr ⟨passed, later⟩
  · rintro (stopped | ⟨passed, later⟩)
    · exact .here stopped
    · exact .further passed later

end Outcomes

end ExprCalculus

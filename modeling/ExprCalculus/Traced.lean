/-!
# Traced computations

A traced computation leaves notices behind, in order, and ends with a value or a
fault.  The notices left before a fault are kept.
-/

namespace ExprCalculus

/-- A computation that has left notices and ended with a value or a fault. -/
structure Traced (ν ε α : Type) where
  notices : List ν
  outcome : Except ε α

namespace Traced

variable {ν ε α β : Type}

def note (notice : ν) : Traced ν ε Unit :=
  ⟨[notice], .ok ()⟩

def fail (fault : ε) : Traced ν ε α :=
  ⟨[], .error fault⟩

def ofExcept (outcome : Except ε α) : Traced ν ε α :=
  ⟨[], outcome⟩

def andThen (first : Traced ν ε α) (second : α → Traced ν ε β) : Traced ν ε β :=
  match first.outcome with
  | .error fault => ⟨first.notices, .error fault⟩
  | .ok value =>
      ⟨first.notices ++ (second value).notices, (second value).outcome⟩

instance : Monad (Traced ν ε) where
  pure value := ⟨[], .ok value⟩
  bind := andThen

def mapFault {δ : Type} (image : ε → δ) (computation : Traced ν ε α) :
    Traced ν δ α :=
  ⟨computation.notices, computation.outcome.mapError image⟩

@[simp]
theorem outcome_pure (value : α) : (pure value : Traced ν ε α).outcome = .ok value :=
  rfl

@[simp]
theorem notices_pure (value : α) : (pure value : Traced ν ε α).notices = [] :=
  rfl

@[simp]
theorem outcome_bind (first : Traced ν ε α) (second : α → Traced ν ε β) :
    (first >>= second).outcome =
      first.outcome.bind fun value => (second value).outcome := by
  cases first with
  | mk notices outcome => cases outcome <;> rfl

/-- A computation after another one has a value if both have one. -/
theorem outcome_bind_eq_ok {first : Traced ν ε α} {second : α → Traced ν ε β} {value : β} :
    (first >>= second).outcome = .ok value ↔
      ∃ middle, first.outcome = .ok middle ∧ (second middle).outcome = .ok value := by
  rw [outcome_bind]
  cases first.outcome with
  | error fault => simp [Except.bind]
  | ok middle => simp [Except.bind]

@[simp]
theorem outcome_note (notice : ν) : (note notice : Traced ν ε Unit).outcome = .ok () :=
  rfl

@[simp]
theorem outcome_fail (fault : ε) :
    (fail fault : Traced ν ε α).outcome = .error fault :=
  rfl

@[simp]
theorem outcome_ofExcept (outcome : Except ε α) :
    (ofExcept outcome : Traced ν ε α).outcome = outcome :=
  rfl

end Traced

end ExprCalculus

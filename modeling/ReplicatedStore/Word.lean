/-!
# Words

Terms, log positions, member ids and durations are naturals that fit in 64 bits. Arithmetic on
them is exact and stops with a `Fault` where the answer would leave that range: no answer is ever
reduced modulo the range.
-/
namespace ReplicatedStore

/-- The largest word. -/
def maxWord : Nat := 18446744073709551615

/-- Why an operation stopped in the middle. -/
inductive Fault where
  /-- A sum above `maxWord`. -/
  | overflow
  /-- A difference below zero. -/
  | underflow
  /-- A position outside a list. -/
  | range
  deriving DecidableEq, Repr

/-- The sum of two words. -/
def Word.add (a b : Nat) : Except Fault Nat :=
  if a + b ≤ maxWord then .ok (a + b) else .error .overflow

/-- The difference of two words. -/
def Word.sub (a b : Nat) : Except Fault Nat :=
  if b ≤ a then .ok (a - b) else .error .underflow

theorem Word.add_eq_ok_iff {a b c : Nat} : Word.add a b = .ok c ↔ a + b ≤ maxWord ∧ a + b = c := by
  unfold Word.add
  split <;> rename_i h <;> simp [h]

theorem Word.add_eq_error_iff {a b : Nat} {f : Fault} :
    Word.add a b = .error f ↔ ¬ a + b ≤ maxWord ∧ .overflow = f := by
  unfold Word.add
  split <;> rename_i h <;> simp [h]

theorem Word.sub_eq_ok_iff {a b c : Nat} : Word.sub a b = .ok c ↔ b ≤ a ∧ a - b = c := by
  unfold Word.sub
  split <;> rename_i h <;> simp [h]

/-- A computation in two parts gives a result when both parts do. -/
theorem bind_eq_ok {ε α β : Type} {x : Except ε α} {f : α → Except ε β} {b : β} :
    (x >>= f) = .ok b ↔ ∃ a, x = .ok a ∧ f a = .ok b := by
  cases x <;> simp [bind, Except.bind]

end ReplicatedStore

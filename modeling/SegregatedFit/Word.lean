/-!
# Machine words

Sizes, offsets and tags are 64-bit words. They are kept as natural numbers, and the
operations here are the ones that notice when a result leaves the range of a word.
A `Fault` is what remains of a computation that breaks off: no value and no state.
-/

namespace SegregatedFit

/-- Words are the natural numbers below this bound. -/
abbrev wordLimit : Nat := 18446744073709551616

/-- Why a computation breaks off without a result. -/
inductive Fault where
  /-- A position lies outside the bytes or the table it is used on. -/
  | outOfRange
  /-- A sum or product is too large for a word. -/
  | overflow
  /-- A difference is negative. -/
  | underflow
  /-- A walk along links never ends. -/
  | endless
  deriving DecidableEq

/-- A computation of two steps succeeds when both do, the second on the value of the first. -/
theorem Fault.bind_eq_ok_iff {α β : Type} {x : Except Fault α} {f : α → Except Fault β} {b : β} :
    x >>= f = .ok b ↔ ∃ a, x = .ok a ∧ f a = .ok b := by
  cases x with
  | error fault => simp [bind, Except.bind]
  | ok a => simp [bind, Except.bind]

/-- A computation whose value passes a test has a value. -/
theorem Fault.ok_of_any {ε α : Type} {x : Except ε α} {p : α → Bool}
    (h : x.toOption.any p = true) : ∃ a, x = .ok a ∧ p a = true := by
  cases x with
  | error fault => cases h
  | ok a => exact ⟨a, rfl, h⟩

/-- A computation whose value is seen to be a given one. -/
theorem Fault.eq_ok_of_any {ε α : Type} [BEq α] [LawfulBEq α] {x : Except ε α} {a : α}
    (h : x.toOption.any (· == a) = true) : x = .ok a := by
  obtain ⟨b, hx, hsame⟩ := ok_of_any h
  rw [hx, eq_of_beq hsame]

/-- After a success the next step is taken. -/
@[simp] theorem Fault.ok_bind {α β : Type} (a : α) (f : α → Except Fault β) :
    Except.ok a >>= f = f a := rfl

/-- Giving a value is succeeding with it. -/
@[simp] theorem Fault.pure_eq_ok {α : Type} (a : α) : (pure a : Except Fault α) = .ok a := rfl

namespace Word

/-- A number as a word, if it is one. -/
def ofNat (n : Nat) : Except Fault Nat :=
  if n < wordLimit then .ok n else .error .overflow

/-- The sum of two words. -/
def add (m n : Nat) : Except Fault Nat := ofNat (m + n)

/-- The product of two words. -/
def mul (m n : Nat) : Except Fault Nat := ofNat (m * n)

/-- The difference of two words. -/
def sub (m n : Nat) : Except Fault Nat :=
  if n ≤ m then .ok (m - n) else .error .underflow

/-- A number is a word exactly if it is below the word limit. -/
theorem ofNat_eq_ok_iff {n r : Nat} : ofNat n = .ok r ↔ n < wordLimit ∧ r = n := by
  unfold ofNat
  split
  · next h => simp [h, eq_comm]
  · next h => simp [h]

/-- A number below the word limit is a word. -/
theorem ofNat_of_lt {n : Nat} (h : n < 18446744073709551616) : ofNat n = .ok n := if_pos h

/-- A sum below the word limit does not overflow. -/
theorem add_of_lt {m n : Nat} (h : m + n < 18446744073709551616) : add m n = .ok (m + n) := if_pos h

/-- A product below the word limit does not overflow. -/
theorem mul_of_lt {m n : Nat} (h : m * n < 18446744073709551616) : mul m n = .ok (m * n) := if_pos h

/-- A smaller number can be subtracted. -/
theorem sub_of_le {m n : Nat} (h : n ≤ m) : sub m n = .ok (m - n) := if_pos h

/-- A sum is given exactly if it is below the word limit. -/
theorem add_eq_ok_iff {m n r : Nat} : add m n = .ok r ↔ m + n < wordLimit ∧ r = m + n :=
  ofNat_eq_ok_iff

/-- A difference is given exactly if it is not negative. -/
theorem sub_eq_ok_iff {m n r : Nat} : sub m n = .ok r ↔ n ≤ m ∧ r = m - n := by
  unfold sub
  split
  · next h => simp [h, eq_comm]
  · next h => simp [h]

end Word

end SegregatedFit

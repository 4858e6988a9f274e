/-!
# Little-endian numbers

A number is stored with its lowest byte first. Reading back what was stored gives the
number itself as far as the bytes go (`decode_digit`), and what is read always fits into
them (`decode_lt`).
-/

namespace SegregatedFit.LittleEndian

/-- The byte of a number at a position, lowest first. -/
def digit (v k : Nat) : UInt8 := UInt8.ofNat (v >>> (8 * k))

/-- The number in the bytes `f 0` to `f (n - 1)`. -/
def decode (f : Nat → UInt8) : Nat → Nat
  | 0 => 0
  | n + 1 => decode f n + (f n).toNat <<< (8 * n)

/-- The number decoded from `n` bytes depends on these bytes only. -/
theorem decode_congr {f g : Nat → UInt8} {n : Nat} (h : ∀ k, k < n → f k = g k) :
    decode f n = decode g n := by
  induction n with
  | zero => rfl
  | succ n ih =>
    simp only [decode]
    rw [ih fun k hk => h k (Nat.lt_succ_of_lt hk), h n (Nat.lt_succ_self n)]

/-- What is read fits into the bytes it is read from. -/
theorem decode_lt (f : Nat → UInt8) (n : Nat) : decode f n < 1 <<< (8 * n) := by
  rw [Nat.shiftLeft_eq, Nat.one_mul]
  induction n with
  | zero => exact Nat.one_pos
  | succ n ih =>
    have hbyte : (f n).toNat < 256 := (f n).toNat_lt
    have hpow : 2 ^ (8 * (n + 1)) = 256 * 2 ^ (8 * n) := by
      rw [show 8 * (n + 1) = 8 + 8 * n by omega, Nat.pow_add]
    have hscale : (f n).toNat * 2 ^ (8 * n) ≤ 255 * 2 ^ (8 * n) :=
      Nat.mul_le_mul_right _ (by omega)
    simp only [decode, Nat.shiftLeft_eq]
    omega

/-- Different bytes hold different numbers. -/
theorem decode_inj {f g : Nat → UInt8} {n : Nat} (h : decode f n = decode g n) :
    ∀ k, k < n → f k = g k := by
  induction n with
  | zero => exact fun k hk => absurd hk (Nat.not_lt_zero k)
  | succ n ih =>
    have hf := decode_lt f n
    have hg := decode_lt g n
    simp only [decode, Nat.shiftLeft_eq, Nat.one_mul] at h hf hg
    have hlow : decode f n = decode g n := by
      have hmod := congrArg (· % 2 ^ (8 * n)) h
      simpa [Nat.add_mul_mod_self_right, Nat.mod_eq_of_lt hf, Nat.mod_eq_of_lt hg] using hmod
    have hlast : f n = g n := by
      rw [hlow] at h
      exact UInt8.toNat.inj (Nat.eq_of_mul_eq_mul_right (Nat.two_pow_pos _) (Nat.add_left_cancel h))
    intro k hk
    rcases Nat.lt_succ_iff_lt_or_eq.mp hk with hk | rfl
    · exact ih hlow k hk
    · exact hlast

/-- A number is even or odd with its lowest byte. -/
theorem decode_mod_two (f : Nat → UInt8) (n : Nat) :
    decode f (n + 1) % 2 = (f 0).toNat % 2 := by
  induction n with
  | zero => simp [decode]
  | succ n ih =>
    have hpow : 2 ^ (8 * (n + 1)) = 2 * 2 ^ (8 * n + 7) := by
      rw [show 8 * (n + 1) = 8 * n + 7 + 1 by omega, Nat.pow_succ, Nat.mul_comm]
    rw [decode, Nat.shiftLeft_eq, hpow, Nat.mul_left_comm, Nat.add_mul_mod_self_left, ih]

/-- Reading the stored bytes gives the stored number, reduced to what they can hold. -/
theorem decode_digit (v n : Nat) : decode (digit v) n = v % 1 <<< (8 * n) := by
  rw [Nat.shiftLeft_eq, Nat.one_mul]
  induction n with
  | zero => simp [decode, Nat.mod_one]
  | succ n ih =>
    have hdigit : (digit v n).toNat = v / 2 ^ (8 * n) % 2 ^ 8 := by
      simp [digit, Nat.shiftRight_eq_div_pow]
    simp only [decode, Nat.shiftLeft_eq]
    rw [ih, hdigit, show 8 * (n + 1) = 8 * n + 8 by omega, Nat.pow_add, Nat.mod_mul]
    rw [Nat.mul_comm (2 ^ (8 * n))]

end SegregatedFit.LittleEndian

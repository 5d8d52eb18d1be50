import Mathlib.Algebra.Group.Nat.Defs

/-! # Masks and shifts of 32-bit words as arithmetic -/

namespace VitaUtility

variable {x m : UInt32} {k : Nat}

/-- The low `k` bits. -/
theorem toNat_and_low (hm : m.toNat = 2 ^ k - 1) : (x &&& m).toNat = x.toNat % 2 ^ k := by
  rw [UInt32.toNat_and, hm, Nat.and_two_pow_sub_one_eq_mod]

/-- The bits from `k` on. -/
theorem toNat_and_high (hm : m.toNat = (2 ^ (32 - k) - 1) * 2 ^ k) : (x &&& m).toNat = x.toNat / 2 ^ k * 2 ^ k := by
  have hx := x.toNat_lt
  rw [UInt32.toNat_and, hm]
  apply Nat.eq_of_testBit_eq
  intro i
  rw [Nat.testBit_and, Nat.testBit_mul_two_pow, Nat.testBit_mul_two_pow, Nat.testBit_two_pow_sub_one,
    Nat.testBit_div_two_pow]
  by_cases hi : k ≤ i
  · rw [Nat.sub_add_cancel hi]
    by_cases h32 : i < 32
    · simp [hi, show i - k < 32 - k by omega]
    · have hzero : x.toNat.testBit i = false := Nat.testBit_lt_two_pow (Nat.lt_of_lt_of_le hx
        (Nat.pow_le_pow_right (by decide) (by omega)))
      simp [hzero]
  · simp [hi]

/-- The bit `k`. -/
theorem and_bit_ne_zero (hm : m.toNat = 2 ^ k) : x &&& m ≠ 0 ↔ x.toNat / 2 ^ k % 2 = 1 := by
  have hbit : ∀ i, (x &&& m).toNat.testBit i = (x.toNat.testBit i && decide (k = i)) := by
    intro i
    rw [UInt32.toNat_and, hm, Nat.testBit_and, Nat.testBit_two_pow]
  have hone : x.toNat.testBit k = true ↔ x.toNat / 2 ^ k % 2 = 1 := by
    rw [Nat.testBit_eq_decide_div_mod_eq, decide_eq_true_iff]
  rw [Ne, ← UInt32.toNat_inj, ← hone]
  constructor
  · intro hne
    cases hk : x.toNat.testBit k with
    | true => rfl
    | false =>
      refine absurd (Nat.eq_of_testBit_eq fun i => ?_) hne
      rw [hbit]
      by_cases hi : k = i
      · simp [← hi, hk]
      · simp [hi]
  · intro hk heq
    have hbit := hbit k
    rw [heq, hk] at hbit
    simp at hbit

theorem toNat_shiftRight {n : UInt32} (hn : n.toNat = k) (hk : k < 32) : (x >>> n).toNat = x.toNat / 2 ^ k := by
  rw [UInt32.toNat_shiftRight, hn, Nat.mod_eq_of_lt hk, Nat.shiftRight_eq_div_pow]

end VitaUtility

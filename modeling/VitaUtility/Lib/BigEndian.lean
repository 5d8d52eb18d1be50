import VitaUtility.Lib.Memory

/-!
# Big-endian numbers in memory

The first byte of a buffer is the highest of its number. Exclusive or works byte by byte, and a loop that shifts
the bytes from the last to the first, carrying the top bit of each into the next, shifts the number.
-/

namespace VitaUtility

/-- The number with the bytes `p 0`, .., `p (n - 1)`, the highest first. -/
def beBits : (n : Nat) → Mem → BitVec (8 * n)
  | 0, _ => 0
  | n + 1, p => beBits n p ++ (p n).toBitVec

/-- The byte `j` of an `n`-byte number, the highest first. -/
def beByte (n : Nat) (x : BitVec (8 * n)) (j : Nat) : UInt8 := ⟨x.extractLsb' (8 * (n - 1 - j)) 8⟩

section
variable {n i j : Nat} {p q r d : Mem} {x : BitVec (8 * n)}

theorem getLsbD_beBits (hi : i < 8 * n) :
    (beBits n p).getLsbD i = (p (n - 1 - i / 8)).toBitVec.getLsbD (i % 8) := by
  induction n generalizing i with
  | zero => omega
  | succ n ih =>
    rw [beBits, BitVec.getLsbD_append]
    split
    · rename_i hlt
      rw [Nat.div_eq_of_lt hlt, Nat.mod_eq_of_lt hlt]
      rfl
    · rw [ih (by omega), show n + 1 - 1 - i / 8 = n - 1 - (i - 8) / 8 by omega, show (i - 8) % 8 = i % 8 by omega]

theorem beBits_congr (h : ∀ j < n, p j = q j) : beBits n p = beBits n q := by
  induction n with
  | zero => rfl
  | succ n ih => rw [beBits, beBits, ih fun j hj => h j (by omega), h n (by omega)]

/-- A buffer with the bytes of `x` holds `x`. -/
theorem beBits_of_beByte (h : ∀ j < n, p j = beByte n x j) : beBits n p = x := by
  apply BitVec.eq_of_getLsbD_eq
  intro i hi
  rw [getLsbD_beBits hi, h _ (by omega), beByte, BitVec.getLsbD_extractLsb']
  have hbit : 8 * (n - 1 - (n - 1 - i / 8)) + i % 8 = i := by omega
  rw [hbit, decide_eq_true (Nat.mod_lt i (by decide)), Bool.true_and]

/-- Two buffers hold one number when their bytes agree. -/
theorem beBits_inj : beBits n p = beBits n q ↔ ∀ j < n, p j = q j := by
  refine ⟨fun h j hj => ?_, beBits_congr⟩
  apply UInt8.toBitVec_inj.1
  apply BitVec.eq_of_getLsbD_eq
  intro i hi
  have hbit := congrArg (·.getLsbD (8 * (n - 1 - j) + i)) h
  have hdiv : (8 * (n - 1 - j) + i) / 8 = n - 1 - j := by omega
  have hmod : (8 * (n - 1 - j) + i) % 8 = i := by omega
  have hidx : n - 1 - (n - 1 - j) = j := by omega
  rwa [getLsbD_beBits (by omega), getLsbD_beBits (by omega), hdiv, hmod, hidx] at hbit

/-- The low bytes of `y`, the highest first, are its low bits. -/
theorem beBits_low {w : Nat} {y : BitVec w} (h : ∀ j < n, (p j).toBitVec = y.extractLsb' (8 * (n - 1 - j)) 8) :
    beBits n p = y.setWidth (8 * n) := by
  apply BitVec.eq_of_getLsbD_eq
  intro i hi
  have hbit : 8 * (n - 1 - (n - 1 - i / 8)) + i % 8 = i := by omega
  rw [getLsbD_beBits hi, h _ (by omega), BitVec.getLsbD_extractLsb', BitVec.getLsbD_setWidth, hbit,
    decide_eq_true (Nat.mod_lt i (by decide)), decide_eq_true hi]

/-- Reversing the bytes turns the lowest first into the highest first. -/
theorem leBits_reverse (h : ∀ j < n, p j = q (n - 1 - j)) : leBits n p = beBits n q := by
  refine leBits_of_bytes fun j hj => ?_
  apply BitVec.eq_of_getLsbD_eq
  intro i hi
  have hdiv : (8 * j + i) / 8 = j := by omega
  have hmod : (8 * j + i) % 8 = i := by omega
  rw [h j hj, BitVec.getLsbD_extractLsb', getLsbD_beBits (by omega), hdiv, hmod, decide_eq_true hi, Bool.true_and]

theorem beBits_xor (h : ∀ j < n, r j = p j ^^^ q j) : beBits n r = beBits n p ^^^ beBits n q := by
  induction n with
  | zero => exact (BitVec.xor_self (x := (0 : BitVec 0))).symm
  | succ n ih =>
    rw [beBits, beBits, beBits, BitVec.xor_append, ih fun j hj => h j (by omega), h n (by omega)]
    rfl

theorem beBits_zero (h : ∀ j < n, p j = 0) : beBits n p = 0 := by
  apply BitVec.eq_of_getLsbD_eq
  intro i hi
  rw [getLsbD_beBits hi, h _ (by omega)]
  simp

/-- The top bit is the top bit of the first byte. -/
theorem msb_beBits (hn : 0 < n) : (beBits n p).msb = (p 0).toBitVec.getLsbD 7 := by
  rw [BitVec.msb_eq_getLsbD_last, getLsbD_beBits (by omega), show n - 1 - (8 * n - 1) / 8 = 0 by omega,
    show (8 * n - 1) % 8 = 7 by omega]

theorem getLsbD_shiftLeft_one (b : UInt8) (k : Nat) :
    (b <<< 1).toBitVec.getLsbD k = (decide (0 < k ∧ k < 8) && b.toBitVec.getLsbD (k - 1)) := by
  have h : (b <<< 1).toBitVec = b.toBitVec <<< 1 := rfl
  rw [h, BitVec.getLsbD_shiftLeft]
  by_cases hk : k < 8 <;> by_cases h0 : 0 < k <;> simp [hk, h0] <;> omega

/-- The bit carried out of a byte. -/
theorem getLsbD_carry (b : UInt8) (k : Nat) :
    (b >>> 7 &&& 1).toBitVec.getLsbD k = (decide (k = 0) && b.toBitVec.getLsbD 7) := by
  have h : (b >>> 7 &&& 1).toBitVec = b.toBitVec >>> 7 &&& 1#8 := rfl
  rw [h, BitVec.getLsbD_and, BitVec.getLsbD_ushiftRight]
  by_cases hk : k = 0
  · subst hk
    simp
  · simp [hk]

/-- A shift by one bit: each byte takes in the top bit of the byte after it. -/
theorem beBits_shiftLeft_one (hlast : ∀ j, j + 1 = n → d j = p j <<< 1)
    (h : ∀ j, j + 1 < n → d j = p j <<< 1 ||| (p (j + 1) >>> 7 &&& 1)) : beBits n d = beBits n p <<< 1 := by
  apply BitVec.eq_of_getLsbD_eq
  intro i hi
  rw [getLsbD_beBits hi, BitVec.getLsbD_shiftLeft, decide_eq_true hi, Bool.true_and]
  by_cases hlow : i < 8
  · rw [hlast _ (by omega), getLsbD_shiftLeft_one]
    by_cases h0 : i = 0
    · subst h0
      simp
    · rw [getLsbD_beBits (by omega), show (i - 1) / 8 = i / 8 by omega, show (i - 1) % 8 = i % 8 - 1 by omega]
      simp [show 0 < i % 8 by omega, Nat.mod_lt, show ¬ i < 1 by omega]
  · rw [h _ (by omega), UInt8.toBitVec_or, BitVec.getLsbD_or, getLsbD_shiftLeft_one, getLsbD_carry,
      getLsbD_beBits (by omega)]
    by_cases h0 : i % 8 = 0
    · rw [h0, show n - 1 - i / 8 + 1 = n - 1 - (i - 1) / 8 by omega, show (i - 1) % 8 = 7 by omega]
      simp [show ¬ i < 1 by omega]
    · rw [show (i - 1) / 8 = i / 8 by omega, show (i - 1) % 8 = i % 8 - 1 by omega]
      simp [h0, Nat.mod_lt, show 0 < i % 8 by omega, show ¬ i < 1 by omega]

end

/-! ### Words -/

def be32 (m : Mem) (a : Nat) : UInt32 := ⟨beBits 4 fun b => m (a + b)⟩

def be64 (m : Mem) (a : Nat) : UInt64 := ⟨beBits 8 fun b => m (a + b)⟩

section
variable {m m' : Mem} {a : Nat}

theorem be32_congr (h : ∀ b < 4, m (a + b) = m' (a + b)) : be32 m a = be32 m' a :=
  congrArg UInt32.ofBitVec (beBits_congr h)

theorem be64_congr (h : ∀ b < 8, m (a + b) = m' (a + b)) : be64 m a = be64 m' a :=
  congrArg UInt64.ofBitVec (beBits_congr h)

theorem bswap32_load32 : bswap32 (load32 m a) = be32 m a := by
  refine congrArg UInt32.ofBitVec (leBits_reverse fun b hb => ?_)
  rw [byteOf_load32 (by omega)]

theorem bswap64_load64 : bswap64 (load64 m a) = be64 m a := by
  refine congrArg UInt64.ofBitVec (leBits_reverse fun b hb => ?_)
  exact UInt8.eq_of_toBitVec_eq (extractLsb'_leBits (by omega))

end

end VitaUtility

import Mathlib.Algebra.Group.Nat.Defs

/-!
# Bytes and little-endian words in memory

A pointer is the memory it points at: a function from the offset to the byte there.
-/

namespace VitaUtility

abbrev Mem := Nat → UInt8

/-- `memcpy(dst, src, n)` -/
def memcpy (dst src : Mem) (n : Nat) : Mem := fun b => if b < n then src b else dst b

/-- `memcpy(dst + off, src, n)` -/
def memcpyAt (dst : Mem) (off : Nat) (src : Mem) (n : Nat) : Mem :=
  fun b => if off ≤ b ∧ b < off + n then src (b - off) else dst b

/-- `memset(dst + off, c, n)` -/
def memset (dst : Mem) (off : Nat) (c : UInt8) (n : Nat) : Mem :=
  fun b => if off ≤ b ∧ b < off + n then c else dst b

@[simp] theorem memcpy_zero {dst src : Mem} : memcpy dst src 0 = dst := funext fun b => if_neg (Nat.not_lt_zero b)

@[simp] theorem memcpyAt_zero {dst src : Mem} {off : Nat} : memcpyAt dst off src 0 = dst :=
  funext fun b => if_neg (by omega)

theorem memcpyAt_congr {dst src src' : Mem} {off n : Nat} (h : ∀ i < n, src i = src' i) :
    memcpyAt dst off src n = memcpyAt dst off src' n := by
  funext b
  unfold memcpyAt
  split
  · exact h _ (by omega)
  · rfl

theorem memcpyAt_memcpyAt {dst src src' : Mem} {off n k : Nat} : memcpyAt (memcpyAt dst off src n) (off + n) src' k =
    memcpyAt dst off (fun i => if i < n then src i else src' (i - n)) (n + k) := by
  funext b
  unfold memcpyAt
  by_cases hb : off + n ≤ b
  · simp only [show ¬ b - off < n by omega, if_false, show b - off - n = b - (off + n) by omega]
    by_cases hk : b < off + n + k
    · rw [if_pos ⟨hb, hk⟩, if_pos (by omega)]
    · rw [if_neg (by omega), if_neg (by omega), if_neg (by omega)]
  · rw [if_neg (by omega)]
    by_cases hoff : off ≤ b
    · simp only [show off ≤ b ∧ b < off + n by omega, show off ≤ b ∧ b < off + (n + k) by omega,
        show b - off < n by omega, and_self, if_true]
    · rw [if_neg (by omega), if_neg (by omega)]

theorem memcpyAt_add {dst src : Mem} {off n k : Nat} :
    memcpyAt (memcpyAt dst off src n) (off + n) (fun i => src (n + i)) k = memcpyAt dst off src (n + k) := by
  rw [memcpyAt_memcpyAt]
  refine memcpyAt_congr fun i _ => ?_
  split
  · rfl
  · exact congrArg src (by omega)

/-- The number with the bytes `p 0`, .., `p (n - 1)`, the lowest first. -/
def leBits : (n : Nat) → Mem → BitVec (8 * n)
  | 0, _ => 0
  | n + 1, p => leBits n (fun i => p (i + 1)) ++ (p 0).toBitVec

theorem extractLsb'_leBits {n i : Nat} {p : Mem} (hi : i < n) :
    (leBits n p).extractLsb' (8 * i) 8 = (p i).toBitVec := by
  induction n generalizing i p with
  | zero => omega
  | succ n ih =>
    rw [leBits]
    cases i with
    | zero => exact BitVec.extractLsb'_append_eq_right
    | succ i =>
      rw [BitVec.extractLsb'_append_eq_of_le (by omega), show 8 * (i + 1) - 8 = 8 * i by omega]
      exact ih (by omega)

theorem leBits_congr {n : Nat} {p q : Mem} (h : ∀ i < n, p i = q i) : leBits n p = leBits n q := by
  induction n generalizing p q with
  | zero => rfl
  | succ n ih => rw [leBits, leBits, h 0 (Nat.zero_lt_succ n), ih fun i hi => h (i + 1) (Nat.succ_lt_succ hi)]

/-- A buffer with the bytes of `x` holds `x`. -/
theorem leBits_of_bytes {n : Nat} {p : Mem} {x : BitVec (8 * n)}
    (h : ∀ i < n, (p i).toBitVec = x.extractLsb' (8 * i) 8) : leBits n p = x := by
  apply BitVec.eq_of_getLsbD_eq
  intro i hi
  have hbyte : (leBits n p).extractLsb' (8 * (i / 8)) 8 = x.extractLsb' (8 * (i / 8)) 8 := by
    rw [extractLsb'_leBits (by omega), h _ (by omega)]
  have hbit := congrArg (fun y => y.getLsbD (i % 8)) hbyte
  simpa [Nat.mod_lt, show 8 * (i / 8) + i % 8 = i by omega] using hbit

/-- The bytes from `a` on are the bits from `8 * a` on. -/
theorem leBits_shift {n a N : Nat} {p : Mem} (h : a + n ≤ N) :
    (leBits n fun i => p (a + i)) = (leBits N p).extractLsb' (8 * a) (8 * n) := by
  refine leBits_of_bytes fun i hi => ?_
  rw [← extractLsb'_leBits (p := p) (show a + i < N by omega), Nat.mul_add]
  ext b hb
  simp [show 8 * i + b < 8 * n by omega, Nat.add_assoc]

theorem toNat_leBits_shift {a n : Nat} {p : Mem} :
    (leBits n fun i => p (a + i)).toNat = (leBits (a + n) p).toNat / 2 ^ (8 * a) := by
  rw [leBits_shift (Nat.le_refl _), BitVec.extractLsb'_toNat, Nat.shiftRight_eq_div_pow, Nat.mod_eq_of_lt]
  rw [Nat.div_lt_iff_lt_mul (Nat.two_pow_pos _), ← Nat.pow_add, ← Nat.mul_add, Nat.add_comm n a]
  exact (leBits (a + n) p).isLt

/-! ### Words -/

/-- The byte `i` of a word. -/
def byteOf (v : UInt32) (i : Nat) : UInt8 := ⟨v.toBitVec.extractLsb' (8 * i) 8⟩

/-- The word with the bytes `p 0` to `p 3`. -/
def wordOf (p : Mem) : UInt32 := ⟨leBits 4 p⟩

def load32 (m : Mem) (a : Nat) : UInt32 := wordOf fun i => m (a + i)

def store32 (m : Mem) (a : Nat) (v : UInt32) : Mem := fun b => if a ≤ b ∧ b < a + 4 then byteOf v (b - a) else m b

/-- The `w` bytes at `a`, at most four, as a word. -/
def loadN (w : Nat) (m : Mem) (a : Nat) : UInt32 := ⟨(leBits w fun i => m (a + i)).setWidth 32⟩

/-- The low `w` bytes of `v` to `a`. -/
def storeN (w : Nat) (m : Mem) (a : Nat) (v : UInt32) : Mem :=
  fun b => if a ≤ b ∧ b < a + w then byteOf v (b - a) else m b

/-- `__builtin_bswap32` -/
def bswap32 (v : UInt32) : UInt32 := wordOf fun i => byteOf v (3 - i)

def load64 (m : Mem) (a : Nat) : UInt64 := ⟨leBits 8 fun i => m (a + i)⟩

/-- `__builtin_bswap64` -/
def bswap64 (v : UInt64) : UInt64 := ⟨leBits 8 fun i => ⟨v.toBitVec.extractLsb' (8 * (7 - i)) 8⟩⟩

section
variable {m : Mem} {p : Mem} {a b i : Nat} {v w : UInt32}

theorem byteOf_wordOf (hi : i < 4) : byteOf (wordOf p) i = p i :=
  UInt8.eq_of_toBitVec_eq (extractLsb'_leBits hi)

theorem byteOf_load32 (hi : i < 4) : byteOf (load32 m a) i = m (a + i) := byteOf_wordOf hi

theorem load32_congr {m' : Mem} (h : ∀ i < 4, m (a + i) = m' (a + i)) : load32 m a = load32 m' a :=
  congrArg UInt32.ofBitVec (leBits_congr h)

theorem byteOf_bswap32 (hi : i < 4) : byteOf (bswap32 v) i = byteOf v (3 - i) := byteOf_wordOf hi

theorem byteOf_xor : byteOf (v ^^^ w) i = byteOf v i ^^^ byteOf w i :=
  UInt8.eq_of_toBitVec_eq BitVec.extractLsb'_xor

theorem store32_self (hi : i < 4) : store32 m a v (a + i) = byteOf v i := by
  rw [store32, if_pos (by omega), Nat.add_sub_cancel_left]

theorem store32_of_disjoint (h : b < a ∨ a + 4 ≤ b) : store32 m a v b = m b := if_neg (by omega)

theorem loadN_four : loadN 4 m a = load32 m a := congrArg UInt32.ofBitVec (BitVec.setWidth_eq _)

theorem storeN_four : storeN 4 m a v = store32 m a v := rfl

theorem byteOf_loadN {w : Nat} (hw : w ≤ 4) (hi : i < w) : byteOf (loadN w m a) i = m (a + i) := by
  refine UInt8.eq_of_toBitVec_eq ?_
  rw [byteOf, loadN, BitVec.extractLsb'_setWidth_of_le (by omega), extractLsb'_leBits hi]

theorem loadN_congr {m' : Mem} {w : Nat} (h : ∀ i < w, m (a + i) = m' (a + i)) : loadN w m a = loadN w m' a := by
  rw [loadN, loadN, leBits_congr h]

theorem loadN_storeN : loadN 4 (storeN 4 m a v) a = v := by
  rw [loadN_four]
  refine UInt32.eq_of_toBitVec_eq (leBits_of_bytes fun i hi => ?_)
  rw [storeN_four, store32_self hi]
  rfl

/-- What is loaded and stored is copied. -/
theorem storeN_loadN {m' : Mem} {w : Nat} (hw : w ≤ 4) :
    storeN w m a (loadN w m' b) = memcpyAt m a (fun i => m' (b + i)) w := by
  funext i
  unfold storeN memcpyAt
  split
  · exact byteOf_loadN hw (by omega)
  · rfl

end

end VitaUtility

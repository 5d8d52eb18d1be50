import VitaUtility.Lib.Memory

/-!
# The secure tick of `activate_reset`

`set_tool_secure_tick` turns a date in unix time into a tick of the system clock, in microseconds, and sends the
bits 19 to 58 of it to the syscon as five bytes.
-/

namespace VitaUtility.ActivateReset

/-- unixtime to sce tick -/
def startDate0 (newTick : UInt64) : UInt64 := newTick * 1000 * 1000 + 0xDCBFFEFF2BC000

/-- The buffer `x`. -/
def tickBytes (newTick : UInt64) : Mem :=
  let startDate0 := startDate0 newTick
  let tickLo := startDate0.toUInt32
  let tickHi := (startDate0 >>> 0x20).toUInt32
  fun
    | 0 => ((tickLo >>> 0x13 ||| tickHi <<< 0xD) &&& 0xFF).toUInt8
    | 1 => ((tickLo >>> 0x1B ||| tickHi <<< 0x5) &&& 0xFF).toUInt8
    | 2 => (tickHi >>> 3 &&& 0xFF).toUInt8
    | 3 => (tickHi >>> 0xB &&& 0xFF).toUInt8
    | _ => (tickHi >>> 0x13 &&& 0xFF).toUInt8

/-- What `ksceSysconSendCommand` is called with. -/
structure SysconCommand where
  cmd : UInt32
  data : Mem
  size : Nat

/-- The result and the command; `res` is the answer of `ksceSysconSendCommand`. -/
def setToolSecureTick (res : Int) (newTick : UInt64) : Int × SysconCommand :=
  (if res < 0 then res else 0, ⟨0x22, tickBytes newTick, 5⟩)

/-- The bytes sent as a little-endian number. -/
def sentTick (res : Int) (newTick : UInt64) : Nat :=
  let sent := (setToolSecureTick res newTick).2
  (leBits sent.size sent.data).toNat

section
variable {t : UInt64} {d d' : UInt32}

/-- No bit of the product is lost. -/
theorem toNat_startDate0 (d : UInt32) :
    (startDate0 d.toUInt64).toNat = d.toNat * 10 ^ 6 + 0xDCBFFEFF2BC000 := by
  have hd := d.toNat_lt
  have hoff : (0xDCBFFEFF2BC000 : UInt64).toNat = 0xDCBFFEFF2BC000 := rfl
  have hk : (1000 : UInt64).toNat = 1000 := rfl
  rw [startDate0, UInt64.toNat_add, UInt64.toNat_mul, UInt64.toNat_mul, UInt32.toNat_toUInt64, hoff, hk]
  omega

theorem startDate0_lt (d : UInt32) : (startDate0 d.toUInt64).toNat < 2 ^ 59 := by
  have hd := d.toNat_lt
  rw [toNat_startDate0]
  omega

/-- A byte that lies across the two halves of the tick, or in the lower one. -/
theorem splice_halves (x : BitVec 64) {a : Nat} (ha : a < 32) :
    (x.setWidth 32 >>> a ||| (x >>> 32).setWidth 32 <<< (32 - a)).setWidth 8 = x.extractLsb' a 8 := by
  apply BitVec.eq_of_getLsbD_eq
  intro k hk
  rw [BitVec.getLsbD_setWidth, BitVec.getLsbD_or, BitVec.getLsbD_ushiftRight, BitVec.getLsbD_shiftLeft,
    BitVec.getLsbD_setWidth, BitVec.getLsbD_setWidth, BitVec.getLsbD_ushiftRight, BitVec.getLsbD_extractLsb']
  by_cases hlow : a + k < 32
  · simp [hk, hlow, show k < 32 - a by omega]
  · simp [hk, hlow, show ¬ k < 32 - a by omega, show k < 32 by omega, show k - (32 - a) < 32 by omega,
      show 32 + (k - (32 - a)) = a + k by omega]

/-- A byte of the upper half. -/
theorem upper_half (x : BitVec 64) {a : Nat} (ha : a + 8 ≤ 32) :
    ((x >>> 32).setWidth 32 >>> a).setWidth 8 = x.extractLsb' (32 + a) 8 := by
  apply BitVec.eq_of_getLsbD_eq
  intro k hk
  rw [BitVec.getLsbD_setWidth, BitVec.getLsbD_ushiftRight, BitVec.getLsbD_setWidth, BitVec.getLsbD_ushiftRight,
    BitVec.getLsbD_extractLsb']
  simp [hk, show a + k < 32 by omega, Nat.add_assoc]

theorem toBitVec_lowByte (v : UInt32) : (v &&& 0xFF).toUInt8.toBitVec = v.toBitVec.setWidth 8 := by
  apply BitVec.eq_of_getLsbD_eq
  intro k hk
  have h : (v &&& 0xFF).toUInt8.toBitVec = (v.toBitVec &&& 0xFF).setWidth 8 := rfl
  have hmask : (0xFF : BitVec 32).getLsbD k = true := by
    have : ∀ k < 8, (0xFF : BitVec 32).getLsbD k = true := by decide
    exact this k hk
  rw [h, BitVec.getLsbD_setWidth, BitVec.getLsbD_and, hmask, Bool.and_true, BitVec.getLsbD_setWidth]

/-- The byte `i` is the eight bits of the tick from `19 + 8 * i` on. -/
theorem tickBytes_eq {i : Nat} (hi : i < 5) :
    (tickBytes t i).toBitVec = (startDate0 t).toBitVec.extractLsb' (19 + 8 * i) 8 := by
  unfold tickBytes
  match i, hi with
  | 0, _ => exact (toBitVec_lowByte _).trans (splice_halves _ (by decide))
  | 1, _ => exact (toBitVec_lowByte _).trans (splice_halves _ (by decide))
  | 2, _ => exact (toBitVec_lowByte _).trans (upper_half _ (by decide))
  | 3, _ => exact (toBitVec_lowByte _).trans (upper_half _ (by decide))
  | 4, _ => exact (toBitVec_lowByte _).trans (upper_half _ (by decide))

theorem sentTick_eq (res : Int) (d : UInt32) :
    sentTick res d.toUInt64 = (d.toNat * 10 ^ 6 + 0xDCBFFEFF2BC000) / 2 ^ 19 := by
  have hbits : leBits 5 (tickBytes d.toUInt64) = (startDate0 d.toUInt64).toBitVec.extractLsb' 19 40 := by
    refine leBits_of_bytes fun i hi => ?_
    rw [tickBytes_eq hi]
    apply BitVec.eq_of_getLsbD_eq
    intro k hk
    simp [hk, show 8 * i + k < 40 by omega, Nat.add_assoc]
  have hlt := startDate0_lt d
  have hsent : sentTick res d.toUInt64 = (leBits 5 (tickBytes d.toUInt64)).toNat := rfl
  rw [hsent, hbits, BitVec.extractLsb'_toNat, ← toNat_startDate0, UInt64.toNat_toBitVec, Nat.shiftRight_eq_div_pow]
  exact Nat.mod_eq_of_lt (by omega)

end

/-- The syscon gets the tick of every date, divided by `2 ^ 19` and rounded down, and later dates send more. -/
theorem sentTick_exact (res : Int) (d : UInt32) :
    (startDate0 d.toUInt64).toNat = d.toNat * 10 ^ 6 + 0xDCBFFEFF2BC000 ∧
    (startDate0 d.toUInt64).toNat < 2 ^ 59 ∧
    sentTick res d.toUInt64 = (startDate0 d.toUInt64).toNat / 2 ^ 19 ∧
    sentTick res d.toUInt64 * 2 ^ 19 ≤ (startDate0 d.toUInt64).toNat ∧
    (startDate0 d.toUInt64).toNat < (sentTick res d.toUInt64 + 1) * 2 ^ 19 ∧
    ∀ (res' : Int) (d' : UInt32), d < d' → sentTick res d.toUInt64 < sentTick res' d'.toUInt64 := by
  have hT := toNat_startDate0 d
  have hx := sentTick_eq res d
  refine ⟨hT, startDate0_lt d, by rw [hx, hT], by omega, by omega, fun res' d' hd => ?_⟩
  have hlt : d.toNat < d'.toNat := UInt32.lt_iff_toNat_lt.1 hd
  rw [hx, sentTick_eq]
  omega

theorem sentTick_exact_epoch : sentTick 0 (0 : UInt32).toUInt64 < sentTick 0 (1 : UInt32).toUInt64 := by
  obtain ⟨-, -, -, -, -, h⟩ := sentTick_exact 0 0
  exact h 0 1 (by decide)

end VitaUtility.ActivateReset

import VitaUtility.Lib.Mask
import VitaUtility.Lib.Memory
import VitaUtility.Lib.ShortDescriptor

/-!
# Reading a dump through its page tables

`mmuRead8` of `SceTTBRParser` beside the walk of the processor. Where a dereference would not be in the image the model
stops, so a result says also that everything read was inside.
-/

namespace VitaUtility.TtbrParser

open ShortDescriptor

def sceMemoryBase : UInt32 := 0x40000000

/-- `0x200000` -/
def imageSize : Nat := 0x200000

/-- `pTzs`, `pTTBR0` and `pTTBR1`. -/
structure Dump where
  tzs : Mem
  ttbr0 : Nat → UInt32
  ttbr1 : Nat → UInt32

/-- Where a run does not come back from: the loop after `error`, a read outside the image, a write outside a buffer. -/
inductive Stop where
  | error
  | outside (offset : UInt32)
  | overflow
deriving DecidableEq

namespace Dump
variable (d : Dump) (addr : UInt32)

/-- `*(uint8_t *)(pTzs + offset)` -/
def byteAt (offset : UInt32) : Except Stop UInt8 :=
  if offset.toNat < imageSize then .ok (d.tzs offset.toNat) else .error (.outside offset)

/-- `*(uintptr_t *)(pTzs + offset)` -/
def wordAt (offset : UInt32) : Except Stop UInt32 :=
  if offset.toNat + 4 ≤ imageSize then .ok (load32 d.tzs offset.toNat) else .error (.outside offset)

/-- `pTTBR` for the address -/
def tableFor : Nat → UInt32 := if addr < 0x40000000 then d.ttbr0 else d.ttbr1

/-- `pTTBR[(addr >> 20) & 0xFFF]` -/
def firstLevel : UInt32 := d.tableFor addr ((addr >>> 20) &&& 0xFFF).toNat

/-- `&pTTBRSec[idx]` for the descriptor of a page table -/
def secondLevelEntry (ttbr idx : UInt32) : UInt32 :=
  let secondLevelSection := ttbr &&& 0xFFFFFC00
  secondLevelSection - sceMemoryBase + idx * 4

/-- The pointer into the page that `ttbr_sec` describes. -/
def pagePointer (ttbrSec addr : UInt32) : Except Stop UInt32 :=
  if ttbrSec &&& 3 = 1 then .ok ((ttbrSec &&& 0xFFFF0000) - sceMemoryBase + (addr &&& 0xFFFF))
  else if ttbrSec &&& 2 ≠ 0 then .ok ((ttbrSec &&& 0xFFFFF000) - sceMemoryBase + (addr &&& 0xFFF))
  else .error .error

/-- The pointer that `mmuRead8` returns the byte at; pointers are offsets from `pTzs`. -/
def mmuPointer : Except Stop UInt32 :=
  let ttbr := d.firstLevel addr
  if ttbr &&& 3 = 1 then do
    let ttbrSec ← d.wordAt (secondLevelEntry ttbr ((addr >>> 12) &&& 0xFF))
    pagePointer ttbrSec addr
  else if ttbr &&& 3 = 2 then
    if ttbr = 0x1E0 then .error .error else
    .ok ((ttbr &&& 0xFFF00000) - sceMemoryBase + (addr &&& 0xFFFFF))
  else .error .error

def mmuRead8 : Except Stop UInt8 := do
  let p ← d.mmuPointer addr
  d.byteAt p

/-! ### The walk of the processor -/

/-- The word at a physical address in the image. -/
def physWord (a : BitVec 32) : Option (BitVec 32) :=
  if 0x40000000 ≤ a.toNat ∧ a.toNat + 4 ≤ 0x40200000 then some (load32 d.tzs (a.toNat - 0x40000000)).toBitVec
  else none

def tableOf (ttbr : Nat → UInt32) (i : BitVec 12) : BitVec 32 := (ttbr i.toNat).toBitVec

/-- The translation of `addr`, with `TTBR0` for the first gigabyte. -/
def translation : Translation :=
  walk (selectTable 2 (tableOf d.ttbr0) (tableOf d.ttbr1) addr.toBitVec) d.physWord addr.toBitVec

/-- The physical address is in the image. -/
def InImage (p : BitVec 40) : Prop := 0x40000000 ≤ p.toNat ∧ p.toNat < 0x40200000

instance (p : BitVec 40) : Decidable (InImage p) := inferInstanceAs (Decidable (_ ∧ _))

/-- The first-level descriptor of `addr` is a supersection. -/
def InSupersection : Prop := ∃ base, FirstLevel.decode (d.firstLevel addr).toBitVec = .supersection base

/-- `mmuRead8` agrees with the processor: it reads the byte of the image, or reports an error. -/
structure Agrees : Prop where
  read : ∀ p, d.translation addr = .at p → InImage p → d.mmuRead8 addr = .ok (d.tzs (p.toNat - 0x40000000))
  error : (∀ p, d.translation addr = .at p → ¬ InImage p) → d.mmuRead8 addr = .error .error

/-! ### The pointer and the translation -/

section
variable {d addr} {t a mh ml off : UInt32} {k : Nat}

/-- The offset from `pTzs` that the code takes a physical address to be at. -/
def offsetOf (p : Nat) : Nat := (p + 2 ^ 32 - 0x40000000) % 2 ^ 32

theorem offsetOf_add_le_iff {p n : Nat} (hp : p < 2 ^ 32) :
    offsetOf p + n ≤ imageSize ↔ 0x40000000 ≤ p ∧ p + n ≤ 0x40200000 := by
  unfold offsetOf imageSize
  omega

theorem offsetOf_of_inImage {p : BitVec 40} (hp : InImage p) : offsetOf p.toNat = p.toNat - 0x40000000 := by
  obtain ⟨hlo, hhi⟩ := hp
  unfold offsetOf
  omega

/-- The base in the bits of `t` from `k` on and the place in the block from the low bits of `a`. -/
theorem toNat_blockOffset (hh : mh.toNat = (2 ^ (32 - k) - 1) * 2 ^ k) (hl : ml.toNat = 2 ^ k - 1) :
    ((t &&& mh) - sceMemoryBase + (a &&& ml)).toNat = offsetOf (t.toNat / 2 ^ k * 2 ^ k + a.toNat % 2 ^ k) := by
  have hbase : sceMemoryBase.toNat = 0x40000000 := rfl
  rw [UInt32.toNat_add, UInt32.toNat_sub, toNat_and_high hh, toNat_and_low hl, hbase, offsetOf]
  omega

theorem and_three_iff {x n : UInt32} : x &&& 3 = n ↔ x.toNat % 4 = n.toNat := by
  rw [← UInt32.toNat_inj, toNat_and_low (k := 2) rfl]
  rfl

theorem and_two_iff {x : UInt32} : x &&& 2 ≠ 0 ↔ 2 ≤ x.toNat % 4 := by
  rw [and_bit_ne_zero (k := 1) rfl]
  omega

theorem toNat_firstLevelIdx : ((addr >>> 20) &&& 0xFFF).toNat = (addr.toBitVec.extractLsb' 20 12).toNat := by
  rw [toNat_and_low (k := 12) rfl, toNat_shiftRight (k := 20) rfl (by decide), toNat_extract]
  rfl

theorem firstLevel_toBitVec : selectTable 2 (tableOf d.ttbr0) (tableOf d.ttbr1) addr.toBitVec
    (addr.toBitVec.extractLsb' 20 12) = (d.firstLevel addr).toBitVec := by
  rw [firstLevel, tableFor, toNat_firstLevelIdx, selectTable]
  by_cases h : addr < 0x40000000
  · have hlt : addr.toBitVec.toNat < 2 ^ (32 - 2) := UInt32.lt_iff_toNat_lt.1 h
    rw [if_pos h, if_pos hlt]
    rfl
  · have hge : ¬ addr.toBitVec.toNat < 2 ^ (32 - 2) := fun hlt => h (UInt32.lt_iff_toNat_lt.2 hlt)
    rw [if_neg h, if_neg hge]
    rfl

/-- The second-level descriptor is read where the walk has it, or outside the image. -/
theorem wordAt_eq {a : BitVec 32} (h : off.toNat = offsetOf a.toNat) :
    d.wordAt off = (d.physWord a).elim (.error (.outside off)) fun w => .ok ⟨w⟩ := by
  have hin := offsetOf_add_le_iff (n := 4) a.isLt
  unfold wordAt physWord
  rw [h]
  by_cases ha : 0x40000000 ≤ a.toNat ∧ a.toNat + 4 ≤ 0x40200000
  · have hoff : offsetOf a.toNat = a.toNat - 0x40000000 := by
      unfold offsetOf
      omega
    rw [if_pos (hin.2 ha), if_pos ha, hoff]
    rfl
  · rw [if_neg (mt hin.1 ha), if_neg ha]
    rfl

theorem toNat_secondLevelEntry :
    (secondLevelEntry t ((addr >>> 12) &&& 0xFF)).toNat =
      offsetOf (secondLevelAt (t.toBitVec.extractLsb' 10 22) addr.toBitVec).toNat := by
  have hbase : sceMemoryBase.toNat = 0x40000000 := rfl
  have hfour : (4 : UInt32).toNat = 4 := rfl
  have ht : t.toBitVec.toNat = t.toNat := rfl
  have haddr : addr.toBitVec.toNat = addr.toNat := rfl
  rw [toNat_secondLevelAt, secondLevelEntry, UInt32.toNat_add, UInt32.toNat_sub, UInt32.toNat_mul,
    toNat_and_high (k := 10) (by decide), toNat_and_low (k := 8) rfl, toNat_shiftRight (k := 12) rfl (by decide),
    hbase, hfour, offsetOf, ht, haddr]
  omega

theorem mmuPointer_pageTable (h : (d.firstLevel addr).toNat % 4 = 1) : d.mmuPointer addr =
    (d.wordAt (secondLevelEntry (d.firstLevel addr) ((addr >>> 12) &&& 0xFF))).bind (pagePointer · addr) :=
  if_pos (and_three_iff.2 h)

theorem mmuPointer_section (h : (d.firstLevel addr).toNat % 4 = 2) :
    d.mmuPointer addr = .ok ((d.firstLevel addr &&& 0xFFF00000) - sceMemoryBase + (addr &&& 0xFFFFF)) := by
  have h1 : ¬ d.firstLevel addr &&& 3 = 1 := by
    rw [and_three_iff, h]
    decide
  -- `0x1E0` has the type of a fault
  have h1E0 : d.firstLevel addr ≠ 0x1E0 := by
    intro heq
    rw [heq] at h
    revert h
    decide
  unfold mmuPointer
  dsimp only
  rw [if_neg h1, if_pos (and_three_iff.2 h), if_neg h1E0]

theorem mmuPointer_fault (h1 : (d.firstLevel addr).toNat % 4 ≠ 1) (h2 : (d.firstLevel addr).toNat % 4 ≠ 2) :
    d.mmuPointer addr = .error .error := by
  unfold mmuPointer
  dsimp only
  rw [if_neg (mt and_three_iff.1 h1), if_neg (mt and_three_iff.1 h2)]

end

/-- How the pointer of `mmuRead8` goes with the translation: the offset of the physical address, but for a supersection
only of its low 20 bits. -/
inductive Points (supersection : Prop) : Translation → Except Stop UInt32 → Prop
  | fault : Points supersection .fault (.error .error)
  | noTable (a : BitVec 32) (off : UInt32) : Points supersection (.noTable a) (.error (.outside off))
  | block (p : BitVec 40) (off : UInt32) (hs : ¬ supersection) (hp : p.toNat < 2 ^ 32)
    (hoff : off.toNat = offsetOf p.toNat) : Points supersection (.at p) (.ok off)
  | supersection (p : BitVec 40) (off : UInt32) (hs : supersection)
    (hoff : InImage p → off.toNat = (p.toNat - 0x40000000) % 2 ^ 20) : Points supersection (.at p) (.ok off)

section
variable {d addr} {t : UInt32} {k n : Nat} {supersection : Prop}

theorem points_block {mh ml : UInt32} (hs : ¬ supersection) (hk : k ≤ 32) (hn : n = 32 - k)
    (hh : mh.toNat = (2 ^ (32 - k) - 1) * 2 ^ k) (hl : ml.toNat = 2 ^ k - 1) :
    Points supersection (.at ((t.toBitVec.extractLsb' k n ++ addr.toBitVec.extractLsb' 0 k).setWidth 40))
      (.ok ((t &&& mh) - sceMemoryBase + (addr &&& ml))) := by
  have hp := @toNat_block n k t.toBitVec addr.toBitVec hk hn
  refine .block _ _ hs ?_ ?_
  · have hwidth : n + k = 32 := by omega
    rw [BitVec.toNat_setWidth_of_le (by omega)]
    exact Nat.lt_of_lt_of_eq (BitVec.isLt _) (congrArg (2 ^ ·) hwidth)
  · rw [hp]
    exact toNat_blockOffset hh hl

theorem points_page (hs : ¬ supersection) :
    Points supersection (page t.toBitVec addr.toBitVec) (pagePointer t addr) := by
  unfold pagePointer
  by_cases h1 : t.toNat % 4 = 1
  · rw [if_pos (and_three_iff.2 h1), page_large h1]
    exact points_block (k := 16) hs (by decide) rfl rfl rfl
  rw [if_neg (mt and_three_iff.1 h1)]
  by_cases h0 : t.toNat % 4 = 0
  · rw [page_fault h0, if_neg (mt and_two_iff.1 (by omega))]
    exact .fault
  · rw [page_small h0 h1, if_pos (and_two_iff.2 (by omega))]
    exact points_block (k := 12) hs (by decide) rfl rfl rfl

theorem points : Points (d.InSupersection addr) (d.translation addr) (d.mmuPointer addr) := by
  unfold translation walk InSupersection
  rw [firstLevel_toBitVec]
  generalize ht : d.firstLevel addr = t
  by_cases h1 : t.toNat % 4 = 1
  · rw [firstLevel_pageTable h1, mmuPointer_pageTable (by rwa [ht]), wordAt_eq toNat_secondLevelEntry, ht]
    dsimp only
    cases d.physWord (secondLevelAt (t.toBitVec.extractLsb' 10 22) addr.toBitVec) with
    | none => exact .noTable _ _
    | some w =>
      refine points_page ?_
      rintro ⟨base, ⟨⟩⟩
  by_cases h2 : t.toNat % 4 = 2
  · rw [firstLevel_block h2, mmuPointer_section (by rwa [ht]), ht]
    by_cases h18 : t.toBitVec.toNat / 2 ^ 18 % 2 = 1
    · rw [if_pos h18]
      refine .supersection _ _ ⟨_, rfl⟩ fun hp => ?_
      obtain ⟨hlo, hhi⟩ := hp
      rw [toNat_supersection] at hlo hhi ⊢
      rw [toNat_blockOffset (k := 20) rfl rfl, offsetOf]
      have htd : t.toBitVec.toNat = t.toNat := rfl
      have haddr : addr.toBitVec.toNat = addr.toNat := rfl
      rw [htd, haddr] at hlo hhi ⊢
      have htlt := t.toNat_lt
      omega
    · rw [if_neg h18]
      refine points_block (k := 20) ?_ (by decide) rfl rfl rfl
      rintro ⟨base, ⟨⟩⟩
  · rw [firstLevel_fault h1 h2, mmuPointer_fault (by rwa [ht]) (by rwa [ht])]
    exact .fault

theorem mmuRead8_of_ok {off : UInt32} (h : d.mmuPointer addr = .ok off) : d.mmuRead8 addr = d.byteAt off := by
  rw [mmuRead8, h]
  rfl

theorem mmuRead8_of_error {e : Stop} (h : d.mmuPointer addr = .error e) : d.mmuRead8 addr = .error e := by
  rw [mmuRead8, h]
  rfl

/-- A byte is read, or the read is outside the image. -/
theorem byteAt_ne_error {off : UInt32} : d.byteAt off ≠ .error .error := by
  unfold byteAt
  split <;> simp

theorem byteAt_eq_ok {off : UInt32} {b : UInt8} :
    d.byteAt off = .ok b ↔ off.toNat < imageSize ∧ d.tzs off.toNat = b := by
  unfold byteAt
  by_cases h : off.toNat < imageSize <;> simp [h]

theorem agrees_iff_of_at {p : BitVec 40} {off : UInt32} (hT : d.translation addr = .at p)
    (hP : d.mmuPointer addr = .ok off) :
    Agrees d addr ↔ InImage p ∧ d.byteAt off = .ok (d.tzs (p.toNat - 0x40000000)) := by
  rw [← mmuRead8_of_ok hP]
  constructor
  · intro h
    by_cases hp : InImage p
    · exact ⟨hp, h.read p hT hp⟩
    · have herr := h.error fun p' hT' => by
        obtain rfl := Translation.at.inj (hT.symm.trans hT')
        exact hp
      rw [mmuRead8_of_ok hP] at herr
      exact absurd herr byteAt_ne_error
  · rintro ⟨hp, h⟩
    refine ⟨fun p' hT' _ => ?_, fun hno => absurd hp (hno p hT)⟩
    obtain rfl := Translation.at.inj (hT.symm.trans hT')
    exact h

end

/-- `mmuRead8` agrees with the processor exactly when the walk faults, or is through tables in the image to a byte in
it; in a supersection the byte has to be the one at the low 20 bits of its place. -/
theorem agrees_iff : Agrees d addr ↔ d.translation addr = .fault ∨
    ∃ p, d.translation addr = .at p ∧ InImage p ∧
      (d.InSupersection addr → d.tzs ((p.toNat - 0x40000000) % 2 ^ 20) = d.tzs (p.toNat - 0x40000000)) := by
  have hpts : Points (d.InSupersection addr) (d.translation addr) (d.mmuPointer addr) := points
  generalize hT : d.translation addr = T at hpts
  generalize hP : d.mmuPointer addr = P at hpts
  cases hpts with
  | fault =>
    refine iff_of_true ⟨fun p h => ?_, fun _ => mmuRead8_of_error hP⟩ (.inl rfl)
    cases hT.symm.trans h
  | noTable a off =>
    refine iff_of_false (fun h => ?_) (by simp)
    have herr := h.error fun p h => by cases hT.symm.trans h
    cases herr.symm.trans (mmuRead8_of_error hP)
  | block p off hs hp hoff =>
    rw [agrees_iff_of_at hT hP, byteAt_eq_ok, hoff]
    simp only [Translation.at.injEq, reduceCtorEq, false_or, exists_eq_left']
    refine and_congr_right fun hin => iff_of_true ⟨(offsetOf_add_le_iff (n := 1) hp).2 hin, ?_⟩ fun h => absurd h hs
    rw [offsetOf_of_inImage hin]
  | supersection p off hs hoff =>
    rw [agrees_iff_of_at hT hP, byteAt_eq_ok]
    simp only [Translation.at.injEq, reduceCtorEq, false_or, exists_eq_left']
    refine and_congr_right fun hin => ?_
    have hlt : (p.toNat - 0x40000000) % 2 ^ 20 < imageSize :=
      Nat.lt_of_lt_of_le (Nat.mod_lt _ (by decide)) (by decide)
    rw [hoff hin]
    exact ⟨fun h _ => h.2, fun h => ⟨hlt, h hs⟩⟩

end Dump

/-- A dump whose second gigabyte and up has the first-level descriptor `t` throughout, with a byte 1 at `0x100000`. -/
def uniformDump (t : UInt32) : Dump where
  tzs i := if i = 0x100000 then 1 else 0
  ttbr0 _ := 0
  ttbr1 _ := t

/-- The second megabyte of a supersection is read from the first one, and a section outside the image is read. -/
theorem uniformDump_fail :
    (uniformDump 0x40040002).translation 0x40100000 = .at 0x40100000#40 ∧
    (uniformDump 0x40040002).mmuRead8 0x40100000 = .ok 0 ∧ (uniformDump 0x40040002).tzs 0x100000 = 1 ∧
    ¬ (uniformDump 0x40040002).Agrees 0x40100000 ∧
    (uniformDump 0x80000002).translation 0x40000000 = .at 0x80000000#40 ∧
    (uniformDump 0x80000002).mmuRead8 0x40000000 = .error (.outside 0x40000000) ∧
    ¬ (uniformDump 0x80000002).Agrees 0x40000000 := by
  have hsuper : (uniformDump 0x40040002).translation 0x40100000 = .at 0x40100000#40 := by decide
  have hread : (uniformDump 0x40040002).mmuRead8 0x40100000 = .ok 0 := by rfl
  have hsection : (uniformDump 0x80000002).translation 0x40000000 = .at 0x80000000#40 := by decide
  have hout : (uniformDump 0x80000002).mmuRead8 0x40000000 = .error (.outside 0x40000000) := by rfl
  refine ⟨hsuper, hread, by decide, fun h => ?_, hsection, hout, fun h => ?_⟩
  · have hbyte := Except.ok.inj (hread.symm.trans (h.read _ hsuper (by decide)))
    revert hbyte
    decide
  · have herr := h.error fun p hp => by
      obtain rfl := Translation.at.inj (hsection.symm.trans hp)
      decide
    cases hout.symm.trans herr

end VitaUtility.TtbrParser

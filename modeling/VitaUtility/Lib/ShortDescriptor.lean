import Mathlib.Algebra.Group.Nat.Defs

/-!
# Short-descriptor translation tables

The table walk of ARMv7-A over the short descriptors: what a descriptor of either level says, and the physical address
of a virtual one. The format is that of a processor without `PXN`, where the type `0b11` of a first-level descriptor
is reserved and faults.
-/

namespace VitaUtility.ShortDescriptor

/-- A first-level descriptor: the base of a table, or of the block that the addresses of its megabyte are in. -/
inductive FirstLevel where
  | fault
  | pageTable (base : BitVec 22)
  | sect (base : BitVec 12)
  | supersection (base : BitVec 16)
deriving DecidableEq

/-- Bit 18 tells a supersection from a section; its base is `d<8:5>:d<23:20>:d<31:24>`. -/
def FirstLevel.decode (d : BitVec 32) : FirstLevel :=
  if d.extractLsb' 0 2 = 1 then .pageTable (d.extractLsb' 10 22)
  else if d.extractLsb' 0 2 = 2 then
    if d.extractLsb' 18 1 = 1 then .supersection (d.extractLsb' 5 4 ++ d.extractLsb' 20 4 ++ d.extractLsb' 24 8)
    else .sect (d.extractLsb' 20 12)
  else .fault

/-- A second-level descriptor. -/
inductive SecondLevel where
  | fault
  | largePage (base : BitVec 16)
  | smallPage (base : BitVec 20)
deriving DecidableEq

def SecondLevel.decode (d : BitVec 32) : SecondLevel :=
  if d.extractLsb' 0 2 = 0 then .fault
  else if d.extractLsb' 0 2 = 1 then .largePage (d.extractLsb' 16 16)
  else .smallPage (d.extractLsb' 12 20)

/-- What a walk ends in; `noTable` is one through a table that there is no memory for. -/
inductive Translation where
  | at (p : BitVec 40)
  | fault
  | noTable (a : BitVec 32)
deriving DecidableEq

/-- The table for `va` when `TTBCR.N` is `n`. -/
def selectTable {α : Type} (n : Nat) (ttbr0 ttbr1 : α) (va : BitVec 32) : α :=
  if va.toNat < 2 ^ (32 - n) then ttbr0 else ttbr1

/-- Where the descriptor for `va` is in the second-level table at `base`. -/
def secondLevelAt (base : BitVec 22) (va : BitVec 32) : BitVec 32 := base ++ va.extractLsb' 12 8 ++ 0#2

/-- The translation of `va` by the descriptor `d` of its page. -/
def page (d va : BitVec 32) : Translation :=
  match SecondLevel.decode d with
  | .fault => .fault
  | .largePage base => .at ((base ++ va.extractLsb' 0 16).setWidth 40)
  | .smallPage base => .at ((base ++ va.extractLsb' 0 12).setWidth 40)

/-- The walk from the first-level table, where `word` is the memory with the second-level ones. -/
def walk (table : BitVec 12 → BitVec 32) (word : BitVec 32 → Option (BitVec 32)) (va : BitVec 32) : Translation :=
  match FirstLevel.decode (table (va.extractLsb' 20 12)) with
  | .fault => .fault
  | .pageTable base =>
    match word (secondLevelAt base va) with
    | none => .noTable (secondLevelAt base va)
    | some d => page d va
  | .sect base => .at ((base ++ va.extractLsb' 0 20).setWidth 40)
  | .supersection base => .at (base ++ va.extractLsb' 0 24)

/-! ### Descriptors and addresses as numbers -/

section
variable {m n k : Nat} {d va : BitVec 32}

theorem toNat_append (x : BitVec m) (y : BitVec n) : (x ++ y).toNat = x.toNat * 2 ^ n + y.toNat := by
  rw [BitVec.toNat_append, ← Nat.shiftLeft_add_eq_or_of_lt y.isLt, Nat.shiftLeft_eq]

theorem toNat_extract (i : Nat) : (d.extractLsb' i k).toNat = d.toNat / 2 ^ i % 2 ^ k := by
  rw [BitVec.extractLsb'_toNat, Nat.shiftRight_eq_div_pow]

/-- The address in the block of `2 ^ k` bytes whose base is in the bits of `d` from `k` on. -/
theorem toNat_block (hk : k ≤ 32) (hn : n = 32 - k) :
    ((d.extractLsb' k n ++ va.extractLsb' 0 k).setWidth 40).toNat = d.toNat / 2 ^ k * 2 ^ k + va.toNat % 2 ^ k := by
  have hd : d.toNat / 2 ^ k < 2 ^ n := by
    apply Nat.div_lt_of_lt_mul
    rw [← Nat.pow_add, hn, Nat.add_sub_cancel' hk]
    exact d.isLt
  rw [BitVec.toNat_setWidth_of_le (by omega), toNat_append, toNat_extract, toNat_extract, Nat.mod_eq_of_lt hd,
    Nat.pow_zero, Nat.div_one]

theorem toNat_supersection :
    ((d.extractLsb' 5 4 ++ d.extractLsb' 20 4 ++ d.extractLsb' 24 8) ++ va.extractLsb' 0 24).toNat =
    d.toNat / 2 ^ 5 % 2 ^ 4 * 2 ^ 36 + d.toNat / 2 ^ 20 % 2 ^ 4 * 2 ^ 32 + d.toNat / 2 ^ 24 % 2 ^ 8 * 2 ^ 24 +
      va.toNat % 2 ^ 24 := by
  simp only [toNat_append, toNat_extract]
  omega

theorem toNat_secondLevelAt :
    (secondLevelAt (d.extractLsb' 10 22) va).toNat = d.toNat / 2 ^ 10 * 2 ^ 10 + va.toNat / 2 ^ 12 % 2 ^ 8 * 4 := by
  have hd := d.isLt
  rw [secondLevelAt, toNat_append, toNat_append, toNat_extract, toNat_extract]
  show (_ * 2 ^ 8 + _) * 2 ^ 2 + 0 = _
  omega

theorem extract_eq_iff {x : BitVec k} (i : Nat) : d.extractLsb' i k = x ↔ d.toNat / 2 ^ i % 2 ^ k = x.toNat := by
  rw [← BitVec.toNat_inj, toNat_extract]

theorem type_eq_iff {x : BitVec 2} : d.extractLsb' 0 2 = x ↔ d.toNat % 4 = x.toNat := by
  rw [extract_eq_iff, Nat.pow_zero, Nat.div_one]
  rfl

theorem firstLevel_fault (h1 : d.toNat % 4 ≠ 1) (h2 : d.toNat % 4 ≠ 2) : FirstLevel.decode d = .fault := by
  rw [FirstLevel.decode, if_neg (mt type_eq_iff.1 h1), if_neg (mt type_eq_iff.1 h2)]

theorem firstLevel_pageTable (h : d.toNat % 4 = 1) : FirstLevel.decode d = .pageTable (d.extractLsb' 10 22) :=
  if_pos (type_eq_iff.2 h)

theorem firstLevel_block (h : d.toNat % 4 = 2) : FirstLevel.decode d =
    if d.toNat / 2 ^ 18 % 2 = 1 then .supersection (d.extractLsb' 5 4 ++ d.extractLsb' 20 4 ++ d.extractLsb' 24 8)
    else .sect (d.extractLsb' 20 12) := by
  have h1 : ¬ d.extractLsb' 0 2 = 1 := by
    rw [type_eq_iff, h]
    decide
  rw [FirstLevel.decode, if_neg h1, if_pos (type_eq_iff.2 h)]
  simp only [extract_eq_iff]
  rfl

theorem page_fault (h : d.toNat % 4 = 0) : page d va = .fault := by
  rw [page, SecondLevel.decode, if_pos (type_eq_iff.2 h)]

theorem page_large (h : d.toNat % 4 = 1) :
    page d va = .at ((d.extractLsb' 16 16 ++ va.extractLsb' 0 16).setWidth 40) := by
  have h0 : ¬ d.extractLsb' 0 2 = 0 := by
    rw [type_eq_iff, h]
    decide
  rw [page, SecondLevel.decode, if_neg h0, if_pos (type_eq_iff.2 h)]

theorem page_small (h0 : d.toNat % 4 ≠ 0) (h1 : d.toNat % 4 ≠ 1) :
    page d va = .at ((d.extractLsb' 12 20 ++ va.extractLsb' 0 12).setWidth 40) := by
  rw [page, SecondLevel.decode, if_neg (mt type_eq_iff.1 h0), if_neg (mt type_eq_iff.1 h1)]

end

end VitaUtility.ShortDescriptor

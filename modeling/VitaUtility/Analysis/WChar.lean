import Mathlib.Data.List.TakeWhile
import VitaUtility.Lib.Mask

/-!
# Paths as strings

`WCharToChar` of `SceExfatfsAnalysis`, and the buffers that its callers convert a path into.
-/

namespace VitaUtility.Analysis

/-- What a round stores for the unit `c`. -/
def storeUnit (c : UInt16) : List UInt8 := c.toUInt8 :: if c ≥ 0x100 then [(c >>> 8).toUInt8] else []

/-- What is stored from `dst` on, where `src` are the units from the current one to the end of the array and `len` the
rounds that are left; `none` when a unit after the array is read. -/
def wCharToChar : (src : List UInt16) → (len : Nat) → Option (List UInt8)
  | _, 0 => some []
  | [], _ + 1 => none
  | c :: src, len + 1 => if c ≠ 0 then (wCharToChar src len).map (storeUnit c ++ ·) else some []

/-- A path of an exFAT file. -/
abbrev WPath := Vector UInt16 0x104

/-- The buffer of `size` bytes after `memset` and `WCharToChar`; `none` when a byte is stored after it. -/
def convertPath (size : Nat) (src : WPath) : Option (List UInt8) :=
  (wCharToChar src.toList 0x104).bind fun bytes =>
    if bytes.length ≤ size then some (bytes ++ .replicate (size - bytes.length) 0) else none

/-- `loc_path` in `sub_81006BB0_patch` -/
def sub81006BB0PatchPath (path : WPath) : Option (List UInt8) := convertPath 0x204 path

/-- `loc_path` in `sub_81003384_patch` -/
def sub81003384PatchPath (path : WPath) : Option (List UInt8) := convertPath 0x204 path

/-- `path` in `module_start`, which converts only what begins with `/`. -/
def moduleStartPath (path : WPath) : Option (Option (List UInt8)) :=
  if path[0] = 0x2F then some (convertPath 0x208 path) else none

/-! ### The bytes of a path -/

/-- The units before the first zero. -/
def units (src : WPath) : List UInt16 := src.toList.takeWhile (· ≠ 0)

/-- One byte for a unit below `0x100`, else two, the low one first. -/
def unitBytes (c : UInt16) : List UInt8 :=
  if c.toNat < 0x100 then [UInt8.ofNat c.toNat] else [UInt8.ofNat (c.toNat % 0x100), UInt8.ofNat (c.toNat / 0x100)]

/-- The conversion leaves room for the terminator in a buffer of `size` bytes. -/
def FitsIn (size : Nat) (src : WPath) : Prop := ∃ bytes, wCharToChar src.toList 0x104 = some bytes ∧ bytes.length < size

section
variable {src : WPath} {l : List UInt16} {size : Nat}

theorem storeUnit_eq (c : UInt16) : storeUnit c = unitBytes c := by
  have hc : c ≥ 0x100 ↔ ¬ c.toNat < 0x100 := by
    rw [ge_iff_le, UInt16.le_iff_toNat_le, Nat.not_lt]
    rfl
  have hlow : c.toUInt8 = UInt8.ofNat (c.toNat % 0x100) := by
    rw [← UInt8.toNat_inj]
    simp
  have hhigh : (c >>> 8).toUInt8 = UInt8.ofNat (c.toNat / 0x100) := by
    rw [← UInt8.toNat_inj]
    simp [Nat.shiftRight_eq_div_pow]
  unfold storeUnit unitBytes
  by_cases h : c.toNat < 0x100
  · rw [if_neg (mt hc.1 (not_not.2 h)), if_pos h, hlow, Nat.mod_eq_of_lt h]
  · rw [if_pos (hc.2 h), if_neg h, hlow, hhigh]

theorem wCharToChar_eq : wCharToChar l l.length = some ((l.takeWhile (· ≠ 0)).flatMap unitBytes) := by
  induction l with
  | nil => rfl
  | cons c l ih =>
    rw [List.length_cons, wCharToChar]
    by_cases hc : c ≠ 0
    · rw [if_pos hc, ih, List.takeWhile_cons_of_pos (by simpa using hc), List.flatMap_cons, storeUnit_eq]
      rfl
    · rw [if_neg hc, List.takeWhile_cons_of_neg (by simpa using hc)]
      rfl

theorem wCharToChar_path : wCharToChar src.toList 0x104 = some ((units src).flatMap unitBytes) := by
  have h := @wCharToChar_eq src.toList
  rwa [Vector.length_toList] at h

theorem length_unitBytes (c : UInt16) : (unitBytes c).length = if 0x100 ≤ c.toNat then 2 else 1 := by
  unfold unitBytes
  by_cases h : c.toNat < 0x100
  · rw [if_pos h, if_neg (Nat.not_le.2 h)]
    rfl
  · rw [if_neg h, if_pos (Nat.not_lt.1 h)]
    rfl

/-- As many bytes as there are units, and one more for each that is not below `0x100`. -/
theorem length_bytes : (l.flatMap unitBytes).length = l.length + l.countP fun c => 0x100 ≤ c.toNat := by
  induction l with
  | nil => rfl
  | cons c l ih =>
    rw [List.flatMap_cons, List.length_append, ih, length_unitBytes, List.length_cons, List.countP_cons]
    by_cases h : 0x100 ≤ c.toNat
    · simp [h]
      omega
    · simp [h]
      omega

theorem fitsIn_iff : FitsIn size src ↔
    (units src).length + ((units src).countP fun c => 0x100 ≤ c.toNat) < size := by
  unfold FitsIn
  rw [wCharToChar_path, ← length_bytes]
  simp

/-- What fits is stored in the buffer, and the last byte is still zero. -/
theorem FitsIn.terminated (h : FitsIn size src) :
    ∃ buf, convertPath size src = some buf ∧ buf.length = size ∧ buf[size - 1]? = some 0 := by
  obtain ⟨bytes, hbytes, hlt⟩ := h
  refine ⟨bytes ++ .replicate (size - bytes.length) 0, ?_, ?_, ?_⟩
  · rw [convertPath, hbytes]
    exact if_pos (Nat.le_of_lt hlt)
  · rw [List.length_append, List.length_replicate]
    omega
  · rw [List.getElem?_append_right (by omega), List.getElem?_replicate, if_pos (by omega)]

/-- A path that begins with a unit below `0x100` has at most 519 bytes. -/
theorem fitsIn_moduleStart (h : src[0] = 0x2F) : FitsIn 0x208 src := by
  have hlen : src.toList.length = 0x104 := Vector.length_toList
  have hhead : src.toList[0]? = some 0x2F := by
    rw [Vector.getElem?_toList, Vector.getElem?_eq_getElem (by decide), h]
  rw [fitsIn_iff, units]
  cases hsrc : src.toList with
  | nil =>
    rw [hsrc] at hlen
    cases hlen
  | cons c l =>
    rw [hsrc] at hlen hhead
    obtain rfl : c = 0x2F := Option.some.inj hhead
    have hrest := (List.takeWhile_sublist (l := l) (· ≠ 0)).length_le
    have hwide := (l.takeWhile (· ≠ 0)).countP_le_length (p := fun c => decide (0x100 ≤ c.toNat))
    rw [List.length_cons] at hlen
    rw [List.takeWhile_cons_of_pos (by decide), List.length_cons, List.countP_cons_of_neg (by decide)]
    omega

end

/-- The bytes of a path, and the buffers that have room for them and a terminator: that of `module_start` always, those
of the two hooks when the path has few enough units from `0x100` on. -/
theorem path_fits_iff (src : WPath) :
    wCharToChar src.toList 0x104 = some ((units src).flatMap unitBytes) ∧
    (FitsIn 0x204 src ↔ (units src).length + ((units src).countP fun c => 0x100 ≤ c.toNat) < 0x204) ∧
    (∀ buf, moduleStartPath src = some buf → FitsIn 0x208 src) ∧
    ∀ size, FitsIn size src → ∃ buf, convertPath size src = some buf ∧ buf.length = size ∧ buf[size - 1]? = some 0 := by
  refine ⟨wCharToChar_path, fitsIn_iff, fun buf h => ?_, fun size h => h.terminated⟩
  unfold moduleStartPath at h
  by_cases hslash : src[0] = 0x2F
  · exact fitsIn_moduleStart hslash
  · rw [if_neg hslash] at h
    cases h

/-- `/`, 258 times the unit `c`, and a zero. -/
def repeated (c : UInt16) : WPath := ⟨(0x2F :: (List.replicate 258 c ++ [0])).toArray, by
  rw [List.size_toArray, List.length_cons, List.length_append, List.length_replicate]
  rfl⟩

theorem units_repeated {c : UInt16} (hc : c ≠ 0) : units (repeated c) = 0x2F :: List.replicate 258 c := by
  have hlist : (repeated c).toList = 0x2F :: (List.replicate 258 c ++ [0]) := by
    rw [repeated, Vector.toList_mk]
  have hall : ∀ d ∈ List.replicate 258 c, decide (d ≠ 0) = true := by
    intro d hd
    rw [List.eq_of_mem_replicate hd]
    exact decide_eq_true hc
  rw [units, hlist, List.takeWhile_cons_of_pos (by decide), List.takeWhile_append_of_pos hall,
    List.takeWhile_cons_of_neg (by decide), List.append_nil]

/-- The path has 517 bytes, for which the buffers of the two hooks have no room. -/
theorem repeated_fail : ¬ FitsIn 0x204 (repeated 0x3042) ∧ sub81006BB0PatchPath (repeated 0x3042) = none ∧
    sub81003384PatchPath (repeated 0x3042) = none := by
  have hunits := units_repeated (c := 0x3042) (by decide)
  have hlen : ((units (repeated 0x3042)).flatMap unitBytes).length = 517 := by
    rw [length_bytes, hunits, List.length_cons, List.length_replicate, List.countP_cons_of_neg (by decide),
      List.countP_replicate]
    rfl
  have hnone : convertPath 0x204 (repeated 0x3042) = none := by
    rw [convertPath, wCharToChar_path, Option.bind_some, if_neg]
    rw [hlen]
    decide
  refine ⟨?_, hnone, hnone⟩
  rw [fitsIn_iff, ← length_bytes, hlen]
  decide

end VitaUtility.Analysis

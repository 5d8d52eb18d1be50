import VitaUtility.CStr
import VitaUtility.Lib.Emit

/-!
# The items of a package

`program_start` of `npdrm_package`: it lists the items of a package, with offsets and lengths as the package has them.
-/

namespace VitaUtility.NpdrmPackage

/-- `sizeof(pkg_ent_name)` -/
def entNameSize : Nat := 0x80

/-- What `program_start` gets from outside. -/
structure PkgAnswers where
  /-- `sceIoOpen` -/
  fd : Int32
  /-- `pkg_header` -/
  header : Mem
  /-- `_sceNpDrmPackageCheck` -/
  check : Int32
  /-- the `i`-th item, decrypted, with what `_sceNpDrmPackageDecrypt` returns for it -/
  item : Nat → Mem
  itemRes : Nat → Int32
  /-- the bytes of its name, decrypted, and the same -/
  name : Nat → Mem
  nameRes : Nat → Int32

/-- What a line says of the type. -/
inductive ItemType where
  | file
  | dir
  | self
  | scePfsFile
  | scePfsDir
  | sceSysFile
  | unknown
deriving DecidableEq

def typeOf (flags : UInt32) : ItemType :=
  let t := flags &&& 0x1F
  if t = 3 then .file
  else if t = 4 then .dir
  else if t = 0xE then .self
  else if t = 0x11 then .scePfsFile
  else if t = 0x12 then .scePfsDir
  else if t = 0x10 ∨ t = 0x13 ∨ t = 0x15 ∨ t = 0x16 ∨ t = 0x18 then .sceSysFile
  else .unknown

/-- What `program_start` does for the item `i`. A line whose name has no end in `pkg_ent_name` has none. -/
inductive PkgEvent where
  | itemSeek (i : Nat) (offset : UInt64)
  | itemDecrypt (i : Nat) (offset : UInt64)
  | nameSeek (offset : UInt64)
  | nameRead (size : UInt32)
  | nameDecrypt (offset : UInt64) (size : UInt32)
  | line (type : ItemType) (flags : UInt32) (dataOffset dataSize : UInt64) (name : Option CStr)

/-- Why the loop is left before its end: by `break`, or with memory after `pkg_ent_name` overwritten. -/
inductive Leave where
  | break
  | overflow

namespace PkgAnswers
variable (k : PkgAnswers) (i : Nat)

def itemNum : Int32 := (bswap32 (load32 k.header 0x14)).toInt32

def encryptedDataOffset : UInt64 := bswap64 (load64 k.header 0x20)

/-- `sizeof(item) * i` -/
def itemOffset : UInt32 := 0x20 * UInt32.ofNat i

def fileNameOffset : UInt32 := bswap32 (load32 (k.item i) 0)
def fileNameLen : UInt32 := bswap32 (load32 (k.item i) 4)
def dataOffset : UInt64 := bswap64 (load64 (k.item i) 8)
def dataSize : UInt64 := bswap64 (load64 (k.item i) 0x10)
def flags : UInt32 := bswap32 (load32 (k.item i) 0x18)

/-- `pkg_ent_name`: zeros, and over them the name. -/
def entName : Mem := memcpy (fun _ => 0) (k.name i) (k.fileNameLen i).toNat

def itemRound : List PkgEvent × Option Leave :=
  let item := [.itemSeek i (k.encryptedDataOffset + (itemOffset i).toUInt64), .itemDecrypt i (itemOffset i).toUInt64]
  if k.itemRes i < 0 then (item, some .break) else
  let read := item ++ [.nameSeek (k.encryptedDataOffset + (k.fileNameOffset i).toUInt64), .nameRead (k.fileNameLen i)]
  if (k.fileNameLen i).toNat > entNameSize then (read, some .overflow) else
  let decrypted := read ++ [.nameDecrypt (k.fileNameOffset i).toUInt64 (k.fileNameLen i)]
  if k.nameRes i < 0 then (decrypted, some .break) else
  (decrypted ++ [.line (typeOf (k.flags i)) (k.flags i) (k.dataOffset i) (k.dataSize i)
    (strAt (k.entName i) entNameSize 0)], none)

/-- The result, and what is done for the items. -/
def programStart : Int32 × List PkgEvent :=
  if k.fd < 0 then (k.fd, [])
  else if k.check < 0 then (0, [])
  else (0, (forEmit k.itemRound k.itemNum.toInt.toNat 0).1)

end PkgAnswers

/-! ### In bounds -/

/-- The offset of an item is `0x20` times its number, a name is in `pkg_ent_name`, and a printed one ends there. -/
def PkgEvent.InBounds (encryptedDataOffset : UInt64) : PkgEvent → Prop
  | itemSeek i offset => 0x20 * i < 2 ^ 64 ∧ offset = encryptedDataOffset + UInt64.ofNat (0x20 * i)
  | itemDecrypt i offset => offset.toNat = 0x20 * i
  | nameSeek _ => True
  | nameRead size => size.toNat ≤ entNameSize
  | nameDecrypt _ size => size.toNat ≤ entNameSize
  | line _ _ _ _ name => name.isSome

namespace PkgAnswers
variable (k : PkgAnswers) (i : Nat)

/-- The loop comes to the item `i`. -/
def Reaches : Prop := 0 ≤ k.fd ∧ 0 ≤ k.check ∧ (i : Int) < k.itemNum.toInt ∧
  ∀ j < i, 0 ≤ k.itemRes j ∧ (k.fileNameLen j).toNat ≤ entNameSize ∧ 0 ≤ k.nameRes j

/-- The offset of the item `i` is below `2 ^ 32`, its name has `0x80` bytes at most, and if it has so many, and is
printed, one of them is zero. -/
structure Fits : Prop where
  offset : 0x20 * i < 2 ^ 32
  len : 0 ≤ k.itemRes i → (k.fileNameLen i).toNat ≤ entNameSize
  name : 0 ≤ k.itemRes i → 0 ≤ k.nameRes i → (k.fileNameLen i).toNat = entNameSize → ∃ b < entNameSize, k.name i b = 0

end PkgAnswers

section
variable {k : PkgAnswers} {i : Nat}

theorem toNat_itemOffset : (PkgAnswers.itemOffset i).toNat = 0x20 * i % 2 ^ 32 := by
  rw [PkgAnswers.itemOffset, UInt32.toNat_mul, UInt32.toNat_ofNat']
  show 0x20 * (i % 2 ^ 32) % 2 ^ 32 = _
  rw [Nat.mul_mod_mod]

theorem itemOffset_inBounds {enc : UInt64} (h : 0x20 * i < 2 ^ 32) :
    (PkgEvent.itemSeek i (enc + (PkgAnswers.itemOffset i).toUInt64)).InBounds enc ∧
      (PkgEvent.itemDecrypt i (PkgAnswers.itemOffset i).toUInt64).InBounds enc := by
  have hoff : (PkgAnswers.itemOffset i).toUInt64.toNat = 0x20 * i := by
    rw [UInt32.toNat_toUInt64, toNat_itemOffset, Nat.mod_eq_of_lt h]
  refine ⟨⟨Nat.lt_trans h (by decide), ?_⟩, hoff⟩
  rw [← hoff, UInt64.ofNat_toNat]

theorem entName_ends (hlen : (k.fileNameLen i).toNat ≤ entNameSize) : (strAt (k.entName i) entNameSize 0).isSome ↔
    ((k.fileNameLen i).toNat = entNameSize → ∃ b < entNameSize, k.name i b = 0) := by
  rw [Option.isSome_iff_exists, strAt_isSome]
  unfold PkgAnswers.entName memcpy
  constructor
  · rintro ⟨b, -, hb, h0⟩ heq
    rw [if_pos (by omega)] at h0
    exact ⟨b, by omega, h0⟩
  · intro h
    by_cases heq : (k.fileNameLen i).toNat = entNameSize
    · obtain ⟨b, hb, h0⟩ := h heq
      exact ⟨b, Nat.zero_le _, by omega, by rw [if_pos (by omega), h0]⟩
    · exact ⟨entNameSize - 1, Nat.zero_le _, by unfold entNameSize; omega, if_neg (by unfold entNameSize at *; omega)⟩

/-- What a round does. -/
theorem mem_itemRound {e : PkgEvent} : e ∈ (k.itemRound i).1 ↔
    e = .itemSeek i (k.encryptedDataOffset + (PkgAnswers.itemOffset i).toUInt64) ∨
    e = .itemDecrypt i (PkgAnswers.itemOffset i).toUInt64 ∨
    0 ≤ k.itemRes i ∧ (e = .nameSeek (k.encryptedDataOffset + (k.fileNameOffset i).toUInt64) ∨
      e = .nameRead (k.fileNameLen i) ∨
      (k.fileNameLen i).toNat ≤ entNameSize ∧ (e = .nameDecrypt (k.fileNameOffset i).toUInt64 (k.fileNameLen i) ∨
        0 ≤ k.nameRes i ∧ e = .line (typeOf (k.flags i)) (k.flags i) (k.dataOffset i) (k.dataSize i)
          (strAt (k.entName i) entNameSize 0))) := by
  unfold PkgAnswers.itemRound
  by_cases hitem : k.itemRes i < 0
  · simp [hitem, Int32.not_le.2 hitem]
  · by_cases hlen : (k.fileNameLen i).toNat > entNameSize
    · simp [hitem, hlen, Int32.not_lt.1 hitem, Nat.not_le.2 hlen]
    · by_cases hname : k.nameRes i < 0
      · simp [hitem, hlen, hname, Int32.not_lt.1 hitem, Nat.not_lt.1 hlen, Int32.not_le.2 hname]
      · simp [hitem, hlen, hname, Int32.not_lt.1 hitem, Nat.not_lt.1 hlen, Int32.not_lt.1 hname]

/-- The loop goes on after a round whose services succeed and whose name is not too long. -/
theorem itemRound_continues : (k.itemRound i).2 = none ↔
    0 ≤ k.itemRes i ∧ (k.fileNameLen i).toNat ≤ entNameSize ∧ 0 ≤ k.nameRes i := by
  unfold PkgAnswers.itemRound
  split_ifs with hitem hlen hname
  · simp [Int32.not_le.2 hitem]
  · simp [Nat.not_le.2 hlen]
  · simp [Int32.not_le.2 hname]
  · simp [Int32.not_lt.1 hitem, Nat.not_lt.1 hlen, Int32.not_lt.1 hname]

/-- What a round does is in bounds exactly when its item fits. -/
theorem itemRound_inBounds : (∀ e ∈ (k.itemRound i).1, e.InBounds k.encryptedDataOffset) ↔ k.Fits i := by
  constructor
  · intro h
    have hdec : (PkgAnswers.itemOffset i).toUInt64.toNat = 0x20 * i := h _ (mem_itemRound.2 (.inr (.inl rfl)))
    refine ⟨?_, fun hitem => ?_, fun hitem hname => ?_⟩
    · rw [UInt32.toNat_toUInt64, toNat_itemOffset] at hdec
      exact hdec ▸ Nat.mod_lt _ (by decide)
    · exact h _ (mem_itemRound.2 (.inr (.inr ⟨hitem, .inr (.inl rfl)⟩)))
    · intro heq
      have hlen : (k.fileNameLen i).toNat ≤ entNameSize := Nat.le_of_eq heq
      exact (entName_ends hlen).1
        (h _ (mem_itemRound.2 (.inr (.inr ⟨hitem, .inr (.inr ⟨hlen, .inr ⟨hname, rfl⟩⟩)⟩)))) heq
  · rintro ⟨hoff, hlen, hname⟩ e he
    rcases mem_itemRound.1 he with rfl | rfl | ⟨hitem, rfl | rfl | ⟨-, rfl | ⟨hres, rfl⟩⟩⟩
    · exact (itemOffset_inBounds hoff).1
    · exact (@itemOffset_inBounds i k.encryptedDataOffset hoff).2
    · trivial
    · exact hlen hitem
    · exact hlen hitem
    · exact (entName_ends (hlen hitem)).2 (hname hitem hres)

/-- The rounds the loop makes. -/
theorem mem_programStart {e : PkgEvent} : e ∈ k.programStart.2 ↔ ∃ i, k.Reaches i ∧ e ∈ (k.itemRound i).1 := by
  unfold PkgAnswers.programStart PkgAnswers.Reaches
  split_ifs with hfd hcheck
  · simp [Int32.not_le.2 hfd]
  · simp [Int32.not_le.2 hcheck]
  · rw [mem_forEmit]
    constructor
    · rintro ⟨i, -, hi, hrun, he⟩
      exact ⟨i, ⟨Int32.not_lt.1 hfd, Int32.not_lt.1 hcheck, by omega,
        fun j hj => itemRound_continues.1 (hrun j (Nat.zero_le _) hj)⟩, he⟩
    · rintro ⟨i, ⟨-, -, hi, hrun⟩, he⟩
      exact ⟨i, Nat.zero_le _, by omega, fun j _ hj => itemRound_continues.2 (hrun j hj), he⟩

end

/-- What is done for the items of a package is in bounds exactly when every item the loop comes to fits. -/
theorem package_inBounds_iff (k : PkgAnswers) :
    (∀ e ∈ k.programStart.2, e.InBounds k.encryptedDataOffset) ↔ ∀ i, k.Reaches i → k.Fits i := by
  constructor
  · intro h i hi
    exact itemRound_inBounds.1 fun e he => h e (mem_programStart.2 ⟨i, hi, he⟩)
  · intro h e he
    obtain ⟨i, hi, hmem⟩ := mem_programStart.1 he
    exact itemRound_inBounds.2 (h i hi) e hmem

/-- A package with one item, whose name has `0x81` bytes. -/
def longName : PkgAnswers where
  fd := 1
  header := fun a => if a = 0x17 then 1 else 0
  check := 0
  item := fun _ a => if a = 7 then 0x81 else 0
  itemRes := fun _ => 0
  name := fun _ _ => 0x41
  nameRes := fun _ => 0

/-- One byte after `pkg_ent_name` is read from the file. -/
theorem longName_fail : PkgEvent.nameRead 0x81 ∈ longName.programStart.2 ∧
    ¬ ∀ e ∈ longName.programStart.2, e.InBounds longName.encryptedDataOffset := by
  have hmem : PkgEvent.nameRead 0x81 ∈ longName.programStart.2 := by
    refine mem_programStart.2 ⟨0, ⟨by decide, by decide, by decide, by omega⟩, mem_itemRound.2 ?_⟩
    exact .inr (.inr ⟨by decide, .inr (.inl (congrArg PkgEvent.nameRead (by decide)))⟩)
  refine ⟨hmem, fun h => ?_⟩
  have hsize : (0x81 : UInt32).toNat ≤ entNameSize := h _ hmem
  exact absurd hsize (by decide)

end VitaUtility.NpdrmPackage

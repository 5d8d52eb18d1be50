import VitaUtility.NpdrmPackage
import VitaUtility.Lib.BigEndian

/-!
# The listing of a package file

A package has the records of its items in its encrypted part, one after another, and there also their names. What the
program gets from outside is what is in the file, decrypted; so it lists the items.
-/

namespace VitaUtility.NpdrmPackage

/-- An item of a package. -/
structure Item where
  name : List UInt8
  flags : UInt32
  dataOffset : UInt64
  dataSize : UInt64

/-- What is printed of an item. -/
def Item.line (x : Item) : PkgEvent := .line (typeOf x.flags) x.flags x.dataOffset x.dataSize (some (cstr x.name))

def PkgEvent.isLine : PkgEvent → Bool
  | line _ _ _ _ _ => true
  | _ => false

/-- A `ScePkgItemInfo` of `x`, whose name is at `nameOffset`. -/
structure IsRecord (record : Mem) (nameOffset : UInt32) (x : Item) : Prop where
  fileNameOffset : be32 record 0 = nameOffset
  fileNameLen : be32 record 4 = UInt32.ofNat x.name.length
  dataOffset : be64 record 8 = x.dataOffset
  dataSize : be64 record 0x10 = x.dataSize
  flags : be32 record 0x18 = x.flags

/-- A file, and what `_sceNpDrmPackageDecrypt` makes of some bytes of it. -/
structure PkgFile where
  bytes : List UInt8
  decrypt : (offset : UInt64) → (size : UInt32) → Mem → Int32 × Mem

namespace PkgFile
variable (f : PkgFile)

def header : Mem := fun a => f.bytes.getD a 0

def dataStart : UInt64 := be64 f.header 0x20

/-- The `size` bytes of the file at `p` are in `buf`. -/
def Reads (p : UInt64) (size : Nat) (buf : Mem) : Prop := ∀ b < size, f.bytes[p.toNat + b]? = some (buf b)

/-- In the encrypted part there are at `offset`, when they can be decrypted, the `size` bytes of `plain`. -/
def HasData (offset : UInt64) (size : UInt32) (plain : Mem) : Prop :=
  f.dataStart.toNat + offset.toNat + size.toNat ≤ f.bytes.length ∧
    ∀ buf, f.Reads (f.dataStart + offset) size.toNat buf → 0 ≤ (f.decrypt offset size buf).1 →
      ∀ b < size.toNat, (f.decrypt offset size buf).2 b = plain b

/-- The item `i` is `x`. -/
structure HasItem (i : Nat) (x : Item) : Prop where
  stored : ∃ record nameOffset, IsRecord record nameOffset x ∧ f.HasData (UInt64.ofNat (0x20 * i)) 0x20 record ∧
    f.HasData nameOffset.toUInt64 (UInt32.ofNat x.name.length) fun b => x.name.getD b 0
  short : x.name.length < entNameSize

/-- A package with these items. -/
structure Holds (items : List Item) : Prop where
  header : 0x28 ≤ f.bytes.length
  size : f.bytes.length < 2 ^ 63
  itemNum : be32 f.header 0x14 = UInt32.ofNat items.length
  few : items.length ≤ 2 ^ 27
  item : ∀ i x, items[i]? = some x → f.HasItem i x

end PkgFile

/-- The services have the file `f`: they answer each call of the program with its bytes at the place of the last seek,
decrypted. -/
structure PkgAnswers.Has (k : PkgAnswers) (f : PkgFile) : Prop where
  header : ∀ a < 0x8000, ∀ c, f.bytes[a]? = some c → k.header a = c
  item : ∀ i p o, .itemSeek i p ∈ (k.itemRound i).1 → .itemDecrypt i o ∈ (k.itemRound i).1 →
    p.toNat + 0x20 ≤ f.bytes.length → ∃ buf, f.Reads p 0x20 buf ∧ (k.itemRes i, k.item i) = f.decrypt o 0x20 buf
  name : ∀ i p n o n', .nameSeek p ∈ (k.itemRound i).1 → .nameRead n ∈ (k.itemRound i).1 →
    .nameDecrypt o n' ∈ (k.itemRound i).1 → p.toNat + n.toNat ≤ f.bytes.length →
    ∃ buf, f.Reads p n.toNat buf ∧ (k.nameRes i, k.name i) = f.decrypt o n' buf

section
variable {k : PkgAnswers} {f : PkgFile} {items : List Item} {i n : Nat} {x : Item} {record plain : Mem}
  {offset : UInt64} {nameOffset : UInt32}

/-! ### Reads -/

theorem header_eq (h : k.Has f) {a : Nat} (ha : a < 0x8000) (hlen : a < f.bytes.length) : k.header a = f.header a := by
  have hget : f.bytes[a]? = some f.bytes[a] := List.getElem?_eq_getElem hlen
  rw [h.header a ha _ hget, PkgFile.header]
  simp [hget]

theorem encryptedDataOffset_eq (h : k.Has f) (hitems : f.Holds items) : k.encryptedDataOffset = f.dataStart := by
  have hlen := hitems.header
  rw [PkgAnswers.encryptedDataOffset, bswap64_load64]
  exact be64_congr fun b hb => header_eq h (by omega) (by omega)

theorem itemNum_eq (h : k.Has f) (hitems : f.Holds items) : k.itemNum.toInt.toNat = items.length := by
  have hlen := hitems.header
  have hfew := hitems.few
  have hnum : bswap32 (load32 k.header 0x14) = UInt32.ofNat items.length := by
    rw [bswap32_load32, ← hitems.itemNum]
    exact be32_congr fun b hb => header_eq h (by omega) (by omega)
  have hnat : (BitVec.ofNat 32 items.length).toNat = items.length := by
    rw [BitVec.toNat_ofNat]
    omega
  rw [PkgAnswers.itemNum, hnum]
  show (BitVec.ofNat 32 items.length).toInt.toNat = _
  rw [BitVec.toInt_eq_toNat_of_lt (by omega), hnat, Int.toNat_natCast]

/-- What is read at the place of some data of the package, and decrypted, is these data. -/
theorem data_eq {p : UInt64} {size : UInt32} {res : Int32} {out : Mem} (hitems : f.Holds items)
    (hdata : f.HasData offset size plain) (hp : p = f.dataStart + offset)
    (hserved : p.toNat + size.toNat ≤ f.bytes.length →
      ∃ buf, f.Reads p size.toNat buf ∧ (res, out) = f.decrypt offset size buf)
    (hres : 0 ≤ res) : ∀ b < size.toNat, out b = plain b := by
  have hsize := hitems.size
  have hin := hdata.1
  obtain ⟨buf, hread, hdec⟩ := hserved (by
    rw [hp, UInt64.toNat_add, Nat.mod_eq_of_lt (by omega)]
    exact hin)
  obtain ⟨rfl, rfl⟩ := Prod.mk.inj hdec
  exact hdata.2 buf (hp ▸ hread) hres

theorem item_eq (h : k.Has f) (hitems : f.Holds items) (hi : 0x20 * i < 2 ^ 32)
    (hdata : f.HasData (UInt64.ofNat (0x20 * i)) 0x20 record) (hres : 0 ≤ k.itemRes i) :
    ∀ b < 0x20, k.item i b = record b := by
  have hoff : (PkgAnswers.itemOffset i).toUInt64 = UInt64.ofNat (0x20 * i) := by
    rw [← UInt64.toNat_inj, UInt32.toNat_toUInt64, toNat_itemOffset, UInt64.toNat_ofNat']
    omega
  have hserved := h.item i _ _ (mem_itemRound.2 (.inl rfl)) (mem_itemRound.2 (.inr (.inl rfl)))
  rw [encryptedDataOffset_eq h hitems, hoff] at hserved
  exact data_eq hitems hdata rfl hserved hres

theorem name_eq (h : k.Has f) (hitems : f.Holds items) (hoff : k.fileNameOffset i = nameOffset)
    (hlen : (k.fileNameLen i).toNat ≤ entNameSize) (hdata : f.HasData nameOffset.toUInt64 (k.fileNameLen i) plain)
    (hitem : 0 ≤ k.itemRes i) (hres : 0 ≤ k.nameRes i) : ∀ b < (k.fileNameLen i).toNat, k.name i b = plain b := by
  have hseek := mem_itemRound.2 (.inr (.inr ⟨hitem, .inl rfl⟩))
  have hread := mem_itemRound.2 (.inr (.inr ⟨hitem, .inr (.inl rfl)⟩))
  have hdecrypt := mem_itemRound.2 (.inr (.inr ⟨hitem, .inr (.inr ⟨hlen, .inl rfl⟩)⟩))
  have hserved := h.name i _ _ _ _ hseek hread hdecrypt
  rw [encryptedDataOffset_eq h hitems, hoff] at hserved
  exact data_eq hitems hdata rfl hserved hres

/-- What the program takes from a record. -/
theorem fields_eq (h : IsRecord record nameOffset x) (hitem : ∀ b < 0x20, k.item i b = record b) :
    k.fileNameOffset i = nameOffset ∧ k.fileNameLen i = UInt32.ofNat x.name.length ∧ k.dataOffset i = x.dataOffset ∧
      k.dataSize i = x.dataSize ∧ k.flags i = x.flags := by
  have h32 : ∀ a, a + 4 ≤ 0x20 → bswap32 (load32 (k.item i) a) = be32 record a := fun a ha => by
    rw [bswap32_load32]
    exact be32_congr fun b hb => hitem _ (by omega)
  have h64 : ∀ a, a + 8 ≤ 0x20 → bswap64 (load64 (k.item i) a) = be64 record a := fun a ha => by
    rw [bswap64_load64]
    exact be64_congr fun b hb => hitem _ (by omega)
  refine ⟨?_, ?_, ?_, ?_, ?_⟩
  · exact (h32 0 (by omega)).trans h.fileNameOffset
  · exact (h32 4 (by omega)).trans h.fileNameLen
  · exact (h64 8 (by omega)).trans h.dataOffset
  · exact (h64 0x10 (by omega)).trans h.dataSize
  · exact (h32 0x18 (by omega)).trans h.flags

/-! ### Rounds -/

/-- A round with both decryptions prints its item. -/
theorem itemRound_prints (h : k.Has f) (hitems : f.Holds items) (hx : items[i]? = some x) (hitem : 0 ≤ k.itemRes i)
    (hname : 0 ≤ k.nameRes i) : (k.itemRound i).2 = none ∧ (k.itemRound i).1.filter PkgEvent.isLine = [x.line] := by
  obtain ⟨⟨record, nameOffset, hrecord, hdata, hstr⟩, hshort⟩ := hitems.item i x hx
  have hi : i < items.length := (List.getElem?_eq_some_iff.1 hx).1
  have hfew := hitems.few
  obtain ⟨hoff, hlen, hdataOffset, hdataSize, hflags⟩ :=
    fields_eq hrecord (item_eq h hitems (by omega) hdata hitem)
  have hlen' : (k.fileNameLen i).toNat = x.name.length := by
    unfold entNameSize at hshort
    rw [hlen, UInt32.toNat_ofNat']
    omega
  have hbytes := name_eq h hitems hoff (hlen' ▸ Nat.le_of_lt hshort) (hlen ▸ hstr) hitem hname
  have hent : strAt (k.entName i) entNameSize 0 = some (cstr x.name) := by
    refine strAt_cstr (fun j c hc => ?_) ?_ hshort
    · obtain ⟨hj, rfl⟩ := List.getElem?_eq_some_iff.1 hc
      rw [Nat.zero_add, PkgAnswers.entName, memcpy, if_pos (by omega), hbytes j (by omega)]
      simp [hj]
    · rw [Nat.zero_add, PkgAnswers.entName, memcpy, if_neg (by omega)]
  refine ⟨itemRound_continues.2 ⟨hitem, hlen' ▸ Nat.le_of_lt hshort, hname⟩, ?_⟩
  unfold PkgAnswers.itemRound
  rw [hent, hdataOffset, hdataSize, hflags]
  have hfits : ¬ x.name.length > entNameSize := Nat.not_lt.2 (Nat.le_of_lt hshort)
  simp [PkgEvent.isLine, Int32.not_lt.2 hitem, Int32.not_lt.2 hname, hlen', hfits, Item.line]

/-- A round without one of them prints no item, and is the last. -/
theorem itemRound_fails (h : k.itemRes i < 0 ∨ k.nameRes i < 0) :
    (∃ leave, (k.itemRound i).2 = some leave) ∧ (k.itemRound i).1.filter PkgEvent.isLine = [] := by
  unfold PkgAnswers.itemRound
  split_ifs with hitem hlen hname
  · exact ⟨⟨_, rfl⟩, rfl⟩
  · exact ⟨⟨_, rfl⟩, rfl⟩
  · exact ⟨⟨_, rfl⟩, rfl⟩
  · exact absurd h (not_or.2 ⟨hitem, hname⟩)

/-- The items up to the first that cannot be decrypted are printed, in their order, as they are in the package. -/
theorem programStart_lists (h : k.Has f) (hitems : f.Holds items) (hfd : 0 ≤ k.fd) (hcheck : 0 ≤ k.check)
    (hn : n ≤ items.length) (hok : ∀ i < n, 0 ≤ k.itemRes i ∧ 0 ≤ k.nameRes i)
    (hstop : n = items.length ∨ k.itemRes n < 0 ∨ k.nameRes n < 0) :
    k.programStart.2.filter PkgEvent.isLine = (items.take n).map Item.line := by
  have hround : ∀ i < n, (k.itemRound i).2 = none ∧
      (k.itemRound i).1.filter PkgEvent.isLine = ((items[i]?).map Item.line).toList := by
    intro i hi
    have hlt : i < items.length := by omega
    have hx : items[i]? = some items[i] := List.getElem?_eq_getElem hlt
    rw [hx]
    exact itemRound_prints h hitems hx (hok i hi).1 (hok i hi).2
  have hlines : ((List.range' 0 n).flatMap fun i => (k.itemRound i).1).filter PkgEvent.isLine =
      (items.take n).map Item.line := by
    rw [List.filter_flatMap]
    clear hstop hok
    induction n with
    | zero => rfl
    | succ n ih =>
      have hlt : n < items.length := by omega
      have hx : items[n]? = some items[n] := List.getElem?_eq_getElem hlt
      rw [List.range'_concat, List.flatMap_append, ih (by omega) fun i hi => hround i (by omega), List.take_add_one,
        List.map_append]
      simp [(hround n (by omega)).2, hx]
  unfold PkgAnswers.programStart
  rw [if_neg (Int32.not_lt.2 hfd), if_neg (Int32.not_lt.2 hcheck), itemNum_eq h hitems]
  by_cases hlast : n = items.length
  · rw [← hlast, forEmit_of_none fun i _ hi => (hround i (by omega)).1]
    exact hlines
  · obtain ⟨⟨leave, hleave⟩, hnone⟩ := itemRound_fails (hstop.resolve_left hlast)
    rw [forEmit_of_some (j := n) (fun i _ hi => (hround i (by omega)).1) (by omega) ((Nat.zero_add n).symm ▸ hleave)]
    rw [List.filter_append, hlines, Nat.zero_add, hnone, List.append_nil]

end

/-! ### A machine with a package -/

/-- The services of a machine that has the file. Where a read goes over its end there are zeros. -/
def PkgFile.answers (f : PkgFile) : PkgAnswers :=
  let readAt (p : UInt64) : Mem := fun b => f.bytes.getD (p.toNat + b) 0
  let itemOffset i := (PkgAnswers.itemOffset i).toUInt64
  let item i := f.decrypt (itemOffset i) 0x20 (readAt (bswap64 (load64 f.header 0x20) + itemOffset i))
  let nameOffset i := (bswap32 (load32 (item i).2 0)).toUInt64
  let name i := f.decrypt (nameOffset i) (bswap32 (load32 (item i).2 4))
    (readAt (bswap64 (load64 f.header 0x20) + nameOffset i))
  { fd := 1, header := f.header, check := 0, item := fun i => (item i).2, itemRes := fun i => (item i).1,
    name := fun i => (name i).2, nameRes := fun i => (name i).1 }

theorem PkgFile.has_answers (f : PkgFile) : f.answers.Has f := by
  have hread : ∀ (p : UInt64) size, p.toNat + size ≤ f.bytes.length →
      f.Reads p size fun b => f.bytes.getD (p.toNat + b) 0 := by
    intro p size hin b hb
    have hlt : p.toNat + b < f.bytes.length := by omega
    simp [hlt]
  refine ⟨fun a _ c hc => ?_, fun i p o hp ho hin => ?_, fun i p n o n' hp hn ho hin => ?_⟩
  · show f.header a = c
    rw [PkgFile.header, List.getD_eq_getElem?_getD, hc]
    rfl
  · simp [mem_itemRound] at hp ho
    subst hp ho
    exact ⟨_, hread _ _ hin, rfl⟩
  · simp [mem_itemRound] at hp hn ho
    obtain ⟨-, rfl⟩ := hp
    obtain ⟨-, rfl⟩ := hn
    obtain ⟨-, -, rfl, rfl⟩ := ho
    exact ⟨_, hread _ _ hin, rfl⟩

/-- A package with the files `a` and `b`; the name of `b` cannot be decrypted. -/
def twoItems : PkgFile where
  bytes := List.replicate 0x17 0 ++ 2 :: List.replicate 0xF 0 ++ 0x28 :: [0, 0, 0, 0x40, 0, 0, 0, 1,
    0, 0, 0, 0, 0, 0, 1, 0, 0, 0, 0, 0, 0, 0, 0, 0x10, 0, 0, 0, 3, 0, 0, 0, 0, 0, 0, 0, 0x41, 0, 0, 0, 1,
    0, 0, 0, 0, 0, 0, 2, 0, 0, 0, 0, 0, 0, 0, 0, 0x20, 0, 0, 0, 3, 0, 0, 0, 0, 0x61, 0x62].map (· ^^^ 0x55)
  decrypt offset _ buf := (if offset = 0x41 then -1 else 0, fun b => buf b ^^^ 0x55)

def itemA : Item := ⟨[0x61], 3, 0x100, 0x10⟩

def itemB : Item := ⟨[0x62], 3, 0x200, 0x20⟩

theorem twoItems_holds : twoItems.Holds [itemA, itemB] := by
  have hstart : twoItems.dataStart.toNat = 0x28 := by decide
  have hdata : ∀ (offset : UInt64) (size : UInt32) (plain : Mem), 0x28 + offset.toNat + size.toNat ≤ 0x6A →
      (∀ b < size.toNat, twoItems.bytes.getD (0x28 + offset.toNat + b) 0 ^^^ 0x55 = plain b) →
      twoItems.HasData offset size plain := by
    intro offset size plain hin hplain
    refine ⟨hstart ▸ hin, fun buf hbuf _ b hb => ?_⟩
    have hget := hbuf b hb
    rw [UInt64.toNat_add, hstart, Nat.mod_eq_of_lt (by omega)] at hget
    rw [← hplain b hb, List.getD_eq_getElem?_getD, hget]
    rfl
  have hrecordA : IsRecord (fun b => twoItems.bytes.getD (0x28 + b) 0 ^^^ 0x55) 0x40 itemA := by
    constructor <;> decide
  have hrecordB : IsRecord (fun b => twoItems.bytes.getD (0x48 + b) 0 ^^^ 0x55) 0x41 itemB := by
    constructor <;> decide
  refine ⟨by decide, by decide, by decide, by decide, fun i x hx => ?_⟩
  rcases i with _ | _ | i
  · obtain rfl := Option.some.inj hx
    have hitem := hdata 0 0x20 _ (by decide) fun _ _ => rfl
    have hname := hdata 0x40 1 (fun b => [0x61].getD b 0) (by decide) (by decide)
    exact ⟨⟨_, 0x40, hrecordA, hitem, hname⟩, by decide⟩
  · obtain rfl := Option.some.inj hx
    have hitem := hdata 0x20 0x20 _ (by decide) fun _ _ => rfl
    have hname := hdata 0x41 1 (fun b => [0x62].getD b 0) (by decide) (by decide)
    exact ⟨⟨_, 0x41, hrecordB, hitem, hname⟩, by decide⟩
  · cases hx

/-- The first of the two items is listed. -/
theorem programStart_lists_oneOfTwo : twoItems.answers.programStart.2.filter PkgEvent.isLine = [itemA.line] := by
  have hok : ∀ i < 1, 0 ≤ twoItems.answers.itemRes i ∧ 0 ≤ twoItems.answers.nameRes i := by
    intro i hi
    obtain rfl : i = 0 := by omega
    decide
  exact programStart_lists twoItems.has_answers twoItems_holds (by decide) (by decide) (by decide) hok
    (.inr (.inr (by decide)))

end VitaUtility.NpdrmPackage

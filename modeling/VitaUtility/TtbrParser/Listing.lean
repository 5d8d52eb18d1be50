import VitaUtility.Lib.Emit
import VitaUtility.TtbrParser.Mmu

/-!
# The listing of a table

`parse_ttbr` with the lines that it prints, and which of them `mmuRead8` goes by.
-/

namespace VitaUtility.TtbrParser

/-- The name that a line starts with. -/
inductive MappingName where
  | pageTable
  | section_
deriving DecidableEq

/-- A printed line. -/
inductive Line where
  | mapping (name : MappingName) (ttbr vaddr paddr : UInt32)
  | fault
  | superSection
deriving DecidableEq

/-- `for(int i=start;i<start+n;i++)` over a body that prints lines and may not come back. -/
def forPrint (body : Nat → List Line × Option Stop) : (n start : Nat) → List Line × Option Stop
  | 0, _ => ([], none)
  | n + 1, i =>
    match body i with
    | (lines, some stop) => (lines, some stop)
    | (lines, none) =>
      let rest := forPrint body n (i + 1)
      (lines ++ rest.1, rest.2)

section
variable {body : Nat → List Line × Option Stop} {n start : Nat} {line : Line}

theorem forPrint_eq : forPrint body n start = forEmit body n start := by
  induction n generalizing start with
  | zero => rfl
  | succ n ih =>
    unfold forPrint forEmit
    rcases body start with ⟨lines, _ | stop⟩
    · dsimp only
      rw [ih]
    · rfl

/-- The lines are those of the rounds up to the first that does not come back. -/
theorem mem_forPrint : line ∈ (forPrint body n start).1 ↔
    ∃ j, start ≤ j ∧ j < start + n ∧ (∀ k, start ≤ k → k < j → (body k).2 = none) ∧ line ∈ (body j).1 := by
  rw [forPrint_eq]
  exact mem_forEmit

end

namespace Dump
variable (d : Dump)

/-- A shift of a table index, which is an `int`. -/
def vaddrOf (ttbrIdx i : Nat) : UInt32 := (UInt32.ofNat ttbrIdx <<< 20) ||| (UInt32.ofNat i <<< 12)

def pageTableLine (ttbrIdx : Nat) (TTBR : UInt32) (i : Nat) : List Line × Option Stop :=
  match d.wordAt (secondLevelEntry TTBR (UInt32.ofNat i)) with
  | .error stop => ([], some stop)
  | .ok ttbrSec =>
    if ttbrSec = 0 then ([], none)
    else if ttbrSec &&& 3 = 1 then
      ([.mapping .pageTable TTBR (vaddrOf ttbrIdx i) (ttbrSec &&& 0xFFFF0000)], none)
    else if ttbrSec &&& 2 ≠ 0 then
      ([.mapping .pageTable TTBR (vaddrOf ttbrIdx i) (ttbrSec &&& 0xFFFFF000)], none)
    else ([], none)

def parseTtbrPageTable (ttbrIdx : Nat) (TTBR : UInt32) : List Line × Option Stop :=
  forPrint (d.pageTableLine ttbrIdx TTBR) 0x100 0

def parseTtbrSection (ttbrIdx : Nat) (TTBR : UInt32) : List Line :=
  [.mapping .section_ TTBR (UInt32.ofNat ttbrIdx <<< 20) (TTBR &&& 0xFFF00000)]

def parseTtbrEntry (pTTBR : Nat → UInt32) (i : Nat) : List Line × Option Stop :=
  let ttbr := pTTBR i
  if ttbr = 0x1E0 then ([], none)
  else if ttbr &&& 3 = 0 then ([.fault], none)
  else if ttbr &&& 3 = 1 then d.parseTtbrPageTable i ttbr
  else if ttbr &&& 3 = 2 then (parseTtbrSection i ttbr, none)
  else if ttbr &&& 3 = 3 then ([.superSection], none)
  else ([], none)

def parseTtbr (pTTBR : Nat → UInt32) : List Line × Option Stop := forPrint (d.parseTtbrEntry pTTBR) 0x1000 0

/-- The page of `addr` is one of the sixteen parts of a large one. -/
def InLargePage (addr : UInt32) : Prop :=
  d.firstLevel addr &&& 3 = 1 ∧ ∃ ttbrSec,
    d.wordAt (secondLevelEntry (d.firstLevel addr) ((addr >>> 12) &&& 0xFF)) = .ok ttbrSec ∧ ttbrSec &&& 3 = 1

/-! ### The lines -/

section
variable {d : Dump} {pTTBR : Nat → UInt32} {idx i : Nat} {name : MappingName} {TTBR vaddr paddr : UInt32}

/-- What a line with an address says of the tables. -/
inductive Mapped (d : Dump) (pTTBR : Nat → UInt32) : (TTBR vaddr paddr : UInt32) → Prop
  | megabyte {idx : Nat} (hidx : idx < 0x1000) (h : pTTBR idx &&& 3 = 2) :
    Mapped d pTTBR (pTTBR idx) (UInt32.ofNat idx <<< 20) (pTTBR idx &&& 0xFFF00000)
  | large {idx i : Nat} {t : UInt32} (hidx : idx < 0x1000) (hi : i < 0x100) (h : pTTBR idx &&& 3 = 1)
    (hword : d.wordAt (secondLevelEntry (pTTBR idx) (UInt32.ofNat i)) = .ok t) (ht : t &&& 3 = 1) :
    Mapped d pTTBR (pTTBR idx) (vaddrOf idx i) (t &&& 0xFFFF0000)
  | small {idx i : Nat} {t : UInt32} (hidx : idx < 0x1000) (hi : i < 0x100) (h : pTTBR idx &&& 3 = 1)
    (hword : d.wordAt (secondLevelEntry (pTTBR idx) (UInt32.ofNat i)) = .ok t) (h1 : ¬ t &&& 3 = 1) (h2 : t &&& 2 ≠ 0) :
    Mapped d pTTBR (pTTBR idx) (vaddrOf idx i) (t &&& 0xFFFFF000)

theorem mapped_of_mem_pageTable (hidx : idx < 0x1000) (h1 : pTTBR idx &&& 3 = 1)
    (h : .mapping name TTBR vaddr paddr ∈ (d.parseTtbrPageTable idx (pTTBR idx)).1) :
    Mapped d pTTBR TTBR vaddr paddr := by
  obtain ⟨i, -, hi, -, h⟩ := mem_forPrint.1 h
  rw [Nat.zero_add] at hi
  unfold pageTableLine at h
  cases hword : d.wordAt (secondLevelEntry (pTTBR idx) (UInt32.ofNat i)) with
  | error stop => simp [hword] at h
  | ok t =>
    rw [hword] at h
    dsimp only at h
    by_cases hzero : t = 0
    · simp [hzero] at h
    rw [if_neg hzero] at h
    by_cases hlarge : t &&& 3 = 1
    · rw [if_pos hlarge, List.mem_singleton] at h
      cases h
      exact .large hidx hi h1 hword hlarge
    rw [if_neg hlarge] at h
    by_cases hsmall : t &&& 2 ≠ 0
    · rw [if_pos hsmall, List.mem_singleton] at h
      cases h
      exact .small hidx hi h1 hword hlarge hsmall
    · simp [hsmall] at h

theorem mapped_of_mem (h : .mapping name TTBR vaddr paddr ∈ (d.parseTtbr pTTBR).1) :
    Mapped d pTTBR TTBR vaddr paddr := by
  obtain ⟨idx, -, hidx, -, h⟩ := mem_forPrint.1 h
  rw [Nat.zero_add] at hidx
  unfold parseTtbrEntry at h
  dsimp only at h
  by_cases hskip : pTTBR idx = 0x1E0
  · simp [hskip] at h
  rw [if_neg hskip] at h
  by_cases h0 : pTTBR idx &&& 3 = 0
  · simp [h0] at h
  rw [if_neg h0] at h
  by_cases h1 : pTTBR idx &&& 3 = 1
  · rw [if_pos h1] at h
    exact mapped_of_mem_pageTable hidx h1 h
  rw [if_neg h1] at h
  by_cases h2 : pTTBR idx &&& 3 = 2
  · rw [if_pos h2, parseTtbrSection, List.mem_singleton] at h
    cases h
    exact .megabyte hidx h2
  rw [if_neg h2] at h
  by_cases h3 : pTTBR idx &&& 3 = 3 <;> simp [h3] at h

theorem toNat_vaddrOf (hidx : idx < 0x1000) (hi : i < 0x100) : (vaddrOf idx i).toNat = idx * 2 ^ 20 + i * 2 ^ 12 := by
  have hshift : (UInt32.ofNat idx <<< 20).toNat = idx <<< 20 := by
    rw [UInt32.toNat_shiftLeft, UInt32.toNat_ofNat_of_lt' (Nat.lt_trans hidx (by decide))]
    refine Nat.mod_eq_of_lt ?_
    show idx <<< 20 < _
    rw [Nat.shiftLeft_eq]
    omega
  have hpage : (UInt32.ofNat i <<< 12).toNat = i * 2 ^ 12 := by
    rw [UInt32.toNat_shiftLeft, UInt32.toNat_ofNat_of_lt' (Nat.lt_trans hi (by decide))]
    show i <<< 12 % _ = _
    rw [Nat.shiftLeft_eq]
    omega
  rw [vaddrOf, UInt32.toNat_or, hshift, hpage, ← Nat.shiftLeft_add_eq_or_of_lt (by omega), Nat.shiftLeft_eq]

theorem vaddrOf_zero : UInt32.ofNat idx <<< 20 = vaddrOf idx 0 := by
  simp [vaddrOf]

theorem firstLevel_vaddrOf (hidx : idx < 0x1000) (hi : i < 0x100) (hserves : d.tableFor (vaddrOf idx i) = pTTBR) :
    d.firstLevel (vaddrOf idx i) = pTTBR idx := by
  rw [firstLevel, hserves, toNat_and_low (k := 12) rfl, toNat_shiftRight (k := 20) rfl (by decide),
    toNat_vaddrOf hidx hi]
  congr 1
  omega

theorem pageIdx_vaddrOf (hidx : idx < 0x1000) (hi : i < 0x100) : (vaddrOf idx i >>> 12) &&& 0xFF = UInt32.ofNat i := by
  apply UInt32.toNat_inj.1
  rw [toNat_and_low (k := 8) rfl, toNat_shiftRight (k := 12) rfl (by decide), toNat_vaddrOf hidx hi,
    UInt32.toNat_ofNat_of_lt' (Nat.lt_trans hi (by decide))]
  omega

theorem mmuPointer_page {t : UInt32} (hidx : idx < 0x1000) (hi : i < 0x100) (h1 : pTTBR idx &&& 3 = 1)
    (hfirst : d.firstLevel (vaddrOf idx i) = pTTBR idx)
    (hword : d.wordAt (secondLevelEntry (pTTBR idx) (UInt32.ofNat i)) = .ok t) :
    d.mmuPointer (vaddrOf idx i) = pagePointer t (vaddrOf idx i) := by
  rw [mmuPointer_pageTable (by rw [hfirst]; exact and_three_iff.1 h1), hfirst, pageIdx_vaddrOf hidx hi, hword]
  rfl

/-- The place in a block is zero at its start. -/
theorem and_low_eq_zero {x m : UInt32} {k : Nat} (hm : m.toNat = 2 ^ k - 1) : x &&& m = 0 ↔ x.toNat % 2 ^ k = 0 := by
  rw [← UInt32.toNat_inj, toNat_and_low hm]
  rfl

theorem pointer_iff (h : .mapping name TTBR vaddr paddr ∈ (d.parseTtbr pTTBR).1) (hserves : d.tableFor vaddr = pTTBR) :
    d.mmuPointer vaddr = .ok (paddr - sceMemoryBase) ↔ ¬ d.InLargePage vaddr ∨ vaddr.toNat % 0x10000 = 0 := by
  cases mapped_of_mem h with
  | @megabyte idx hidx hsection =>
    rw [vaddrOf_zero] at hserves ⊢
    have hfirst := firstLevel_vaddrOf hidx (by decide) hserves
    have hnot : ¬ d.InLargePage (vaddrOf idx 0) := by
      rintro ⟨h1, -⟩
      rw [hfirst, hsection] at h1
      revert h1
      decide
    rw [mmuPointer_section (by rw [hfirst]; exact and_three_iff.1 hsection), hfirst, Except.ok.injEq,
      UInt32.add_eq_left, and_low_eq_zero (k := 20) rfl, toNat_vaddrOf hidx (by decide)]
    exact iff_of_true (by omega) (.inl hnot)
  | @large idx i t hidx hi h1 hword ht =>
    have hfirst := firstLevel_vaddrOf hidx hi hserves
    have hlarge : d.InLargePage (vaddrOf idx i) := by
      refine ⟨by rwa [hfirst], t, ?_, ht⟩
      rwa [hfirst, pageIdx_vaddrOf hidx hi]
    rw [mmuPointer_page hidx hi h1 hfirst hword, pagePointer, if_pos ht, Except.ok.injEq, UInt32.add_eq_left,
      and_low_eq_zero (k := 16) rfl]
    exact ⟨.inr, fun h => h.resolve_left fun hnot => hnot hlarge⟩
  | @small idx i t hidx hi h1 hword ht1 ht2 =>
    have hfirst := firstLevel_vaddrOf hidx hi hserves
    have hnot : ¬ d.InLargePage (vaddrOf idx i) := by
      rintro ⟨-, t', hword', ht'⟩
      rw [hfirst, pageIdx_vaddrOf hidx hi] at hword'
      obtain rfl := Except.ok.inj (hword.symm.trans hword')
      exact ht1 ht'
    rw [mmuPointer_page hidx hi h1 hfirst hword, pagePointer, if_neg ht1, if_pos ht2, Except.ok.injEq,
      UInt32.add_eq_left, and_low_eq_zero (k := 12) rfl, toNat_vaddrOf hidx hi]
    exact iff_of_true (by omega) (.inl hnot)

/-- A line tells where `mmuRead8` reads exactly when it is not of a large page, or of the first part of one. -/
theorem printedLine_iff (h : .mapping name TTBR vaddr paddr ∈ (d.parseTtbr pTTBR).1) (hserves : d.tableFor vaddr = pTTBR) :
    (d.mmuPointer vaddr = .ok (paddr - sceMemoryBase) ↔ ¬ d.InLargePage vaddr ∨ vaddr.toNat % 0x10000 = 0) ∧
    (¬ d.InLargePage vaddr ∨ vaddr.toNat % 0x10000 = 0 → 0x40000000 ≤ paddr.toNat → paddr.toNat < 0x40200000 →
      d.mmuRead8 vaddr = .ok (d.tzs (paddr.toNat - 0x40000000))) := by
  refine ⟨pointer_iff h hserves, fun hcond hlo hhi => ?_⟩
  have hbase : (sceMemoryBase).toNat = 0x40000000 := rfl
  have hoff : (paddr - sceMemoryBase).toNat = paddr.toNat - 0x40000000 := by
    rw [UInt32.toNat_sub_of_le _ _ (UInt32.le_iff_toNat_le.2 (hbase ▸ hlo)), hbase]
  rw [mmuRead8_of_ok ((pointer_iff h hserves).2 hcond), byteAt_eq_ok, hoff]
  refine ⟨?_, rfl⟩
  unfold imageSize
  omega

end
end Dump

/-- The line of a section that is read where it says. -/
theorem printedLine_iff_section : (uniformDump 0x40000002).mmuRead8 0x40000000 = .ok 0 := by
  have hround : ∀ k, (uniformDump 0x40000002).parseTtbrEntry (fun _ => 0x40000002) k =
      (Dump.parseTtbrSection k 0x40000002, none) := by
    intro k
    unfold Dump.parseTtbrEntry
    dsimp only
    rw [if_neg (by decide), if_neg (by decide), if_neg (by decide), if_pos (by decide)]
  have hline : .mapping .section_ 0x40000002 0x40000000 0x40000000 ∈
      ((uniformDump 0x40000002).parseTtbr fun _ => 0x40000002).1 := by
    refine mem_forPrint.2 ⟨0x400, by decide, by decide, fun k _ _ => congrArg Prod.snd (hround k), ?_⟩
    rw [hround]
    decide
  have hbyte : (uniformDump 0x40000002).tzs ((0x40000000 : UInt32).toNat - 0x40000000) = 0 := by decide
  exact hbyte ▸ (Dump.printedLine_iff hline rfl).2 (.inr (by decide)) (by decide) (by decide)

/-- A dump of a page table of large pages, all of them at `0x40010000`. -/
def largePages : Dump where
  tzs i := if i % 4 = 3 then 0x40 else if i % 2 = 0 then 1 else 0
  ttbr0 _ := 0x40000001
  ttbr1 _ := 0

/-- The line of the second part of a large page has the address of the first. -/
theorem largePages_fail :
    .mapping .pageTable 0x40000001 0x1000 0x40010000 ∈ (largePages.parseTtbr largePages.ttbr0).1 ∧
    largePages.tableFor 0x1000 = largePages.ttbr0 ∧
    largePages.mmuPointer 0x1000 = .ok 0x11000 ∧ 0x40010000 - sceMemoryBase = 0x10000 := by
  refine ⟨mem_forPrint.2 ⟨0, by decide, by decide, by omega, ?_⟩, rfl, by rfl, by decide⟩
  refine mem_forPrint.2 ⟨1, by decide, by decide, fun k _ hk => ?_, by decide⟩
  obtain rfl : k = 0 := by omega
  rfl

end VitaUtility.TtbrParser

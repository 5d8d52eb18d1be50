import VitaUtility.TtbrParser.Listing

/-!
# What a listing covers

A listing that comes back has a line for each block of the table that the processor translates, in the order of their
addresses, and each line says where its block is.
-/

namespace VitaUtility.TtbrParser
open ShortDescriptor

/-- The address that a line is about. -/
def Line.vaddr? : Line → Option UInt32
  | .mapping _ _ vaddr _ => some vaddr
  | _ => none

/-- The line is about the block that `addr` is in. -/
def Line.Covers (addr : UInt32) : Line → Prop
  | .mapping .pageTable _ vaddr _ => vaddr.toNat ≤ addr.toNat ∧ addr.toNat < vaddr.toNat + 0x1000
  | .mapping .section_ _ vaddr _ => vaddr.toNat ≤ addr.toNat ∧ addr.toNat < vaddr.toNat + 0x100000
  | _ => False

namespace Dump
variable {d : Dump} {pTTBR : Nat → UInt32} {idx i : Nat} {addr t T vaddr paddr : UInt32} {line : Line}
  {name : MappingName} {p : BitVec 40}

/-- All the page tables that the first-level table names are in the image. -/
def TablesInImage (d : Dump) (pTTBR : Nat → UInt32) : Prop :=
  ∀ idx < 0x1000, pTTBR idx &&& 3 = 1 → ∀ i < 0x100,
    ∃ t, d.wordAt (secondLevelEntry (pTTBR idx) (UInt32.ofNat i)) = .ok t

/-! ### Lines of a round -/

theorem page_type_iff : t &&& 3 = 1 ∨ t &&& 2 ≠ 0 ↔ t.toNat % 4 ≠ 0 := by
  rw [and_three_iff, and_two_iff]
  show t.toNat % 4 = 1 ∨ _ ↔ _
  omega

/-- The base that is printed for a page. -/
def pageBase (t : UInt32) : UInt32 := if t &&& 3 = 1 then t &&& 0xFFFF0000 else t &&& 0xFFFFF000

theorem mem_pageTableLine : line ∈ (d.pageTableLine idx T i).1 ↔
    ∃ t, d.wordAt (secondLevelEntry T (UInt32.ofNat i)) = .ok t ∧ t.toNat % 4 ≠ 0 ∧
      line = .mapping .pageTable T (vaddrOf idx i) (pageBase t) := by
  unfold pageTableLine
  cases hword : d.wordAt (secondLevelEntry T (UInt32.ofNat i)) with
  | error stop => simp
  | ok t =>
    simp only [Except.ok.injEq, exists_eq_left', pageBase, ← page_type_iff]
    by_cases hzero : t = 0
    · subst t
      simp
    by_cases hlarge : t &&& 3 = 1
    · simp [hzero, hlarge]
    by_cases hsmall : t &&& 2 = 0
    · simp [hzero, hlarge, hsmall]
    · simp [hzero, hlarge, hsmall]

theorem pageTableLine_snd : (d.pageTableLine idx T i).2 = none ↔
    ∃ t, d.wordAt (secondLevelEntry T (UInt32.ofNat i)) = .ok t := by
  unfold pageTableLine
  cases hword : d.wordAt (secondLevelEntry T (UInt32.ofNat i)) with
  | error stop => simp
  | ok t =>
    dsimp only
    split_ifs <;> simp

theorem mem_parseTtbrEntry : .mapping name T vaddr paddr ∈ (d.parseTtbrEntry pTTBR idx).1 ↔
    ((pTTBR idx).toNat % 4 = 2 ∧ .mapping name T vaddr paddr ∈ parseTtbrSection idx (pTTBR idx)) ∨
    ((pTTBR idx).toNat % 4 = 1 ∧ .mapping name T vaddr paddr ∈ (d.parseTtbrPageTable idx (pTTBR idx)).1) := by
  have h0 := @and_three_iff (pTTBR idx) 0
  have h1 := @and_three_iff (pTTBR idx) 1
  have h2 := @and_three_iff (pTTBR idx) 2
  unfold parseTtbrEntry
  dsimp only
  by_cases hskip : pTTBR idx = 0x1E0
  · -- `0x1E0` has the type of a fault
    simp [hskip]
  rw [if_neg hskip]
  simp only [h0, h1, h2]
  have hlt : (pTTBR idx).toNat % 4 < 4 := Nat.mod_lt _ (by decide)
  generalize (pTTBR idx).toNat % 4 = type at hlt
  obtain rfl | rfl | rfl | rfl : type = 0 ∨ type = 1 ∨ type = 2 ∨ type = 3 := by omega
  · simp
  · simp
  · simp
  · simp
    split <;> simp

theorem parseTtbr_snd (h : d.TablesInImage pTTBR) : (d.parseTtbr pTTBR).2 = none := by
  unfold parseTtbr
  rw [forPrint_eq, forEmit_snd_eq_none]
  intro idx _ hidx
  unfold parseTtbrEntry
  dsimp only
  split_ifs with _ _ h1
  · rfl
  · rfl
  · unfold parseTtbrPageTable
    rw [forPrint_eq, forEmit_snd_eq_none]
    intro i _ hi
    exact pageTableLine_snd.2 (h idx (by omega) h1 i (by omega))
  · rfl
  · rfl
  · rfl

/-- A listing that comes back has the lines of all rounds. -/
theorem mem_parseTtbr (h : d.TablesInImage pTTBR) : .mapping name T vaddr paddr ∈ (d.parseTtbr pTTBR).1 ↔
    ∃ idx < 0x1000,
      ((pTTBR idx).toNat % 4 = 2 ∧ name = .section_ ∧ T = pTTBR idx ∧ vaddr = vaddrOf idx 0 ∧
        paddr = pTTBR idx &&& 0xFFF00000) ∨
      ((pTTBR idx).toNat % 4 = 1 ∧ ∃ i < 0x100, ∃ t,
        d.wordAt (secondLevelEntry (pTTBR idx) (UInt32.ofNat i)) = .ok t ∧ t.toNat % 4 ≠ 0 ∧ name = .pageTable ∧
        T = pTTBR idx ∧ vaddr = vaddrOf idx i ∧ paddr = pageBase t) := by
  have hrounds : ∀ idx < 0x1000, (d.parseTtbrEntry pTTBR idx).2 = none := by
    have hback := parseTtbr_snd h
    unfold parseTtbr at hback
    rw [forPrint_eq, forEmit_snd_eq_none] at hback
    intro idx hidx
    exact hback idx (Nat.zero_le _) (by omega)
  have hpages : ∀ idx < 0x1000, (pTTBR idx).toNat % 4 = 1 → ∀ i < 0x100,
      (d.pageTableLine idx (pTTBR idx) i).2 = none := by
    intro idx hidx h1 i hi
    exact pageTableLine_snd.2 (h idx hidx (and_three_iff.2 h1) i hi)
  have hline : ∀ idx, .mapping name T vaddr paddr ∈ parseTtbrSection idx (pTTBR idx) ↔
      name = .section_ ∧ T = pTTBR idx ∧ vaddr = vaddrOf idx 0 ∧ paddr = pTTBR idx &&& 0xFFF00000 := by
    intro idx
    simp [parseTtbrSection, vaddrOf_zero]
  have htable : ∀ idx < 0x1000, (pTTBR idx).toNat % 4 = 1 →
      (.mapping name T vaddr paddr ∈ (d.parseTtbrPageTable idx (pTTBR idx)).1 ↔ ∃ i < 0x100, ∃ t,
        d.wordAt (secondLevelEntry (pTTBR idx) (UInt32.ofNat i)) = .ok t ∧ t.toNat % 4 ≠ 0 ∧ name = .pageTable ∧
        T = pTTBR idx ∧ vaddr = vaddrOf idx i ∧ paddr = pageBase t) := by
    intro idx hidx h1
    unfold parseTtbrPageTable
    rw [mem_forPrint]
    constructor
    · rintro ⟨i, -, hi, -, hmem⟩
      obtain ⟨t, hword, ht, hl⟩ := mem_pageTableLine.1 hmem
      cases hl
      exact ⟨i, by omega, t, hword, ht, rfl, rfl, rfl, rfl⟩
    · rintro ⟨i, hi, t, hword, ht, rfl, rfl, rfl, rfl⟩
      exact ⟨i, by omega, by omega, fun k _ hk => hpages idx hidx h1 k (by omega), mem_pageTableLine.2 ⟨t, hword, ht, rfl⟩⟩
  unfold parseTtbr
  rw [mem_forPrint]
  constructor
  · rintro ⟨idx, -, hidx, -, hmem⟩
    refine ⟨idx, by omega, ?_⟩
    rcases mem_parseTtbrEntry.1 hmem with ⟨h2, hmem⟩ | ⟨h1, hmem⟩
    · exact .inl ⟨h2, (hline idx).1 hmem⟩
    · exact .inr ⟨h1, (htable idx (by omega) h1).1 hmem⟩
  · rintro ⟨idx, hidx, hmem⟩
    refine ⟨idx, by omega, by omega, fun k _ hk => hrounds k (by omega), mem_parseTtbrEntry.2 ?_⟩
    rcases hmem with ⟨h2, hmem⟩ | ⟨h1, hmem⟩
    · exact .inl ⟨h2, (hline idx).2 hmem⟩
    · exact .inr ⟨h1, (htable idx hidx h1).2 hmem⟩

/-! ### The order of the lines -/

theorem pairwise_pageTableLine {R : Line → Line → Prop} : (d.pageTableLine idx T i).1.Pairwise R := by
  unfold pageTableLine
  split
  · simp
  · split_ifs <;> simp

theorem vaddr_of_mem_pageTable {v : UInt32} (hidx : idx < 0x1000) (hv : line.vaddr? = some v)
    (h : line ∈ (d.parseTtbrPageTable idx T).1) : v.toNat / 2 ^ 20 = idx := by
  obtain ⟨i, -, hi, -, h⟩ := mem_forPrint.1 h
  obtain ⟨t, -, -, rfl⟩ := mem_pageTableLine.1 h
  obtain rfl := Option.some.inj hv
  rw [toNat_vaddrOf hidx (by omega)]
  omega

theorem vaddr_of_mem_entry {v : UInt32} (hidx : idx < 0x1000) (hv : line.vaddr? = some v)
    (h : line ∈ (d.parseTtbrEntry pTTBR idx).1) : v.toNat / 2 ^ 20 = idx := by
  cases line with
  | mapping name T vaddr paddr =>
    rcases mem_parseTtbrEntry.1 h with ⟨-, h⟩ | ⟨-, h⟩
    · obtain rfl := Option.some.inj hv
      simp only [parseTtbrSection, List.mem_singleton, Line.mapping.injEq, vaddrOf_zero] at h
      rw [h.2.2.1, toNat_vaddrOf hidx (by decide)]
      omega
    · exact vaddr_of_mem_pageTable hidx hv h
  | _ => cases hv

/-- The lines are in the order of their addresses, one for each. -/
theorem sorted_parseTtbr : ((d.parseTtbr pTTBR).1.filterMap Line.vaddr?).Pairwise (· < ·) := by
  rw [List.pairwise_filterMap]
  unfold parseTtbr
  rw [forPrint_eq]
  refine pairwise_forEmit (fun idx hidx => ?_) fun idx idx' hlt hidx a ha b hb v hv w hw => ?_
  · -- the lines of one first-level descriptor: a fault, a section or the pages of a table
    unfold parseTtbrEntry
    dsimp only
    split_ifs
    · simp
    · simp
    · unfold parseTtbrPageTable
      rw [forPrint_eq]
      refine pairwise_forEmit (fun i _ => pairwise_pageTableLine) fun i i' hlt hi a ha b hb v hv w hw => ?_
      obtain ⟨t, -, -, rfl⟩ := mem_pageTableLine.1 ha
      obtain ⟨t', -, -, rfl⟩ := mem_pageTableLine.1 hb
      obtain rfl := Option.some.inj hv
      obtain rfl := Option.some.inj hw
      rw [UInt32.lt_iff_toNat_lt, toNat_vaddrOf (by omega) (by omega), toNat_vaddrOf (by omega) (by omega)]
      omega
    · simp [parseTtbrSection]
    · simp
    · simp
  · have hva := vaddr_of_mem_entry (by omega) hv ha
    have hwb := vaddr_of_mem_entry (by omega) hw hb
    rw [UInt32.lt_iff_toNat_lt]
    omega

/-! ### Addresses and lines -/

/-- The tables have a block for `addr`. -/
def HasBlock (d : Dump) (pTTBR : Nat → UInt32) (addr : UInt32) : Prop :=
  (pTTBR (addr.toNat / 2 ^ 20)).toNat % 4 = 2 ∨
  (pTTBR (addr.toNat / 2 ^ 20)).toNat % 4 = 1 ∧ ∃ t,
    d.wordAt (secondLevelEntry (pTTBR (addr.toNat / 2 ^ 20)) (UInt32.ofNat (addr.toNat / 2 ^ 12 % 2 ^ 8))) = .ok t ∧
      t.toNat % 4 ≠ 0

theorem firstLevel_eq (hserves : d.tableFor addr = pTTBR) : d.firstLevel addr = pTTBR (addr.toNat / 2 ^ 20) := by
  have hlt := addr.toNat_lt
  rw [firstLevel, hserves, toNat_and_low (k := 12) rfl, toNat_shiftRight (k := 20) rfl (by decide)]
  congr 1
  omega

theorem pageIdx_eq : (addr >>> 12) &&& 0xFF = UInt32.ofNat (addr.toNat / 2 ^ 12 % 2 ^ 8) := by
  apply UInt32.toNat_inj.1
  rw [toNat_and_low (k := 8) rfl, toNat_shiftRight (k := 12) rfl (by decide),
    UInt32.toNat_ofNat_of_lt' (Nat.lt_trans (Nat.mod_lt _ (by decide)) (by decide))]

theorem pagePointer_ok : (∃ off, pagePointer t addr = .ok off) ↔ t.toNat % 4 ≠ 0 := by
  rw [← page_type_iff]
  unfold pagePointer
  split_ifs <;> simp_all

theorem mmuPointer_ok_iff (hserves : d.tableFor addr = pTTBR) :
    (∃ off, d.mmuPointer addr = .ok off) ↔ d.HasBlock pTTBR addr := by
  have hfirst := firstLevel_eq hserves
  unfold HasBlock
  rw [← hfirst, ← pageIdx_eq]
  by_cases h1 : (d.firstLevel addr).toNat % 4 = 1
  · rw [mmuPointer_pageTable h1]
    cases d.wordAt (secondLevelEntry (d.firstLevel addr) ((addr >>> 12) &&& 0xFF)) with
    | error stop => simp [h1, Except.bind]
    | ok t => simpa [h1, Except.bind] using pagePointer_ok
  by_cases h2 : (d.firstLevel addr).toNat % 4 = 2
  · rw [mmuPointer_section h2]
    simp [h2]
  · rw [mmuPointer_fault h1 h2]
    simp [h1, h2]

theorem covered_iff (h : d.TablesInImage pTTBR) :
    (∃ line ∈ (d.parseTtbr pTTBR).1, line.Covers addr) ↔ d.HasBlock pTTBR addr := by
  have hlt := addr.toNat_lt
  constructor
  · rintro ⟨line, hline, hcov⟩
    cases line with
    | mapping name T vaddr paddr =>
      obtain ⟨idx, hidx, ⟨h2, rfl, rfl, rfl, rfl⟩ | ⟨h1, i, hi, t, hword, ht, rfl, rfl, rfl, rfl⟩⟩ := (mem_parseTtbr h).1 hline
      · obtain ⟨hlo, hhi⟩ := hcov
        rw [toNat_vaddrOf hidx (by decide)] at hlo hhi
        have heq : addr.toNat / 2 ^ 20 = idx := by omega
        exact .inl (by rwa [heq])
      · obtain ⟨hlo, hhi⟩ := hcov
        rw [toNat_vaddrOf hidx hi] at hlo hhi
        have heq : addr.toNat / 2 ^ 20 = idx := by omega
        have hpage : addr.toNat / 2 ^ 12 % 2 ^ 8 = i := by omega
        exact .inr ⟨by rwa [heq], t, by rwa [heq, hpage], ht⟩
    | _ => cases hcov
  · have hidx : addr.toNat / 2 ^ 20 < 0x1000 := by omega
    rintro (h2 | ⟨h1, t, hword, ht⟩)
    · refine ⟨_, (mem_parseTtbr h).2 ⟨_, hidx, .inl ⟨h2, rfl, rfl, rfl, rfl⟩⟩, ?_⟩
      have hzero := toNat_vaddrOf (i := 0) hidx (by decide)
      simp only [Line.Covers, hzero]
      omega
    · have hi : addr.toNat / 2 ^ 12 % 2 ^ 8 < 0x100 := Nat.mod_lt _ (by decide)
      refine ⟨_, (mem_parseTtbr h).2 ⟨_, hidx, .inr ⟨h1, _, hi, t, hword, ht, rfl, rfl, rfl, rfl⟩⟩, ?_⟩
      simp only [Line.Covers, toNat_vaddrOf hidx hi]
      omega

/-! ### The places of the blocks -/

theorem translation_at_iff : (∃ p, d.translation addr = .at p) ↔ ∃ off, d.mmuPointer addr = .ok off := by
  have hpts : Points (d.InSupersection addr) (d.translation addr) (d.mmuPointer addr) := points
  generalize d.translation addr = T at hpts
  generalize d.mmuPointer addr = P at hpts
  cases hpts <;> simp

/-- A physical address of 32 bits is known by its offset. -/
theorem offsetOf_injective {m n : Nat} (hm : m < 2 ^ 32) (hn : n < 2 ^ 32) (h : offsetOf m = offsetOf n) : m = n := by
  unfold offsetOf at h
  omega

/-- Outside of supersections the translation is at the pointer of `mmuRead8`. -/
theorem place_of_pointer {mh l : UInt32} {k : Nat} (hs : ¬ d.InSupersection addr) (hp : d.translation addr = .at p)
    (hoff : d.mmuPointer addr = .ok ((t &&& mh) - sceMemoryBase + (addr &&& l))) (hk : k ≤ 32)
    (hh : mh.toNat = (2 ^ (32 - k) - 1) * 2 ^ k) (hl : l.toNat = 2 ^ k - 1) :
    p.toNat = (t &&& mh).toNat + addr.toNat % 2 ^ k := by
  have hpts : Points (d.InSupersection addr) (d.translation addr) (d.mmuPointer addr) := points
  rw [hp, hoff] at hpts
  cases hpts with
  | supersection _ _ hs' => exact absurd hs' hs
  | block _ _ _ hlt heq =>
    rw [toNat_blockOffset hh hl] at heq
    rw [toNat_and_high hh]
    refine offsetOf_injective hlt ?_ heq.symm
    have hlow : addr.toNat % 2 ^ k < 2 ^ k := Nat.mod_lt _ (Nat.pow_pos (by decide))
    have hhigh : t.toNat / 2 ^ k < 2 ^ (32 - k) := by
      apply Nat.div_lt_of_lt_mul
      rw [Nat.mul_comm, Nat.pow_sub_mul_pow 2 hk]
      exact t.toNat_lt
    calc t.toNat / 2 ^ k * 2 ^ k + addr.toNat % 2 ^ k < t.toNat / 2 ^ k * 2 ^ k + 2 ^ k := Nat.add_lt_add_left hlow _
      _ = (t.toNat / 2 ^ k + 1) * 2 ^ k := (Nat.succ_mul _ _).symm
      _ ≤ 2 ^ (32 - k) * 2 ^ k := Nat.mul_le_mul_right _ hhigh
      _ = 2 ^ 32 := Nat.pow_sub_mul_pow 2 hk

/-- The block of `addr` that a line with the name is about has `2 ^ k` bytes. -/
inductive BlockBits (d : Dump) (addr : UInt32) : MappingName → Nat → Prop
  | megabyte : BlockBits d addr .section_ 20
  | large (h : d.InLargePage addr) : BlockBits d addr .pageTable 16
  | small (h : ¬ d.InLargePage addr) : BlockBits d addr .pageTable 12

/-- The listing is that of the translations of the table `pTTBR`: a line each, in order, with their places. -/
structure Describes (d : Dump) (pTTBR : Nat → UInt32) (lines : List Line) : Prop where
  sorted : (lines.filterMap Line.vaddr?).Pairwise (· < ·)
  complete : ∀ addr, d.tableFor addr = pTTBR →
    ((∃ p, d.translation addr = .at p) ↔ ∃ line ∈ lines, line.Covers addr)
  place : ∀ addr name T vaddr paddr k p, d.tableFor addr = pTTBR → .mapping name T vaddr paddr ∈ lines →
    (Line.mapping name T vaddr paddr).Covers addr → d.BlockBits addr name k → ¬ d.InSupersection addr →
    d.translation addr = .at p → p.toNat = paddr.toNat + addr.toNat % 2 ^ k

theorem inLargePage_iff {word : UInt32} (h1 : (d.firstLevel addr).toNat % 4 = 1)
    (hword : d.wordAt (secondLevelEntry (d.firstLevel addr) ((addr >>> 12) &&& 0xFF)) = .ok word) :
    d.InLargePage addr ↔ word &&& 3 = 1 := by
  constructor
  · rintro ⟨-, t, ht, hl⟩
    obtain rfl := Except.ok.inj (hword.symm.trans ht)
    exact hl
  · intro hl
    exact ⟨and_three_iff.2 h1, word, hword, hl⟩

theorem place_of_line (h : d.TablesInImage pTTBR) (hserves : d.tableFor addr = pTTBR) {k : Nat}
    (hline : .mapping name T vaddr paddr ∈ (d.parseTtbr pTTBR).1) (hcov : (Line.mapping name T vaddr paddr).Covers addr)
    (hk : d.BlockBits addr name k) (hs : ¬ d.InSupersection addr) (hp : d.translation addr = .at p) :
    p.toNat = paddr.toNat + addr.toNat % 2 ^ k := by
  have hfirst := firstLevel_eq hserves
  have hlt := addr.toNat_lt
  obtain ⟨idx, hidx, ⟨h2, rfl, rfl, rfl, rfl⟩ | ⟨h1, i, hi, t, hword, ht, rfl, rfl, rfl, rfl⟩⟩ := (mem_parseTtbr h).1 hline
  · obtain ⟨hlo, hhi⟩ := hcov
    rw [toNat_vaddrOf hidx (by decide)] at hlo hhi
    have heq : addr.toNat / 2 ^ 20 = idx := by omega
    rw [heq] at hfirst
    cases hk
    refine place_of_pointer (l := 0xFFFFF) hs hp ?_ (by decide) rfl rfl
    rw [mmuPointer_section (by rwa [hfirst]), hfirst]
  · obtain ⟨hlo, hhi⟩ := hcov
    rw [toNat_vaddrOf hidx hi] at hlo hhi
    have heq : addr.toNat / 2 ^ 20 = idx := by omega
    have hpage : addr.toNat / 2 ^ 12 % 2 ^ 8 = i := by omega
    rw [heq] at hfirst
    rw [← hfirst] at h1 hword
    rw [← hpage, ← pageIdx_eq] at hword
    have hlarge := inLargePage_iff h1 hword
    have hptr : d.mmuPointer addr = pagePointer t addr := by
      rw [mmuPointer_pageTable h1, hword]
      rfl
    unfold pageBase
    cases hk with
    | large hl =>
      rw [if_pos (hlarge.1 hl)]
      refine place_of_pointer (l := 0xFFFF) hs hp ?_ (by decide) rfl rfl
      rw [hptr, pagePointer, if_pos (hlarge.1 hl)]
    | small hl =>
      have hsmall : t &&& 2 ≠ 0 := (page_type_iff.2 ht).resolve_left (mt hlarge.2 hl)
      rw [if_neg (mt hlarge.2 hl)]
      refine place_of_pointer (l := 0xFFF) hs hp ?_ (by decide) rfl rfl
      rw [hptr, pagePointer, if_neg (mt hlarge.2 hl), if_pos hsmall]

/-- With its page tables in the image, a listing comes back and describes what the processor translates. -/
theorem parseTtbr_describes (h : d.TablesInImage pTTBR) :
    (d.parseTtbr pTTBR).2 = none ∧ d.Describes pTTBR (d.parseTtbr pTTBR).1 := by
  refine ⟨parseTtbr_snd h, sorted_parseTtbr, fun addr hserves => ?_, ?_⟩
  · rw [translation_at_iff, mmuPointer_ok_iff hserves, covered_iff h]
  · intro addr name T vaddr paddr k p hserves hline hcov hk hs hp
    exact place_of_line h hserves hline hcov hk hs hp

end Dump

/-- The page table of `largePages` is in its image. -/
theorem tablesInImage_largePages : largePages.TablesInImage largePages.ttbr0 := by
  have hin : ∀ i < 0x100, (Dump.secondLevelEntry 0x40000001 (UInt32.ofNat i)).toNat + 4 ≤ imageSize := by decide +kernel
  intro idx _ _ i hi
  exact ⟨_, if_pos (hin i hi)⟩

theorem parseTtbr_describes_largePages : (largePages.parseTtbr largePages.ttbr0).2 = none ∧
    largePages.Describes largePages.ttbr0 (largePages.parseTtbr largePages.ttbr0).1 :=
  Dump.parseTtbr_describes tablesInImage_largePages

end VitaUtility.TtbrParser

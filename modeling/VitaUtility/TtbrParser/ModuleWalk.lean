import VitaUtility.Lib.Chain
import VitaUtility.TtbrParser.Mmu

/-!
# The list of modules in a dump

What `module_start` does with the modules: it follows their `next` pointers through the page tables and copies each name
into a buffer of `0x20` bytes.
-/

namespace VitaUtility.TtbrParser

/-- What `print_module_load_info` prints; `name` is the buffer up to its terminator, which is included. -/
structure ModuleLine where
  name : List UInt8
  text : UInt32 × UInt32
  data : Option (UInt32 × UInt32 × UInt32)

namespace Dump
variable (d : Dump)

def mmuRead16 (addr : UInt32) : Except Stop UInt16 := do
  let lo ← d.mmuRead8 addr
  let hi ← d.mmuRead8 (addr + 1)
  .ok (lo.toUInt16 ||| (hi.toUInt16 <<< 8))

def mmuRead32 (addr : UInt32) : Except Stop UInt32 := do
  let lo ← d.mmuRead16 addr
  let hi ← d.mmuRead16 (addr + 2)
  .ok (lo.toUInt32 ||| (hi.toUInt32 <<< 16))

/-- A pointer, `NULL` being none. -/
def ptrOf (addr : UInt32) : Option UInt32 := if addr = 0 then none else some addr

def mmuRead32Ptr (addr : UInt32) : Except Stop (Option UInt32) := do
  let p ← d.mmuRead32 addr
  .ok (ptrOf p)

/-- What is written to `dst`, which has `room` bytes left. -/
def mmuStrcpy : (room : Nat) → (src : UInt32) → Except Stop (List UInt8)
  | 0, src => do
    let _s ← d.mmuRead8 src
    .error .overflow
  | room + 1, src => do
    let s ← d.mmuRead8 src
    if s ≠ 0 then do
      let rest ← mmuStrcpy room (src + 1)
      .ok (s :: rest)
    else .ok [s]

/-- `&pModuleInfo->module_name` -/
def nameField (p : UInt32) : UInt32 := p + 0x1C

/-- `&pModuleInfo->segments_num` -/
def segmentsNumField (p : UInt32) : UInt32 := p + 0x6C

/-- `&pModuleInfo->segments[i]`, with `filesz`, `memsz` and `vaddr` at 0, 4 and `0xC` -/
def segmentField (p i : UInt32) : UInt32 := p + (0x70 + 0x14 * i)

def printModuleLoadInfo (p : UInt32) : Except Stop ModuleLine := do
  let name ← d.mmuRead32 (nameField p)
  let moduleName ← d.mmuStrcpy 0x20 name
  let segmentsNum ← d.mmuRead32 (segmentsNumField p)
  let vaddr ← d.mmuRead32 (segmentField p 0 + 0xC)
  let memsz ← d.mmuRead32 (segmentField p 0 + 4)
  if segmentsNum < 2 then .ok ⟨moduleName, (vaddr, memsz), none⟩ else do
  let vaddr1 ← d.mmuRead32 (segmentField p 1 + 0xC)
  let filesz1 ← d.mmuRead32 (segmentField p 1)
  let memsz1 ← d.mmuRead32 (segmentField p 1 + 4)
  .ok ⟨moduleName, (vaddr, memsz), some (vaddr1, filesz1, memsz1)⟩

/-- A round of the loop over the modules: the line, and `pModuleInfo->next`. -/
def moduleRound (p : UInt32) : Except Stop (ModuleLine × Option UInt32) := do
  let line ← d.printModuleLoadInfo p
  let next ← d.mmuRead32Ptr p
  .ok (line, next)

/-- `module_start` once the dump has been read, with at most `fuel` rounds of the loop. -/
def moduleStart (fuel : Nat) : Option (Except Stop (List ModuleLine)) :=
  let pProcModuleInfo := load32 d.tzs 0x737A4
  match d.mmuRead32 pProcModuleInfo with
  | .error e => some (.error e)
  | .ok _pid =>
    match d.mmuRead32Ptr (pProcModuleInfo + 0x10) with
    | .error e => some (.error e)
    | .ok pModuleInfo => walkList d.moduleRound fuel pModuleInfo

/-! ### Modules that can be printed -/

/-- The word at `addr` is in the image, through tables in the image. -/
def Readable (addr : UInt32) : Prop := ∃ v, d.mmuRead32 addr = .ok v

/-- The string at `src` ends in its first `0x20` bytes, and can be read up to there. -/
def NameEnds (src : UInt32) : Prop :=
  ∃ n < 0x20, (∀ i < n, ∃ b, b ≠ 0 ∧ d.mmuRead8 (src + UInt32.ofNat i) = .ok b) ∧
    d.mmuRead8 (src + UInt32.ofNat n) = .ok 0

/-- The fields of the module at `p` that are printed can be read, and its name fits the buffer. -/
structure Printable (p : UInt32) : Prop where
  name : ∃ src, d.mmuRead32 (nameField p) = .ok src ∧ d.NameEnds src
  text : d.Readable (segmentField p 0 + 0xC) ∧ d.Readable (segmentField p 0 + 4)
  data : ∃ n, d.mmuRead32 (segmentsNumField p) = .ok n ∧ (2 ≤ n →
    d.Readable (segmentField p 1 + 0xC) ∧ d.Readable (segmentField p 1) ∧ d.Readable (segmentField p 1 + 4))

/-- The `next` pointers, where they can be read. -/
def next (p : UInt32) : Option (Option UInt32) :=
  match d.mmuRead32Ptr p with
  | .error _ => none
  | .ok q => some q

/-- The walk ends, and each name has been copied inside its buffer. -/
def Survives : Prop := ∃ fuel lines, d.moduleStart fuel = some (.ok lines) ∧ ∀ line ∈ lines, line.name.length ≤ 0x20

section
variable {d} {p src : UInt32} {q : Option UInt32} {room : Nat} {line : ModuleLine}

theorem length_mmuStrcpy {bytes : List UInt8} (h : d.mmuStrcpy room src = .ok bytes) : bytes.length ≤ room := by
  induction room generalizing src bytes with
  | zero =>
    obtain ⟨s, -, h⟩ := bind_eq_ok.1 h
    cases h
  | succ room ih =>
    obtain ⟨s, -, h⟩ := bind_eq_ok.1 h
    by_cases hs : s ≠ 0
    · rw [if_pos hs] at h
      obtain ⟨rest, hrest, h⟩ := bind_eq_ok.1 h
      cases h
      exact Nat.succ_le_succ (ih hrest)
    · rw [if_neg hs] at h
      cases h
      simp

theorem mmuStrcpy_ok_iff : (∃ bytes, d.mmuStrcpy room src = .ok bytes) ↔
    ∃ n < room, (∀ i < n, ∃ b, b ≠ 0 ∧ d.mmuRead8 (src + UInt32.ofNat i) = .ok b) ∧
      d.mmuRead8 (src + UInt32.ofNat n) = .ok 0 := by
  induction room generalizing src with
  | zero =>
    constructor
    · rintro ⟨bytes, h⟩
      obtain ⟨s, -, h⟩ := bind_eq_ok.1 h
      cases h
    · rintro ⟨n, hn, -⟩
      omega
  | succ room ih =>
    have hshift : ∀ i, src + 1 + UInt32.ofNat i = src + UInt32.ofNat (i + 1) := by
      intro i
      rw [UInt32.ofNat_add, UInt32.add_assoc, UInt32.add_comm 1]
      rfl
    have hzero : src + UInt32.ofNat 0 = src := UInt32.add_zero src
    rw [mmuStrcpy]
    constructor
    · rintro ⟨bytes, h⟩
      obtain ⟨s, hs, h⟩ := bind_eq_ok.1 h
      by_cases h0 : s ≠ 0
      · rw [if_pos h0] at h
        obtain ⟨rest, hrest, -⟩ := bind_eq_ok.1 h
        obtain ⟨n, hn, hbefore, hnul⟩ := ih.1 ⟨rest, hrest⟩
        refine ⟨n + 1, by omega, fun i hi => ?_, hshift n ▸ hnul⟩
        cases i with
        | zero => exact ⟨s, h0, by rwa [hzero]⟩
        | succ i => exact hshift i ▸ hbefore i (by omega)
      · obtain rfl : s = 0 := by simpa using h0
        exact ⟨0, by omega, by omega, by rwa [hzero]⟩
    · rintro ⟨n, hn, hbefore, hnul⟩
      cases n with
      | zero =>
        rw [hzero] at hnul
        exact ⟨[0], bind_eq_ok.2 ⟨0, hnul, rfl⟩⟩
      | succ n =>
        obtain ⟨s, h0, hs⟩ := hbefore 0 (by omega)
        rw [hzero] at hs
        obtain ⟨rest, hrest⟩ := ih.2 ⟨n, by omega, fun i hi => hshift i ▸ hbefore (i + 1) (by omega), hshift n ▸ hnul⟩
        exact ⟨s :: rest, bind_eq_ok.2 ⟨s, hs, by rw [if_pos h0]; exact bind_eq_ok.2 ⟨rest, hrest, rfl⟩⟩⟩

theorem printable_of_ok (h : d.printModuleLoadInfo p = .ok line) : d.Printable p ∧ line.name.length ≤ 0x20 := by
  obtain ⟨src, hsrc, h⟩ := bind_eq_ok.1 h
  obtain ⟨name, hname, h⟩ := bind_eq_ok.1 h
  obtain ⟨n, hn, h⟩ := bind_eq_ok.1 h
  obtain ⟨vaddr, hvaddr, h⟩ := bind_eq_ok.1 h
  obtain ⟨memsz, hmemsz, h⟩ := bind_eq_ok.1 h
  by_cases hdata : n < 2
  · rw [if_pos hdata] at h
    cases h
    exact ⟨⟨⟨src, hsrc, mmuStrcpy_ok_iff.1 ⟨name, hname⟩⟩, ⟨⟨vaddr, hvaddr⟩, memsz, hmemsz⟩,
      n, hn, fun hle => absurd hdata (UInt32.not_lt.2 hle)⟩, length_mmuStrcpy hname⟩
  · rw [if_neg hdata] at h
    obtain ⟨vaddr1, hvaddr1, h⟩ := bind_eq_ok.1 h
    obtain ⟨filesz1, hfilesz1, h⟩ := bind_eq_ok.1 h
    obtain ⟨memsz1, hmemsz1, h⟩ := bind_eq_ok.1 h
    cases h
    exact ⟨⟨⟨src, hsrc, mmuStrcpy_ok_iff.1 ⟨name, hname⟩⟩, ⟨⟨vaddr, hvaddr⟩, memsz, hmemsz⟩,
      n, hn, fun _ => ⟨⟨vaddr1, hvaddr1⟩, ⟨filesz1, hfilesz1⟩, memsz1, hmemsz1⟩⟩, length_mmuStrcpy hname⟩

theorem Printable.ok (h : d.Printable p) : ∃ line, d.printModuleLoadInfo p = .ok line := by
  obtain ⟨src, hsrc, hname⟩ := h.name
  obtain ⟨name, hname⟩ := mmuStrcpy_ok_iff.2 hname
  obtain ⟨⟨vaddr, hvaddr⟩, memsz, hmemsz⟩ := h.text
  obtain ⟨n, hn, hdata⟩ := h.data
  unfold printModuleLoadInfo
  simp only [hsrc, hname, hn, hvaddr, hmemsz, ok_bind]
  by_cases hlt : n < 2
  · exact ⟨_, if_pos hlt⟩
  · obtain ⟨⟨vaddr1, hvaddr1⟩, ⟨filesz1, hfilesz1⟩, memsz1, hmemsz1⟩ := hdata (UInt32.not_lt.1 hlt)
    simp only [hvaddr1, hfilesz1, hmemsz1, ok_bind]
    exact ⟨_, if_neg hlt⟩

theorem moduleRound_eq_ok : d.moduleRound p = .ok (line, q) ↔
    d.printModuleLoadInfo p = .ok line ∧ d.mmuRead32Ptr p = .ok q := by
  unfold moduleRound
  simp [bind_eq_ok]

theorem next_eq_some : d.next p = some q ↔ d.mmuRead32Ptr p = .ok q := by
  unfold next
  cases d.mmuRead32Ptr p <;> simp

/-- The rounds follow the `next` pointers of modules that can be printed. -/
theorem chain_moduleRound {head : Option UInt32} {modules : List UInt32} :
    Chain (roundNext d.moduleRound) head modules ↔ Chain d.next head modules ∧ ∀ p ∈ modules, d.Printable p := by
  induction modules generalizing head with
  | nil => simp
  | cons p modules ih =>
    rw [Chain.cons_iff, Chain.cons_iff]
    constructor
    · rintro ⟨rfl, q, hq, h⟩
      obtain ⟨line, hround⟩ := roundNext_eq_some.1 hq
      obtain ⟨hline, hnext⟩ := moduleRound_eq_ok.1 hround
      obtain ⟨hchain, hall⟩ := ih.1 h
      exact ⟨⟨rfl, q, next_eq_some.2 hnext, hchain⟩, List.forall_mem_cons.2 ⟨(printable_of_ok hline).1, hall⟩⟩
    · rintro ⟨⟨rfl, q, hq, h⟩, hall⟩
      obtain ⟨hp, hall⟩ := List.forall_mem_cons.1 hall
      obtain ⟨line, hline⟩ := hp.ok
      exact ⟨rfl, q, roundNext_eq_some.2 ⟨line, moduleRound_eq_ok.2 ⟨hline, next_eq_some.1 hq⟩⟩, ih.2 ⟨h, hall⟩⟩

/-- The walk survives exactly the dumps whose pointers make a list that ends, with modules that can be printed. -/
theorem survives_iff : d.Survives ↔
    d.Readable (load32 d.tzs 0x737A4) ∧ ∃ head, d.mmuRead32Ptr (load32 d.tzs 0x737A4 + 0x10) = .ok head ∧
      ∃ modules, Chain d.next head modules ∧ ∀ p ∈ modules, d.Printable p := by
  simp only [← chain_moduleRound]
  unfold Survives moduleStart Readable
  dsimp only
  cases d.mmuRead32 (load32 d.tzs 0x737A4) with
  | error e => simp
  | ok pid =>
    cases d.mmuRead32Ptr (load32 d.tzs 0x737A4 + 0x10) with
    | error e => simp
    | ok head =>
      simp only [Except.ok.injEq, exists_eq', exists_eq_left', true_and, ← walkList_ends_iff]
      refine exists_congr fun fuel => exists_congr fun lines => and_iff_left_of_imp fun h line hline => ?_
      obtain ⟨p, q, hround⟩ := round_of_mem_walkList h hline
      exact (printable_of_ok (moduleRound_eq_ok.1 hround).1).2

end
end Dump

/-- A dump whose addresses are all in its first megabyte, with the bytes `0x40 b b 0x40` over and over. -/
def filled (b : UInt8) : Dump where
  tzs i := if i % 4 = 0 ∨ i % 4 = 3 then 0x40 else b
  ttbr0 _ := 0x40000002
  ttbr1 _ := 0x40000002

/-- The module of `filled 0` is its own `next`. -/
theorem moduleRound_filled : (filled 0).moduleRound 0x40000040 = .ok (⟨[0x40, 0], (0x40000040, 0x40000040),
    some (0x40000040, 0x40000040, 0x40000040)⟩, some 0x40000040) := by
  rfl

/-- A module that is its own `next` keeps the walk going, and a name without an end leaves its buffer. -/
theorem filled_fail : (∀ fuel, (filled 0).moduleStart fuel = none) ∧ ¬ (filled 0).Survives ∧
    (filled 0x40).moduleStart 1 = some (.error .overflow) ∧ ¬ (filled 0x40).Survives := by
  have hcyclic : ∀ fuel, (filled 0).moduleStart fuel = none := by
    intro fuel
    show walkList (filled 0).moduleRound fuel (some 0x40000040) = none
    induction fuel with
    | zero => rfl
    | succ fuel ih =>
      rw [walkList, moduleRound_filled]
      dsimp only
      rw [ih]
      rfl
  have hname : ¬ (filled 0x40).Survives := by
    rintro ⟨fuel, lines, h, -⟩
    cases fuel with
    | zero =>
      have hstart : (filled 0x40).moduleStart 0 = none := by rfl
      cases hstart.symm.trans h
    | succ fuel =>
      have hstart : (filled 0x40).moduleStart (fuel + 1) = some (.error .overflow) := by rfl
      cases hstart.symm.trans h
  refine ⟨hcyclic, ?_, by rfl, hname⟩
  rintro ⟨fuel, lines, h, -⟩
  cases (hcyclic fuel).symm.trans h

end VitaUtility.TtbrParser

import VitaUtility.TtbrParser.ModuleWalk

/-!
# The modules of the dumped system

The dump is the memory of another system. What is at a virtual address of it is what its processor reads there; in this
memory is the list of its modules, which is what the program prints.
-/

namespace VitaUtility.TtbrParser

open ShortDescriptor

/-- A module: its name, `vaddr` and `memsz` of its text, and `vaddr`, `filesz` and `memsz` of its data if it has any. -/
structure Module where
  name : List UInt8
  text : UInt32 × UInt32
  data : Option (UInt32 × UInt32 × UInt32)

def Module.line (m : Module) : ModuleLine := ⟨m.name ++ [0], m.text, m.data⟩

/-! ### Words -/

section
variable {h k : UInt16} {b c : UInt8} {p : Mem} {n : Nat}

theorem toNat_half : (b.toUInt16 ||| c.toUInt16 <<< 8).toNat = b.toNat + 2 ^ 8 * c.toNat := by
  have hb := b.toNat_lt
  have hc := c.toNat_lt
  have hshift : (c.toUInt16 <<< 8).toNat = c.toNat <<< 8 := by
    rw [UInt16.toNat_shiftLeft]
    show (c.toNat <<< 8) % 2 ^ 16 = _
    rw [Nat.shiftLeft_eq]
    omega
  rw [UInt16.toNat_or, hshift, UInt8.toNat_toUInt16, Nat.or_comm, ← Nat.shiftLeft_add_eq_or_of_lt hb, Nat.shiftLeft_eq]
  omega

theorem toNat_word : (h.toUInt32 ||| k.toUInt32 <<< 16).toNat = h.toNat + 2 ^ 16 * k.toNat := by
  have hh := h.toNat_lt
  have hk := k.toNat_lt
  have hshift : (k.toUInt32 <<< 16).toNat = k.toNat <<< 16 := by
    rw [UInt32.toNat_shiftLeft]
    show (k.toNat <<< 16) % 2 ^ 32 = _
    rw [Nat.shiftLeft_eq]
    omega
  rw [UInt32.toNat_or, hshift, UInt16.toNat_toUInt32, Nat.or_comm, ← Nat.shiftLeft_add_eq_or_of_lt hh, Nat.shiftLeft_eq]
  omega

theorem toNat_leBits_succ : (leBits (n + 1) p).toNat = (p 0).toNat + 2 ^ 8 * (leBits n fun i => p (i + 1)).toNat := by
  have hb := (p 0).toNat_lt
  rw [leBits, BitVec.toNat_append]
  show _ <<< 8 ||| (p 0).toNat = _
  rw [← Nat.shiftLeft_add_eq_or_of_lt hb, Nat.shiftLeft_eq]
  omega

/-- A word is put together from two halves, and these from two bytes each. -/
theorem word_of_bytes {b₀ b₁ b₂ b₃ : UInt8} (h₀ : p 0 = b₀) (h₁ : p 1 = b₁) (h₂ : p 2 = b₂) (h₃ : p 3 = b₃) :
    (b₀.toUInt16 ||| b₁.toUInt16 <<< 8).toUInt32 ||| ((b₂.toUInt16 ||| b₃.toUInt16 <<< 8).toUInt32 <<< 16) = wordOf p := by
  subst h₀ h₁ h₂ h₃
  rw [← UInt32.toNat_inj, toNat_word, toNat_half, toNat_half]
  show _ = (leBits 4 p).toNat
  simp only [toNat_leBits_succ]
  simp [leBits]
  omega

end

namespace Dump

section
variable (d : Dump)

/-- The byte that the processor reads at a virtual address, if it is in the image. -/
def guestByte (addr : UInt32) : Option UInt8 :=
  match d.translation addr with
  | .at p => if InImage p then some (d.tzs (p.toNat - 0x40000000)) else none
  | _ => none

def HoldsWord (addr v : UInt32) : Prop := ∀ i < 4, d.guestByte (addr + UInt32.ofNat i) = some (byteOf v i)

def HoldsPointer (addr : UInt32) (p : Option UInt32) : Prop := d.HoldsWord addr (p.getD 0) ∧ p ≠ some 0

/-- A C string. -/
def HoldsString : (src : UInt32) → List UInt8 → Prop
  | src, [] => d.guestByte src = some 0
  | src, c :: s => c ≠ 0 ∧ d.guestByte src = some c ∧ HoldsString (src + 1) s

/-- There is the module `m` at `p`, with the next one at `next`. -/
structure ModuleAt (p : UInt32) (next : Option UInt32) (m : Module) : Prop where
  next : d.HoldsPointer p next
  name : ∃ src, d.HoldsWord (nameField p) src ∧ d.HoldsString src m.name
  short : m.name.length < 0x20
  text : d.HoldsWord (segmentField p 0 + 0xC) m.text.1 ∧ d.HoldsWord (segmentField p 0 + 4) m.text.2
  segmentsNum : ∃ n, d.HoldsWord (segmentsNumField p) n ∧ (n < 2 ↔ m.data = none)
  data : ∀ x, m.data = some x → d.HoldsWord (segmentField p 1 + 0xC) x.1 ∧ d.HoldsWord (segmentField p 1) x.2.1 ∧
    d.HoldsWord (segmentField p 1 + 4) x.2.2

/-- The process has the modules. -/
def HasModules (modules : List Module) : Prop :=
  ∃ pid head, d.HoldsWord (load32 d.tzs 0x737A4) pid ∧ d.HoldsPointer (load32 d.tzs 0x737A4 + 0x10) head ∧
    Lists d.ModuleAt head modules

end

/-! ### Reads -/

section
variable {d : Dump} {addr p src v : UInt32} {q : Option UInt32} {b : UInt8} {room fuel : Nat} {bytes : List UInt8}
  {line : ModuleLine} {lines : List ModuleLine}

theorem mmuRead8_eq_ok_iff (hs : ¬ d.InSupersection addr) : d.mmuRead8 addr = .ok b ↔ d.guestByte addr = some b := by
  have hpts : Points (d.InSupersection addr) (d.translation addr) (d.mmuPointer addr) := points
  unfold guestByte
  generalize hT : d.translation addr = T at hpts
  generalize hP : d.mmuPointer addr = P at hpts
  cases hpts with
  | fault => simp [mmuRead8_of_error hP]
  | noTable a off => simp [mmuRead8_of_error hP]
  | supersection p off h => exact absurd h hs
  | block p off _ hp hoff =>
    have himage : off.toNat < imageSize ↔ InImage p := by
      rw [hoff]
      exact offsetOf_add_le_iff (n := 1) hp
    rw [mmuRead8_of_ok hP, byteAt_eq_ok, himage]
    by_cases hin : InImage p
    · simp [hin, hoff, offsetOf_of_inImage hin]
    · simp [hin]

variable (hs : ∀ addr, ¬ d.InSupersection addr)
include hs

theorem mmuRead32_eq_ok_iff : d.mmuRead32 addr = .ok v ↔ d.HoldsWord addr v := by
  have hread : ∀ a c, d.mmuRead8 a = .ok c ↔ d.guestByte a = some c := fun a c => mmuRead8_eq_ok_iff (hs a)
  have hsum : addr + 2 + 1 = addr + 3 := UInt32.add_assoc addr 2 1
  constructor
  · intro h
    obtain ⟨lo, hlo, h⟩ := bind_eq_ok.1 h
    obtain ⟨hi, hhi, h⟩ := bind_eq_ok.1 h
    obtain ⟨b₀, h₀, hlo⟩ := bind_eq_ok.1 hlo
    obtain ⟨b₁, h₁, hlo⟩ := bind_eq_ok.1 hlo
    obtain ⟨b₂, h₂, hhi⟩ := bind_eq_ok.1 hhi
    obtain ⟨b₃, h₃, hhi⟩ := bind_eq_ok.1 hhi
    cases hlo
    cases hhi
    cases h
    rw [hsum] at h₃
    intro i hi
    rw [@word_of_bytes (fun i => [b₀, b₁, b₂, b₃].getD i 0) b₀ b₁ b₂ b₃ rfl rfl rfl rfl, byteOf_wordOf hi]
    rcases i with _ | _ | _ | _ | i
    · simpa using (hread _ _).1 h₀
    · exact (hread _ _).1 h₁
    · exact (hread _ _).1 h₂
    · exact (hread _ _).1 h₃
    · omega
  · intro h
    have hbyte : ∀ i < 4, d.mmuRead8 (addr + UInt32.ofNat i) = .ok (byteOf v i) := fun i hi => (hread _ _).2 (h i hi)
    have h₀ : d.mmuRead8 addr = .ok (byteOf v 0) := by simpa using hbyte 0 (by omega)
    have hword : wordOf (byteOf v) = v := UInt32.eq_of_toBitVec_eq (leBits_of_bytes fun i _ => rfl)
    refine bind_eq_ok.2 ⟨_, bind_eq_ok.2 ⟨_, h₀, bind_eq_ok.2 ⟨_, hbyte 1 (by omega), rfl⟩⟩, ?_⟩
    refine bind_eq_ok.2 ⟨_, bind_eq_ok.2 ⟨_, hbyte 2 (by omega), bind_eq_ok.2 ⟨byteOf v 3, ?_, rfl⟩⟩, ?_⟩
    · exact hsum ▸ hbyte 3 (by omega)
    · rw [word_of_bytes rfl rfl rfl rfl, hword]

theorem mmuRead32Ptr_eq_ok_iff : d.mmuRead32Ptr addr = .ok q ↔ d.HoldsPointer addr q := by
  unfold HoldsPointer
  rw [← mmuRead32_eq_ok_iff hs]
  constructor
  · intro h
    obtain ⟨v, hv, h⟩ := bind_eq_ok.1 h
    unfold ptrOf at h
    split_ifs at h with h0
    · cases h
      subst h0
      exact ⟨hv, by simp⟩
    · cases h
      exact ⟨hv, by simpa using h0⟩
  · rintro ⟨hv, hne⟩
    refine bind_eq_ok.2 ⟨_, hv, ?_⟩
    cases q with
    | none => rfl
    | some a =>
      have ha : a ≠ 0 := by simpa using hne
      simp [ptrOf, ha]

theorem mmuStrcpy_eq_ok_iff : d.mmuStrcpy room src = .ok bytes ↔
    ∃ name, bytes = name ++ [0] ∧ name.length < room ∧ d.HoldsString src name := by
  induction room generalizing src bytes with
  | zero =>
    constructor
    · intro h
      obtain ⟨s, -, h⟩ := bind_eq_ok.1 h
      cases h
    · rintro ⟨name, -, hlen, -⟩
      omega
  | succ room ih =>
    constructor
    · intro h
      obtain ⟨s, hread, h⟩ := bind_eq_ok.1 h
      have hbyte := (mmuRead8_eq_ok_iff (hs src)).1 hread
      by_cases h0 : s ≠ 0
      · rw [if_pos h0] at h
        obtain ⟨rest, hrest, h⟩ := bind_eq_ok.1 h
        cases h
        obtain ⟨name, rfl, hlen, hname⟩ := ih.1 hrest
        exact ⟨s :: name, rfl, Nat.succ_lt_succ hlen, h0, hbyte, hname⟩
      · rw [if_neg h0] at h
        cases h
        obtain rfl := not_not.1 h0
        exact ⟨[], rfl, Nat.succ_pos room, hbyte⟩
    · rintro ⟨name, rfl, hlen, hname⟩
      cases name with
      | nil => exact bind_eq_ok.2 ⟨0, (mmuRead8_eq_ok_iff (hs src)).2 hname, rfl⟩
      | cons c name =>
        obtain ⟨h0, hbyte, hname⟩ := hname
        have hrest := ih.2 ⟨name, rfl, Nat.lt_of_succ_lt_succ hlen, hname⟩
        refine bind_eq_ok.2 ⟨c, (mmuRead8_eq_ok_iff (hs src)).2 hbyte, ?_⟩
        rw [if_pos h0]
        exact bind_eq_ok.2 ⟨_, hrest, rfl⟩

/-! ### Modules -/

theorem printModuleLoadInfo_eq_ok_iff : d.printModuleLoadInfo p = .ok line ↔ ∃ m : Module, line = m.line ∧
    (∃ src, d.HoldsWord (nameField p) src ∧ d.HoldsString src m.name) ∧ m.name.length < 0x20 ∧
    (d.HoldsWord (segmentField p 0 + 0xC) m.text.1 ∧ d.HoldsWord (segmentField p 0 + 4) m.text.2) ∧
    (∃ n, d.HoldsWord (segmentsNumField p) n ∧ (n < 2 ↔ m.data = none)) ∧
    ∀ x, m.data = some x → d.HoldsWord (segmentField p 1 + 0xC) x.1 ∧ d.HoldsWord (segmentField p 1) x.2.1 ∧
      d.HoldsWord (segmentField p 1 + 4) x.2.2 := by
  have hword : ∀ {a w}, d.mmuRead32 a = .ok w ↔ d.HoldsWord a w := mmuRead32_eq_ok_iff hs
  constructor
  · intro h
    obtain ⟨src, hsrc, h⟩ := bind_eq_ok.1 h
    obtain ⟨bytes, hbytes, h⟩ := bind_eq_ok.1 h
    obtain ⟨n, hn, h⟩ := bind_eq_ok.1 h
    obtain ⟨vaddr, hvaddr, h⟩ := bind_eq_ok.1 h
    obtain ⟨memsz, hmemsz, h⟩ := bind_eq_ok.1 h
    obtain ⟨name, rfl, hlen, hname⟩ := (mmuStrcpy_eq_ok_iff hs).1 hbytes
    have hsrc' := (⟨src, hword.1 hsrc, hname⟩ : ∃ src, d.HoldsWord (nameField p) src ∧ d.HoldsString src name)
    by_cases hdata : n < 2
    · rw [if_pos hdata] at h
      cases h
      exact ⟨⟨name, (vaddr, memsz), none⟩, rfl, hsrc', hlen, ⟨hword.1 hvaddr, hword.1 hmemsz⟩,
        ⟨n, hword.1 hn, iff_of_true hdata rfl⟩, by simp⟩
    · rw [if_neg hdata] at h
      obtain ⟨vaddr₁, hvaddr₁, h⟩ := bind_eq_ok.1 h
      obtain ⟨filesz₁, hfilesz₁, h⟩ := bind_eq_ok.1 h
      obtain ⟨memsz₁, hmemsz₁, h⟩ := bind_eq_ok.1 h
      cases h
      refine ⟨⟨name, (vaddr, memsz), some (vaddr₁, filesz₁, memsz₁)⟩, rfl, hsrc', hlen, ⟨hword.1 hvaddr, hword.1 hmemsz⟩,
        ⟨n, hword.1 hn, iff_of_false hdata (by simp)⟩, fun x hx => ?_⟩
      cases hx
      exact ⟨hword.1 hvaddr₁, hword.1 hfilesz₁, hword.1 hmemsz₁⟩
  · rintro ⟨m, rfl, ⟨src, hsrc, hname⟩, hlen, ⟨hvaddr, hmemsz⟩, ⟨n, hn, hnum⟩, hdata⟩
    have hbytes := (mmuStrcpy_eq_ok_iff hs).2 ⟨m.name, rfl, hlen, hname⟩
    unfold printModuleLoadInfo
    simp only [hword.2 hsrc, hbytes, hword.2 hn, hword.2 hvaddr, hword.2 hmemsz, ok_bind]
    cases hx : m.data with
    | none =>
      rw [if_pos (hnum.2 hx), Module.line, hx]
    | some x =>
      have hlt : ¬ n < 2 := by simp [hnum, hx]
      obtain ⟨hvaddr₁, hfilesz₁, hmemsz₁⟩ := hdata x hx
      rw [if_neg hlt]
      simp only [hword.2 hvaddr₁, hword.2 hfilesz₁, hword.2 hmemsz₁, ok_bind]
      rw [Module.line, hx]

theorem moduleRound_eq_ok_iff : d.moduleRound p = .ok (line, q) ↔ ∃ m, line = m.line ∧ d.ModuleAt p q m := by
  rw [moduleRound_eq_ok, printModuleLoadInfo_eq_ok_iff hs, mmuRead32Ptr_eq_ok_iff hs]
  constructor
  · rintro ⟨⟨m, hline, hname, hlen, htext, hnum, hdata⟩, hnext⟩
    exact ⟨m, hline, hnext, hname, hlen, htext, hnum, hdata⟩
  · rintro ⟨m, hline, h⟩
    exact ⟨⟨m, hline, h.name, h.short, h.text, h.segmentsNum, h.data⟩, h.next⟩

/-- In a dump without supersections the program comes to its end exactly when the process has a list of modules, and
then it has printed these. -/
theorem moduleStart_lists_iff : d.moduleStart fuel = some (.ok lines) ↔
    ∃ modules, d.HasModules modules ∧ lines = modules.map Module.line ∧ modules.length ≤ fuel := by
  have hwalk : ∀ head, walkList d.moduleRound fuel head = some (.ok lines) ↔
      ∃ modules, Lists d.ModuleAt head modules ∧ lines = modules.map Module.line ∧ modules.length ≤ fuel := by
    intro head
    rw [walkList_eq_ok_iff, Lists.congr fun a q b => moduleRound_eq_ok_iff hs, lists_map]
    constructor
    · rintro ⟨⟨modules, rfl, h⟩, hn⟩
      exact ⟨modules, h, rfl, by simpa using hn⟩
    · rintro ⟨modules, h, rfl, hn⟩
      exact ⟨⟨modules, rfl, h⟩, by simpa using hn⟩
  unfold moduleStart HasModules
  dsimp only
  constructor
  · intro h
    cases hpid : d.mmuRead32 (load32 d.tzs 0x737A4) with
    | error e =>
      rw [hpid] at h
      cases h
    | ok pid =>
      cases hhead : d.mmuRead32Ptr (load32 d.tzs 0x737A4 + 0x10) with
      | error e =>
        rw [hpid, hhead] at h
        cases h
      | ok head =>
        rw [hpid, hhead] at h
        obtain ⟨modules, hlist, hlines, hn⟩ := (hwalk head).1 h
        exact ⟨modules, ⟨pid, head, (mmuRead32_eq_ok_iff hs).1 hpid, (mmuRead32Ptr_eq_ok_iff hs).1 hhead, hlist⟩, hlines, hn⟩
  · rintro ⟨modules, ⟨pid, head, hpid, hhead, hlist⟩, hlines, hn⟩
    rw [(mmuRead32_eq_ok_iff hs).2 hpid, (mmuRead32Ptr_eq_ok_iff hs).2 hhead]
    exact (hwalk head).2 ⟨modules, hlist, hlines, hn⟩

end
end Dump

/-- A dump of a process with a module `a` that has a text but no data; the image is at its physical place. -/
def oneModule : Dump where
  tzs
    | 0x737A5 => 1
    | 0x737A7 => 0x40
    | 0x111 => 2
    | 0x113 => 0x40
    | 0x21D => 3
    | 0x21F => 0x40
    | 0x300 => 0x61
    | 0x26C => 1
    | 0x275 => 0x10
    | 0x27D => 0x80
    | _ => 0
  ttbr0 _ := 0x40000002
  ttbr1 _ := 0x40000002

theorem not_inSupersection_oneModule (addr : UInt32) : ¬ oneModule.InSupersection addr := by
  have hfirst : oneModule.firstLevel addr = 0x40000002 := by
    unfold Dump.firstLevel Dump.tableFor
    split_ifs <;> rfl
  have hsect : FirstLevel.decode (0x40000002 : UInt32).toBitVec = .sect 0x400 := by decide
  rintro ⟨base, hbase⟩
  rw [hfirst, hsect] at hbase
  cases hbase

theorem moduleStart_lists_oneModule : oneModule.moduleStart 1 = some (.ok [⟨[0x61, 0], (0x8000, 0x1000), none⟩]) := by
  have hword : ∀ addr v, (∀ i < 4, oneModule.guestByte (addr + UInt32.ofNat i) = some (byteOf v i)) →
      oneModule.HoldsWord addr v := fun _ _ h => h
  have hend : oneModule.guestByte (0x40000300 + 1) = some 0 := by decide
  have hname : oneModule.HoldsString 0x40000300 [0x61] := ⟨by decide, by decide, hend⟩
  have hat : oneModule.ModuleAt 0x40000200 none ⟨[0x61], (0x8000, 0x1000), none⟩ := {
    next := ⟨hword _ _ (by decide), by simp⟩
    name := ⟨0x40000300, hword _ _ (by decide), hname⟩
    short := by simp
    text := ⟨hword _ _ (by decide), hword _ _ (by decide)⟩
    segmentsNum := ⟨1, hword _ _ (by decide), by simp⟩
    data := by simp }
  have hproc : load32 oneModule.tzs 0x737A4 = 0x40000100 := by decide
  have hhas : oneModule.HasModules [⟨[0x61], (0x8000, 0x1000), none⟩] := by
    refine ⟨0, some 0x40000200, ?_, ⟨?_, by simp⟩, _, none, rfl, hat, rfl⟩ <;> rw [hproc] <;> exact hword _ _ (by decide)
  exact (Dump.moduleStart_lists_iff not_inSupersection_oneModule).2 ⟨_, hhas, rfl, by simp⟩

end VitaUtility.TtbrParser

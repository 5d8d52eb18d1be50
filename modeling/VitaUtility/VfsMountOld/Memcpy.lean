import VitaUtility.VfsMountOld.CpuS

/-!
# `my_memcpy` (`cpu.S`)

It copies bytes until the destination is at a word, words until it is at a line, then lines, by one of two loops, and at last
the words, the halfword and the byte that are left. `r2` is the number of bytes that are left, less 32.
-/

namespace VitaUtility.VfsMountOld
open Thumb
open Thumb.Reg Thumb.Op Thumb.Address

/-! ### What a piece of the code copies -/

/-- `n` bytes from `r1` to `r0`. -/
structure Copies (s t : Machine) (n : Nat) : Prop where
  sp : t.reg sp = s.reg sp
  mem : t.mem = memcpyAt s.mem (s.reg r0).toNat (fun i => s.mem ((s.reg r1).toNat + i)) n
  trace : ∃ evs, t.trace = s.trace ++ evs ∧ ∀ e ∈ evs, e.Within (s.reg r1).toNat n

/-- With both registers behind them. -/
structure Moves (s t : Machine) (n : Nat) : Prop extends Copies s t n where
  r0 : t.reg r0 = s.reg r0 + UInt32.ofNat n
  r1 : t.reg r1 = s.reg r1 + UInt32.ofNat n

structure Stays (s t : Machine) : Prop where
  sp : t.reg sp = s.reg sp
  mem : t.mem = s.mem
  trace : t.trace = s.trace
  r0 : t.reg r0 = s.reg r0
  r1 : t.reg r1 = s.reg r1

section
variable {C : Loaded} {s t : Machine} {Q : UInt32 → Machine → Prop}

/-- A load from `r1` and a store to `r0`. -/
theorem copies_loadStore {w : Nat} {v : UInt32} (hw : w ≤ 4) (hsp : t.reg sp = s.reg sp)
    (hmem : t.mem = storeN w s.mem (s.reg r0).toNat (loadN w s.mem (s.reg r1).toNat))
    (htrace : t.trace = s.trace ++ [.load (s.reg r1) w, .store (s.reg r0) v]) : Copies s t w where
  sp := hsp
  mem := hmem.trans (storeN_loadN hw)
  trace := ⟨_, htrace, by simp [Event.Within]⟩

/-! ### The blocks -/

/-- Bytes until `r0` is at a word. -/
theorem loc_810000E8_runs
    (hgo : (s.reg r0).toNat % 4 ≠ 0 → ∀ t, Moves s t 1 → t.reg r2 = s.reg r2 → C.Runs .loc_810000E8 t Q)
    (hstop : (s.reg r0).toNat % 4 = 0 → ∀ t, Stays s t → t.reg r2 = s.reg r2 → C.Runs .loc_810000FE t Q) :
    C.Runs .loc_810000E8 s Q := by
  have hcode : C.env.code .loc_810000E8 = (lsls r3 r0 0x1e : Instr _) :: .bc .eq .loc_810000FE ::
      (ldrb r3 (post r1 1) : Instr _) :: (strb r3 (post r0 1) : Instr _) :: .b .loc_810000E8 ::
      C.env.code .loc_810000F6 := rfl
  have hzero : s.reg r0 <<< 30 = 0 ↔ (s.reg r0).toNat % 4 = 0 := @shiftLeft_eq_zero _ 30 (by decide)
  rw [Loaded.Runs, hcode]
  simp
  refine ⟨fun hz => hstop (hzero.1 hz) _ ⟨rfl, rfl, rfl, rfl, rfl⟩ rfl, fun hz => ?_⟩
  exact hgo (mt hzero.2 hz) _ ⟨copies_loadStore (by decide) rfl rfl rfl, rfl, rfl⟩ rfl

/-- Words until `r0` is at a line; then it is compared with where the last line would start, and `r1` decides the loop. -/
theorem loc_810000FE_runs
    (hgo : (s.reg r0).toNat % 32 ≠ 0 → ∀ t, Moves s t 4 → t.reg r2 = s.reg r2 → C.Runs .loc_810000FE t Q)
    (hless : (s.reg r0).toNat % 32 = 0 → s.reg r2 < s.reg r0 → ∀ t, Stays s t → t.reg r2 = s.reg r2 - s.reg r0 →
      C.Runs .loc_81000122 t Q)
    (hword : (s.reg r0).toNat % 32 = 0 → ¬ s.reg r2 < s.reg r0 → (s.reg r1).toNat % 4 = 0 → ∀ t, Stays s t →
      t.reg r2 = s.reg r2 - s.reg r0 → C.Runs .loc_8100010A t Q)
    (hbyte : (s.reg r0).toNat % 32 = 0 → ¬ s.reg r2 < s.reg r0 → (s.reg r1).toNat % 4 ≠ 0 → ∀ t, Stays s t →
      t.reg r2 = s.reg r2 - s.reg r0 → C.Runs .loc_81000146 t Q) : C.Runs .loc_810000FE s Q := by
  have hcode : C.env.code .loc_810000FE = (lsls r3 r0 0x1b : Instr _) :: .bc .ne .loc_810000F6 ::
      (subs r2 r2 r0 : Instr _) :: .bc .lo .loc_81000122 :: (lsls r3 r1 0x1e : Instr _) :: .bc .ne .loc_81000146 ::
      C.env.code .loc_8100010A := rfl
  have hword' : C.env.code .loc_810000F6 = (ldr ip (post r1 4) : Instr _) :: (str ip (post r0 4) : Instr _) ::
      C.env.code .loc_810000FE := rfl
  have hline : s.reg r0 <<< 27 = 0 ↔ (s.reg r0).toNat % 32 = 0 := @shiftLeft_eq_zero _ 27 (by decide)
  have hsrc : s.reg r1 <<< 30 = 0 ↔ (s.reg r1).toNat % 4 = 0 := @shiftLeft_eq_zero _ 30 (by decide)
  rw [Loaded.Runs, hcode]
  simp
  refine ⟨fun hz => ⟨fun hlt => ?_, fun hlt => ⟨fun hs => ?_, fun hs => ?_⟩⟩, fun hz => ?_⟩
  · exact hless (hline.1 hz) hlt _ ⟨rfl, rfl, rfl, rfl, rfl⟩ rfl
  · exact hword (hline.1 hz) hlt (hsrc.1 hs) _ ⟨rfl, rfl, rfl, rfl, rfl⟩ rfl
  · exact hbyte (hline.1 hz) hlt (mt hsrc.2 hs) _ ⟨rfl, rfl, rfl, rfl, rfl⟩ rfl
  · rw [hword']
    simp
    exact hgo (mt hline.2 hz) _ ⟨copies_loadStore (by decide) rfl rfl rfl, rfl, rfl⟩ rfl

/-- A line by word registers and `d0`, `d1`. -/
theorem loc_8100010A_runs (h0 : (s.reg r0).toNat % 4 = 0) (h1 : (s.reg r1).toNat % 4 = 0)
    (hdst : (s.reg r0).toNat + 32 ≤ 2 ^ 32) (hsrc : (s.reg r1).toNat + 32 ≤ 2 ^ 32)
    (hgo : 0x20 ≤ s.reg r2 → ∀ t, Moves s t 32 → t.reg r2 = s.reg r2 - 0x20 → C.Runs .loc_8100010A t Q)
    (hstop : ¬ 0x20 ≤ s.reg r2 → ∀ t, Moves s t 32 → t.reg r2 = s.reg r2 - 0x20 → C.Runs .loc_81000122 t Q) :
    C.Runs .loc_8100010A s Q := by
  have hcode : C.env.code .loc_8100010A = (ldm r1 [r3, r4, ip, lr] : Instr _) :: (pld : Instr _) ::
      (vldmia r1 [0, 1] : Instr _) :: (subs r2 r2 0x20 : Instr _) :: (stm r0 [r3, r4, ip, lr] : Instr _) ::
      (vstmia r0 [0, 1] : Instr _) :: .bc .hs .loc_8100010A :: C.env.code .loc_81000122 := rfl
  have hsrc16 : (s.reg r1 + UInt32.ofNat 16).toNat = (s.reg r1).toNat + 16 := Machine.toNat_add_ofNat (by omega)
  have hdst16 : (s.reg r0 + UInt32.ofNat 16).toNat = (s.reg r0).toNat + 16 := Machine.toNat_add_ofNat (by omega)
  rw [Loaded.Runs, hcode]
  refine ends_ldm h1 (by decide) (by decide) (Nat.le_trans (Nat.add_le_add_left (by decide) _) hsrc) fun s₁ h₁ => ?_
  refine ends_op.2 ⟨s₁, rfl, ?_⟩
  have hr1 : s₁.reg r1 = s.reg r1 + UInt32.ofNat 16 := h₁.base
  refine ends_vldmia (by rw [hr1, hsrc16]; omega) (by decide) (by decide)
    (by rw [hr1, hsrc16]; exact Nat.le_trans (Nat.le_of_eq (Nat.add_assoc _ 16 16)) hsrc) fun s₂ h₂ => ?_
  refine ends_subs fun s₃ hr2 hreg₃ hmem₃ htrace₃ hc₃ => ?_
  have hr0 : s₃.reg r0 = s.reg r0 := by
    rw [hreg₃ r0 (by decide), h₂.reg r0 (by decide) (by decide), h₁.reg r0 (by decide) (by decide)]
  refine ends_stm (by rw [hr0, h0]) fun s₄ h₄ => ?_
  have hr0' : s₄.reg r0 = s.reg r0 + UInt32.ofNat 16 := h₄.base.trans (by rw [hr0]; rfl)
  refine ends_vstmia (by rw [hr0', hdst16]; omega) fun s₅ h₅ => ?_
  rw [ends_bc]
  -- the registers are stored as they were loaded
  have hwords : ∀ q ∈ [r3, r4, ip, lr], q ≠ r2 ∧ q ≠ r1 ∧ q ∉ halves [0, 1] := by decide
  have hhalves : ∀ q ∈ halves [0, 1], q ≠ r0 ∧ q ≠ r2 := by decide
  have hfirst : s₃.Holds [r3, r4, ip, lr] s.mem (s.reg r1).toNat := h₁.holds.congr fun q hq => by
    obtain ⟨hq2, hq1, hqs⟩ := hwords q hq
    rw [hreg₃ q hq2, h₂.reg q hq1 hqs]
  have hsecond : s₄.Holds (halves [0, 1]) s₁.mem (s₁.reg r1).toNat := h₂.holds.congr fun q hq => by
    obtain ⟨hq0, hq2⟩ := hhalves q hq
    rw [h₄.reg q hq0, hreg₃ q hq2]
  have hmem : s₅.mem = memcpyAt s.mem (s.reg r0).toNat (fun i => s.mem ((s.reg r1).toNat + i)) (16 + 16) := by
    rw [h₅.mem, hsecond.mem_storeRegs (by rw [hr0', hdst16]; exact Nat.le_trans (Nat.le_of_eq (Nat.add_assoc _ 16 16)) hdst),
      h₄.mem, hfirst.mem_storeRegs (by rw [hr0]; exact Nat.le_trans (Nat.add_le_add_left (by decide) _) hdst), hmem₃, h₂.mem,
      h₁.mem, hr0', hr0, hdst16, hr1, hsrc16]
    simp only [Nat.add_assoc (s.reg r1).toNat 16]
    exact memcpyAt_add
  obtain ⟨evs₁, htrace₁, hwithin₁⟩ := h₁.trace
  obtain ⟨evs₂, htrace₂, hwithin₂⟩ := h₂.trace
  rw [hr1, hsrc16] at hwithin₂
  have hmoves : Moves s s₅ 32 := by
    refine ⟨⟨?_, hmem, evs₁ ++ evs₂, ?_, fun e he => ?_⟩, ?_, ?_⟩
    · rw [h₅.reg sp (by decide), h₄.reg sp (by decide), hreg₃ sp (by decide), h₂.reg sp (by decide) (by decide),
        h₁.reg sp (by decide) (by decide)]
    · rw [h₅.trace, h₄.trace, htrace₃, htrace₂, htrace₁, List.append_assoc]
    · rcases List.mem_append.1 he with he | he
      · exact (hwithin₁ e he).mono (Nat.le_refl _) (Nat.add_le_add_left (by decide) _)
      · exact (hwithin₂ e he).mono (Nat.le_add_right _ _) (Nat.le_of_eq (Nat.add_assoc _ 16 16))
    · rw [h₅.base, hr0', UInt32.add_assoc]
      rfl
    · rw [h₅.reg r1 (by decide), h₄.reg r1 (by decide), hreg₃ r1 (by decide), h₂.base, hr1, UInt32.add_assoc]
      rfl
  have hcount : s₂.reg r2 = s.reg r2 := by
    rw [h₂.reg r2 (by decide) (by decide), h₁.reg r2 (by decide) (by decide)]
  have hr2' : s₅.reg r2 = s.reg r2 - 0x20 := by
    rw [h₅.reg r2 (by decide), h₄.reg r2 (by decide), hr2, hcount]
    rfl
  have hc : s₅.c = decide (0x20 ≤ s.reg r2) := by
    rw [h₅.c, h₄.c, hc₃, hcount]
    rfl
  exact ⟨fun h => hgo (of_decide_eq_true (hc.symm.trans h)) s₅ hmoves hr2',
    fun h => hstop (fun hle => h (hc.trans (decide_eq_true hle))) s₅ hmoves hr2'⟩

/-- A line by `d0` to `d3`, from anywhere. -/
theorem loc_81000146_runs (h0 : (s.reg r0).toNat % 4 = 0) (hdst : (s.reg r0).toNat + 32 ≤ 2 ^ 32)
    (hsrc : (s.reg r1).toNat + 32 ≤ 2 ^ 32)
    (hgo : 0x20 ≤ s.reg r2 → ∀ t, Moves s t 32 → t.reg r2 = s.reg r2 - 0x20 → C.Runs .loc_81000146 t Q)
    (hstop : ¬ 0x20 ≤ s.reg r2 → ∀ t, Moves s t 32 → t.reg r2 = s.reg r2 - 0x20 → C.Runs .loc_81000122 t Q) :
    C.Runs .loc_81000146 s Q := by
  have hcode : C.env.code .loc_81000146 = (vld1 r1 [0, 1, 2, 3] : Instr _) :: (pld : Instr _) ::
      (subs r2 r2 0x20 : Instr _) :: (vstmia r0 [0, 1, 2, 3] : Instr _) :: .bc .hs .loc_81000146 :: .b .loc_81000122 ::
      (nop : Instr _) :: (nop : Instr _) :: C.env.code .sceKernelCpuDcacheCleanMVACRange := rfl
  rw [Loaded.Runs, hcode]
  refine ends_vld1 (by decide) (by decide) hsrc fun s₁ h₁ => ?_
  refine ends_op.2 ⟨s₁, rfl, ?_⟩
  refine ends_subs fun s₂ hr2 hreg₂ hmem₂ htrace₂ hc₂ => ?_
  have hr0 : s₂.reg r0 = s.reg r0 := by rw [hreg₂ r0 (by decide), h₁.reg r0 (by decide) (by decide)]
  refine ends_vstmia (by rw [hr0, h0]) fun s₃ h₃ => ?_
  rw [ends_bc, ends_b]
  have hhalves : ∀ q ∈ halves [0, 1, 2, 3], q ≠ r2 := by decide
  have hholds : s₂.Holds (halves [0, 1, 2, 3]) s.mem (s.reg r1).toNat :=
    h₁.holds.congr fun q hq => hreg₂ q (hhalves q hq)
  obtain ⟨evs, htrace, hwithin⟩ := h₁.trace
  have hmoves : Moves s s₃ 32 := by
    refine ⟨⟨?_, ?_, evs, ?_, hwithin⟩, ?_, ?_⟩
    · rw [h₃.reg sp (by decide), hreg₂ sp (by decide), h₁.reg sp (by decide) (by decide)]
    · rw [h₃.mem, hholds.mem_storeRegs (by rw [hr0]; exact hdst), hmem₂, h₁.mem, hr0]
      rfl
    · rw [h₃.trace, htrace₂, htrace]
    · rw [h₃.base, hr0]
      rfl
    · rw [h₃.reg r1 (by decide), hreg₂ r1 (by decide), h₁.base]
      rfl
  have hcount : s₁.reg r2 = s.reg r2 := h₁.reg r2 (by decide) (by decide)
  have hr2' : s₃.reg r2 = s.reg r2 - 0x20 := by
    rw [h₃.reg r2 (by decide), hr2, hcount]
    rfl
  have hc : s₃.c = decide (0x20 ≤ s.reg r2) := by
    rw [h₃.c, hc₂, hcount]
    rfl
  exact ⟨fun h => hgo (of_decide_eq_true (hc.symm.trans h)) s₃ hmoves hr2',
    fun h => hstop (fun hle => h (hc.trans (decide_eq_true hle))) s₃ hmoves hr2'⟩

/-- What the count is when there are no more lines. -/
theorem loc_81000122_runs
    (hgo : 0 ≤ sint (s.reg r2) + sint 0x1c → ∀ t, Stays s t → t.reg r2 = s.reg r2 + 0x1c → C.Runs .loc_81000126 t Q)
    (hless : ¬ 0 ≤ sint (s.reg r2) + sint 0x1c → ∀ t, Stays s t → t.reg r2 = s.reg r2 + 0x1c → C.Runs .loc_81000132 t Q) :
    C.Runs .loc_81000122 s Q := by
  have hcode : C.env.code .loc_81000122 = (adds r2 r2 0x1c : Instr _) :: .bc .lt .loc_81000132 ::
      C.env.code .loc_81000126 := rfl
  rw [Loaded.Runs, hcode]
  simp
  exact ⟨fun hc => hgo hc _ ⟨rfl, rfl, rfl, rfl, rfl⟩ rfl, fun hc => hless hc _ ⟨rfl, rfl, rfl, rfl, rfl⟩ rfl⟩

/-- Words at the end. -/
theorem loc_81000126_runs
    (hgo : sint 4 ≤ sint (s.reg r2) → ∀ t, Moves s t 4 → t.reg r2 = s.reg r2 - 4 → C.Runs .loc_81000126 t Q)
    (hstop : ¬ sint 4 ≤ sint (s.reg r2) → ∀ t, Moves s t 4 → t.reg r2 = s.reg r2 - 4 → C.Runs .loc_81000132 t Q) :
    C.Runs .loc_81000126 s Q := by
  have hcode : C.env.code .loc_81000126 = (ldr ip (post r1 4) : Instr _) :: (subs r2 r2 4 : Instr _) ::
      (str ip (post r0 4) : Instr _) :: .bc .ge .loc_81000126 :: C.env.code .loc_81000132 := rfl
  rw [Loaded.Runs, hcode]
  simp
  exact ⟨fun hc => hgo hc _ ⟨copies_loadStore (by decide) rfl rfl rfl, rfl, rfl⟩ rfl,
    fun hc => hstop hc _ ⟨copies_loadStore (by decide) rfl rfl rfl, rfl, rfl⟩ rfl⟩

/-- A halfword, and whether there is a byte: the low bits of `r2` say it. -/
theorem loc_81000132_runs
    (hnone : (s.reg r2).toNat.testBit 1 = false → ∀ t, Stays s t → (t.n = true ↔ (s.reg r2).toNat % 2 = 1) →
      C.Runs .loc_8100013E t Q)
    (hhalf : ¬ (s.reg r2).toNat.testBit 1 = false → ∀ t, Moves s t 2 → (t.n = true ↔ (s.reg r2).toNat % 2 = 1) →
      C.Runs .loc_8100013E t Q) :
    C.Runs .loc_81000132 s Q := by
  have hcode : C.env.code .loc_81000132 = (lsls r3 r2 0x1f : Instr _) :: .bc .lo .loc_8100013E ::
      (ldrh r3 (post r1 2) : Instr _) :: (strh r3 (post r0 2) : Instr _) :: C.env.code .loc_8100013E := rfl
  rw [Loaded.Runs, hcode]
  simp
  constructor
  · exact fun hc => hnone hc _ ⟨rfl, rfl, rfl, rfl, rfl⟩ (by simp [sint_shiftLeft_neg])
  · exact fun hc => hhalf hc _ ⟨copies_loadStore (by decide) rfl rfl rfl, rfl, rfl⟩ (by simp [sint_shiftLeft_neg])

theorem loc_8100013E_runs (hnone : s.n = false → C.Runs .loc_81000144 s Q)
    (hbyte : ¬ s.n = false → ∀ t, Copies s t 1 → C.Runs .loc_81000144 t Q) : C.Runs .loc_8100013E s Q := by
  have hcode : C.env.code .loc_8100013E = .bc .pl .loc_81000144 :: (ldrb r3 (off r1 0) : Instr _) ::
      (strb r3 (off r0 0) : Instr _) :: C.env.code .loc_81000144 := rfl
  rw [Loaded.Runs, hcode]
  simp
  exact ⟨hnone, fun hc => hbyte hc _ (copies_loadStore (by decide) rfl rfl rfl)⟩

/-- The stack while it runs: three words on it. -/
structure Pushed (s t : Machine) : Prop where
  sp : t.reg sp = s.reg sp - 12
  r0 : t.reg r0 = s.reg r0
  r1 : t.reg r1 = s.reg r1
  mem : t.mem = (s.storeRegs (s.reg .sp - 12) [.r0, r4, lr]).mem
  trace : t.trace = s.trace

theorem my_memcpy_runs
    (hless : s.reg r2 < 0x20 → ∀ t, Pushed s t → t.reg r2 = s.reg r2 - 0x20 → C.Runs .loc_81000122 t Q)
    (hgo : ¬ s.reg r2 < 0x20 → ∀ t, Pushed s t → t.reg r2 = s.reg r2 - 0x20 + s.reg r0 → C.Runs .loc_810000E8 t Q) :
    C.Runs .my_memcpy s Q := by
  have hcode : C.env.code .my_memcpy = (push [r0, r4, lr] : Instr _) :: (subs r2 r2 0x20 : Instr _) ::
      .bc .lo .loc_81000122 :: (adds r2 r2 r0 : Instr _) :: C.env.code .loc_810000E8 := rfl
  rw [Loaded.Runs, hcode]
  simp
  refine ⟨fun hc => hless hc _ ⟨rfl, ?_, ?_, rfl, ?_⟩ ?_, fun hc => hgo hc _ ⟨rfl, ?_, ?_, rfl, ?_⟩ ?_⟩ <;> simp

theorem loc_81000144_runs (h : ∀ t, t.reg r0 = loadN 4 s.mem (s.reg sp).toNat → t.mem = s.mem → t.trace = s.trace →
    Q (loadN 4 s.mem (s.reg sp + 8).toNat) t) : C.Runs .loc_81000144 s Q :=
  ends_popPc (h _ rfl rfl rfl)

end

/-! ### The copy -/

/-- `len` bytes at `r1` and at `r0`, that do not overlap. -/
structure Ranges (u : Machine) (len : Nat) : Prop where
  dst : (u.reg r0).toNat + len ≤ 2 ^ 32
  src : (u.reg r1).toNat + len ≤ 2 ^ 32
  disjoint : (u.reg r0).toNat + len ≤ (u.reg r1).toNat ∨ (u.reg r1).toNat + len ≤ (u.reg .r0).toNat

section
variable {u s t : Machine} {len k n : Nat}

theorem Moves.toNat_r0 (h : Moves u s k) (hR : Ranges u len) (hk : k < len) : (s.reg .r0).toNat = (u.reg .r0).toNat + k := by
  have hdst := hR.dst
  rw [h.r0]
  exact Machine.toNat_add_ofNat (by omega)

theorem Moves.toNat_r1 (h : Moves u s k) (hR : Ranges u len) (hk : k < len) : (s.reg .r1).toNat = (u.reg .r1).toNat + k := by
  have hsrc := hR.src
  rw [h.r1]
  exact Machine.toNat_add_ofNat (by omega)

theorem Moves.stays (h : Moves u s k) (ht : Stays s t) : Moves u t k where
  sp := ht.sp.trans h.sp
  mem := ht.mem.trans h.mem
  trace := by
    rw [ht.trace]
    exact h.trace
  r0 := ht.r0.trans h.r0
  r1 := ht.r1.trans h.r1

/-- What is copied next has not been changed. -/
theorem Moves.copies (h : Moves u s k) (hR : Ranges u len) (ht : Copies s t n) (hn : 0 < n) (hlen : k + n ≤ len) :
    Copies u t (k + n) := by
  have hr0 := h.toNat_r0 hR (by omega)
  have hr1 := h.toNat_r1 hR (by omega)
  have hdisjoint := hR.disjoint
  refine ⟨ht.sp.trans h.sp, ?_, ?_⟩
  · have hbytes : ∀ i < n, s.mem ((s.reg .r1).toNat + i) = u.mem ((u.reg .r1).toNat + (k + i)) := by
      intro i hi
      rw [h.mem, hr1, Nat.add_assoc]
      exact if_neg (by omega)
    rw [ht.mem, memcpyAt_congr hbytes, hr0, h.mem]
    exact @memcpyAt_add u.mem (fun i => u.mem ((u.reg .r1).toNat + i)) _ k n
  · obtain ⟨evs, htrace, hwithin⟩ := h.trace
    obtain ⟨evs', htrace', hwithin'⟩ := ht.trace
    refine ⟨evs ++ evs', by rw [htrace', htrace, List.append_assoc], fun e he => ?_⟩
    rcases List.mem_append.1 he with he | he
    · exact (hwithin e he).mono (Nat.le_refl _) (by omega)
    · exact (hwithin' e he).mono (by omega) (by omega)

theorem Moves.trans (h : Moves u s k) (hR : Ranges u len) (ht : Moves s t n) (hn : 0 < n) (hlen : k + n ≤ len) :
    Moves u t (k + n) where
  toCopies := h.copies hR ht.toCopies hn hlen
  r0 := by rw [ht.r0, h.r0, UInt32.add_assoc, UInt32.ofNat_add]
  r1 := by rw [ht.r1, h.r1, UInt32.add_assoc, UInt32.ofNat_add]

end

section
variable {C : Loaded} {u s : Machine} {len k a : Nat} {Q : UInt32 → Machine → Prop} (hR : Ranges u len)
  (hend : ∀ t, Copies u t len → C.Runs .loc_81000144 t Q)
include hR hend

theorem byte_runs (h : Moves u s k) (hk : k ≤ len) (hlt : len - k < 2) (hn : s.n = true ↔ len - k = 1) :
    C.Runs .loc_8100013E s Q := by
  refine loc_8100013E_runs (fun hz => ?_) fun hz t ht => ?_
  · obtain rfl : k = len := by
      rw [hz] at hn
      simp only [Bool.false_eq_true, false_iff] at hn
      omega
    exact hend s h.toCopies
  · have hone : len - k = 1 := hn.1 (by simpa using hz)
    have hcopies := h.copies hR ht (by decide) (by omega)
    rw [show k + 1 = len by omega] at hcopies
    exact hend t hcopies

theorem halfword_runs (h : Moves u s k) (hk : k ≤ len) (hlt : len - k < 4) (hr2 : (s.reg r2).toNat % 4 = len - k) :
    C.Runs .loc_81000132 s Q := by
  have hbit : (s.reg r2).toNat.testBit 1 = false ↔ len - k < 2 := by
    rw [Nat.testBit_eq_decide_div_mod_eq, decide_eq_false_iff_not]
    omega
  refine loc_81000132_runs (fun hz t ht hn => ?_) fun hz t ht hn => ?_
  · rw [hbit] at hz
    exact byte_runs hR hend (h.stays ht) hk hz (hn.trans (by omega))
  · rw [hbit] at hz
    exact byte_runs hR hend (h.trans hR ht (by decide) (by omega)) (by omega) (by omega) (hn.trans (by omega))

/-- A word is left; `r2` is how much there is behind it. -/
theorem words_runs {n : Nat} (h : Moves u s k) (hlen : k + 4 + n = len) (hlt : n < 28) (hr2 : (s.reg r2).toNat = n) :
    C.Runs .loc_81000126 s Q := by
  induction n using Nat.strongRecOn generalizing s k with
  | ind n ih =>
    have hfour : sint 4 = 4 := rfl
    have hsub : ((s.reg r2) - 4).toNat = (2 ^ 32 - 4 + n) % 2 ^ 32 := by rw [UInt32.toNat_sub, hr2]; rfl
    have hsint : sint (s.reg r2) = n := by rcases sint_cases (s.reg r2) with h | h <;> omega
    refine loc_81000126_runs (fun hc t ht ht2 => ?_) fun hc t ht ht2 => ?_
    · rw [hsint, hfour] at hc
      exact ih (n - 4) (by omega) (h.trans hR ht (by decide) (by omega)) (by omega) (by omega) (by rw [ht2, hsub]; omega)
    · rw [hsint, hfour] at hc
      exact halfword_runs hR hend (h.trans hR ht (by decide) (by omega)) (by omega) (by omega) (by rw [ht2, hsub]; omega)

theorem tail_runs {n : Nat} (h : Moves u s k) (hlen : k + n = len) (hlt : n < 32) (hr2 : (s.reg r2).toNat + 32 = n + 2 ^ 32) :
    C.Runs .loc_81000122 s Q := by
  have hoff : sint 0x1c = 28 := rfl
  have hadd : (s.reg r2 + 0x1c).toNat = ((s.reg r2).toNat + 28) % 2 ^ 32 := UInt32.toNat_add _ _
  have hsint : sint (s.reg r2) = n - 32 := by rcases sint_cases (s.reg r2) with h | h <;> omega
  refine loc_81000122_runs (fun hc t ht ht2 => ?_) fun hc t ht ht2 => ?_
  · rw [hsint, hoff] at hc
    refine @words_runs _ _ _ _ _ _ hR hend (n - 4) (h.stays ht) (by omega) (by omega) ?_
    rw [ht2, hadd]
    omega
  · rw [hsint, hoff] at hc
    refine halfword_runs hR hend (h.stays ht) (by omega) (by omega) ?_
    rw [ht2, hadd]
    omega

/-- A line is left; `r2` is how much there is behind it. `P` is what a loop over lines needs of the source. -/
theorem lines_runs {l : CpuLabel} {P : Nat → Prop} {n : Nat} (hP : ∀ x, P x → P (x + 32))
    (hblock : ∀ s, (s.reg r0).toNat % 4 = 0 → P (s.reg r1).toNat → (s.reg r0).toNat + 32 ≤ 2 ^ 32 →
      (s.reg r1).toNat + 32 ≤ 2 ^ 32 →
      (0x20 ≤ s.reg r2 → ∀ t, Moves s t 32 → t.reg r2 = s.reg r2 - 0x20 → C.Runs l t Q) →
      (¬ 0x20 ≤ s.reg r2 → ∀ t, Moves s t 32 → t.reg r2 = s.reg r2 - 0x20 → C.Runs .loc_81000122 t Q) → C.Runs l s Q)
    (h : Moves u s k) (hlen : k + 32 + n = len) (hr2 : (s.reg r2).toNat = n) (h0 : ((u.reg r0).toNat + k) % 4 = 0)
    (h1 : P ((u.reg r1).toNat + k)) : C.Runs l s Q := by
  induction n using Nat.strongRecOn generalizing s k with
  | ind n ih =>
    have hr0 := h.toNat_r0 hR (by omega)
    have hr1 := h.toNat_r1 hR (by omega)
    have hdst := hR.dst
    have hsrc := hR.src
    have hsub : (s.reg r2 - 0x20).toNat = (2 ^ 32 - 32 + n) % 2 ^ 32 := by rw [UInt32.toNat_sub, hr2]; rfl
    have hline : 0x20 ≤ s.reg r2 ↔ 32 ≤ n := by rw [UInt32.le_iff_toNat_le, hr2]; rfl
    refine hblock s (by rw [hr0]; exact h0) (by rw [hr1]; exact h1) (by omega) (by omega) (fun hc t ht ht2 => ?_)
      fun hc t ht ht2 => ?_
    · rw [hline] at hc
      exact ih (n - 32) (by omega) (h.trans hR ht (by decide) (by omega)) (by omega) (by rw [ht2, hsub]; omega) (by omega)
        (hP _ h1)
    · rw [hline] at hc
      exact @tail_runs _ _ _ _ _ _ hR hend n (h.trans hR ht (by decide) (by omega)) (by omega) (by omega)
        (by rw [ht2, hsub]; omega)

/-- Words, while `r0` is not at the line that starts `a` bytes on; `r2` is where `r0` would be with a line left. -/
theorem align_runs (h : Moves u s k) (hka : k ≤ a) (hline : ((u.reg r0).toNat + a) % 32 = 0) (ha : a < 32) (hlen : 32 ≤ len)
    (hr2 : (s.reg r2).toNat + 32 = (u.reg r0).toNat + len) (h4 : ((u.reg r0).toNat + k) % 4 = 0) :
    C.Runs .loc_810000FE s Q := by
  obtain ⟨m, hm⟩ := Nat.exists_eq_add_of_le hka
  induction m using Nat.strongRecOn generalizing s k with
  | ind m ih =>
    have hr0 := h.toNat_r0 hR (by omega)
    have hr1 := h.toNat_r1 hR (by omega)
    have hdst := hR.dst
    have hless : s.reg r2 < s.reg r0 ↔ (s.reg r2).toNat < (s.reg r0).toNat := UInt32.lt_iff_toNat_lt
    have hsub : (s.reg r2 - s.reg r0).toNat = (2 ^ 32 - (s.reg r0).toNat + (s.reg r2).toNat) % 2 ^ 32 := UInt32.toNat_sub _ _
    refine loc_810000FE_runs (fun hz t ht ht2 => ?_) (fun hz hlt t ht ht2 => ?_) (fun hz hlt hs t ht ht2 => ?_)
      fun hz hlt _ t ht ht2 => ?_
    · exact ih (m - 4) (by omega) (h.trans hR ht (by decide) (by omega)) (by omega) (by rw [ht2, hr2]) (by omega) (by omega)
    · rw [hless] at hlt
      exact @tail_runs _ _ _ _ _ _ hR hend (len - k) (h.stays ht) (by omega) (by omega) (by rw [ht2, hsub]; omega)
    · rw [hless] at hlt
      rw [hr1] at hs
      refine @lines_runs _ _ _ _ _ _ hR hend _ (fun x => x % 4 = 0) (len - k - 32) (fun x hx => by omega) ?_ (h.stays ht)
        (by omega) (by rw [ht2, hsub]; omega) h4 hs
      exact fun s h0 h1 hd hs => loc_8100010A_runs h0 h1 hd hs
    · rw [hless] at hlt
      refine @lines_runs _ _ _ _ _ _ hR hend _ (fun _ => True) (len - k - 32) (fun _ _ => trivial) ?_ (h.stays ht) (by omega)
        (by rw [ht2, hsub]; omega) h4 trivial
      exact fun s h0 _ hd hs => loc_81000146_runs h0 hd hs

/-- Before them bytes, while it is not at a word. -/
theorem start_runs (h : Moves u s k) (hka : k ≤ a) (hline : ((u.reg r0).toNat + a) % 32 = 0) (ha : a < 32) (hlen : 32 ≤ len)
    (hr2 : (s.reg r2).toNat + 32 = (u.reg r0).toNat + len) : C.Runs .loc_810000E8 s Q := by
  obtain ⟨m, hm⟩ := Nat.exists_eq_add_of_le hka
  induction m using Nat.strongRecOn generalizing s k with
  | ind m ih =>
    have hr0 := h.toNat_r0 hR (by omega)
    refine loc_810000E8_runs (fun hz t ht ht2 => ?_) fun hz t ht ht2 => ?_
    · exact ih (m - 1) (by omega) (h.trans hR ht (by decide) (by omega)) (by omega) (by rw [ht2, hr2]) (by omega)
    · exact align_runs hR hend (h.stays ht) hka hline ha hlen (by rw [ht2, hr2]) (by omega)

end

/-- A call of `my_memcpy(dst, src, len)`: the ranges do not wrap around and do not overlap, and the words that are pushed are
in neither of them. -/
structure MemcpyCall (s : Machine) : Prop extends Ranges s (s.reg r2).toNat where
  stack : (s.reg sp - 12).toNat + 12 ≤ 2 ^ 32
  stackDst : (s.reg sp - 12).toNat + 12 ≤ (s.reg .r0).toNat ∨
    (s.reg .r0).toNat + (s.reg r2).toNat ≤ (s.reg sp - 12).toNat
  stackSrc : (s.reg sp - 12).toNat + 12 ≤ (s.reg r1).toNat ∨ (s.reg r1).toNat + (s.reg r2).toNat ≤ (s.reg sp - 12).toNat

/-- It returns `dst` to its caller, with the bytes of the source there. -/
structure MemcpyReturns (s : Machine) (pc : UInt32) (t : Machine) : Prop where
  pc : pc = s.reg lr
  r0 : t.reg r0 = s.reg r0
  copied : ∀ i < (s.reg r2).toNat, t.mem ((s.reg .r0).toNat + i) = s.mem ((s.reg r1).toNat + i)
  kept : ∀ x, ¬ ((s.reg .r0).toNat ≤ x ∧ x < (s.reg .r0).toNat + (s.reg r2).toNat) →
    ¬ ((s.reg sp - 12).toNat ≤ x ∧ x < (s.reg sp - 12).toNat + 12) → t.mem x = s.mem x
  loads : ∃ evs, t.trace = s.trace ++ evs ∧ ∀ e ∈ evs, e.Within (s.reg r1).toNat (s.reg r2).toNat

section
variable {C : Loaded} {s u t : Machine}

/-- The words that are pushed are still there when they are popped. -/
theorem memcpy_returns (h : MemcpyCall s) (hu : Pushed s u) (ht : Copies u t (s.reg r2).toNat) :
    C.Runs .loc_81000144 t (MemcpyReturns s) := by
  obtain ⟨⟨hdst, hsrc, hdisjoint⟩, hstack, hstackDst, hstackSrc⟩ := h
  obtain ⟨hsp, hmem, htrace⟩ := ht
  rw [hu.r0, hu.r1] at hmem
  rw [hu.trace, hu.r1] at htrace
  rw [hu.sp] at hsp
  -- outside the words on the stack nothing is pushed, and outside the destination nothing is copied
  have hpush : ∀ x, x < (s.reg sp - 12).toNat ∨ (s.reg sp - 12).toNat + 12 ≤ x → u.mem x = s.mem x := fun x hx => by
    rw [hu.mem]
    exact Machine.mem_storeRegs_of_disjoint hstack hx
  have hcopy : ∀ x, x < (s.reg r0).toNat ∨ (s.reg r0).toNat + (s.reg r2).toNat ≤ x → t.mem x = u.mem x := fun x hx => by
    rw [hmem]
    exact if_neg (by omega)
  have hword : ∀ i (hi : i < 3), loadN 4 t.mem ((s.reg sp - 12).toNat + 4 * i) = s.reg [r0, r4, lr][i] := fun i hi => by
    rw [← @Machine.loadN_storeRegs s (s.reg sp - 12) [r0, r4, lr] i hstack hi, ← hu.mem]
    exact loadN_congr fun j hj => hcopy _ (by omega)
  have hlr : (s.reg sp - 12 + 8).toNat = (s.reg sp - 12).toNat + 8 := @Machine.toNat_add_ofNat _ 8 (by omega)
  refine loc_81000144_runs fun v hr0 hvmem hvtrace => ?_
  rw [hsp] at hr0 ⊢
  rw [hlr]
  refine ⟨hword 2 (by decide), hr0.trans (hword 0 (by decide)), fun i hi => ?_, fun x hx hxs => ?_, ?_⟩
  · have hbyte : t.mem ((s.reg r0).toNat + i) = u.mem ((s.reg r1).toNat + i) := by
      rw [hmem, memcpyAt, if_pos (by omega), Nat.add_sub_cancel_left]
    rw [hvmem, hbyte, hpush _ (by omega)]
  · rw [hvmem, hcopy x (by omega), hpush x (by omega)]
  · rw [hvtrace]
    exact htrace

/-- All the bytes are copied with the three words on the stack. -/
theorem my_memcpy_moves {Q : UInt32 → Machine → Prop} (h : MemcpyCall s)
    (hend : ∀ u t, Pushed s u → Copies u t (s.reg r2).toNat → C.Runs .loc_81000144 t Q) : C.Runs .my_memcpy s Q := by
  have hmoves : ∀ t, Moves t t 0 := fun t =>
    ⟨⟨rfl, memcpyAt_zero.symm, [], (List.append_nil _).symm, nofun⟩, (UInt32.add_zero _).symm, (UInt32.add_zero _).symm⟩
  have hranges : ∀ t, Pushed s t → Ranges t (s.reg r2).toNat := fun t ht =>
    ⟨by rw [ht.r0]; exact h.dst, by rw [ht.r1]; exact h.src, by rw [ht.r0, ht.r1]; exact h.disjoint⟩
  have hline : s.reg r2 < 0x20 ↔ (s.reg r2).toNat < 32 := UInt32.lt_iff_toNat_lt
  have hsub : (s.reg r2 - 0x20).toNat = (2 ^ 32 - 32 + (s.reg r2).toNat) % 2 ^ 32 := UInt32.toNat_sub _ _
  have hlt := (s.reg r2).toNat_lt
  have hdst := h.dst
  refine my_memcpy_runs (fun hc t ht ht2 => ?_) fun hc t ht ht2 => ?_
  · rw [hline] at hc
    exact tail_runs (hranges t ht) (fun v hv => hend t v ht hv) (hmoves t) (Nat.zero_add _) hc
      (by rw [ht2, hsub]; omega)
  · rw [hline] at hc
    refine @start_runs _ _ _ _ _ ((32 - (t.reg r0).toNat % 32) % 32) _ (hranges t ht) (fun v hv => hend t v ht hv)
      (hmoves t) (Nat.zero_le _) (by omega) (by omega) (by omega) ?_
    rw [ht2, ht.r0, UInt32.toNat_add, hsub]
    omega

/-- `my_memcpy` returns, has copied the bytes, and has touched no others. -/
theorem my_memcpy_copies (C : Loaded) (s : Machine) (h : MemcpyCall s) : C.Runs .my_memcpy s (MemcpyReturns s) :=
  my_memcpy_moves h fun _ _ hu ht => memcpy_returns h hu ht

end

theorem my_memcpy_hundred :
    Loaded.Runs ⟨0, fun _ => 0, fun _ => none⟩ .my_memcpy
      ((((idleMachine.set r0 0x1003).set r1 0x2001).set r2 100).set sp 0x8000)
      (MemcpyReturns ((((idleMachine.set r0 0x1003).set r1 0x2001).set r2 100).set sp 0x8000)) :=
  my_memcpy_copies _ _ ⟨⟨by decide, by decide, by decide⟩, by decide, by decide, by decide⟩

end VitaUtility.VfsMountOld

import VitaUtility.VfsMountOld.Cache

/-!
# Writeback of the second level cache (`cpu.S`)

The cache is told physical lines: the range is cut into pages, each page is translated, and its lines are stored to a register
of the cache.
-/

namespace VitaUtility.VfsMountOld
open Thumb
open Thumb.Reg Thumb.Op Thumb.Address

/-- The register at `0x7F0` of the cache. -/
def Loaded.l2Reg (C : Loaded) (m : Mem) : UInt32 := loadN 4 m C.l2CacheRegBase.toNat + 0x7f0

/-! ### `sub_8102403C` -/

section
variable {C : Loaded} {s : Machine} {Q : UInt32 → Machine → Prop}

/-- What a round of its loop does. -/
structure L2Round (s t : Machine) : Prop where
  r0 : t.reg r0 = s.reg r0 + 0x20
  r1 : t.reg r1 = s.reg r1 - 0x20
  reg : ∀ q, q ≠ .r0 → q ≠ .r1 → t.reg q = s.reg q
  mem : t.mem = storeN 4 s.mem (s.reg r2 + 0x7f0).toNat (s.reg .r0)
  trace : t.trace = s.trace ++ [.store (s.reg r2 + 0x7f0) (s.reg .r0)]

theorem loc_81024052_runs
    (hgo : ¬ s.reg r1 - 0x20 = 0 ∧ sint 0x20 ≤ sint (s.reg r1) → ∀ t, L2Round s t → C.Runs .loc_81024052 t Q)
    (hstop : ¬ (¬ s.reg r1 - 0x20 = 0 ∧ sint 0x20 ≤ sint (s.reg r1)) → ∀ t, L2Round s t → Q (t.reg lr) t) :
    C.Runs .loc_81024052 s Q := by
  have hcode : C.env.code .loc_81024052 = (str r0 (off r2 0x7f0) : Instr _) :: (adds r0 r0 0x20 : Instr _) ::
      (subs r1 r1 0x20 : Instr _) :: .bc .gt .loc_81024052 :: (dmb : Instr _) :: .bxLr :: [] := rfl
  rw [Loaded.Runs, hcode]
  simp
  refine ⟨fun hc => hgo hc _ ⟨rfl, rfl, fun q h0 h1 => ?_, ?_, rfl⟩,
    fun hc => ends_bxLr (hstop hc _ ⟨rfl, rfl, fun q h0 h1 => ?_, ?_, rfl⟩)⟩ <;> simp [*]

/-- What is stored at the register, and what else is left as it was. -/
structure L2Stores (x : UInt32) (s t : Machine) (L : List UInt32) : Prop where
  reg : ∀ q, q ∉ [r0, r1, r2, r3] → t.reg q = s.reg q
  mem : ∀ a, a < x.toNat ∨ x.toNat + 4 ≤ a → t.mem a = s.mem a
  stores : StoresAt x s t L

theorem L2Round.stores {s t : Machine} (h : L2Round s t) : L2Stores (s.reg r2 + 0x7f0) s t [s.reg .r0] where
  reg q hq := h.reg q (List.ne_of_not_mem_cons hq) (List.ne_of_not_mem_cons (List.not_mem_of_not_mem_cons hq))
  mem a ha := by
    rw [h.mem]
    exact if_neg (by omega)
  stores := ⟨_, h.trace, by simp [Event.storedAt]⟩

theorem L2Stores.trans {x : UInt32} {s t u : Machine} {L L' : List UInt32} (h : L2Stores x s t L) (h' : L2Stores x t u L') :
    L2Stores x s u (L ++ L') where
  reg q hq := (h'.reg q hq).trans (h.reg q hq)
  mem a ha := (h'.mem a ha).trans (h.mem a ha)
  stores := h.stores.trans h'.stores

theorem toNat_sub_line (x : UInt32) : (x - 0x20).toNat = (2 ^ 32 - 32 + x.toNat) % 2 ^ 32 := UInt32.toNat_sub _ _

/-- The loop ends with the last 32 bytes. -/
theorem line_gt {x : UInt32} (hx : x.toNat < 2 ^ 31) : ¬ x - 0x20 = 0 ∧ sint 0x20 ≤ sint x ↔ 32 < x.toNat := by
  have hsint : sint x = x.toNat := if_pos hx
  have h32 : sint 0x20 = 32 := rfl
  rw [← UInt32.toNat_inj, toNat_sub_line, hsint, h32, show (0 : UInt32).toNat = 0 from rfl]
  omega

/-- It stores a line for every 32 bytes that `r1` starts. -/
theorem l2Lines_ends {m : Nat} (hlo : 32 * m < (s.reg r1).toNat) (hhi : (s.reg r1).toNat ≤ 32 * m + 32)
    (hlt : (s.reg r1).toNat < 2 ^ 31) : C.Runs .loc_81024052 s fun pc t => pc = s.reg lr ∧
      L2Stores (s.reg r2 + 0x7f0) s t ((List.range (m + 1)).map fun i => s.reg r0 + UInt32.ofNat (0x20 * i)) := by
  induction m generalizing s with
  | zero =>
    refine loc_81024052_runs (fun hc => ?_) fun hc t ht => ⟨ht.reg lr (by decide) (by decide), ?_⟩
    · rw [line_gt hlt] at hc
      omega
    · simpa using ht.stores
  | succ m ih =>
    refine loc_81024052_runs (fun hc t ht => ?_) fun hc => ?_
    · have hr1 : (t.reg r1).toNat = (s.reg r1).toNat - 32 := by
        rw [ht.r1, toNat_sub_line]
        omega
      have hr2 : t.reg r2 = s.reg r2 := ht.reg r2 (by decide) (by decide)
      have hshift : ∀ i, t.reg r0 + UInt32.ofNat (0x20 * i) = s.reg r0 + UInt32.ofNat (0x20 * (i + 1)) := by
        intro i
        rw [ht.r0, Nat.mul_succ, Nat.add_comm, UInt32.ofNat_add, UInt32.add_assoc]
        rfl
      refine (@ih t (by omega) (by omega) (by omega)).mono fun pc u hrest => ?_
      obtain ⟨hpc, hu⟩ := hrest
      rw [hr2, List.map_congr_left fun i _ => hshift i] at hu
      have hstores := ht.stores.trans hu
      refine ⟨hpc.trans (ht.reg lr (by decide) (by decide)), ?_⟩
      rw [@List.range_succ_eq_map (m + 1), List.map_cons, List.map_map, Nat.mul_zero, show UInt32.ofNat 0 = 0 from rfl,
        UInt32.add_zero]
      exact hstores
    · rw [line_gt hlt] at hc
      omega

/-- It begins with the line of `r0`. -/
theorem sub_8102403C_runs (hr1 : s.reg r1 ≠ 0) (h : ∀ t, t.reg r0 = s.reg r0 &&& ~~~ (0x1f : UInt32) →
      t.reg r1 = s.reg r1 + (s.reg r0 &&& (0x1f : UInt32)) → t.reg r2 = loadN 4 s.mem C.l2CacheRegBase.toNat →
      (∀ q, q ∉ [r0, r1, r2, r3] → t.reg q = s.reg q) → t.mem = s.mem →
      t.trace = s.trace ++ [.load C.l2CacheRegBase 4] → C.Runs .loc_81024052 t Q) : C.Runs .sub_8102403C s Q := by
  have hcode : C.env.code .sub_8102403C = .cbz r1 .loc_81024060 :: (movw r2 (C.l2CacheRegBase &&& (0xFFFF : UInt32)) : Instr _) ::
      (movt r2 (C.l2CacheRegBase >>> (16 : UInt32)) : Instr _) :: (ldr r2 (off r2 0) : Instr _) ::
      (Thumb.Op.and r3 r0 0x1f : Instr _) :: (bic r0 r0 0x1f : Instr _) :: (adds r1 r1 r3 : Instr _) ::
      C.env.code .loc_81024052 := rfl
  rw [Loaded.Runs, hcode, ends_cbz, branch_neg hr1, ends_movw_movt]
  simp
  refine h _ rfl rfl rfl (fun q hq => ?_) rfl rfl
  simp only [List.mem_cons, List.not_mem_nil, or_false, not_or] at hq
  simp [hq]

/-- `sub_8102403C` stores the lines of a piece of a page. -/
theorem sub_8102403C_ends (hpos : 0 < (s.reg r1).toNat) (hpage : (s.reg r0).toNat % 4096 + (s.reg r1).toNat ≤ 4096) :
    C.Runs .sub_8102403C s fun pc t => pc = s.reg lr ∧
      L2Stores (C.l2Reg s.mem) s t ((lines (s.reg r0).toNat (s.reg r1).toNat).map UInt32.ofNat) := by
  refine sub_8102403C_runs (fun hz => ?_) fun t h0 h1 h2 hreg hmem htrace => ?_
  · rw [hz] at hpos
    exact absurd hpos (by decide)
  · have hlow : (s.reg r0 &&& 0x1f).toNat = (s.reg r0).toNat % 2 ^ 5 := toNat_and_low rfl
    have hhigh : (s.reg r0 &&& ~~~ 0x1f).toNat = (s.reg r0).toNat / 32 * 32 := @toNat_and_high _ _ 5 rfl
    have hr1 : (t.reg r1).toNat = (s.reg r1).toNat + (s.reg r0).toNat % 32 := by
      rw [h1, UInt32.toNat_add, hlow]
      omega
    refine (@l2Lines_ends C t (((t.reg r1).toNat - 1) / 32) (by omega) (by omega) (by omega)).mono fun pc u hloop => ?_
    obtain ⟨hpc, hu⟩ := hloop
    have hstart : L2Stores (C.l2Reg s.mem) s t [] := ⟨hreg, fun a _ => congrFun hmem a, _, htrace, rfl⟩
    have hlines : (List.range (((t.reg r1).toNat - 1) / 32 + 1)).map (fun i => t.reg r0 + UInt32.ofNat (0x20 * i)) =
        (lines (s.reg r0).toNat (s.reg r1).toNat).map UInt32.ofNat := by
      rw [lines_eq hpos, List.map_map, show ((s.reg r0).toNat + (s.reg r1).toNat - 1) / 32 + 1 - (s.reg r0).toNat / 32 =
        ((t.reg r1).toNat - 1) / 32 + 1 by omega]
      refine List.map_congr_left fun i _ => ?_
      rw [Function.comp_apply, Nat.mul_add, UInt32.ofNat_add, Nat.mul_comm 32 ((s.reg r0).toNat / 32), ← hhigh, UInt32.ofNat_toNat,
        h0]
    rw [h2, hlines] at hu
    exact ⟨hpc.trans (hreg lr (by decide)), hstart.trans hu⟩
end

/-! ### Pages -/

/-- It moves pages of 4 KiB. -/
structure PageTranslation (tr : UInt32 → UInt32) : Prop where
  low : ∀ va, (tr va).toNat % 4096 = va.toNat % 4096
  page : ∀ va vb, va.toNat / 4096 = vb.toNat / 4096 → (tr va).toNat / 4096 = (tr vb).toNat / 4096

/-- The lines of a piece of a page are translated to the lines of the translated piece. -/
theorem PageTranslation.lines {tr : UInt32 → UInt32} (h : PageTranslation tr) {va : UInt32} {n : Nat} (hn : 0 < n)
    (hpage : va.toNat % 4096 + n ≤ 4096) :
    (lines (tr va).toNat n).map UInt32.ofNat = (lines va.toNat n).map fun x => tr (UInt32.ofNat x) := by
  have hva := va.toNat_lt
  have hlow := h.low va
  rw [lines_eq hn, lines_eq hn, show ((tr va).toNat + n - 1) / 32 + 1 - (tr va).toNat / 32 =
    (va.toNat + n - 1) / 32 + 1 - va.toNat / 32 by omega, List.map_map, List.map_map]
  refine List.map_congr_left fun i hi => UInt32.toNat_inj.1 ?_
  rw [List.mem_range] at hi
  have hx : (UInt32.ofNat (32 * (va.toNat / 32 + i))).toNat = 32 * (va.toNat / 32 + i) :=
    UInt32.toNat_ofNat_of_lt' (show _ < 2 ^ 32 by omega)
  have hlow' := h.low (UInt32.ofNat (32 * (va.toNat / 32 + i)))
  have hpage' := h.page (UInt32.ofNat (32 * (va.toNat / 32 + i))) va (by rw [hx]; omega)
  have htr := (tr va).toNat_lt
  rw [hx] at hlow'
  rw [Function.comp_apply, Function.comp_apply, UInt32.toNat_ofNat_of_lt' (show _ < 2 ^ 32 by omega)]
  omega

/-! ### The sweep -/

/-- What a call leaves to its caller. -/
def Saved (s t : Machine) : Prop := ∀ q ∈ [r4, r5, r6, r7, r8, sb, sl, sp], t.reg q = s.reg q

/-- `sceKernelCpuGetPaddr(va, &paddr)` works on the stack, and not on the register `x`. -/
structure GetsPaddr (tr : UInt32 → UInt32) (x : UInt32) (s t : Machine) : Prop where
  result : 0 ≤ sint (t.reg r0)
  paddr : loadN 4 t.mem (s.reg r1).toNat = tr (s.reg r0)
  saved : Saved s t
  mem : ∀ a, ¬ ((s.reg r1).toNat ≤ a ∧ a < (s.reg r1).toNat + 4) → ¬ ((s.reg .sp).toNat ≤ a + 32 ∧ a < (s.reg .sp).toNat) →
    t.mem a = s.mem a
  stores : StoresAt x s t []

/-- A call of `sceKernelCpuIcacheAndL2WritebackInvalidateRange(addr, size)`: the range does not wrap around, and its pages are
translated. Nothing of the stack and no register of the cache is where the address of the registers is. -/
structure SweepCall (C : Loaded) (tr : UInt32 → UInt32) (s : Machine) : Prop where
  range : (s.reg r0).toNat + (s.reg r1).toNat ≤ 2 ^ 32
  translation : PageTranslation tr
  stack : (s.reg sp - 72).toNat + 72 ≤ 2 ^ 32
  baseStack : C.l2CacheRegBase.toNat + 4 ≤ (s.reg sp - 72).toNat ∨ (s.reg sp - 72).toNat + 72 ≤ C.l2CacheRegBase.toNat
  baseReg : C.l2CacheRegBase.toNat + 4 ≤ (C.l2Reg s.mem).toNat ∨ (C.l2Reg s.mem).toNat + 4 ≤ C.l2CacheRegBase.toNat
  getPaddr : ∃ f, C.ext .sceKernelCpuGetPaddr = some f ∧ ∀ t, (s.reg r0).toNat ≤ (t.reg r0).toNat →
    (t.reg r0).toNat < (s.reg r0).toNat + (s.reg r1).toNat → t.reg r1 = s.reg sp - 40 → t.reg .sp = s.reg sp - 40 →
    ∃ u, f t = some u ∧ GetsPaddr tr (C.l2Reg s.mem) t u
  wait : ∃ f, C.ext .WaitL2CacheReg = some f ∧ ∀ t, C.l2Reg t.mem = C.l2Reg s.mem →
    ∃ u, f t = some u ∧ Saved t u ∧ StoresAt (C.l2Reg s.mem) t u []
  program : C.ext .sub_8102403C = none ∧ C.ext .sceKernelCpuIcacheInvalidateRange = none

/-- Before a page: the rest of the range starts at `va` and has `n` bytes. -/
structure SweepAt (C : Loaded) (s t : Machine) (va n : Nat) : Prop where
  r4 : (t.reg r4).toNat = 4096 - va % 4096
  r5 : (t.reg r5).toNat = n
  r6 : (t.reg r6).toNat = va
  sp : t.reg .sp = s.reg .sp - 40
  reg : C.l2Reg t.mem = C.l2Reg s.mem

theorem l2Reg_congr {C : Loaded} {m m' : Mem}
    (h : ∀ a, C.l2CacheRegBase.toNat ≤ a → a < C.l2CacheRegBase.toNat + 4 → m a = m' a) : C.l2Reg m = C.l2Reg m' := by
  rw [Loaded.l2Reg, Loaded.l2Reg, loadN_congr fun i hi => h _ (Nat.le_add_right _ _) (Nat.add_lt_add_left hi _)]

section
variable {C : Loaded} {tr : UInt32 → UInt32} {s t : Machine} {va n : Nat} {Q : UInt32 → Machine → Prop}

/-- The code behind the call of `sub_8102403C`, and that behind the loop. -/
def sweepNext (C : Loaded) : List (Instr CpuLabel) :=
  subs r5 r5 r4 :: .bc .ne .loc_81022F0C :: .bl .WaitL2CacheReg :: mov r0 sb :: mov r1 r8 ::
    .bl .sceKernelCpuIcacheInvalidateRange :: C.env.code .loc_81022F3C

def sweepEnd (C : Loaded) : List (Instr CpuLabel) :=
  .bl .WaitL2CacheReg :: mov r0 sb :: mov r1 r8 :: .bl .sceKernelCpuIcacheInvalidateRange :: C.env.code .loc_81022F3C

/-- While it calls, the stack is 40 bytes on. -/
theorem SweepCall.toNat_sp (hC : SweepCall C tr s) : (s.reg .sp - 40).toNat = (s.reg .sp - 72).toNat + 32 := by
  have hstack := hC.stack
  have h40 : (s.reg .sp - 40).toNat = (2 ^ 32 - 40 + (s.reg .sp).toNat) % 2 ^ 32 := UInt32.toNat_sub _ _
  have h72 : (s.reg .sp - 72).toNat = (2 ^ 32 - 72 + (s.reg .sp).toNat) % 2 ^ 32 := UInt32.toNat_sub _ _
  omega

/-- A page is translated, and is cut to what is left. -/
theorem loc_81022F12_runs (hC : SweepCall C tr s) (ht : SweepAt C s t va n) (hva : (s.reg r0).toNat ≤ va) (hn : 0 < n)
    (hend : va + n = (s.reg r0).toNat + (s.reg r1).toNat)
    (h : ∀ u, u.reg r0 = tr (UInt32.ofNat va) → (u.reg r1).toNat = min (4096 - va % 4096) n → u.reg r4 = u.reg r1 →
      (u.reg r5).toNat = n → (u.reg r6).toNat = va → u.reg sp = s.reg sp - 40 → C.l2Reg u.mem = C.l2Reg s.mem →
      StoresAt (C.l2Reg s.mem) t u [] → Ends C.env (.bl .sub_8102403C :: sweepNext C) u Q) :
    C.Runs .loc_81022F12 t Q := by
  have hcode : C.env.code .loc_81022F12 = (mov r0 r6 : Instr _) :: (mov r1 sp : Instr _) :: .bl .sceKernelCpuGetPaddr ::
      (cmp r0 0 : Instr _) :: .bc .lt .loc_81022F4A :: (cmp r4 r5 : Instr _) :: (movc .hs r4 r5 : Instr _) ::
      (ldr r0 (off sp 0) : Instr _) :: (mov r1 r4 : Instr _) :: .bl .sub_8102403C :: sweepNext C := rfl
  obtain ⟨f, hf, hget⟩ := hC.getPaddr
  rw [Loaded.Runs, hcode]
  simp
  rw [ends_ext hf]
  obtain ⟨u, hu, hres, hpaddr, hsaved, hmem, evs, htrace, hevs⟩ := hget (((t.set r0 (t.reg r6)).set r1 (t.reg sp)).set lr _)
    (by simp [ht.r6, hva]) (by simp [ht.r6]; omega) (by simp [ht.sp]) (by simp [ht.sp])
  refine ⟨u, hu, ?_⟩
  have hsp : u.reg sp = s.reg sp - 40 := (hsaved sp (by decide)).trans ht.sp
  have h4 : (u.reg r4).toNat = 4096 - va % 4096 := by rw [← ht.r4]; exact congrArg _ (hsaved r4 (by decide))
  have h5 : (u.reg r5).toNat = n := by rw [← ht.r5]; exact congrArg _ (hsaved r5 (by decide))
  have h6 : (u.reg r6).toNat = va := by rw [← ht.r6]; exact congrArg _ (hsaved r6 (by decide))
  have hmin : (if u.reg r5 ≤ u.reg r4 then u.reg r5 else u.reg r4).toNat = min (4096 - va % 4096) n := by
    rw [← h4, ← h5]
    split
    · rename_i hle
      exact (Nat.min_eq_right (UInt32.le_iff_toNat_le.1 hle)).symm
    · rename_i hlt
      exact (Nat.min_eq_left (Nat.le_of_not_le fun hle => hlt (UInt32.le_iff_toNat_le.2 hle))).symm
  have hreg : C.l2Reg u.mem = C.l2Reg s.mem := by
    have hbase := hC.baseStack
    have hstack := hC.stack
    have hcall := hC.toNat_sp
    rw [← ht.reg]
    refine l2Reg_congr fun a hlo hhi => hmem a ?_ ?_
    · simp only [Machine.set, reduceCtorEq, if_true, if_false, ht.sp, hcall]
      omega
    · simp only [Machine.set, reduceCtorEq, if_false, ht.sp, hcall]
      omega
  simp
  refine ⟨fun _ => h _ ?_ hmin rfl h5 h6 hsp hreg ⟨evs ++ [.load (u.reg sp) 4], ?_, ?_⟩, fun hneg => absurd hres hneg⟩
  · have hr6 : UInt32.ofNat va = t.reg r6 := by rw [← ht.r6, UInt32.ofNat_toNat]
    rw [hr6]
    simp at hpaddr
    rw [hsp, ← hpaddr, ht.sp]
    rfl
  · simp [htrace]
  · rw [List.filterMap_append, hevs]
    rfl

/-- With something left the loop goes on behind the piece. -/
theorem sweepNext_runs (hgo : ¬ t.reg r5 - t.reg r4 = 0 → ∀ u, u.reg r4 = 0x1000 → u.reg r5 = t.reg r5 - t.reg r4 →
      u.reg r6 = t.reg r6 + t.reg r4 → u.reg sp = t.reg sp → u.mem = t.mem → u.trace = t.trace → C.Runs .loc_81022F12 u Q)
    (hstop : t.reg r5 - t.reg r4 = 0 → ∀ u, u.mem = t.mem → u.trace = t.trace → Ends C.env (sweepEnd C) u Q) :
    Ends C.env (sweepNext C) t Q := by
  have hcode : C.env.code .loc_81022F0C = (add r6 r6 r4 : Instr _) :: (mov r4 0x1000 : Instr _) ::
      C.env.code .loc_81022F12 := rfl
  have hnext : sweepNext C = (subs r5 r5 r4 : Instr _) :: .bc .ne .loc_81022F0C :: sweepEnd C := rfl
  rw [hnext]
  simp
  refine ⟨fun hz => hstop hz _ rfl rfl, fun hz => ?_⟩
  rw [hcode]
  simp
  exact hgo hz _ rfl rfl rfl rfl rfl rfl

/-- Where something is left behind a piece, a page starts. -/
theorem piece_end {k : Nat} (hk : k = min (4096 - va % 4096) n) (hlt : k < n) : (va + k) % 4096 = 0 := by
  omega

/-- The piece of a page is swept, and the next one starts behind it. -/
theorem page_runs (hC : SweepCall C tr s) (ht : SweepAt C s t va n) (hva : (s.reg r0).toNat ≤ va) (hn : 0 < n)
    (hend : va + n = (s.reg r0).toNat + (s.reg r1).toNat) {k : Nat} (hk : k = min (4096 - va % 4096) n)
    (hgo : k < n → ∀ u, SweepAt C s u (va + k) (n - k) →
      StoresAt (C.l2Reg s.mem) t u ((lines va k).map fun x => tr (UInt32.ofNat x)) → C.Runs .loc_81022F12 u Q)
    (hstop : k = n → ∀ u, C.l2Reg u.mem = C.l2Reg s.mem →
      StoresAt (C.l2Reg s.mem) t u ((lines va k).map fun x => tr (UInt32.ofNat x)) → Ends C.env (sweepEnd C) u Q) : C.Runs .loc_81022F12 t Q := by
  have hrange := hC.range
  have hva32 : (UInt32.ofNat va).toNat = va := UInt32.toNat_ofNat_of_lt' (show va < 2 ^ 32 by omega)
  have hlow := hC.translation.low (UInt32.ofNat va)
  rw [hva32] at hlow
  refine loc_81022F12_runs hC ht hva hn hend fun u h0 h1 h4 h5 h6 hsp hreg hstores => ?_
  rw [← hk] at h1
  refine ends_bl hC.program.1 ((@sub_8102403C_ends C (u.set lr _) ?_ ?_).mono fun pc v hv => ⟨hv.1, ?_⟩)
  · simp [h1]
    omega
  · simp [h1, h0, hlow]
    omega
  have hpage := @PageTranslation.lines tr hC.translation (UInt32.ofNat va) k (by omega) (by rw [hva32]; omega)
  have hv' : L2Stores (C.l2Reg u.mem) (u.set lr (C.env.addr (sweepNext C))) v
    ((lines (u.reg r0).toNat (u.reg r1).toNat).map UInt32.ofNat) := hv.2
  rw [hreg, h0, h1, hpage, hva32] at hv'
  have hr4 : (v.reg r4).toNat = k := by rw [← h1, ← h4]; exact congrArg _ (hv'.reg r4 (by decide))
  have hr5 : (v.reg r5).toNat = n := by rw [← h5]; exact congrArg _ (hv'.reg r5 (by decide))
  have hr6 : (v.reg r6).toNat = va := by rw [← h6]; exact congrArg _ (hv'.reg r6 (by decide))
  have hvreg : C.l2Reg v.mem = C.l2Reg s.mem :=
    (l2Reg_congr fun a hlo hhi => hv'.mem a (by have hbase := hC.baseReg; omega)).trans hreg
  have hvstores : StoresAt (C.l2Reg s.mem) t v ((lines va k).map fun x => tr (UInt32.ofNat x)) := hstores.trans hv'.stores
  have hsub : (v.reg r5 - v.reg r4).toNat = n - k := by
    rw [UInt32.toNat_sub_of_le _ _ (UInt32.le_iff_toNat_le.2 (by omega)), hr5, hr4]
  have hzero : v.reg r5 - v.reg r4 = 0 ↔ n - k = 0 := by
    rw [← hsub, ← UInt32.toNat_inj]
    rfl
  refine sweepNext_runs (fun hz w hw4 hw5 hw6 hwsp hwmem hwtrace => ?_) fun hz w hwmem hwtrace => ?_
  · rw [hzero] at hz
    have hlt : k < n := by omega
    refine hgo hlt w ⟨?_, by rw [hw5, hsub], ?_, ?_, ?_⟩ ?_
    · rw [hw4, piece_end hk hlt]
      rfl
    · rw [hw6, UInt32.toNat_add, hr6, hr4]
      omega
    · rw [hwsp, ← hsp]
      exact hv'.reg sp (by decide)
    · rw [hwmem, hvreg]
    · rw [StoresAt, hwtrace]
      exact hvstores
  · rw [hzero] at hz
    refine hstop (by omega) w (by rw [hwmem, hvreg]) ?_
    rw [StoresAt, hwtrace]
    exact hvstores

/-- Behind the loop the cache is waited for, and the instruction cache is told the lines. -/
theorem sweepEnd_ends (hC : SweepCall C tr s) (hreg : C.l2Reg t.mem = C.l2Reg s.mem) :
    Ends C.env (sweepEnd C) t fun _ u => StoresAt (C.l2Reg s.mem) t u [] := by
  have hcode : C.env.code .loc_81022F3C = (add sp sp 8 : Instr _) :: .popPc [r4, r5, r6, r7, r8, sb, sl] ::
      C.env.code .loc_81022F4A := rfl
  obtain ⟨f, hf, hwait⟩ := hC.wait
  rw [sweepEnd, ends_ext hf]
  obtain ⟨u, hu, -, hstores⟩ := hwait (t.set lr _) hreg
  refine ⟨u, hu, ?_⟩
  simp
  refine ends_bl hC.program.2 (icacheInvalidate_ends.mono fun pc v hv => ⟨hv.1, ?_⟩)
  have hmcr : StoresAt (C.l2Reg s.mem) u v [] := ⟨_, hv.2, by simp [Event.storedAt]⟩
  rw [hcode]
  simp
  exact ends_popPc (hstores.trans hmcr)

/-- From a page on. -/
theorem pages_runs (hC : SweepCall C tr s) (ht : SweepAt C s t va n) (hva : (s.reg r0).toNat ≤ va) (hn : 0 < n)
    (hend : va + n = (s.reg r0).toNat + (s.reg r1).toNat) : C.Runs .loc_81022F12 t fun _ u =>
      StoresAt (C.l2Reg s.mem) t u ((lines va n).map fun x => tr (UInt32.ofNat x)) := by
  induction n using Nat.strongRecOn generalizing t va with
  | ind n ih =>
    refine page_runs hC ht hva hn hend rfl (fun hk u hu hstores => ?_) fun hk u hreg hstores => ?_
    · -- the piece ends with its page
      have hpage : (va + min (4096 - va % 4096) n) % 32 = 0 := by omega
      refine (ih _ (by omega) hu (by omega) (by omega) (by omega)).mono fun pc v hv => ?_
      have hlines := hstores.trans hv
      rwa [← List.map_append, ← lines_add hpage, Nat.add_sub_cancel' (Nat.le_of_lt hk)] at hlines
    · refine (sweepEnd_ends hC hreg).mono fun pc v hv => ?_
      have hlines := hstores.trans hv
      rwa [List.append_nil, hk] at hlines

theorem sweep_entry (hne : s.reg r1 ≠ 0) (h : ∀ t, t.reg r4 = 0x1000 - UInt32.ofNat ((s.reg r0).toNat % 4096) →
      t.reg r5 = s.reg r1 → t.reg r6 = s.reg r0 → t.reg sp = s.reg sp - 32 - 8 →
      t.mem = (s.storeRegs (s.reg sp - 32) [r4, r5, r6, r7, r8, sb, sl, lr]).mem → t.trace = s.trace →
      C.Runs .loc_81022F12 t Q) : C.Runs .sceKernelCpuIcacheAndL2WritebackInvalidateRange s Q := by
  have hcode : C.env.code .sceKernelCpuIcacheAndL2WritebackInvalidateRange =
      (push [r4, r5, r6, r7, r8, sb, sl, lr] : Instr _) :: (sub sp sp 8 : Instr _) :: (mov r8 r1 : Instr _) ::
        (mov sl lr : Instr _) :: (mov sb r0 : Instr _) :: .cbz r1 .loc_81022F3C :: (ubfx r4 r0 0 0xc : Instr _) ::
        (mov r6 r0 : Instr _) :: (rsb r4 r4 0x1000 : Instr _) :: (mov r5 r1 : Instr _) :: .b .loc_81022F12 ::
        C.env.code .loc_81022F0C := rfl
  rw [Loaded.Runs, hcode]
  simp
  rw [branch_neg hne]
  refine h _ ?_ ?_ ?_ ?_ ?_ ?_ <;> simp

/-- The whole range, from its start on. -/
theorem sweep_runs (hC : SweepCall C tr s) (hpos : 0 < (s.reg r1).toNat) :
    C.Runs .sceKernelCpuIcacheAndL2WritebackInvalidateRange s fun _ t => StoresAt (C.l2Reg s.mem) s t
      ((lines (s.reg r0).toNat (s.reg r1).toNat).map fun x => tr (UInt32.ofNat x)) := by
  have hstack := hC.stack
  have hbase := hC.baseStack
  have hcall := hC.toNat_sp
  refine sweep_entry (fun hz => ?_) fun t h4 h5 h6 hsp hmem htrace => ?_
  · rw [hz] at hpos
    exact absurd hpos (by decide)
  · have hpage : (UInt32.ofNat ((s.reg r0).toNat % 4096)).toNat = (s.reg r0).toNat % 4096 :=
      UInt32.toNat_ofNat_of_lt' (show _ < 2 ^ 32 by omega)
    have hpush : (s.reg sp - 32).toNat = (s.reg sp - 72).toNat + 40 := by
      have h32 : (s.reg sp - 32).toNat = (2 ^ 32 - 32 + (s.reg sp).toNat) % 2 ^ 32 := UInt32.toNat_sub _ _
      have h72 : (s.reg sp - 72).toNat = (2 ^ 32 - 72 + (s.reg sp).toNat) % 2 ^ 32 := UInt32.toNat_sub _ _
      omega
    have ht : SweepAt C s t (s.reg r0).toNat (s.reg r1).toNat := by
      refine ⟨?_, by rw [h5], by rw [h6], ?_, ?_⟩
      · rw [h4, UInt32.toNat_sub, hpage]
        show (2 ^ 32 - _ + 4096) % 2 ^ 32 = _
        omega
      · rw [hsp]
        exact UInt32.toNat_inj.1 (by rw [hcall, UInt32.toNat_sub, hpush]; show (2 ^ 32 - 8 + _) % 2 ^ 32 = _; omega)
      · rw [hmem]
        exact l2Reg_congr fun a hlo hhi => Machine.mem_storeRegs_of_disjoint
          (show (s.reg sp - 32).toNat + 32 ≤ 2 ^ 32 by omega) (show _ ∨ (s.reg sp - 32).toNat + 32 ≤ a by omega)
    refine (pages_runs hC ht (Nat.le_refl _) hpos rfl).mono fun pc u hu => ?_
    rwa [StoresAt, htrace] at hu

end

theorem sorted_lines {a n : Nat} : (lines a n).Pairwise (· < ·) := by
  unfold lines
  split
  · exact List.Pairwise.nil
  · exact List.pairwise_map.2 (List.pairwise_lt_range.imp fun hlt => by omega)

/-- The lines that have a byte of the range, in order. -/
structure LinesInOrder (addr size : UInt32) (L : List UInt32) : Prop extends LinesOnce addr size L where
  sorted : L.Pairwise (· < ·)

/-- The addresses that are stored are those to which the lines of the range are translated. -/
theorem l2Sweep_lines (C : Loaded) (tr : UInt32 → UInt32) (s : Machine) (hC : SweepCall C tr s)
    (hpos : 0 < (s.reg r1).toNat) : C.Runs .sceKernelCpuIcacheAndL2WritebackInvalidateRange s fun _ t =>
      ∃ L, LinesInOrder (s.reg r0) (s.reg r1) L ∧ StoresAt (C.l2Reg s.mem) s t (L.map tr) := by
  have hsorted : ((lines (s.reg r0).toNat (s.reg r1).toNat).map UInt32.ofNat).Pairwise (· < ·) := by
    refine List.pairwise_map.2 (sorted_lines.imp_of_mem fun hx hy hlt => ?_)
    rw [UInt32.lt_iff_toNat_lt, toNat_of_mem_lines hC.range hx, toNat_of_mem_lines hC.range hy]
    exact hlt
  refine (sweep_runs hC hpos).mono fun pc t ht => ⟨_, ⟨linesOnce hC.range, hsorted⟩, ?_⟩
  rwa [List.map_map]

/-- Page 1 is somewhere else than the others. -/
def twoPages (va : UInt32) : UInt32 := if va.toNat / 4096 = 1 then va + 0x80000000 else va + 0x40000000

/-- `SceL2CacheRegBase` is at `0x100`. -/
def sweepLoaded : Loaded where
  l2CacheRegBase := 0x100
  addr _ := 0
  ext
    | .sceKernelCpuGetPaddr => some fun s => some
      (((s.set r0 1).setMem (storeN 4 s.mem (s.reg r1).toNat (twoPages (s.reg r0)))).emit (.store (s.reg r1) (twoPages (s.reg r0))))
    | .WaitL2CacheReg => some fun s =>
      let base := loadN 4 s.mem 0x100
      some ((((s.set r0 base).set r1 0).setMem (storeN 4 s.mem (base + 0x730).toNat 0)).emit (.store (base + 0x730) 0))
    | _ => none

def sweepMachine : Machine :=
  (((idleMachine.setMem (storeN 4 idleMachine.mem 0x100 0x1A002000)).set r0 0x1F90).set r1 0x100).set sp 0x8000

theorem twoPages_translation : PageTranslation twoPages := by
  have hhigh : ∀ va : UInt32, (va + 0x80000000).toNat = (va.toNat + 0x80000000) % 2 ^ 32 := fun va => UInt32.toNat_add _ _
  have hlow : ∀ va : UInt32, (va + 0x40000000).toNat = (va.toNat + 0x40000000) % 2 ^ 32 := fun va => UInt32.toNat_add _ _
  constructor
  · intro va
    unfold twoPages
    split
    · rw [hhigh]
      omega
    · rw [hlow]
      omega
  · intro va vb h
    unfold twoPages
    rw [h]
    split
    · rw [hhigh, hhigh]
      omega
    · rw [hlow, hlow]
      omega

theorem sweepMachine_call : SweepCall sweepLoaded twoPages sweepMachine := by
  have hreg : sweepLoaded.l2Reg sweepMachine.mem = 0x1A0027F0 := by
    rw [Loaded.l2Reg, show loadN 4 sweepMachine.mem sweepLoaded.l2CacheRegBase.toNat = 0x1A002000 from loadN_storeN]
    rfl
  refine ⟨by decide, twoPages_translation, by decide, by decide, by rw [hreg]; decide, ⟨_, rfl, fun t _ _ h1 hsp => ?_⟩,
    ⟨_, rfl, fun t ht => ?_⟩, rfl, rfl⟩
  · have hsaved : ∀ q ∈ [r4, r5, r6, r7, r8, sb, sl, sp], q ≠ r0 := by decide
    have hout : t.reg r1 ≠ 0x1A0027F0 := by
      rw [h1]
      decide
    refine ⟨_, rfl, (by decide : 0 ≤ sint 1), loadN_storeN, fun q hq => if_neg (hsaved q hq), fun a ha _ => if_neg ha, ?_⟩
    rw [hreg]
    exact ⟨_, rfl, by simp [Event.storedAt, hout]⟩
  · have hsaved : ∀ q ∈ [r4, r5, r6, r7, r8, sb, sl, sp], q ≠ r0 ∧ q ≠ r1 := by decide
    rw [hreg, Loaded.l2Reg] at ht
    have hbase : loadN 4 t.mem 0x100 + 0x730 ≠ 0x1A0027F0 := fun h =>
      absurd ((UInt32.add_right_inj _).1 (h.trans ht.symm)) (by decide)
    refine ⟨_, rfl, fun q hq => ?_, ?_⟩
    · exact (if_neg (hsaved q hq).2).trans (if_neg (hsaved q hq).1)
    · rw [hreg]
      exact ⟨_, rfl, by simp [Event.storedAt, hbase]⟩

theorem l2Sweep_twoPages : sweepLoaded.Runs .sceKernelCpuIcacheAndL2WritebackInvalidateRange sweepMachine fun _ t =>
    ∃ L, LinesInOrder 0x1F90 0x100 L ∧ StoresAt (sweepLoaded.l2Reg sweepMachine.mem) sweepMachine t (L.map twoPages) :=
  l2Sweep_lines sweepLoaded twoPages sweepMachine sweepMachine_call (by decide)

end VitaUtility.VfsMountOld

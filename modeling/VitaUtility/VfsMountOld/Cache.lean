import Mathlib.Data.List.Nodup
import VitaUtility.Lib.Mask
import VitaUtility.VfsMountOld.CpuS

/-!
# Cache maintenance by lines (`cpu.S`, `sce_cpu.c`)
-/

namespace VitaUtility.VfsMountOld
open Thumb
open Thumb.Reg Thumb.Op Thumb.Address

section
variable {E : Env CpuLabel} {l : CpuLabel} {s t : Machine} {crn crm op : Nat} {rest : List (Instr CpuLabel)}
  {Q : UInt32 → Machine → Prop}

/-- What a round of a loop over the lines does. -/
structure LineRound (s t : Machine) (crn crm op : Nat) : Prop where
  r0 : t.reg r0 = s.reg r0 + 0x20
  r2 : t.reg r2 = s.reg r2 - 1
  lr : t.reg lr = s.reg lr
  trace : t.trace = s.trace ++ [.mcr crn crm op (s.reg .r0)]

theorem lineRound_ends (hcode : E.code l = (mcr r0 crn crm op : Instr _) :: (adds r0 r0 0x20 : Instr _) ::
    (subs r2 r2 1 : Instr _) :: .bc .hs l :: (dsb : Instr _) :: .bxLr :: rest)
    (hgo : 1 ≤ s.reg r2 → ∀ t, LineRound s t crn crm op → Ends E (E.code l) t Q)
    (hstop : ¬ 1 ≤ s.reg r2 → ∀ t, LineRound s t crn crm op → Q (s.reg lr) t) : Ends E (E.code l) s Q := by
  rw [hcode]
  simp
  exact ⟨fun hc => hgo hc _ ⟨rfl, rfl, rfl, rfl⟩, fun hc => ends_bxLr (hstop hc _ ⟨rfl, rfl, rfl, rfl⟩)⟩

/-- Such a loop takes `r2 + 1` lines from `r0` on. -/
theorem lines_ends (hcode : E.code l = (mcr r0 crn crm op : Instr _) :: (adds r0 r0 0x20 : Instr _) ::
    (subs r2 r2 1 : Instr _) :: .bc .hs l :: (dsb : Instr _) :: .bxLr :: rest) {n : Nat} (hn : (s.reg r2).toNat = n) :
    Ends E (E.code l) s fun pc t => pc = s.reg lr ∧ t.trace = s.trace ++
      (List.range (n + 1)).map fun i => .mcr crn crm op (s.reg r0 + UInt32.ofNat (0x20 * i)) := by
  induction n generalizing s with
  | zero =>
    refine lineRound_ends hcode (fun hc => ?_) fun _ t ht => ⟨rfl, ?_⟩
    · rw [UInt32.le_iff_toNat_le, hn] at hc
      exact absurd hc (by decide)
    · rw [ht.trace]
      simp
  | succ n ih =>
    have hpos : 1 ≤ s.reg r2 := by
      rw [UInt32.le_iff_toNat_le, hn]
      exact Nat.le_add_left 1 n
    refine lineRound_ends hcode (fun _ t ht => ?_) fun hc => absurd hpos hc
    refine (ih (s := t) ?_).mono fun pc u hu => ⟨hu.1.trans ht.lr, ?_⟩
    · rw [ht.r2, UInt32.toNat_sub_of_le _ _ hpos, hn]
      rfl
    · have hshift : ∀ i, t.reg r0 + UInt32.ofNat (0x20 * i) = s.reg r0 + UInt32.ofNat (0x20 * (i + 1)) := by
        intro i
        rw [ht.r0, Nat.mul_succ, Nat.add_comm, UInt32.ofNat_add, UInt32.add_assoc]
        rfl
      rw [hu.2, ht.trace, @List.range_succ_eq_map (n + 1), List.map_cons, List.map_map, List.append_assoc,
        List.singleton_append, Nat.mul_zero, List.map_congr_left fun i _ => congrArg (Event.mcr crn crm op) (hshift i)]
      rw [show UInt32.ofNat 0 = 0 from rfl, UInt32.add_zero]
      rfl

end

/-! ### The lines of a range -/

/-- The 32-byte lines that have a byte of `[a, a + n)`, in order. -/
def lines (a n : Nat) : List Nat :=
  if n = 0 then [] else (List.range ((a + n - 1) / 32 + 1 - a / 32)).map fun i => 32 * (a / 32 + i)

section
variable {a n k x : Nat}

theorem lines_zero : lines a 0 = [] := if_pos rfl

theorem lines_eq (hn : 0 < n) : lines a n = (List.range ((a + n - 1) / 32 + 1 - a / 32)).map fun i => 32 * (a / 32 + i) :=
  if_neg (by omega)

theorem mem_lines : x ∈ lines a n ↔ x % 32 = 0 ∧ ∃ b, (x ≤ b ∧ b < x + 32) ∧ a ≤ b ∧ b < a + n := by
  rcases Nat.eq_zero_or_pos n with rfl | hn
  · rw [lines, if_pos rfl]
    refine iff_of_false List.not_mem_nil ?_
    rintro ⟨-, b, -, h⟩
    omega
  · rw [lines_eq hn, List.mem_map]
    constructor
    · rintro ⟨i, hi, rfl⟩
      rw [List.mem_range] at hi
      exact ⟨by omega, max a (32 * (a / 32 + i)), by omega, by omega⟩
    · rintro ⟨hx, b, hb, hab⟩
      exact ⟨x / 32 - a / 32, List.mem_range.2 (by omega), by omega⟩

theorem nodup_lines : (lines a n).Nodup := by
  unfold lines
  split
  · exact List.nodup_nil
  · exact List.Nodup.map (fun i j h => by omega) List.nodup_range

/-- A range that is split where a line ends. -/
theorem lines_add (h : (a + n) % 32 = 0) : lines a (n + k) = lines a n ++ lines (a + n) k := by
  rcases Nat.eq_zero_or_pos n with rfl | hn
  · rw [Nat.zero_add, lines_zero, List.nil_append, Nat.add_zero]
  rcases Nat.eq_zero_or_pos k with rfl | hk
  · rw [lines_zero, List.append_nil, Nat.add_zero]
  rw [lines_eq (by omega), lines_eq hn, lines_eq hk, show (a + (n + k) - 1) / 32 + 1 - a / 32 =
    ((a + n - 1) / 32 + 1 - a / 32) + ((a + n + k - 1) / 32 + 1 - (a + n) / 32) by omega, List.range_add, List.map_append,
    List.map_map]
  congr 1
  refine List.map_congr_left fun i _ => ?_
  rw [Function.comp_apply]
  omega

end

/-! ### What `cache_flush` cleans -/

/-- The range that `cache_flush` passes on. -/
def cacheFlushRange (addr size : UInt32) : UInt32 × UInt32 :=
  let nonAlign := addr &&& 0x1F
  let size := if nonAlign ≠ 0 then size + nonAlign else size
  (addr &&& ~~~ 0x1F, (size + 0x1F) &&& ~~~ 0x1F)

section
variable {C : Loaded} {s : Machine} {addr size : UInt32} {Q : UInt32 → Machine → Prop}

/-- What the routines do before their loop: `r2` is one less than the number of lines. -/
structure LineCount (s t : Machine) : Prop where
  r0 : t.reg r0 = s.reg r0
  r2 : t.reg r2 = (s.reg .r0 + s.reg r1 - 1) >>> 5 - s.reg .r0 >>> 5
  lr : t.reg lr = s.reg lr
  trace : t.trace = s.trace

theorem lineCount_ends {E : Env CpuLabel} {l : CpuLabel} {t : Machine} {crn crm op : Nat} {rest : List (Instr CpuLabel)}
    (hloop : E.code l = (mcr r0 crn crm op : Instr _) :: (adds r0 r0 0x20 : Instr _) :: (subs r2 r2 1 : Instr _) ::
      .bc .hs l :: (dsb : Instr _) :: .bxLr :: rest) (ht : LineCount s t) : Ends E (E.code l) t fun pc u =>
    pc = s.reg lr ∧ u.trace = s.trace ++
      (List.range (((s.reg r0 + s.reg r1 - 1) >>> 5 - s.reg r0 >>> 5).toNat + 1)).map fun i =>
        .mcr crn crm op (s.reg r0 + UInt32.ofNat (0x20 * i)) := by
  refine (lines_ends hloop rfl).mono fun pc u hu => ?_
  rwa [ht.r0, ht.r2, ht.lr, ht.trace] at hu

theorem dcacheWritebackInvalidate_count
    (h : ∀ t, LineCount s t → C.Runs .loc_81021726 t Q) :
    C.Runs .sceKernelCpuDcacheWritebackInvalidateRange s Q := by
  have hcode : C.env.code .sceKernelCpuDcacheWritebackInvalidateRange =
      (adds r2 r0 r1 : Instr _) :: (subs r2 r2 1 : Instr _) :: (lsrs r2 r2 5 : Instr _) :: (subs r2 r2 (.lsr r0 5) : Instr _) ::
        (dsb : Instr _) :: C.env.code .loc_81021726 := rfl
  rw [Loaded.Runs, hcode]
  simp
  exact h _ ⟨rfl, rfl, rfl, rfl⟩

/-- The routine takes the lines from that of the start to that of the end, in 32-bit arithmetic. -/
theorem dcacheWritebackInvalidate_ends :
    C.Runs .sceKernelCpuDcacheWritebackInvalidateRange s fun pc t =>
      pc = s.reg lr ∧ t.trace = s.trace ++
        (List.range (((s.reg r0 + s.reg r1 - 1) >>> 5 - s.reg r0 >>> 5).toNat + 1)).map fun i =>
          .mcr 7 14 1 (s.reg r0 + UInt32.ofNat (0x20 * i)) := by
  have hloop : C.env.code .loc_81021726 = (mcr r0 7 14 1 : Instr _) :: (adds r0 r0 0x20 : Instr _) ::
      (subs r2 r2 1 : Instr _) :: .bc .hs .loc_81021726 :: (dsb : Instr _) :: .bxLr ::
        C.env.code .sceKernelCpuIcacheAndL2WritebackInvalidateRange := rfl
  exact dcacheWritebackInvalidate_count fun t ht => lineCount_ends hloop ht

theorem icacheInvalidate_count (h : ∀ t, LineCount s t → C.Runs .loc_81021696 t Q) :
    C.Runs .sceKernelCpuIcacheInvalidateRange s Q := by
  have hcode : C.env.code .sceKernelCpuIcacheInvalidateRange =
      (adds r2 r0 r1 : Instr _) :: (subs r2 r2 1 : Instr _) :: (lsrs r2 r2 5 : Instr _) :: (subs r2 r2 (.lsr r0 5) : Instr _) ::
        C.env.code .loc_81021696 := rfl
  rw [Loaded.Runs, hcode]
  simp
  exact h _ ⟨rfl, rfl, rfl, rfl⟩

/-- So does the routine for the instruction cache. -/
theorem icacheInvalidate_ends : C.Runs .sceKernelCpuIcacheInvalidateRange s fun pc t =>
    pc = s.reg lr ∧ t.trace = s.trace ++
      (List.range (((s.reg r0 + s.reg r1 - 1) >>> 5 - s.reg r0 >>> 5).toNat + 1)).map fun i =>
        .mcr 7 5 1 (s.reg r0 + UInt32.ofNat (0x20 * i)) := by
  have hloop : C.env.code .loc_81021696 = (mcr r0 7 5 1 : Instr _) :: (adds r0 r0 0x20 : Instr _) ::
      (subs r2 r2 1 : Instr _) :: .bc .hs .loc_81021696 :: (dsb : Instr _) :: .bxLr ::
        C.env.code .sceKernelCpuDcacheWritebackInvalidateRange := rfl
  exact icacheInvalidate_count fun t ht => lineCount_ends hloop ht

/-- Rounding loses no line, also where it wraps around. -/
theorem toNat_cacheFlushRange (h : addr.toNat + size.toNat ≤ 2 ^ 32) (hpos : 0 < size.toNat) :
    (cacheFlushRange addr size).1.toNat = addr.toNat / 32 * 32 ∧
      ((cacheFlushRange addr size).1 + (cacheFlushRange addr size).2 - 1).toNat / 32 = (addr.toNat + size.toNat - 1) / 32 := by
  have hlow : (addr &&& 0x1F).toNat = addr.toNat % 2 ^ 5 := toNat_and_low rfl
  have hhigh : ∀ x : UInt32, (x &&& ~~~ 0x1F).toNat = x.toNat / 2 ^ 5 * 2 ^ 5 := fun x => toNat_and_high rfl
  have hsize : (if addr &&& 0x1F ≠ 0 then size + (addr &&& 0x1F) else size).toNat =
      (size.toNat + addr.toNat % 2 ^ 5) % 2 ^ 32 := by
    split
    · rw [UInt32.toNat_add, hlow]
    · rename_i hzero
      have hz : addr.toNat % 2 ^ 5 = 0 := by rw [← hlow, not_not.1 hzero]; rfl
      rw [hz, Nat.add_zero, Nat.mod_eq_of_lt size.toNat_lt]
  refine ⟨hhigh addr, ?_⟩
  have hone : (1 : UInt32).toNat = 1 := rfl
  have h31 : (0x1F : UInt32).toNat = 31 := rfl
  unfold cacheFlushRange
  dsimp only
  rw [UInt32.toNat_sub, UInt32.toNat_add, hhigh, hhigh, UInt32.toNat_add, hsize, hone, h31]
  omega

/-- `cache_flush` cleans the lines of the range, each once, unless the range is empty. -/
theorem cacheFlush_lines (h : addr.toNat + size.toNat ≤ 2 ^ 32) (hpos : 0 < size.toNat)
    (h0 : s.reg r0 = (cacheFlushRange addr size).1) (h1 : s.reg r1 = (cacheFlushRange addr size).2) :
    (List.range (((s.reg r0 + s.reg r1 - 1) >>> 5 - s.reg r0 >>> 5).toNat + 1)).map
      (fun i => s.reg r0 + UInt32.ofNat (0x20 * i)) = (lines addr.toNat size.toNat).map UInt32.ofNat := by
  obtain ⟨hstart, hend⟩ := toNat_cacheFlushRange h hpos
  rw [← h0, ← h1] at hend
  rw [← h0] at hstart
  have hshift : ∀ x : UInt32, (x >>> 5).toNat = x.toNat / 32 := fun x => @toNat_shiftRight x 5 5 rfl (by decide)
  have hcount : ((s.reg r0 + s.reg r1 - 1) >>> 5 - s.reg r0 >>> 5).toNat + 1 =
      (addr.toNat + size.toNat - 1) / 32 + 1 - addr.toNat / 32 := by
    rw [UInt32.toNat_sub, hshift, hshift, hend, hstart]
    omega
  rw [hcount, lines_eq hpos, List.map_map]
  refine List.map_congr_left fun i _ => ?_
  rw [Function.comp_apply, Nat.mul_add, UInt32.ofNat_add, Nat.mul_comm 32 (addr.toNat / 32), ← hstart, UInt32.ofNat_toNat]

end

/-- The machine at the first call of `cache_flush(pid, addr, size)`. -/
def cacheFlushCall (s : Machine) (addr size : UInt32) : Machine :=
  (s.set r0 (cacheFlushRange addr size).1).set r1 (cacheFlushRange addr size).2

/-- The lines that have a byte of the range, each once. -/
structure LinesOnce (addr size : UInt32) (L : List UInt32) : Prop where
  nodup : L.Nodup
  mem : ∀ x, x ∈ L ↔ x.toNat % 32 = 0 ∧ ∃ b, (x.toNat ≤ b ∧ b < x.toNat + 32) ∧ addr.toNat ≤ b ∧ b < addr.toNat + size.toNat

theorem toNat_of_mem_lines {a n x : Nat} (h : a + n ≤ 2 ^ 32) (hx : x ∈ lines a n) : (UInt32.ofNat x).toNat = x := by
  obtain ⟨-, b, hb, hab⟩ := mem_lines.1 hx
  exact UInt32.toNat_ofNat_of_lt' (show x < 2 ^ 32 by omega)

theorem linesOnce {addr size : UInt32} (h : addr.toNat + size.toNat ≤ 2 ^ 32) :
    LinesOnce addr size ((lines addr.toNat size.toNat).map UInt32.ofNat) := by
  have htoNat : ∀ x ∈ lines addr.toNat size.toNat, (UInt32.ofNat x).toNat = x := fun x => toNat_of_mem_lines h
  refine ⟨List.Nodup.map_on (fun x hx y hy hxy => ?_) nodup_lines, fun x => ?_⟩
  · rw [← htoNat x hx, hxy, htoNat y hy]
  · rw [← mem_lines, List.mem_map]
    constructor
    · rintro ⟨y, hy, rfl⟩
      rwa [htoNat y hy]
    · exact fun hx => ⟨x.toNat, hx, UInt32.ofNat_toNat⟩

/-- `cache_flush` cleans the lines that have a byte of the range, each once, exactly if there is such a byte. -/
theorem cacheFlush_iff (C : Loaded) (s : Machine) (addr size : UInt32) (h : addr.toNat + size.toNat ≤ 2 ^ 32) :
    C.Runs .sceKernelCpuDcacheWritebackInvalidateRange (cacheFlushCall s addr size)
      (fun _ t => ∃ L, t.trace = s.trace ++ L.map (.mcr 7 14 1) ∧ LinesOnce addr size L) ↔
      size ≠ 0 := by
  have hends := @dcacheWritebackInvalidate_ends C (cacheFlushCall s addr size)
  constructor
  · rintro hright rfl
    obtain ⟨n, r, -, ⟨L, hL, hlines⟩, -, htrace⟩ := hright.and hends
    -- the loop has at least one round
    have hmap := List.append_cancel_left (hL.symm.trans htrace)
    cases L with
    | nil => simp at hmap
    | cons x L =>
      obtain ⟨-, b, -, hb⟩ := (hlines.mem x).1 List.mem_cons_self
      exact absurd (Nat.lt_of_le_of_lt hb.1 hb.2) (Nat.lt_irrefl _)
  · intro hne
    have hpos : 0 < size.toNat := Nat.pos_of_ne_zero fun hzero => hne (UInt32.toNat.inj hzero)
    refine hends.mono fun pc t ht => ⟨_, ?_, linesOnce h⟩
    rw [← @cacheFlush_lines (cacheFlushCall s addr size) addr size h hpos rfl rfl, List.map_map]
    exact ht.2

theorem cacheFlush_three : Loaded.Runs ⟨0, fun _ => 0, fun _ => none⟩ .sceKernelCpuDcacheWritebackInvalidateRange
    (cacheFlushCall idleMachine 0x1001 0x40)
    fun _ t => ∃ L, t.trace = idleMachine.trace ++ L.map (.mcr 7 14 1) ∧ LinesOnce 0x1001 0x40 L :=
  (cacheFlush_iff ⟨0, fun _ => 0, fun _ => none⟩ idleMachine 0x1001 0x40 (by decide)).2 (by decide)

/-- For no bytes at 1 the line at 0 is cleaned. -/
theorem emptyFlush_line :
    Loaded.Runs ⟨0, fun _ => 0, fun _ => none⟩ .sceKernelCpuDcacheWritebackInvalidateRange (cacheFlushCall idleMachine 1 0)
      (fun _ t => t.trace = [.mcr 7 14 1 0]) ∧
    ¬ Loaded.Runs ⟨0, fun _ => 0, fun _ => none⟩ .sceKernelCpuDcacheWritebackInvalidateRange (cacheFlushCall idleMachine 1 0)
      fun _ t => ∃ L, t.trace = idleMachine.trace ++ L.map (.mcr 7 14 1) ∧ LinesOnce 1 0 L := by
  have hends := @dcacheWritebackInvalidate_ends ⟨0, fun _ => 0, fun _ => none⟩ (cacheFlushCall idleMachine 1 0)
  have hone := hends.mono fun pc t ht => (show t.trace = [.mcr 7 14 1 0] from ht.2)
  refine ⟨hone, fun hright => ?_⟩
  obtain ⟨n, r, -, ⟨L, hL, hlines⟩, htrace⟩ := hright.and hone
  have hmem : (0 : UInt32) ∈ L := by
    rw [htrace] at hL
    cases L with
    | nil => cases hL
    | cons x L =>
      obtain ⟨hx, -⟩ := List.cons.inj hL
      cases hx
      exact List.mem_cons_self
  obtain ⟨-, b, -, hb⟩ := (hlines.mem 0).1 hmem
  exact absurd (Nat.lt_of_le_of_lt hb.1 hb.2) (by decide)

end VitaUtility.VfsMountOld

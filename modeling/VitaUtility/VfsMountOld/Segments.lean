import VitaUtility.VfsMountOld.Memcpy
import VitaUtility.VfsMountOld.Transfer

/-!
# Files that show the segments of a module (`module_kernel.c`)

The callbacks ask the kernel where the segment is, and copy between it and the caller's buffer.
-/

namespace VitaUtility.VfsMountOld

/-- The fields of `SceKernelSegmentInfo` that are read. -/
structure SegmentInfo where
  vaddr : UInt32
  memsz : UInt32

structure ModuleStat where
  name : CStr
  seg : Nat

/-- What the kernel answers: `ksceKernelSearchModuleByName`, and the `segments` that `sceKernelGetModuleInfo` fills in. -/
structure Modules where
  searchModuleByName : CStr → Int32
  getModuleInfo : Int32 → Nat → SegmentInfo

namespace Modules
variable (K : Modules)

def openModuleCb (data : DataPack) (args : ModuleStat) : Int32 × DataPack :=
  let modid := K.searchModuleByName args.name
  if modid < 0 then (modid, data) else
  let segments := K.getModuleInfo modid
  (0, { data with size := (segments args.seg).memsz.toNat })

def readModuleCb (m : Mem) (data : DataPack) (args : ModuleStat) (pData : Mem) (size : UInt32) : Transfer :=
  if data.readableByte = 0 then ⟨0, 0, 0, pData, data⟩ else
  let modid := K.searchModuleByName args.name
  if modid < 0 then ⟨modid, 0, 0, pData, data⟩ else
  let segments := K.getModuleInfo modid
  let size := data.clamp size
  let src := ((segments args.seg).vaddr + (Int32.ofInt data.seek).toUInt32).toNat
  ⟨size.toInt32, src, size.toNat, memcpy pData (fun i => m (src + i)) size.toNat, { data with seek := data.seek + size.toNat }⟩

/-- What `memcpy_rx` leaves in memory; its cache maintenance does not change that. -/
def memcpyRx (m : Mem) (dst : Nat) (src : Mem) (len : Nat) : Mem := memcpyAt m dst src len

open Thumb.Reg in
/-- That is what its `my_memcpy` leaves, but for the three words that are pushed. -/
theorem memcpyRx_my_memcpy {C : Loaded} {s : Thumb.Machine} (h : MemcpyCall s) :
    C.Runs .my_memcpy s fun _ t => ∀ x, ¬ ((s.reg sp - 12).toNat ≤ x ∧ x < (s.reg sp - 12).toNat + 12) →
      t.mem x = memcpyRx s.mem (s.reg r0).toNat (fun i => s.mem ((s.reg r1).toNat + i)) (s.reg r2).toNat x := by
  refine (my_memcpy_moves h fun u t hu ht => memcpy_returns h hu ht).mono fun pc t ht x hx => ?_
  unfold memcpyRx memcpyAt
  by_cases hin : (s.reg r0).toNat ≤ x ∧ x < (s.reg r0).toNat + (s.reg r2).toNat
  · have hbyte := ht.copied (x - (s.reg r0).toNat) (by omega)
    rw [Nat.add_sub_cancel' hin.1] at hbyte
    rw [if_pos hin]
    exact hbyte
  · rw [if_neg hin]
    exact ht.kept x hin hx

def writeModuleCb (m : Mem) (data : DataPack) (args : ModuleStat) (pData : Mem) (size : UInt32) : Transfer :=
  if data.readableByte = 0 then ⟨0, 0, 0, m, data⟩ else
  let modid := K.searchModuleByName args.name
  if modid < 0 then ⟨modid, 0, 0, m, data⟩ else
  let segments := K.getModuleInfo modid
  let size := data.clamp size
  let moved : DataPack := { data with seek := data.seek + size.toNat }
  if args.seg = 0 then
    let dst := ((segments args.seg).vaddr + (Int32.ofInt data.seek).toUInt32).toNat
    ⟨size.toInt32, dst, size.toNat, memcpyRx m dst pData size.toNat, moved⟩
  else
    let dst := (segments args.seg).vaddr.toNat
    ⟨size.toInt32, dst, size.toNat, memcpyAt m dst pData size.toNat, moved⟩

end Modules

/-- A call through a handle: `pData` and `size`. -/
inductive SegOp where
  | read (pData : Mem) (size : UInt32)
  | write (pData : Mem) (size : UInt32)

def SegOp.size : SegOp → UInt32
  | read _ size => size
  | write _ size => size

namespace Modules
variable (K : Modules) (args : ModuleStat)

def call (m : Mem) (data : DataPack) : SegOp → Transfer
  | .read pData size => K.readModuleCb m data args pData size
  | .write pData size => K.writeModuleCb m data args pData size

def memAfter (m : Mem) (data : DataPack) : SegOp → Mem
  | .read _ _ => m
  | .write pData size => (K.writeModuleCb m data args pData size).dest

/-- The calls, each with memory and the handle before it. -/
def calls : Mem → DataPack → List SegOp → List (Mem × DataPack × SegOp)
  | _, _, [] => []
  | m, data, op :: ops => (m, data, op) :: calls (K.memAfter args m data op) (K.call args m data op).data ops

def patched : Mem → DataPack → List SegOp → Mem
  | m, _, [] => m
  | m, data, op :: ops => patched (K.memAfter args m data op) (K.call args m data op).data ops

def segment : SegmentInfo := K.getModuleInfo (K.searchModuleByName args.name) args.seg

end Modules

/-- The call transfers the next `n` bytes of a segment at `v`, and no others. -/
structure MovesNext (v n : Nat) (m : Mem) (data : DataPack) (op : SegOp) (t : Transfer) : Prop where
  res : t.res.toInt = n
  moved : t.data = { data with seek := data.seek + n }
  span : ∀ b, t.addr ≤ b ∧ b < t.addr + t.count ↔ v + data.seek.toNat ≤ b ∧ b < v + data.seek.toNat + n
  dest : t.dest = match op with
    | .read pData _ => memcpy pData (fun i => m (v + data.seek.toNat + i)) n
    | .write pData _ => memcpyAt m (v + data.seek.toNat) pData n

namespace Modules

/-- A call, with memory and the handle before it, moves as many of the next bytes as are asked for and left. -/
def Sequential (K : Modules) (args : ModuleStat) (x : Mem × DataPack × SegOp) : Prop :=
  MovesNext (K.segment args).vaddr.toNat (min x.2.2.size.toNat ((K.segment args).memsz.toNat - x.2.1.seek.toNat))
    x.1 x.2.1 x.2.2 (K.call args x.1 x.2.1 x.2.2)

end Modules

/-- A write of any bytes to the data segment through a handle that is neither at the start nor at the end. -/
def Misplaced (seg N : Nat) (data : DataPack) : SegOp → Prop
  | .read _ _ => False
  | .write _ size => seg ≠ 0 ∧ 0 < size.toNat ∧ 0 < data.seek.toNat ∧ data.seek.toNat < N

namespace Modules
variable {K : Modules} {args : ModuleStat} {m pData : Mem} {data : DataPack} {size v : UInt32} {p N n : Nat} {op : SegOp}
  {ops : List SegOp}

theorem toNat_addr (hp : p < N) (hfit : v.toNat + N ≤ 2 ^ 32) : (v + (Int32.ofInt p).toUInt32).toNat = v.toNat + p := by
  rw [UInt32.toNat_add, toNat_ofInt (by omega), Nat.mod_eq_of_lt (by omega)]

theorem toInt_ofNat (h : n < 2 ^ 31) : (UInt32.ofNat n).toInt32.toInt = n := by
  have hn : (BitVec.ofNat 32 n).toNat = n := by rw [BitVec.toNat_ofNat, Nat.mod_eq_of_lt (by omega)]
  show (BitVec.ofNat 32 n).toInt = n
  rw [BitVec.toInt_eq_toNat_of_lt (by omega), hn]

section
variable (hmod : 0 ≤ K.searchModuleByName args.name) (hfit : (K.segment args).vaddr.toNat + N ≤ 2 ^ 32) (h : data.At p N)
include hmod hfit h

theorem readModuleCb_eq (hp : p < N) : K.readModuleCb m data args pData size =
    ⟨(UInt32.ofNat (min size.toNat (N - p))).toInt32, (K.segment args).vaddr.toNat + p, min size.toNat (N - p),
      memcpy pData (fun i => m ((K.segment args).vaddr.toNat + p + i)) (min size.toNat (N - p)),
      { data with seek := data.seek + (min size.toNat (N - p) : Nat) }⟩ := by
  have hleft : ¬ data.readableByte = 0 := by
    rw [h.readableByte_eq_zero]
    omega
  have haddr := toNat_addr hp hfit
  rw [← h.seek] at haddr
  unfold readModuleCb
  rw [if_neg hleft]
  dsimp only
  rw [if_neg (Int32.not_lt.2 hmod), h.clamp, toNat_ofNat_min]
  rw [segment] at haddr ⊢
  rw [haddr]

theorem writeModuleCb_eq (hp : p < N) : K.writeModuleCb m data args pData size =
    ⟨(UInt32.ofNat (min size.toNat (N - p))).toInt32,
      if args.seg = 0 then (K.segment args).vaddr.toNat + p else (K.segment args).vaddr.toNat, min size.toNat (N - p),
      memcpyAt m (if args.seg = 0 then (K.segment args).vaddr.toNat + p else (K.segment args).vaddr.toNat) pData
        (min size.toNat (N - p)),
      { data with seek := data.seek + (min size.toNat (N - p) : Nat) }⟩ := by
  have hleft : ¬ data.readableByte = 0 := by
    rw [h.readableByte_eq_zero]
    omega
  have haddr := toNat_addr hp hfit
  rw [← h.seek] at haddr
  unfold writeModuleCb
  rw [if_neg hleft]
  dsimp only
  rw [if_neg (Int32.not_lt.2 hmod), h.clamp, toNat_ofNat_min]
  rw [segment] at haddr ⊢
  rw [haddr]
  by_cases hseg : args.seg = 0
  · simp only [if_pos hseg]
    rfl
  · simp only [if_neg hseg]

end

theorem movesNext_end (h : data.At p N) (hp : p = N) {v : Nat} :
    MovesNext v (min op.size.toNat (N - p)) m data op (K.call args m data op) := by
  have hzero := h.readableByte_eq_zero.2 (by omega)
  have hn : min op.size.toNat (N - p) = 0 := by omega
  rw [hn]
  refine ⟨?_, ?_, fun b => ?_, ?_⟩
  all_goals
    cases op with
    | read pData size => simp [call, readModuleCb, hzero]
    | write pData size => simp [call, writeModuleCb, hzero]

theorem movesNext_iff (hmod : 0 ≤ K.searchModuleByName args.name) (hfit : (K.segment args).vaddr.toNat + N ≤ 2 ^ 32)
    (hN : N < 2 ^ 31) (h : data.At p N) :
    MovesNext (K.segment args).vaddr.toNat (min op.size.toNat (N - data.seek.toNat)) m data op (K.call args m data op) ↔
      ¬ Misplaced args.seg N data op := by
  have hseek : data.seek.toNat = p := by rw [h.seek, Int.toNat_natCast]
  rcases Nat.lt_or_eq_of_le h.le with hp | hp
  · cases op with
    | read pData size =>
      refine iff_of_true ?_ id
      rw [call, readModuleCb_eq hmod hfit h hp]
      simp only [SegOp.size, hseek]
      exact ⟨toInt_ofNat (by omega), rfl, fun b => by rw [hseek], by rw [hseek]⟩
    | write pData size =>
      rw [call, writeModuleCb_eq hmod hfit h hp]
      simp only [SegOp.size, hseek]
      by_cases hseg : args.seg = 0
      · simp only [if_pos hseg]
        exact iff_of_true ⟨toInt_ofNat (by omega), rfl, fun b => by rw [hseek], by rw [hseek]⟩ fun hmis => hmis.1 hseg
      · simp only [if_neg hseg]
        constructor
        · rintro ⟨-, -, hspan, -⟩ ⟨-, hsize, hpos, -⟩
          have hn : 0 < min size.toNat (N - p) := by omega
          have hfirst := (hspan (K.segment args).vaddr.toNat).1 ⟨Nat.le_refl _, Nat.lt_add_of_pos_right hn⟩
          omega
        · intro hplain
          have hcase : p = 0 ∨ min size.toNat (N - p) = 0 := by
            by_contra hne
            exact hplain ⟨hseg, by omega, by omega, by omega⟩
          rcases hcase with rfl | hn
          · exact ⟨toInt_ofNat (by omega), rfl, fun b => by rw [hseek, Nat.add_zero], by rw [hseek, Nat.add_zero]⟩
          · rw [hn]
            refine ⟨rfl, rfl, fun b => ?_, by simp⟩
            dsimp only
            omega
  · rw [hseek]
    refine iff_of_true (movesNext_end h hp) ?_
    cases op with
    | read pData size => exact id
    | write pData size =>
      rintro ⟨-, -, -, hlt⟩
      omega

theorem call_data (hmod : 0 ≤ K.searchModuleByName args.name) (hfit : (K.segment args).vaddr.toNat + N ≤ 2 ^ 32)
    (h : data.At p N) :
    (K.call args m data op).data = { data with seek := data.seek + (min op.size.toNat (N - p) : Nat) } := by
  rcases Nat.lt_or_eq_of_le h.le with hp | hp
  · cases op with
    | read pData size => rw [call, readModuleCb_eq hmod hfit h hp, SegOp.size]
    | write pData size => rw [call, writeModuleCb_eq hmod hfit h hp, SegOp.size]
  · exact (@movesNext_end K args m data p N op h hp 0).moved

/-- Every call finds the handle somewhere in the segment. -/
theorem calls_at (hmod : 0 ≤ K.searchModuleByName args.name) (hfit : (K.segment args).vaddr.toNat + N ≤ 2 ^ 32)
    (h : data.At p N) : ∀ x ∈ K.calls args m data ops, ∃ q, x.2.1.At q N := by
  induction ops generalizing m data p with
  | nil =>
    intro x hx
    cases hx
  | cons op ops ih =>
    rw [calls, call_data hmod hfit h]
    rintro x (- | ⟨-, hx⟩)
    · exact ⟨p, h⟩
    · exact ih (h.advance (Nat.min_le_right _ _)) x hx

/-- Writes that are all where they should be patch what one write does. -/
theorem patched_eq (hmod : 0 ≤ K.searchModuleByName args.name) (hfit : (K.segment args).vaddr.toNat + N ≤ 2 ^ 32)
    {reqs : List Request} (h : data.At p N)
    (hN : (K.segment args).memsz.toNat = N)
    (hnext : ∀ x ∈ K.calls args m data (reqs.map fun r => .write r.1 r.2), K.Sequential args x) :
    K.patched args m data (reqs.map fun r => .write r.1 r.2) = memcpyAt m ((K.segment args).vaddr.toNat + p)
      (fun q => (written reqs).getD q 0) (min (total reqs) (N - p)) := by
  induction reqs generalizing m data p with
  | nil => simp [patched, total]
  | cons r reqs ih =>
    obtain ⟨pData, size⟩ := r
    rw [List.map_cons, calls] at hnext
    obtain ⟨hhead, htail⟩ := List.forall_mem_cons.1 hnext
    have hseek : data.seek.toNat = p := by rw [h.seek, Int.toNat_natCast]
    have hle := h.le
    have hdest := hhead.dest
    simp only [hseek, hN] at hdest
    rw [List.map_cons, patched]
    rw [call_data hmod hfit h] at htail ⊢
    rw [ih (h.advance (Nat.min_le_right _ _)) htail]
    have hmem : K.memAfter args m data (.write pData size) =
        memcpyAt m ((K.segment args).vaddr.toNat + p) pData (min size.toNat (N - p)) := hdest
    rw [hmem]
    show memcpyAt _ (_ + (p + min size.toNat (N - p))) _ (min _ (N - (p + min size.toNat (N - p)))) = _
    have hcount : min size.toNat (N - p) + min (total reqs) (N - (p + min size.toNat (N - p))) =
        min (size.toNat + total reqs) (N - p) := by omega
    rw [← Nat.add_assoc, memcpyAt_memcpyAt, hcount, total]
    refine memcpyAt_congr fun i hi => ?_
    rw [written]
    by_cases hfirst : i < min size.toNat (N - p)
    · rw [if_pos hfirst, List.getD_append _ _ _ _ (by rw [length_fill]; omega), List.getD_eq_getElem _ _ (by simp; omega)]
      simp [fill]
    · rw [if_neg hfirst, List.getD_append_right _ _ _ _ (by rw [length_fill]; omega), length_fill]
      congr 1
      omega

end Modules

/-- Calls through a handle of a segment that stays where it is move the next bytes exactly if none is a misplaced write,
and then writes in pieces patch what one write does. -/
theorem segment_io_iff (K : Modules) (args : ModuleStat) (m : Mem) (hmod : 0 ≤ K.searchModuleByName args.name)
    (hsize : (K.segment args).memsz.toNat < 2 ^ 31)
    (hfit : (K.segment args).vaddr.toNat + (K.segment args).memsz.toNat ≤ 2 ^ 32) :
    (∀ ops, (∀ x ∈ K.calls args m (K.openModuleCb {} args).2 ops, K.Sequential args x) ↔
      ∀ x ∈ K.calls args m (K.openModuleCb {} args).2 ops, ¬ Misplaced args.seg (K.segment args).memsz.toNat x.2.1 x.2.2) ∧
    ∀ reqs : List Request, (∀ x ∈ K.calls args m (K.openModuleCb {} args).2 (reqs.map fun r => .write r.1 r.2),
        ¬ Misplaced args.seg (K.segment args).memsz.toNat x.2.1 x.2.2) →
      K.patched args m (K.openModuleCb {} args).2 (reqs.map fun r => .write r.1 r.2) =
        memcpyAt m (K.segment args).vaddr.toNat (fun q => (written reqs).getD q 0)
          (min (total reqs) (K.segment args).memsz.toNat) := by
  have hopen : (K.openModuleCb {} args).2.At 0 (K.segment args).memsz.toNat := by
    unfold Modules.openModuleCb
    dsimp only
    rw [if_neg (Int32.not_lt.2 hmod)]
    exact ⟨rfl, rfl, Nat.zero_le _, by omega⟩
  have hiff : ∀ ops, ∀ x ∈ K.calls args m (K.openModuleCb {} args).2 ops,
      K.Sequential args x ↔ ¬ Misplaced args.seg (K.segment args).memsz.toNat x.2.1 x.2.2 := by
    intro ops x hx
    obtain ⟨q, hq⟩ := Modules.calls_at hmod hfit hopen x hx
    exact Modules.movesNext_iff hmod hfit hsize hq
  refine ⟨fun ops => forall₂_congr (hiff ops), fun reqs hplain => ?_⟩
  have := Modules.patched_eq hmod hfit hopen rfl fun x hx => (hiff _ x hx).2 (hplain x hx)
  rwa [Nat.add_zero, Nat.sub_zero] at this

/-- A module with eight bytes of text at `0x10` and eight of data at `0x20`. -/
def sampleModules : Modules where
  searchModuleByName _ := 5
  getModuleInfo _ seg := ⟨if seg = 0 then 0x10 else 0x20, 8⟩

def twoBytes : List Request := [(fun _ => 5, 1), (fun _ => 6, 1)]

theorem segment_io_text : sampleModules.patched ⟨[], 0⟩ countMem (sampleModules.openModuleCb {} ⟨[], 0⟩).2
    (twoBytes.map fun r => .write r.1 r.2) = memcpyAt countMem 0x10 (fun q => (written twoBytes).getD q 0) 2 := by
  refine (segment_io_iff sampleModules ⟨[], 0⟩ countMem (by decide) (by decide) (by decide)).2 twoBytes fun x _ => ?_
  unfold Misplaced
  split
  · exact id
  · exact fun h => h.1 rfl

/-- In the data segment the second byte is written over the first. -/
theorem dataSegment_restarts :
    sampleModules.patched ⟨[], 1⟩ countMem (sampleModules.openModuleCb {} ⟨[], 1⟩).2
      (twoBytes.map fun r => .write r.1 r.2) 0x20 = 6 ∧
    memcpyAt countMem 0x20 (fun q => (written twoBytes).getD q 0) 2 0x20 = 5 ∧
    ¬ ∀ x ∈ sampleModules.calls ⟨[], 1⟩ countMem (sampleModules.openModuleCb {} ⟨[], 1⟩).2
      (twoBytes.map fun r => .write r.1 r.2), sampleModules.Sequential ⟨[], 1⟩ x := by
  refine ⟨by decide, by decide, fun hall => ?_⟩
  have hsecond := (hall _ (List.mem_cons_of_mem _ List.mem_cons_self)).dest
  exact absurd (congrFun hsecond 0x20) (by decide)

end VitaUtility.VfsMountOld

import VitaUtility.VfsMountOld.Transfer

/-!
# The window that `map_conf1` sets for `map_mem1` (`map_conf1.c`)

Any handles are open on the files, and their calls come in any order. A handle of `map_mem1` keeps the length it found when
it was opened, and finds the base at each call.
-/

namespace VitaUtility.VfsMountOld

/-- The handles there are, by number. -/
structure MapState where
  mem : Mem
  handles : Nat → Option (MemFile × DataPack)

inductive MapOp where
  | openFile (h : Nat) (k : MemFile)
  | read (h : Nat) (pData : Mem) (size : UInt32)
  | write (h : Nat) (pData : Mem) (size : UInt32)
  | close (h : Nat)

namespace MapState
variable (B : Buffers)

def set (s : MapState) (h : Nat) (x : Option (MemFile × DataPack)) : MapState :=
  { s with handles := fun g => if g = h then x else s.handles g }

def step (s : MapState) : MapOp → MapState
  | .openFile h k => s.set h (some (k, B.openPack k s.mem))
  | .read h pData size =>
    match s.handles h with
    | none => s
    | some (k, data) => s.set h (some (k, (B.readCb k s.mem data pData size).data))
  | .write h pData size =>
    match s.handles h with
    | none => s
    | some (k, data) =>
      let t := B.writeCb k s.mem data pData size
      { s with mem := t.dest }.set h (some (k, t.data))
  | .close h => s.set h none

/-- The operations, each with the state before it. -/
def steps (s : MapState) : List MapOp → List (MapState × MapOp)
  | [] => []
  | op :: ops => (s, op) :: steps (s.step B op) ops

/-- What is done by the callback of `map_mem1` that the operation calls, if it calls one, with the handle and the size it
is called for. -/
def mapMem1Call (s : MapState) : MapOp → Option (DataPack × UInt32 × Transfer)
  | .read h pData size =>
    match s.handles h with
    | some (.mapMem1, data) => some (data, size, B.readMapMem1Cb s.mem data pData size)
    | _ => none
  | .write h pData size =>
    match s.handles h with
    | some (.mapMem1, data) => some (data, size, B.writeMapMem1Cb s.mem data pData size)
    | _ => none
  | _ => none

/-- What the callback accesses is in the window that is set. -/
def InWindow (s : MapState) (op : MapOp) : Prop :=
  ∀ data size t, s.mapMem1Call B op = some (data, size, t) → ∀ b, t.addr ≤ b ∧ b < t.addr + t.count →
    B.base .mapMem1 s.mem ≤ b ∧ b < B.base .mapMem1 s.mem + B.length .mapMem1 s.mem

/-- The size, or what is left for the handle, is at most the length that is set. -/
def Fits (s : MapState) (op : MapOp) : Prop :=
  ∀ data size t, s.mapMem1Call B op = some (data, size, t) →
    size.toNat ≤ B.length .mapMem1 s.mem ∨ data.size - data.seek ≤ B.length .mapMem1 s.mem

def Placed (s : MapState) : Prop := ∀ h k data, s.handles h = some (k, data) → ∃ p N, data.At p N

variable {B} {s : MapState} {op : MapOp} {ops : List MapOp}

theorem placed_init {m : Mem} : Placed ⟨m, fun _ => none⟩ := by
  intro h k data hdata
  cases hdata

theorem Placed.set (hs : s.Placed) {h : Nat} {x : Option (MemFile × DataPack)}
    (hx : ∀ k data, x = some (k, data) → ∃ p N, data.At p N) : (s.set h x).Placed := by
  intro g k data hg
  simp only [MapState.set] at hg
  split at hg
  · exact hx k data hg
  · exact hs g k data hg

theorem Placed.step (hs : s.Placed) : (s.step B op).Placed := by
  cases op with
  | openFile h k =>
    refine hs.set ?_
    rintro _ _ ⟨⟩
    exact ⟨0, _, B.openPack_at⟩
  | read h pData size =>
    simp only [MapState.step]
    split
    · exact hs
    · rename_i k data hdata
      obtain ⟨p, N, hat⟩ := hs h k data hdata
      refine hs.set ?_
      rintro _ _ ⟨⟩
      rw [B.readCb_eq, readFrom_moves hat]
      exact ⟨_, N, hat.advance (Nat.min_le_right _ _)⟩
  | write h pData size =>
    simp only [MapState.step]
    split
    · exact hs
    · rename_i k data hdata
      obtain ⟨p, N, hat⟩ := hs h k data hdata
      refine Placed.set (s := { s with mem := _ }) hs ?_
      rintro _ _ ⟨⟩
      rw [B.writeCb_eq, writeTo_moves hat]
      exact ⟨_, N, hat.advance (Nat.min_le_right _ _)⟩
  | close h => exact hs.set nofun

theorem placed_steps (hs : s.Placed) : ∀ x ∈ s.steps B ops, x.1.Placed := by
  induction ops generalizing s with
  | nil => nofun
  | cons op ops ih =>
    rintro x (- | ⟨-, hx⟩)
    · exact hs
    · exact ih hs.step x hx

theorem mapMem1Call_span (hs : s.Placed) {data : DataPack} {size : UInt32} {t : Transfer}
    (hcall : s.mapMem1Call B op = some (data, size, t)) :
    ∃ p N, data.At p N ∧ t.addr = B.base .mapMem1 s.mem ∧ t.count = min size.toNat (N - p) := by
  cases op with
  | openFile h k => cases hcall
  | read h pData size =>
    simp only [mapMem1Call] at hcall
    split at hcall
    · rename_i data' hdata
      cases hcall
      obtain ⟨p, N, hat⟩ := hs h _ _ hdata
      have hmoves : (B.readMapMem1Cb s.mem data pData size).Moves _ _ _ _ := readFrom_moves hat
      exact ⟨p, N, hat, congrArg Transfer.addr hmoves, congrArg Transfer.count hmoves⟩
    · cases hcall
  | write h pData size =>
    simp only [mapMem1Call] at hcall
    split at hcall
    · rename_i data' hdata
      cases hcall
      obtain ⟨p, N, hat⟩ := hs h _ _ hdata
      have hmoves : (B.writeMapMem1Cb s.mem data pData size).Moves _ _ _ _ := writeTo_moves hat
      exact ⟨p, N, hat, congrArg Transfer.addr hmoves, congrArg Transfer.count hmoves⟩
    · cases hcall
  | close h => cases hcall

theorem inWindow_iff (hs : s.Placed) : s.InWindow B op ↔ s.Fits B op := by
  refine forall₃_congr fun data size t => imp_congr_right fun hcall => ?_
  obtain ⟨p, N, hat, haddr, hcount⟩ := mapMem1Call_span hs hcall
  have hle := hat.le
  rw [haddr, hcount, hat.seek, hat.size]
  constructor
  · intro hspan
    by_contra hlong
    have hlast := (hspan (B.base .mapMem1 s.mem + B.length .mapMem1 s.mem) ⟨by omega, by omega⟩).2
    omega
  · intro hfits b hb
    omega

end MapState

/-- The callbacks of `map_mem1` stay in the window that is set at the time exactly if no call is for more than its length
while more than its length is left for the handle. -/
theorem window_iff (B : Buffers) (m : Mem) (ops : List MapOp) :
    (∀ x ∈ MapState.steps B ⟨m, fun _ => none⟩ ops, x.1.InWindow B x.2) ↔
      ∀ x ∈ MapState.steps B ⟨m, fun _ => none⟩ ops, x.1.Fits B x.2 :=
  forall₂_congr fun x hx => MapState.inWindow_iff (MapState.placed_steps MapState.placed_init x hx)

/-- The base `0x100` and a length, as they are written to `map_conf1`. -/
def confBytes (length : UInt8) : Mem := fun i => if i = 1 then 1 else if i = 4 then length else 0

/-- The length is set to 4 after `map_mem1` was opened with 8. -/
def shrinkOps : List MapOp := [.openFile 0 .mapConf1, .write 0 (confBytes 8) 8, .openFile 1 .mapMem1,
  .openFile 2 .mapConf1, .write 2 (confBytes 4) 8, .read 1 (fun _ => 0) 8]

/-- The last read gets four bytes that are behind the window. -/
theorem shrunkWindow_passed :
    (∃ x ∈ MapState.steps ⟨0, 0x40⟩ ⟨fun _ => 0, fun _ => none⟩ shrinkOps, ∃ data size t,
      x.1.mapMem1Call ⟨0, 0x40⟩ x.2 = some (data, size, t) ∧ t.addr = 0x100 ∧ t.count = 8 ∧
      Buffers.base ⟨0, 0x40⟩ .mapMem1 x.1.mem = 0x100 ∧ Buffers.length ⟨0, 0x40⟩ .mapMem1 x.1.mem = 4) ∧
    ¬ ∀ x ∈ MapState.steps ⟨0, 0x40⟩ ⟨fun _ => 0, fun _ => none⟩ shrinkOps, x.1.InWindow ⟨0, 0x40⟩ x.2 := by
  have hlast : ((MapState.steps ⟨0, 0x40⟩ ⟨fun _ => 0, fun _ => none⟩ shrinkOps).getLast?.bind fun x =>
      (x.1.mapMem1Call ⟨0, 0x40⟩ x.2).map fun c => (c.2.2.addr, c.2.2.count, Buffers.base ⟨0, 0x40⟩ .mapMem1 x.1.mem,
        Buffers.length ⟨0, 0x40⟩ .mapMem1 x.1.mem)) = some (0x100, 8, 0x100, 4) := by decide
  obtain ⟨x, hx, hcall⟩ := Option.bind_eq_some_iff.1 hlast
  obtain ⟨⟨data, size, t⟩, hsome, heq⟩ := Option.map_eq_some_iff.1 hcall
  simp only [Prod.mk.injEq] at heq
  obtain ⟨haddr, hcount, hbase, hlength⟩ := heq
  refine ⟨⟨x, List.mem_of_getLast? hx, data, size, t, hsome, haddr, hcount, hbase, hlength⟩, fun hall => ?_⟩
  have hbehind := (hall x (List.mem_of_getLast? hx) data size t hsome 0x107 (by omega)).2
  omega

end VitaUtility.VfsMountOld

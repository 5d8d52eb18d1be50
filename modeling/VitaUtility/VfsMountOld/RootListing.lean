import VitaUtility.VfsMountOld.Calls

/-!
# Listing the root (`main.c`)

The root has one `DataPack_t`, so all listings of it share one cursor: opening the root sets it to the first entry, and each read
moves it on.
-/

namespace VitaUtility.VfsMountOld
open Dmass (Addr NodePtr Fault SceIoStat SceIoDirent lookup_insert_ite insert_lookup_self)

inductive RootOp where
  | dopen (h : Nat) (path : CStr)
  | dread (h : Nat)
  | dclose (h : Nat)

/-- The driver gets the node of the root in place of the handle. -/
def RootOp.call (node : NodePtr) : RootOp → VfsCall
  | dopen _ path => .dopen node path ⟨0, 0⟩ []
  | dread _ => .dread node
  | dclose _ => .dclose node

/-- The reads by handles in `who` since one of those was opened. -/
def readsBy (who : Nat → Bool) (ops : List RootOp) : Nat :=
  ops.foldl (fun n op => match op with
    | .dopen h _ => if who h then 0 else n
    | .dread h => if who h then n + 1 else n
    | .dclose _ => n) 0

def ownReads (h : Nat) : List RootOp → Nat := readsBy (· = h)
def allReads : List RootOp → Nat := readsBy fun _ => true

def openAfter (h : Nat) (ops : List RootOp) : Bool :=
  ops.foldl (fun b op => match op with
    | .dopen h' _ => if h' = h then true else b
    | .dread _ => b
    | .dclose h' => if h' = h then false else b) false

/-- The reads, each with the calls before it. -/
def readsFrom (before : List RootOp) : List RootOp → List (List RootOp × Nat)
  | [] => []
  | .dread h :: ops => (before, h) :: readsFrom (before ++ [.dread h]) ops
  | op :: ops => readsFrom (before ++ [op]) ops

/-- What the read `i` of a listing answers. -/
def listingAnswer (dirents : List SceIoDirent) (i : Nat) : Int32 × Option SceIoDirent :=
  match dirents[i]? with
  | none => (0, none)
  | some dirent => (1, some dirent)

namespace VfsState
variable (K : Callbacks) (M : ModuleCbs) (s : VfsState) (node : NodePtr)

def rootRun (ops : List RootOp) : Except Fault VfsState := ops.foldlM (fun s op => s.vfsCall K M (op.call node)) s

def rootAnswer (before : List RootOp) : Except Fault (Int32 × Option SceIoDirent) := do
  let (res, dirent, _) ← (← s.rootRun K M node before).vfsDread K node
  return (res, dirent)

/-- What a listing reports of the entry at `a`. -/
def dirent (a : Addr) : SceIoDirent :=
  let entry := (s.entries.lookup a).getD {}
  ⟨entry.name.take 254, (direntStat K entry).getD {}⟩

def rootDirents (f : Forest) : List SceIoDirent := f.siblings.map fun x => s.dirent K x.1.addr

/-- With the cursor of the root at `c`. -/
def atCursor (r : Addr) (d : DataPack) (c : Option Addr) : VfsState :=
  { s with packs := s.packs.insert r { d with dirEntry := c } }

end VfsState

/-- The address of the entry `i` of a directory. -/
def Forest.addrAt (f : Forest) (i : Nat) : Option Addr := f.siblings[i]?.map (·.1.addr)

/-- Where the cursor is after the calls; at first behind the last entry. -/
def cursorAfter (f : Forest) (ops : List RootOp) : Nat :=
  ops.foldl (fun i op => match op with
    | .dopen _ _ => 0
    | .dread _ => i + 1
    | .dclose _ => i) f.siblings.length

section
variable {K : Callbacks} {M : ModuleCbs} {s : VfsState} {node : NodePtr} {f : Forest} {r : Addr} {d : DataPack} {p c : Option Addr}
  {i h : Nat} {ops : List RootOp} {op : RootOp}

theorem cursorAfter_append : cursorAfter f (ops ++ [op]) = match op with
    | .dopen _ _ => 0
    | .dread _ => cursorAfter f ops + 1
    | .dclose _ => cursorAfter f ops :=
  List.foldl_append ..

/-- With an open handle the cursor has been moved by the reads since the last open. -/
theorem cursorAfter_eq (hopen : openAfter h ops) : cursorAfter f ops = allReads ops := by
  induction ops using List.reverseRecOn with
  | nil => cases hopen
  | append_singleton ops op ih =>
    unfold openAfter at hopen ih
    unfold allReads readsBy at ih ⊢
    rw [List.foldl_append] at hopen
    rw [cursorAfter_append, List.foldl_append]
    cases op with
    | dopen h' path => rfl
    | dread h' => exact congrArg (· + 1) (ih hopen)
    | dclose h' =>
      by_cases hh : h' = h
      · simp [hh] at hopen
      · exact ih (by simpa [hh] using hopen)

theorem addrAt_zero : f.addrAt 0 = f.firstAddr := by
  cases f <;> rfl

theorem holds_addrAt (hs : s.Holds p f) (hstat : ∀ x ∈ f.siblings, x.1.stat.isSome) {a : Addr} (ha : f.addrAt i = some a) :
    ∃ e, s.entries.lookup a = some e ∧ e.next = f.addrAt (i + 1) ∧ e.stat.isSome := by
  induction f generalizing p i with
  | nil => cases ha
  | cons x sub next ihs ihn =>
    obtain ⟨-, e, he, -, hestat, -, hnext⟩ := hs
    cases i with
    | zero =>
      cases ha
      refine ⟨e, he, (Forest.firstAddr_eq hnext).trans addrAt_zero.symm, ?_⟩
      rw [hestat]
      exact hstat _ List.mem_cons_self
    | succ i => exact ihn hnext (fun y hy => hstat y (List.mem_cons_of_mem _ hy)) ha

/-- The root, wherever the cursor is. -/
structure RootAt (s : VfsState) (node : NodePtr) (f : Forest) (r : Addr) (d : DataPack) : Prop extends s.Root f r d where
  node : s.rootNode = some node
  stats : ∀ x ∈ f.siblings, x.1.stat.isSome

theorem RootAt.found_atCursor (hs : RootAt s node f r d) :
    (s.atCursor r d c).getFileEntryByNode (some node) = .ok (some r) := by
  rw [← hs.node, ← hs.found]
  refine VfsState.getFileEntryByNode_congr (fun b => ?_) rfl
  rw [VfsState.atCursor, lookup_insert_ite]
  split
  · rename_i hb
    rw [hb, hs.pack]
    rfl
  · rfl

theorem pack_atCursor : (s.atCursor r d c).packs.lookup r = some { d with dirEntry := c } := by
  rw [VfsState.atCursor, lookup_insert_ite, if_pos rfl]

theorem modPack_atCursor {q : DataPack → DataPack} {c' : Option Addr}
    (hq : q { d with dirEntry := c } = { d with dirEntry := c' }) :
    (s.atCursor r d c).modPack r q = .ok (s.atCursor r d c') := by
  rw [VfsState.modPack, pack_atCursor]
  dsimp only
  rw [hq, VfsState.atCursor, Finmap.insert_insert]
  rfl

/-- Opening the root sets the cursor to the first entry, also if there is none. -/
theorem atCursor_dopen (hs : RootAt s node f r d) {path : CStr} :
    ∃ res, (s.atCursor r d (f.addrAt i)).vfsDopen M node path ⟨0, 0⟩ [] = .ok (res, s.atCursor r d (f.addrAt 0)) := by
  have hroot : some node = (s.atCursor r d (f.addrAt i)).rootNode := hs.node.symm
  have hfirst : d.dirEntryRoot = f.addrAt 0 := (Forest.firstAddr_eq hs.holds).trans addrAt_zero.symm
  unfold VfsState.vfsDopen
  rw [if_pos hroot, hs.found_atCursor, ok_bind]
  simp only [VfsState.pack, pack_atCursor, ok_bind, hfirst]
  cases h0 : f.addrAt 0 with
  | none =>
    have hi : f.addrAt i = none := by
      cases f with
      | nil => rfl
      | cons x sub next => cases h0
    rw [hi]
    exact ⟨_, rfl⟩
  | some a =>
    have hmod : (s.atCursor r d (f.addrAt i)).modPack r (fun d => { d with dirEntry := d.dirEntryRoot }) =
        .ok (s.atCursor r d (some a)) := modPack_atCursor (by rw [hfirst, h0])
    rw [hmod, ok_bind]
    exact ⟨_, rfl⟩

theorem direntStat_isSome {e : FileEntry} (he : e.stat.isSome) : (VfsState.direntStat K e).isSome := by
  unfold VfsState.direntStat
  cases e.getIoStatCb with
  | none => simpa using he
  | some cb => rfl

/-- A read reports the entry at the cursor and moves it on. -/
theorem atCursor_dread (hs : RootAt s node f r d) :
    (s.atCursor r d (f.addrAt i)).vfsDread K node = .ok ((listingAnswer (s.rootDirents K f) i).1,
      (listingAnswer (s.rootDirents K f) i).2, s.atCursor r d (f.addrAt (i + 1))) := by
  unfold VfsState.vfsDread
  rw [hs.found_atCursor, ok_bind]
  simp only [VfsState.pack, pack_atCursor, ok_bind]
  unfold listingAnswer VfsState.rootDirents
  rw [List.getElem?_map]
  cases hx : f.siblings[i]? with
  | none =>
    have hi : f.addrAt i = none := by rw [Forest.addrAt, hx]; rfl
    have hi' : f.addrAt (i + 1) = none := by
      rw [Forest.addrAt, List.getElem?_eq_none (Nat.le_succ_of_le (List.getElem?_eq_none_iff.1 hx))]
      rfl
    rw [hi, hi']
    rfl
  | some x =>
    have hi : f.addrAt i = some x.1.addr := by rw [Forest.addrAt, hx]; rfl
    obtain ⟨e, he, hnext, hestat⟩ := holds_addrAt hs.holds hs.stats hi
    obtain ⟨stat, hstat⟩ := Option.isSome_iff_exists.1 (@direntStat_isSome K _ hestat)
    have hentry : (s.atCursor r d (some x.1.addr)).entry x.1.addr = .ok e := by
      rw [VfsState.entry, show (s.atCursor r d (some x.1.addr)).entries = s.entries from rfl, he]
    have hdirent : s.dirent K x.1.addr = ⟨e.name.take 254, stat⟩ := by
      simp only [VfsState.dirent, he, Option.getD_some, hstat]
    have hmod : (s.atCursor r d (some x.1.addr)).modPack r (fun d => { d with dirEntry := e.next }) =
        .ok (s.atCursor r d (f.addrAt (i + 1))) := modPack_atCursor (by rw [hnext])
    simp only [hi, hentry, ok_bind, hstat, hmod]
    rw [Option.map_some, hdirent]
    rfl

theorem rootRun_eq (hs : RootAt s node f r d) (hd : d.dirEntry = none) :
    s.rootRun K M node ops = .ok (s.atCursor r d (f.addrAt (cursorAfter f ops))) := by
  induction ops using List.reverseRecOn with
  | nil =>
    have hend : f.addrAt f.siblings.length = d.dirEntry := by
      rw [hd, Forest.addrAt, List.getElem?_eq_none (Nat.le_refl _)]
      rfl
    have hself : s.atCursor r d d.dirEntry = s := by
      rw [VfsState.atCursor, insert_lookup_self hs.pack]
    rw [cursorAfter, List.foldl_nil, hend, hself]
    rfl
  | append_singleton ops op ih =>
    rw [VfsState.rootRun] at ih ⊢
    rw [List.foldlM_append, ih, ok_bind, cursorAfter_append]
    have hroot : some node = (s.atCursor r d (f.addrAt (cursorAfter f ops))).rootNode := hs.node.symm
    cases op with
    | dopen h path =>
      obtain ⟨res, hopen⟩ := @atCursor_dopen M s node f r d (cursorAfter f ops) hs path
      simp only [List.foldlM_cons, List.foldlM_nil, VfsState.vfsCall, RootOp.call, hopen, ok_bind]
      rfl
    | dread h =>
      simp only [List.foldlM_cons, List.foldlM_nil, VfsState.vfsCall, RootOp.call, atCursor_dread hs, ok_bind]
      rfl
    | dclose h =>
      simp only [List.foldlM_cons, List.foldlM_nil, VfsState.vfsCall, RootOp.call, VfsState.vfsDclose, if_pos hroot, ok_bind]
      rfl

/-- A read of an open handle reports as many entries on as there were reads by any handle. -/
theorem rootAnswer_eq (hs : RootAt s node f r d) (hd : d.dirEntry = none) (hopen : openAfter h ops) :
    s.rootAnswer K M node ops = .ok (listingAnswer (s.rootDirents K f) (allReads ops)) := by
  rw [VfsState.rootAnswer, rootRun_eq hs hd, ok_bind, atCursor_dread hs, ok_bind, cursorAfter_eq hopen]
  rfl

theorem listingAnswer_inj {L : List SceIoDirent} {i j : Nat} : listingAnswer L i = listingAnswer L j ↔ L[i]? = L[j]? := by
  unfold listingAnswer
  cases L[i]? <;> cases L[j]? <;> simp

end

/-- The reads of a handle report the entries of the root from the first on, as if there was no other, exactly if each of them
comes when as many reads have been made by all since an open of the root as by the handle since it was opened, or where the
two entries do not differ in what is reported. -/
theorem rootListing_iff (K : Callbacks) (M : ModuleCbs) (s : VfsState) (node : NodePtr) (f : Forest) (r : Addr) (d : DataPack)
    (hs : RootAt s node f r d) (hd : d.dirEntry = none) (ops : List RootOp)
    (hopen : ∀ x ∈ readsFrom [] ops, openAfter x.2 x.1) :
    (∀ x ∈ readsFrom [] ops, s.rootAnswer K M node x.1 = .ok (listingAnswer (s.rootDirents K f) (ownReads x.2 x.1))) ↔
      ∀ x ∈ readsFrom [] ops, (s.rootDirents K f)[allReads x.1]? = (s.rootDirents K f)[ownReads x.2 x.1]? := by
  refine forall₂_congr fun x hx => ?_
  rw [rootAnswer_eq hs hd (hopen x hx), ← listingAnswer_inj]
  exact ⟨Except.ok.inj, congrArg Except.ok⟩

theorem sampleState_rootAt : RootAt sampleState 7 sampleTree 1 { node := some 7, dirEntryRoot := some 0x10 } where
  toRoot := sampleState_root
  node := rfl
  stats := by decide

def twoListings : List RootOp := [.dopen 0 [], .dread 0, .dread 0, .dclose 0, .dopen 1 [], .dread 1]

theorem rootListing_twoListings : sampleState.rootAnswer noCallbacks noModuleCbs 7
    [.dopen 0 [], .dread 0, .dread 0, .dclose 0, .dopen 1 []] =
      .ok (listingAnswer (sampleState.rootDirents noCallbacks sampleTree) 0) :=
  (rootListing_iff noCallbacks noModuleCbs sampleState 7 sampleTree 1 _ sampleState_rootAt rfl twoListings (by decide)).2
    (by decide) ([.dopen 0 [], .dread 0, .dread 0, .dclose 0, .dopen 1 []], 1) (by simp [twoListings, readsFrom])

/-- The first read of handle 1 does not report the first entry, which handle 0 has read. -/
theorem sharedCursor_skips :
    sampleState.rootAnswer noCallbacks noModuleCbs 7 [.dopen 0 [], .dopen 1 [], .dread 0] =
      .ok (1, some (sampleState.dirent noCallbacks 0x20)) ∧
    ¬ ∀ x ∈ readsFrom [] [.dopen 0 [], .dopen 1 [], .dread 0, .dread 1], sampleState.rootAnswer noCallbacks noModuleCbs 7 x.1 =
      .ok (listingAnswer (sampleState.rootDirents noCallbacks sampleTree) (ownReads x.2 x.1)) := by
  have hsecond : sampleState.rootAnswer noCallbacks noModuleCbs 7 [.dopen 0 [], .dopen 1 [], .dread 0] =
      .ok (1, some (sampleState.dirent noCallbacks 0x20)) := rfl
  refine ⟨hsecond, fun hall => ?_⟩
  have hfirst := hall ([.dopen 0 [], .dopen 1 [], .dread 0], 1) (by simp [readsFrom])
  rw [hsecond] at hfirst
  have heq := Except.ok.inj hfirst
  exact absurd heq (by decide)

end VitaUtility.VfsMountOld

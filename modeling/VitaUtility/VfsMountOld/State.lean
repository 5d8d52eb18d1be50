import VitaUtility.Dmass.State

/-!
# The state of the `SceVfsMountPoC_old` driver (`fs_mgr.h`)

An open file or directory is a `DataPack_t` in an object that the kernel creates, bound to a vnode; the files are a tree
of `FileEntry` blocks in a kernel heap, the root of which hangs from the `DataPack_t` of the root node. Both are cells of
a store. The driver shares the SDK with `SceVfsMountPoC`, whose `SceIoStat` and constants are used here. A callback is
the address of its function.
-/

namespace VitaUtility.VfsMountOld
open Dmass (Addr NodePtr Store Fault SceIoStat modifyAt lookup_modifyAt lookup_insert_ite lookup_erase_ite)

structure FileEntry where
  next : Option Addr := none
  nextDir : Option Addr := none
  openAllowFlags : UInt32 := 0
  name : CStr := []
  stat : Option SceIoStat := none
  size : Int := 0
  openCb : Option Addr := none
  readCb : Option Addr := none
  writeCb : Option Addr := none
  getIoStatCb : Option Addr := none
  dopenCb : Option Addr := none
  argsForStat : Option Addr := none

structure DataPack where
  next : Option Addr := none
  prev : Option Addr := none
  uid : Int32 := 0
  node : Option NodePtr := none
  seek : Int := 0
  size : Int := 0
  dirEntryRoot : Option Addr := none
  dirEntry : Option Addr := none

structure VfsState where
  /-- the live `DataPack_t` -/
  packs : Store DataPack
  lastObj : Option Addr
  /-- the live `FileEntry` blocks -/
  entries : Store FileEntry
  rootNode : Option NodePtr

namespace VfsState
variable (s : VfsState)

/-- No object, and no entry. -/
def init (rootNode : Option NodePtr) : VfsState := ⟨∅, none, ∅, rootNode⟩

/-- Following a `DataPack_t *`. -/
def pack (a : Addr) : Except Fault DataPack :=
  match s.packs.lookup a with
  | none => .error .freed
  | some d => .ok d

/-- Following a `FileEntry *`. -/
def entry (a : Addr) : Except Fault FileEntry :=
  match s.entries.lookup a with
  | none => .error .freed
  | some e => .ok e

/-- A write through a `DataPack_t *`. -/
def modPack (a : Addr) (g : DataPack → DataPack) : Except Fault VfsState :=
  match s.packs.lookup a with
  | none => .error .freed
  | some d => .ok { s with packs := s.packs.insert a (g d) }

/-- A write through a `FileEntry *`. -/
def modEntry (a : Addr) (g : FileEntry → FileEntry) : Except Fault VfsState :=
  match s.entries.lookup a with
  | none => .error .freed
  | some e => .ok { s with entries := s.entries.insert a (g e) }

variable {s} {s' : VfsState} {a : Addr} {d : DataPack} {e : FileEntry}

theorem pack_ok (h : s.pack a = .ok d) : s.packs.lookup a = some d := by
  unfold pack at h
  cases hd : s.packs.lookup a with
  | none =>
    rw [hd] at h
    cases h
  | some d' =>
    rw [hd] at h
    exact congrArg some (Except.ok.inj h)

theorem entry_ok (h : s.entry a = .ok e) : s.entries.lookup a = some e := by
  unfold entry at h
  cases he : s.entries.lookup a with
  | none =>
    rw [he] at h
    cases h
  | some e' =>
    rw [he] at h
    exact congrArg some (Except.ok.inj h)

theorem modPack_ok {g : DataPack → DataPack} (h : s.modPack a g = .ok s') :
    ∃ d, s.packs.lookup a = some d ∧ s' = { s with packs := s.packs.insert a (g d) } := by
  unfold modPack at h
  cases hd : s.packs.lookup a with
  | none =>
    rw [hd] at h
    cases h
  | some d =>
    rw [hd] at h
    exact ⟨d, rfl, (Except.ok.inj h).symm⟩

end VfsState

end VitaUtility.VfsMountOld

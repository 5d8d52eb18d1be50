import VitaUtility.VfsMountOld.ModuleDir

/-!
# Opening, reading and closing (`main.c`)

A call comes with the vnode of its file; of that the driver finds the `DataPack_t`, whose `dir_entry` is the entry of the file, or
the next one that a listing reports.
-/

namespace VitaUtility.VfsMountOld
open Dmass (Addr NodePtr Fault SceIoStat SceIoDirent)

def SCE_ERROR_ERRNO_EPERM : Int32 := -2147418111
def SCE_ERROR_ERRNO_ENOENT : Int32 := -2147418110

/-- What the callbacks do: for an open, a read or a write the result, and `seek` and `size` of the `DataPack_t` then; for
`get_io_stat_cb` the `stat` that it fills in. -/
structure Callbacks where
  data : Addr → Option Addr → DataPack → Int32 × Int × Int
  ioStat : Addr → FileEntry → SceIoStat

namespace VfsState
variable (K : Callbacks) (s : VfsState)

/-- A call of a callback for the `DataPack_t` at `a`. -/
def dataCb (cb : Addr) (e : FileEntry) (a : Addr) : Except Fault (Int32 × VfsState) := do
  let d ← s.pack a
  let (res, seek, size) := K.data cb e.argsForStat d
  return (res, ← s.modPack a fun d => { d with seek := seek, size := size })

/-- `pDataPackForSystem->data` of a new object, whose pointer is not set if there is none. -/
def setData (p : Option Addr) (root entry : Option Addr) (size : Int) : Except Fault (Addr × VfsState) :=
  match p with
  | none => .error .null
  | some a => do
    return (a, ← s.modPack a fun d => { d with dirEntryRoot := root, dirEntry := entry, seek := 0, size := size })

def vfsOpen (node : NodePtr) (prevNode : Option NodePtr) (path : CStr) (flags : UInt32) (k : UidAnswer) :
    Except Fault (Int32 × VfsState) := do
  match ← s.getFileEntryByNode prevNode with
  | none => return (SCE_ERROR_ERRNO_ENOENT, s)
  | some _ =>
    let (res, pDirEntry) ← s.getFileEntry path
    if res < 0 then return (SCE_ERROR_ERRNO_ENOENT, s)
    match pDirEntry with
    | none => .error .null
    | some e =>
      let entry ← s.entry e
      if flags &&& ~~~ entry.openAllowFlags ≠ 0 then return (SCE_ERROR_ERRNO_EPERM, s)
      let (_, p, s) ← s.createFileItem (some node) k
      let (a, s) ← s.setData p none (some e) entry.size
      match entry.openCb with
      | none => return (0, s)
      | some cb => return (0, (← s.dataCb K cb entry a).2)

def vfsClose (node : NodePtr) : Except Fault (Int32 × VfsState) := do
  match ← s.getFileEntryByNode (some node) with
  | none => return (-1, s)
  | some a => return (0, ← s.deleteUid a)

/-- `vfs_read` and `vfs_write`, of which `cb?` is the callback. -/
def vfsTransfer (cb? : FileEntry → Option Addr) (node : NodePtr) : Except Fault (Int32 × VfsState) := do
  match ← s.getFileEntryByNode (some node) with
  | none => return (-1, s)
  | some a =>
    match (← s.pack a).dirEntry with
    | none => .error .null
    | some e =>
      let entry ← s.entry e
      match cb? entry with
      | none => return (-1, s)
      | some cb => s.dataCb K cb entry a

def vfsRead : NodePtr → Except Fault (Int32 × VfsState) := s.vfsTransfer K FileEntry.readCb
def vfsWrite : NodePtr → Except Fault (Int32 × VfsState) := s.vfsTransfer K FileEntry.writeCb

def vfsDopen (M : ModuleCbs) (node : NodePtr) (path : CStr) (k : UidAnswer) (mods : List ModuleInfo) :
    Except Fault (Int32 × VfsState) := do
  if some node = s.rootNode then
    match ← s.getFileEntryByNode (some node) with
    | none => return (0x80000000, s)
    | some a =>
      match (← s.pack a).dirEntryRoot with
      | none => return (0x80000001, s)
      | some _ => return (0, ← s.modPack a fun d => { d with dirEntry := d.dirEntryRoot })
  else
    let (res, pDirEntry) ← s.getDirEntry path
    if res < 0 then return (-1, s)
    match pDirEntry with
    | none => .error .null
    | some e =>
      let (_, p, s) ← s.createFileItem (some node) k
      let entry ← s.entry e
      let (a, s) ← s.setData p entry.nextDir entry.nextDir entry.size
      match entry.dopenCb with
      | none => return (0, s)
      | some _ =>
        let s ← s.dopenCbModule M a mods
        let d ← s.pack a
        let s ← s.modEntry e fun entry => { entry with nextDir := d.dirEntryRoot }
        return (0, ← s.modPack a fun x => { x with dirEntry := d.dirEntryRoot })

def vfsDclose (node : NodePtr) : Except Fault (Int32 × VfsState) :=
  if some node = s.rootNode then .ok (0, s) else s.vfsClose node

/-- The stat that a listing reports of an entry, if there is one. -/
def direntStat (entry : FileEntry) : Option SceIoStat :=
  match entry.getIoStatCb with
  | none => entry.stat.map fun stat => { stat with stSize := entry.size }
  | some cb => some (K.ioStat cb entry)

/-- The result, and what is written to `args->dir`. -/
def vfsDread (node : NodePtr) : Except Fault (Int32 × Option SceIoDirent × VfsState) := do
  match ← s.getFileEntryByNode (some node) with
  | none => return (-1, none, s)
  | some a =>
    match (← s.pack a).dirEntry with
    | none => return (0, none, s)
    | some e =>
      let entry ← s.entry e
      match direntStat K entry with
      | none => return (-1, none, s)
      | some stat =>
        let s ← s.modPack a fun d => { d with dirEntry := entry.next }
        return (1, some ⟨entry.name.take 254, stat⟩, s)

end VfsState

inductive VfsCall where
  | open (node : NodePtr) (prevNode : Option NodePtr) (path : CStr) (flags : UInt32) (k : UidAnswer)
  | close (node : NodePtr)
  | read (node : NodePtr)
  | write (node : NodePtr)
  | dopen (node : NodePtr) (path : CStr) (k : UidAnswer) (mods : List ModuleInfo)
  | dclose (node : NodePtr)
  | dread (node : NodePtr)

/-- The state after a call. -/
def VfsState.vfsCall (K : Callbacks) (M : ModuleCbs) (s : VfsState) : VfsCall → Except Fault VfsState
  | .open node prevNode path flags k => return (← s.vfsOpen K node prevNode path flags k).2
  | .close node => return (← s.vfsClose node).2
  | .read node => return (← s.vfsRead K node).2
  | .write node => return (← s.vfsWrite K node).2
  | .dopen node path k mods => return (← s.vfsDopen M node path k mods).2
  | .dclose node => return (← s.vfsDclose node).2
  | .dread node => return (← s.vfsDread K node).2.2

def noCallbacks : Callbacks := ⟨fun _ _ d => (0, d.seek, d.size), fun _ _ => {}⟩
def noModuleCbs : ModuleCbs := ⟨1, 2, 3, 4⟩

end VitaUtility.VfsMountOld

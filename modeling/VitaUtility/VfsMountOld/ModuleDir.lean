import VitaUtility.VfsMountOld.CreateRun

/-!
# The directory of the modules (`module_kernel.c`)

Each time the directory is opened `dopen_cb_module` frees its entries and makes new ones, one for each segment of the modules
that the kernel lists, from the last module to the first.
-/

namespace VitaUtility.VfsMountOld
open Dmass (Addr NodePtr Store Fault SceIoStat SceDateTime SCE_S_IFREG SCE_S_IRUSR SCE_S_IWUSR lookup_insert_ite lookup_erase_ite)

def SCE_S_IROTH : UInt32 := 4
def SCE_SO_IFREG : UInt32 := 0x20
def SCE_O_WRONLY : UInt32 := 2

/-- A string by its characters. -/
def stringOf (cs : List UInt8) : CStr := cs.filterMap fun c => if h : c ≠ 0 then some ⟨c, h⟩ else none

/-- The functions that are callbacks. -/
structure ModuleCbs where
  openModuleCb : Addr
  readModuleCb : Addr
  writeModuleCb : Addr
  getIoStatModuleCb : Addr

/-- What the heap gives for a segment: a block for the entry and one for its `ModuleStat`, and whether there are blocks for
the names and the `stat`. -/
structure SegmentBlocks where
  entry : Option Addr
  args : Option Addr
  others : Bool

/-- What `sceKernelGetModuleInfo` tells of a listed module, and the blocks for the segments. -/
structure ModuleInfo where
  name : CStr
  memsz : Nat → UInt32
  blocks : Nat → SegmentBlocks

/-- `moduleTimeInc` -/
def moduleTimeInc (stat : SceIoStat) : SceIoStat :=
  let t := { stat.stCtime with second := stat.stCtime.second + 1 }
  let t := if t.second ≠ 60 then t else
    let t := { t with second := 0, minute := t.minute + 1 }
    if t.minute ≠ 60 then t else { t with minute := 0, hour := t.hour + 1 }
  { stat with stCtime := t, stAtime := t, stMtime := t }

def tmpStat : SceIoStat where
  stMode := SCE_S_IFREG ||| SCE_S_IROTH ||| SCE_S_IRUSR ||| SCE_S_IWUSR
  stAttr := SCE_SO_IFREG
  stCtime := { year := 2020, month := 11, day := 23, hour := 21, minute := 23, second := 15 }
  stAtime := { year := 2020, month := 11, day := 23, hour := 21, minute := 23, second := 15 }
  stMtime := { year := 2020, month := 11, day := 23, hour := 21, minute := 23, second := 15 }

/-- `" text"` and `" data"` -/
def segmentSuffix (seg : Nat) : CStr :=
  stringOf (if seg = 0 then [0x20, 0x74, 0x65, 0x78, 0x74] else [0x20, 0x64, 0x61, 0x74, 0x61])

/-- The loop that frees the entries from `p` on. -/
def freeEntries : (n : Nat) → (entries : Store FileEntry) → (p : Option Addr) → Except Fault (Store FileEntry)
  | _, entries, none => .ok entries
  | 0, _, some _ => .error .hang
  | n + 1, entries, some a =>
    match entries.lookup a with
    | none => .error .freed
    | some e =>
      -- the name in the `ModuleStat` is freed first
      match e.argsForStat with
      | none => .error .null
      | some _ => freeEntries n (entries.erase a) e.next

/-- The entry of a segment. -/
def ModuleInfo.entry (K : ModuleCbs) (m : ModuleInfo) (seg : Nat) (stat : SceIoStat) : FileEntry where
  openAllowFlags := VfsState.SCE_O_RDONLY ||| SCE_O_WRONLY
  name := (m.name.take 0x1F ++ segmentSuffix seg).take 0x26
  stat := some { stat with stSize := (m.memsz seg).toNat }
  size := (m.memsz seg).toNat
  openCb := some K.openModuleCb
  readCb := some K.readModuleCb
  writeCb := some K.writeModuleCb
  getIoStatCb := some K.getIoStatModuleCb
  argsForStat := (m.blocks seg).args

namespace VfsState
variable (K : ModuleCbs) (s : VfsState)

/-- A segment with any bytes gets an entry at `ppEntry`. -/
def addSegment (m : ModuleInfo) (stat : SceIoStat) (seg : Nat) (ppEntry : Link) : Except Fault (VfsState × Link) :=
  if m.memsz seg = 0 then .ok (s, ppEntry) else
  match (m.blocks seg).entry with
  | none => .error .null
  | some moduleInfo => do
    let s := { s with entries := s.entries.insert moduleInfo {} }
    let s ← s.setLink ppEntry (some moduleInfo)
    if (m.blocks seg).args = none ∨ !(m.blocks seg).others then .error .null else
    let s ← s.modEntry moduleInfo fun _ => m.entry K seg stat
    return (s, .next moduleInfo)

/-- A round of the loop over the modules. -/
def addModule (x : VfsState × Link × SceIoStat) (m : ModuleInfo) : Except Fault (VfsState × Link × SceIoStat) := do
  let (s, ppEntry, stat) := x
  let (s, ppEntry) ← s.addSegment K m stat 0 ppEntry
  let (s, ppEntry) ← s.addSegment K m stat 1 ppEntry
  return (s, ppEntry, moduleTimeInc stat)

/-- `dopen_cb_module`; without a module the loop takes the index -1. -/
def dopenCbModule (data : Addr) (mods : List ModuleInfo) : Except Fault VfsState := do
  let d ← s.pack data
  let entries ← freeEntries s.entries.keys.card s.entries d.dirEntryRoot
  let s ← { s with entries := entries }.modPack data fun d => { d with dirEntryRoot := none }
  if mods.isEmpty then .error .overrun else
  let x ← mods.reverse.foldlM (addModule K) (s, .root data, tmpStat)
  return x.1

end VfsState

end VitaUtility.VfsMountOld

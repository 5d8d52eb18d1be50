import VitaUtility.Lib.Bytes
import VitaUtility.Lib.Chain
import VitaUtility.Dmass.State

/-!
# `fs_tool.c`

Names, path resolution, entries and handle objects. `strchr` and the pointers into a path are
suffixes of the path; pointer differences are lengths. A loop over a sibling list may follow as many
links as there are live entries: after that it has met a cell twice and never ends (`Fault.hang`).
-/

namespace VitaUtility.Dmass

/-- `pTree = pEntry`, once. -/
def setFsRoot (pEntry : Addr) (s : VfsState) : Int × VfsState :=
  if s.pTree.isSome then (-1, s) else (0, { s with pTree := some pEntry })

/-- `name_cpy`, whose allocation is the `i`-th of the call. -/
def nameCpy (k : Answers) (i : Nat) (str : CStr) (s : VfsState) : Option NameBlock × VfsState :=
  if str.length = 0 then (none, s) else
  match s.malloc k i with
  | (none, s) => (none, s)
  | (some res, s) => (some ⟨res, str⟩, s)

/-! ### Path resolution -/

/-- One round of the sibling loop: does `pTreeLoc` have the name, and where does its `next` point?
`memcmp` stops at the first difference, at the latest at a terminator, so it stays in both strings. -/
def peekName (s : VfsState) (name : CStr) (len : Nat) (pTreeLoc : Addr) :
    Except Fault (Bool × Option Addr) := do
  let f ← s.entry pTreeLoc
  match f.name with
  | none => .error .null
  | some b => return (b.str.take len == name.take len && (b.str[len]?).isNone, f.next)

/-- The loop `while(current[0] != 0)`, with the list `pTreeLoc` carried over. `fuel` counts characters:
each round drops a slash at least. -/
def getFsEntryLoop (s : VfsState) : Nat → CStr → Option Addr → Except Fault (Except Int (Option Addr))
  | _, [], pTreeLoc => .ok (.ok pTreeLoc)
  | 0, _ :: _, _ => .error .hang
  | fuel + 1, current, pTreeLoc =>
    match strchr current slash with
    | none => .ok (.error (-2))
    | some s1 =>
    let s2 := (strchr s1.tail slash).getD []
    let len := s1.length - s2.length - 1
    if len = 0 then .ok (.error (-2)) else do -- "//file.bin"
    match ← findLink (peekName s s1.tail len) .hang s.entries.keys.card none pTreeLoc with
    | none => return .error (sceError 0x80010002)
    | some (_, e) =>
    let f ← s.entry e
    getFsEntryLoop s fuel s2 (if s2.head? = some slash then f.nextDir else some e)

/-- `.ok p`: 0 is returned and `*ppEntry = p`; `.error r`: `r` is returned, `*ppEntry` is not written. -/
def getFsEntryInternal (path : Option CStr) (s : VfsState) : Except Fault (Except Int (Option Addr)) :=
  match path with
  | none => .ok (.error (-1))
  | some path =>
  if path.head? ≠ some slash then .ok (.error (-1)) else
  getFsEntryLoop s path.length path s.pTree

def getFsEntry (path : Option CStr) (s : VfsState) : Except Fault (Except Int (Option Addr)) :=
  getFsEntryInternal path s

/-! ### Names -/

/-- `':'` -/
def colon : CChar := ⟨0x3A, by decide⟩

/-- `"\\/:*?\"<>|"` -/
def badChars : CStr :=
  [⟨0x5C, by decide⟩, slash, colon, ⟨0x2A, by decide⟩, ⟨0x3F, by decide⟩,
    ⟨0x22, by decide⟩, ⟨0x3C, by decide⟩, ⟨0x3E, by decide⟩, ⟨0x7C, by decide⟩]

def checkNameInternal (ch : CChar) : CStr → Int
  | [] => 0
  | c :: list => if ch = c then sceError 0x80020005 else checkNameInternal ch list

def checkName : CStr → Int
  | [] => 0
  | c :: name =>
    let res := checkNameInternal c badChars
    if res < 0 then res else checkName name

/-! ### Entries -/

/-- `init_entry_date` on a zeroed `stat`. -/
def initEntryDate (k : Answers) (stat : SceIoStat) : Int × SceIoStat :=
  match k.rtc with
  | .error res => (res.1, stat)
  | .ok datetime => (0, { stCtime := datetime, stAtime := datetime, stMtime := datetime })

/-- A new entry after `memset` and the assignments to its fields. -/
def newDmassFs (mode : UInt32) (k : Answers) (name : Option NameBlock) : FapsDmassFs where
  next := none
  nextDir := none
  pNode := none
  pDmassFsX := []
  refer := 0
  name := name
  stat := { (initEntryDate k {}).2 with stMode := mode }
  data := none

/-- What `create_dmass_file_info` and `create_dmass_dir_info` share; they differ in the mode. The block
counts as an entry from its `memset` on. The first copy of the name is kept by no pointer. -/
def createDmassInfo (mode : UInt32) (k : Answers) (name : CStr) (s : VfsState) : Option Addr × VfsState :=
  match s.malloc k 0 with
  | (none, s) => (none, s)
  | (some pDmassFs, s) =>
  match nameCpy k 1 name s with
  | (none, s) => (none, s.dmassFree (some pDmassFs))
  | (some _newName, s) =>
  match nameCpy k 2 name s with
  | (name, s) =>
    (some pDmassFs, { s with
      entries := s.entries.insert pDmassFs (newDmassFs mode k name), bufs := s.bufs.erase pDmassFs })

def createDmassFileInfo : Answers → CStr → VfsState → Option Addr × VfsState :=
  createDmassInfo (SCE_S_IWUSR ||| SCE_S_IRUSR ||| SCE_S_IFREG)

def createDmassDirInfo : Answers → CStr → VfsState → Option Addr × VfsState :=
  createDmassInfo (SCE_S_IWUSR ||| SCE_S_IRUSR ||| SCE_S_IFDIR)

def deleteDmassInfo (pDmassFs : Addr) (s : VfsState) : Except Fault (Int × VfsState) := do
  let f ← s.entry pDmassFs
  if f.refer ≠ 0 then return (-1, s) else -- Has other refer
  if f.pDmassFsX ≠ [] then return (-2, s) else -- Has other refer object
  let s := (s.dmassFree (f.name.map (·.addr))).dmassFree (f.data.map (·.addr))
  return (0, { s with entries := s.entries.erase pDmassFs })

/-! ### Handle objects -/

def createDmassCtlData (k : Answers) (pDmassFs : Addr) (key : Int32) (s : VfsState) :
    Except Fault (Option Addr × VfsState) :=
  match s.malloc k 0 with
  | (none, s) => .ok (none, s)
  | (some pObject, s) => do
    let _ ← s.entry pDmassFs
    return (some pObject, s.modEntry pDmassFs fun f => { f with
      pDmassFsX := ⟨pObject, key, none⟩ :: f.pDmassFsX
      refer := f.refer + 1 })

/-- The unlinking loop of `delete_dmass_ctl_data`: the first object of the key, and the list without it. -/
def unlinkCtlData (key : Int32) : List FapsDmassFsX → Option (FapsDmassFsX × List FapsDmassFsX)
  | [] => none
  | pObject :: next =>
    if key = pObject.handlerIndex then some (pObject, next)
    else (unlinkCtlData key next).map fun r => (r.1, pObject :: r.2)

def deleteDmassCtlData (pDmassFs : Addr) (key : Int32) (s : VfsState) : Except Fault (Int × VfsState) := do
  let f ← s.entry pDmassFs
  match unlinkCtlData key f.pDmassFsX with
  | none => return (-2, s)
  | some (pObject, rest) =>
    let s := s.modEntry pDmassFs fun f => { f with pDmassFsX := rest, refer := f.refer - 1 }
    return (0, s.dmassFree (some pObject.addr))

def searchDmassCtlData (key : Int32) : List FapsDmassFsX → Option FapsDmassFsX
  | [] => none
  | pObject :: next => if key = pObject.handlerIndex then some pObject else searchDmassCtlData key next

/-- A write through the pointer `search_dmass_ctl_data` returned. -/
def modCtlData (key : Int32) (g : FapsDmassFsX → FapsDmassFsX) : List FapsDmassFsX → List FapsDmassFsX
  | [] => []
  | pObject :: next =>
    if key = pObject.handlerIndex then g pObject :: next else pObject :: modCtlData key g next

end VitaUtility.Dmass

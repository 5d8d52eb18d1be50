import VitaUtility.Dmass.FsTool

/-!
# The `vop_*` table of `main.c`: namespace and listing operations

Each function takes the answers `k` of the outside modules (when it calls any), the arguments and the
state, and gives the value it returns with the new state, or the fault it runs into. A vnode that
a call hands back through a pointer argument is returned as an `Option NodePtr`.
-/

namespace VitaUtility.Dmass

/-- `"md"` -/
def mdName : CStr := [⟨0x6D, by decide⟩, ⟨0x64, by decide⟩]

/-- `ksceVfsGetNewNode`, reading `mount->pVfsAddParam`, then `ksceVfsNodeWaitEventFlag`, after whose
failure the vnode is freed. -/
def VfsState.newNode (s : VfsState) (k : Answers) (mount : Option MountPtr) :
    Except Fault (Except Int NodePtr × VfsState) :=
  match mount with
  | none => .error .null
  | some _ =>
  match k.newNode s.nodesInUse with
  | .error res => .ok (.error res.1, s)
  | .ok pNode =>
    if k.waitEventFlag < 0 then .ok (.error k.waitEventFlag, { s with vnodes := s.vnodes.erase pNode.1 })
    else .ok (.ok pNode.1, { s with vnodes := s.vnodes.insert pNode.1 {} })

def vfsMountFunc (s : VfsState) : Int × VfsState := (0, s)

def vfsUmountFunc (s : VfsState) : Int × VfsState := (0, s)

def vfsSetRoot (k : Answers) (argp : Option SceVfsopSetRootArgs) (s : VfsState) :
    Except Fault (Int × VfsState) :=
  match argp with
  | none => .ok (sceError 0x80010016, s)
  | some argp =>
  match argp.pMount with
  | none => .ok (sceError 0x80010016, s)
  | some pMount =>
  match createDmassDirInfo k mdName s with
  | (none, s) => .ok (-1, s)
  | (some pDmassFs, s) => do
    let _ ← s.node argp.pNode
    let s := s.modEntry pDmassFs fun f => { f with pNode := some argp.pNode }
    let s := (setFsRoot pDmassFs s).2
    return (0, s.modNode argp.pNode fun n => { n with
      devInfo := some pDmassFs, mount := some pMount, prevNode := none, unk60 := 0, unk64 := 0,
      unk74 := 1, unk78 := 0x1002, stSize := 0, stAttr := 0, unk8C := 0 })

/-- What `vop_create` and `vop_mkdir` share: the new entry is linked before its vnode is made. -/
def makeEntry (create : Answers → CStr → VfsState → Option Addr × VfsState) (unk78 stAttr : UInt32)
    (k : Answers) (node : NodePtr) (fileInfo : SceVfsPath) (s : VfsState) :
    Except Fault (Int × Option NodePtr × VfsState) := do
  match ← getFsEntry fileInfo.path s with
  | .ok _ => return (sceError 0x80010011, none, s) -- Directory already exist
  | .error _ =>
  match create k fileInfo.name s with
  | (none, s) => return (-1, none, s)
  | (some pDmassFs, s) =>
  let n ← s.node node
  let (d, _) ← s.deref n.devInfo
  match ← (s.pushEntry d pDmassFs).newNode k n.mount with
  | (.error res, s) => return (res, none, s)
  | (.ok pNode, s) =>
  let s := s.modEntry pDmassFs fun f => { f with pNode := some pNode }
  return (0, some pNode, s.modNode pNode fun n' => { n' with
    mount := n.mount, stSize := 0, devInfo := some pDmassFs, prevNode := some node, unk74 := 1,
    unk78 := unk78, stAttr := stAttr, unk8C := 0, someCounter58 := 1 })

def vopCreate (k : Answers) (argp : SceVopCreateArgs) (s : VfsState) :
    Except Fault (Int × Option NodePtr × VfsState) :=
  makeEntry createDmassFileInfo (SCE_S_IXUSR ||| SCE_S_IWUSR ||| SCE_S_IRUSR)
    (SCE_SO_IXOTH ||| SCE_SO_IWOTH ||| SCE_SO_IROTH) k argp.pNode argp.fileInfo s

/-- `vop_lookup` -/
def vopPartInit (k : Answers) (argp : SceVfsPartInit) (s : VfsState) :
    Except Fault (Int × Option NodePtr × VfsState) := do
  let res := checkName argp.pathInfo.name
  if res = sceError 0x80020005 then return (sceError 0x80010002, none, s) else
  if res < 0 then return (res, none, s) else
  let n ← s.node argp.node
  if n.mount = none then return (sceError 0x80010016, none, s) else
  match ← getFsEntry argp.pathInfo.path s with
  | .error res => return (res, none, s)
  | .ok pEntry =>
  match ← s.newNode k n.mount with
  | (.error res, s) => return (res, none, s)
  | (.ok pNode, s) =>
  let (e, f) ← s.deref pEntry
  let s := s.modEntry e fun f => { f with pNode := some pNode }
  return (0, some pNode, s.modNode pNode fun n' => { n' with
    devInfo := some e, mount := n.mount, prevNode := some argp.node, unk74 := 1,
    stAttr := f.stat.stAttr, stSize := f.stat.stSize, unk8C := 0, someCounter58 := 1,
    unk78 := if isDir f.stat.stMode then SCE_S_IWUSR else SCE_S_IXUSR })

/-- One round of the loops of `vop_remove`, `vop_rmdir` and `vop_rename` over `*ppFsInfo`. -/
def peekEntry (s : VfsState) (pEntry a : Addr) : Except Fault (Bool × Option Addr) := do
  let f ← s.entry a
  return (pEntry == a, f.next)

/-- The link in the list of the directory `d` that points at `pEntry`. -/
def findEntryLink (s : VfsState) (d pEntry : Addr) : Except Fault (Option (Option Addr × Addr)) :=
  findLink (peekEntry s pEntry) .hang s.entries.keys.card none (s.head (some d))

/-- The loop of `vop_remove` and `vop_rmdir`: `pEntry` is unlinked where it is met, then deleted. -/
def unlinkAndDelete (node : NodePtr) (pEntry : Addr) (s : VfsState) : Except Fault (Int × VfsState) := do
  let n ← s.node node
  let (d, _) ← s.deref n.devInfo
  match ← findEntryLink s d pEntry with
  | none => return (sceError 0x80010002, s)
  | some (pred, _) =>
  let f ← s.entry pEntry
  deleteDmassInfo pEntry (s.setLink d pred f.next)

def vopRemove (argp : SceVfsPartDeinit) (s : VfsState) : Except Fault (Int × VfsState) := do
  match ← getFsEntry argp.fileInfo.path s with
  | .error _ => return (sceError 0x80010002, s)
  | .ok pEntry =>
  let (e, f) ← s.deref pEntry
  if ¬ isReg f.stat.stMode then return (-1, s) else -- Not file
  unlinkAndDelete argp.node e s

def vopMkdir (k : Answers) (argp : SceVopMkdirArgs) (s : VfsState) :
    Except Fault (Int × Option NodePtr × VfsState) := do
  let n ← s.node argp.node
  let (_, f) ← s.deref n.devInfo
  if ¬ isDir f.stat.stMode then return (sceError 0x80010014, none, s) else -- Not directory
  makeEntry createDmassDirInfo SCE_S_IWUSR
    (SCE_SO_IXOTH ||| SCE_SO_IWOTH ||| SCE_SO_IROTH ||| SCE_SO_IFDIR) k argp.node argp.fileInfo s

def vopRmdir (argp : SceVopRmdirArgs) (s : VfsState) : Except Fault (Int × VfsState) := do
  match ← getFsEntry argp.fileInfo.path s with
  | .error res => return (res, s)
  | .ok pEntry =>
  let (e, f) ← s.deref pEntry
  if f.nextDir ≠ none then return (sceError 0x80010011, s) else -- Directory is have more entries
  if ¬ isDir f.stat.stMode then return (sceError 0x80010014, s) else -- Not directory
  unlinkAndDelete argp.node e s

def vopRename (k : Answers) (argp : SceVopRenameArgs) (s : VfsState) :
    Except Fault (Int × Option NodePtr × VfsState) := do
  let n ← s.node argp.node
  let n2 ← s.node argp.node2
  if n.mount ≠ n2.mount then return (sceError 0x80010001, none, s) else
  match ← getFsEntry argp.fileInfoOld.path s with
  | .error res => return (res, none, s)
  | .ok pEntryOld =>
  let (d, _) ← s.deref n.devInfo
  let (e, _) ← s.deref pEntryOld
  match ← findEntryLink s d e with
  | none => return (sceError 0x80010002, none, s)
  | some (pred, _) =>
  match ← s.newNode k n.mount with
  | (.error res, s) => return (res, none, s)
  | (.ok pNode, s) =>
  let f ← s.entry e
  let s := s.setLink d pred f.next
  let n3 ← s.node argp.node3
  let (d3, _) ← s.deref n3.devInfo
  let s := (s.pushEntry d3 e).dmassFree (f.name.map (·.addr))
  match nameCpy k 0 argp.fileInfoNew.name s with
  | (name, s) =>
  let s := s.modEntry e fun f => { f with name := name }
  let old ← s.derefNode f.pNode
  let s := s.modNode pNode fun n' => { n' with
    mount := old.mount, stSize := old.stSize, devInfo := some e, prevNode := f.pNode, unk74 := 1,
    unk78 := old.unk78, stAttr := old.stAttr, unk8C := old.unk8C, someCounter58 := 1 }
  return (0, some pNode, s.modEntry e fun f => { f with pNode := some pNode })

/-! ### Listing -/

def vopDopen (k : Answers) (argp : SceVfsDopen) (s : VfsState) : Except Fault (Int × VfsState) := do
  let n ← s.node argp.node
  match n.devInfo with
  | none => return (-1, s)
  | some pEntry =>
  match ← createDmassCtlData k pEntry argp.pVfsFileObject.toInt32 s with
  | (none, s) => return (sceError 0x80010016, s)
  | (some _, s) =>
  -- the new object is the first of the list
  return (0, s.modEntry pEntry fun f => { f with
    pDmassFsX := f.pDmassFsX.modifyHead fun pObject => { pObject with current := f.nextDir } })

def vopDclose (argp : SceVfsDclose) (s : VfsState) : Except Fault (Int × VfsState) := do
  let n ← s.node argp.node
  match n.devInfo with
  | none => return (-1, s)
  | some pEntry =>
  let f ← s.entry pEntry
  match searchDmassCtlData argp.pVfsFileObject.toInt32 f.pDmassFsX with
  | none => return (sceError 0x80010016, s)
  | some _ =>
  match ← deleteDmassCtlData pEntry argp.pVfsFileObject.toInt32 s with
  | (res, s) => if res < 0 then return (sceError 0x80010016, s) else return (0, s)

/-- `strncpy(d_name, name, 0xFF)` into a buffer that ends in a terminator. -/
def vopDread (argp : SceVfsDread) (s : VfsState) : Except Fault (Int × Option SceIoDirent × VfsState) := do
  let n ← s.node argp.node
  match n.devInfo with
  | none => return (-1, none, s)
  | some pEntry =>
  let f ← s.entry pEntry
  match searchDmassCtlData argp.pVfsFileObject.toInt32 f.pDmassFsX with
  | none => return (sceError 0x80010016, none, s)
  | some pObject =>
  match pObject.current with
  | none => return (0, none, s)
  | some current =>
  let c ← s.entry current
  match c.name with
  | none => .error .null
  | some name =>
  return (1, some ⟨name.str.take 0xFF, c.stat⟩, s.modEntry pEntry fun f => { f with
    pDmassFsX := modCtlData argp.pVfsFileObject.toInt32 (fun x => { x with current := c.next }) f.pDmassFsX })

def vopInactive (argp : SceVopInactiveArgs) (s : VfsState) : Except Fault (Int × VfsState) :=
  match argp.node with
  | none => .ok (sceError 0x80010016, s)
  | some node => do
  let n ← s.node node
  match n.devInfo with
  | none => return (0, s.modNode node fun n => { n with devInfo := none })
  | some pEntry =>
  let _ ← s.entry pEntry
  let s := s.modEntry pEntry fun f => { f with pNode := none }
  return (0, s.modNode node fun n => { n with devInfo := none })

end VitaUtility.Dmass

import Mathlib.Data.Finmap
import VitaUtility.CStr

/-!
# Types of the `SceVfsMountPoC` driver (`vfs.h`, `fs_tool.h`)

The driver keeps a file system in the kernel heap `FapsVfsHeap` and serves it to SceIofilemgr through
a table of `vop_*` functions. Entries (`FapsDmassFs`) point at each other and are pointed at by vnodes
and by listing cursors, so they are cells of a store. A name, a data buffer and the list of handle
objects are reached through one entry only, so they are values of its fields, with the addresses of
their blocks. A `SceOff` is an `Int`. Fields that no modelled function reads or writes are left out.
-/

namespace VitaUtility.Dmass

/-- The address of a block of `FapsVfsHeap`. -/
abbrev Addr := Nat
/-- A `SceVfsNode *` -/
abbrev NodePtr := Nat
/-- A `SceVfsMountInfo *` -/
abbrev MountPtr := Nat
/-- A `SceVfsFileObject *` -/
abbrev FilePtr := UInt32

abbrev Store (α : Type) := Finmap fun _ : Nat => α

/-- What a call may do instead of returning. -/
inductive Fault where
  /-- a NULL pointer is followed -/
  | null
  /-- a pointer to a freed block or vnode is followed -/
  | freed
  /-- a `memcpy` leaves its block -/
  | overrun
  /-- a loop over a cyclic list does not end -/
  | hang
  deriving DecidableEq, Repr

/-! ### Constants of the SDK -/

def SCE_S_IFMT : UInt32 := 0xF000
def SCE_S_IFREG : UInt32 := 0x2000
def SCE_S_IFDIR : UInt32 := 0x1000
def SCE_S_IRUSR : UInt32 := 0o400
def SCE_S_IWUSR : UInt32 := 0o200
def SCE_S_IXUSR : UInt32 := 0o100

def SCE_SO_IFDIR : UInt32 := 0x10
def SCE_SO_IROTH : UInt32 := 4
def SCE_SO_IWOTH : UInt32 := 2
def SCE_SO_IXOTH : UInt32 := 1

def SCE_O_APPEND : UInt32 := 0x100

def SCE_SEEK_SET : Int := 0
def SCE_SEEK_CUR : Int := 1
def SCE_SEEK_END : Int := 2

def SCE_CST_MODE : UInt32 := 0x0001
def SCE_CST_SIZE : UInt32 := 0x0004
def SCE_CST_CT : UInt32 := 0x0008
def SCE_CST_AT : UInt32 := 0x0010
def SCE_CST_MT : UInt32 := 0x0020

/-- `SCE_S_ISREG` -/
def isReg (mode : UInt32) : Prop := mode &&& SCE_S_IFMT = SCE_S_IFREG
/-- `SCE_S_ISDIR` -/
def isDir (mode : UInt32) : Prop := mode &&& SCE_S_IFMT = SCE_S_IFDIR

instance (mode : UInt32) : Decidable (isReg mode) := inferInstanceAs (Decidable (_ = _))
instance (mode : UInt32) : Decidable (isDir mode) := inferInstanceAs (Decidable (_ = _))

/-- An error code as the `int` it is returned as. -/
def sceError (code : UInt32) : Int := code.toInt32.toInt

/-! ### Entries -/

structure SceDateTime where
  year : UInt16 := 0
  month : UInt16 := 0
  day : UInt16 := 0
  hour : UInt16 := 0
  minute : UInt16 := 0
  second : UInt16 := 0
  microsecond : UInt32 := 0
  deriving DecidableEq

structure SceIoStat where
  stMode : UInt32 := 0
  stAttr : UInt32 := 0
  stSize : Int := 0
  stCtime : SceDateTime := {}
  stAtime : SceDateTime := {}
  stMtime : SceDateTime := {}
  deriving DecidableEq

/-- A heap block holding a name. -/
structure NameBlock where
  addr : Addr
  str : CStr
  deriving DecidableEq

/-- A heap block holding file data; its size is the length of `bytes`. -/
structure DataBlock where
  addr : Addr
  bytes : List UInt8
  deriving DecidableEq

/-- A handle object; its `next` is its tail in the list of its entry. -/
structure FapsDmassFsX where
  addr : Addr
  handlerIndex : Int32
  /-- for dread -/
  current : Option Addr
  deriving DecidableEq

structure FapsDmassFs where
  next : Option Addr
  nextDir : Option Addr
  pNode : Option NodePtr
  pDmassFsX : List FapsDmassFsX
  refer : UInt32
  name : Option NameBlock
  stat : SceIoStat
  data : Option DataBlock
  deriving DecidableEq

/-! ### Kernel objects -/

/-- The `core` of a vnode. -/
structure SceVfsNode where
  devInfo : Option Addr := none
  mount : Option MountPtr := none
  prevNode : Option NodePtr := none
  unk60 : UInt32 := 0
  unk64 : UInt32 := 0
  unk74 : UInt32 := 0
  unk78 : UInt32 := 0
  stSize : Int := 0
  stAttr : UInt32 := 0
  unk8C : UInt32 := 0
  someCounter58 : UInt32 := 0
  deriving DecidableEq

structure SceVfsFileObject where
  flags : UInt32 := 0
  offset : Int := 0
  node : NodePtr := 0
  deriving DecidableEq

/-- What the modules outside this repository answer during one call. -/
structure Answers where
  /-- `ksceKernelAllocHeapMemory`: the answer to the `i`-th allocation of the call when the blocks `L`
  are live (`none`: NULL) -/
  malloc : (i : Nat) → (L : Finset Addr) → Option { a : Addr // a ∉ L }
  /-- what an allocated block holds -/
  garbage : Nat → UInt8
  /-- `ksceVfsGetNewNode`, when the vnodes `L` are in use -/
  newNode : (L : Finset NodePtr) → Except { r : Int // r < 0 } { v : NodePtr // v ∉ L }
  /-- `ksceVfsNodeWaitEventFlag` -/
  waitEventFlag : Int
  /-- `ksceRtcGetCurrentTick` and `ksceRtcConvertTickToDateTime` -/
  rtc : Except { r : Int // r < 0 } SceDateTime

/-- The block that the `i`-th allocation of the call gives. -/
def Answers.block (k : Answers) (i : Nat) (L : Finset Addr) : Option Addr := (k.malloc i L).map (·.1)

/-- Every allocation succeeds. -/
def Answers.mallocs (k : Answers) : Prop := ∀ i L, (k.malloc i L).isSome

/-! ### Arguments of the calls -/

structure SceVfsPath where
  name : CStr
  path : Option CStr

structure SceVfsopSetRootArgs where
  pMount : Option MountPtr
  pNode : NodePtr

structure SceVfsOpen where
  node : NodePtr
  pVfsFileObject : FilePtr

structure SceVopCreateArgs where
  pNode : NodePtr
  fileInfo : SceVfsPath

structure SceVfsClose where
  node : NodePtr
  pVfsFileObject : FilePtr

/-- The arguments of `vop_lookup`; `pathInfo` has the `name` and `path` of `SceVopPartPath`. -/
structure SceVfsPartInit where
  node : NodePtr
  pathInfo : SceVfsPath

structure SceVfsPartDeinit where
  node : NodePtr
  fileInfo : SceVfsPath

structure SceVfsRead where
  node : NodePtr
  pVfsFileObject : FilePtr
  nbyte : UInt32

structure SceVfsWrite where
  node : NodePtr
  pVfsFileObject : FilePtr
  /-- the bytes from the caller's pointer on -/
  data : Nat → UInt8
  nbyte : UInt32

structure SceVfsDopen where
  node : NodePtr
  pVfsFileObject : FilePtr

structure SceVfsDclose where
  node : NodePtr
  pVfsFileObject : FilePtr

structure SceVfsDread where
  node : NodePtr
  pVfsFileObject : FilePtr

/-- What `vop_dread` fills in. -/
structure SceIoDirent where
  dName : CStr
  dStat : SceIoStat
  deriving DecidableEq

structure SceVopInactiveArgs where
  node : Option NodePtr

structure SceVopLseekArgs where
  node : NodePtr
  pVfsFileObject : FilePtr
  offset : Int64
  where_ : Int

structure SceVopMkdirArgs where
  node : NodePtr
  fileInfo : SceVfsPath

structure SceVopRmdirArgs where
  node : NodePtr
  fileInfo : SceVfsPath

structure SceVopChstatArgs where
  node : NodePtr
  fileInfo : SceVfsPath
  stat : SceIoStat
  bit : UInt32

structure SceVopChstatByFdArgs where
  pNode : NodePtr
  stat : SceIoStat
  bit : UInt32

structure SceVopRenameArgs where
  node : NodePtr
  node2 : NodePtr
  fileInfoOld : SceVfsPath
  node3 : NodePtr
  fileInfoNew : SceVfsPath

structure SceVopPreadArgs where
  node : NodePtr
  pVfsFileObject : FilePtr
  nbyte : UInt32
  offset : Int64

structure SceVopPwriteArgs where
  node : NodePtr
  pVfsFileObject : FilePtr
  data : Nat → UInt8
  nbyte : UInt32
  offset : Int64

end VitaUtility.Dmass

import VitaUtility.Dmass.Vop

/-!
# The `vop_*` table of `main.c`: data operations

64-bit sums that the guards before them keep small are taken in `Int`; the others (`vop_lseek`,
`FAPS_DMASS_BLOCK_ALIGN`) wrap. Pointers are 32-bit, so an offset into a buffer counts modulo `2 ^ 32`.
-/

namespace VitaUtility.Dmass

/-- `FAPS_DMASS_BLOCK_ALIGN` on a signed 64-bit value. -/
def blockAlign (value : Int) : Int :=
  ((BitVec.ofInt 64 value + 0x1FF#64) &&& ~~~0x1FF#64).toInt

/-- A conversion to `SceSize` or `size_t`. -/
def toSize (x : Int) : Nat := (x % 0x100000000).toNat

/-- A conversion of a `SceSize` to `SceSSize`. -/
def toSSize (n : Nat) : Int := Int.bmod n 0x100000000

/-- `memcpy(.., data + offset, n)` -/
def memRead (data : Option DataBlock) (offset : Int) (n : Nat) : Except Fault (List UInt8) :=
  if n = 0 then .ok [] else
  match data with
  | none => .error .null
  | some b =>
    if toSize offset + n ≤ b.bytes.length then .ok (slice b.bytes (toSize offset) n) else .error .overrun

/-- `memcpy(data + offset, src, ..)` -/
def memWrite (data : Option DataBlock) (offset : Int) (src : List UInt8) :
    Except Fault (Option DataBlock) :=
  if src = [] then .ok data else
  match data with
  | none => .error .null
  | some b =>
    if toSize offset + src.length ≤ b.bytes.length then
      .ok (some { b with bytes := splice b.bytes (toSize offset) src })
    else .error .overrun

/-- `dmass_malloc` of a data buffer. -/
def dmassMalloc (k : Answers) (length : Nat) (s : VfsState) : Option DataBlock × VfsState :=
  match s.malloc k 0 with
  | (none, s) => (none, s)
  | (some a, s) => (some ⟨a, fill k.garbage length⟩, s)

/-- `memcpy(temp_data, pEntry->data, st_size); dmass_free(pEntry->data); pEntry->data = temp_data;` -/
def moveData (e : Addr) (temp : DataBlock) (s : VfsState) : Except Fault VfsState := do
  let f ← s.entry e
  let old ← memRead f.data 0 (toSize f.stat.stSize)
  let temp ← memWrite (some temp) 0 old
  return (s.dmassFree (f.data.map (·.addr))).modEntry e fun f => { f with data := temp }

/-- The growth test of `vop_write` and `vop_pwrite` with its block; `none`: `dmass_malloc` failed. -/
def growData (k : Answers) (e : Addr) (wSize : Nat) (s : VfsState) : Except Fault (Option VfsState) := do
  let f ← s.entry e
  if blockAlign (f.stat.stSize + wSize) > blockAlign f.stat.stSize then
    match dmassMalloc k (toSize (blockAlign (f.stat.stSize + wSize))) s with
    | (none, _) => return none
    | (some tempData, s) =>
      let s ← moveData e tempData s
      return some s
  else return some s

def vopOpen (k : Answers) (argp : SceVfsOpen) (s : VfsState) : Except Fault (Int × VfsState) := do
  let n ← s.node argp.node
  match n.devInfo with
  | none => return (-1, s)
  | some pEntry =>
  match ← createDmassCtlData k pEntry argp.pVfsFileObject.toInt32 s with
  | (none, s) => return (-1, s)
  | (some _, s) =>
  let f ← s.entry pEntry
  if (s.files argp.pVfsFileObject).flags &&& SCE_O_APPEND ≠ 0 then
    return (0, s.setOffset argp.pVfsFileObject f.stat.stSize)
  else return (0, s)

def vopClose (argp : SceVfsClose) (s : VfsState) : Except Fault (Int × VfsState) := do
  let n ← s.node argp.node
  match n.devInfo with
  | none => return (-1, s)
  | some pEntry =>
  let f ← s.entry pEntry
  match searchDmassCtlData argp.pVfsFileObject.toInt32 f.pDmassFsX with
  | none => return (-1, s)
  | some _ =>
  match ← deleteDmassCtlData pEntry argp.pVfsFileObject.toInt32 s with
  | (res, s) => if res < 0 then return (res, s) else return (0, s)

def vopRead (argp : SceVfsRead) (s : VfsState) : Except Fault (Int × List UInt8 × VfsState) := do
  let n ← s.node argp.node
  match n.devInfo with
  | none => return (-1, [], s)
  | some pEntry =>
  let f ← s.entry pEntry
  let o := s.files argp.pVfsFileObject
  match searchDmassCtlData argp.pVfsFileObject.toInt32 f.pDmassFsX with
  | none => return (-1, [], s)
  | some _ =>
  if f.stat.stSize > 0xFFFFFFFF ∨ o.offset > 0xFFFFFFFF then return (-1, [], s) else
  if argp.node ≠ o.node then return (-3, [], s) else
  if argp.nbyte = 0xdeadbeef then return (-2, [], s) else
  let remainSize := f.stat.stSize - o.offset
  if remainSize > 0xFFFFFFFF ∨ remainSize < 0 then return (-1, [], s) else
  let rSize := if argp.nbyte.toNat ≥ toSize remainSize then toSize remainSize else argp.nbyte.toNat
  let data ← memRead f.data o.offset rSize
  return (toSSize rSize, data, s.setOffset argp.pVfsFileObject (o.offset + rSize))

def vopWrite (k : Answers) (argp : SceVfsWrite) (s : VfsState) : Except Fault (Int × VfsState) := do
  let n ← s.node argp.node
  match n.devInfo with
  | none => return (-1, s)
  | some pEntry =>
  let f ← s.entry pEntry
  let o := s.files argp.pVfsFileObject
  match searchDmassCtlData argp.pVfsFileObject.toInt32 f.pDmassFsX with
  | none => return (-1, s)
  | some _ =>
  if n.stSize > 0xFFFFFFFF ∨ o.offset > 0xFFFFFFFF then return (-1, s) else
  if argp.node ≠ o.node then return (-3, s) else
  let wSize := argp.nbyte.toNat
  match ← growData k pEntry wSize s with
  | none => return (-2, s)
  | some s =>
  let f ← s.entry pEntry
  let data ← memWrite f.data o.offset (fill argp.data wSize)
  let offset := o.offset + wSize
  let s := (s.modEntry pEntry fun f => { f with data := data }).setOffset argp.pVfsFileObject offset
  if offset ≥ f.stat.stSize then
    let s := s.modEntry pEntry fun f => { f with stat := { f.stat with stSize := offset } }
    return (toSSize wSize, s.modNode argp.node fun n => { n with stSize := offset })
  else return (toSSize wSize, s)

def vopLseek (argp : SceVopLseekArgs) (s : VfsState) : Except Fault (Int × VfsState) := do
  let n ← s.node argp.node
  let o := s.files argp.pVfsFileObject
  let offset : Option Int :=
    if argp.where_ = SCE_SEEK_SET then some argp.offset.toInt
    else if argp.where_ = SCE_SEEK_CUR then some (Int.bmod (o.offset + argp.offset.toInt) (2 ^ 64))
    else if argp.where_ = SCE_SEEK_END then some (Int.bmod (n.stSize + argp.offset.toInt) (2 ^ 64))
    else none
  match offset with
  | none => return (sceError 0x80010016, s)
  | some offset =>
  if offset > n.stSize ∨ offset < 0 then return (sceError 0x80010016, s) else
  return (offset, s.setOffset argp.pVfsFileObject offset)

def vopPread (argp : SceVopPreadArgs) (s : VfsState) : Except Fault (Int × List UInt8) := do
  let n ← s.node argp.node
  match n.devInfo with
  | none => return (-1, [])
  | some pEntry =>
  let f ← s.entry pEntry
  match searchDmassCtlData argp.pVfsFileObject.toInt32 f.pDmassFsX with
  | none => return (-1, [])
  | some _ =>
  let offset := argp.offset.toInt
  if n.stSize > 0xFFFFFFFF ∨ offset > 0xFFFFFFFF then return (-1, []) else
  if offset > n.stSize then return (-1, []) else
  if argp.node ≠ (s.files argp.pVfsFileObject).node then return (-3, []) else
  if offset ≥ n.stSize then return (0, []) else
  let remainSize := n.stSize - offset
  let rSize := if argp.nbyte.toNat ≥ toSize remainSize then toSize remainSize else argp.nbyte.toNat
  let data ← memRead f.data offset rSize
  return (toSSize rSize, data)

def vopPwrite (k : Answers) (argp : SceVopPwriteArgs) (s : VfsState) : Except Fault (Int × VfsState) := do
  let n ← s.node argp.node
  match n.devInfo with
  | none => return (-1, s)
  | some pEntry =>
  let f ← s.entry pEntry
  match searchDmassCtlData argp.pVfsFileObject.toInt32 f.pDmassFsX with
  | none => return (-1, s)
  | some _ =>
  let offset := argp.offset.toInt
  if n.stSize > 0xFFFFFFFF ∨ offset > 0xFFFFFFFF then return (-1, s) else
  if offset > n.stSize then return (-1, s) else
  if argp.node ≠ (s.files argp.pVfsFileObject).node then return (-3, s) else
  let wSize := argp.nbyte.toNat
  match ← growData k pEntry wSize s with
  | none => return (-2, s)
  | some s =>
  let f ← s.entry pEntry
  let data ← memWrite f.data offset (fill argp.data wSize)
  let s := s.modEntry pEntry fun f => { f with data := data }
  if offset + wSize > f.stat.stSize then
    let s := s.modEntry pEntry fun f => { f with stat := { f.stat with stSize := offset + wSize } }
    return (toSSize wSize, s.modNode argp.node fun n => { n with stSize := offset + wSize })
  else return (toSSize wSize, s)

/-! ### `vop_chstat` and `vop_chstat_by_fd`, which differ in how they find the entry -/

/-- `pEntry->stat.st_size = argp->stat->st_size; argp->node->core.st_size = argp->stat->st_size;` -/
def setSize (node : NodePtr) (e : Addr) (stSize : Int) (s : VfsState) : Except Fault VfsState := do
  let _ ← s.node node
  let s := s.modEntry e fun f => { f with stat := { f.stat with stSize := stSize } }
  return s.modNode node fun n => { n with stSize := stSize }

/-- The `SCE_CST_SIZE` part: a negative value is returned at once. -/
def chstatSize (k : Answers) (node : NodePtr) (e : Addr) (stSize : Int) (s : VfsState) :
    Except Fault (Int × VfsState) := do
  if stSize < 0 then return (-1, s) else
  if stSize = 0 then
    let f ← s.entry e
    let s := (s.dmassFree (f.data.map (·.addr))).modEntry e fun f => { f with data := none }
    let s ← setSize node e stSize s
    return (0, s)
  else
  if stSize > 0xFFFFFFFF then return (-1, s) else
  match dmassMalloc k (toSize stSize) s with
  | (none, s) => return (-2, s)
  | (some tempData, s) =>
  let s ← moveData e tempData s
  let s ← setSize node e stSize s
  return (0, s)

/-- The three time stamps, each copied when its bit is set. -/
def chstatTimes (stat : SceIoStat) (bit : UInt32) (old : SceIoStat) : SceIoStat :=
  { old with
    stCtime := if bit &&& SCE_CST_CT ≠ 0 then stat.stCtime else old.stCtime
    stAtime := if bit &&& SCE_CST_AT ≠ 0 then stat.stAtime else old.stAtime
    stMtime := if bit &&& SCE_CST_MT ≠ 0 then stat.stMtime else old.stMtime }

def chstatEntry (k : Answers) (node : NodePtr) (e : Addr) (stat : SceIoStat) (bit : UInt32)
    (s : VfsState) : Except Fault (Int × VfsState) := do
  let f ← s.entry e
  if bit &&& SCE_CST_MODE ≠ 0 ∧ f.stat.stMode &&& SCE_S_IFMT ≠ stat.stMode &&& SCE_S_IFMT then
    return (-1, s) else
  let s := if bit &&& SCE_CST_MODE ≠ 0 then
    s.modEntry e fun f => { f with stat := { f.stat with stMode := stat.stMode } } else s
  match ← (if bit &&& SCE_CST_SIZE ≠ 0 then chstatSize k node e stat.stSize s else .ok (0, s)) with
  | (res, s) =>
  if res < 0 then return (res, s) else
  return (0, s.modEntry e fun f => { f with stat := chstatTimes stat bit f.stat })

def vopChstat (k : Answers) (argp : SceVopChstatArgs) (s : VfsState) : Except Fault (Int × VfsState) := do
  match ← getFsEntry argp.fileInfo.path s with
  | .error res => return (res, s)
  | .ok pEntry =>
  let (e, _) ← s.deref pEntry
  chstatEntry k argp.node e argp.stat argp.bit s

def vopChstatByFd (k : Answers) (argp : SceVopChstatByFdArgs) (s : VfsState) :
    Except Fault (Int × VfsState) := do
  let n ← s.node argp.pNode
  match n.devInfo with
  | none => return (-1, s)
  | some pEntry => chstatEntry k argp.pNode pEntry argp.stat argp.bit s

end VitaUtility.Dmass

import VitaUtility.Lib.ArrayFile
import VitaUtility.Dmass.Capacity
import VitaUtility.Dmass.Offsets

/-!
# One file as an array of bytes

The data calls on a file through any number of handles on its vnode return what an `ArrayFile` answers,
in any order. The entry keeps the array in the first `st_size` bytes of a buffer of whole blocks, the vnode
its size, and the file objects the offsets.
-/

namespace VitaUtility.Dmass
open VfsState

variable {s s' s₀ : VfsState} {k : Answers} {r : Int} {e : Addr} {v : NodePtr} {f f' : FapsDmassFs} {h : FilePtr}
  {F : ArrayFile FilePtr UInt8}

/-! ### Calls with the bytes they hand back -/

def VopCall.execOut (s : VfsState) : VopCall → Except Fault (Int × List UInt8 × VfsState)
  | .read argp => vopRead argp s
  | .pread argp => (vopPread argp s).map fun x => (x.1, x.2, s)
  | call => (call.exec s).map fun x => (x.1, [], x.2)

theorem dropOut_execOut (call : VopCall) : dropOut (call.execOut s) = call.exec s := by
  cases call with
  | read argp => rfl
  | pread argp =>
    show dropOut ((vopPread argp s).map _) = (vopPread argp s).map _
    cases vopPread argp s <;> rfl
  | _ =>
    show dropOut ((VopCall.exec s _).map _) = _
    cases VopCall.exec s _ <;> rfl

/-- All calls in turn, with what each returns; a fault ends the run. -/
def runOut : List VopCall → VfsState → Except Fault (List (Int × List UInt8) × VfsState)
  | [], s => .ok ([], s)
  | call :: calls, s => do
    let (r, out, t) ← call.execOut s
    let (rs, u) ← runOut calls t
    return ((r, out) :: rs, u)

/-- Errors are negative. -/
def reply (x : Int × List UInt8) : Reply UInt8 := if x.1 < 0 then none else some (x.1.toNat, x.2)

def whenceOf (w : Int) : Option Whence :=
  if w = SCE_SEEK_SET then some .set
  else if w = SCE_SEEK_CUR then some .cur
  else if w = SCE_SEEK_END then some .eof
  else none

def fileOp : VopCall → Option (FileOp FilePtr UInt8)
  | .open _ argp object => some (.open argp.pVfsFileObject (object.flags &&& SCE_O_APPEND ≠ 0))
  | .close argp => some (.close argp.pVfsFileObject)
  | .read argp => some (.read argp.pVfsFileObject argp.nbyte.toNat)
  | .write _ argp => some (.write argp.pVfsFileObject (fill argp.data argp.nbyte.toNat))
  | .pread argp => some (.pread argp.pVfsFileObject argp.nbyte.toNat argp.offset.toInt.toNat)
  | .pwrite _ argp => some (.pwrite argp.pVfsFileObject (fill argp.data argp.nbyte.toNat) argp.offset.toInt.toNat)
  | .lseek argp => some (.seek argp.pVfsFileObject (whenceOf argp.where_) argp.offset.toInt)
  | _ => none

/-- The calls of the seven kinds on the file with the vnode `v`, when its content is `F`: a new file object is
on `v` at offset 0, other calls are through an open one; counts are below `2 ^ 31`, the size stays at most
`maxSize`, and allocations succeed. -/
def arrayCall (v : NodePtr) (F : ArrayFile FilePtr UInt8) : VopCall → Prop
  | .open k argp object => argp.node = v ∧ object.node = v ∧ object.offset = 0 ∧ k.mallocs
  | .close argp => argp.node = v ∧ 0 < F.opens argp.pVfsFileObject
  | .read argp => argp.node = v ∧ 0 < F.opens argp.pVfsFileObject ∧ argp.nbyte.toNat < 2 ^ 31
  | .write k argp => argp.node = v ∧ 0 < F.opens argp.pVfsFileObject ∧ argp.nbyte.toNat < 2 ^ 31 ∧
      F.data.length + argp.nbyte.toNat ≤ maxSize ∧ k.mallocs
  | .pread argp => argp.node = v ∧ 0 < F.opens argp.pVfsFileObject ∧ argp.nbyte.toNat < 2 ^ 31 ∧
      0 ≤ argp.offset.toInt
  | .pwrite k argp => argp.node = v ∧ 0 < F.opens argp.pVfsFileObject ∧ argp.nbyte.toNat < 2 ^ 31 ∧
      0 ≤ argp.offset.toInt ∧ F.data.length + argp.nbyte.toNat ≤ maxSize ∧ k.mallocs
  | .lseek argp => argp.node = v ∧ 0 < F.opens argp.pVfsFileObject
  | _ => False

/-- Each call is an `arrayCall` when it is made. -/
def arrayCalls (v : NodePtr) : List VopCall → ArrayFile FilePtr UInt8 → Prop
  | [], _ => True
  | call :: calls, F => arrayCall v F call ∧ ∀ op, fileOp call = some op → arrayCalls v calls (F.exec op).2

/-! ### The invariant -/

/-- The file with the vnode `v`, the entry `e` and its content `f` holds `F`. -/
structure Holds (s : VfsState) (v : NodePtr) (e : Addr) (f : FapsDmassFs) (F : ArrayFile FilePtr UInt8) : Prop where
  node : s.entryOf v e f
  size : f.stat.stSize = F.data.length
  nodeSize : ∀ n, s.vnodes.lookup v = some n → n.stSize = F.data.length
  cap : Capacious (dataView f)
  data : (bytesOf f.data).take F.data.length = F.data
  opens : ∀ h, f.pDmassFsX.countP (fun x => x.handlerIndex = h.toInt32) = F.opens h
  files : ∀ h, 0 < F.opens h → (s.files h).node = v ∧ (s.files h).offset = F.offset h
  inside : F.Inside

namespace Holds

theorem search (hH : Holds s v e f F) (hopen : 0 < F.opens h) :
    ∃ x, searchDmassCtlData h.toInt32 f.pDmassFsX = some x := by
  rw [← Option.isSome_iff_exists, search_isSome_iff, hH.opens]
  exact hopen

theorem room (hH : Holds s v e f F) : F.data.length ≤ capacity f.data := by
  have := hH.cap.room
  simp only [dataView, hH.size] at this
  omega

theorem small (hH : Holds s v e f F) : F.data.length ≤ maxSize :=
  hH.room.trans hH.cap.le

/-- What a copy out of the buffer reads. -/
theorem slice_eq (hH : Holds s v e f F) {o m : Nat} (ho : o ≤ F.data.length) :
    slice (bytesOf f.data) o (min m (F.data.length - o)) = slice F.data o m := by
  calc slice (bytesOf f.data) o (min m (F.data.length - o))
      = slice ((bytesOf f.data).take F.data.length) o (min m (F.data.length - o)) := (slice_take (by omega)).symm
    _ = slice F.data o m := by rw [hH.data, slice_min]

theorem moveTo (hH : Holds s v e f F) {o : Nat} (ho : o ≤ F.data.length) :
    Holds (s.setOffset h o) v e f (F.moveTo h o) := by
  refine ⟨hH.node, hH.size, hH.nodeSize, hH.cap, hH.data, hH.opens, fun g hg => ?_, hH.inside.moveTo fun _ => ho⟩
  obtain ⟨hnode, hoff⟩ := hH.files g hg
  show (Function.update s.files h _ g).node = v ∧
    (Function.update s.files h _ g).offset = (Function.update F.offset h o g : Nat)
  by_cases hgh : g = h
  · subst g
    rw [Function.update_self, Function.update_self]
    exact ⟨hnode, rfl⟩
  · rw [Function.update_of_ne hgh, Function.update_of_ne hgh]
    exact ⟨hnode, hoff⟩

/-- `src` stored at `o`; the vnode follows when the file grows. -/
theorem store (hH : Holds s v e f F) {o : Nat} {src : List UInt8} {data : Option DataBlock} {bufs : Finset Addr}
    {grows : Prop} [Decidable grows] (hS : Stored s f o src data bufs) (ho : o ≤ F.data.length)
    (hw : F.data.length + src.length ≤ maxSize) (hgrow : grows → F.data.length ≤ o + src.length)
    (hstay : ¬ grows → o + src.length ≤ F.data.length) :
    Holds { s with
        entries := s.entries.insert e { f with data := data, stat := grownStat f o src.length }
        bufs := bufs
        vnodes := if grows then modifyAt s.vnodes v fun n => { n with stSize := (o : Int) + src.length }
          else s.vnodes } v e { f with data := data, stat := grownStat f o src.length }
      { F with data := splice F.data o src } := by
  obtain ⟨n, hn, he⟩ := hH.node.1
  have hmax : maxSize = 0xFFFFFE00 := rfl
  have hlen : (splice F.data o src).length = max F.data.length (o + src.length) := length_splice ho
  have hto : toSize o = o := toSize_natCast (by omega)
  have hto' : toSize f.stat.stSize = F.data.length := by rw [hH.size, toSize_natCast (by omega)]
  have hsize : (grownStat f o src.length).stSize = (splice F.data o src).length := by
    show max f.stat.stSize _ = _
    rw [hlen, hH.size]
    omega
  have hcap : Capacious (grownStat f o src.length, data) := by
    have hroom := hH.room
    refine hS.capacious hH.cap ?_ (by omega) fun _ => by omega
    rw [hH.size]
    omega
  refine ⟨⟨?_, Finmap.lookup_insert _⟩, hsize, ?_, hcap, ?_, hH.opens, hH.files, hH.inside.store src⟩
  · dsimp only
    split
    · refine ⟨{ n with stSize := (o : Int) + src.length }, ?_, he⟩
      rw [lookup_modifyAt, if_pos rfl, hn]
      rfl
    · exact ⟨n, hn, he⟩
  · intro m hm
    show m.stSize = (splice F.data o src).length
    rw [hlen]
    dsimp only at hm
    split at hm
    · rw [lookup_modifyAt, if_pos rfl, hn] at hm
      cases hm
      rw [max_eq_right (hgrow ‹_›)]
      rfl
    · rw [hH.nodeSize m hm, max_eq_left (hstay ‹_›)]
  · obtain ⟨old, hdata, hold, htake⟩ := hS.bytes
    rw [hto] at hdata
    rw [hto', hH.data] at htake
    have hroom := hcap.room
    show (bytesOf data).take (splice F.data o src).length = splice F.data o src
    rw [hlen, hdata, take_splice ho ?_, htake]
    simp only [grownStat, hH.size] at hroom
    omega

/-- Another list of handles; the data stays. -/
theorem handles {l : List FapsDmassFsX} {m : UInt32} {G : ArrayFile FilePtr UInt8} (hH : Holds s v e f F)
    (hent : s'.entries = s.entries.insert e { f with pDmassFsX := l, refer := m }) (hv : s'.vnodes = s.vnodes)
    (hdata : G.data = F.data) (hopens : ∀ h, l.countP (fun x => x.handlerIndex = h.toInt32) = G.opens h)
    (hfiles : ∀ h, 0 < G.opens h → (s'.files h).node = v ∧ (s'.files h).offset = G.offset h) (hin : G.Inside) :
    Holds s' v e { f with pDmassFsX := l, refer := m } G := by
  refine ⟨⟨?_, ?_⟩, ?_, ?_, hH.cap, ?_, hopens, hfiles, hin⟩
  · rw [hv]
    exact hH.node.1
  · rw [hent]
    exact Finmap.lookup_insert _
  · rw [hdata]
    exact hH.size
  · rw [hv, hdata]
    exact hH.nodeSize
  · rw [hdata]
    exact hH.data

end Holds

/-! ### One call -/

theorem toSSize_natCast {n : Nat} (hn : n < 2 ^ 31) : toSSize n = n := by
  unfold toSSize
  rw [Int.bmod_def]
  split <;> omega

theorem reply_natCast (n : Nat) (out : List UInt8) : reply ((n : Int), out) = some (n, out) := by
  unfold reply
  rw [if_neg (by omega)]
  rfl

/-- The call returns what the array answers, and the file holds the array again. -/
def Simulates (s : VfsState) (v : NodePtr) (e : Addr) (F : ArrayFile FilePtr UInt8) (call : VopCall)
    (op : FileOp FilePtr UInt8) : Prop :=
  ∃ r out s', call.execOut s = .ok (r, out, s') ∧ reply (r, out) = (F.exec op).1 ∧ ∃ f, Holds s' v e f (F.exec op).2

/-- The number of bytes that `vop_read` and `vop_pread` copy, -/
theorem readSize_holds (hH : Holds s v e f F) {n o : Nat} (ho : o ≤ F.data.length) :
    (if n ≥ toSize ((F.data.length : Int) - o) then toSize ((F.data.length : Int) - o) else n) =
      (slice F.data o n).length := by
  have hsmall := hH.small
  have hto : toSize ((F.data.length : Int) - o) = F.data.length - o := by
    unfold toSize maxSize at *
    omega
  rw [hto, length_slice]
  split <;> omega

/-- and the bytes. -/
theorem memRead_holds (hH : Holds s v e f F) {n o : Nat} (ho : o ≤ F.data.length) :
    memRead f.data o (slice F.data o n).length = .ok (slice F.data o n) := by
  have hroom := hH.room
  have hsmall := hH.small
  have hto : toSize o = o := toSize_natCast (by unfold maxSize at hsmall; omega)
  rw [memRead_eq_ok, hto, length_slice]
  exact ⟨.inr (by omega), (hH.slice_eq ho).symm⟩

theorem read_simulates (hH : Holds s v e f F) {argp : SceVfsRead} (hv : argp.node = v)
    (hopen : 0 < F.opens argp.pVfsFileObject) (hbyte : argp.nbyte.toNat < 2 ^ 31) :
    Simulates s v e F (.read argp) (.read argp.pVfsFileObject argp.nbyte.toNat) := by
  obtain rfl := hv
  obtain ⟨⟨n, hn, he⟩, hf⟩ := hH.node
  obtain ⟨x, hx⟩ := hH.search hopen
  obtain ⟨hnode, hoff⟩ := hH.files _ hopen
  have ho := hH.inside _ hopen
  have hsmall := hH.small
  unfold maxSize at hsmall
  obtain ⟨out, hout⟩ : ∃ out, slice F.data (F.offset argp.pVfsFileObject) argp.nbyte.toNat = out := ⟨_, rfl⟩
  have hlen : out.length = min argp.nbyte.toNat (F.data.length - F.offset argp.pVfsFileObject) := by
    rw [← hout, length_slice]
  have hread : vopRead argp s = .ok (toSSize out.length, out,
      s.setOffset argp.pVfsFileObject (F.offset argp.pVfsFileObject + out.length : Nat)) := by
    refine bind_eq_ok.2 ⟨n, node_eq_ok.2 hn, ?_⟩
    rw [he]
    refine bind_eq_ok.2 ⟨f, entry_eq_ok.2 hf, ?_⟩
    dsimp only
    rw [hx, hoff, hH.size]
    dsimp only
    rw [if_neg (by omega), if_neg (by rw [hnode]; simp), if_neg ?_, if_neg (by omega), readSize_holds hH ho, hout]
    · exact bind_eq_ok.2 ⟨out, hout ▸ memRead_holds hH ho, rfl⟩
    · intro hdead
      rw [hdead] at hbyte
      exact absurd hbyte (by decide)
  refine ⟨_, _, _, hread, ?_, f, ?_⟩
  · rw [toSSize_natCast (by omega), reply_natCast, ← hout]
    rfl
  · rw [← hout] at hlen ⊢
    exact hH.moveTo (by omega)

theorem execOut_pread {argp : SceVopPreadArgs} {out : List UInt8} (h : vopPread argp s = .ok (r, out)) :
    VopCall.execOut s (.pread argp) = .ok (r, out, s) := by
  simp only [VopCall.execOut, h, Except.map]

theorem pread_simulates (hH : Holds s v e f F) {argp : SceVopPreadArgs} (hv : argp.node = v)
    (hopen : 0 < F.opens argp.pVfsFileObject) (hbyte : argp.nbyte.toNat < 2 ^ 31) (h0 : 0 ≤ argp.offset.toInt) :
    Simulates s v e F (.pread argp) (.pread argp.pVfsFileObject argp.nbyte.toNat argp.offset.toInt.toNat) := by
  obtain rfl := hv
  obtain ⟨⟨n, hn, he⟩, hf⟩ := hH.node
  obtain ⟨x, hx⟩ := hH.search hopen
  obtain ⟨hnode, -⟩ := hH.files _ hopen
  obtain ⟨o, ho⟩ := Int.eq_ofNat_of_zero_le h0
  have hsmall := hH.small
  unfold maxSize at hsmall
  have hsize := hH.nodeSize n hn
  rw [ho, Int.toNat_natCast]
  rcases Nat.lt_or_ge F.data.length o with hgt | hle
  · have hread : vopPread argp s = .ok (-1, []) := by
      refine bind_eq_ok.2 ⟨n, node_eq_ok.2 hn, ?_⟩
      rw [he]
      refine bind_eq_ok.2 ⟨f, entry_eq_ok.2 hf, ?_⟩
      dsimp only
      rw [hx, ho, hsize]
      dsimp only
      rw [if_pos (show (o : Int) > F.data.length by omega)]
      split <;> rfl
    refine ⟨-1, [], s, execOut_pread hread, ?_, f, ?_⟩
    · rw [ArrayFile.exec_pread_after hgt]
      rfl
    · rwa [ArrayFile.exec_pread_after hgt]
  · obtain ⟨out, hout⟩ : ∃ out, slice F.data o argp.nbyte.toNat = out := ⟨_, rfl⟩
    have hlen : out.length = min argp.nbyte.toNat (F.data.length - o) := by
      rw [← hout, length_slice]
    have hread : vopPread argp s = .ok (toSSize out.length, out) := by
      refine bind_eq_ok.2 ⟨n, node_eq_ok.2 hn, ?_⟩
      rw [he]
      refine bind_eq_ok.2 ⟨f, entry_eq_ok.2 hf, ?_⟩
      dsimp only
      rw [hx, ho, hsize]
      dsimp only
      rw [if_neg (by omega), if_neg (by omega), if_neg (by rw [hnode]; simp)]
      split
      · -- at the end nothing is read
        obtain rfl := List.eq_nil_of_length_eq_zero (show out.length = 0 by omega)
        rfl
      · rw [readSize_holds hH hle, hout]
        exact bind_eq_ok.2 ⟨out, hout ▸ memRead_holds hH hle, rfl⟩
    refine ⟨toSSize out.length, out, s, execOut_pread hread, ?_, f, ?_⟩
    · rw [ArrayFile.exec_pread hle, toSSize_natCast (by omega), reply_natCast, hout]
    · rwa [ArrayFile.exec_pread hle]

theorem vopWrite_gives (hH : Holds s v e f F) {argp : SceVfsWrite} (hv : argp.node = v)
    (hopen : 0 < F.opens argp.pVfsFileObject) (hw : F.data.length + argp.nbyte.toNat ≤ maxSize) (hk : k.mallocs) :
    Gives (vopWrite k argp s) fun x => x.1 = toSSize argp.nbyte.toNat := by
  obtain rfl := hv
  obtain ⟨⟨n, hn, he⟩, hf⟩ := hH.node
  obtain ⟨x, hx⟩ := hH.search hopen
  obtain ⟨hnode, hoff⟩ := hH.files _ hopen
  have ho := hH.inside _ hopen
  have hsmall := hH.small
  unfold maxSize at hsmall
  have hroom : f.stat.stSize + argp.nbyte.toNat ≤ maxSize := by
    rw [hH.size]
    omega
  obtain ⟨data, bufs, hG, hg⟩ := growData_grown hk hf hH.cap hroom
  obtain ⟨d, hd⟩ := memWrite_returns hG hH.cap (o := F.offset argp.pVfsFileObject) (g := argp.data) (by omega)
    (by rw [hH.size]; omega) hroom
  refine Gives.bind (node_eq_ok.2 hn) ?_
  rw [he]
  refine Gives.bind (entry_eq_ok.2 hf) ?_
  dsimp only
  rw [hx, hoff, hH.nodeSize n hn]
  dsimp only
  rw [if_neg (by omega), if_neg (by rw [hnode]; simp)]
  refine Gives.bind hg (Gives.bind (entry_eq_ok.2 (Finmap.lookup_insert _)) (Gives.bind hd ?_))
  split
  · refine ⟨_, rfl, ?_⟩
    dsimp only
  · refine ⟨_, rfl, ?_⟩
    dsimp only

theorem write_simulates (hH : Holds s v e f F) {argp : SceVfsWrite} (hv : argp.node = v)
    (hopen : 0 < F.opens argp.pVfsFileObject) (hbyte : argp.nbyte.toNat < 2 ^ 31)
    (hw : F.data.length + argp.nbyte.toNat ≤ maxSize) (hk : k.mallocs) :
    Simulates s v e F (.write k argp) (.write argp.pVfsFileObject (fill argp.data argp.nbyte.toNat)) := by
  obtain ⟨⟨r, s'⟩, hs, hr⟩ := vopWrite_gives hH hv hopen hw hk
  dsimp only at hr
  rw [toSSize_natCast hbyte] at hr
  obtain rfl := hv
  obtain ⟨src, hsrc⟩ : ∃ src, fill argp.data argp.nbyte.toNat = src := ⟨_, rfl⟩
  have hlen : argp.nbyte.toNat = src.length := by rw [← hsrc, length_fill]
  have ho := hH.inside _ hopen
  rcases vopWrite_ok hs with ⟨hneg, -⟩ | ⟨n, b, f₁, data, bufs, hn, hb, hf, -, hS, -, hs'⟩
  · omega
  obtain ⟨⟨m, hm, he⟩, hf'⟩ := hH.node
  obtain rfl := Option.some.inj (hm.symm.trans hn)
  obtain rfl := Option.some.inj (he.symm.trans hb)
  obtain rfl := Option.some.inj (hf'.symm.trans hf)
  rw [hsrc, (hH.files _ hopen).2] at hS
  rw [hlen, (hH.files _ hopen).2] at hs'
  rw [hsrc]
  refine ⟨r, [], s', ?_, ?_,
    { f with data := data, stat := grownStat f (F.offset argp.pVfsFileObject) src.length }, ?_⟩
  · simp only [VopCall.execOut, VopCall.exec, hs, Except.map]
  · rw [hr, reply_natCast, hlen]
    rfl
  · have hend : F.offset argp.pVfsFileObject + src.length ≤
        (splice F.data (F.offset argp.pVfsFileObject) src).length := by
      rw [length_splice ho]
      exact le_max_right _ _
    rw [hs']
    refine (hH.store hS ho (by omega) (fun hge => ?_) fun hlt => ?_).moveTo hend
    · rw [hH.size] at hge
      omega
    · rw [hH.size] at hlt
      omega

theorem vopPwrite_gives (hH : Holds s v e f F) {argp : SceVopPwriteArgs} {o : Nat} (hv : argp.node = v)
    (hopen : 0 < F.opens argp.pVfsFileObject) (ho : argp.offset.toInt = o) (hle : o ≤ F.data.length)
    (hw : F.data.length + argp.nbyte.toNat ≤ maxSize) (hk : k.mallocs) :
    Gives (vopPwrite k argp s) fun x => x.1 = toSSize argp.nbyte.toNat := by
  obtain rfl := hv
  obtain ⟨⟨n, hn, he⟩, hf⟩ := hH.node
  obtain ⟨x, hx⟩ := hH.search hopen
  obtain ⟨hnode, -⟩ := hH.files _ hopen
  have hsmall := hH.small
  unfold maxSize at hsmall
  have hroom : f.stat.stSize + argp.nbyte.toNat ≤ maxSize := by
    rw [hH.size]
    omega
  obtain ⟨data, bufs, hG, hg⟩ := growData_grown hk hf hH.cap hroom
  obtain ⟨d, hd⟩ := memWrite_returns hG hH.cap (o := o) (g := argp.data) (by omega) (by rw [hH.size]; omega) hroom
  refine Gives.bind (node_eq_ok.2 hn) ?_
  rw [he]
  refine Gives.bind (entry_eq_ok.2 hf) ?_
  dsimp only
  rw [hx, ho, hH.nodeSize n hn]
  dsimp only
  rw [if_neg (by omega), if_neg (by omega), if_neg (by rw [hnode]; simp)]
  refine Gives.bind hg (Gives.bind (entry_eq_ok.2 (Finmap.lookup_insert _)) (Gives.bind hd ?_))
  split
  · refine ⟨_, rfl, ?_⟩
    dsimp only
  · refine ⟨_, rfl, ?_⟩
    dsimp only

theorem pwrite_simulates (hH : Holds s v e f F) {argp : SceVopPwriteArgs} (hv : argp.node = v)
    (hopen : 0 < F.opens argp.pVfsFileObject) (hbyte : argp.nbyte.toNat < 2 ^ 31) (h0 : 0 ≤ argp.offset.toInt)
    (hw : F.data.length + argp.nbyte.toNat ≤ maxSize) (hk : k.mallocs) :
    Simulates s v e F (.pwrite k argp)
      (.pwrite argp.pVfsFileObject (fill argp.data argp.nbyte.toNat) argp.offset.toInt.toNat) := by
  obtain ⟨o, ho⟩ := Int.eq_ofNat_of_zero_le h0
  rw [ho, Int.toNat_natCast]
  obtain ⟨⟨m, hm, he⟩, hf'⟩ := hH.node
  rcases Nat.lt_or_ge F.data.length o with hgt | hle
  · have hrun : vopPwrite k argp s = .ok (-1, s) := by
      obtain ⟨x, hx⟩ := hH.search hopen
      refine bind_eq_ok.2 ⟨m, node_eq_ok.2 (hv ▸ hm), ?_⟩
      rw [he]
      refine bind_eq_ok.2 ⟨f, entry_eq_ok.2 hf', ?_⟩
      dsimp only
      rw [hx, ho, hH.nodeSize m hm]
      dsimp only
      rw [if_pos (show (o : Int) > F.data.length by omega)]
      split <;> rfl
    refine ⟨-1, [], s, ?_, ?_, f, ?_⟩
    · simp only [VopCall.execOut, VopCall.exec, hrun, Except.map]
    · rw [ArrayFile.exec_pwrite_after hgt]
      rfl
    · rwa [ArrayFile.exec_pwrite_after hgt]
  obtain ⟨⟨r, s'⟩, hs, hr⟩ := vopPwrite_gives hH hv hopen ho hle hw hk
  dsimp only at hr
  rw [toSSize_natCast hbyte] at hr
  obtain rfl := hv
  obtain ⟨src, hsrc⟩ : ∃ src, fill argp.data argp.nbyte.toNat = src := ⟨_, rfl⟩
  have hlen : argp.nbyte.toNat = src.length := by rw [← hsrc, length_fill]
  rcases vopPwrite_ok hs with ⟨hneg, -⟩ | ⟨n, b, f₁, data, bufs, hn, hb, hf, -, hS, -, hs'⟩
  · omega
  obtain rfl := Option.some.inj (hm.symm.trans hn)
  obtain rfl := Option.some.inj (he.symm.trans hb)
  obtain rfl := Option.some.inj (hf'.symm.trans hf)
  rw [hsrc, ho] at hS
  rw [hlen, ho] at hs'
  rw [hsrc]
  refine ⟨r, [], s', ?_, ?_, { f with data := data, stat := grownStat f o src.length }, ?_⟩
  · simp only [VopCall.execOut, VopCall.exec, hs, Except.map]
  · rw [ArrayFile.exec_pwrite hle, hr, reply_natCast, hlen]
  · rw [ArrayFile.exec_pwrite hle, hs']
    refine hH.store hS hle (by omega) (fun hgt => ?_) fun hge => ?_
    · rw [hH.size] at hgt
      omega
    · rw [hH.size] at hge
      omega

/-- The offset that `vop_lseek` computes is the one that is meant, or both are outside the file. -/
theorem seek_cases (hH : Holds s v e f F) {n : SceVfsNode} (hn : s.vnodes.lookup v = some n)
    {argp : SceVopLseekArgs} (hopen : 0 < F.opens argp.pVfsFileObject) :
    let offset : Option Int :=
      if argp.where_ = SCE_SEEK_SET then some argp.offset.toInt
      else if argp.where_ = SCE_SEEK_CUR then
        some (Int.bmod ((s.files argp.pVfsFileObject).offset + argp.offset.toInt) (2 ^ 64))
      else if argp.where_ = SCE_SEEK_END then some (Int.bmod (n.stSize + argp.offset.toInt) (2 ^ 64))
      else none
    (offset = none ∧ whenceOf argp.where_ = none) ∨ ∃ t whence, offset = some t ∧ whenceOf argp.where_ = some whence ∧
      (t = F.target argp.pVfsFileObject argp.offset.toInt whence ∨
        (t < 0 ∧ F.data.length < F.target argp.pVfsFileObject argp.offset.toInt whence)) := by
  intro offset
  have hsmall := hH.small
  have ho := hH.inside _ hopen
  have hwrap : ∀ b : Nat, b ≤ F.data.length → Int.bmod (b + argp.offset.toInt) (2 ^ 64) = b + argp.offset.toInt ∨
      (Int.bmod (b + argp.offset.toInt) (2 ^ 64) < 0 ∧ F.data.length < b + argp.offset.toInt) := by
    intro b hb
    unfold maxSize at hsmall
    refine (bmod_add_cases (Int.natCast_nonneg b) (by omega) argp.offset).imp id fun h => ⟨h.1, ?_⟩
    omega
  simp only [offset, whenceOf, (hH.files _ hopen).2, hH.nodeSize n hn]
  split
  · exact .inr ⟨_, .set, rfl, rfl, .inl rfl⟩
  split
  · exact .inr ⟨_, .cur, rfl, rfl, hwrap _ ho⟩
  split
  · exact .inr ⟨_, .eof, rfl, rfl, hwrap _ le_rfl⟩
  · exact .inl ⟨rfl, rfl⟩

theorem lseek_simulates (hH : Holds s v e f F) {argp : SceVopLseekArgs} (hv : argp.node = v)
    (hopen : 0 < F.opens argp.pVfsFileObject) :
    Simulates s v e F (.lseek argp) (.seek argp.pVfsFileObject (whenceOf argp.where_) argp.offset.toInt) := by
  obtain rfl := hv
  obtain ⟨n, hn, he⟩ := hH.node.1
  have hfail : vopLseek argp s = .ok (sceError 0x80010016, s) →
      VopCall.execOut s (.lseek argp) = .ok (sceError 0x80010016, [], s) ∧ reply (sceError 0x80010016, []) = none := by
    intro h
    exact ⟨by simp only [VopCall.execOut, VopCall.exec, h, Except.map], if_pos (by decide)⟩
  rcases seek_cases hH hn hopen with ⟨ht, hw⟩ | ⟨t, whence, ht, hw, hcase⟩ <;> rw [hw]
  · obtain ⟨hrun, hreply⟩ := hfail (by
      refine bind_eq_ok.2 ⟨n, node_eq_ok.2 hn, ?_⟩
      dsimp only at ht ⊢
      rw [ht]
      rfl)
    exact ⟨_, [], s, hrun, hreply, f, hH⟩
  by_cases hout : t > F.data.length ∨ t < 0
  · obtain ⟨hrun, hreply⟩ := hfail (by
      refine bind_eq_ok.2 ⟨n, node_eq_ok.2 hn, ?_⟩
      dsimp only at ht ⊢
      rw [ht, hH.nodeSize n hn]
      exact if_pos hout)
    have hF : F.exec (.seek argp.pVfsFileObject (some whence) argp.offset.toInt) = (none, F) :=
      ArrayFile.exec_seek_outside (by omega)
    rw [Simulates, hF]
    exact ⟨_, [], s, hrun, hreply, f, hH⟩
  · obtain ⟨o, rfl⟩ := Int.eq_ofNat_of_zero_le (show 0 ≤ t by omega)
    have hrun : vopLseek argp s = .ok ((o : Int), s.setOffset argp.pVfsFileObject o) := by
      refine bind_eq_ok.2 ⟨n, node_eq_ok.2 hn, ?_⟩
      dsimp only at ht ⊢
      rw [ht, hH.nodeSize n hn]
      exact if_neg hout
    have hF : F.exec (.seek argp.pVfsFileObject (some whence) argp.offset.toInt) =
        (some (o, []), F.moveTo argp.pVfsFileObject o) := ArrayFile.exec_seek (by omega) (by omega)
    rw [Simulates, hF]
    refine ⟨o, [], _, ?_, reply_natCast o [], f, hH.moveTo (by omega)⟩
    simp only [VopCall.execOut, VopCall.exec, hrun, Except.map]

theorem vopOpen_gives {argp : SceVfsOpen} (hk : k.mallocs) (hnode : s.entryOf argp.node e f) :
    Gives (vopOpen k argp s) fun x => x.1 = 0 := by
  obtain ⟨⟨n, hn, he⟩, hf⟩ := hnode
  obtain ⟨a, t, f', hc, hf'⟩ : ∃ a t f', createDmassCtlData k e argp.pVfsFileObject.toInt32 s = .ok (some a, t) ∧
      t.entries.lookup e = some f' := by
    obtain ⟨a, ha⟩ := Option.isSome_iff_exists.1 (hk 0 s.live)
    unfold createDmassCtlData malloc
    rw [ha]
    refine ⟨a.1, _, { f with
      pDmassFsX := ⟨a.1, argp.pVfsFileObject.toInt32, none⟩ :: f.pDmassFsX
      refer := f.refer + 1 }, bind_eq_ok.2 ⟨f, entry_eq_ok.2 hf, rfl⟩, ?_⟩
    rw [lookup_modEntry, if_pos rfl, hf]
    rfl
  refine Gives.bind (node_eq_ok.2 hn) ?_
  rw [he]
  refine Gives.bind hc (Gives.bind (entry_eq_ok.2 hf') ?_)
  split <;> exact ⟨_, rfl, rfl⟩

theorem open_simulates (hH : Holds s v e f F) {argp : SceVfsOpen} {object : SceVfsFileObject} (hv : argp.node = v)
    (hnode : object.node = v) (h0 : object.offset = 0) (hk : k.mallocs) :
    Simulates s v e F (.open k argp object) (.open argp.pVfsFileObject (object.flags &&& SCE_O_APPEND ≠ 0)) := by
  obtain ⟨s₁, hs₁⟩ : ∃ s₁ : VfsState, { s with files := Function.update s.files argp.pVfsFileObject object } = s₁ :=
    ⟨_, rfl⟩
  have hof : s₁.entryOf argp.node e f := by
    rw [← hs₁, hv]
    exact hH.node
  obtain ⟨⟨r, s'⟩, hs, hr⟩ := vopOpen_gives hk hof
  dsimp only at hr
  subst hr
  rcases vopOpen_ok hs with ⟨hneg, -⟩ | ⟨-, n, b, f₁, a, hn, hb, hf, -, o, ho, hs'⟩
  · omega
  obtain ⟨⟨m, hm, he⟩, hf'⟩ := hof
  obtain rfl := Option.some.inj (hm.symm.trans hn)
  obtain rfl := Option.some.inj (he.symm.trans hb)
  obtain rfl := Option.some.inj (hf'.symm.trans hf)
  have hobj : s₁.files argp.pVfsFileObject = object := by
    rw [← hs₁]
    exact Function.update_self ..
  rw [hobj, h0, hH.size] at ho
  refine ⟨0, [], s', ?_, rfl, _, hH.handles (l := ⟨a, argp.pVfsFileObject.toInt32, none⟩ :: f.pDmassFsX)
    (m := f.refer + 1) ?_ ?_ rfl (fun g => ?_) (fun g hg => ?_) (hH.inside.exec _)⟩
  · simp only [VopCall.execOut, VopCall.exec, hs₁, hs, Except.map]
  · rw [hs', ← hs₁]
  · rw [hs', ← hs₁]
    rfl
  · show _ = Function.update F.opens argp.pVfsFileObject (F.opens argp.pVfsFileObject + 1) g
    rw [List.countP_cons, hH.opens g, Function.update_apply]
    simp only [handleKey_inj, decide_eq_true_eq, eq_comm (a := g)]
    split
    · subst g
      rfl
    · rfl
  · show (s'.files g).node = v ∧ (s'.files g).offset = (Function.update F.offset argp.pVfsFileObject
      (if decide (object.flags &&& SCE_O_APPEND ≠ 0) = true then F.data.length else 0) g : Nat)
    have hfiles : s'.files = Function.update s₁.files argp.pVfsFileObject { object with offset := o } := by
      rw [hs', ← hobj]
      rfl
    by_cases hgh : g = argp.pVfsFileObject
    · subst g
      rw [hfiles, Function.update_self, Function.update_self]
      refine ⟨hnode, ?_⟩
      simp only [ho, decide_eq_true_eq]
      split <;> rfl
    · have hopen : Function.update F.opens argp.pVfsFileObject (F.opens argp.pVfsFileObject + 1) g = F.opens g :=
        Function.update_of_ne hgh _ _
      rw [hfiles, Function.update_of_ne hgh, Function.update_of_ne hgh, ← hs₁]
      dsimp only
      rw [Function.update_of_ne hgh]
      exact hH.files g (hopen ▸ hg)

theorem vopClose_gives (hH : Holds s v e f F) {argp : SceVfsClose} (hv : argp.node = v)
    (hopen : 0 < F.opens argp.pVfsFileObject) : Gives (vopClose argp s) fun x => x.1 = 0 := by
  obtain rfl := hv
  obtain ⟨⟨n, hn, he⟩, hf⟩ := hH.node
  obtain ⟨x, hx⟩ := hH.search hopen
  have hd : Gives (deleteDmassCtlData e argp.pVfsFileObject.toInt32 s) fun x => x.1 = 0 := by
    refine Gives.bind (entry_eq_ok.2 hf) ?_
    rcases unlinkCtlData_eq argp.pVfsFileObject.toInt32 f.pDmassFsX with ⟨-, hnone⟩ | ⟨l₁, y, l₂, -, -, -, hu, -⟩
    · rw [hx] at hnone
      cases hnone
    · rw [hu]
      exact ⟨_, rfl, rfl⟩
  obtain ⟨⟨res, t⟩, hd, hres⟩ := hd
  dsimp only at hres
  subst hres
  refine Gives.bind (node_eq_ok.2 hn) ?_
  rw [he]
  refine Gives.bind (entry_eq_ok.2 hf) ?_
  rw [hx]
  exact Gives.bind hd ⟨_, rfl, rfl⟩

theorem close_simulates (hH : Holds s v e f F) {argp : SceVfsClose} (hv : argp.node = v)
    (hopen : 0 < F.opens argp.pVfsFileObject) : Simulates s v e F (.close argp) (.close argp.pVfsFileObject) := by
  obtain ⟨⟨r, s'⟩, hs, hr⟩ := vopClose_gives hH hv hopen
  dsimp only at hr
  subst hr
  obtain rfl := hv
  rcases vopClose_ok hs with ⟨hneg, -⟩ | ⟨-, n, b, hn, hb, f₁, l₁, x, l₂, hf, hl, hx, -, hs'⟩
  · omega
  obtain ⟨⟨m, hm, he⟩, hf'⟩ := hH.node
  obtain rfl := Option.some.inj (hm.symm.trans hn)
  obtain rfl := Option.some.inj (he.symm.trans hb)
  obtain rfl := Option.some.inj (hf'.symm.trans hf)
  refine ⟨0, [], s', ?_, rfl, _, hH.handles (l := l₁ ++ l₂) (m := f.refer - 1) ?_ ?_ rfl (fun g => ?_)
    (fun g hg => ?_) (hH.inside.exec _)⟩
  · simp only [VopCall.execOut, VopCall.exec, hs, Except.map]
  · rw [hs']
    exact modifyAt_eq hf _
  · rw [hs']
    rfl
  · show _ = Function.update F.opens argp.pVfsFileObject (F.opens argp.pVfsFileObject - 1) g
    have hcount := hH.opens g
    rw [hl, List.countP_append, List.countP_cons, hx] at hcount
    simp only [handleKey_inj, decide_eq_true_eq] at hcount
    rw [List.countP_append, Function.update_apply]
    split
    · subst g
      rw [if_pos rfl] at hcount
      omega
    · rw [if_neg (Ne.symm ‹_›)] at hcount
      omega
  · have hle : Function.update F.opens argp.pVfsFileObject (F.opens argp.pVfsFileObject - 1) g ≤ F.opens g := by
      rw [Function.update_apply]
      split
      · subst g
        omega
      · exact le_rfl
    rw [hs']
    exact hH.files g (lt_of_lt_of_le hg hle)

/-! ### Runs -/

theorem holds_step {call : VopCall} (hH : Holds s v e f F) (hc : arrayCall v F call) :
    ∃ op, fileOp call = some op ∧ Simulates s v e F call op := by
  cases call with
  | «open» k argp object =>
    obtain ⟨hv, hnode, h0, hk⟩ := hc
    exact ⟨_, rfl, open_simulates hH hv hnode h0 hk⟩
  | close argp =>
    obtain ⟨hv, hopen⟩ := hc
    exact ⟨_, rfl, close_simulates hH hv hopen⟩
  | read argp =>
    obtain ⟨hv, hopen, hbyte⟩ := hc
    exact ⟨_, rfl, read_simulates hH hv hopen hbyte⟩
  | write k argp =>
    obtain ⟨hv, hopen, hbyte, hw, hk⟩ := hc
    exact ⟨_, rfl, write_simulates hH hv hopen hbyte hw hk⟩
  | pread argp =>
    obtain ⟨hv, hopen, hbyte, h0⟩ := hc
    exact ⟨_, rfl, pread_simulates hH hv hopen hbyte h0⟩
  | pwrite k argp =>
    obtain ⟨hv, hopen, hbyte, h0, hw, hk⟩ := hc
    exact ⟨_, rfl, pwrite_simulates hH hv hopen hbyte h0 hw hk⟩
  | lseek argp =>
    obtain ⟨hv, hopen⟩ := hc
    exact ⟨_, rfl, lseek_simulates hH hv hopen⟩
  | _ => exact hc.elim

theorem holds_run {calls : List VopCall} (hH : Holds s v e f F) (hc : arrayCalls v calls F) :
    ∃ rs s' f', runOut calls s = .ok (rs, s') ∧ rs.map reply = (F.run (calls.filterMap fileOp)).1 ∧
      Holds s' v e f' (F.run (calls.filterMap fileOp)).2 := by
  induction calls generalizing s f F with
  | nil => exact ⟨[], s, f, rfl, rfl, hH⟩
  | cons call calls ih =>
    obtain ⟨op, hop, r, out, t, hrun, hreply, g, hG⟩ := holds_step hH hc.1
    obtain ⟨rs, s', f', hruns, hreplies, hH'⟩ := ih hG (hc.2 op hop)
    rw [List.filterMap_cons_some hop]
    refine ⟨(r, out) :: rs, s', f', ?_, ?_, hH'⟩
    · exact bind_eq_ok.2 ⟨_, hrun, bind_eq_ok.2 ⟨_, hruns, rfl⟩⟩
    · rw [List.map_cons, hreply, hreplies]
      rfl

theorem holds_vopCreate {argp : SceVopCreateArgs} (h : vopCreate k argp s₀ = .ok (0, some v, s)) :
    ∃ e f, Holds s v e f .empty := by
  rcases makeEntry_ok h with ⟨h0, -⟩ | ⟨e, leak, name, bufs, n, d, fd, hB, -, -, -, -, hs⟩
  · exact absurd h0 (lt_irrefl _)
  rcases hs with ⟨h0, -⟩ | ⟨-, w, -, hw, hs⟩
  · exact absurd h0 (lt_irrefl _)
  obtain rfl := Option.some.inj hw
  obtain ⟨s₁, hs₁⟩ : ∃ s₁ : VfsState, { s₀ with
      entries := s₀.entries.insert e (newDmassFs (SCE_S_IWUSR ||| SCE_S_IRUSR ||| SCE_S_IFREG) k name)
      bufs := bufs } = s₁ := ⟨_, rfl⟩
  rw [hs₁] at hs
  have hview : s.view (fun f => (f.stat, f.data, f.pDmassFsX)) e =
      s₁.view (fun f => (f.stat, f.data, f.pDmassFsX)) e := by
    rw [hs]
    exact (view_modEntry (by intro; rfl)).trans (view_pushEntry (by intros; rfl) (by intros; rfl))
  unfold view at hview
  rw [← hs₁, Finmap.lookup_insert] at hview
  obtain ⟨f, hf, hx⟩ := Option.map_eq_some_iff.1 hview
  obtain ⟨hstat, hx⟩ := Prod.mk.inj hx
  obtain ⟨hdata, hhandles⟩ := Prod.mk.inj hx
  have hsize : f.stat.stSize = 0 := by
    rw [hstat]
    unfold newDmassFs initEntryDate
    cases k.rtc <;> rfl
  obtain ⟨m, hnode, he, h0⟩ : ∃ m, s.vnodes.lookup v = some m ∧ m.devInfo = some e ∧ m.stSize = 0 := by
    rw [hs]
    exact ⟨_, Finmap.lookup_insert _, rfl, rfl⟩
  refine ⟨e, f, ⟨⟨m, hnode, he⟩, hf⟩, hsize, fun m' hm => ?_, ?_, rfl, fun g => ?_, nofun, ArrayFile.inside_empty⟩
  · obtain rfl := Option.some.inj (hnode.symm.trans hm)
    exact h0
  · refine ⟨hsize.ge, ?_, ⟨0, ?_⟩, ?_⟩ <;> simp only [dataView, hdata]
    · exact hsize.le
    · rfl
    · exact Nat.zero_le _
  · rw [hhandles]
    rfl

theorem byteFile_run {argp : SceVopCreateArgs} {calls : List VopCall} (h : vopCreate k argp s₀ = .ok (0, some v, s))
    (hc : arrayCalls v calls .empty) :
    ∃ rs s', runOut calls s = .ok (rs, s') ∧
      rs.map reply = ((ArrayFile.empty : ArrayFile FilePtr UInt8).run (calls.filterMap fileOp)).1 ∧
      ∃ e f, Holds s' v e f ((ArrayFile.empty : ArrayFile FilePtr UInt8).run (calls.filterMap fileOp)).2 := by
  obtain ⟨e, f, hH⟩ := holds_vopCreate h
  obtain ⟨rs, s', f', hrun, hreply, hH'⟩ := holds_run hH hc
  exact ⟨rs, s', hrun, hreply, e, f', hH'⟩

/-- A handle that writes, and another that reads the bytes. -/
def writeAndRead : List VopCall :=
  [.open idle ⟨1, 1⟩ { node := 1 }, .open idle ⟨1, 2⟩ { node := 1 }, .write idle ⟨1, 1, fun i => i.toUInt8, 3⟩,
    .read ⟨1, 2, 5⟩]

theorem byteFile_run_writeAndRead : ∃ s rs s', vopCreate idle ⟨0, inRoot chA⟩ mounted = .ok (0, some 1, s) ∧
    runOut writeAndRead s = .ok (rs, s') ∧
    rs.map reply = [some (0, []), some (0, []), some (3, []), some (3, [0, 1, 2])] := by
  have hs : vopCreate idle ⟨0, inRoot chA⟩ mounted = .ok (0, some 1, _) :=
    lastState_out (.create idle ⟨0, inRoot chA⟩) rfl (by decide +kernel)
  have hcalls : arrayCalls 1 writeAndRead .empty := by
    refine ⟨⟨rfl, rfl, rfl, fun _ _ => rfl⟩, ?_⟩
    rintro _ ⟨rfl⟩
    refine ⟨⟨rfl, rfl, rfl, fun _ _ => rfl⟩, ?_⟩
    rintro _ ⟨rfl⟩
    refine ⟨⟨rfl, by decide, by decide, by decide, fun _ _ => rfl⟩, ?_⟩
    rintro _ ⟨rfl⟩
    refine ⟨⟨rfl, by decide, by decide⟩, fun _ _ => trivial⟩
  obtain ⟨rs, s', hrun, hreply, -⟩ := byteFile_run hs hcalls
  exact ⟨_, rs, s', hs, hrun, hreply⟩

end VitaUtility.Dmass

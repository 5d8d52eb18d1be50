import VitaUtility.Dmass.Capacity
import VitaUtility.Dmass.Offsets
import VitaUtility.Dmass.Vnodes

/-!
# Handles opened for appending

`vop_open` takes the end of the file when it opens a handle with `SCE_O_APPEND`; `vop_write` goes by the offset of
the handle and does not look at the flag. So the blocks that several such handles write follow each other only
when no handle writes behind the back of another.
-/

namespace VitaUtility.Dmass
open VfsState

variable {s s₀ s' : VfsState} {k : Answers} {r : Int} {e : Addr} {v : NodePtr} {f f' : FapsDmassFs} {g h : FilePtr}
  {o : Nat} {data : Option DataBlock} {bufs : Finset Addr} {src : List UInt8}

/-! ### The content of a file -/

/-- The bytes of a file: the first `st_size` ones of its buffer. -/
def content (f : FapsDmassFs) : List UInt8 := (bytesOf f.data).take (toSize f.stat.stSize)

/-- The content of the file of the vnode `v`. -/
def contentAt (s : VfsState) (v : NodePtr) : List UInt8 := ((s.entryAt v).map content).getD []

/-- The vnode `v` is of the entry `e`, whose buffer, a block of the 32-bit heap, holds its `st_size` bytes. -/
structure FileFits (s : VfsState) (v : NodePtr) (e : Addr) (f : FapsDmassFs) : Prop where
  node : s.entryOf v e f
  nonneg : 0 ≤ f.stat.stSize
  room : f.stat.stSize ≤ capacity f.data
  small : capacity f.data ≤ 0xFFFFFFFF

namespace FileFits

theorem size_eq (hF : FileFits s v e f) : f.stat.stSize = (content f).length := by
  have h0 := hF.nonneg
  have hroom := hF.room
  have hsmall := hF.small
  unfold capacity at hroom hsmall
  unfold content
  rw [List.length_take]
  unfold toSize
  omega

theorem contentAt (hF : FileFits s v e f) : contentAt s v = content f := by
  unfold Dmass.contentAt
  rw [entryAt_eq_some.2 ⟨e, hF.node⟩]
  rfl

end FileFits

/-- The buffer that a write has made keeps fitting the file, which is spliced. -/
theorem Stored.content (hS : Stored s f o src data bufs) (h0 : 0 ≤ f.stat.stSize)
    (hroom : f.stat.stSize ≤ capacity f.data) (hsmall : capacity f.data ≤ 0xFFFFFFFF) (ho : o ≤ f.stat.stSize) :
    max f.stat.stSize (o + src.length) ≤ capacity data ∧ capacity data ≤ 0xFFFFFFFF ∧
      (bytesOf data).take (toSize (max f.stat.stSize (o + src.length))) =
        splice ((bytesOf f.data).take (toSize f.stat.stSize)) o src := by
  obtain ⟨m, hm⟩ := Int.eq_ofNat_of_zero_le h0
  rw [hm] at hroom ho ⊢
  have htom : toSize m = m := toSize_natCast (by omega)
  have htoo : toSize o = o := toSize_natCast (by omega)
  obtain ⟨old, hdata, hold, htake⟩ := hS.bytes
  rw [hm, htom] at htake
  rw [htoo] at hdata
  -- the old content is in the buffer
  have hm' : m ≤ capacity data := by
    have hlen := congrArg List.length htake
    rw [List.length_take, List.length_take, hold] at hlen
    unfold capacity at hroom ⊢
    unfold capacity at hlen
    omega
  have hcap : capacity data ≤ 0xFFFFFFFF := by
    rw [hS.size]
    unfold grownCapacity
    split
    · unfold toSize
      omega
    · exact hsmall
  have hend : o + src.length ≤ capacity data := by
    rcases hS.fits with rfl | hfit
    · rw [List.length_nil]
      omega
    · rwa [htoo] at hfit
  have hmax : toSize (max (m : Int) (o + src.length)) = max m (o + src.length) := by
    have : max (m : Int) (o + src.length) = (max m (o + src.length) : Nat) := by omega
    rw [this]
    exact toSize_natCast (by omega)
  refine ⟨by omega, hcap, ?_⟩
  rw [hmax, htom, hdata, take_splice (by omega) (by omega), htake]

/-! ### Opening and writing -/

/-- `vop_open` with `SCE_O_APPEND` sets the handle to the end and changes no content. -/
theorem append_open {object : SceVfsFileObject} (hF : FileFits s v e f) (happ : object.flags &&& SCE_O_APPEND ≠ 0)
    (hs : VopStep s (.open k ⟨v, h⟩ object) 0 s') : ∃ f', FileFits s' v e f' ∧ content f' = content f ∧
      (s'.files h).offset = (content f).length ∧ ∀ g, g ≠ h → s'.files g = s.files g := by
  rcases vopOpen_ok hs with ⟨h0, -⟩ | ⟨-, n, b, f₁, a, hn, hb, hf, -, o, ho, rfl⟩
  · exact absurd h0 (lt_irrefl _)
  obtain ⟨⟨n', hn', he⟩, hf'⟩ := hF.node
  obtain rfl := Option.some.inj (hn.symm.trans hn')
  obtain rfl := Option.some.inj (hb.symm.trans he)
  obtain rfl := Option.some.inj (hf.symm.trans hf')
  rw [if_pos (by dsimp only; rw [Function.update_self]; exact happ)] at ho
  refine ⟨_, ⟨⟨⟨n, hn, hb⟩, Finmap.lookup_insert _⟩, hF.nonneg, hF.room, hF.small⟩, rfl, ?_, fun g hg => ?_⟩
  · refine (setOffset_self _ h o).trans ?_
    rw [ho, hF.size_eq]
  · exact (setOffset_of_ne _ hg o).trans (Function.update_of_ne hg ..)

/-- `vop_write` splices the block into the content at the offset of the handle. -/
theorem append_write {src : Nat → UInt8} {nbyte : UInt32} (hF : FileFits s v e f)
    (hoff : (s.files h).offset = o) (ho : o ≤ (content f).length) (hr : 0 ≤ r)
    (hs : VopStep s (.write k ⟨v, h, src, nbyte⟩) r s') : ∃ f', FileFits s' v e f' ∧
      content f' = splice (content f) o (fill src nbyte.toNat) ∧
      (s'.files h).offset = (o + (fill src nbyte.toNat).length : Nat) ∧ ∀ g, g ≠ h → s'.files g = s.files g := by
  rcases vopWrite_ok hs with ⟨h0, -⟩ | ⟨n, b, f₁, data, bufs, hn, hb, hf, -, hS, -, rfl⟩
  · exact absurd hr (not_le.2 h0)
  obtain ⟨⟨n', hn', he⟩, hf'⟩ := hF.node
  obtain rfl := Option.some.inj (hn.symm.trans hn')
  obtain rfl := Option.some.inj (hb.symm.trans he)
  obtain rfl := Option.some.inj (hf.symm.trans hf')
  have hle : (o : Int) ≤ f₁.stat.stSize := by
    rw [hF.size_eq]
    omega
  dsimp only at hS
  rw [hoff] at hS
  obtain ⟨hroom, hsmall, hcontent⟩ := hS.content hF.nonneg hF.room hF.small hle
  rw [length_fill] at hroom hcontent ⊢
  refine ⟨{ f₁ with data := data, stat := grownStat f₁ o nbyte.toNat }, ⟨⟨?_, ?_⟩, ?_, hroom, hsmall⟩, hcontent, ?_,
    fun g hg => ?_⟩
  · dsimp only
    split
    · refine ⟨{ n with stSize := (s.files h).offset + nbyte.toNat }, ?_, hb⟩
      rw [lookup_modifyAt, if_pos rfl, hn]
      rfl
    · exact ⟨n, hn, hb⟩
  · dsimp only
    rw [hoff]
    exact Finmap.lookup_insert _
  · exact le_trans hF.nonneg (le_max_left _ _)
  · refine (setOffset_self s h _).trans ?_
    rw [hoff]
    rfl
  · exact setOffset_of_ne s hg _

/-! ### Runs of such handles -/

/-- A successful call on the file: `vop_open` with `SCE_O_APPEND`, or `vop_write` of a block. -/
inductive AppendOp where
  | open (h : FilePtr)
  | write (h : FilePtr) (block : List UInt8)

namespace AppendOp

def block : AppendOp → List UInt8
  | .open _ => []
  | .write _ block => block

/-- From the handles that are at the end of the file before the call, those that are after it: a block that is
written there leaves all others behind. -/
def after (atEnd : FilePtr → Prop) : AppendOp → FilePtr → Prop
  | .open g, h => h = g ∨ atEnd h
  | .write g block, h => if block = [] then atEnd h else h = g

theorem after_nil {atEnd : FilePtr → Prop} : (AppendOp.write g []).after atEnd h = atEnd h := by
  simp [after]

theorem after_block {atEnd : FilePtr → Prop} {block : List UInt8} (hne : block ≠ []) :
    (AppendOp.write g block).after atEnd h = (h = g) := by
  simp [after, hne]

end AppendOp

/-- Any number of file objects are opened with `SCE_O_APPEND` on the vnode `v` and write, in any order. -/
inductive AppendRun (v : NodePtr) (s₀ : VfsState) : List AppendOp → VfsState → Prop
  | nil : AppendRun v s₀ [] s₀
  | open {s s' : VfsState} {ls : List AppendOp} {k : Answers} {h : FilePtr} {object : SceVfsFileObject} :
    AppendRun v s₀ ls s → object.flags &&& SCE_O_APPEND ≠ 0 → VopStep s (.open k ⟨v, h⟩ object) 0 s' →
    AppendRun v s₀ (ls ++ [.open h]) s'
  | write {s s' : VfsState} {ls : List AppendOp} {k : Answers} {h : FilePtr} {src : Nat → UInt8} {nbyte : UInt32}
    {r : Int} : AppendRun v s₀ ls s → .open h ∈ ls → 0 ≤ r → VopStep s (.write k ⟨v, h, src, nbyte⟩) r s' →
    AppendRun v s₀ (ls ++ [.write h (fill src nbyte.toNat)]) s'

/-- The handles that no other has written behind since they were opened or last wrote. -/
def latest (ls : List AppendOp) : FilePtr → Prop := ls.foldl AppendOp.after fun _ => False

/-- Each block is written by such a handle. -/
def inTurn (ls : List AppendOp) : Prop :=
  ∀ ls₁ h block ls₂, ls = ls₁ ++ .write h block :: ls₂ → block ≠ [] → latest ls₁ h

theorem latest_snoc (ls : List AppendOp) (op : AppendOp) : latest (ls ++ [op]) = op.after (latest ls) := by
  unfold latest
  rw [List.foldl_append]
  rfl

theorem inTurn_snoc (ls : List AppendOp) (op : AppendOp) :
    inTurn (ls ++ [op]) ↔ inTurn ls ∧ ∀ h block, op = .write h block → block ≠ [] → latest ls h := by
  constructor
  · intro hin
    refine ⟨fun ls₁ h block ls₂ hls hne => ?_, fun h block hop hne => hin ls h block [] (by rw [hop]) hne⟩
    exact hin ls₁ h block (ls₂ ++ [op]) (by rw [hls, List.append_assoc, List.cons_append]) hne
  · rintro ⟨hin, hlast⟩ ls₁ h block ls₂ hls hne
    rcases List.eq_nil_or_concat' ls₂ with rfl | ⟨ls₂, op', rfl⟩
    · obtain ⟨rfl, hop⟩ := List.append_inj' hls rfl
      exact hlast h block (List.cons.inj hop).1 hne
    · rw [← List.cons_append, ← List.append_assoc] at hls
      obtain ⟨rfl, -⟩ := List.append_inj' hls rfl
      exact hin ls₁ h block ls₂ rfl hne

/-- The state of a run: the file fits its buffer, and the opened handles are inside it. -/
structure Appending (s : VfsState) (v : NodePtr) (e : Addr) (f : FapsDmassFs) (ls : List AppendOp) : Prop where
  fits : FileFits s v e f
  inside : ∀ h, .open h ∈ ls → ∃ o : Nat, (s.files h).offset = o ∧ o ≤ (content f).length

/-- How far a run has kept to appending. -/
structure Appended (c₀ : List UInt8) (s : VfsState) (f : FapsDmassFs) (ls : List AppendOp) : Prop where
  length : (content f).length ≤ c₀.length + (ls.flatMap AppendOp.block).length
  iff : content f = c₀ ++ ls.flatMap AppendOp.block ↔ inTurn ls
  ends : inTurn ls → ∀ h, .open h ∈ ls → (latest ls h ↔ (s.files h).offset = (content f).length)

theorem open_mem_snoc {ls : List AppendOp} {op : AppendOp} :
    .open h ∈ ls ++ [op] ↔ .open h ∈ ls ∨ op = .open h := by
  rw [List.mem_append, List.mem_singleton, eq_comm]

theorem appended_open {c₀ : List UInt8} {ls : List AppendOp} {object : SceVfsFileObject} (hA : Appending s v e f ls)
    (hP : Appended c₀ s f ls) (happ : object.flags &&& SCE_O_APPEND ≠ 0)
    (hs : VopStep s (.open k ⟨v, h⟩ object) 0 s') :
    ∃ f', Appending s' v e f' (ls ++ [.open h]) ∧ Appended c₀ s' f' (ls ++ [.open h]) := by
  obtain ⟨f', hF, hc, hoff, hother⟩ := append_open hA.fits happ hs
  have hblocks : (ls ++ [AppendOp.open h]).flatMap AppendOp.block = ls.flatMap AppendOp.block := by
    rw [List.flatMap_append]
    exact List.append_nil _
  have hturn : inTurn (ls ++ [.open h]) ↔ inTurn ls := by
    rw [inTurn_snoc]
    exact and_iff_left nofun
  refine ⟨f', ⟨hF, fun g hg => ?_⟩, ?_, ?_, fun hin g hg => ?_⟩
  · rw [hc]
    by_cases hgh : g = h
    · rw [hgh, hoff]
      exact ⟨_, rfl, le_rfl⟩
    · rw [hother g hgh]
      refine hA.inside g ((open_mem_snoc.1 hg).resolve_right fun hop => hgh ?_)
      exact (AppendOp.open.inj hop).symm
  · rw [hc, hblocks]
    exact hP.length
  · rw [hc, hblocks, hturn]
    exact hP.iff
  · rw [latest_snoc, hc]
    by_cases hgh : g = h
    · rw [hgh, hoff]
      exact iff_of_true (.inl rfl) rfl
    · rw [hother g hgh]
      have hg := (open_mem_snoc.1 hg).resolve_right fun hop => hgh (AppendOp.open.inj hop).symm
      exact (or_iff_right hgh).trans (hP.ends (hturn.1 hin) g hg)

theorem splice_length {xs d : List UInt8} : splice xs xs.length d = xs ++ d := by
  unfold splice
  rw [List.take_length, List.drop_eq_nil_of_le (Nat.le_add_right _ _), List.append_nil]

theorem appended_write {c₀ : List UInt8} {ls : List AppendOp} {src : Nat → UInt8} {nbyte : UInt32}
    (hA : Appending s v e f ls) (hP : Appended c₀ s f ls) (hopen : .open h ∈ ls) (hr : 0 ≤ r)
    (hs : VopStep s (.write k ⟨v, h, src, nbyte⟩) r s') :
    ∃ f', Appending s' v e f' (ls ++ [.write h (fill src nbyte.toNat)]) ∧
      Appended c₀ s' f' (ls ++ [.write h (fill src nbyte.toNat)]) := by
  obtain ⟨o, hoff, ho⟩ := hA.inside h hopen
  obtain ⟨f', hF, hc, hoff', hother⟩ := append_write hA.fits hoff ho hr hs
  generalize fill src nbyte.toNat = block at hc hoff' ⊢
  have hlen : (content f').length = max (content f).length (o + block.length) := by
    rw [hc, length_splice ho]
  have hblocks : (ls ++ [AppendOp.write h block]).flatMap AppendOp.block = ls.flatMap AppendOp.block ++ block := by
    rw [List.flatMap_append]
    exact congrArg _ (List.append_nil block)
  have hold : ∀ g, .open g ∈ ls ++ [.write h block] → .open g ∈ ls := fun g hg =>
    (open_mem_snoc.1 hg).resolve_right nofun
  have hturn : inTurn (ls ++ [.write h block]) ↔ inTurn ls ∧ (block ≠ [] → latest ls h) := by
    rw [inTurn_snoc]
    refine and_congr_right fun _ => ⟨fun hin => hin h block rfl, fun hin g b hop => ?_⟩
    obtain ⟨rfl, rfl⟩ := AppendOp.write.inj hop
    exact hin
  have hle := hP.length
  refine ⟨f', ⟨hF, fun g hg => ?_⟩, ?_, ?_, fun hin g hg => ?_⟩
  · by_cases hgh : g = h
    · rw [hgh, hoff', hlen]
      exact ⟨_, rfl, le_max_right _ _⟩
    · rw [hother g hgh]
      obtain ⟨o', ho', hle'⟩ := hA.inside g (hold g hg)
      exact ⟨o', ho', by omega⟩
  · rw [hblocks, List.length_append]
    omega
  · rw [hturn, hblocks, ← List.append_assoc]
    rcases eq_or_ne block [] with rfl | hne
    · -- a write of no bytes changes nothing
      rw [hc, splice_nil, List.append_nil, hP.iff]
      exact (and_iff_left fun hno => absurd rfl hno).symm
    have hpos := List.length_pos_of_ne_nil hne
    constructor
    · intro heq
      -- the content is as long as it can be, so that the block was put at the end
      have hlong := congrArg List.length heq
      rw [List.length_append, List.length_append, hlen] at hlong
      have hend : o = (content f).length := by omega
      rw [hc, hend, splice_length] at heq
      have hin := hP.iff.1 (List.append_cancel_right heq)
      refine ⟨hin, fun _ => (hP.ends hin h hopen).2 ?_⟩
      rw [hoff, hend]
    · rintro ⟨hin, hlast⟩
      have hend := (hP.ends hin h hopen).1 (hlast hne)
      rw [hoff] at hend
      rw [hc, Int.ofNat_inj.1 hend, splice_length, hP.iff.2 hin]
  · obtain ⟨hin₀, hlast⟩ := hturn.1 hin
    rw [latest_snoc]
    rcases eq_or_ne block [] with rfl | hne
    · rw [AppendOp.after_nil, hP.ends hin₀ g (hold g hg), hc, splice_nil]
      by_cases hgh : g = h
      · rw [hgh, hoff', hoff]
        rfl
      · rw [hother g hgh]
    · rw [AppendOp.after_block hne]
      have hpos := List.length_pos_of_ne_nil hne
      have hend := (hP.ends hin₀ h hopen).1 (hlast hne)
      rw [hoff] at hend
      have hend := Int.ofNat_inj.1 hend
      by_cases hgh : g = h
      · rw [hgh, hoff', hlen, hend]
        exact iff_of_true rfl (by omega)
      · rw [hother g hgh, hlen]
        obtain ⟨o', ho', hle'⟩ := hA.inside g (hold g hg)
        exact iff_of_false hgh (by omega)

theorem appended_run {ls : List AppendOp} (hF : FileFits s₀ v e f) (hrun : AppendRun v s₀ ls s) :
    ∃ f', Appending s v e f' ls ∧ Appended (content f) s f' ls := by
  induction hrun with
  | nil =>
    refine ⟨f, ⟨hF, nofun⟩, le_rfl, ?_, nofun⟩
    refine iff_of_true (List.append_nil _).symm fun ls₁ h block ls₂ hls _ => ?_
    exact absurd hls (by simp)
  | «open» _ happ hs ih =>
    obtain ⟨f', hA, hP⟩ := ih
    exact appended_open hA hP happ hs
  | write _ hopen hr hs ih =>
    obtain ⟨f', hA, hP⟩ := ih
    exact appended_write hA hP hopen hr hs

/-- The file ends up as its first content and all blocks in the order of the calls exactly when each block was
written by a handle that no other had written behind. -/
theorem append_iff {ls : List AppendOp} (hF : FileFits s₀ v e f) (hrun : AppendRun v s₀ ls s) :
    contentAt s v = contentAt s₀ v ++ ls.flatMap AppendOp.block ↔ inTurn ls := by
  obtain ⟨f', hA, hP⟩ := appended_run hF hrun
  rw [hA.fits.contentAt, hF.contentAt]
  exact hP.iff

theorem fileFits_newFile : ∃ f, FileFits newFile 1 4 f := by
  have hv : newFile.devInfo 1 = some 4 := by decide +kernel
  have hf : newFile.view (fun f => (f.stat.stSize, capacity f.data)) 4 = some (0, 0) := by decide +kernel
  obtain ⟨f, hf, hx⟩ := view_eq_some.1 hf
  obtain ⟨h0, hcap⟩ := Prod.mk.inj hx
  exact ⟨f, ⟨devInfo_eq_some.1 hv, hf⟩, by rw [h0], by rw [h0, hcap]; rfl, by rw [hcap]; decide⟩

/-- `vop_open` of the new file with `SCE_O_APPEND`. -/
def openAppend (h : FilePtr) : VopCall := .open idle ⟨1, h⟩ { flags := SCE_O_APPEND, node := 1 }

def putByte (h : FilePtr) (b : UInt8) : VopCall := .write idle ⟨1, h, fun _ => b, 1⟩

theorem putByte_run {ls : List AppendOp} {b : UInt8} (hrun : AppendRun 1 s₀ ls s) (hopen : .open h ∈ ls)
    (heval : ((putByte h b).exec s).map (·.1) = .ok 1) :
    AppendRun 1 s₀ (ls ++ [.write h [b]]) (lastState [putByte h b] s) := by
  have hput : VopStep s (putByte h b) 1 (lastState [putByte h b] s) := lastState_step heval
  exact AppendRun.write hrun hopen (by decide) hput

/-- The second handle is opened after the first one has written. -/
theorem append_iff_twoHandles : ∃ s, AppendRun 1 newFile [.open 7, .write 7 [1], .open 8, .write 8 [2]] s ∧
    contentAt s 1 = contentAt newFile 1 ++ [1, 2] := by
  obtain ⟨f, hF⟩ := fileFits_newFile
  have h₁ : AppendRun 1 newFile [.open 7] (lastState [openAppend 7] newFile) :=
    .open .nil (by decide) (lastState_step (by decide +kernel))
  have h₂ : AppendRun 1 newFile [.open 7, .write 7 [1]] _ :=
    putByte_run h₁ (List.mem_singleton_self _) (by decide +kernel)
  have h₃ : AppendRun 1 newFile [.open 7, .write 7 [1], .open 8] (lastState [openAppend 8] _) :=
    .open h₂ (by decide) (lastState_step (by decide +kernel))
  have h₄ : AppendRun 1 newFile [.open 7, .write 7 [1], .open 8, .write 8 [2]] _ :=
    putByte_run h₃ (by simp) (by decide +kernel)
  refine ⟨_, h₄, (append_iff hF h₄).2 ?_⟩
  refine (inTurn_snoc [.open 7, .write 7 [1], .open 8] _).2 ⟨(inTurn_snoc [.open 7, .write 7 [1]] _).2
    ⟨(inTurn_snoc [.open 7] _).2 ⟨(inTurn_snoc [] _).2 ⟨?_, nofun⟩, ?_⟩, nofun⟩, ?_⟩
  · intro ls₁ h block ls₂ hls
    simp at hls
  · rintro h block ⟨⟩ -
    exact .inl rfl
  · rintro h block ⟨⟩ -
    exact .inl rfl

/-- The second handle was opened before the first one wrote, and overwrites its byte. -/
theorem not_append_both : ∃ s f, FileFits newFile 1 4 f ∧
    AppendRun 1 newFile [.open 7, .open 8, .write 7 [1], .write 8 [2]] s ∧
    contentAt s 1 ≠ contentAt newFile 1 ++
      [AppendOp.open 7, .open 8, .write 7 [1], .write 8 [2]].flatMap AppendOp.block := by
  obtain ⟨f, hF⟩ := fileFits_newFile
  have h₁ : AppendRun 1 newFile [.open 7] (lastState [openAppend 7] newFile) :=
    .open .nil (by decide) (lastState_step (by decide +kernel))
  have h₂ : AppendRun 1 newFile [.open 7, .open 8] (lastState [openAppend 8] (lastState [openAppend 7] newFile)) :=
    .open h₁ (by decide) (lastState_step (by decide +kernel))
  have h₃ : AppendRun 1 newFile [.open 7, .open 8, .write 7 [1]] _ :=
    putByte_run h₂ (by simp) (by decide +kernel)
  have h₄ : AppendRun 1 newFile [.open 7, .open 8, .write 7 [1], .write 8 [2]] _ :=
    putByte_run h₃ (by simp) (by decide +kernel)
  exact ⟨_, f, hF, h₄, by decide +kernel⟩

end VitaUtility.Dmass

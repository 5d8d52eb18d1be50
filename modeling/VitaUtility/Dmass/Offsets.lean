import VitaUtility.Dmass.DataSpec

/-!
# Handle offsets and the size of their file

Any number of handles on one vnode of a file. Each data call checks or moves its own handle against
`st_size`; a change of the size looks at no handle.
-/

namespace VitaUtility.Dmass
open VfsState

variable {s s' : VfsState} {k : Answers} {r : Int} {e : Addr} {v : NodePtr} {f f' : FapsDmassFs} {h : FilePtr}

/-- The file object `h` is open on the entry `f`. -/
def isOpen (f : FapsDmassFs) (h : FilePtr) : Prop := ∃ x ∈ f.pDmassFsX, x.handlerIndex = h.toInt32

/-- Different file objects have different keys. -/
theorem handleKey_inj {g : FilePtr} : g.toInt32 = h.toInt32 ↔ g = h := by
  constructor
  · intro hgh
    exact UInt32.toBitVec_inj.1 (congrArg Int32.toBitVec hgh)
  · rintro rfl
    rfl

/-- The vnode `v` of the entry `e`, with content `f`, has its size, and every open handle is inside the file. -/
structure HandlesInside (s : VfsState) (v : NodePtr) (e : Addr) (f : FapsDmassFs) : Prop where
  node : s.entryOf v e f
  size : ∀ n, s.vnodes.lookup v = some n → n.stSize = f.stat.stSize
  nonneg : 0 ≤ f.stat.stSize
  inside : ∀ h, isOpen f h → 0 ≤ (s.files h).offset ∧ (s.files h).offset ≤ f.stat.stSize

theorem isOpen_of_search (hs : (searchDmassCtlData h.toInt32 f.pDmassFsX).isSome) : isOpen f h := by
  rcases unlinkCtlData_eq h.toInt32 f.pDmassFsX with ⟨-, hnone⟩ | ⟨l₁, x, l₂, hl, hx, -⟩
  · rw [hnone] at hs
    cases hs
  · exact ⟨x, by rw [hl]; simp, hx⟩

namespace HandlesInside

theorem entry_eq (hI : HandlesInside s v e f) {n : SceVfsNode} {b : Addr} (hn : s.vnodes.lookup v = some n)
    (hb : n.devInfo = some b) : b = e := by
  obtain ⟨⟨m, hm, he⟩, -⟩ := hI.node
  obtain rfl := Option.some.inj (hn.symm.trans hm)
  exact Option.some.inj (hb.symm.trans he)

/-- What a call found through the vnode is the file. -/
theorem file_eq (hI : HandlesInside s v e f) {n : SceVfsNode} {b : Addr} (hn : s.vnodes.lookup v = some n)
    (hb : n.devInfo = some b) (hf : s.entries.lookup b = some f') : b = e ∧ f = f' := by
  obtain rfl := hI.entry_eq hn hb
  exact ⟨rfl, Option.some.inj (hI.node.2.symm.trans hf)⟩

/-- Moving one handle to an offset inside the file. -/
theorem setOffset (hI : HandlesInside s v e f) {o : Int} (h0 : 0 ≤ o) (ho : o ≤ f.stat.stSize) :
    HandlesInside (s.setOffset h o) v e f := by
  refine ⟨hI.node, hI.size, hI.nonneg, fun g hg => ?_⟩
  by_cases hgh : g = h
  · subst g
    simp only [VfsState.setOffset, Function.update_self]
    exact ⟨h0, ho⟩
  · simp only [VfsState.setOffset, Function.update_of_ne hgh]
    exact hI.inside g hg

/-- Another content for the entry, with the same size and no handle outside. -/
theorem replace (hI : HandlesInside s v e f) (hent : s'.entries = s.entries.insert e f')
    (hv : s'.vnodes = s.vnodes) (hsize : f'.stat.stSize = f.stat.stSize)
    (hin : ∀ h, isOpen f' h → 0 ≤ (s'.files h).offset ∧ (s'.files h).offset ≤ f.stat.stSize) :
    HandlesInside s' v e f' := by
  obtain ⟨hn, -⟩ := hI.node
  refine ⟨⟨by rwa [hv], ?_⟩, ?_, ?_, ?_⟩
  · rw [hent]
    exact Finmap.lookup_insert _
  · rw [hv, hsize]
    exact hI.size
  · rw [hsize]
    exact hI.nonneg
  · rw [hsize]
    exact hin

/-- Another size for the entry and its vnode. -/
theorem resize (hI : HandlesInside s v e f) (hent : s'.entries = s.entries.insert e f')
    (hv : s'.vnodes = modifyAt s.vnodes v fun n => { n with stSize := f'.stat.stSize })
    (h0 : 0 ≤ f'.stat.stSize)
    (hin : ∀ h, isOpen f' h → 0 ≤ (s'.files h).offset ∧ (s'.files h).offset ≤ f'.stat.stSize) :
    HandlesInside s' v e f' := by
  obtain ⟨⟨n, hn, he⟩, -⟩ := hI.node
  have hn' : s'.vnodes.lookup v = some { n with stSize := f'.stat.stSize } := by
    rw [hv, lookup_modifyAt, if_pos rfl, hn]
    rfl
  refine ⟨⟨⟨_, hn', he⟩, ?_⟩, ?_, h0, hin⟩
  · rw [hent]
    exact Finmap.lookup_insert _
  · intro m hm
    obtain rfl := Option.some.inj (hn'.symm.trans hm)
    rfl

/-- `w` bytes stored at `o`; the vnode follows when the file grows. -/
theorem grow (hI : HandlesInside s v e f) {o : Int} {w : Nat}
    (hent : s'.entries = s.entries.insert e f') (hf' : f'.stat = grownStat f o w)
    (hopen : f'.pDmassFsX = f.pDmassFsX)
    (hv : (o + w ≤ f.stat.stSize ∧ s'.vnodes = s.vnodes) ∨ (f.stat.stSize ≤ o + w ∧
      s'.vnodes = modifyAt s.vnodes v fun n => { n with stSize := o + w }))
    (hfiles : s'.files = s.files ∨ ∃ h, s'.files = (s.setOffset h (o + w)).files ∧ 0 ≤ o) :
    HandlesInside s' v e f' := by
  have hsize : f'.stat.stSize = max f.stat.stSize (o + w) := congrArg (·.stSize) hf'
  have h0 := hI.nonneg
  have hin : ∀ h, isOpen f' h → 0 ≤ (s'.files h).offset ∧ (s'.files h).offset ≤ max f.stat.stSize (o + w) := by
    intro g hg
    have hg : isOpen f g := by rwa [isOpen, hopen] at hg
    have hold := hI.inside g hg
    have hle : (s.files g).offset ≤ max f.stat.stSize (o + w) := hold.2.trans (le_max_left _ _)
    rcases hfiles with hfiles | ⟨h, hfiles, ho0⟩
    · rw [hfiles]
      exact ⟨hold.1, hle⟩
    · rw [hfiles]
      by_cases hgh : g = h
      · subst g
        simp only [VfsState.setOffset, Function.update_self]
        exact ⟨by omega, le_max_right _ _⟩
      · simp only [VfsState.setOffset, Function.update_of_ne hgh]
        exact ⟨hold.1, hle⟩
  rcases hv with ⟨hle, hv⟩ | ⟨hge, hv⟩
  · rw [max_eq_left hle] at hin hsize
    exact hI.replace hent hv hsize hin
  · rw [max_eq_right hge] at hin hsize
    rw [← hsize] at hv hin
    exact hI.resize hent hv (by omega) hin

end HandlesInside

/-- The calls on the file through `v`; a new file object starts at offset 0. -/
def fileCall (v : NodePtr) (e : Addr) (call : VopCall) (s : VfsState) : Prop :=
  match call with
  | .open _ argp object => argp.node = v ∧ object.offset = 0
  | .close argp => argp.node = v
  | .read argp => argp.node = v
  | .write _ argp => argp.node = v
  | .pread argp => argp.node = v
  | .pwrite _ argp => argp.node = v
  | .lseek argp => argp.node = v
  | .chstat _ argp => argp.node = v ∧ ∀ b, getFsEntry argp.fileInfo.path s = .ok (.ok (some b)) → b = e
  | .chstatByFd _ argp => argp.pNode = v
  | _ => False

/-- A new size is at or after the offset of every open handle. -/
def pastHandles (e : Addr) (call : VopCall) (s : VfsState) : Prop :=
  match call with
  | .chstat k argp => getFsEntry argp.fileInfo.path s = .ok (.ok (some e)) → ∀ f, s.entries.lookup e = some f →
      SizeReached k s f argp.stat argp.bit → ∀ h, isOpen f h → (s.files h).offset ≤ argp.stat.stSize
  | .chstatByFd k argp => ∀ f, s.entryOf argp.pNode e f → SizeReached k s f argp.stat argp.bit →
      ∀ h, isOpen f h → (s.files h).offset ≤ argp.stat.stSize
  | _ => True

theorem handlesInside_chstatEntry {stat : SceIoStat} {bit : UInt32} (hI : HandlesInside s v e f)
    (hs : chstatEntry k v e stat bit s = .ok (r, s'))
    (hpast : ∀ f, s.entries.lookup e = some f → SizeReached k s f stat bit → ∀ h, isOpen f h →
      (s.files h).offset ≤ stat.stSize) : ∃ f', HandlesInside s' v e f' := by
  obtain ⟨f₁, mode, hf, -, ⟨times, -, hsize, -, rfl⟩ | ⟨-, hreach, n, data, bufs, times, -, -, hsize, hR, rfl⟩⟩ :=
    chstatEntry_ok hs
  · obtain rfl := Option.some.inj (hI.node.2.symm.trans hf)
    exact ⟨_, hI.replace rfl rfl hsize hI.inside⟩
  · obtain rfl := Option.some.inj (hI.node.2.symm.trans hf)
    refine ⟨_, hI.resize rfl ?_ ?_ ?_⟩
    · dsimp only
      rw [hsize]
    · dsimp only
      rw [hsize]
      exact hR.nonneg
    · intro h hh
      dsimp only
      rw [hsize]
      exact ⟨(hI.inside h hh).1, hpast f hf hreach h hh⟩

theorem handlesInside_open {argp : SceVfsOpen} {object : SceVfsFileObject} (hI : HandlesInside s argp.node e f)
    (h0 : object.offset = 0)
    (hs : vopOpen k argp { s with files := Function.update s.files argp.pVfsFileObject object } = .ok (r, s')) :
    ∃ f', HandlesInside s' argp.node e f' := by
  -- the new file object, which may be that of an open handle
  have hI₀ : HandlesInside { s with files := Function.update s.files argp.pVfsFileObject object } argp.node e f := by
    refine ⟨hI.node, hI.size, hI.nonneg, fun g hg => ?_⟩
    by_cases hgh : g = argp.pVfsFileObject
    · subst g
      simp only [Function.update_self, h0]
      exact ⟨le_rfl, hI.nonneg⟩
    · simp only [Function.update_of_ne hgh]
      exact hI.inside g hg
  rcases vopOpen_ok hs with ⟨-, rfl⟩ | ⟨-, n, b, fb, a, hn, hb, hf, -, o, ho, rfl⟩
  · exact ⟨f, hI₀⟩
  obtain ⟨rfl, rfl⟩ := hI₀.file_eq hn hb hf
  have ho : 0 ≤ o ∧ o ≤ f.stat.stSize := by
    rw [ho]
    split
    · exact ⟨hI.nonneg, le_rfl⟩
    · simp only [Function.update_self, h0]
      exact ⟨le_rfl, hI.nonneg⟩
  have hI₁ := hI₀.setOffset (h := argp.pVfsFileObject) ho.1 ho.2
  refine ⟨_, hI₁.replace rfl rfl rfl fun g hg => ?_⟩
  by_cases hgh : g = argp.pVfsFileObject
  · subst g
    simp only [VfsState.setOffset, Function.update_self]
    exact ho
  · obtain ⟨x, hx, hxg⟩ := hg
    rcases List.mem_cons.1 hx with rfl | hx
    · exact absurd (handleKey_inj.1 hxg.symm) hgh
    · exact hI₁.inside g ⟨x, hx, hxg⟩

theorem handlesInside_close {argp : SceVfsClose} (hI : HandlesInside s argp.node e f)
    (hs : vopClose argp s = .ok (r, s')) : ∃ f', HandlesInside s' argp.node e f' := by
  rcases vopClose_ok hs with ⟨-, rfl⟩ | ⟨-, n, b, hn, hb, f₁, l₁, x, l₂, hf, hl, -, -, rfl⟩
  · exact ⟨f, hI⟩
  obtain ⟨rfl, rfl⟩ := hI.file_eq hn hb hf
  refine ⟨_, hI.replace (modifyAt_eq hf _) rfl rfl fun g hg => ?_⟩
  obtain ⟨y, hy, hyg⟩ := hg
  refine hI.inside g ⟨y, ?_, hyg⟩
  rw [hl]
  rcases List.mem_append.1 hy with hy | hy
  · exact List.mem_append_left _ hy
  · exact List.mem_append_right _ (List.mem_cons_of_mem _ hy)

theorem handlesInside_step {call : VopCall} (hI : HandlesInside s v e f) (hc : fileCall v e call s)
    (hpast : pastHandles e call s) (hs : VopStep s call r s') : ∃ f', HandlesInside s' v e f' := by
  unfold VopStep at hs
  cases call with
  | «open» k argp object =>
    obtain ⟨rfl, h0⟩ := hc
    exact handlesInside_open hI h0 hs
  | close argp =>
    obtain rfl := hc
    exact handlesInside_close hI hs
  | read argp =>
    obtain rfl := hc
    obtain ⟨out, hs⟩ := dropOut_eq_ok.1 hs
    rcases vopRead_ok hs with rfl | ⟨n, b, f₁, m, hn, hb, hf, hopen, hle, rfl⟩
    · exact ⟨f, hI⟩
    obtain ⟨rfl, rfl⟩ := hI.file_eq hn hb hf
    have := hI.inside _ (isOpen_of_search hopen)
    exact ⟨f, hI.setOffset (by omega) hle⟩
  | write k argp =>
    obtain rfl := hc
    rcases vopWrite_ok hs with ⟨-, rfl⟩ | ⟨n, b, f₁, data, bufs, hn, hb, hf, hreach, -, -, rfl⟩
    · exact ⟨f, hI⟩
    obtain ⟨rfl, rfl⟩ := hI.file_eq hn hb hf
    have hin := hI.inside _ (isOpen_of_search hreach.handle)
    refine ⟨_, hI.grow rfl rfl rfl ?_ (.inr ⟨argp.pVfsFileObject, rfl, hin.1⟩)⟩
    dsimp only
    split
    · exact .inr ⟨‹_›, rfl⟩
    · exact .inl ⟨(not_le.1 ‹_›).le, rfl⟩
  | pwrite k argp =>
    obtain rfl := hc
    rcases vopPwrite_ok hs with ⟨-, rfl⟩ | ⟨n, b, f₁, data, bufs, hn, hb, hf, -, -, -, rfl⟩
    · exact ⟨f, hI⟩
    obtain ⟨rfl, rfl⟩ := hI.file_eq hn hb hf
    refine ⟨_, hI.grow rfl rfl rfl ?_ (.inl rfl)⟩
    dsimp only
    split
    · exact .inr ⟨le_of_lt ‹_›, rfl⟩
    · exact .inl ⟨not_lt.1 ‹_›, rfl⟩
  | pread argp =>
    obtain rfl := VopStep.pread_eq hs
    exact ⟨f, hI⟩
  | lseek argp =>
    obtain rfl := hc
    rcases vopLseek_ok hs with ⟨-, rfl⟩ | ⟨h0, n, hn, hle, rfl⟩
    · exact ⟨f, hI⟩
    rw [hI.size n hn] at hle
    exact ⟨f, hI.setOffset h0 hle⟩
  | chstat k argp =>
    obtain ⟨rfl, hpath⟩ := hc
    rcases vopChstat_ok hs with ⟨-, rfl⟩ | ⟨b, hb, hs⟩
    · exact ⟨f, hI⟩
    obtain rfl := hpath b hb
    exact handlesInside_chstatEntry hI hs (hpast hb)
  | chstatByFd k argp =>
    obtain rfl := hc
    rcases vopChstatByFd_ok hs with ⟨-, rfl⟩ | ⟨n, b, hn, hb, hs⟩
    · exact ⟨f, hI⟩
    obtain rfl := hI.entry_eq hn hb
    exact handlesInside_chstatEntry hI hs fun f hf => hpast f ⟨⟨n, hn, hb⟩, hf⟩
  | _ => exact hc.elim

/-- The offset of every open handle is inside the file. -/
def OffsetsInside (s : VfsState) (e : Addr) : Prop :=
  ∃ f, s.entries.lookup e = some f ∧ ∀ h, isOpen f h →
    0 ≤ (s.files h).offset ∧ (s.files h).offset ≤ f.stat.stSize

/-- A vnode and its entry with one size, and no handle open yet. -/
def Unopened (s : VfsState) (v : NodePtr) (e : Addr) : Prop :=
  ∃ n f, s.vnodes.lookup v = some n ∧ n.devInfo = some e ∧ s.entries.lookup e = some f ∧
    n.stSize = f.stat.stSize ∧ 0 ≤ f.stat.stSize ∧ f.pDmassFsX = []

theorem Unopened.handlesInside (h : Unopened s v e) : ∃ f, HandlesInside s v e f := by
  obtain ⟨n, f, hn, he, hf, hsize, h0, hnone⟩ := h
  refine ⟨f, ⟨⟨n, hn, he⟩, hf⟩, fun m hm => ?_, h0, fun h hh => ?_⟩
  · rwa [← Option.some.inj (hn.symm.trans hm)]
  · obtain ⟨x, hx, -⟩ := hh
    rw [hnone] at hx
    cases hx

theorem offsetsInside_run {ls : List (VopCall × Int)} (hu : Unopened s v e)
    (h : VopRun (fun call _ s => fileCall v e call s ∧ pastHandles e call s) s ls s') : OffsetsInside s' e := by
  have hstep : ∀ s call r s', (∃ f, HandlesInside s v e f) → fileCall v e call s ∧ pastHandles e call s →
      VopStep s call r s' → ∃ f, HandlesInside s' v e f := by
    rintro s call r s' ⟨f, hI⟩ hok hs
    exact handlesInside_step hI hok.1 hok.2 hs
  obtain ⟨f, hI⟩ := h.invariant hstep hu.handlesInside
  exact ⟨f, hI.node.2, hI.inside⟩

def newFile : VfsState := lastState [.create idle ⟨0, inRoot chA⟩] mounted

theorem unopened_newFile : Unopened newFile 1 4 := by
  have hn : (newFile.vnodes.lookup 1).map (fun n => (n.devInfo, n.stSize)) = some (some 4, 0) := by decide +kernel
  have hf : newFile.view (fun f => (f.stat.stSize, f.pDmassFsX)) 4 = some (0, []) := by decide +kernel
  obtain ⟨n, hn, hx⟩ := Option.map_eq_some_iff.1 hn
  obtain ⟨f, hf, hy⟩ := view_eq_some.1 hf
  obtain ⟨he, h0⟩ := Prod.mk.inj hx
  obtain ⟨hs, hnone⟩ := Prod.mk.inj hy
  exact ⟨n, f, hn, he, hf, h0.trans hs.symm, hs.ge, hnone⟩

/-- Open a handle and write a byte. -/
def writeOne : List VopCall := [.open idle ⟨1, 1⟩ { node := 1 }, .write idle ⟨1, 1, fun _ => 0, 1⟩]

theorem offsetsInside_run_writeOne : OffsetsInside (lastState writeOne newFile) 4 := by
  have hok : ∀ c ∈ writeOne, ∀ s, fileCall 1 4 c s ∧ pastHandles 4 c s := by
    simp [writeOne, fileCall, pastHandles]
  obtain ⟨ls, h⟩ := lastState_run (s := newFile) (fun c hc _ s => hok c hc s) (by decide +kernel)
  exact offsetsInside_run unopened_newFile h

/-- Emptying the file leaves the handle after its end. -/
theorem not_offsetsInside_shrink :
    let calls := writeOne ++ [.chstatByFd idle ⟨1, { stSize := 0 }, SCE_CST_SIZE⟩]
    Unopened newFile 1 4 ∧
      (∃ ls, VopRun (fun call _ s => fileCall 1 4 call s) newFile ls (lastState calls newFile)) ∧
      ¬ OffsetsInside (lastState calls newFile) 4 := by
  intro calls
  have hok : ∀ c ∈ calls, ∀ s, fileCall 1 4 c s := by
    simp [calls, writeOne, fileCall]
  refine ⟨unopened_newFile, lastState_run (fun c hc _ s => hok c hc s) (by decide +kernel), ?_⟩
  rintro ⟨f, hf, hin⟩
  have hv : (lastState calls newFile).view (fun f => (f.stat.stSize, f.pDmassFsX.map (·.handlerIndex))) 4 =
      some (0, [1]) := by decide +kernel
  have ho : ((lastState calls newFile).files 1).offset = 1 := by decide +kernel
  obtain ⟨f', hf', hx⟩ := view_eq_some.1 hv
  obtain rfl := Option.some.inj (hf.symm.trans hf')
  obtain ⟨h0, hkeys⟩ := Prod.mk.inj hx
  have hopen : isOpen f 1 := by
    have : (1 : Int32) ∈ f.pDmassFsX.map (·.handlerIndex) := by rw [hkeys]; simp
    obtain ⟨x, hx, hk⟩ := List.mem_map.1 this
    exact ⟨x, hx, hk⟩
  have := (hin 1 hopen).2
  rw [ho, h0] at this
  omega

end VitaUtility.Dmass

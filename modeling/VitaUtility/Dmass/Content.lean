import VitaUtility.Lib.PathFs
import VitaUtility.Dmass.ByteFile
import VitaUtility.Dmass.Rename

/-!
# What an entry holds

A regular file holds an array of bytes whatever vnodes it has, and a directory without handles holds nothing but its
children. A call on one file keeps what every other entry holds.
-/

namespace VitaUtility.Dmass
open VfsState

variable {s s' : VfsState} {k : Answers} {r : Int} {b e : Addr} {v w : NodePtr} {f f' : FapsDmassFs} {g h : FilePtr}
  {F : ArrayFile FilePtr UInt8} {x : PathNode FilePtr UInt8} {call : VopCall} {op : FileOp FilePtr UInt8}

/-- The regular file `e` with the content `f` holds `F`; each of its vnodes has its size. -/
structure FileHolds (s : VfsState) (e : Addr) (f : FapsDmassFs) (F : ArrayFile FilePtr UInt8) : Prop where
  reg : isReg f.stat.stMode
  size : f.stat.stSize = F.data.length
  nodeSize : ∀ v n, s.vnodes.lookup v = some n → n.devInfo = some e → n.stSize = F.data.length
  cap : Capacious (dataView f)
  data : (bytesOf f.data).take F.data.length = F.data
  opens : ∀ h, f.pDmassFsX.countP (fun x => x.handlerIndex = h.toInt32) = F.opens h
  refer : f.refer = UInt32.ofNat f.pDmassFsX.length
  files : ∀ h, 0 < F.opens h → s.devInfo (s.files h).node = some e ∧ (s.files h).offset = F.offset h
  inside : F.Inside

/-- `x` is what the live entry `e` is to those who use it. -/
def EntryHolds (s : VfsState) (e : Addr) (x : PathNode FilePtr UInt8) : Prop :=
  ∃ f, s.entries.lookup e = some f ∧
    match x with
    | .dir => isDir f.stat.stMode ∧ f.pDmassFsX = [] ∧ f.refer = 0
    | .file F => FileHolds s e f F

theorem entryHolds_dir (hx : EntryHolds s e .dir) :
    ∃ f, s.entries.lookup e = some f ∧ isDir f.stat.stMode ∧ f.pDmassFsX = [] ∧ f.refer = 0 := hx

theorem entryHolds_file (hx : EntryHolds s e (.file F)) :
    ∃ f, s.entries.lookup e = some f ∧ FileHolds s e f F := hx

theorem EntryHolds.live (hx : EntryHolds s e x) : ∃ f, s.entries.lookup e = some f := by
  obtain ⟨f, hf, -⟩ := hx
  exact ⟨f, hf⟩

theorem EntryHolds.isDir_iff (hx : EntryHolds s e x) (hf : s.entries.lookup e = some f) :
    isDir f.stat.stMode ↔ x = .dir := by
  obtain ⟨f', hf', hx⟩ := hx
  obtain rfl := Option.some.inj (hf.symm.trans hf')
  cases x with
  | dir => exact iff_of_true hx.1 rfl
  | file F =>
    refine iff_of_false (fun hdir => ?_) nofun
    exact absurd (hx.reg.symm.trans hdir) (by decide)

theorem EntryHolds.isReg_iff (hx : EntryHolds s e x) (hf : s.entries.lookup e = some f) :
    isReg f.stat.stMode ↔ ∃ F, x = .file F := by
  obtain ⟨f', hf', hx⟩ := hx
  obtain rfl := Option.some.inj (hf.symm.trans hf')
  cases x with
  | dir =>
    refine iff_of_false (fun hreg => ?_) nofun
    exact absurd (hreg.symm.trans hx.1) (by decide)
  | file F => exact iff_of_true hx.reg ⟨F, rfl⟩

/-- Handles of no object: the list is empty. -/
theorem FileHolds.closed (hF : FileHolds s e f F) (h0 : ∀ h, F.opens h = 0) : f.pDmassFsX = [] ∧ f.refer = 0 := by
  have hnil : f.pDmassFsX = [] := by
    rw [List.eq_nil_iff_forall_not_mem]
    intro x hx
    have hcount := hF.opens x.handlerIndex.toUInt32
    rw [h0, List.countP_eq_zero] at hcount
    exact hcount x hx (by simp)
  refine ⟨hnil, ?_⟩
  rw [hF.refer, hnil]
  rfl

/-! ### What keeps it -/

theorem stat_of_contentView (hc : s'.view contentView e = s.view contentView e) (hf : s.entries.lookup e = some f) :
    ∃ f', s'.entries.lookup e = some f' ∧ contentView f' = contentView f := by
  unfold view at hc
  rw [hf] at hc
  exact Option.map_eq_some_iff.1 hc

/-- The content of the entry is the same, each vnode of it has the size of one before or of the entry, and the
handles that are open on it are untouched. -/
theorem EntryHolds.frame (hx : EntryHolds s e x) (hc : s'.view contentView e = s.view contentView e)
    (hsize : ∀ v n, s'.vnodes.lookup v = some n → n.devInfo = some e →
      (∃ u m, s.vnodes.lookup u = some m ∧ m.devInfo = some e ∧ n.stSize = m.stSize) ∨
        ∀ f, s.entries.lookup e = some f → n.stSize = f.stat.stSize)
    (hfiles : ∀ F h, x = .file F → 0 < F.opens h → s.devInfo (s.files h).node = some e →
      s'.files h = s.files h ∧ s'.devInfo (s.files h).node = some e) : EntryHolds s' e x := by
  obtain ⟨f, hf, hx⟩ := hx
  obtain ⟨f', hf', hcontent⟩ := stat_of_contentView hc hf
  simp only [contentView, Prod.mk.injEq] at hcontent
  obtain ⟨hstat, hdata, hhandles, hrefer⟩ := hcontent
  refine ⟨f', hf', ?_⟩
  cases x with
  | dir =>
    dsimp only at hx ⊢
    rw [hstat, hhandles, hrefer]
    exact hx
  | file F =>
    dsimp only at hx ⊢
    have hview : dataView f' = dataView f := by
      unfold dataView
      rw [hstat, hdata]
    refine ⟨?_, ?_, fun v n hn he => ?_, ?_, ?_, ?_, ?_, fun h hopen => ?_, hx.inside⟩
    · rw [hstat]
      exact hx.reg
    · rw [hstat]
      exact hx.size
    · rcases hsize v n hn he with ⟨u, m, hm, hme, heq⟩ | heq
      · rw [heq]
        exact hx.nodeSize u m hm hme
      · rw [heq f hf]
        exact hx.size
    · rw [hview]
      exact hx.cap
    · rw [hdata]
      exact hx.data
    · rw [hhandles]
      exact hx.opens
    · rw [hrefer, hhandles]
      exact hx.refer
    · obtain ⟨hnode, hoff⟩ := hx.files h hopen
      obtain ⟨hfile, hdev⟩ := hfiles F h rfl hopen hnode
      rw [hfile]
      exact ⟨hdev, hoff⟩

/-! ### Calls on one file -/

/-- Between `s` and `s'` only the entry `e`, the size of its vnode `v` and the file object `h` have changed, and of
the entry neither the links nor the name nor the kind. -/
structure OnlyEntry (s s' : VfsState) (v : NodePtr) (e : Addr) (f f' : FapsDmassFs) (h : FilePtr) : Prop where
  entries : s'.entries = s.entries.insert e f'
  links : linkView f' = linkView f
  labels : labelView f' = labelView f
  pNode : f'.pNode = f.pNode
  refer : f.refer = UInt32.ofNat f.pDmassFsX.length → f'.refer = UInt32.ofNat f'.pDmassFsX.length
  nodes : s'.vnodes = s.vnodes ∨ ∃ size, s'.vnodes = modifyAt s.vnodes v fun n => { n with stSize := size }
  files : ∀ g, g ≠ h → s'.files g = s.files g
  pTree : s'.pTree = s.pTree

namespace OnlyEntry

/-- The entry is as it was. -/
theorem of_same (hf : s.entries.lookup e = some f) (hent : s'.entries = s.entries) (hv : s'.vnodes = s.vnodes)
    (hfiles : ∀ g, g ≠ h → s'.files g = s.files g) (hp : s'.pTree = s.pTree) : OnlyEntry s s' v e f f h :=
  ⟨hent.trans (insert_lookup_self hf).symm, rfl, rfl, rfl, id, .inl hv, hfiles, hp⟩

theorem devInfo (hO : OnlyEntry s s' v e f f' h) (w : NodePtr) : s'.devInfo w = s.devInfo w := by
  unfold VfsState.devInfo
  rcases hO.nodes with hnodes | ⟨size, hnodes⟩ <;> rw [hnodes]
  rw [lookup_modifyAt]
  split
  · subst w
    cases s.vnodes.lookup v <;> rfl
  · rfl

theorem node (hO : OnlyEntry s s' v e f f' h) {n : SceVfsNode} (hn : s'.vnodes.lookup w = some n) :
    ∃ m, s.vnodes.lookup w = some m ∧ n.devInfo = m.devInfo ∧ n.mount = m.mount ∧ (w ≠ v → n = m) := by
  rcases hO.nodes with hnodes | ⟨size, hnodes⟩ <;> rw [hnodes] at hn
  · exact ⟨n, hn, rfl, rfl, fun _ => rfl⟩
  · rw [lookup_modifyAt] at hn
    split at hn
    · subst w
      obtain ⟨m, hm, rfl⟩ := Option.map_eq_some_iff.1 hn
      exact ⟨m, hm, rfl, rfl, fun hne => absurd rfl hne⟩
    · exact ⟨n, hn, rfl, rfl, fun _ => rfl⟩

theorem view {β : Type} {π : FapsDmassFs → β} (hO : OnlyEntry s s' v e f f' h) (hf : s.entries.lookup e = some f)
    (hπ : π f' = π f) (b : Addr) : s'.view π b = s.view π b :=
  view_insert_same hf hO.entries hπ

/-- What the other entries hold. -/
theorem frame (hO : OnlyEntry s s' v e f f' h) (hv : s.devInfo v = some e) (hb : b ≠ e) (hx : EntryHolds s b x)
    (hh : ∀ F, x = .file F → F.opens h = 0) : EntryHolds s' b x := by
  refine hx.frame ?_ (fun w n hn hnb => ?_) fun F g hF hg hu => ⟨hO.files g ?_, ?_⟩
  · unfold VfsState.view
    rw [hO.entries, lookup_insert_ite, if_neg hb]
  · obtain ⟨m, hm, hdev, -, hsame⟩ := hO.node hn
    rw [hdev] at hnb
    have hwv : w ≠ v := by
      rintro rfl
      exact hb (Option.some.inj ((devInfo_eq_some.2 ⟨m, hm, hnb⟩).symm.trans hv))
    rw [hsame hwv]
    exact .inl ⟨w, m, hm, hnb, rfl⟩
  · rintro rfl
    exact hg.ne' (hh F hF)
  · rw [hO.devInfo]
    exact hu

end OnlyEntry

/-- The handle that an operation is on. -/
def handleOf : FileOp FilePtr UInt8 → FilePtr
  | .open h _ | .close h | .read h _ | .write h _ | .pread h _ _ | .pwrite h _ _ | .seek h _ _ => h

theorem onlyEntry_step (hv : s.entryOf v e f) (hc : arrayCall v F call) (hop : fileOp call = some op)
    (hs : VopStep s call r s') : ∃ f', OnlyEntry s s' v e f f' (handleOf op) := by
  obtain ⟨⟨n₀, hn₀, he₀⟩, hf₀⟩ := hv
  have hsame : ∀ h, s' = s → ∃ f', OnlyEntry s s' v e f f' h := by
    rintro h rfl
    exact ⟨f, .of_same hf₀ rfl rfl (fun _ _ => rfl) rfl⟩
  have hset : ∀ h o, s' = s.setOffset h o → ∃ f', OnlyEntry s s' v e f f' h := by
    rintro h o rfl
    exact ⟨f, .of_same hf₀ rfl rfl (fun g hg => setOffset_of_ne s hg o) rfl⟩
  -- the entry that the call has met is `e`
  have hmet : ∀ {n e' f'}, s.vnodes.lookup v = some n → n.devInfo = some e' → s.entries.lookup e' = some f' →
      e' = e ∧ f' = f := by
    intro n e' f' hn he hf
    obtain rfl := Option.some.inj (hn.symm.trans hn₀)
    obtain rfl := Option.some.inj (he.symm.trans he₀)
    exact ⟨rfl, Option.some.inj (hf.symm.trans hf₀)⟩
  unfold VopStep at hs
  cases call with
  | «open» k argp object =>
    obtain ⟨rfl, -⟩ := hc
    obtain rfl := Option.some.inj hop
    rcases vopOpen_ok hs with ⟨-, rfl⟩ | ⟨-, n, e', f₁, a, hn, he, hf, -, o, -, rfl⟩
    · exact ⟨f, .of_same hf₀ rfl rfl (fun g hg => Function.update_of_ne hg ..) rfl⟩
    obtain ⟨rfl, rfl⟩ := hmet hn he hf
    refine ⟨_, rfl, rfl, rfl, rfl, fun hrefer => ?_, .inl rfl, fun g hg => ?_, rfl⟩
    · rw [hrefer, List.length_cons, UInt32.ofNat_add]
      rfl
    · exact (Function.update_of_ne hg ..).trans (Function.update_of_ne hg ..)
  | close argp =>
    obtain ⟨rfl, -⟩ := hc
    obtain rfl := Option.some.inj hop
    rcases vopClose_ok hs with ⟨-, rfl⟩ | ⟨-, n, e', hn, he, f₁, l₁, y, l₂, hf, hl, -, -, rfl⟩
    · exact hsame _ rfl
    obtain ⟨rfl, rfl⟩ := hmet hn he hf
    refine ⟨_, modifyAt_eq hf _, rfl, rfl, rfl, fun hrefer => ?_, .inl rfl, fun g _ => rfl, rfl⟩
    dsimp only
    rw [hrefer, hl]
    simp only [List.length_append, List.length_cons]
    rw [show l₁.length + (l₂.length + 1) = l₁.length + l₂.length + 1 by omega, UInt32.ofNat_add]
    exact UInt32.add_sub_cancel _ _
  | read argp =>
    obtain ⟨rfl, -⟩ := hc
    obtain rfl := Option.some.inj hop
    obtain ⟨out, hs⟩ := dropOut_eq_ok.1 hs
    rcases vopRead_ok hs with rfl | ⟨n, e', f₁, m, -, -, -, -, -, rfl⟩
    · exact hsame _ rfl
    · exact hset _ _ rfl
  | write k argp =>
    obtain ⟨rfl, -⟩ := hc
    obtain rfl := Option.some.inj hop
    rcases vopWrite_ok hs with ⟨-, rfl⟩ | ⟨n, e', f₁, data, bufs, hn, he, hf, -, -, -, rfl⟩
    · exact hsame _ rfl
    obtain ⟨rfl, rfl⟩ := hmet hn he hf
    refine ⟨_, rfl, rfl, rfl, rfl, id, ?_, fun g hg => setOffset_of_ne s hg _, rfl⟩
    dsimp only
    split
    · exact .inr ⟨_, rfl⟩
    · exact .inl rfl
  | pread argp =>
    obtain rfl := VopStep.pread_eq hs
    obtain rfl := Option.some.inj hop
    exact hsame _ rfl
  | pwrite k argp =>
    obtain ⟨rfl, -⟩ := hc
    obtain rfl := Option.some.inj hop
    rcases vopPwrite_ok hs with ⟨-, rfl⟩ | ⟨n, e', f₁, data, bufs, hn, he, hf, -, -, -, rfl⟩
    · exact hsame _ rfl
    obtain ⟨rfl, rfl⟩ := hmet hn he hf
    refine ⟨_, rfl, rfl, rfl, rfl, id, ?_, fun g _ => rfl, rfl⟩
    dsimp only
    split
    · exact .inr ⟨_, rfl⟩
    · exact .inl rfl
  | lseek argp =>
    obtain ⟨rfl, -⟩ := hc
    obtain rfl := Option.some.inj hop
    rcases vopLseek_ok hs with ⟨-, rfl⟩ | ⟨-, n, -, -, rfl⟩
    · exact hsame _ rfl
    · exact hset _ _ rfl
  | _ => exact hc.elim

/-- With one vnode a file holds the array in the sense of the data calls. -/
theorem FileHolds.holds (hF : FileHolds s e f F) (hf : s.entries.lookup e = some f) (hv : s.devInfo v = some e)
    (hsole : ∀ w, s.devInfo w = some e → w = v) : Holds s v e f F := by
  obtain ⟨n, hn, he⟩ := devInfo_eq_some.1 hv
  refine ⟨⟨⟨n, hn, he⟩, hf⟩, hF.size, fun m hm => ?_, hF.cap, hF.data, hF.opens, fun h hopen => ?_, hF.inside⟩
  · obtain rfl := Option.some.inj (hn.symm.trans hm)
    exact hF.nodeSize v n hn he
  · obtain ⟨hnode, hoff⟩ := hF.files h hopen
    exact ⟨hsole _ hnode, hoff⟩

theorem Holds.fileHolds (hH : Holds s v e f F) (hreg : isReg f.stat.stMode)
    (hrefer : f.refer = UInt32.ofNat f.pDmassFsX.length) (hsole : ∀ w, s.devInfo w = some e → w = v) :
    FileHolds s e f F := by
  have hv : s.devInfo v = some e := devInfo_eq_some.2 hH.node.1
  refine ⟨hreg, hH.size, fun w n hn he => ?_, hH.cap, hH.data, hH.opens, hrefer, fun h hopen => ?_, hH.inside⟩
  · obtain rfl := hsole w (devInfo_eq_some.2 ⟨n, hn, he⟩)
    exact hH.nodeSize n hn
  · obtain ⟨hnode, hoff⟩ := hH.files h hopen
    rw [hnode]
    exact ⟨hv, hoff⟩

/-- A data call through the one vnode of a file answers what the array answers, and changes nothing else. -/
theorem fileHolds_step (hF : FileHolds s e f F) (hf : s.entries.lookup e = some f) (hv : s.devInfo v = some e)
    (hsole : ∀ w, s.devInfo w = some e → w = v) (hc : arrayCall v F call) :
    ∃ op r out s' f', fileOp call = some op ∧ call.execOut s = .ok (r, out, s') ∧ reply (r, out) = (F.exec op).1 ∧
      EntryHolds s' e (.file (F.exec op).2) ∧ OnlyEntry s s' v e f f' (handleOf op) := by
  have hH := hF.holds hf hv hsole
  obtain ⟨op, hop, r, out, s', hrun, hreply, f₁, hH'⟩ := holds_step hH hc
  have hs : VopStep s call r s' := by
    unfold VopStep
    rw [← dropOut_execOut call, hrun]
    rfl
  obtain ⟨f', hO⟩ := onlyEntry_step hH.node hc hop hs
  have hf' : s'.entries.lookup e = some f' := by
    rw [hO.entries]
    exact Finmap.lookup_insert _
  obtain rfl := Option.some.inj (hf'.symm.trans hH'.node.2)
  refine ⟨op, r, out, s', f', hop, hrun, hreply, ⟨f', hf', hH'.fileHolds ?_ (hO.refer hF.refer) fun w hw => ?_⟩, hO⟩
  · have hmode : f'.stat.stMode = f.stat.stMode := (Prod.mk.inj hO.labels).2
    unfold isReg
    rw [hmode]
    exact hF.reg
  · rw [hO.devInfo] at hw
    exact hsole w hw

end VitaUtility.Dmass

import VitaUtility.Dmass.DataSpec

/-!
# Vnodes and their entries

A vnode points at its entry (`dev_info`), an entry at one vnode (`pNode`), and the size of a file is
kept in both. Every lookup makes one more vnode of an entry, and `vop_inactive` clears the back pointer
of whatever entry it finds; so the back pointer is only sure to be there while no entry with several
vnodes loses one, and the sizes only agree while no size changes through one vnode of several.
-/

namespace VitaUtility.Dmass
open VfsState

variable {s s' : VfsState} {k : Answers} {r : Int} {e : Addr} {v w : NodePtr}

namespace VfsState

/-- `e->pNode` -/
def pNodeOf (s : VfsState) (e : Addr) : Option NodePtr := (s.entries.lookup e).bind (·.pNode)

end VfsState

theorem pNodeOf_eq_some : s.pNodeOf e = some v ↔ ∃ f, s.entries.lookup e = some f ∧ f.pNode = some v :=
  Option.bind_eq_some_iff

theorem devInfo_eq_none_of_unused (hw : w ∉ s.nodesInUse) : s.devInfo w = none := by
  cases h : s.devInfo w with
  | none => rfl
  | some e =>
    obtain ⟨n, hn, he⟩ := devInfo_eq_some.1 h
    exact absurd (mem_nodesInUse.2 ⟨n, e, hn, he⟩) hw

/-- A vnode that was freed because the kernel call failed had no entry. -/
theorem NodesKept.devInfo {vnodes : Store SceVfsNode} (h : NodesKept s vnodes) (hs' : s'.vnodes = vnodes) :
    s'.devInfo v = s.devInfo v := by
  rcases h with rfl | ⟨w, hw, rfl⟩
  · unfold VfsState.devInfo
    rw [hs']
  · by_cases hv : v = w
    · rw [hv, devInfo_eq_none_of_unused hw]
      unfold VfsState.devInfo
      rw [hs', lookup_erase_ite, if_pos rfl]
      rfl
    · unfold VfsState.devInfo
      rw [hs', lookup_erase_ite, if_neg hv]

theorem devInfo_insert {n : SceVfsNode} (hs' : s'.vnodes = s.vnodes.insert w n) (hn : n.devInfo = some e) :
    s'.devInfo v = if v = w then some e else s.devInfo v := by
  unfold VfsState.devInfo
  rw [hs', lookup_insert_ite]
  split
  · exact hn
  · rfl

theorem pNodeOf_of_view (h : s'.view (·.pNode) e = s.view (·.pNode) e) : s'.pNodeOf e = s.pNodeOf e := by
  have hj : ∀ t : VfsState, t.pNodeOf e = (t.view (·.pNode) e).join := by
    intro t
    unfold pNodeOf view
    cases t.entries.lookup e <;> rfl
  rw [hj, hj, h]

theorem pNodeOf_modEntry {g : FapsDmassFs → FapsDmassFs} {f : FapsDmassFs} (hf : s.entries.lookup e = some f)
    (hg : ∀ f, (g f).pNode = some w) (b : Addr) :
    (s.modEntry e g).pNodeOf b = if b = e then some w else s.pNodeOf b := by
  unfold pNodeOf
  rw [lookup_modEntry]
  split
  · rw [hf]; exact hg f
  · rfl

/-! ### Back pointers -/

/-- The vnode `w`, of no entry before, has become the vnode of `e`. -/
structure Attached (s s' : VfsState) (e : Addr) (w : NodePtr) : Prop where
  unused : s.devInfo w = none
  devInfo : ∀ v, s'.devInfo v = if v = w then some e else s.devInfo v
  pNode : ∀ b, s'.pNodeOf b = if b = e then some w else s.pNodeOf b

/-- The back pointers of both `s` and `s'` are those of `s`. -/
structure SameLinks (s s' : VfsState) : Prop where
  devInfo : ∀ v, s'.devInfo v = s.devInfo v
  pNode : ∀ b, s'.pNodeOf b = s.pNodeOf b

theorem SameLinks.refl : SameLinks s s := ⟨fun _ => rfl, fun _ => rfl⟩

/-- What namespace calls that make vnodes do to the back pointers. -/
def LinksStep (s s' : VfsState) : Prop := SameLinks s s' ∨ ∃ e w, Attached s s' e w

theorem linksStep_makeEntry {mode unk78 stAttr : UInt32} {fileInfo : SceVfsPath} {out : Option NodePtr}
    (h : makeEntry (createDmassInfo mode) unk78 stAttr k v fileInfo s = .ok (r, out, s')) : LinksStep s s' := by
  rcases makeEntry_ok h with ⟨-, rfl⟩ | ⟨e, leak, name, bufs, n, d, fd, hB, -, -, -, -, h⟩
  · exact .inl .refl
  have hnew : s.pNodeOf e = none := by
    have he : s.entries.lookup e = none :=
      Finmap.lookup_eq_none.2 fun h => hB.fresh (mem_live.2 (.inl h))
    unfold pNodeOf
    rw [he]
    rfl
  -- the entry and its links, before a vnode is made
  set s₁ : VfsState := { s with entries := s.entries.insert e (newDmassFs mode k name), bufs := bufs } with hs₁
  have hp₁ : ∀ b, (s₁.pushEntry d e).pNodeOf b = s.pNodeOf b := by
    intro b
    have : (s₁.pushEntry d e).pNodeOf b = s₁.pNodeOf b :=
      pNodeOf_of_view (view_pushEntry (by intros; rfl) (by intros; rfl))
    rw [this]
    by_cases hb : b = e
    · rw [hb, hnew]
      unfold pNodeOf
      rw [hs₁, lookup_insert_ite, if_pos rfl]
      rfl
    · unfold pNodeOf
      rw [hs₁, lookup_insert_ite, if_neg hb]
  rcases h with ⟨-, vnodes, hk, rfl⟩ | ⟨-, w, hw, -, rfl⟩
  · exact .inl ⟨fun v => hk.devInfo rfl, hp₁⟩
  · refine .inr ⟨e, w, devInfo_eq_none_of_unused hw, fun v => devInfo_insert rfl rfl, fun b => ?_⟩
    rw [← hp₁ b]
    obtain ⟨f₁, hf₁⟩ := lookup_of_keys (pushEntry_keys s₁) (Finmap.lookup_insert _)
    exact pNodeOf_modEntry hf₁ (fun _ => rfl) b

theorem linksStep_lookup {argp : SceVfsPartInit} {out : Option NodePtr}
    (h : vopPartInit k argp s = .ok (r, out, s')) : LinksStep s s' := by
  rcases vopPartInit_ok h with ⟨-, vnodes, hk, rfl⟩ | ⟨-, n, e, f, w, -, -, hf, hw, -, rfl⟩
  · exact .inl ⟨fun v => hk.devInfo rfl, fun b => rfl⟩
  · exact .inr ⟨e, w, devInfo_eq_none_of_unused hw, fun v => devInfo_insert rfl rfl,
      pNodeOf_modEntry hf fun _ => rfl⟩

theorem linksStep_rename {argp : SceVopRenameArgs} {out : Option NodePtr}
    (h : vopRename k argp s = .ok (r, out, s')) : LinksStep s s' := by
  rcases vopRename_ok h with ⟨-, vnodes, hk, rfl⟩ | ⟨-, -, n, d, fd, e, f, pred, x, w, n3, d3, fd3, v, old, name, h⟩
  · exact .inl ⟨fun v => hk.devInfo rfl, fun b => rfl⟩
  obtain ⟨-, -, -, -, hf, -, hw, -, -, -, -, -, -, -, rfl⟩ := h
  refine .inr ⟨e, w, devInfo_eq_none_of_unused hw, fun v => devInfo_insert rfl rfl, fun b => ?_⟩
  set s₁ := (s.setLink d pred f.next).pushEntry d3 e with hs₁
  have hp₁ : ∀ b, s₁.pNodeOf b = s.pNodeOf b := by
    intro b
    refine pNodeOf_of_view ?_
    exact (view_pushEntry (by intros; rfl) (by intros; rfl)).trans
      (view_setLink (by intros; rfl) (by intros; rfl))
  obtain ⟨f₁, hf₁⟩ := lookup_of_keys ((pushEntry_keys _).trans (setLink_keys s)) hf
  rw [← hp₁ b]
  exact pNodeOf_modEntry hf₁ (fun _ => rfl) b

/-- An entry's back pointer is one of its vnodes, and is there when it has a vnode. -/
structure BackPtr (s : VfsState) : Prop where
  forth : ∀ e w, s.pNodeOf e = some w → s.devInfo w = some e
  back : ∀ v e, s.devInfo v = some e → ∃ w, s.pNodeOf e = some w

theorem BackPtr.of_same (h : BackPtr s) (hl : SameLinks s s') : BackPtr s' := by
  refine ⟨fun e w hw => ?_, fun v e hv => ?_⟩
  · rw [hl.pNode] at hw
    rw [hl.devInfo]
    exact h.forth e w hw
  · rw [hl.devInfo] at hv
    obtain ⟨w, hw⟩ := h.back v e hv
    exact ⟨w, (hl.pNode e).trans hw⟩

theorem BackPtr.attach (h : BackPtr s) (ha : Attached s s' e w) : BackPtr s' := by
  refine ⟨fun b u hu => ?_, fun v b hv => ?_⟩
  · rw [ha.pNode] at hu
    rw [ha.devInfo]
    split at hu
    · subst b
      obtain rfl := Option.some.inj hu
      rw [if_pos rfl]
    · have hb := h.forth b u hu
      -- `w` had no entry, so it is not the vnode of `b`
      have huw : u ≠ w := by
        intro huw
        rw [huw, ha.unused] at hb
        cases hb
      rw [if_neg huw]
      exact hb
  · rw [ha.devInfo] at hv
    rw [ha.pNode]
    by_cases hb : b = e
    · exact ⟨w, if_pos hb⟩
    · rw [if_neg hb]
      split at hv
      · exact absurd (Option.some.inj hv).symm hb
      · exact h.back v b hv

theorem BackPtr.step (h : BackPtr s) (hl : LinksStep s s') : BackPtr s' := by
  rcases hl with hl | ⟨e, w, ha⟩
  · exact h.of_same hl
  · exact h.attach ha

/-- The vnode is the only one of its entry. -/
def lastVnode (argp : SceVopInactiveArgs) (s : VfsState) : Prop :=
  ∀ v e, argp.node = some v → s.devInfo v = some e → ∀ w, s.devInfo w = some e → w = v

theorem BackPtr.inactive {argp : SceVopInactiveArgs} (h : BackPtr s) (hv : lastVnode argp s)
    (hs : vopInactive argp s = .ok (r, s')) : BackPtr s' := by
  rcases vopInactive_ok hs with ⟨-, rfl⟩ | ⟨-, v, n, hnode, hn, hcase⟩
  · exact h
  have hdev : s'.vnodes = modifyAt s.vnodes v (fun n => { n with devInfo := none }) → ∀ w,
      s'.devInfo w = if w = v then none else s.devInfo w := by
    intro hs' w
    unfold VfsState.devInfo
    rw [hs', lookup_modifyAt]
    split
    · rw [hn]; rfl
    · rfl
  rcases hcase with ⟨hnone, rfl⟩ | ⟨e, f, he, hf, rfl⟩
  · refine h.of_same ⟨fun w => ?_, fun b => rfl⟩
    rw [hdev rfl]
    split
    · subst w
      unfold VfsState.devInfo
      rw [hn]
      exact hnone.symm
    · rfl
  have hve : s.devInfo v = some e := devInfo_eq_some.2 ⟨n, hn, he⟩
  have hp : ∀ b, VfsState.pNodeOf ((s.modEntry e fun f => { f with pNode := none }).modNode v
      fun n => { n with devInfo := none }) b = if b = e then none else s.pNodeOf b := by
    intro b
    unfold pNodeOf
    rw [modNode_entries, lookup_modEntry]
    split
    · rw [hf]; rfl
    · rfl
  refine ⟨fun b w hw => ?_, fun w b hw => ?_⟩
  · rw [hp] at hw
    split at hw
    · cases hw
    · rename_i hbe
      have hb := h.forth b w hw
      have hwv : w ≠ v := by
        intro hwv
        rw [hwv, hve] at hb
        exact hbe (Option.some.inj hb).symm
      rw [hdev rfl, if_neg hwv]
      exact hb
  · rw [hdev rfl] at hw
    split at hw
    · cases hw
    · rename_i hwv
      have hbe : b ≠ e := by
        intro hbe
        exact hwv (hv v e hnode hve w (hbe ▸ hw))
      rw [hp, if_neg hbe]
      exact h.back w b hw

theorem backPtr_freshMount (h : FreshMount s) : BackPtr s := by
  obtain ⟨k, v, m, s₀, e, leak, name, bufs, n, hU, -, -, hent, -, -, hnodes⟩ := freshMount_ok h
  have hdev : ∀ w, s.devInfo w = if w = v then some e else none := by
    intro w
    have h₀ : s₀.devInfo w = none := by
      cases hw : s₀.devInfo w with
      | none => rfl
      | some b =>
        obtain ⟨n', hn', hb⟩ := devInfo_eq_some.1 hw
        rw [hU.vnodes w n' hn'] at hb
        cases hb
    rw [← h₀]
    exact devInfo_insert hnodes rfl
  have hp : ∀ b, s.pNodeOf b = if b = e then some v else none := by
    intro b
    unfold pNodeOf
    rw [hent, lookup_insert_ite]
    split <;> rfl
  refine ⟨fun b w hw => ?_, fun w b hw => ?_⟩
  · rw [hp] at hw
    split at hw
    · obtain rfl := Option.some.inj hw
      rw [hdev, if_pos rfl, ‹b = e›]
    · cases hw
  · rw [hdev] at hw
    split at hw
    · exact ⟨v, by rw [hp, if_pos (Option.some.inj hw).symm]⟩
    · cases hw

/-- The calls that make and drop vnodes. -/
def vnodeCall : VopCall → Prop
  | .lookup .. | .create .. | .mkdir .. | .rename .. | .inactive .. => True
  | _ => False

/-- `vop_inactive` is only called on the one vnode of an entry. -/
def dropsLast (call : VopCall) (s : VfsState) : Prop :=
  match call with
  | .inactive argp => lastVnode argp s
  | _ => True

theorem backPtr_step {call : VopCall} (h : BackPtr s) (hc : vnodeCall call) (hlast : dropsLast call s)
    (hs : VopStep s call r s') : BackPtr s' := by
  unfold VopStep at hs
  cases call with
  | lookup k argp =>
    obtain ⟨out, hs⟩ := dropOut_eq_ok.1 hs
    exact h.step (linksStep_lookup hs)
  | create k argp =>
    obtain ⟨out, hs⟩ := dropOut_eq_ok.1 hs
    exact h.step (linksStep_makeEntry hs)
  | mkdir k argp =>
    obtain ⟨out, hs⟩ := dropOut_eq_ok.1 hs
    rcases vopMkdir_ok hs with ⟨-, rfl⟩ | ⟨n, d, f, -, -, -, -, hs⟩
    · exact h
    · exact h.step (linksStep_makeEntry hs)
  | rename k argp =>
    obtain ⟨out, hs⟩ := dropOut_eq_ok.1 hs
    exact h.step (linksStep_rename hs)
  | inactive argp => exact h.inactive hlast hs
  | _ => exact hc.elim

/-- Whenever an entry has a vnode, its back pointer is one of its vnodes. -/
theorem pNode_run {ls : List (VopCall × Int)} (hm : FreshMount s)
    (h : VopRun (fun call _ s => vnodeCall call ∧ dropsLast call s) s ls s') (he : s'.devInfo v = some e) :
    ∃ w, s'.pNodeOf e = some w ∧ s'.devInfo w = some e := by
  have hI : BackPtr s' :=
    h.invariant (fun _ _ _ _ hI hok => backPtr_step hI hok.1 hok.2) (backPtr_freshMount hm)
  obtain ⟨w, hw⟩ := hI.back v e he
  exact ⟨w, hw, hI.forth e w hw⟩

/-- Create a file and look it up, which makes a second vnode of it. -/
def twoVnodes : List VopCall := [.create idle ⟨0, inRoot chA⟩, .lookup idle ⟨0, inRoot chA⟩]

theorem pNode_run_twoVnodes : ∃ w, (lastState twoVnodes mounted).pNodeOf 4 = some w ∧
    (lastState twoVnodes mounted).devInfo w = some 4 := by
  have hok : ∀ c ∈ twoVnodes, ∀ s, vnodeCall c ∧ dropsLast c s := by
    simp [twoVnodes, vnodeCall, dropsLast]
  obtain ⟨ls, h⟩ := lastState_run (s := mounted) (fun c hc _ s => hok c hc s) (by decide +kernel)
  exact pNode_run (v := 1) freshMount_mounted h (by decide +kernel)

/-- Dropping the second vnode clears the back pointer, though the first is still of the entry. -/
theorem not_pNode_inactive :
    let t := lastState (twoVnodes ++ [.inactive ⟨some 2⟩]) mounted
    FreshMount mounted ∧ (∃ ls, VopRun (fun call _ _ => vnodeCall call) mounted ls t) ∧
      t.devInfo 1 = some 4 ∧ ¬ ∃ w, t.pNodeOf 4 = some w ∧ t.devInfo w = some 4 := by
  have hok : ∀ c ∈ twoVnodes ++ [.inactive ⟨some 2⟩], vnodeCall c := by
    simp [twoVnodes, vnodeCall]
  refine ⟨freshMount_mounted, lastState_run (fun c hc _ _ => hok c hc) (by decide +kernel), by decide +kernel, ?_⟩
  have hnone : (lastState (twoVnodes ++ [.inactive ⟨some 2⟩]) mounted).pNodeOf 4 = none := by decide +kernel
  rw [hnone]
  rintro ⟨w, hw, -⟩
  cases hw

/-! ### Sizes -/

/-- What this section reads of an entry. -/
def sizeView (f : FapsDmassFs) : UInt32 × Int := (f.stat.stMode, f.stat.stSize)

/-- A vnode of a regular file has the size of its entry. -/
def SizesAgree (s : VfsState) : Prop :=
  ∀ v n e x, s.vnodes.lookup v = some n → n.devInfo = some e → s.view sizeView e = some x → isReg x.1 →
    n.stSize = x.2

/-- Each vnode of `s'` is as it was in `s`, and its entry too, or has the size of its entry. -/
theorem SizesAgree.step (h : SizesAgree s) (hB : BackPtr s)
    (hstep : ∀ v n e x, s'.vnodes.lookup v = some n → n.devInfo = some e → s'.view sizeView e = some x →
      n.stSize = x.2 ∨ (s.vnodes.lookup v = some n ∧ (s.view sizeView e = some x ∨ s.view sizeView e = none))) :
    SizesAgree s' := by
  intro v n e x hn he hx hreg
  rcases hstep v n e x hn he hx with hsize | ⟨hn, hx | hnone⟩
  · exact hsize
  · exact h v n e x hn he hx hreg
  · -- an entry that a vnode points at is live
    obtain ⟨w, hw⟩ := hB.back v e (devInfo_eq_some.2 ⟨n, hn, he⟩)
    obtain ⟨f, hf, -⟩ := pNodeOf_eq_some.1 hw
    unfold view at hnone
    rw [hf] at hnone
    cases hnone

theorem sizesAgree_makeEntry {mode unk78 stAttr : UInt32} {fileInfo : SceVfsPath} {out : Option NodePtr}
    (hS : SizesAgree s) (hB : BackPtr s)
    (h : makeEntry (createDmassInfo mode) unk78 stAttr k v fileInfo s = .ok (r, out, s')) : SizesAgree s' := by
  rcases makeEntry_ok h with ⟨-, rfl⟩ | ⟨e, leak, name, bufs, n, d, fd, hB', -, -, -, -, h⟩
  · exact hS
  have hnew : s.view sizeView e = none := by
    have he : s.entries.lookup e = none :=
      Finmap.lookup_eq_none.2 fun h => hB'.fresh (mem_live.2 (.inl h))
    unfold view
    rw [he]
    rfl
  set s₁ : VfsState := { s with entries := s.entries.insert e (newDmassFs mode k name), bufs := bufs } with hs₁
  have hview : ∀ b, (s₁.pushEntry d e).view sizeView b = if b = e then some (mode, 0) else s.view sizeView b := by
    intro b
    rw [view_pushEntry (by intros; rfl) (by intros; rfl)]
    rw [view_insert (s := s) rfl]
    split
    · unfold newDmassFs initEntryDate sizeView
      cases k.rtc <;> rfl
    · rfl
  have hold : ∀ b x, (s₁.pushEntry d e).view sizeView b = some x →
      s.view sizeView b = some x ∨ s.view sizeView b = none := by
    intro b x hx
    rw [hview] at hx
    split at hx
    · exact .inr (‹b = e› ▸ hnew)
    · exact .inl hx
  rcases h with ⟨-, vnodes, hk, rfl⟩ | ⟨-, w, hw, -, rfl⟩
  · exact hS.step hB fun v n b x hn hb hx => .inr ⟨hk.sub hn, hold b x hx⟩
  · refine hS.step hB fun u m b x hm hb hx => ?_
    have hx : (s₁.pushEntry d e).view sizeView b = some x := by
      rw [← hx]
      exact (view_modEntry (by intro; rfl)).symm
    dsimp only at hm
    rw [lookup_insert_ite] at hm
    split at hm
    · obtain rfl := Option.some.inj hm
      obtain rfl := Option.some.inj hb
      rw [hview, if_pos rfl] at hx
      obtain rfl := Option.some.inj hx
      exact .inl rfl
    · exact .inr ⟨hm, hold b x hx⟩

theorem sizesAgree_lookup {argp : SceVfsPartInit} {out : Option NodePtr} (hS : SizesAgree s) (hB : BackPtr s)
    (h : vopPartInit k argp s = .ok (r, out, s')) : SizesAgree s' := by
  rcases vopPartInit_ok h with ⟨-, vnodes, hk, rfl⟩ | ⟨-, n, e, f, w, -, -, hf, hw, -, rfl⟩
  · exact hS.step hB fun v n b x hn hb hx => .inr ⟨hk.sub hn, .inl hx⟩
  · refine hS.step hB fun u m b x hm hb hx => ?_
    have hx : s.view sizeView b = some x := by
      rw [← hx]
      exact (view_modEntry (by intro; rfl)).symm
    dsimp only at hm
    rw [lookup_insert_ite] at hm
    split at hm
    · obtain rfl := Option.some.inj hm
      obtain rfl := Option.some.inj hb
      obtain ⟨f', hf', rfl⟩ := view_eq_some.1 hx
      obtain rfl := Option.some.inj (hf.symm.trans hf')
      exact .inl rfl
    · exact .inr ⟨hm, .inl hx⟩

/-- The new vnode takes its size from the one the back pointer gives, which is of the same entry. -/
theorem sizesAgree_rename {argp : SceVopRenameArgs} {out : Option NodePtr} (hS : SizesAgree s) (hB : BackPtr s)
    (h : vopRename k argp s = .ok (r, out, s')) : SizesAgree s' := by
  rcases vopRename_ok h with ⟨-, vnodes, hk, rfl⟩ | ⟨-, -, n, d, fd, e, f, pred, x, w, n3, d3, fd3, v, old, name, h⟩
  · exact hS.step hB fun v n b x hn hb hx => .inr ⟨hk.sub hn, .inl hx⟩
  obtain ⟨-, -, -, -, hf, -, hw, -, -, -, -, hv, hold, -, rfl⟩ := h
  set s₁ := (s.setLink d pred f.next).pushEntry d3 e with hs₁
  have hview : ∀ b, s₁.view sizeView b = s.view sizeView b := fun b =>
    (view_pushEntry (by intros; rfl) (by intros; rfl)).trans (view_setLink (by intros; rfl) (by intros; rfl))
  intro u m b y hm hb hy' hreg
  have hy : s.view sizeView b = some y := by
    rw [← hview, ← hy']
    exact (view_modEntry (by intro; rfl)).symm
  dsimp only at hm
  rw [lookup_insert_ite] at hm
  split at hm
  · obtain rfl := Option.some.inj hm
    obtain rfl := Option.some.inj hb
    have hve : s.devInfo v = some e := hB.forth e v (pNodeOf_eq_some.2 ⟨f, hf, hv⟩)
    obtain ⟨nv, hnv, hnve⟩ := devInfo_eq_some.1 hve
    have hvw : v ≠ w := by
      intro hvw
      rw [hvw, devInfo_eq_none_of_unused hw] at hve
      cases hve
    rw [lookup_insert_ite, if_neg hvw, hnv] at hold
    obtain rfl := Option.some.inj hold
    exact hS v nv e y hnv hnve hy hreg
  · exact hS u m b y hm hb hy hreg

/-- A call on the entry `e` through its vnode `v` gives both of them one size, or changes none. -/
theorem SizesAgree.resize {f f' : FapsDmassFs} (hS : SizesAgree s) (hv : s.devInfo v = some e)
    (hf : s.entries.lookup e = some f) (hent : s'.entries = s.entries.insert e f')
    (hreg : isReg f'.stat.stMode → isReg f.stat.stMode)
    (hsize : (s'.vnodes = s.vnodes ∧ f'.stat.stSize = f.stat.stSize) ∨
      (s'.vnodes = modifyAt s.vnodes v (fun n => { n with stSize := f'.stat.stSize }) ∧
        (f'.stat.stSize ≠ f.stat.stSize → ∀ w, s.devInfo w = some e → w = v))) : SizesAgree s' := by
  obtain ⟨nv, hnv, hnve⟩ := devInfo_eq_some.1 hv
  have hview : ∀ b x, s'.view sizeView b = some x → (b = e ∧ x = sizeView f') ∨
      (b ≠ e ∧ s.view sizeView b = some x) := by
    intro b x hx
    rw [view_insert hent] at hx
    split at hx
    · exact .inl ⟨‹b = e›, (Option.some.inj hx).symm⟩
    · exact .inr ⟨‹_›, hx⟩
  have hfe : s.view sizeView e = some (sizeView f) := view_eq_some.2 ⟨f, hf, rfl⟩
  intro w n b x hn hb hx hxr
  rcases hsize with ⟨hnodes, hsame⟩ | ⟨hnodes, honly⟩ <;> rw [hnodes] at hn
  · rcases hview b x hx with ⟨rfl, rfl⟩ | ⟨-, hx⟩
    · exact (hS w n b _ hn hb hfe (hreg hxr)).trans hsame.symm
    · exact hS w n b x hn hb hx hxr
  · rw [lookup_modifyAt] at hn
    split at hn
    · subst w
      rw [hnv] at hn
      obtain rfl := Option.some.inj hn
      obtain rfl := Option.some.inj (hnve.symm.trans hb)
      rcases hview e x hx with ⟨-, rfl⟩ | ⟨hne, -⟩
      · rfl
      · exact absurd rfl hne
    · rename_i hwv
      rcases hview b x hx with ⟨rfl, rfl⟩ | ⟨-, hx⟩
      · have hsame : f'.stat.stSize = f.stat.stSize := by
          by_contra hne
          exact hwv (honly hne w (devInfo_eq_some.2 ⟨n, hn, hb⟩))
        exact (hS w n b _ hn hb hfe (hreg hxr)).trans hsame.symm
      · exact hS w n b x hn hb hx hxr

/-- What the back pointers and the sizes are read from. -/
def nodeView (f : FapsDmassFs) : Option NodePtr × UInt32 × Int := (f.pNode, f.stat.stMode, f.stat.stSize)

/-- The invariant of the runs below. -/
structure NodesAgree (s : VfsState) : Prop where
  back : BackPtr s
  sizes : SizesAgree s

theorem NodesAgree.of_view (h : NodesAgree s) (hv : s'.vnodes = s.vnodes)
    (hπ : ∀ b, s'.view nodeView b = s.view nodeView b) : NodesAgree s' := by
  have hp : ∀ b, s'.view (·.pNode) b = s.view (·.pNode) b := by
    intro b
    have := congrArg (Option.map (·.1)) (hπ b)
    unfold view at this ⊢
    rwa [Option.map_map, Option.map_map] at this
  have hs : ∀ b, s'.view sizeView b = s.view sizeView b := by
    intro b
    have := congrArg (Option.map (·.2)) (hπ b)
    unfold view at this ⊢
    rwa [Option.map_map, Option.map_map] at this
  refine ⟨h.back.of_same ⟨fun v => ?_, fun b => pNodeOf_of_view (hp b)⟩, ?_⟩
  · unfold VfsState.devInfo
    rw [hv]
  · intro v n b x hn hb hx hreg
    rw [hv] at hn
    rw [hs] at hx
    exact h.sizes v n b x hn hb hx hreg

/-- The data calls keep `pNode` and `dev_info`. -/
theorem BackPtr.resize {f f' : FapsDmassFs} {size : Int} (h : BackPtr s) (hf : s.entries.lookup e = some f)
    (hent : s'.entries = s.entries.insert e f') (hp : f'.pNode = f.pNode)
    (hnodes : s'.vnodes = s.vnodes ∨ s'.vnodes = modifyAt s.vnodes v fun n => { n with stSize := size }) :
    BackPtr s' := by
  refine h.of_same ⟨fun w => ?_, fun b => ?_⟩
  · unfold VfsState.devInfo
    rcases hnodes with hnodes | hnodes <;> rw [hnodes]
    rw [lookup_modifyAt]
    split
    · subst w
      cases s.vnodes.lookup v <;> rfl
    · rfl
  · unfold pNodeOf
    rw [hent, lookup_insert_ite]
    split
    · subst b
      rw [hf]
      exact hp
    · rfl

theorem NodesAgree.resize {f f' : FapsDmassFs} (h : NodesAgree s) (hv : s.devInfo v = some e)
    (hf : s.entries.lookup e = some f) (hent : s'.entries = s.entries.insert e f') (hp : f'.pNode = f.pNode)
    (hreg : isReg f'.stat.stMode → isReg f.stat.stMode)
    (hsize : (s'.vnodes = s.vnodes ∧ f'.stat.stSize = f.stat.stSize) ∨
      (s'.vnodes = modifyAt s.vnodes v (fun n => { n with stSize := f'.stat.stSize }) ∧
        (f'.stat.stSize ≠ f.stat.stSize → ∀ w, s.devInfo w = some e → w = v))) : NodesAgree s' :=
  ⟨h.back.resize (v := v) hf hent hp (hsize.imp And.left And.left), h.sizes.resize hv hf hent hreg hsize⟩

/-- The calls that make vnodes of files or change sizes, and those on the handles they go through. -/
def sizeCall : VopCall → Prop
  | .create .. | .lookup .. | .write .. | .pwrite .. | .chstatByFd .. | .rename .. => True
  | .open .. | .close .. | .read .. | .pread .. | .lseek .. => True
  | _ => False

/-- A size only changes through a vnode that is the only one of its entry. -/
def soleVnode (call : VopCall) (s : VfsState) : Prop :=
  match call with
  | .write k argp => ∀ e f, s.entryOf argp.node e f → writeReached k s argp f →
      (s.files argp.pVfsFileObject).offset + argp.nbyte.toNat > f.stat.stSize →
      ∀ w, s.devInfo w = some e → w = argp.node
  | .pwrite k argp => ∀ e f, s.entryOf argp.node e f → pwriteReached k s argp f →
      argp.offset.toInt + argp.nbyte.toNat > f.stat.stSize → ∀ w, s.devInfo w = some e → w = argp.node
  | .chstatByFd k argp => ∀ e f, s.entryOf argp.pNode e f → SizeReached k s f argp.stat argp.bit →
      argp.stat.stSize ≠ f.stat.stSize → ∀ w, s.devInfo w = some e → w = argp.pNode
  | _ => True

theorem nodesAgree_step {call : VopCall} (h : NodesAgree s) (hc : sizeCall call) (hsole : soleVnode call s)
    (hs : VopStep s call r s') : NodesAgree s' := by
  unfold VopStep at hs
  cases call with
  | create k argp =>
    obtain ⟨out, hs⟩ := dropOut_eq_ok.1 hs
    exact ⟨h.back.step (linksStep_makeEntry hs), sizesAgree_makeEntry h.sizes h.back hs⟩
  | lookup k argp =>
    obtain ⟨out, hs⟩ := dropOut_eq_ok.1 hs
    exact ⟨h.back.step (linksStep_lookup hs), sizesAgree_lookup h.sizes h.back hs⟩
  | rename k argp =>
    obtain ⟨out, hs⟩ := dropOut_eq_ok.1 hs
    exact ⟨h.back.step (linksStep_rename hs), sizesAgree_rename h.sizes h.back hs⟩
  | write k argp =>
    rcases vopWrite_ok hs with ⟨-, rfl⟩ | ⟨n, e, f, data, bufs, hn, he, hf, hreach, -, -, rfl⟩
    · exact h
    refine h.resize (devInfo_eq_some.2 ⟨n, hn, he⟩) hf rfl rfl id ?_
    dsimp only [grownStat]
    split
    · rename_i hge
      refine .inr ⟨by rw [max_eq_right hge], fun hne => ?_⟩
      refine hsole e f ⟨⟨n, hn, he⟩, hf⟩ hreach (lt_of_le_of_ne hge fun heq => hne ?_)
      rw [← heq, max_self]
    · rename_i hlt
      exact .inl ⟨rfl, max_eq_left (not_le.1 hlt).le⟩
  | pwrite k argp =>
    rcases vopPwrite_ok hs with ⟨-, rfl⟩ | ⟨n, e, f, data, bufs, hn, he, hf, hreach, -, -, rfl⟩
    · exact h
    refine h.resize (devInfo_eq_some.2 ⟨n, hn, he⟩) hf rfl rfl id ?_
    dsimp only [grownStat]
    split
    · rename_i hgt
      refine .inr ⟨by rw [max_eq_right (le_of_lt hgt)], fun _ => ?_⟩
      exact hsole e f ⟨⟨n, hn, he⟩, hf⟩ hreach hgt
    · rename_i hle
      exact .inl ⟨rfl, max_eq_left (not_lt.1 hle)⟩
  | chstatByFd k argp =>
    rcases vopChstatByFd_ok hs with ⟨-, rfl⟩ | ⟨n, e, hn, he, hs⟩
    · exact h
    obtain ⟨f, mode, hf, hmode, ⟨times, hm, hsize, -, rfl⟩ | ⟨-, hreach, n', data, bufs, times, -, hm, hsize, -, rfl⟩⟩ :=
      chstatEntry_ok hs
    · refine h.resize (devInfo_eq_some.2 ⟨n, hn, he⟩) hf rfl rfl (fun hr => ?_) (.inl ⟨rfl, hsize⟩)
      rw [isReg, ← hmode, ← hm]
      exact hr
    · refine h.resize (devInfo_eq_some.2 ⟨n, hn, he⟩) hf rfl rfl (fun hr => ?_) (.inr ⟨by rw [hsize], fun hne => ?_⟩)
      · rw [isReg, ← hmode, ← hm]
        exact hr
      · exact hsole e f ⟨⟨n, hn, he⟩, hf⟩ hreach (hsize ▸ hne)
  | «open» k argp object =>
    rcases vopOpen_ok hs with ⟨-, rfl⟩ | ⟨-, n, e, f, a, -, -, hf, -, o, -, rfl⟩
    · exact h.of_view rfl fun b => rfl
    · exact h.of_view rfl fun b => view_insert_same hf rfl rfl
  | close argp =>
    rcases vopClose_ok hs with ⟨-, rfl⟩ | ⟨-, n, e, -, -, f, l₁, x, l₂, -, -, -, -, rfl⟩
    · exact h
    · exact h.of_view rfl fun b => view_modEntry fun _ => rfl
  | read argp =>
    obtain ⟨out, hs⟩ := dropOut_eq_ok.1 hs
    rcases vopRead_ok hs with rfl | ⟨n, e, f, m, -, -, -, -, -, rfl⟩
    · exact h
    · exact h.of_view rfl fun b => rfl
  | pread argp =>
    obtain rfl := VopStep.pread_eq hs
    exact h
  | lseek argp =>
    rcases vopLseek_ok hs with ⟨-, rfl⟩ | ⟨-, n, -, -, rfl⟩
    · exact h
    · exact h.of_view rfl fun b => rfl
  | _ => exact hc.elim

theorem nodesAgree_freshMount (h : FreshMount s) : NodesAgree s := by
  refine ⟨backPtr_freshMount h, ?_⟩
  obtain ⟨k, v, m, s₀, e, leak, name, bufs, n, hU, -, -, hent, -, -, hnodes⟩ := freshMount_ok h
  intro w n' b x hn hb hx hreg
  rw [hnodes, lookup_insert_ite] at hn
  split at hn
  · obtain rfl := Option.some.inj hn
    obtain rfl := Option.some.inj hb
    obtain ⟨f, hf, rfl⟩ := view_eq_some.1 hx
    rw [hent, lookup_insert_ite, if_pos rfl] at hf
    obtain rfl := Option.some.inj hf
    unfold newDmassFs initEntryDate sizeView
    cases k.rtc <;> rfl
  · rw [hU.vnodes w n' hn] at hb
    cases hb

/-- Every vnode of a regular file has the `st_size` of its entry. -/
theorem stSize_run {ls : List (VopCall × Int)} (hm : FreshMount s)
    (h : VopRun (fun call _ s => sizeCall call ∧ soleVnode call s) s ls s') {n : SceVfsNode} {f : FapsDmassFs}
    (hn : s'.vnodes.lookup v = some n) (he : n.devInfo = some e) (hf : s'.entries.lookup e = some f)
    (hreg : isReg f.stat.stMode) : n.stSize = f.stat.stSize := by
  have hI : NodesAgree s' :=
    h.invariant (fun _ _ _ _ hI hok => nodesAgree_step hI hok.1 hok.2) (nodesAgree_freshMount hm)
  exact hI.sizes v n e _ hn he (view_eq_some.2 ⟨f, hf, rfl⟩) hreg

theorem stSize_run_twoVnodes : ∃ n f, (lastState twoVnodes mounted).vnodes.lookup 2 = some n ∧
    (lastState twoVnodes mounted).entries.lookup 4 = some f ∧ n.stSize = f.stat.stSize := by
  have hok : ∀ c ∈ twoVnodes, ∀ s, sizeCall c ∧ soleVnode c s := by
    simp [twoVnodes, sizeCall, soleVnode]
  obtain ⟨ls, h⟩ := lastState_run (s := mounted) (fun c hc _ s => hok c hc s) (by decide +kernel)
  have hd : (lastState twoVnodes mounted).devInfo 2 = some 4 := by decide +kernel
  have hv : (lastState twoVnodes mounted).view (fun f => decide (isReg f.stat.stMode)) 4 = some true := by
    decide +kernel
  obtain ⟨n, hn, he⟩ := devInfo_eq_some.1 hd
  obtain ⟨f, hf, hreg⟩ := view_eq_some.1 hv
  exact ⟨n, f, hn, hf, stSize_run freshMount_mounted h hn he hf (of_decide_eq_true hreg)⟩

/-- Two vnodes of a file, and a byte written through the second. -/
def writeSecond : List VopCall :=
  twoVnodes ++ [.open idle ⟨2, 1⟩ { node := 2 }, .write idle ⟨2, 1, fun _ => 0, 1⟩]

theorem not_stSize_writeSecond :
    let t := lastState writeSecond mounted
    FreshMount mounted ∧ (∃ ls, VopRun (fun call _ _ => sizeCall call) mounted ls t) ∧
      ∃ n f, t.vnodes.lookup 1 = some n ∧ n.devInfo = some 4 ∧ t.entries.lookup 4 = some f ∧
        isReg f.stat.stMode ∧ n.stSize ≠ f.stat.stSize := by
  have hok : ∀ c ∈ writeSecond, sizeCall c := by
    simp [writeSecond, twoVnodes, sizeCall]
  refine ⟨freshMount_mounted, lastState_run (fun c hc _ _ => hok c hc) (by decide +kernel), ?_⟩
  have hn : ((lastState writeSecond mounted).vnodes.lookup 1).map (fun n => (n.devInfo, n.stSize)) =
      some (some 4, 0) := by decide +kernel
  have hf : (lastState writeSecond mounted).view (fun f => (decide (isReg f.stat.stMode), f.stat.stSize)) 4 =
      some (true, 1) := by decide +kernel
  obtain ⟨n, hn, hx⟩ := Option.map_eq_some_iff.1 hn
  obtain ⟨f, hf, hy⟩ := view_eq_some.1 hf
  obtain ⟨he, h0⟩ := Prod.mk.inj hx
  obtain ⟨hreg, h1⟩ := Prod.mk.inj hy
  refine ⟨n, f, hn, he, hf, of_decide_eq_true hreg, ?_⟩
  rw [h0, h1]
  decide

end VitaUtility.Dmass

import VitaUtility.Dmass.Tree
import VitaUtility.Dmass.Vnodes

/-!
# References to entries

Besides the sibling lists, vnodes (`dev_info`) and the cursors of directory handles point at entries.
`vop_remove` and `vop_rmdir` free an entry that vnodes may point at, and take it out of a list that a cursor
may be going through, as `vop_rename` does; they look at neither.
-/

namespace VitaUtility.Dmass
open VfsState

variable {s s' : VfsState} {k : Answers} {r : Int} {a b d e : Addr} {v w : NodePtr} {f : FapsDmassFs}

namespace VfsState

/-- A handle on `d` has its cursor at `a`. -/
def cursorAt (s : VfsState) (d a : Addr) : Prop := ∃ l ∈ s.view (·.pDmassFsX) d, ∃ x ∈ l, x.current = some a

instance : Decidable (s.cursorAt d a) := inferInstanceAs (Decidable (∃ l ∈ _, _))

end VfsState

theorem cursorAt_of_view (hv : s'.view (·.pDmassFsX) d = s.view (·.pDmassFsX) d) :
    s'.cursorAt d a ↔ s.cursorAt d a := by
  unfold cursorAt
  rw [hv]

theorem cursorAt_of_mem {x : FapsDmassFsX} (hf : s.entries.lookup d = some f) (hx : x ∈ f.pDmassFsX)
    (ha : x.current = some a) : s.cursorAt d a :=
  ⟨_, view_eq_some.2 ⟨f, hf, rfl⟩, x, hx, ha⟩

/-- Vnodes point at live entries, and cursors at children of their directory. -/
structure Refs (s : VfsState) : Prop where
  lists : Listed s
  node : ∀ v e, s.devInfo v = some e → e ∈ s.entries.keys
  cursor : ∀ d a, s.cursorAt d a → s.child (some d) a

namespace Refs

/-- The tree stays; a vnode may become one of a live entry, and a cursor may move inside its list. -/
theorem of_view (h : Refs s) (hkeys : s'.entries.keys = s.entries.keys) (hp : s'.pTree = s.pTree)
    (hv : ∀ b, s'.view linkView b = s.view linkView b)
    (hn : ∀ v e, s'.devInfo v = some e → s.devInfo v = some e ∨ e ∈ s.entries.keys)
    (hc : ∀ d a, s'.cursorAt d a → s.cursorAt d a ∨ s.child (some d) a) : Refs s' := by
  refine ⟨h.lists.of_view hp hv, fun v e hve => ?_, fun d a hda => ?_⟩
  · rw [hkeys]
    rcases hn v e hve with hve | he
    · exact h.node v e hve
    · exact he
  · rw [child_of_view hp hv]
    rcases hc d a hda with hda | hda
    · exact h.cursor d a hda
    · exact hda

/-- Another list of handles for `e`, whose cursors are children of `e`. -/
theorem handles (h : Refs s) {f' : FapsDmassFs} (hf : s.entries.lookup e = some f)
    (hs' : s'.entries = s.entries.insert e f') (hp : s'.pTree = s.pTree) (hn : s'.vnodes = s.vnodes)
    (hlinks : linkView f' = linkView f)
    (hcur : ∀ x ∈ f'.pDmassFsX, ∀ a, x.current = some a → s.child (some e) a) : Refs s' := by
  have hlook : ∀ b, s'.entries.lookup b = if b = e then some f' else s.entries.lookup b := by
    intro b
    rw [hs', lookup_insert_ite]
  have hkeys : s'.entries.keys = s.entries.keys := by
    rw [hs', ← modifyAt_eq hf fun _ => f', keys_modifyAt]
  refine h.of_view hkeys hp (fun b => ?_) (fun v b hv => .inl ?_) ?_
  · unfold view
    rw [hlook]
    split
    · subst b
      rw [hf]
      exact congrArg some hlinks
    · rfl
  · unfold devInfo at hv
    rwa [hn] at hv
  · rintro d a ⟨l, hl, x, hx, ha⟩
    unfold view at hl
    rw [hlook] at hl
    split at hl
    · subst d
      obtain rfl := Option.some.inj hl
      exact .inr (hcur x hx a ha)
    · exact .inl ⟨l, hl, x, hx, ha⟩

/-- The cursors of the handles that an entry already has. -/
theorem child_of_mem (h : Refs s) {x : FapsDmassFsX} (hf : s.entries.lookup e = some f) (hx : x ∈ f.pDmassFsX)
    (ha : x.current = some a) : s.child (some e) a :=
  h.cursor e a (cursorAt_of_mem hf hx ha)

theorem vnodes (h : Refs s) {vnodes : Store SceVfsNode} (hk : NodesKept s vnodes) :
    Refs { s with vnodes := vnodes } := by
  refine h.of_view rfl rfl (fun _ => rfl) (fun v e hv => .inl ?_) fun d a hda => .inl hda
  rwa [hk.devInfo rfl] at hv

end Refs

/-! ### The calls -/

theorem refs_makeEntry {mode unk78 stAttr : UInt32} {fileInfo : SceVfsPath} {out : Option NodePtr}
    (h : Refs s) (hs : makeEntry (createDmassInfo mode) unk78 stAttr k v fileInfo s = .ok (r, out, s')) :
    Refs s' := by
  rcases makeEntry_ok hs with ⟨-, rfl⟩ | ⟨e, leak, name, bufs, n, d, fd, hB, -, -, -, hd, hs⟩
  · exact h
  obtain ⟨hL, hch⟩ := h.lists.make hB.fresh rfl bufs hd
  set t := VfsState.pushEntry { s with entries := s.entries.insert e (newDmassFs mode k name), bufs := bufs } d e
    with ht
  have hkeys : t.entries.keys = insert e s.entries.keys := by
    rw [ht, pushEntry_keys]
    ext b
    simp [Finmap.mem_keys, Finmap.mem_insert]
  -- the new entry has no handles
  have hcur : ∀ b a, t.cursorAt b a → s.cursorAt b a := by
    rintro b a ⟨l, hl, x, hx, ha⟩
    rw [ht, view_pushEntry (by intros; rfl) (by intros; rfl)] at hl
    unfold view at hl
    rw [lookup_insert_ite] at hl
    split at hl
    · obtain rfl := Option.some.inj hl
      cases hx
    · exact ⟨l, hl, x, hx, ha⟩
  have hR : Refs t := by
    refine ⟨hL, fun u b hu => ?_, fun b a hba => ?_⟩
    · rw [hkeys]
      exact Finset.mem_insert_of_mem (h.node u b hu)
    · rw [hch]
      exact .inl (h.cursor b a (hcur b a hba))
  rcases hs with ⟨-, vnodes, hk, rfl⟩ | ⟨-, w, hw, -, rfl⟩
  · exact hR.vnodes hk
  · refine hR.of_view (modEntry_keys t) rfl (fun b => view_modEntry (by intro; rfl)) ?_ ?_
    · intro u b hu
      rw [devInfo_insert (s := t) rfl rfl] at hu
      split at hu
      · obtain rfl := Option.some.inj hu
        rw [hkeys]
        exact .inr (Finset.mem_insert_self e _)
      · exact .inl hu
    · intro b a hba
      exact .inl ((cursorAt_of_view (view_modEntry (by intro; rfl))).1 hba)

theorem refs_lookup {argp : SceVfsPartInit} {out : Option NodePtr} (h : Refs s)
    (hs : vopPartInit k argp s = .ok (r, out, s')) : Refs s' := by
  rcases vopPartInit_ok hs with ⟨-, vnodes, hk, rfl⟩ | ⟨-, n, e, f, w, -, -, hf, hw, -, rfl⟩
  · exact h.vnodes hk
  refine h.of_view (modEntry_keys s) rfl (fun b => view_modEntry (by intro; rfl)) ?_ ?_
  · intro u b hu
    rw [devInfo_insert (s := s) rfl rfl] at hu
    split at hu
    · obtain rfl := Option.some.inj hu
      exact .inr (mem_keys_iff.2 ⟨f, hf⟩)
    · exact .inl hu
  · intro b a hba
    exact .inl ((cursorAt_of_view (view_modEntry (by intro; rfl))).1 hba)

/-- The entry that a removal through `v` unlinks is at no cursor, and if it frees it, no vnode has it. -/
def removable (p : FapsDmassFs → Prop) (s : VfsState) (v : NodePtr) (path : Option CStr) : Prop :=
  ∀ e ∈ target s path, ∀ f ∈ s.entries.lookup e, ∀ d ∈ s.devInfo v, p f → linked s d e → ¬ s.cursorAt d e ∧
    (f.refer = 0 → f.pDmassFsX = [] → ∀ w ∈ s.vnodes.keys, s.devInfo w ≠ some e)

theorem refs_unlinkAndDelete (h : Refs s) (hf : s.entries.lookup e = some f)
    (hfree : ∀ d ∈ s.devInfo v, linked s d e → ¬ s.cursorAt d e ∧
      (f.refer = 0 → f.pDmassFsX = [] → ∀ w ∈ s.vnodes.keys, s.devInfo w ≠ some e))
    (hs : unlinkAndDelete v e s = .ok (r, s')) : Refs s' := by
  obtain ⟨n, d, fd, hn, hnd, hd, ⟨-, -, rfl⟩ | ⟨pred, x, f', hl, hf', hs⟩⟩ := unlinkAndDelete_ok hs
  · exact h
  obtain rfl := Option.some.inj (hf.symm.trans hf')
  obtain ⟨hcur, hnodes⟩ := hfree d (devInfo_eq_some.2 ⟨n, hn, hnd⟩) (by unfold linked; rw [hl]; trivial)
  obtain ⟨hchild, hL, hch⟩ := h.lists.found hd hf hl rfl
  set t := s.setLink d pred f.next with ht
  have hview : ∀ b, t.view (·.pDmassFsX) b = s.view (·.pDmassFsX) b := fun b =>
    view_setLink (by intros; rfl) (by intros; rfl)
  have hR : Refs t := by
    refine ⟨hL, fun u b hu => ?_, fun b a hba => ?_⟩
    · rw [ht, setLink_keys]
      exact h.node u b hu
    · rw [cursorAt_of_view (hview b)] at hba
      rw [hch]
      have hkid := h.cursor b a hba
      refine ⟨hkid, ?_⟩
      rintro rfl
      obtain rfl := Option.some.inj (h.lists.parent _ _ _ hkid hchild)
      exact hcur hba
  obtain ⟨g, hg, ⟨-, rfl, -⟩ | ⟨-, hrefer, hnone, hs'⟩⟩ := deleteDmassInfo_ok hs
  · exact hR
  -- the fields that the deletion tests are those of `f`
  have hsame : t.view (fun f => (f.refer, f.pDmassFsX)) e = s.view (fun f => (f.refer, f.pDmassFsX)) e :=
    view_setLink (by intros; rfl) (by intros; rfl)
  unfold view at hsame
  rw [hg, hf] at hsame
  obtain ⟨hr, hx⟩ := Prod.mk.inj (Option.some.inj hsame)
  have hent : s'.entries = t.entries.erase e := by rw [hs']
  have hnd' : ∀ u, s'.devInfo u = s.devInfo u := by
    intro u
    rw [hs']
    rfl
  obtain ⟨hL', hch'⟩ := hL.erase hent (by rw [hs']; rfl) fun x hx => ((hch x e).1 hx).2 rfl
  refine ⟨hL', fun u b hu => ?_, fun b a hba => ?_⟩
  · rw [hnd'] at hu
    obtain ⟨m, hm, -⟩ := devInfo_eq_some.1 hu
    rw [hent, Finmap.keys_erase, Finset.mem_erase]
    refine ⟨?_, hR.node u b hu⟩
    rintro rfl
    exact hnodes (hr.symm.trans hrefer) (hx.symm.trans hnone) u
      (Finmap.mem_keys.2 (Finmap.mem_iff.2 ⟨m, hm⟩)) hu
  · obtain ⟨l, hl, x, hx, ha⟩ := hba
    unfold view at hl
    rw [hent, lookup_erase_ite] at hl
    split at hl
    · cases hl
    · rw [hch']
      exact ⟨hR.cursor b a ⟨l, hl, x, hx, ha⟩, fun hbe => ‹¬ b = e› (Option.some.inj hbe)⟩

/-- The entry that `vop_rename` takes to another directory is at no cursor of the old one. -/
def movable (k : Answers) (argp : SceVopRenameArgs) (s : VfsState) : Prop :=
  movesEntry k s argp → ∀ e ∈ target s argp.fileInfoOld.path, ∀ d ∈ s.devInfo argp.node,
    s.devInfo argp.node3 ≠ some d → ¬ s.cursorAt d e

theorem refs_rename {argp : SceVopRenameArgs} {out : Option NodePtr} (h : Refs s) (hmove : movable k argp s)
    (hs : vopRename k argp s = .ok (r, out, s')) : Refs s' := by
  rcases vopRename_ok hs with ⟨-, vnodes, hk, rfl⟩ |
    ⟨-, hmoves, n, d, fd, e, f, pred, x, w, n3, d3, fd3, v, old, name, hn⟩
  · exact h.vnodes hk
  obtain ⟨hn, hnd, hd, hpath, hf, hl, -, -, hn3, hnd3, hd3, -, -, -, rfl⟩ := hn
  have hcur := hmove hmoves e (by unfold target; rw [hpath]; rfl) d (devInfo_eq_some.2 ⟨n, hn, hnd⟩)
  rw [devInfo_eq_some.2 ⟨n3, hn3, hnd3⟩] at hcur
  obtain ⟨hchild, -, -⟩ := h.lists.found hd hf hl rfl
  obtain ⟨hL, hch⟩ := h.lists.move hd hf hl rfl hd3
  set t := (s.setLink d pred f.next).pushEntry d3 e with ht
  have hkeys : t.entries.keys = s.entries.keys := (pushEntry_keys _).trans (setLink_keys s)
  have hview : ∀ b, t.view (·.pDmassFsX) b = s.view (·.pDmassFsX) b := fun b =>
    (view_pushEntry (by intros; rfl) (by intros; rfl)).trans (view_setLink (by intros; rfl) (by intros; rfl))
  have hR : Refs t := by
    refine ⟨hL, fun u b hu => ?_, fun b a hba => ?_⟩
    · rw [hkeys]
      exact h.node u b hu
    · rw [cursorAt_of_view (hview b)] at hba
      rw [hch]
      have hkid := h.cursor b a hba
      by_cases hae : a = e
      · subst a
        -- the cursor is in the list that the entry was in, so that is the new list too
        obtain rfl := Option.some.inj (h.lists.parent _ _ _ hkid hchild)
        refine .inr ⟨?_, rfl⟩
        by_contra hne
        exact hcur (Ne.symm hne) hba
      · exact .inl ⟨hkid, hae⟩
  refine hR.of_view (modEntry_keys t) rfl (fun b => view_modEntry (by intro; rfl)) ?_ ?_
  · intro u b hu
    rw [devInfo_insert (s := t) rfl rfl] at hu
    split at hu
    · obtain rfl := Option.some.inj hu
      rw [hkeys]
      exact .inr (mem_keys_iff.2 ⟨f, hf⟩)
    · exact .inl hu
  · intro b a hba
    exact .inl ((cursorAt_of_view (view_modEntry (by intro; rfl))).1 hba)

theorem refs_dopen {argp : SceVfsDopen} (h : Refs s) (hs : vopDopen k argp s = .ok (r, s')) : Refs s' := by
  rcases vopDopen_ok hs with ⟨-, rfl⟩ | ⟨-, n, e, f, a, -, -, hf, -, rfl⟩
  · exact h
  refine h.handles hf (modifyAt_eq hf _) rfl rfl rfl fun x hx b hb => ?_
  rcases List.mem_cons.1 hx with rfl | hx
  · -- the cursor starts at the head of the list
    obtain ⟨l, hK⟩ := h.lists.kids (some e)
    have hhead : s.head (some e) = some b := by
      rw [head_some, hf]
      exact hb
    refine (child_iff hK).2 ?_
    unfold Kids at hK
    rw [hhead] at hK
    exact hK.head_mem
  · exact h.child_of_mem hf hx hb

theorem refs_dclose {argp : SceVfsDclose} (h : Refs s) (hs : vopDclose argp s = .ok (r, s')) : Refs s' := by
  rcases vopDclose_ok hs with ⟨-, rfl⟩ | ⟨-, n, e, -, -, f, l₁, x, l₂, hf, hl, -, -, rfl⟩
  · exact h
  refine h.handles hf (modifyAt_eq hf _) rfl rfl rfl fun y hy b hb => ?_
  refine h.child_of_mem hf ?_ hb
  rw [hl]
  rcases List.mem_append.1 hy with hy | hy
  · exact List.mem_append_left _ hy
  · exact List.mem_append_right _ (List.mem_cons_of_mem x hy)

theorem refs_dread {argp : SceVfsDread} {out : Option SceIoDirent} (h : Refs s)
    (hs : vopDread argp s = .ok (r, out, s')) : Refs s' := by
  rcases vopDread_ok hs with ⟨-, rfl⟩ | ⟨-, n, e, f, l₁, x, l₂, a, c, -, -, hf, hl, -, ha, hc, rfl⟩
  · exact h
  have hmem : ∀ y, y ∈ l₁ ∨ y ∈ l₂ → y ∈ f.pDmassFsX := by
    intro y hy
    rw [hl]
    rcases hy with hy | hy
    · exact List.mem_append_left _ hy
    · exact List.mem_append_right _ (List.mem_cons_of_mem x hy)
  refine h.handles hf (modifyAt_eq hf _) rfl rfl rfl fun y hy b hb => ?_
  rcases List.mem_append.1 hy with hy | hy
  · exact h.child_of_mem hf (hmem y (.inl hy)) hb
  rcases List.mem_cons.1 hy with rfl | hy
  · -- the cursor moves to the next entry of the list it is in
    have hx : x ∈ f.pDmassFsX := by
      rw [hl]
      exact List.mem_append_right _ List.mem_cons_self
    obtain ⟨l, hK, hal⟩ := h.child_of_mem hf hx ha
    refine ⟨l, hK, Chain.next_mem hK hal ?_⟩
    unfold next?
    rw [hc]
    exact congrArg some hb
  · exact h.child_of_mem hf (hmem y (.inr hy)) hb

theorem refs_inactive {argp : SceVopInactiveArgs} (h : Refs s) (hs : vopInactive argp s = .ok (r, s')) :
    Refs s' := by
  have hdrop : ∀ t v, (∀ u, VfsState.devInfo t u = s.devInfo u) → ∀ u b,
      (t.modNode v fun n => { n with devInfo := none }).devInfo u = some b → s.devInfo u = some b := by
    intro t v ht u b hu
    unfold devInfo at hu
    rw [lookup_modNode] at hu
    split at hu
    · obtain ⟨n, hn, hb⟩ := Option.bind_eq_some_iff.1 hu
      obtain ⟨m, -, rfl⟩ := Option.map_eq_some_iff.1 hn
      cases hb
    · rw [← ht]
      exact hu
  rcases vopInactive_ok hs with ⟨-, rfl⟩ | ⟨-, v, n, -, -, ⟨-, rfl⟩ | ⟨e, f, -, -, rfl⟩⟩
  · exact h
  · exact h.of_view rfl rfl (fun _ => rfl) (fun u b hu => .inl (hdrop s v (fun _ => rfl) u b hu)) fun d a hda =>
      .inl hda
  · refine h.of_view (modEntry_keys s) rfl (fun b => view_modEntry (by intro; rfl))
      (fun u b hu => .inl (hdrop _ v (fun _ => rfl) u b hu)) fun b a hba => .inl ?_
    exact (cursorAt_of_view (view_modEntry (by intro; rfl))).1 hba

/-! ### Runs -/

/-- The calls that make, list, move and drop entries and vnodes. -/
def refCall : VopCall → Prop
  | .lookup .. | .create .. | .mkdir .. | .remove .. | .rmdir .. | .rename .. => True
  | .dopen .. | .dread .. | .dclose .. | .inactive .. => True
  | _ => False

/-- A call that unlinks an entry leaves no cursor and no vnode behind that points at it. -/
def unreferenced (call : VopCall) (s : VfsState) : Prop :=
  match call with
  | .remove argp => removable (fun f => isReg f.stat.stMode) s argp.node argp.fileInfo.path
  | .rmdir argp => removable (fun f => isDir f.stat.stMode ∧ f.nextDir = none) s argp.node argp.fileInfo.path
  | .rename k argp => movable k argp s
  | _ => True

theorem refs_step {call : VopCall} (h : Refs s) (hc : refCall call) (hu : unreferenced call s)
    (hs : VopStep s call r s') : Refs s' := by
  unfold VopStep at hs
  cases call with
  | lookup k argp =>
    obtain ⟨out, hs⟩ := dropOut_eq_ok.1 hs
    exact refs_lookup h hs
  | create k argp =>
    obtain ⟨out, hs⟩ := dropOut_eq_ok.1 hs
    exact refs_makeEntry h hs
  | mkdir k argp =>
    obtain ⟨out, hs⟩ := dropOut_eq_ok.1 hs
    rcases vopMkdir_ok hs with ⟨-, rfl⟩ | ⟨n, d, f, -, -, -, -, hs⟩
    · exact h
    · exact refs_makeEntry h hs
  | remove argp =>
    rcases vopRemove_ok hs with ⟨-, rfl⟩ | ⟨e, f, hpath, hf, hreg, hs⟩
    · exact h
    · exact refs_unlinkAndDelete h hf (fun d hd => hu e (by unfold target; rw [hpath]; rfl) f hf d hd hreg) hs
  | rmdir argp =>
    rcases vopRmdir_ok hs with ⟨-, rfl⟩ | ⟨e, f, hpath, hf, hnone, hdir, hs⟩
    · exact h
    · exact refs_unlinkAndDelete h hf (fun d hd => hu e (by unfold target; rw [hpath]; rfl) f hf d hd ⟨hdir, hnone⟩)
        hs
  | rename k argp =>
    obtain ⟨out, hs⟩ := dropOut_eq_ok.1 hs
    exact refs_rename h hu hs
  | dopen k argp => exact refs_dopen h hs
  | dclose argp => exact refs_dclose h hs
  | dread argp =>
    obtain ⟨out, hs⟩ := dropOut_eq_ok.1 hs
    exact refs_dread h hs
  | inactive argp => exact refs_inactive h hs
  | _ => exact hc.elim

theorem refs_freshMount (h : FreshMount s) : Refs s := by
  refine ⟨listed_freshMount h, fun v e hv => ?_, fun d a hda => ?_⟩
  · obtain ⟨w, hw⟩ := (backPtr_freshMount h).back v e hv
    obtain ⟨f, hf, -⟩ := pNodeOf_eq_some.1 hw
    exact mem_keys_iff.2 ⟨f, hf⟩
  · obtain ⟨k, v, m, s₀, e, leak, name, bufs, n, -, -, -, hent, -⟩ := freshMount_ok h
    obtain ⟨l, hl, x, hx, -⟩ := hda
    unfold view at hl
    rw [hent, lookup_insert_ite] at hl
    split at hl
    · obtain rfl := Option.some.inj hl
      cases hx
    · cases hl

/-- No vnode has a freed entry, no listing is outside its directory, and so `vop_dread` and `vop_inactive`
touch no freed memory. -/
structure NoStaleRefs (s : VfsState) : Prop where
  node : ∀ v e, s.devInfo v = some e → ∃ f, s.entries.lookup e = some f
  cursor : ∀ d f x a, s.entries.lookup d = some f → x ∈ f.pDmassFsX → x.current = some a → s.child (some d) a
  dread : ∀ argp n, s.vnodes.lookup argp.node = some n → vopDread argp s ≠ .error .freed
  inactive : ∀ v n, s.vnodes.lookup v = some n → vopInactive ⟨some v⟩ s ≠ .error .freed

theorem bind_ne_error {α β : Type} {x : Except Fault α} {g : α → Except Fault β} {y : α} {c : Fault}
    (hx : x = .ok y) (h : g y ≠ .error c) : (x >>= g) ≠ .error c := by
  subst hx
  exact h

namespace Refs

theorem dread (h : Refs s) {argp : SceVfsDread} {n : SceVfsNode} (hn : s.vnodes.lookup argp.node = some n) :
    vopDread argp s ≠ .error .freed := by
  refine bind_ne_error (node_eq_ok.2 hn) ?_
  split
  · nofun
  rename_i e he
  obtain ⟨f, hf⟩ := mem_keys_iff.1 (h.node _ e (devInfo_eq_some.2 ⟨n, hn, he⟩))
  refine bind_ne_error (entry_eq_ok.2 hf) ?_
  rcases unlinkCtlData_eq argp.pVfsFileObject.toInt32 f.pDmassFsX with ⟨-, hx⟩ | ⟨l₁, x, l₂, hl, -, -, -, hx, -⟩ <;>
    rw [hx]
  · nofun
  dsimp only
  split
  · nofun
  rename_i a ha
  have hmem : x ∈ f.pDmassFsX := by rw [hl]; simp
  obtain ⟨c, hc⟩ := child_live (h.child_of_mem hf hmem ha)
  refine bind_ne_error (entry_eq_ok.2 hc) ?_
  split <;> nofun

theorem inactive (h : Refs s) {n : SceVfsNode} (hn : s.vnodes.lookup v = some n) :
    vopInactive ⟨some v⟩ s ≠ .error .freed := by
  refine bind_ne_error (node_eq_ok.2 hn) ?_
  split
  · nofun
  rename_i e he
  obtain ⟨f, hf⟩ := mem_keys_iff.1 (h.node v e (devInfo_eq_some.2 ⟨n, hn, he⟩))
  exact bind_ne_error (entry_eq_ok.2 hf) nofun

theorem noStaleRefs (h : Refs s) : NoStaleRefs s := by
  refine ⟨fun v e hv => mem_keys_iff.1 (h.node v e hv), fun d f x a hf hx ha => h.child_of_mem hf hx ha, ?_, ?_⟩
  · intro argp n hn
    exact h.dread hn
  · intro v n hn
    exact h.inactive hn

end Refs

theorem noStaleRefs_run {ls : List (VopCall × Int)} (h0 : FreshMount s)
    (h : VopRun (fun call _ s => refCall call ∧ unreferenced call s) s ls s') : NoStaleRefs s' := by
  have hR : Refs s' := h.invariant (fun _ _ _ _ hI hok => refs_step hI hok.1 hok.2) (refs_freshMount h0)
  exact hR.noStaleRefs

instance : ∀ call : VopCall, Decidable (refCall call)
  | .lookup .. | .create .. | .mkdir .. | .remove .. | .rmdir .. | .rename .. => instDecidableTrue
  | .dopen .. | .dread .. | .dclose .. | .inactive .. => instDecidableTrue
  | .open .. | .close _ | .read _ | .write .. | .lseek _ | .chstat .. | .pread _ | .pwrite .. | .chstatByFd .. =>
    instDecidableFalse

instance {p : FapsDmassFs → Prop} [DecidablePred p] {path : Option CStr} : Decidable (removable p s v path) := by
  unfold removable; infer_instance

instance {argp : SceVopRenameArgs} : Decidable (movable k argp s) := by
  unfold movable; infer_instance

instance : ∀ (call : VopCall) (s : VfsState), Decidable (unreferenced call s)
  | .remove _, s => inferInstanceAs (Decidable (removable _ s _ _))
  | .rmdir _, s => inferInstanceAs (Decidable (removable _ s _ _))
  | .rename k argp, s => inferInstanceAs (Decidable (movable k argp s))
  | .lookup .., _ | .create .., _ | .mkdir .., _ | .dopen .., _ | .dread _, _ | .dclose _, _ => instDecidableTrue
  | .inactive _, _ | .open .., _ | .close _, _ | .read _, _ | .write .., _ | .lseek _, _ => instDecidableTrue
  | .chstat .., _ | .pread _, _ | .pwrite .., _ | .chstatByFd .., _ => instDecidableTrue

/-- List the root past the file `/md/b`, drop its vnode, and remove it. -/
def listAndRemove : List VopCall :=
  [.create idle ⟨0, inRoot chA⟩, .create idle ⟨0, inRoot chB⟩, .dopen idle ⟨0, 1⟩, .dread ⟨0, 1⟩,
    .inactive ⟨some 2⟩, .remove ⟨0, inRoot chB⟩, .dread ⟨0, 1⟩]

theorem noStaleRefs_run_listAndRemove : NoStaleRefs (lastState listAndRemove mounted) := by
  have hok : okRun (fun call _ s => refCall call ∧ unreferenced call s) listAndRemove mounted = true := by decide +kernel
  obtain ⟨ls, h⟩ := okRun_run hok
  exact noStaleRefs_run freshMount_mounted h

/-- Remove a file that a vnode and the cursor of a listing point at. -/
def removeListed : List VopCall :=
  [.create idle ⟨0, inRoot chA⟩, .dopen idle ⟨0, 1⟩, .remove ⟨0, inRoot chA⟩]

theorem not_noStaleRefs_removeListed :
    let t := lastState removeListed mounted
    FreshMount mounted ∧ (∃ ls, VopRun (fun call _ _ => refCall call) mounted ls t) ∧
      t.entries.lookup 4 = none ∧ t.devInfo 1 = some 4 ∧ t.cursorAt 1 4 ∧ ¬ NoStaleRefs t := by
  intro t
  have hdead : t.entries.lookup 4 = none := by decide +kernel
  have hnode : t.devInfo 1 = some 4 := by decide +kernel
  refine ⟨freshMount_mounted, okRun_run (by decide +kernel), hdead, hnode, by decide +kernel, fun h => ?_⟩
  obtain ⟨f, hf⟩ := h.node 1 4 hnode
  rw [hdead] at hf
  cases hf

end VitaUtility.Dmass

import VitaUtility.VfsMountOld.Handles

/-!
# A group of vnodes by itself (`main.c`)

The files and directories of a group of vnodes, opened from the root or from one another, depend on nothing that is done with
other vnodes: of the handles the group sees its own only, and that the root is open. What a callback does is part of the
call and only looks at the handle, so this says nothing of memory that callbacks share.
-/

namespace VitaUtility.VfsMountOld
open Dmass (Addr NodePtr Fault)

section
variable (P : NodePtr → Bool) (root : Option NodePtr)

/-- The call is one of the group. -/
def Event.own (x : Event) : Bool := P x.call.node

/-- A file is opened from the root, or from a directory of the group. -/
def VfsCall.StaysIn : VfsCall → Prop
  | .open _ prevNode _ _ _ => prevNode = root ∨ prevNode.any P
  | _ => True

def Handle.Seen (h : Handle) : Prop := h.node = root ∨ h.node.any P

instance (h : Handle) : Decidable (h.Seen P root) := inferInstanceAs (Decidable (_ ∨ _))

/-- The handle, without what it is at if it is none of the group. -/
def Handle.hide (h : Handle) : Handle := if h.node.any P then h else ⟨h.obj, h.node, 0, 0, none, none⟩

def Table.view (T : Table) : Table := (T.filter (·.Seen P root)).map (·.hide P)

/-- The change is one of a handle of the vnode. -/
def Change.About (node : NodePtr) : Change → Prop
  | keep => True
  | add h | remove h => h.node = some node ∧ some node ≠ root
  | put h h' => h.node = some node ∧ h'.obj = h.obj ∧ h'.node = h.node

end

section
variable {P : NodePtr → Bool} {root : Option NodePtr} {m : Mount} {K : Callbacks} {T T' U : Table} {h h' : Handle}
  {node : NodePtr} {c : VfsCall} {reply : Reply} {change : Change} {x : Event}

@[simp] theorem Handle.hide_obj : (h.hide P).obj = h.obj := by
  unfold hide
  split <;> rfl

@[simp] theorem Handle.hide_node : (h.hide P).node = h.node := by
  unfold hide
  split <;> rfl

theorem Handle.hide_of_own (hown : h.node.any P) : h.hide P = h := if_pos hown

/-! ### The view -/

theorem Table.find_view {q : Option NodePtr} (hq : q = root ∨ q.any P) :
    (T.view P root).find q = (T.find q).map (Handle.hide P) := by
  unfold Table.find Table.view
  rw [List.find?_map, List.find?_filter]
  refine congrArg _ (List.find?_congr fun x _ => ?_)
  by_cases hx : x.node = q
  · have hseen : x.Seen P root := by
      unfold Handle.Seen
      rwa [hx]
    simp [hx, hseen]
  · simp [hx]

/-- What the group finds of its vnodes is in its view. -/
theorem Table.find_eq_of_view (hview : T.view P root = U.view P root) (hown : P node) :
    T.find (some node) = U.find (some node) := by
  have hfind : ∀ V : Table, (V.view P root).find (some node) = V.find (some node) := by
    intro V
    have hq : some node = root ∨ (some node).any P := .inr hown
    rw [Table.find_view hq]
    cases hV : V.find (some node) with
    | none => rfl
    | some h =>
      have hnode := (Table.mem_of_find hV).2
      rw [Option.map_some, Handle.hide_of_own (by rw [hnode]; exact hown)]
  rw [← hfind T, hview, hfind U]

/-- A replacement changes no vnode, and so not which handles are seen. -/
theorem Table.view_put_eq (hnode : h'.node = h.node) : (T.put h h').view P root =
    (T.filter (·.Seen P root)).map fun x => (if x.obj = h.obj ∧ x.node = h.node then h' else x).hide P := by
  unfold Table.view Table.put
  have hseen : T.filter ((fun x : Handle => decide (x.Seen P root)) ∘
      fun x => if x.obj = h.obj ∧ x.node = h.node then h' else x) = T.filter (·.Seen P root) := by
    refine List.filter_congr fun x _ => ?_
    rw [Function.comp_apply, decide_eq_decide]
    unfold Handle.Seen
    split
    · rename_i hx
      rw [hnode, hx.2]
    · rfl
  rw [List.filter_map, List.map_map, hseen]
  rfl

theorem Table.view_put (hown : h.node.any P) (hnode : h'.node = h.node) :
    (T.put h h').view P root = (T.view P root).put h h' := by
  rw [view_put_eq hnode, Table.view, Table.put, List.map_map]
  refine List.map_congr_left fun x _ => ?_
  rw [Function.comp_apply, Handle.hide_obj, Handle.hide_node]
  split
  · exact Handle.hide_of_own (hnode ▸ hown)
  · rfl

/-- A handle that is none of the group is not seen to change. -/
theorem Table.view_put_other (hother : ¬ h.node.any P) (hobj : h'.obj = h.obj) (hnode : h'.node = h.node) :
    (T.put h h').view P root = T.view P root := by
  rw [view_put_eq hnode, Table.view]
  refine List.map_congr_left fun x _ => ?_
  split
  · rename_i hx
    unfold Handle.hide
    rw [if_neg (hnode ▸ hother), if_neg (hx.2 ▸ hother), hobj, hnode, hx.1, hx.2]
  · rfl

theorem Table.view_remove : (T.remove h).view P root = (T.view P root).remove h := by
  unfold Table.view Table.remove
  rw [List.filter_map, List.filter_filter, List.filter_filter]
  refine congrArg _ (List.filter_congr fun x _ => ?_)
  simp [Bool.and_comm]

theorem Table.view_remove_other (hother : ¬ h.Seen P root) : (T.remove h).view P root = T.view P root := by
  unfold Table.view Table.remove
  rw [List.filter_filter]
  refine congrArg _ (List.filter_congr fun x _ => ?_)
  by_cases hx : x.obj = h.obj ∧ x.node = h.node
  · have hsx : ¬ x.Seen P root := by
      unfold Handle.Seen at hother ⊢
      rwa [hx.2]
    simp [hsx]
  · simp [hx]

theorem Table.view_cons (hown : h.node.any P) : Table.view P root (h :: T) = h :: T.view P root := by
  have hseen : h.Seen P root := .inr hown
  unfold Table.view
  rw [List.filter_cons_of_pos (by simpa using hseen), List.map_cons, Handle.hide_of_own hown]

theorem Table.view_cons_other (hother : ¬ h.Seen P root) : Table.view P root (h :: T) = T.view P root := by
  unfold Table.view
  rw [List.filter_cons_of_neg (by simpa using hother)]

/-! ### What a call changes -/

theorem Mount.close_about (hroot : some node ≠ root) : (Mount.close (T.find (some node))).2.About root node := by
  unfold Mount.close
  cases hfind : T.find (some node) with
  | none => trivial
  | some h => exact ⟨(Table.mem_of_find hfind).2, hroot⟩

theorem Mount.transfer_about {cb? : FileEntry → Option Addr}
    (h : m.transfer K (T.find (some node)) cb? = .ok (reply, change)) : change.About root node := by
  unfold Mount.transfer at h
  cases hfind : T.find (some node) with
  | none =>
    rw [hfind] at h
    cases h
    trivial
  | some x =>
    simp only [hfind] at h
    split at h
    · cases h
    · split at h
      · cases h
      · split at h
        · cases h
          trivial
        · cases h
          exact ⟨(Table.mem_of_find hfind).2, rfl, rfl⟩

theorem Mount.readDir_about (h : m.readDir K (T.find (some node)) = .ok (reply, change)) : change.About root node := by
  unfold Mount.readDir at h
  cases hfind : T.find (some node) with
  | none =>
    rw [hfind] at h
    cases h
    trivial
  | some x =>
    simp only [hfind] at h
    split at h
    · cases h
      trivial
    · split at h
      · cases h
      · split at h
        · cases h
          trivial
        · cases h
          exact ⟨(Table.mem_of_find hfind).2, rfl, rfl⟩

theorem Mount.openFile_about {prev : Option Handle} {path : CStr} {flags : UInt32} {k : UidAnswer} (hroot : some node ≠ root)
    (h : m.openFile K prev node path flags k = .ok (reply, change)) : change.About root node := by
  unfold Mount.openFile at h
  split at h
  · cases h
    trivial
  · obtain ⟨found, -, h⟩ := bind_eq_ok.1 h
    split at h
    · cases h
      trivial
    · split at h
      · cases h
        trivial
      · by_cases hres : k.res < 0
        · rw [if_pos hres] at h
          cases h
        · rw [if_neg hres] at h
          dsimp only at h
          split at h
          · cases h
            exact ⟨rfl, hroot⟩
          · cases h
            exact ⟨rfl, hroot⟩

theorem Mount.openDir_about {path : CStr} {k : UidAnswer}
    (h : m.openDir (T.find (some node)) node path k = .ok (reply, change)) : change.About m.rootNode node := by
  unfold Mount.openDir at h
  by_cases hroot : some node = m.rootNode
  · rw [if_pos hroot] at h
    cases hfind : T.find (some node) with
    | none =>
      rw [hfind] at h
      cases h
      trivial
    | some x =>
      simp only [hfind] at h
      split at h
      · cases h
        trivial
      · cases h
        exact ⟨(Table.mem_of_find hfind).2, rfl, rfl⟩
  · rw [if_neg hroot] at h
    obtain ⟨found, -, h⟩ := bind_eq_ok.1 h
    split at h
    · cases h
      trivial
    · split at h
      · cases h
      · cases h
        exact ⟨rfl, hroot⟩

theorem Mount.answer_about (hv : T.Allows m c)
    (h : m.answer K (T.find (some c.node)) (T.find c.prevNode) c = .ok (reply, change)) : change.About m.rootNode c.node := by
  cases c with
  | «open» node prevNode path flags k => exact openFile_about hv.1 h
  | close node =>
    obtain ⟨rfl, rfl⟩ := Prod.mk.inj (Except.ok.inj h)
    exact close_about hv
  | read node => exact transfer_about h
  | write node => exact transfer_about h
  | dopen node path k mods => exact openDir_about h
  | dclose node =>
    by_cases hroot : some node = m.rootNode
    · simp only [answer, if_pos hroot] at h
      cases h
      trivial
    · simp only [answer, if_neg hroot] at h
      obtain ⟨rfl, rfl⟩ := Prod.mk.inj (Except.ok.inj h)
      exact close_about hroot
  | dread node => exact readDir_about h

/-! ### Steps -/

theorem Change.view_apply (hown : P node) (h : change.About root node) (hview : T.view P root = U.view P root) :
    (change.apply T).view P root = (change.apply U).view P root := by
  cases change with
  | keep => exact hview
  | add x =>
    have hx : x.node.any P := by rw [h.1]; exact hown
    rw [apply, apply, Table.view_cons hx, Table.view_cons hx, hview]
  | put x x' =>
    have hx : x.node.any P := by rw [h.1]; exact hown
    rw [apply, apply, Table.view_put hx h.2.2, Table.view_put hx h.2.2, hview]
  | remove x => rw [apply, apply, Table.view_remove, Table.view_remove, hview]

/-- A change of another vnode is not seen. -/
theorem Change.view_apply_other (hother : ¬ P node) (h : change.About root node) :
    (change.apply T).view P root = T.view P root := by
  have hnot : ∀ x : Handle, x.node = some node → some node ≠ root → ¬ x.Seen P root := by
    rintro x hx hroot (hr | hp)
    · exact hroot (hx ▸ hr)
    · rw [hx] at hp
      exact hother hp
  cases change with
  | keep => rfl
  | add x => exact Table.view_cons_other (hnot x h.1 h.2)
  | put x x' =>
    have hx : ¬ x.node.any P := by rw [h.1]; exact hother
    exact Table.view_put_other hx h.2.1 h.2.2
  | remove x => exact Table.view_remove_other (hnot x h.1 h.2)

/-- `U` has the handles of `T` that the group sees, and no others. -/
structure Table.Alone (P : NodePtr → Bool) (root : Option NodePtr) (T U : Table) : Prop where
  view : T.view P root = U.view P root
  seen : ∀ h ∈ U, h.Seen P root

theorem Table.Alone.obj (h : T.Alone P root U) {a : Addr} (ha : a ∉ T.map Handle.obj) : a ∉ U.map Handle.obj := by
  intro hU
  have hobjs : ∀ V : Table, (V.view P root).map Handle.obj = (V.filter (·.Seen P root)).map Handle.obj := by
    intro V
    rw [Table.view, List.map_map]
    exact List.map_congr_left fun x _ => Handle.hide_obj
  have hall : U.filter (·.Seen P root) = U := List.filter_eq_self.2 fun x hx => by simpa using h.seen x hx
  have hview := congrArg (List.map Handle.obj) h.view
  rw [hobjs, hobjs, hall] at hview
  rw [← hview] at hU
  obtain ⟨x, hx, rfl⟩ := List.mem_map.1 hU
  exact ha (List.mem_map_of_mem (List.mem_of_mem_filter hx))

theorem Table.Alone.allows (h : T.Alone P m.rootNode U) (hv : T.Allows m c) : U.Allows m c := by
  cases c with
  | «open» node prevNode path flags k => exact ⟨hv.1, fun hres => h.obj (hv.2 hres)⟩
  | close node => exact hv
  | dopen node path k mods => exact fun hroot => ⟨fun hres => h.obj ((hv hroot).1 hres), (hv hroot).2⟩
  | read | write | dclose | dread => trivial

theorem Table.Alone.seen_apply (h : T.Alone P root U) (hown : P node) (hc : change.About root node) :
    ∀ x ∈ change.apply U, x.Seen P root := by
  have hnode : ∀ x : Handle, x.node = some node → x.Seen P root := by
    intro x hx
    refine .inr ?_
    rw [hx]
    exact hown
  intro x hx
  cases change with
  | keep => exact h.seen x hx
  | add y =>
    rcases List.mem_cons.1 hx with rfl | hx
    · exact hnode x hc.1
    · exact h.seen x hx
  | put y y' =>
    obtain ⟨z, hz, rfl⟩ := List.mem_map.1 hx
    split
    · exact hnode y' (hc.2.2.trans hc.1)
    · exact h.seen z hz
  | remove y => exact h.seen x (List.mem_of_mem_filter hx)

/-- Of the object of `prev_node` a call sees that it is there. -/
theorem Table.Alone.answer (h : T.Alone P m.rootNode U) (hin : c.StaysIn P m.rootNode) {found : Option Handle} :
    m.answer K found (U.find c.prevNode) c = m.answer K found (T.find c.prevNode) c := by
  cases c with
  | «open» node prevNode path flags k =>
    have hprev : (U.find prevNode).isNone = (T.find prevNode).isNone := by
      have hfind := congrArg Option.isNone (congrArg (·.find prevNode) h.view)
      simp only [Table.find_view hin, Option.isNone_map] at hfind
      exact hfind.symm
    simp only [Mount.answer, Mount.openFile, VfsCall.prevNode, hprev]
  | close | read | write | dopen | dclose | dread => rfl

theorem Table.changed_eq_ok {y : Answer} :
    T.changed y = .ok (reply, T') ↔ ∃ change, y = .ok (reply, change) ∧ change.apply T = T' := by
  rcases y with e | ⟨reply', change⟩
  · simp [changed, Except.map]
  · simp [changed, Except.map]

theorem Table.Alone.step_own (h : T.Alone P m.rootNode U) (hown : x.own P) (hin : x.call.StaysIn P m.rootNode)
    (hx : T.EventStep m x T') : ∃ U', U.EventStep m x U' ∧ T'.Alone P m.rootNode U' := by
  obtain ⟨hv, hK, hcall⟩ := hx
  have hown' : P x.call.node := hown
  obtain ⟨change, hans, rfl⟩ := Table.changed_eq_ok.1 hcall
  have habout := Mount.answer_about hv hans
  refine ⟨change.apply U, ⟨h.allows hv, hK, Table.changed_eq_ok.2 ⟨change, ?_, rfl⟩⟩, ?_, h.seen_apply hown' habout⟩
  · rw [← Table.find_eq_of_view h.view hown', h.answer hin]
    exact hans
  · exact change.view_apply hown' habout h.view

theorem Table.Alone.step_other (h : T.Alone P m.rootNode U) (hother : ¬ x.own P) (hx : T.EventStep m x T') :
    T'.Alone P m.rootNode U := by
  obtain ⟨hv, -, hcall⟩ := hx
  obtain ⟨change, hans, rfl⟩ := Table.changed_eq_ok.1 hcall
  exact ⟨(change.view_apply_other hother (Mount.answer_about hv hans)).trans h.view, h.seen⟩

end

/-! ### The driver -/

/-- `t` is as `s` is for the group, and has no other handles but the root. -/
def Beside (m : Mount) (P : NodePtr → Bool) (s t : VfsState) : Prop :=
  ∃ T U, Shows m s T ∧ Shows m t U ∧ T.Alone P m.rootNode U

section
variable {M : ModuleCbs} {m : Mount} {P : NodePtr → Bool} {s s' t : VfsState} {x : Event} {f : Forest} {r : Addr} {d : DataPack}
  {node : NodePtr}

theorem Beside.step_own (h : Beside m P s t) (hown : x.own P) (hin : x.call.StaysIn P m.rootNode)
    (hx : s.EventStep M x s') : ∃ t', t.EventStep M x t' ∧ Beside m P s' t' := by
  obtain ⟨T, U, hs, ht, halone⟩ := h
  obtain ⟨T', hT', hs'⟩ := hs.table_step hx
  obtain ⟨U', hU', halone'⟩ := halone.step_own hown hin hT'
  obtain ⟨t', hstep, ht'⟩ := ht.driver_step hU'
  exact ⟨t', hstep, T', U', hs', ht', halone'⟩

theorem Beside.step_other (h : Beside m P s t) (hother : ¬ x.own P) (hx : s.EventStep M x s') : Beside m P s' t := by
  obtain ⟨T, U, hs, ht, halone⟩ := h
  obtain ⟨T', hT', hs'⟩ := hs.table_step hx
  exact ⟨T', U, hs', ht, halone.step_other hother hT'⟩

theorem beside_mounted (h : s.Mounted f r d) : Beside h.mount P s s := by
  have hs := shows_mounted h
  refine ⟨_, _, hs, hs, rfl, fun x hx => .inl ?_⟩
  obtain ⟨r', hr', -⟩ := Option.map_eq_some_iff.1 hs.root
  obtain ⟨hmem, hnode⟩ := Table.mem_of_find hr'
  rw [List.mem_singleton] at hx hmem
  rw [hx, ← hmem]
  exact hnode

theorem Beside.handleOf (h : Beside m P s t) (hown : P node) : t.handleOf node = s.handleOf node := by
  obtain ⟨T, U, hs, ht, halone⟩ := h
  rw [hs.handleOf, ht.handleOf, Table.find_eq_of_view halone.view hown]

end

end VitaUtility.VfsMountOld

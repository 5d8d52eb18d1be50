import Mathlib.Data.List.Find
import VitaUtility.Lib.DoublyLinked
import VitaUtility.Lib.Run
import VitaUtility.VfsMountOld.State

/-!
# The list of open objects (`item_mgr.c`)

The kernel calls `init_patch` for a new object and `free_patch` for one that it deletes; they keep the objects in a
doubly linked list with the newest first, in which `getFileEntryByNode` looks for the object of a vnode.
-/

namespace VitaUtility.VfsMountOld
open Dmass (Addr NodePtr Store Fault modifyAt relink lookup_relink lookup_relink_erase lookup_insert_ite lookup_erase_ite)

/-- What `sceKernelCreateUidObj` answers: a UID or an error, and the object it has created. -/
structure UidAnswer where
  res : Int32
  obj : Addr

namespace VfsState
variable (s : VfsState)

def initPatch (pNewObject : Addr) : Except Fault VfsState := do
  let s := { s with packs := s.packs.insert pNewObject {} }
  let s ← match s.lastObj with
    | none => .ok s
    | some a => s.modPack a fun d => { d with prev := some pNewObject }
  let s ← s.modPack pNewObject fun d => { d with next := s.lastObj }
  return { s with lastObj := some pNewObject }

def freePatch (pDelObject : Addr) : Except Fault VfsState := do
  let d ← s.pack pDelObject
  let s ← match d.prev with
    | none => .ok { s with lastObj := d.next }
    | some a => s.modPack a fun x => { x with next := d.next }
  match d.next with
  | none => return s
  | some a => s.modPack a fun x => { x with prev := d.prev }

/-- The body of the loop: is `LastObj` the object of the node, and where does its `next` point? -/
def peekNode (node : Option NodePtr) (lastObj : Addr) : Except Fault (Bool × Option Addr) := do
  let d ← s.pack lastObj
  return (d.node = node, d.next)

def getFileEntryByNode (node : Option NodePtr) : Except Fault (Option Addr) := do
  match ← findLink (s.peekNode node) .hang s.packs.keys.card none s.lastObj with
  | none => return none
  | some (_, a) => return some a

/-- The result, and `*ppDataPackForSystem` if it is written. -/
def createFileItem (node : Option NodePtr) (k : UidAnswer) : Except Fault (Int32 × Option Addr × VfsState) := do
  if k.res < 0 then return (k.res, none, s)
  let s ← s.initPatch k.obj
  let s ← s.modPack k.obj fun d => { d with uid := k.res, node := node }
  return (0, some k.obj, s)

/-- What the kernel does to delete an object. -/
def deleteUid (pDelObject : Addr) : Except Fault VfsState := do
  let s ← s.freePatch pDelObject
  return { s with packs := s.packs.erase pDelObject }

end VfsState

/-- A creation or a deletion of an object. -/
inductive ItemOp where
  | create (node : Option NodePtr) (k : UidAnswer)
  | delete (obj : Addr)

namespace VfsState

def itemStep (s : VfsState) : ItemOp → Except Fault VfsState
  | .create node k => return (← s.createFileItem node k).2.2
  | .delete obj => s.deleteUid obj

def itemRun (s : VfsState) (ops : List ItemOp) : Except Fault VfsState := ops.foldlM itemStep s

end VfsState

/-! ### The objects there are -/

/-- What an operation does to the objects there are, newest first, with their nodes: the kernel gives a new object a
block that no other has, and deletes one there is. -/
inductive LiveStep : List (Addr × Option NodePtr) → ItemOp → List (Addr × Option NodePtr) → Prop
  | create {live} {node : Option NodePtr} {k : UidAnswer} : 0 ≤ k.res → k.obj ∉ live.map Prod.fst →
    LiveStep live (.create node k) ((k.obj, node) :: live)
  | refused {live} {node : Option NodePtr} {k : UidAnswer} : k.res < 0 → LiveStep live (.create node k) live
  | delete {newer older} {x : Addr × Option NodePtr} : LiveStep (newer ++ x :: older) (.delete x.1) (newer ++ older)

namespace VfsState
variable (s : VfsState)

def next? (a : Addr) : Option (Option Addr) := (s.packs.lookup a).map (·.next)
def prev? (a : Addr) : Option (Option Addr) := (s.packs.lookup a).map (·.prev)

/-- The links spell out the list of the objects there are. -/
structure Items (live : List (Addr × Option NodePtr)) : Prop where
  linked : DList s.next? s.prev? none s.lastObj (live.map Prod.fst)
  node : ∀ x ∈ live, ∃ d, s.packs.lookup x.1 = some d ∧ d.node = x.2

variable {s} {s' : VfsState} {live newer older : List (Addr × Option NodePtr)} {node : Option NodePtr} {k : UidAnswer} {a b : Addr}
  {d : DataPack} {x : Addr × Option NodePtr} {op : ItemOp} {ops : List ItemOp}

theorem next?_eq (h : s.packs.lookup a = some d) : s.next? a = some d.next := congrArg _ h

theorem prev?_eq (h : s.packs.lookup a = some d) : s.prev? a = some d.prev := congrArg _ h

theorem Items.lookup (h : s.Items live) (ha : a ∈ live.map Prod.fst) : ∃ d, s.packs.lookup a = some d := by
  obtain ⟨x, hx, rfl⟩ := List.mem_map.1 ha
  obtain ⟨d, hd, -⟩ := h.node x hx
  exact ⟨d, hd⟩

/-- The objects other than `x`. -/
theorem Items.lookup_rest (h : s.Items (newer ++ x :: older)) (hb : b ∈ newer.map Prod.fst ++ older.map Prod.fst) :
    ∃ d, s.packs.lookup b = some d := by
  refine h.lookup ?_
  rw [List.map_append, List.map_cons]
  rcases List.mem_append.1 hb with hb | hb <;> simp [hb]

theorem Items.nodup (h : s.Items live) : (live.map Prod.fst).Nodup := h.linked.chain.nodup

/-- The new object is the first, and the one that was first leads back to it. -/
theorem createFileItem_eq (h : s.Items live) (hres : 0 ≤ k.res) (hobj : k.obj ∉ live.map Prod.fst) :
    ∃ s', s.createFileItem node k = .ok (0, some k.obj, s') ∧ s'.entries = s.entries ∧ s'.rootNode = s.rootNode ∧
      s'.lastObj = some k.obj ∧ s'.packs.lookup k.obj = some { next := s.lastObj, uid := k.res, node := node } ∧
      ∀ b, b ≠ k.obj → s'.packs.lookup b =
        if s.lastObj = some b then (s.packs.lookup b).map fun d => { d with prev := some k.obj } else s.packs.lookup b := by
  unfold createFileItem initPatch
  rw [if_neg (Int32.not_lt.2 hres)]
  cases hlast : s.lastObj with
  | none =>
    simp only [modPack, ok_bind, pure_bind, lookup_insert_ite, if_true]
    exact ⟨_, rfl, rfl, rfl, rfl, by simp, fun b hb => by simp [hb]⟩
  | some a =>
    have hmem : a ∈ live.map Prod.fst := List.mem_of_head? (h.linked.head.symm.trans hlast)
    have hne : a ≠ k.obj := fun hab => hobj (hab ▸ hmem)
    obtain ⟨d, hd⟩ := h.lookup hmem
    simp only [modPack, ok_bind, pure_bind, lookup_insert_ite, if_neg hne, if_neg hne.symm, hd, if_true]
    refine ⟨_, rfl, rfl, rfl, rfl, by simp, fun b hb => ?_⟩
    by_cases hba : b = a
    · rw [hba, hd]
      simp [hne]
    · simp [hb, hba, Ne.symm hba]

theorem Items.create (h : s.Items live) (hres : 0 ≤ k.res) (hobj : k.obj ∉ live.map Prod.fst) :
    ∃ s', s.itemStep (.create node k) = .ok s' ∧ s'.Items ((k.obj, node) :: live) := by
  obtain ⟨s', hrun, -, -, hlast, hself, hother⟩ := @createFileItem_eq s live node k h hres hobj
  have hne : ∀ b ∈ live.map Prod.fst, b ≠ k.obj := fun b hb hbk => hobj (hbk ▸ hb)
  refine ⟨s', by rw [itemStep, hrun]; rfl, ?_, ?_⟩
  · rw [hlast]
    refine h.linked.push (next?_eq hself) (prev?_eq hself) (fun b hb => ?_) fun b hb => ?_
    · obtain ⟨d, hd⟩ := h.lookup hb
      unfold next?
      rw [hother b (hne b hb), hd]
      split <;> rfl
    · obtain ⟨d, hd⟩ := h.lookup hb
      unfold prev?
      rw [hother b (hne b hb), h.linked.head, hd]
      split <;> rfl
  · rintro x (- | ⟨-, hx⟩)
    · exact ⟨_, hself, rfl⟩
    · obtain ⟨d, hd, hnode⟩ := h.node x hx
      rw [hother x.1 (hne _ (List.mem_map_of_mem hx)), hd]
      split
      · exact ⟨_, rfl, hnode⟩
      · exact ⟨d, rfl, hnode⟩

/-- The links on both sides of a deleted object are led past it. -/
theorem freePatch_eq (hd : s.packs.lookup a = some d) (hprev : ∀ b, d.prev = some b → ∃ x, s.packs.lookup b = some x)
    (hnext : ∀ b, d.next = some b → ∃ x, s.packs.lookup b = some x) : s.freePatch a = .ok { s with
      packs := relink (fun q x => { x with prev := q }) (relink (fun q x => { x with next := q }) s.packs d.prev d.next)
        d.next d.prev
      lastObj := if d.prev = none then d.next else s.lastObj } := by
  unfold freePatch pack
  rw [hd, ok_bind]
  cases hp : d.prev with
  | none =>
    cases hn : d.next with
    | none => rfl
    | some b =>
      obtain ⟨x, hx⟩ := hnext b hn
      simp only [ok_bind, modPack, hx, relink, modifyAt]
      rfl
  | some c =>
    obtain ⟨y, hy⟩ := hprev c hp
    cases hn : d.next with
    | none =>
      simp only [ok_bind, modPack, hy, relink, modifyAt]
      rfl
    | some b =>
      obtain ⟨x, hx⟩ := hnext b hn
      simp only [ok_bind, modPack, hy, relink, modifyAt, lookup_insert_ite, hx]
      by_cases hbc : b = c
      · simp only [if_pos hbc]
        rfl
      · simp only [if_neg hbc]
        rfl

/-- Where the links around a deleted object lead. -/
theorem deleteUid_eq (h : s.Items (newer ++ x :: older)) : ∃ s', s.deleteUid x.1 = .ok s' ∧
    s'.entries = s.entries ∧ s'.rootNode = s.rootNode ∧ s'.lastObj = (newer.map Prod.fst ++ older.map Prod.fst).head? ∧
    s'.packs.lookup x.1 = none ∧ ∀ b, b ≠ x.1 → s'.packs.lookup b = (s.packs.lookup b).map fun d => { d with
      next := if (newer.map Prod.fst).getLast? = some b then (older.map Prod.fst).head? else d.next
      prev := if (older.map Prod.fst).head? = some b then (newer.map Prod.fst).getLast? else d.prev } := by
  have hlinked := h.linked
  have hnd := h.nodup
  rw [List.map_append, List.map_cons] at hlinked hnd
  rw [List.nodup_middle, List.nodup_cons] at hnd
  have hlive : ∀ b ∈ newer.map Prod.fst ++ older.map Prod.fst, ∃ y, s.packs.lookup b = some y :=
    fun b hb => h.lookup_rest hb
  obtain ⟨d, hd⟩ : ∃ d, s.packs.lookup x.1 = some d := h.lookup (by simp)
  have hnext : d.next = (older.map Prod.fst).head? :=
    Option.some.inj ((next?_eq hd).symm.trans hlinked.nxt_eq)
  have hprev : d.prev = (newer.map Prod.fst).getLast? := by
    have := Option.some.inj ((prev?_eq hd).symm.trans hlinked.prv_eq)
    simpa using this
  have hfree := freePatch_eq hd
    (fun b hb => hlive b (List.mem_append_left _ (List.mem_of_getLast? (hprev.symm.trans hb))))
    fun b hb => hlive b (List.mem_append_right _ (List.mem_of_head? (hnext.symm.trans hb)))
  refine ⟨_, by rw [deleteUid, hfree]; rfl, ?_, ?_, ?_, ?_, fun b hb => ?_⟩
  · rfl
  · rfl
  · show (if d.prev = none then d.next else s.lastObj) = _
    rw [hprev, hnext, hlinked.head]
    cases newer <;> simp
  · rw [lookup_relink_erase, if_pos rfl]
  · rw [lookup_relink_erase, if_neg hb, lookup_relink, hprev, hnext]
    cases s.packs.lookup b with
    | none => split_ifs <;> rfl
    | some y => split_ifs <;> simp [*]

theorem Items.delete (h : s.Items (newer ++ x :: older)) :
    ∃ s', s.itemStep (.delete x.1) = .ok s' ∧ s'.Items (newer ++ older) := by
  obtain ⟨s', hrun, -, -, hlast, -, hlookup⟩ := deleteUid_eq h
  have hlinked := h.linked
  have hnd := h.nodup
  rw [List.map_append, List.map_cons] at hlinked hnd
  rw [List.nodup_middle, List.nodup_cons] at hnd
  have hne : ∀ b ∈ newer.map Prod.fst ++ older.map Prod.fst, b ≠ x.1 := fun b hb => ne_of_mem_of_not_mem hb hnd.1
  refine ⟨s', hrun, ?_, fun y hy => ?_⟩
  · rw [hlast, List.map_append]
    refine hlinked.unlink (fun b hb => ?_) fun b hb => ?_
    · obtain ⟨d, hd⟩ := h.lookup_rest hb
      unfold next?
      rw [hlookup b (hne b hb), hd]
      simp only [Option.map_some]
      split <;> rfl
    · obtain ⟨d, hd⟩ := h.lookup_rest hb
      unfold prev?
      rw [hlookup b (hne b hb), hd, Option.or_none]
      simp only [Option.map_some]
      split <;> rfl
  · obtain ⟨d, hd, hnode⟩ := h.node y (by simp at hy ⊢; tauto)
    have hmem := List.mem_map_of_mem (f := Prod.fst) hy
    rw [List.map_append] at hmem
    exact ⟨_, (hlookup y.1 (hne _ hmem)).trans (congrArg _ hd), hnode⟩

theorem Items.step (h : s.Items live) {live' : List (Addr × Option NodePtr)} (hstep : LiveStep live op live') :
    ∃ s', s.itemStep op = .ok s' ∧ s'.Items live' := by
  cases hstep with
  | create hres hobj => exact h.create hres hobj
  | refused hres =>
    refine ⟨s, ?_, h⟩
    rw [itemStep, createFileItem, if_pos hres]
    rfl
  | delete => exact h.delete

theorem items_init {rootNode : Option NodePtr} : (init rootNode).Items [] := ⟨rfl, nofun⟩

theorem items_run (rootNode : Option NodePtr) (h : Run LiveStep [] ops live) :
    ∃ s, (init rootNode).itemRun ops = .ok s ∧ s.Items live := by
  induction h with
  | nil => exact ⟨_, rfl, items_init⟩
  | snoc _ hstep ih =>
    obtain ⟨s, hrun, hs⟩ := ih
    obtain ⟨s', hstep', hs'⟩ := hs.step hstep
    refine ⟨s', ?_, hs'⟩
    rw [itemRun] at hrun ⊢
    rw [List.foldlM_append, hrun, ok_bind, List.foldlM_cons, hstep', ok_bind]
    rfl

/-- The loop finds the newest object of the node. -/
theorem Items.getFileEntryByNode (h : s.Items live) :
    s.getFileEntryByNode node = .ok ((live.find? fun x => x.2 = node).map Prod.fst) := by
  have hfind : findLink (s.peekNode node) .hang s.packs.keys.card none s.lastObj =
      .ok (linkOf (fun a => (s.packs.lookup a).any fun d => d.node = node) none (live.map Prod.fst)) := by
    refine findLink_chain h.linked.chain (fun a ha q hq => ?_) (Chain.length_le h.linked.chain fun a ha => ?_)
    · obtain ⟨d, hd, rfl⟩ := Option.map_eq_some_iff.1 hq
      rw [peekNode, pack, hd]
      rfl
    · obtain ⟨d, hd⟩ := h.lookup ha
      exact Finmap.mem_keys.2 (Finmap.mem_iff.2 ⟨d, hd⟩)
  -- the object of a cell is the one there is
  have hlist : (live.map Prod.fst).find? (fun a => (s.packs.lookup a).any fun d => d.node = node) =
      (live.find? fun x => x.2 = node).map Prod.fst := by
    rw [List.find?_map]
    refine congrArg _ (List.find?_congr fun x hx => ?_)
    obtain ⟨d, hd, hnode⟩ := h.node x hx
    simp [hd, hnode]
  have hsnd := @linkOf_snd _ (fun a => (s.packs.lookup a).any fun d => d.node = node) none (live.map Prod.fst)
  rw [VfsState.getFileEntryByNode, hfind, ok_bind, ← hlist, ← hsnd]
  cases linkOf (fun a => (s.packs.lookup a).any fun d => d.node = node) none (live.map Prod.fst) with
  | none => rfl
  | some y => rfl

/-- The list depends on the nodes and the links only. -/
theorem Items.congr (h : s.Items live) (hpack : ∀ b, (s'.packs.lookup b).map (fun d => (d.node, d.next, d.prev)) =
    (s.packs.lookup b).map fun d => (d.node, d.next, d.prev)) (hlast : s'.lastObj = s.lastObj) : s'.Items live := by
  have hnext : s'.next? = s.next? := by
    funext b
    have hb := congrArg (Option.map fun x => x.2.1) (hpack b)
    rwa [Option.map_map, Option.map_map] at hb
  have hprev : s'.prev? = s.prev? := by
    funext b
    have hb := congrArg (Option.map fun x => x.2.2) (hpack b)
    rwa [Option.map_map, Option.map_map] at hb
  refine ⟨?_, fun x hx => ?_⟩
  · rw [hnext, hprev, hlast]
    exact h.linked
  · obtain ⟨d, hd, hnode⟩ := h.node x hx
    have hb := hpack x.1
    rw [hd, Option.map_some, Option.map_eq_some_iff] at hb
    obtain ⟨d', hd', heq⟩ := hb
    exact ⟨d', hd', (congrArg Prod.fst heq).trans hnode⟩

/-- What is found depends on the nodes and the links only. -/
theorem getFileEntryByNode_congr
    (hpack : ∀ b, (s'.packs.lookup b).map (fun d => (d.node, d.next)) = (s.packs.lookup b).map fun d => (d.node, d.next))
    (hlast : s'.lastObj = s.lastObj) : s'.getFileEntryByNode node = s.getFileEntryByNode node := by
  have hpeek : s'.peekNode node = s.peekNode node := by
    funext b
    have hb := hpack b
    rw [peekNode, peekNode, pack, pack]
    cases hs : s.packs.lookup b with
    | none =>
      rw [hs, Option.map_none, Option.map_eq_none_iff] at hb
      rw [hb]
    | some d =>
      rw [hs, Option.map_some, Option.map_eq_some_iff] at hb
      obtain ⟨d', hd', heq⟩ := hb
      obtain ⟨hnode, hnext⟩ := Prod.mk.inj heq
      rw [hd']
      simp only [ok_bind, hnode, hnext]
  have hkeys : s'.packs.keys = s.packs.keys := by
    ext b
    have hb := congrArg Option.isSome (hpack b)
    rw [Option.isSome_map, Option.isSome_map] at hb
    rw [Finmap.mem_keys, Finmap.mem_keys, ← Finmap.lookup_isSome, ← Finmap.lookup_isSome, hb]
  rw [VfsState.getFileEntryByNode, VfsState.getFileEntryByNode, hpeek, hkeys, hlast]

/-- After any creations and deletions the list has the objects there are, newest first, with `prev` the mirror image of
`next`, and the object found for a node is the newest. -/
theorem items_list (rootNode : Option NodePtr) (ops : List ItemOp) (live : List (Addr × Option NodePtr))
    (h : Run LiveStep [] ops live) : ∃ s, (init rootNode).itemRun ops = .ok s ∧
      Chain s.next? s.lastObj (live.map Prod.fst) ∧ (live.map Prod.fst).Nodup ∧
      (∀ a ∈ live.map Prod.fst, ∀ b ∈ live.map Prod.fst, s.next? a = some (some b) ↔ s.prev? b = some (some a)) ∧
      (∀ a ∈ live.map Prod.fst, s.prev? a = some none ↔ s.lastObj = some a) ∧
      ∀ node, s.getFileEntryByNode node = .ok ((live.find? fun x => x.2 = node).map Prod.fst) := by
  obtain ⟨s, hrun, hs⟩ := items_run rootNode h
  exact ⟨s, hrun, hs.linked.chain, hs.nodup, fun a ha b hb => hs.linked.mirror ha hb,
    fun a ha => hs.linked.prv_none ha, fun _ => hs.getFileEntryByNode⟩

/-- Three objects, of which the second is deleted. -/
theorem items_list_middle : ∃ s, (init none).itemRun [.create (some 7) ⟨1, 0x10⟩, .create (some 8) ⟨2, 0x20⟩,
    .create (some 7) ⟨3, 0x30⟩, .delete 0x20] = .ok s ∧ Chain s.next? s.lastObj [0x30, 0x10] ∧
    s.getFileEntryByNode (some 7) = .ok (some 0x30) := by
  have hrun : Run LiveStep [] [.create (some 7) ⟨1, 0x10⟩, .create (some 8) ⟨2, 0x20⟩, .create (some 7) ⟨3, 0x30⟩,
      .delete 0x20] [(0x30, some 7), (0x10, some 7)] :=
    .cons (.create (by decide) (by decide)) (.cons (.create (by decide) (by decide))
      (.cons (.create (by decide) (by decide)) (.cons (@LiveStep.delete [(0x30, some 7)] [(0x10, some 7)] (0x20, some 8))
        (.nil _))))
  obtain ⟨s, hs, hchain, -, -, -, hnode⟩ := items_list none _ _ hrun
  exact ⟨s, hs, hchain, hnode (some 7)⟩

end VfsState

end VitaUtility.VfsMountOld

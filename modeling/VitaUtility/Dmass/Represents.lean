import VitaUtility.Dmass.Content
import VitaUtility.Dmass.Lookup

/-!
# The driver as a file system of paths

The state of the driver represents a map from paths to directories and files when its tree is well formed and each
entry holds what the map has at its path; the vnodes in use stand for the paths of their entries. `Asks` says what
SceIofilemgr asks for by each call, and what it takes care of before it makes the call.
-/

namespace VitaUtility.Dmass
open VfsState

variable {s s' : VfsState} {k : Answers} {r : Int} {a b d e : Addr} {u v w : NodePtr} {f : FapsDmassFs} {c : CStr}
  {p cs : List CStr} {x : PathNode FilePtr UInt8} {n : SceVfsNode}

/-- What the driver is to SceIofilemgr. -/
abbrev FileSys := PathFs CStr FilePtr UInt8 NodePtr

/-! ### Calls with all that they hand back -/

def VopCall.answer (s : VfsState) : VopCall → Except Fault (Int × Option NodePtr × List UInt8 × VfsState)
  | .create k argp => (vopCreate k argp s).map fun x => (x.1, x.2.1, [], x.2.2)
  | .lookup k argp => (vopPartInit k argp s).map fun x => (x.1, x.2.1, [], x.2.2)
  | .mkdir k argp => (vopMkdir k argp s).map fun x => (x.1, x.2.1, [], x.2.2)
  | .rename k argp => (vopRename k argp s).map fun x => (x.1, x.2.1, [], x.2.2)
  | call => (call.execOut s).map fun x => (x.1, none, x.2.1, x.2.2)

theorem answer_exec (call : VopCall) : (call.answer s).map (fun x => (x.1, x.2.2.2)) = call.exec s := by
  cases call with
  | create k argp =>
    show ((vopCreate k argp s).map _).map _ = dropOut (vopCreate k argp s)
    cases vopCreate k argp s <;> rfl
  | lookup k argp =>
    show ((vopPartInit k argp s).map _).map _ = dropOut (vopPartInit k argp s)
    cases vopPartInit k argp s <;> rfl
  | mkdir k argp =>
    show ((vopMkdir k argp s).map _).map _ = dropOut (vopMkdir k argp s)
    cases vopMkdir k argp s <;> rfl
  | rename k argp =>
    show ((vopRename k argp s).map _).map _ = dropOut (vopRename k argp s)
    cases vopRename k argp s <;> rfl
  | _ =>
    rw [← dropOut_execOut]
    show ((VopCall.execOut s _).map _).map _ = _
    cases VopCall.execOut s _ <;> rfl

/-- Errors are negative. -/
def fsReply (r : Int) (node : Option NodePtr) (out : List UInt8) : FsReply UInt8 NodePtr :=
  if r < 0 then none else some (r.toNat, node, out)

theorem fsReply_neg {node : Option NodePtr} {out : List UInt8} (hr : r < 0) : fsReply r node out = none := if_pos hr

/-- All calls in turn, with what each hands back; a fault ends the run. -/
def runAnswers : List VopCall → VfsState → Except Fault (List (FsReply UInt8 NodePtr) × VfsState)
  | [], s => .ok ([], s)
  | call :: calls, s => do
    let (r, node, out, t) ← call.answer s
    let (rs, u) ← runAnswers calls t
    return (fsReply r node out :: rs, u)

/-! ### Calls that keep the tree -/

/-- The links, names and kinds of all entries are the same. -/
structure SameTree (s s' : VfsState) : Prop where
  pTree : s'.pTree = s.pTree
  links : ∀ b, s'.view linkView b = s.view linkView b
  labels : ∀ b, s'.view labelView b = s.view labelView b

namespace SameTree

theorem child_iff (h : SameTree s s') {x : Option Addr} : s'.child x a ↔ s.child x a := child_of_view h.pTree h.links

theorem graph (h : SameTree s s') : nameGraph s' = nameGraph s := by
  unfold nameGraph
  congr 1
  · funext x a
    exact propext h.child_iff
  · funext b
    exact nameOf_of_labelView (h.labels b)

theorem mem_keys (h : SameTree s s') : b ∈ s'.entries.keys ↔ b ∈ s.entries.keys := by
  have hsome : ∀ t : VfsState, b ∈ t.entries.keys ↔ (t.view linkView b).isSome := by
    intro t
    rw [mem_keys_iff, view, Option.isSome_map, Option.isSome_iff_exists]
  rw [hsome, hsome, h.links]

theorem wellFormed (h : SameTree s s') (hW : WellFormed s) : WellFormed s' := by
  refine ⟨hW.lists.of_view h.pTree h.links, fun x a b => ?_, fun x a => ?_, fun d f a ho hf ha => ?_⟩
  · rw [h.graph, h.child_iff, h.child_iff, nameOf_of_labelView (h.labels a), nameOf_of_labelView (h.labels b)]
    exact hW.sib x a b
  · rw [h.graph, h.child_iff, nameOf_of_labelView (h.labels a)]
    exact hW.named x a
  · rw [h.graph] at ho
    obtain ⟨g, hg, hmode⟩ := mode_of_labelView (h.labels d) hf
    rw [← hmode]
    exact hW.dirs d g a ho hg (h.child_iff.1 ha)

theorem allReachable (h : SameTree s s') (hA : AllReachable s) : AllReachable s' := by
  have hgraph : ptrGraph s' = ptrGraph s := by
    unfold ptrGraph
    congr 1
    funext x a
    exact propext h.child_iff
  intro b hb
  unfold Reachable
  rw [hgraph]
  exact hA b (h.mem_keys.1 hb)

end SameTree

theorem OnlyEntry.sameTree {f' : FapsDmassFs} {h : FilePtr} (hO : OnlyEntry s s' v e f f' h)
    (hf : s.entries.lookup e = some f) : SameTree s s' :=
  ⟨hO.pTree, hO.view hf hO.links, hO.view hf hO.labels⟩

/-! ### The invariant -/

structure Represents (s : VfsState) (A : FileSys) : Prop where
  form : WellFormed s
  reach : AllReachable s
  /-- the back pointer of an entry, when it has one, is one of its vnodes -/
  back : ∀ e w, s.pNodeOf e = some w → s.devInfo w = some e
  live : ∀ v e, s.devInfo v = some e → e ∈ s.entries.keys
  mount : ∃ m, ∀ v n, s.vnodes.lookup v = some n → n.devInfo ≠ none → n.mount = some m
  map : PathFs.Depicts (nameGraph s) (EntryHolds s) s.devInfo A

variable {A : FileSys}

theorem WellFormed.names_walk (h : WellFormed s) (hw : (nameGraph s).Walk none cs (some e)) :
    ∀ c ∈ cs, IsName c := by
  induction cs using List.reverseRecOn generalizing e with
  | nil => nofun
  | append_singleton cs c ih =>
    obtain ⟨y, a, hy, ha, hc, -⟩ := DirGraph.Walk_snoc.1 hw
    obtain ⟨c', hc', hname⟩ := h.named y a ⟨cs, hy⟩ ha
    obtain rfl := Option.some.inj (hc'.symm.trans hc)
    intro b hb
    rcases List.mem_append.1 hb with hb | hb
    · cases y with
      | none =>
        cases cs using List.reverseRecOn with
        | nil => cases hb
        | append_singleton cs c =>
          obtain ⟨_, _, _, _, _, hnone⟩ := DirGraph.Walk_snoc.1 hy
          cases hnone
      | some d => exact ih hy b hb
    · rwa [List.mem_singleton.1 hb]

namespace Represents

/-- A vnode that stands for a path. -/
theorem node (h : Represents s A) (hu : A.nodes u = some p) : ∃ n d, s.vnodes.lookup u = some n ∧
    n.devInfo = some d ∧ n.mount ≠ none ∧ (nameGraph s).Walk none p (some d) := by
  obtain ⟨d, hd, hw⟩ := (h.map.nodes u p).1 hu
  obtain ⟨n, hn, hnd⟩ := devInfo_eq_some.1 hd
  obtain ⟨m, hm⟩ := h.mount
  refine ⟨n, d, hn, hnd, ?_, hw⟩
  rw [hm u n hn (by rw [hnd]; nofun)]
  nofun

theorem names (h : Represents s A) (hw : (nameGraph s).Walk none p (some e)) (hc : IsName c) :
    ∀ c' ∈ p ++ [c], IsName c' := by
  intro c' hc'
  rcases List.mem_append.1 hc' with hc' | hc'
  · exact h.form.names_walk hw c' hc'
  · rwa [List.mem_singleton.1 hc']

/-- What a path of names resolves to. -/
theorem resolves (h : Represents s A) (hn : ∀ c ∈ cs, IsName c) (hx : A.find cs = some x) :
    ∃ e, Resolves s (some (pathStr cs)) e ∧ (nameGraph s).Walk none cs (some e) ∧ EntryHolds s e x := by
  obtain ⟨e, hw, he⟩ := h.map.of_find hx
  exact ⟨e, (h.form.resolves_pathStr hn).2 hw, hw, he⟩

theorem fails (h : Represents s A) (hn : ∀ c ∈ cs, IsName c) (hx : A.find cs = none) :
    ∃ res < 0, getFsEntry (some (pathStr cs)) s = .ok (.error res) := by
  have hf : Fails s (some (pathStr cs)) := by
    rw [h.form.fails_iff]
    intro e he
    exact h.map.find_eq_none.1 hx e ((h.form.resolves_pathStr hn).1 he)
  obtain ⟨res, hres⟩ := hf
  exact ⟨res, getFsEntry_neg hres, hres⟩

theorem holds (h : Represents s A) (hw : (nameGraph s).Walk none p (some e)) (hx : A.find p = some x) :
    EntryHolds s e x := by
  obtain ⟨y, hy, he⟩ := h.map.found p e hw
  obtain rfl := Option.some.inj (hy.symm.trans hx)
  exact he

theorem holds_live (h : Represents s A) (hw : (nameGraph s).Walk none p (some e)) :
    ∃ f, s.entries.lookup e = some f := by
  obtain ⟨x, -, hx⟩ := h.map.found p e hw
  exact hx.live

theorem child (h : Represents s A) (hd : (nameGraph s).Walk none p (some d))
    (hw : (nameGraph s).Walk none (p ++ [c]) (some e)) : s.child (some d) e := by
  obtain ⟨y, a, hy, ha, -, hea⟩ := DirGraph.Walk_snoc.1 hw
  obtain rfl := Option.some.inj hea
  obtain rfl := h.form.isTree.walk_unique DirGraph.Open_none hd hy
  exact ha

/-- An entry without children is a leaf of the map. -/
theorem leaf_iff (h : Represents s A) (hw : (nameGraph s).Walk none p (some e)) :
    A.Leaf p ↔ ∀ a, ¬ s.child (some e) a := by
  constructor
  · intro hleaf a ha
    obtain ⟨c, hc, -⟩ := h.form.named (some e) a ⟨p, hw⟩ ha
    exact h.map.find_eq_none.1 (hleaf c) a (DirGraph.Walk_snoc.2 ⟨some e, a, hw, ha, hc, rfl⟩)
  · intro hno c
    refine h.map.absent _ fun a ha => hno a ?_
    exact h.child hw ha

/-- Some number is the vnode of no path. -/
theorem exists_unused (h : Represents s A) : ∃ w, A.nodes w = none := by
  refine ⟨(above s.nodesInUse).1, ?_⟩
  by_contra hne
  obtain ⟨p, hp⟩ := Option.ne_none_iff_exists'.1 hne
  obtain ⟨a, ha, -⟩ := (h.map.nodes _ p).1 hp
  rw [devInfo_eq_none_of_unused (above s.nodesInUse).2] at ha
  cases ha

theorem unused (h : Represents s A) (hw : w ∉ s.nodesInUse) : A.nodes w = none := by
  by_contra hne
  obtain ⟨p, hp⟩ := Option.ne_none_iff_exists'.1 hne
  obtain ⟨a, ha, -⟩ := (h.map.nodes w p).1 hp
  rw [devInfo_eq_none_of_unused hw] at ha
  cases ha

end Represents

/-! ### What SceIofilemgr asks for -/

/-- Allocations succeed, and there are vnodes. -/
structure Plenty (k : Answers) : Prop where
  mallocs : k.mallocs
  nodes : ∀ L, (k.newNode L).isOk
  wait : 0 ≤ k.waitEventFlag

theorem Plenty.made (hk : Plenty k) (s : VfsState) : vnodeMade k s := ⟨hk.nodes _, hk.wait⟩

/-- The name `c` in the directory with the path `p`. -/
def fileIn (p : List CStr) (c : CStr) : SceVfsPath := ⟨c, some (pathStr (p ++ [c]))⟩

/-- Nothing is open through the vnode `v`. -/
def idleNode (s : VfsState) (A : FileSys) (v : NodePtr) : Prop :=
  ∀ p F h, A.find p = some (.file F) → 0 < F.opens h → (s.files h).node ≠ v

/-- The call, when the state `s` represents `A`, is one for `op`. The kernel passes the paths of the vnodes that it
works with; it creates in directories, looks up names that `check_name` takes, removes nothing that is in use, renames
to free paths in directories outside of what it renames, of which the driver knows a vnode, and uses a file through
its one vnode. -/
inductive Asks (s : VfsState) (A : FileSys) : VopCall → FsOp CStr FilePtr UInt8 NodePtr → Prop
  | create {k : Answers} {u : NodePtr} {p : List CStr} {c : CStr} (hk : Plenty k) (hu : A.nodes u = some p)
      (hdir : A.find p = some .dir) (hc : IsName c) : Asks s A (.create k ⟨u, fileIn p c⟩) (.create u c)
  | mkdir {k : Answers} {u : NodePtr} {p : List CStr} {c : CStr} (hk : Plenty k) (hu : A.nodes u = some p)
      (hc : IsName c) : Asks s A (.mkdir k ⟨u, fileIn p c⟩) (.mkdir u c)
  | lookup {k : Answers} {u : NodePtr} {p : List CStr} {c : CStr} (hk : Plenty k) (hu : A.nodes u = some p)
      (hc : IsName c) (hcheck : checkName c = 0) : Asks s A (.lookup k ⟨u, fileIn p c⟩) (.lookup u c)
  | remove {u : NodePtr} {p : List CStr} {c : CStr} (hu : A.nodes u = some p) (hc : IsName c)
      (hfree : ∀ F, A.find (p ++ [c]) = some (.file F) →
        (∀ h, F.opens h = 0) ∧ ∀ v, A.nodes v ≠ some (p ++ [c])) :
      Asks s A (.remove ⟨u, fileIn p c⟩) (.remove u c)
  | rmdir {u : NodePtr} {p : List CStr} {c : CStr} (hu : A.nodes u = some p) (hc : IsName c)
      (hfree : A.find (p ++ [c]) = some .dir → A.Leaf (p ++ [c]) → ∀ v, A.nodes v ≠ some (p ++ [c])) :
      Asks s A (.rmdir ⟨u, fileIn p c⟩) (.rmdir u c)
  | rename {k : Answers} {u node2 u' : NodePtr} {p p' q : List CStr} {c c' : CStr} (hk : Plenty k)
      (hu : A.nodes u = some p) (hu' : A.nodes u' = some p') (h2 : A.nodes node2 = some q) (hc : IsName c)
      (hc' : IsName c')
      (hmove : A.find (p ++ [c]) ≠ none → A.find p' = some .dir ∧
        (A.find (p' ++ [c']) = none ∨ p ++ [c] = p' ++ [c']) ∧ ¬ p ++ [c] <+: p' ∧
        ∀ e, Resolves s (fileIn p c).path e → s.pNodeOf e ≠ none) :
      Asks s A (.rename k ⟨u, node2, fileIn p c, u', fileIn p' c'⟩) (.rename u c u' c')
  | inactive {v : NodePtr} (hv : v ∈ s.vnodes.keys) (hidle : idleNode s A v) :
      Asks s A (.inactive ⟨some v⟩) (.inactive v)
  | io {call : VopCall} {v : NodePtr} {p : List CStr} {F : ArrayFile FilePtr UInt8} {op : FileOp FilePtr UInt8}
      (hv : A.nodes v = some p) (hx : A.find p = some (.file F)) (hsole : ∀ w, A.nodes w = some p → w = v)
      (hcall : arrayCall v F call) (hop : fileOp call = some op)
      (hnew : ∀ h atEnd, op = .open h atEnd → ∀ q G, A.find q = some (.file G) → q ≠ p → G.opens h = 0) :
      Asks s A call (.io v op)

/-- The call returns what `op` answers, and the state represents the file system after it. -/
def Serves (s : VfsState) (A : FileSys) (call : VopCall) (op : FsOp CStr FilePtr UInt8 NodePtr) : Prop :=
  ∃ r node out s' A', call.answer s = .ok (r, node, out, s') ∧ A.Step op (fsReply r node out) A' ∧ Represents s' A'

/-! ### A new vnode -/

/-- The vnode `w`, of no entry before, is one of `e` in `s'`, like those of the other entries. -/
structure Given (s s' : VfsState) (e : Addr) (w : NodePtr) (n : SceVfsNode) : Prop where
  unused : w ∉ s.nodesInUse
  vnodes : s'.vnodes = s.vnodes.insert w n
  dev : n.devInfo = some e
  mount : ∃ u m, s.vnodes.lookup u = some m ∧ m.devInfo ≠ none ∧ n.mount = m.mount
  files : s'.files = s.files
  links : LinksStep s s'

namespace Given

theorem devInfo (h : Given s s' e w n) (v : NodePtr) : s'.devInfo v = if v = w then some e else s.devInfo v :=
  devInfo_insert h.vnodes h.dev

theorem devInfo_old (h : Given s s' e w n) (hv : s.devInfo v = some b) : s'.devInfo v = some b := by
  have hvw : v ≠ w := by
    rintro rfl
    rw [devInfo_eq_none_of_unused h.unused] at hv
    cases hv
  rw [h.devInfo, if_neg hvw]
  exact hv

theorem attached (h : Given s s' e w n) : Attached s s' e w := by
  have hw : s'.devInfo w = some e := (h.devInfo w).trans (if_pos rfl)
  have hnone := devInfo_eq_none_of_unused h.unused
  rcases h.links with hsame | ⟨e', w', hat⟩
  · rw [hsame.devInfo, hnone] at hw
    cases hw
  · rw [hat.devInfo] at hw
    split at hw
    · subst w
      obtain rfl := Option.some.inj hw
      exact hat
    · rw [hnone] at hw
      cases hw

theorem back (h : Given s s' e w n) (hback : ∀ e w, s.pNodeOf e = some w → s.devInfo w = some e) :
    ∀ e w, s'.pNodeOf e = some w → s'.devInfo w = some e := by
  intro b v hv
  rw [h.attached.pNode] at hv
  split at hv
  · subst b
    obtain rfl := Option.some.inj hv
    exact (h.devInfo w).trans (if_pos rfl)
  · exact h.devInfo_old (hback b v hv)

theorem mount_all (h : Given s s' e w n)
    (hm : ∃ m, ∀ v n, s.vnodes.lookup v = some n → n.devInfo ≠ none → n.mount = some m) :
    ∃ m, ∀ v n, s'.vnodes.lookup v = some n → n.devInfo ≠ none → n.mount = some m := by
  obtain ⟨m, hm⟩ := hm
  refine ⟨m, fun v n' hn hdev => ?_⟩
  rw [h.vnodes, lookup_insert_ite] at hn
  split at hn
  · obtain rfl := Option.some.inj hn
    obtain ⟨u, m', hu, hdev', heq⟩ := h.mount
    exact heq.trans (hm u m' hu hdev')
  · exact hm v n' hn hdev

/-- What an entry holds, when the new vnode has its size. -/
theorem frame (h : Given s s' e w n) (hx : EntryHolds s b x) (hc : s'.view contentView b = s.view contentView b)
    (hsize : b = e → (∃ u m, s.vnodes.lookup u = some m ∧ m.devInfo = some e ∧ n.stSize = m.stSize) ∨
      ∀ f, s.entries.lookup e = some f → n.stSize = f.stat.stSize) : EntryHolds s' b x := by
  refine hx.frame hc (fun v n' hn he => ?_) fun F g _ _ hv => ⟨by rw [h.files], h.devInfo_old hv⟩
  rw [h.vnodes, lookup_insert_ite] at hn
  split at hn
  · obtain rfl := Option.some.inj hn
    obtain rfl := Option.some.inj (he.symm.trans h.dev)
    exact hsize rfl
  · exact .inl ⟨v, n', hn, he, rfl⟩

end Given

end VitaUtility.Dmass

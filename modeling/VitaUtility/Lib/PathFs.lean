import VitaUtility.Lib.ArrayFile
import VitaUtility.Lib.DirGraph
import VitaUtility.Lib.Run

/-!
# A file system as a map from paths

What a file system is to those who use it: paths lead to directories and files, and nodes (what a kernel keeps of
the entries it works with) stand for paths. An operation names an entry by a node of its directory and a component,
and reaches the content of a file through a node of it. A node follows its entry when that is moved.

A directory graph whose nodes hold the files depicts such a map (`Depicts`), and the updates of directory graphs
are updates of the map.
-/

namespace VitaUtility

inductive PathNode (η α : Type) where
  | dir
  | file (F : ArrayFile η α)

inductive FsOp (β η α ν : Type) where
  | create (u : ν) (c : β)
  | mkdir (u : ν) (c : β)
  | lookup (u : ν) (c : β)
  | remove (u : ν) (c : β)
  | rmdir (u : ν) (c : β)
  | rename (u : ν) (c : β) (u' : ν) (c' : β)
  | inactive (v : ν)
  | io (v : ν) (op : FileOp η α)

/-- The answer to an operation, with the node that is handed back and the elements read; `none` is a failure. -/
abbrev FsReply (α ν : Type) := Option (Nat × Option ν × List α)

structure PathFs (β η α ν : Type) where
  find : List β → Option (PathNode η α)
  nodes : ν → Option (List β)

section
variable {β γ : Type} [DecidableEq β] {old new p q : List β} {m : List β → Option γ}

/-- The map `m` with what is at `old` and below it taken to `new`. -/
def reroot (m : List β → Option γ) (old new p : List β) : Option γ :=
  if new <+: p then m (old ++ p.drop new.length) else if old <+: p then none else m p

/-- Where `p` is after the same move. -/
def follow (old new p : List β) : List β := if old <+: p then new ++ p.drop old.length else p

theorem reroot_append (q : List β) : reroot m old new (new ++ q) = m (old ++ q) := by
  unfold reroot
  rw [if_pos (List.prefix_append _ _), List.drop_left]

theorem reroot_other (hn : ¬ new <+: p) (ho : ¬ old <+: p) : reroot m old new p = m p := by
  unfold reroot
  rw [if_neg hn, if_neg ho]

theorem reroot_gone (hn : ¬ new <+: p) (ho : old <+: p) : reroot m old new p = none := by
  unfold reroot
  rw [if_neg hn, if_pos ho]

theorem follow_append (q : List β) : follow old new (old ++ q) = new ++ q := by
  unfold follow
  rw [if_pos (List.prefix_append _ _), List.drop_left]

theorem follow_other (ho : ¬ old <+: p) : follow old new p = p := if_neg ho

end

namespace PathFs
variable {β η α ν : Type} {A A' : PathFs β η α ν} {u v w : ν} {c c' : β} {p p' q : List β} {x : PathNode η α}
  {F : ArrayFile η α}

/-! ### Operations -/

section
variable [DecidableEq β] [DecidableEq ν]

def put (A : PathFs β η α ν) (p : List β) (x : Option (PathNode η α)) : PathFs β η α ν :=
  { A with find := Function.update A.find p x }

def bind (A : PathFs β η α ν) (v : ν) (p : Option (List β)) : PathFs β η α ν :=
  { A with nodes := Function.update A.nodes v p }

def move (A : PathFs β η α ν) (old new : List β) : PathFs β η α ν where
  find := reroot A.find old new
  nodes v := (A.nodes v).map (follow old new)

omit [DecidableEq ν] in
@[simp] theorem find_put (A : PathFs β η α ν) (p : List β) (x : Option (PathNode η α)) : (A.put p x).find p = x :=
  Function.update_self ..

omit [DecidableEq ν] in
theorem find_put_of_ne (A : PathFs β η α ν) (x : Option (PathNode η α)) (hq : q ≠ p) : (A.put p x).find q = A.find q :=
  Function.update_of_ne hq ..

omit [DecidableEq β] in
theorem nodes_bind_of_ne (A : PathFs β η α ν) (q : Option (List β)) (hv : v ≠ w) : (A.bind w q).nodes v = A.nodes v :=
  Function.update_of_ne hv ..

/-- A new entry, when the directory is one and the path is free. -/
def make (A : PathFs β η α ν) (w u : ν) (c : β) (x : PathNode η α) : FsReply α ν × PathFs β η α ν :=
  match A.nodes u with
  | none => (none, A)
  | some p =>
    match A.find p, A.find (p ++ [c]) with
    | some .dir, none => (some (0, some w, []), (A.put (p ++ [c]) (some x)).bind w (some (p ++ [c])))
    | _, _ => (none, A)

/-- The directory `p` has no entries. -/
def Leaf (A : PathFs β η α ν) (p : List β) : Prop := ∀ c, A.find (p ++ [c]) = none

variable [DecidableEq η]

open Classical in
/-- `w` is the node that the operation may make. -/
noncomputable def exec (A : PathFs β η α ν) (w : ν) : FsOp β η α ν → FsReply α ν × PathFs β η α ν
  | .create u c => A.make w u c (.file .empty)
  | .mkdir u c => A.make w u c .dir
  | .lookup u c =>
    match A.nodes u with
    | none => (none, A)
    | some p =>
      match A.find (p ++ [c]) with
      | none => (none, A)
      | some _ => (some (0, some w, []), A.bind w (some (p ++ [c])))
  | .remove u c =>
    match A.nodes u with
    | none => (none, A)
    | some p =>
      match A.find (p ++ [c]) with
      | some (.file _) => (some (0, none, []), A.put (p ++ [c]) none)
      | _ => (none, A)
  | .rmdir u c =>
    match A.nodes u with
    | none => (none, A)
    | some p =>
      if A.find (p ++ [c]) = some .dir ∧ A.Leaf (p ++ [c]) then (some (0, none, []), A.put (p ++ [c]) none)
      else (none, A)
  | .rename u c u' c' =>
    match A.nodes u, A.nodes u' with
    | some p, some p' =>
      match A.find (p ++ [c]) with
      | none => (none, A)
      | some _ => (some (0, some w, []), (A.move (p ++ [c]) (p' ++ [c'])).bind w (some (p' ++ [c'])))
    | _, _ => (none, A)
  | .inactive v => (some (0, none, []), A.bind v none)
  | .io v op =>
    match A.nodes v with
    | none => (none, A)
    | some p =>
      match A.find p with
      | some (.file F) => ((F.exec op).1.map fun y => (y.1, none, y.2), A.put p (some (.file (F.exec op).2)))
      | _ => (none, A)

/-- The operation answers `r`; a node that it makes stood for nothing. -/
def Step (A : PathFs β η α ν) (op : FsOp β η α ν) (r : FsReply α ν) (A' : PathFs β η α ν) : Prop :=
  ∃ w, A.nodes w = none ∧ A.exec w op = (r, A')

omit [DecidableEq η] in
theorem make_free (hu : A.nodes u = some p) (hd : A.find p = some .dir) (hfree : A.find (p ++ [c]) = none) :
    A.make w u c x = (some (0, some w, []), (A.put (p ++ [c]) (some x)).bind w (some (p ++ [c]))) := by
  simp only [make, hu, hd, hfree]

omit [DecidableEq η] in
theorem make_used {y : PathNode η α} (hu : A.nodes u = some p) (hused : A.find (p ++ [c]) = some y) :
    A.make w u c x = (none, A) := by
  unfold make
  rw [hu]
  dsimp only
  rw [hused]
  split
  · cases ‹some y = none›
  · rfl

omit [DecidableEq η] in
theorem make_in_file (hu : A.nodes u = some p) (hf : A.find p = some (.file F)) : A.make w u c x = (none, A) := by
  simp only [make, hu, hf]

theorem exec_lookup (hu : A.nodes u = some p) (hx : A.find (p ++ [c]) = some x) :
    A.exec w (.lookup u c) = (some (0, some w, []), A.bind w (some (p ++ [c]))) := by
  simp only [exec, hu, hx]

theorem exec_lookup_absent (hu : A.nodes u = some p) (hx : A.find (p ++ [c]) = none) :
    A.exec w (.lookup u c) = (none, A) := by
  simp only [exec, hu, hx]

theorem exec_remove (hu : A.nodes u = some p) (hx : A.find (p ++ [c]) = some (.file F)) :
    A.exec w (.remove u c) = (some (0, none, []), A.put (p ++ [c]) none) := by
  simp only [exec, hu, hx]

theorem exec_remove_fails (hu : A.nodes u = some p) (hx : ∀ F, A.find (p ++ [c]) ≠ some (.file F)) :
    A.exec w (.remove u c) = (none, A) := by
  simp only [exec, hu]

theorem exec_rmdir (hu : A.nodes u = some p) (hx : A.find (p ++ [c]) = some .dir) (hleaf : A.Leaf (p ++ [c])) :
    A.exec w (.rmdir u c) = (some (0, none, []), A.put (p ++ [c]) none) := by
  simp only [exec, hu, hx, hleaf, and_self, if_true]

theorem exec_rmdir_fails (hu : A.nodes u = some p) (hx : A.find (p ++ [c]) = some .dir → ¬ A.Leaf (p ++ [c])) :
    A.exec w (.rmdir u c) = (none, A) := by
  simp only [exec, hu]
  exact if_neg fun h => hx h.1 h.2

theorem exec_rename (hu : A.nodes u = some p) (hv : A.nodes v = some p') (hx : A.find (p ++ [c]) = some x) :
    A.exec w (.rename u c v c') =
      (some (0, some w, []), (A.move (p ++ [c]) (p' ++ [c'])).bind w (some (p' ++ [c']))) := by
  simp only [exec, hu, hv, hx]

theorem exec_rename_absent (hu : A.nodes u = some p) (hv : A.nodes v = some p') (hx : A.find (p ++ [c]) = none) :
    A.exec w (.rename u c v c') = (none, A) := by
  simp only [exec, hu, hv, hx]

theorem exec_io {op : FileOp η α} (hv : A.nodes v = some p) (hx : A.find p = some (.file F)) : A.exec w (.io v op) =
    ((F.exec op).1.map fun y => (y.1, none, y.2), A.put p (some (.file (F.exec op).2))) := by
  simp only [exec, hv, hx]

end

/-! ### Directory graphs that depict the map -/

section
variable {κ : Type} {G G' : DirGraph κ β} {R R' : κ → PathNode η α → Prop} {dev dev' : ν → Option κ} {a D t : κ}
  {y : PathNode η α}

/-- A path of the graph leads where it does in the map, to what its end holds; `dev` gives the ends of the nodes. -/
structure Depicts (G : DirGraph κ β) (R : κ → PathNode η α → Prop) (dev : ν → Option κ) (A : PathFs β η α ν) :
    Prop where
  found : ∀ p a, G.Walk none p (some a) → ∃ x, A.find p = some x ∧ R a x
  absent : ∀ p, (∀ a, ¬ G.Walk none p (some a)) → A.find p = none
  nodes : ∀ v p, A.nodes v = some p ↔ ∃ a, dev v = some a ∧ G.Walk none p (some a)

namespace Depicts

theorem of_find (h : Depicts G R dev A) (hx : A.find p = some x) : ∃ a, G.Walk none p (some a) ∧ R a x := by
  by_contra hno
  have hnone : A.find p = none := by
    refine h.absent p fun a ha => hno ?_
    obtain ⟨y, hy, hR⟩ := h.found p a ha
    obtain rfl := Option.some.inj (hy.symm.trans hx)
    exact ⟨a, ha, hR⟩
  rw [hnone] at hx
  cases hx

theorem find_eq_none (h : Depicts G R dev A) : A.find p = none ↔ ∀ a, ¬ G.Walk none p (some a) := by
  refine ⟨fun hnone a ha => ?_, h.absent p⟩
  obtain ⟨x, hx, -⟩ := h.found p a ha
  rw [hnone] at hx
  cases hx

/-- The same paths, and ends that hold the same. -/
theorem mono (h : Depicts G R dev A) (hwalk : ∀ p y, G'.Walk none p y ↔ G.Walk none p y)
    (hR : ∀ p a x, A.find p = some x → G.Walk none p (some a) → R a x → R' a x) (hdev : ∀ v, dev' v = dev v) :
    Depicts G' R' dev' A := by
  refine ⟨fun p a ha => ?_, fun p hno => ?_, fun v p => ?_⟩
  · rw [hwalk] at ha
    obtain ⟨x, hx, hax⟩ := h.found p a ha
    exact ⟨x, hx, hR p a x hx ha hax⟩
  · refine h.absent p fun a ha => hno a ?_
    rwa [hwalk]
  · rw [h.nodes, hdev]
    simp only [hwalk]

section
variable [DecidableEq β]

/-- What the end `t` of `p` holds has changed. -/
theorem store (h : Depicts G R dev A) (hG : G.IsTree) (hwalk : ∀ p y, G'.Walk none p y ↔ G.Walk none p y)
    (ht : G.Walk none p (some t)) (hy : R' t y)
    (hR : ∀ q a x, A.find q = some x → G.Walk none q (some a) → a ≠ t → R a x → R' a x)
    (hdev : ∀ v, dev' v = dev v) : Depicts G' R' dev' (A.put p (some y)) := by
  refine ⟨fun q a ha => ?_, fun q hno => ?_, fun v q => ?_⟩
  · rw [hwalk] at ha
    by_cases hq : q = p
    · subst q
      obtain rfl := Option.some.inj (hG.walk_unique DirGraph.Open_none ha ht)
      exact ⟨y, find_put .., hy⟩
    · have hat : a ≠ t := by
        rintro rfl
        exact hq (hG.path_unique ha ht)
      obtain ⟨x, hx, hax⟩ := h.found q a ha
      exact ⟨x, (find_put_of_ne A _ hq).trans hx, hR q a x hx ha hat hax⟩
  · have hq : q ≠ p := by
      rintro rfl
      exact hno t ((hwalk q (some t)).2 ht)
    refine (find_put_of_ne A _ hq).trans (h.absent q fun a ha => hno a ?_)
    rwa [hwalk]
  · show A.nodes v = some q ↔ _
    rw [h.nodes, hdev]
    simp only [hwalk]

theorem insert (h : Depicts G R dev A) (hG : G.IsTree) (hI : G.Insert G' D t) (hp : G.Walk none p (some D))
    (hc : G'.label t = some c) (hfree : A.find (p ++ [c]) = none) (hy : R' t y)
    (hR : ∀ q a x, A.find q = some x → G.Walk none q (some a) → R a x → R' a x) (hdev : ∀ v, dev v ≠ some t)
    (hdev' : ∀ v, dev' v = dev v) : Depicts G' R' dev' (A.put (p ++ [c]) (some y)) := by
  have hwalk := fun q z => DirGraph.Walk_insert (p := q) (y := z) hI hG hp hc
  refine ⟨fun q a ha => ?_, fun q hno => ?_, fun v q => ?_⟩
  · rcases (hwalk q (some a)).1 ha with ha | ⟨rfl, hat⟩
    · have hq : q ≠ p ++ [c] := by
        rintro rfl
        exact h.find_eq_none.1 hfree a ha
      obtain ⟨x, hx, hax⟩ := h.found q a ha
      exact ⟨x, (find_put_of_ne A _ hq).trans hx, hR q a x hx ha hax⟩
    · obtain rfl := Option.some.inj hat
      exact ⟨y, find_put .., hy⟩
  · have hq : q ≠ p ++ [c] := by
      rintro rfl
      exact hno t ((hwalk _ _).2 (.inr ⟨rfl, rfl⟩))
    refine (find_put_of_ne A _ hq).trans (h.absent q fun a ha => hno a ?_)
    exact (hwalk _ _).2 (.inl ha)
  · show A.nodes v = some q ↔ _
    rw [h.nodes, hdev']
    constructor
    · rintro ⟨a, ha, hq⟩
      exact ⟨a, ha, (hwalk _ _).2 (.inl hq)⟩
    · rintro ⟨a, ha, hq⟩
      rcases (hwalk q (some a)).1 hq with hq | ⟨-, hat⟩
      · exact ⟨a, ha, hq⟩
      · exact absurd (ha.trans hat) (hdev v)

theorem erase (h : Depicts G R dev A) (hG : G.IsTree) (hE : G.Erase G' t) (ht : G.Walk none p (some t))
    (hR : ∀ q a x, A.find q = some x → G.Walk none q (some a) → a ≠ t → R a x → R' a x) (hdev : ∀ v, dev v ≠ some t)
    (hdev' : ∀ v, dev' v = dev v) : Depicts G' R' dev' (A.put p none) := by
  have hwalk := fun q z => DirGraph.Walk_erase (p := q) (y := z) hE
  refine ⟨fun q a ha => ?_, fun q hno => ?_, fun v q => ?_⟩
  · obtain ⟨ha, hne⟩ := (hwalk q (some a)).1 ha
    have hat : a ≠ t := fun heq => hne (congrArg some heq)
    have hq : q ≠ p := by
      rintro rfl
      exact hne (hG.walk_unique DirGraph.Open_none ha ht)
    obtain ⟨x, hx, hax⟩ := h.found q a ha
    exact ⟨x, (find_put_of_ne A _ hq).trans hx, hR q a x hx ha hat hax⟩
  · show Function.update A.find p none q = none
    by_cases hq : q = p
    · subst q
      exact Function.update_self ..
    · refine (find_put_of_ne A _ hq).trans (h.absent q fun a ha => hno a ((hwalk _ _).2 ⟨ha, ?_⟩))
      intro hat
      rw [hat] at ha
      exact hq (hG.path_unique ha ht)
  · show A.nodes v = some q ↔ _
    rw [h.nodes, hdev']
    constructor
    · rintro ⟨a, ha, hq⟩
      refine ⟨a, ha, (hwalk _ _).2 ⟨hq, fun hat => hdev v ?_⟩⟩
      rw [ha, hat]
    · rintro ⟨a, ha, hq⟩
      exact ⟨a, ha, ((hwalk _ _).1 hq).1⟩

end

section
variable [DecidableEq ν]

/-- The node `w` now stands for `p`. -/
theorem bind (h : Depicts G R dev A) (hG : G.IsTree) (ht : G.Walk none p (some t))
    (hdev : ∀ v, dev' v = if v = w then some t else dev v) : Depicts G R dev' (A.bind w (some p)) := by
  refine ⟨h.found, h.absent, fun v q => ?_⟩
  show Function.update A.nodes w (some p) v = some q ↔ _
  rw [hdev]
  by_cases hv : v = w
  · subst v
    rw [Function.update_self, if_pos rfl]
    constructor
    · intro hq
      obtain rfl := Option.some.inj hq
      exact ⟨t, rfl, ht⟩
    · rintro ⟨a, ha, hwalk⟩
      obtain rfl := Option.some.inj ha
      rw [hG.path_unique ht hwalk]
  · rw [Function.update_of_ne hv, if_neg hv, h.nodes]

theorem unbind (h : Depicts G R dev A) (hdev : ∀ v, dev' v = if v = w then none else dev v) :
    Depicts G R dev' (A.bind w none) := by
  refine ⟨h.found, h.absent, fun v q => ?_⟩
  show Function.update A.nodes w none v = some q ↔ _
  rw [hdev]
  by_cases hv : v = w
  · subst v
    rw [Function.update_self, if_pos rfl]
    exact ⟨nofun, fun ⟨_, ha, _⟩ => nomatch ha⟩
  · rw [Function.update_of_ne hv, if_neg hv, h.nodes]

end

/-- The paths of a tree after a move, by those before. -/
theorem walk_move (hG : G.IsTree) (hM : G.Move G' D t) (ht : G.Walk none p (some t)) (hD : G.Walk none p' (some D))
    (hout : ¬ G.Below t D) (hc : G'.label t = some c) (hfree : ∀ a, G.Walk none (p' ++ [c]) (some a) → a = t)
    (q : List β) (a : κ) : G'.Walk none q (some a) ↔
      (∃ r, q = p' ++ [c] ++ r ∧ G.Walk none (p ++ r) (some a)) ∨
        (¬ p' ++ [c] <+: q ∧ ¬ p <+: q ∧ G.Walk none q (some a)) := by
  rw [hM.walk_iff hG ht hD hout hc]
  have hbelow : G.Walk none q (some a) → (G.Below t a ↔ p <+: q) := by
    intro hq
    constructor
    · rintro ⟨r, hr⟩
      rw [← hG.path_unique (DirGraph.Walk_append.2 ⟨_, ht, hr⟩) hq]
      exact List.prefix_append _ _
    · rintro ⟨r, rfl⟩
      obtain ⟨z, hz, hr⟩ := DirGraph.Walk_append.1 hq
      obtain rfl := hG.walk_unique DirGraph.Open_none ht hz
      exact ⟨r, hr⟩
  constructor
  · rintro (⟨hq, hno⟩ | ⟨r, rfl, hr⟩)
    · have hout' : ¬ p <+: q := fun hpre => hno a rfl ((hbelow hq).2 hpre)
      refine .inr ⟨?_, hout', hq⟩
      -- what was at the new path is the moved entry
      rintro ⟨r, rfl⟩
      obtain ⟨z, hz, hr⟩ := DirGraph.Walk_append.1 hq
      cases z with
      | none =>
        obtain ⟨_, _, _, _, _, hnone⟩ := DirGraph.Walk_snoc.1 hz
        cases hnone
      | some b =>
        obtain rfl := hfree b hz
        exact hno a rfl ⟨r, hr⟩
    · exact .inl ⟨r, rfl, DirGraph.Walk_append.2 ⟨_, ht, hr⟩⟩
  · rintro (⟨r, rfl, hr⟩ | ⟨-, hno, hq⟩)
    · obtain ⟨z, hz, hr⟩ := DirGraph.Walk_append.1 hr
      obtain rfl := hG.walk_unique DirGraph.Open_none ht hz
      exact .inr ⟨r, rfl, hr⟩
    · refine .inl ⟨hq, ?_⟩
      rintro b hb hbel
      obtain rfl := Option.some.inj hb
      exact hno ((hbelow hq).1 hbel)

theorem move [DecidableEq β] (h : Depicts G R dev A) (hG : G.IsTree) (hM : G.Move G' D t)
    (ht : G.Walk none p (some t)) (hD : G.Walk none p' (some D)) (hout : ¬ G.Below t D) (hc : G'.label t = some c)
    (hfree : A.find (p' ++ [c]) = none ∨ p = p' ++ [c]) 
    (hR : ∀ q a x, A.find q = some x → G.Walk none q (some a) → R a x → R' a x)
    (hdev : ∀ v, dev' v = dev v) : Depicts G' R' dev' (A.move p (p' ++ [c])) := by
  have hsole : ∀ a, G.Walk none (p' ++ [c]) (some a) → a = t := by
    intro a ha
    rcases hfree with hfree | rfl
    · exact absurd ha (h.find_eq_none.1 hfree a)
    · exact Option.some.inj (hG.walk_unique DirGraph.Open_none ha ht)
  have hwalk := walk_move hG hM ht hD hout hc hsole
  refine ⟨fun q a ha => ?_, fun q hno => ?_, fun v q => ?_⟩
  · rcases (hwalk q a).1 ha with ⟨r, rfl, hr⟩ | ⟨hn, ho, hq⟩
    · obtain ⟨x, hx, hax⟩ := h.found _ a hr
      exact ⟨x, (reroot_append r).trans hx, hR _ a x hx hr hax⟩
    · obtain ⟨x, hx, hax⟩ := h.found q a hq
      exact ⟨x, (reroot_other hn ho).trans hx, hR q a x hx hq hax⟩
  · show reroot A.find p (p' ++ [c]) q = none
    by_cases hn : p' ++ [c] <+: q
    · obtain ⟨r, rfl⟩ := hn
      rw [reroot_append]
      exact h.absent _ fun a ha => hno a ((hwalk _ a).2 (.inl ⟨r, rfl, ha⟩))
    by_cases ho : p <+: q
    · exact reroot_gone hn ho
    · rw [reroot_other hn ho]
      exact h.absent q fun a ha => hno a ((hwalk q a).2 (.inr ⟨hn, ho, ha⟩))
  · show (A.nodes v).map (follow p (p' ++ [c])) = some q ↔ _
    simp only [Option.map_eq_some_iff, h.nodes, hdev]
    constructor
    · rintro ⟨q, ⟨a, ha, hq⟩, rfl⟩
      refine ⟨a, ha, (hwalk _ a).2 ?_⟩
      by_cases ho : p <+: q
      · obtain ⟨r, rfl⟩ := ho
        exact .inl ⟨r, follow_append r, hq⟩
      · rw [follow_other ho]
        refine .inr ⟨?_, ho, hq⟩
        rintro ⟨r, rfl⟩
        obtain ⟨z, hz, -⟩ := DirGraph.Walk_append.1 hq
        obtain ⟨_, b, -, -, -, rfl⟩ := DirGraph.Walk_snoc.1 hz
        obtain rfl := hsole b hz
        rw [hG.path_unique hz ht] at ho
        exact ho (List.prefix_append _ _)
    · rintro ⟨a, ha, hq⟩
      rcases (hwalk q a).1 hq with ⟨r, rfl, hr⟩ | ⟨-, ho, hq⟩
      · exact ⟨p ++ r, ⟨a, ha, hr⟩, follow_append r⟩
      · exact ⟨q, ⟨a, ha, hq⟩, follow_other ho⟩

end Depicts
end

end PathFs

end VitaUtility

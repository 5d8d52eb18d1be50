import Mathlib.Data.List.Induction
import Mathlib.Logic.Relation

/-!
# Directory graphs and their path maps

A directory graph has nodes of any type `α`, some of them labelled, and a child relation whose
source is a node or the top (`none`). `Walk x p y`: the path `p` leads from `x` to `y`, picking a
child by its label at each component. In a tree (one parent for each node, sibling labels
different) a path leads to at most one node and a node has one path, so the graph is a map from
paths to nodes; adding, deleting and moving a node are stated as updates of that map
(`Walk_insert`, `Walk_erase`, `Walk_move`).
-/

namespace VitaUtility

structure DirGraph (α β : Type) where
  child : Option α → α → Prop
  label : α → Option β

namespace DirGraph
variable {α β : Type} {G G' : DirGraph α β} {x y z : Option α} {a b d t : α} {p q : List β} {c : β}

/-- The path `p` leads from `x` to `y`. -/
def Walk (G : DirGraph α β) : Option α → List β → Option α → Prop
  | x, [], y => x = y
  | x, c :: p, y => ∃ d, G.child x d ∧ G.label d = some c ∧ Walk G (some d) p y

@[simp] theorem Walk_nil : G.Walk x [] y ↔ x = y := Iff.rfl

theorem Walk_cons : G.Walk x (c :: p) y ↔
    ∃ d, G.child x d ∧ G.label d = some c ∧ G.Walk (some d) p y := Iff.rfl

theorem Walk_append : G.Walk x (p ++ q) z ↔ ∃ y, G.Walk x p y ∧ G.Walk y q z := by
  induction p generalizing x with
  | nil => simp
  | cons c p ih =>
    simp only [List.cons_append, Walk_cons, ih]
    constructor
    · rintro ⟨d, hd, hc, y, hp, hq⟩; exact ⟨y, ⟨d, hd, hc, hp⟩, hq⟩
    · rintro ⟨y, ⟨d, hd, hc, hp⟩, hq⟩; exact ⟨d, hd, hc, y, hp, hq⟩

theorem Walk_snoc : G.Walk x (p ++ [c]) z ↔
    ∃ y a, G.Walk x p y ∧ G.child y a ∧ G.label a = some c ∧ z = some a := by
  rw [Walk_append]
  constructor
  · rintro ⟨y, hp, a, ha, hc, rfl⟩; exact ⟨y, a, hp, ha, hc, rfl⟩
  · rintro ⟨y, a, hp, ha, hc, rfl⟩; exact ⟨y, hp, a, ha, hc, rfl⟩

/-- What some path from the top leads to. -/
def Open (G : DirGraph α β) (x : Option α) : Prop := ∃ p, G.Walk none p x

theorem Open_none : G.Open none := ⟨[], rfl⟩

theorem Open.child (h : G.Open x) (ha : G.child x a) (hc : G.label a = some c) : G.Open (some a) := by
  obtain ⟨p, hp⟩ := h
  exact ⟨p ++ [c], Walk_snoc.2 ⟨x, a, hp, ha, hc, rfl⟩⟩

theorem Open.walk (h : G.Open x) (hp : G.Walk x p y) : G.Open y := by
  obtain ⟨q, hq⟩ := h
  exact ⟨q ++ p, Walk_append.2 ⟨x, hq, hp⟩⟩

/-- Where a path leads, one of other labels leads too. -/
theorem Walk.relabel {γ : Type} {H : DirGraph α γ} (hp : G.Walk x p y) (hx : H.Open x)
    (hch : ∀ x a, G.child x a → H.child x a) (hl : ∀ x a, H.Open x → H.child x a → ∃ c, H.label a = some c) :
    ∃ q, H.Walk x q y := by
  induction p generalizing x with
  | nil => exact ⟨[], hp⟩
  | cons c p ih =>
    obtain ⟨a, ha, -, hp⟩ := hp
    obtain ⟨c', hc'⟩ := hl x a hx (hch x a ha)
    obtain ⟨q, hq⟩ := ih hp (hx.child (hch x a ha) hc')
    exact ⟨c' :: q, a, hch x a ha, hc', hq⟩

theorem Open.relabel {γ : Type} {H : DirGraph α γ} (h : G.Open x) (hch : ∀ x a, G.child x a → H.child x a)
    (hl : ∀ x a, H.Open x → H.child x a → ∃ c, H.label a = some c) : H.Open x := by
  obtain ⟨p, hp⟩ := h
  exact hp.relabel Open_none hch hl

/-- One parent for each node, and one sibling for each label. -/
structure IsTree (G : DirGraph α β) : Prop where
  parent : ∀ x y a, G.Open x → G.Open y → G.child x a → G.child y a → x = y
  sib : ∀ x a b, G.Open x → G.child x a → G.child x b → G.label a = G.label b → a = b

namespace IsTree

theorem walk_unique (h : G.IsTree) (hx : G.Open x) (hy : G.Walk x p y) (hz : G.Walk x p z) : y = z := by
  induction p generalizing x with
  | nil => exact hy.symm.trans hz
  | cons c p ih =>
    obtain ⟨d, hd, hc, hy⟩ := hy
    obtain ⟨d', hd', hc', hz⟩ := hz
    obtain rfl := h.sib x d d' hx hd hd' (hc.trans hc'.symm)
    exact ih (hx.child hd hc) hy hz

/-- Two paths to one node are equal: the last steps come from its one parent. -/
theorem path_unique (h : G.IsTree) (hp : G.Walk none p x) (hq : G.Walk none q x) : p = q := by
  induction p using List.reverseRecOn generalizing q x with
  | nil =>
    obtain rfl := Walk_nil.1 hp
    cases q using List.reverseRecOn with
    | nil => rfl
    | append_singleton q c => obtain ⟨_, _, _, _, _, e⟩ := Walk_snoc.1 hq; cases e
  | append_singleton p c ih =>
    obtain ⟨y, a, hy, ha, hc, rfl⟩ := Walk_snoc.1 hp
    cases q using List.reverseRecOn with
    | nil => cases hq
    | append_singleton q c' =>
      obtain ⟨y', a', hy', ha', hc', e⟩ := Walk_snoc.1 hq
      obtain rfl := Option.some.inj e
      obtain rfl := h.parent y y' a ⟨_, hy⟩ ⟨_, hy'⟩ ha ha'
      obtain rfl := Option.some.inj (hc.symm.trans hc')
      rw [ih hy hy']

/-- No node is below itself. -/
theorem walk_self (h : G.IsTree) (ha : G.Open (some a)) (hp : G.Walk (some a) p (some a)) : p = [] := by
  obtain ⟨q, hq⟩ := ha
  have := h.path_unique (Walk_append.2 ⟨_, hq, hp⟩) hq
  simpa using this

/-- No child relation leads back to an open node. -/
theorem acyclic (h : G.IsTree) (ha : G.Open (some a)) (hl : ∀ x a, G.Open x → G.child x a → ∃ c, G.label a = some c) :
    ¬ Relation.TransGen (fun d a => G.child (some d) a) a a := by
  have hwalk : ∀ b, Relation.TransGen (fun d a => G.child (some d) a) a b → ∃ p, p ≠ [] ∧ G.Walk (some a) p (some b) := by
    intro b hb
    induction hb with
    | single hb =>
      obtain ⟨c, hc⟩ := hl _ _ ha hb
      exact ⟨[c], by simp, _, hb, hc, rfl⟩
    | tail _ hb ih =>
      obtain ⟨p, -, hp⟩ := ih
      obtain ⟨c, hc⟩ := hl _ _ (ha.walk hp) hb
      exact ⟨p ++ [c], by simp, Walk_snoc.2 ⟨_, _, hp, hb, hc, rfl⟩⟩
  intro haa
  obtain ⟨p, hne, hp⟩ := hwalk a haa
  exact hne (h.walk_self ha hp)

end IsTree

/-- `a` is `t` or in the directory `t`, at any depth. -/
def Below (G : DirGraph α β) (t a : α) : Prop := ∃ p, G.Walk (some t) p (some a)

theorem Below.refl : G.Below a a := ⟨[], rfl⟩

theorem Below.child (h : G.Below t d) (ha : G.child (some d) a) (hc : G.label a = some c) : G.Below t a := by
  obtain ⟨p, hp⟩ := h
  exact ⟨p ++ [c], Walk_snoc.2 ⟨_, a, hp, ha, hc, rfl⟩⟩

/-- Everything below `t` but `t` itself has its parent below `t`. -/
theorem Below.parent (h : G.Below t a) (hne : a ≠ t) :
    ∃ d c, G.Below t d ∧ G.child (some d) a ∧ G.label a = some c := by
  obtain ⟨p, hp⟩ := h
  cases p using List.reverseRecOn with
  | nil => exact absurd (Option.some.inj hp).symm hne
  | append_singleton p c =>
    obtain ⟨y, a', hy, ha, hc, e⟩ := Walk_snoc.1 hp
    obtain rfl := Option.some.inj e
    cases y with
    | none =>
      cases p using List.reverseRecOn with
      | nil => cases hy
      | append_singleton p c => obtain ⟨_, _, _, _, _, e⟩ := Walk_snoc.1 hy; cases e
    | some d => exact ⟨d, c, ⟨p, hy⟩, ha, hc⟩

/-! ### Updates -/

section Insert
variable {D new : α} {P : List β}

/-- `G'` is `G` with the childless node `new` put into the directory `D`. -/
structure Insert (G G' : DirGraph α β) (D new : α) : Prop where
  child : ∀ x a, G.Open x → (G'.child x a ↔ G.child x a ∨ (x = some D ∧ a = new))
  leaf : ∀ a, ¬ G'.child (some new) a
  label : ∀ x a, G.Open x → G.child x a → G'.label a = G.label a
  fresh : ∀ x, G.Open x → ¬ G.child x new

theorem Insert.walk_old (h : G.Insert G' D new) (hx : G.Open x) (hp : G.Walk x p y) : G'.Walk x p y := by
  induction p generalizing x with
  | nil => exact hp
  | cons c p ih =>
    obtain ⟨d, hd, hc, hp⟩ := hp
    exact ⟨d, (h.child x d hx).2 (.inl hd), (h.label x d hx hd).trans hc, ih (hx.child hd hc) hp⟩

/-- Adding a node adds one path to the map. -/
theorem Walk_insert (h : G.Insert G' D new) (ht : G.IsTree) (hP : G.Walk none P (some D))
    (hc : G'.label new = some c) :
    G'.Walk none p y ↔ G.Walk none p y ∨ (p = P ++ [c] ∧ y = some new) := by
  constructor
  · intro hp
    induction p using List.reverseRecOn generalizing y with
    | nil => exact .inl hp
    | append_singleton p c' ih =>
      obtain ⟨x, a, hx, ha, hc', rfl⟩ := Walk_snoc.1 hp
      rcases ih hx with hx | ⟨-, rfl⟩
      · rcases (h.child x a ⟨_, hx⟩).1 ha with ha | ⟨rfl, rfl⟩
        · exact .inl (Walk_snoc.2 ⟨x, a, hx, ha, (h.label x a ⟨_, hx⟩ ha).symm.trans hc', rfl⟩)
        · obtain rfl := Option.some.inj (hc.symm.trans hc')
          exact .inr ⟨by rw [ht.path_unique hx hP], rfl⟩
      · exact absurd ha (h.leaf a)
  · rintro (hp | ⟨rfl, rfl⟩)
    · exact h.walk_old Open_none hp
    · exact Walk_snoc.2 ⟨some D, new, h.walk_old Open_none hP,
        (h.child _ _ ⟨_, hP⟩).2 (.inr ⟨rfl, rfl⟩), hc, rfl⟩

theorem Insert.open_iff (h : G.Insert G' D new) (ht : G.IsTree) (hD : G.Open (some D))
    (hc : G'.label new = some c) : G'.Open x ↔ G.Open x ∨ x = some new := by
  obtain ⟨P, hP⟩ := hD
  simp only [Open, Walk_insert h ht hP hc]
  constructor
  · rintro ⟨p, hp | ⟨-, rfl⟩⟩
    exacts [.inl ⟨p, hp⟩, .inr rfl]
  · rintro (⟨p, hp⟩ | rfl)
    exacts [⟨p, .inl hp⟩, ⟨_, .inr ⟨rfl, rfl⟩⟩]

theorem Insert.isTree (h : G.Insert G' D new) (ht : G.IsTree) (hD : G.Open (some D))
    (hc : G'.label new = some c) (hfree : ∀ a, G.child (some D) a → G.label a ≠ some c) : G'.IsTree := by
  have ho := fun x => h.open_iff (x := x) ht hD hc
  constructor
  · intro x y a hx hy hxa hya
    rcases (ho x).1 hx with hx | rfl
    · rcases (ho y).1 hy with hy | rfl
      · rcases (h.child x a hx).1 hxa with hxa | ⟨rfl, rfl⟩ <;>
          rcases (h.child y _ hy).1 hya with hya | ⟨rfl, e⟩
        · exact ht.parent x y a hx hy hxa hya
        · exact absurd (e ▸ hxa) (h.fresh x hx)
        · exact absurd hya (h.fresh y hy)
        · rfl
      · exact absurd hya (h.leaf a)
    · exact absurd hxa (h.leaf a)
  · intro x a b hx ha hb hab
    rcases (ho x).1 hx with hx | rfl
    · rcases (h.child x a hx).1 ha with ha | ⟨rfl, rfl⟩ <;>
        rcases (h.child _ b hx).1 hb with hb | ⟨e, rfl⟩
      · rw [h.label x a hx ha, h.label x b hx hb] at hab
        exact ht.sib x a b hx ha hb hab
      · subst e
        rw [h.label _ a hx ha, hc] at hab
        exact absurd hab (hfree a ha)
      · rw [h.label _ b hx hb, hc] at hab
        exact absurd hab.symm (hfree b hb)
      · rfl
    · exact absurd ha (h.leaf a)

end Insert

/-- `G'` is `G` without the childless node `t`. -/
structure Erase (G G' : DirGraph α β) (t : α) : Prop where
  child : ∀ x a, G.Open x → x ≠ some t → (G'.child x a ↔ G.child x a ∧ a ≠ t)
  leaf : ∀ a, ¬ G.child (some t) a
  label : ∀ x a, G.Open x → G.child x a → a ≠ t → G'.label a = G.label a

/-- Deleting a childless node deletes its path from the map. -/
theorem Walk_erase (h : G.Erase G' t) : G'.Walk none p y ↔ G.Walk none p y ∧ y ≠ some t := by
  induction p using List.reverseRecOn generalizing y with
  | nil =>
    simp only [Walk_nil]
    constructor
    · rintro rfl; exact ⟨rfl, nofun⟩
    · exact And.left
  | append_singleton p c ih =>
    simp only [Walk_snoc]
    constructor
    · rintro ⟨x, a, hx, ha, hc, rfl⟩
      obtain ⟨hx, hne⟩ := ih.1 hx
      obtain ⟨ha, hat⟩ := (h.child x a ⟨_, hx⟩ hne).1 ha
      exact ⟨⟨x, a, hx, ha, (h.label x a ⟨_, hx⟩ ha hat).symm.trans hc, rfl⟩, by simpa using hat⟩
    · rintro ⟨⟨x, a, hx, ha, hc, rfl⟩, hat⟩
      have hat : a ≠ t := by simpa using hat
      have hne : x ≠ some t := by rintro rfl; exact h.leaf a ha
      exact ⟨x, a, ih.2 ⟨hx, hne⟩, (h.child x a ⟨_, hx⟩ hne).2 ⟨ha, hat⟩,
        (h.label x a ⟨_, hx⟩ ha hat).trans hc, rfl⟩

theorem Erase.open_iff (h : G.Erase G' t) : G'.Open x ↔ G.Open x ∧ x ≠ some t := by
  simp only [Open, Walk_erase h, exists_and_right]

theorem Erase.isTree (h : G.Erase G' t) (ht : G.IsTree) : G'.IsTree := by
  constructor
  · intro x y a hx hy hxa hya
    rw [h.open_iff] at hx hy
    exact ht.parent x y a hx.1 hy.1 ((h.child x a hx.1 hx.2).1 hxa).1 ((h.child y a hy.1 hy.2).1 hya).1
  · intro x a b hx ha hb hab
    rw [h.open_iff] at hx
    obtain ⟨ha, hat⟩ := (h.child x a hx.1 hx.2).1 ha
    obtain ⟨hb, hbt⟩ := (h.child x b hx.1 hx.2).1 hb
    rw [h.label x a hx.1 ha hat, h.label x b hx.1 hb hbt] at hab
    exact ht.sib x a b hx.1 ha hb hab

section Move
variable {N : α} {PT PN r : List β}

/-- `G'` is `G` with the node `t` taken from its parent and put into the directory `N`. -/
structure Move (G G' : DirGraph α β) (N t : α) : Prop where
  child : ∀ x a, G.Open x → (G'.child x a ↔ (a ≠ t ∧ G.child x a) ∨ (x = some N ∧ a = t))
  label : ∀ x a, G.Open x → G.child x a → a ≠ t → G'.label a = G.label a

namespace Move

/-- What is not below the moved node keeps its path. -/
theorem walk_keep (h : G.Move G' N t) (ht : G.Open (some t)) (hp : G.Walk none p y)
    (hy : ∀ a, y = some a → ¬ G.Below t a) : G'.Walk none p y := by
  induction p using List.reverseRecOn generalizing y with
  | nil => exact hp
  | append_singleton p c ih =>
    obtain ⟨x, a, hx, ha, hc, rfl⟩ := Walk_snoc.1 hp
    have hat : a ≠ t := by rintro rfl; exact hy a rfl .refl
    refine Walk_snoc.2 ⟨x, a, ih hx ?_, (h.child x a ⟨_, hx⟩).2 (.inl ⟨hat, ha⟩),
      (h.label x a ⟨_, hx⟩ ha hat).trans hc, rfl⟩
    rintro d rfl hd
    exact hy a rfl (hd.child ha hc)

/-- The paths inside the moved node are kept. -/
theorem walk_inside (h : G.Move G' N t) (hG : G.IsTree) (hPT : G.Walk none PT (some t)) (hx : G.Below t d)
    (hr : G.Walk (some d) r y) : G'.Walk (some d) r y := by
  induction r generalizing d with
  | nil => exact hr
  | cons c r ih =>
    obtain ⟨e, he, hc, hr⟩ := hr
    have hd : G.Open (some d) := by obtain ⟨q, hq⟩ := hx; exact Open.walk ⟨_, hPT⟩ hq
    have het : e ≠ t := by
      rintro rfl
      obtain ⟨q, hq⟩ := hx
      have := hG.walk_self ⟨_, hPT⟩ (Walk_snoc.2 ⟨_, e, hq, he, hc, rfl⟩)
      simp at this
    exact ⟨e, (h.child _ e hd).2 (.inl ⟨het, he⟩), (h.label _ e hd he het).trans hc,
      ih (hx.child he hc) hr⟩

/-- When the new directory is not below the moved node, the new map is the old one with the paths
through the moved node rerooted at its new place. -/
theorem walk_iff (h : G.Move G' N t) (hG : G.IsTree) (hPT : G.Walk none PT (some t))
    (hPN : G.Walk none PN (some N)) (hN : ¬ G.Below t N) (hc : G'.label t = some c) :
    G'.Walk none p y ↔ (G.Walk none p y ∧ ∀ a, y = some a → ¬ G.Below t a) ∨
      ∃ r, p = PN ++ [c] ++ r ∧ G.Walk (some t) r y := by
  constructor
  · intro hp
    induction p using List.reverseRecOn generalizing y with
    | nil =>
      obtain rfl := Walk_nil.1 hp
      exact .inl ⟨rfl, nofun⟩
    | append_singleton p c' ih =>
      obtain ⟨x, a, hx, ha, hc', rfl⟩ := Walk_snoc.1 hp
      have hop : G.Open x := by
        rcases ih hx with ⟨hx, -⟩ | ⟨r, -, hr⟩
        · exact ⟨_, hx⟩
        · exact Open.walk ⟨_, hPT⟩ hr
      rcases (h.child x a hop).1 ha with ⟨hat, ha⟩ | ⟨rfl, rfl⟩
      · rw [h.label x a hop ha hat] at hc'
        rcases ih hx with ⟨hx, hb⟩ | ⟨r, rfl, hr⟩
        · refine .inl ⟨Walk_snoc.2 ⟨x, a, hx, ha, hc', rfl⟩, ?_⟩
          rintro a' e hba
          obtain rfl := Option.some.inj e
          obtain ⟨d, -, hd, hda, -⟩ := hba.parent hat
          obtain ⟨q, hq⟩ := hd
          obtain rfl := hG.parent _ _ a hop (Open.walk ⟨_, hPT⟩ hq) ha hda
          exact hb d rfl ⟨q, hq⟩
        · exact .inr ⟨r ++ [c'], by simp, Walk_snoc.2 ⟨x, a, hr, ha, hc', rfl⟩⟩
      · obtain rfl := Option.some.inj (hc.symm.trans hc')
        rcases ih hx with ⟨hx, -⟩ | ⟨r, -, hr⟩
        · exact .inr ⟨[], by rw [hG.path_unique hx hPN]; simp, rfl⟩
        · exact absurd ⟨r, hr⟩ hN
  · rintro (⟨hp, hy⟩ | ⟨r, rfl, hr⟩)
    · exact h.walk_keep ⟨_, hPT⟩ hp hy
    · have hkeep := h.walk_keep ⟨_, hPT⟩ hPN (by rintro a e; obtain rfl := Option.some.inj e; exact hN)
      refine Walk_append.2 ⟨some t, ?_, h.walk_inside hG hPT .refl hr⟩
      exact Walk_snoc.2 ⟨some N, t, hkeep, (h.child _ _ ⟨_, hPN⟩).2 (.inr ⟨rfl, rfl⟩), hc, rfl⟩

theorem open_iff (h : G.Move G' N t) (hG : G.IsTree) (ht : G.Open (some t)) (hop : G.Open (some N))
    (hN : ¬ G.Below t N) (hc : G'.label t = some c) : G'.Open x ↔ G.Open x := by
  obtain ⟨PT, hPT⟩ := ht
  obtain ⟨PN, hPN⟩ := hop
  have hw := fun p y => h.walk_iff (p := p) (y := y) hG hPT hPN hN hc
  constructor
  · rintro ⟨p, hp⟩
    rcases (hw p x).1 hp with ⟨hp, -⟩ | ⟨r, -, hr⟩
    · exact ⟨p, hp⟩
    · exact Open.walk ⟨_, hPT⟩ hr
  · rintro ⟨p, hp⟩
    by_cases hb : ∀ a, x = some a → ¬ G.Below t a
    · exact ⟨p, (hw p x).2 (.inl ⟨hp, hb⟩)⟩
    · push Not at hb
      obtain ⟨a, rfl, r, hr⟩ := hb
      exact ⟨_, (hw _ _).2 (.inr ⟨r, rfl, hr⟩)⟩

theorem isTree (h : G.Move G' N t) (hG : G.IsTree) (ht : G.Open (some t)) (hop : G.Open (some N))
    (hN : ¬ G.Below t N) (hc : G'.label t = some c)
    (hfree : ∀ a, a ≠ t → G.child (some N) a → G.label a ≠ some c) : G'.IsTree := by
  have ho := fun x => h.open_iff (x := x) hG ht hop hN hc
  constructor
  · intro x y a hx hy hxa hya
    rw [ho] at hx hy
    rcases (h.child x a hx).1 hxa with ⟨hat, hxa⟩ | ⟨rfl, rfl⟩ <;>
      rcases (h.child y _ hy).1 hya with ⟨hat', hya⟩ | ⟨rfl, e⟩
    · exact hG.parent x y a hx hy hxa hya
    · exact absurd e hat
    · exact absurd rfl hat'
    · rfl
  · intro x a b hx ha hb hab
    rw [ho] at hx
    rcases (h.child x a hx).1 ha with ⟨hat, ha⟩ | ⟨rfl, rfl⟩ <;>
      rcases (h.child _ b hx).1 hb with ⟨hbt, hb⟩ | ⟨e, rfl⟩
    · rw [h.label x a hx ha hat, h.label x b hx hb hbt] at hab
      exact hG.sib x a b hx ha hb hab
    · subst e
      rw [h.label _ a hx ha hat, hc] at hab
      exact absurd hab (hfree a hat ha)
    · rw [h.label _ b hx hb hbt, hc] at hab
      exact absurd hab.symm (hfree b hbt hb)
    · rfl

/-- When the new directory is below the moved node, no path leads to anything below it any more. -/
theorem not_open (h : G.Move G' N t) (hG : G.IsTree) (ht : G.Open (some t)) (hN : G.Below t N)
    (ha : G.Below t a) : ¬ G'.Open (some a) := by
  have key : ∀ p y, G'.Walk none p y → G.Open y ∧ ∀ a, y = some a → ¬ G.Below t a := by
    intro p
    induction p using List.reverseRecOn with
    | nil => rintro y rfl; exact ⟨Open_none, nofun⟩
    | append_singleton p c ih =>
      intro y hp
      obtain ⟨x, a, hx, ha, hc, rfl⟩ := Walk_snoc.1 hp
      obtain ⟨hop, hb⟩ := ih x hx
      rcases (h.child x a hop).1 ha with ⟨hat, ha⟩ | ⟨rfl, rfl⟩
      · rw [h.label x a hop ha hat] at hc
        refine ⟨hop.child ha hc, ?_⟩
        rintro a' e hba
        obtain rfl := Option.some.inj e
        obtain ⟨d, -, ⟨q, hq⟩, hda, -⟩ := hba.parent hat
        obtain rfl := hG.parent _ _ a hop (ht.walk hq) ha hda
        exact hb d rfl ⟨q, hq⟩
      · exact absurd hN (hb N rfl)
  rintro ⟨p, hp⟩
  exact (key p _ hp).2 a rfl ha

end Move
end Move

end DirGraph

end VitaUtility

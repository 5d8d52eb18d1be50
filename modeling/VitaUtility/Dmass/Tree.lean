import VitaUtility.Dmass.DataSpec
import VitaUtility.Lib.DirGraph

/-!
# Sibling lists and the child relation

`Kids s x l`: the sibling list of the directory `x` (of the top, for `none`) is `l`. The updates that
the namespace calls are made of are stated for one list at a time: what the list they work on becomes,
and that the others stay. From this, `Listed` says of a whole state that all sibling lists end and that
no entry is in two of them; every call of the table keeps it.
-/

namespace VitaUtility.Dmass
open VfsState

variable {s s' : VfsState} {k : Answers} {r : Int} {a b d e : Addr} {v : NodePtr} {x y : Option Addr}
  {l l₁ l₂ : List Addr} {f f' : FapsDmassFs}

namespace VfsState

/-- The sibling list of `x` visits `l` and ends. -/
def Kids (s : VfsState) (x : Option Addr) (l : List Addr) : Prop := Chain s.next? (s.head x) l

def child (s : VfsState) (x : Option Addr) (a : Addr) : Prop := ∃ l, s.Kids x l ∧ a ∈ l

end VfsState

theorem child_iff (hK : s.Kids x l) : s.child x a ↔ a ∈ l := by
  constructor
  · rintro ⟨l', hK', ha⟩
    rwa [hK.unique hK']
  · intro ha
    exact ⟨l, hK, ha⟩

theorem Kids_live (hK : s.Kids x l) (ha : a ∈ l) : ∃ f, s.entries.lookup a = some f := by
  obtain ⟨q, hq⟩ := Chain.live hK ha
  obtain ⟨f, hf, -⟩ := Option.map_eq_some_iff.1 hq
  exact ⟨f, hf⟩

theorem child_live (h : s.child x a) : ∃ f, s.entries.lookup a = some f := by
  obtain ⟨l, hK, ha⟩ := h
  exact Kids_live hK ha

/-- Only live directories have children. -/
theorem parent_live (h : s.child (some d) a) : ∃ f, s.entries.lookup d = some f ∧ f.nextDir ≠ none := by
  obtain ⟨l, hK, ha⟩ := h
  have hne : s.head (some d) ≠ none := by
    intro hnone
    unfold Kids at hK
    rw [hnone, Chain.none_iff] at hK
    rw [hK] at ha
    cases ha
  obtain ⟨q, hq⟩ := Option.ne_none_iff_exists'.1 hne
  obtain ⟨f, hf, hfq⟩ := Option.bind_eq_some_iff.1 hq
  exact ⟨f, hf, by rw [hfq]; nofun⟩

theorem leaf_of_nextDir (hf : s.entries.lookup e = some f) (hnone : f.nextDir = none) : ¬ s.child (some e) a := by
  intro ha
  obtain ⟨g, hg, hne⟩ := parent_live ha
  obtain rfl := Option.some.inj (hf.symm.trans hg)
  exact hne hnone

/-- The directory tree by its pointers alone: an entry is labelled with its address. -/
def ptrGraph (s : VfsState) : DirGraph Addr Addr where
  child := s.child
  label := some

/-- Directories lead from `pTree` to `a`. -/
def Reachable (s : VfsState) (a : Addr) : Prop := (ptrGraph s).Open (some a)

/-! ### The links a list is read from -/

def linkView (f : FapsDmassFs) : Option Addr × Option Addr := (f.next, f.nextDir)

theorem next?_eq_view : s.next? a = (s.view linkView a).map (·.1) := by
  unfold next? view
  cases s.entries.lookup a <;> rfl

theorem head_some : s.head (some d) = (s.entries.lookup d).bind (·.nextDir) := rfl

theorem head_of_view (hv : s'.view (·.nextDir) d = s.view (·.nextDir) d) : s'.head (some d) = s.head (some d) := by
  have hj : ∀ t : VfsState, t.head (some d) = (t.view (·.nextDir) d).join := by
    intro t
    rw [head_some]
    unfold view
    cases t.entries.lookup d <;> rfl
  rw [hj, hj, hv]

theorem Kids_of_view (hp : s'.pTree = s.pTree) (hv : ∀ b, s'.view linkView b = s.view linkView b) :
    s'.Kids x l ↔ s.Kids x l := by
  have hn : s'.next? = s.next? := by
    funext b
    rw [next?_eq_view, next?_eq_view, hv]
  have hh : s'.head x = s.head x := by
    cases x with
    | none => exact hp
    | some d =>
      have := congrArg (Option.map (·.2)) (hv d)
      unfold view at this
      rw [Option.map_map, Option.map_map] at this
      exact head_of_view this
  unfold Kids
  rw [hn, hh]

theorem child_of_view (hp : s'.pTree = s.pTree) (hv : ∀ b, s'.view linkView b = s.view linkView b) :
    s'.child x a ↔ s.child x a := by
  unfold child
  simp only [Kids_of_view hp hv]

/-! ### Adding a cell, linking, unlinking and freeing, one list at a time -/

/-- A new entry `e` without links, whose block was not live. -/
theorem Kids_insert (he : s.entries.lookup e = none) (hs' : s'.entries = s.entries.insert e f)
    (hp : s'.pTree = s.pTree) (hd : f.nextDir = none) (hK : s.Kids x l) : s'.Kids x l := by
  have hh : s'.head x = s.head x := by
    cases x with
    | none => exact hp
    | some d =>
      rw [head_some, head_some, hs', lookup_insert_ite]
      split
      · subst d; rw [he]; exact hd
      · rfl
  unfold Kids
  rw [hh]
  refine Chain.congr hK fun b hb => ?_
  obtain ⟨g, hg⟩ := Kids_live hK hb
  have hbe : b ≠ e := by
    rintro rfl
    rw [he] at hg
    cases hg
  unfold next?
  rw [hs', lookup_insert_ite, if_neg hbe]

theorem next?_pushEntry (hf : s.entries.lookup e = some f) :
    (s.pushEntry d e).next? b = if b = e then some (s.head (some d)) else s.next? b := by
  have h₁ : (s.modEntry e fun f => { f with next := s.head (some d) }).next? b =
      if b = e then some (s.head (some d)) else s.next? b := by
    unfold next?
    rw [lookup_modEntry]
    split
    · rw [hf]; rfl
    · rfl
  rw [← h₁, next?_eq_view, next?_eq_view]
  unfold pushEntry view
  rw [lookup_modEntry]
  split
  · subst b
    cases VfsState.entries (s.modEntry e fun f => { f with next := s.head (some d) }) |>.lookup d <;> rfl
  · rfl

theorem head_pushEntry (hd : s.entries.lookup d = some f) :
    (s.pushEntry d e).head x = if x = some d then some e else s.head x := by
  cases x with
  | none => rfl
  | some c =>
    obtain ⟨f', hf'⟩ := lookup_of_keys (modEntry_keys s) hd
      (t := s.modEntry e fun f => { f with next := s.head (some d) })
    have h₁ : (s.modEntry e fun f => { f with next := s.head (some d) }).head (some c) = s.head (some c) :=
      head_of_view (view_modEntry fun _ => rfl)
    rw [← h₁]
    unfold pushEntry
    by_cases hc : c = d
    · subst c
      rw [if_pos rfl, head_some, lookup_modEntry, if_pos rfl, hf']
      rfl
    · rw [if_neg fun h => hc (Option.some.inj h), head_some, lookup_modEntry, if_neg hc]
      rfl

theorem Kids_push (hd : s.entries.lookup d = some f) (hf : s.entries.lookup e = some f')
    (hK : s.Kids (some d) l) (he : e ∉ l) : (s.pushEntry d e).Kids (some d) (e :: l) := by
  unfold Kids
  rw [head_pushEntry hd, if_pos rfl]
  refine Chain.push hK he ?_ fun b hb => ?_
  · rw [next?_pushEntry hf, if_pos rfl]
  · rw [next?_pushEntry hf, if_neg hb]

theorem Kids_push_ne (hd : s.entries.lookup d = some f) (hf : s.entries.lookup e = some f')
    (hK : s.Kids x l) (he : e ∉ l) (hx : x ≠ some d) : (s.pushEntry d e).Kids x l := by
  unfold Kids
  rw [head_pushEntry hd, if_neg hx]
  refine Chain.congr hK fun b hb => ?_
  rw [next?_pushEntry hf, if_neg]
  rintro rfl
  exact he hb

theorem next?_setLink {p q : Option Addr} : (s.setLink d p q).next? b =
    if p = some b then (s.next? b).map fun _ => q else s.next? b := by
  cases p with
  | none =>
    rw [if_neg nofun, next?_eq_view, next?_eq_view]
    unfold view
    show Option.map _ (Option.map _ ((modifyAt s.entries d _).lookup b)) = _
    rw [lookup_modifyAt]
    split
    · subst b
      cases s.entries.lookup d <;> rfl
    · rfl
  | some c =>
    unfold next?
    show Option.map _ ((modifyAt s.entries c _).lookup b) = _
    rw [lookup_modifyAt]
    by_cases hbc : b = c
    · subst b
      rw [if_pos rfl, if_pos rfl]
      cases s.entries.lookup c <;> rfl
    · rw [if_neg hbc, if_neg fun h => hbc (Option.some.inj h).symm]

theorem head_setLink {p q : Option Addr} (hd : s.entries.lookup d = some f) :
    (s.setLink d p q).head x = if x = some d ∧ p = none then q else s.head x := by
  cases x with
  | none => rw [if_neg fun h => nomatch h.1]; rfl
  | some c =>
    cases p with
    | none =>
      show ((modifyAt s.entries d _).lookup c).bind _ = _
      rw [lookup_modifyAt]
      by_cases hc : c = d
      · subst c
        rw [if_pos rfl, if_pos ⟨rfl, rfl⟩, hd]
        rfl
      · rw [if_neg hc, if_neg fun h => hc (Option.some.inj h.1)]
        rfl
    | some a =>
      rw [if_neg fun h => nomatch h.2]
      exact head_of_view (view_modEntry fun _ => rfl)

/-- Unlinking `e`: `pred` is the cell before it, or its link is the head of the list. -/
theorem Kids_unlink (hd : s.entries.lookup d = some f) (hf : s.entries.lookup e = some f')
    (hK : s.Kids (some d) (l₁ ++ e :: l₂)) :
    (s.setLink d l₁.getLast? f'.next).Kids (some d) (l₁ ++ l₂) := by
  have hq : s.next? e = some f'.next := by unfold next?; rw [hf]; rfl
  have hnd := Chain.nodup hK
  unfold Kids
  rw [head_setLink hd]
  have hif : (if some d = some d ∧ l₁.getLast? = none then f'.next else s.head (some d)) =
      if l₁ = [] then f'.next else s.head (some d) := by
    refine if_congr ?_ rfl rfl
    simp [List.getLast?_eq_none_iff]
  rw [hif]
  refine Chain.unlink hK hq (fun b hb => ?_) fun b _ hne => ?_
  · obtain ⟨g, hg⟩ := Kids_live hK (a := b) (by simp [List.mem_of_getLast? hb])
    rw [next?_setLink, if_pos hb]
    unfold next?
    rw [hg]
    rfl
  · rw [next?_setLink, if_neg hne]

theorem Kids_setLink_ne {p q : Option Addr} (hd : s.entries.lookup d = some f) (hK : s.Kids x l)
    (hx : x ≠ some d) (hp : ∀ a, p = some a → a ∉ l) : (s.setLink d p q).Kids x l := by
  unfold Kids
  rw [head_setLink hd, if_neg fun h => hx h.1]
  refine Chain.congr hK fun b hb => ?_
  rw [next?_setLink, if_neg]
  intro h
  exact hp b h hb

theorem Kids_erase (hs' : s'.entries = s.entries.erase e) (hp : s'.pTree = s.pTree) (hK : s.Kids x l)
    (he : e ∉ l) (hx : x ≠ some e) : s'.Kids x l := by
  have hh : s'.head x = s.head x := by
    cases x with
    | none => exact hp
    | some d => rw [head_some, head_some, hs', lookup_erase_ite, if_neg fun h => hx (congrArg some h)]
  unfold Kids
  rw [hh]
  refine Chain.congr hK fun b hb => ?_
  unfold next?
  rw [hs', lookup_erase_ite, if_neg]
  rintro rfl
  exact he hb

theorem Kids_dead (he : s.entries.lookup e = none) : s.Kids (some e) [] := by
  show s.head (some e) = none
  rw [head_some, he]
  rfl

/-- The loops over `*ppFsInfo` go through the sibling list. -/
theorem findEntryLink_eq (hK : s.Kids (some d) l) :
    findEntryLink s d e = .ok (linkOf (fun b => e == b) none l) := by
  refine findLink_chain hK (fun b hb q hq => ?_) ?_
  · obtain ⟨g, hg⟩ := Kids_live hK hb
    unfold next? at hq
    rw [hg] at hq
    unfold peekEntry
    rw [entry_eq_ok.2 hg]
    simp only [Option.map_some, Option.some.injEq] at hq
    subst hq
    rfl
  · refine Chain.length_le hK fun b hb => ?_
    exact mem_keys_iff.2 (Kids_live hK hb)

/-- The link that they find. -/
theorem findEntryLink_Kids {p : Option Addr} (hK : s.Kids (some d) l)
    (h : findEntryLink s d e = .ok (some (p, a))) : a = e ∧ ∃ l₁ l₂, l = l₁ ++ e :: l₂ ∧ p = l₁.getLast? := by
  rw [findEntryLink_eq hK] at h
  obtain ⟨l₁, l₂, rfl, -, hae, rfl⟩ := linkOf_eq_some.1 (Except.ok.inj h)
  obtain rfl := eq_of_beq hae
  exact ⟨rfl, l₁, l₂, rfl, Option.or_none⟩

theorem not_child_of_findEntryLink (hK : s.Kids (some d) l) (h : findEntryLink s d e = .ok none) :
    ¬ s.child (some d) e := by
  rw [findEntryLink_eq hK] at h
  rw [child_iff hK]
  intro he
  have hno := linkOf_eq_none.1 (Except.ok.inj h) e he
  rw [beq_self_eq_true] at hno
  cases hno

/-! ### Whole states -/

/-- Every sibling list ends, and no entry is in two of them. -/
structure Listed (s : VfsState) : Prop where
  kids : ∀ x, ∃ l, s.Kids x l
  parent : ∀ x y a, s.child x a → s.child y a → x = y

namespace Listed

theorem of_view (h : Listed s) (hp : s'.pTree = s.pTree) (hv : ∀ b, s'.view linkView b = s.view linkView b) :
    Listed s' := by
  refine ⟨fun x => ?_, fun x y a hx hy => ?_⟩
  · obtain ⟨l, hK⟩ := h.kids x
    exact ⟨l, (Kids_of_view hp hv).2 hK⟩
  · rw [child_of_view hp hv] at hx hy
    exact h.parent x y a hx hy

/-- When the child relation of `s'` is smaller, or larger by a new child, it still is a forest. -/
theorem of_child (h : Listed s) (hK : ∀ x, ∃ l, s'.Kids x l)
    (hch : ∀ x a, s'.child x a → s.child x a ∨ (x = y ∧ a = e)) (he : ∀ x, s'.child x e → x = y) : Listed s' := by
  refine ⟨hK, fun x z a hx hz => ?_⟩
  by_cases hae : a = e
  · subst a
    rw [he x hx, he z hz]
  · have hold : ∀ x, s'.child x a → s.child x a := fun x hx => (hch x a hx).resolve_right fun h => hae h.2
    exact h.parent x z a (hold x hx) (hold z hz)

theorem insert (h : Listed s) (he : s.entries.lookup e = none) (hs' : s'.entries = s.entries.insert e f)
    (hp : s'.pTree = s.pTree) (hd : f.nextDir = none) : Listed s' ∧ ∀ x a, s'.child x a ↔ s.child x a := by
  have hch : ∀ x a, s'.child x a ↔ s.child x a := by
    intro x a
    obtain ⟨l, hK⟩ := h.kids x
    rw [child_iff hK, child_iff (Kids_insert he hs' hp hd hK)]
  refine ⟨⟨fun x => ?_, fun x y a hx hy => ?_⟩, hch⟩
  · obtain ⟨l, hK⟩ := h.kids x
    exact ⟨l, Kids_insert he hs' hp hd hK⟩
  · rw [hch] at hx hy
    exact h.parent x y a hx hy

theorem push (h : Listed s) (hd : s.entries.lookup d = some f) (hf : s.entries.lookup e = some f')
    (he : ∀ x, ¬ s.child x e) : Listed (s.pushEntry d e) ∧
      ∀ x a, (s.pushEntry d e).child x a ↔ s.child x a ∨ (x = some d ∧ a = e) := by
  have hkids : ∀ x, ∃ l', (s.pushEntry d e).Kids x l' ∧ ∀ a, a ∈ l' ↔ s.child x a ∨ (x = some d ∧ a = e) := by
    intro x
    obtain ⟨l, hK⟩ := h.kids x
    have hel : e ∉ l := fun hel => he x ((child_iff hK).2 hel)
    by_cases hx : x = some d
    · subst x
      refine ⟨e :: l, Kids_push hd hf hK hel, fun a => ?_⟩
      rw [List.mem_cons, child_iff hK]
      simp [or_comm]
    · refine ⟨l, Kids_push_ne hd hf hK hel hx, fun a => ?_⟩
      rw [child_iff hK]
      simp [hx]
  have hch : ∀ x a, (s.pushEntry d e).child x a ↔ s.child x a ∨ (x = some d ∧ a = e) := by
    intro x a
    obtain ⟨l', hK', hl'⟩ := hkids x
    rw [child_iff hK', hl']
  refine ⟨h.of_child (fun x => ?_) (fun x a hx => (hch x a).1 hx) fun x hx => ?_, hch⟩
  · obtain ⟨l', hK', -⟩ := hkids x
    exact ⟨l', hK'⟩
  · exact (((hch x e).1 hx).resolve_left (he x)).1

theorem unlink (h : Listed s) (hd : s.entries.lookup d = some f) (hf : s.entries.lookup e = some f')
    (hK : s.Kids (some d) (l₁ ++ e :: l₂)) : Listed (s.setLink d l₁.getLast? f'.next) ∧
      ∀ x a, (s.setLink d l₁.getLast? f'.next).child x a ↔ s.child x a ∧ a ≠ e := by
  have hchild : ∀ a, a ∈ l₁ ++ e :: l₂ → s.child (some d) a := fun a ha => (child_iff hK).2 ha
  have hkids : ∀ x, ∃ l', (s.setLink d l₁.getLast? f'.next).Kids x l' ∧ ∀ a, a ∈ l' ↔ s.child x a ∧ a ≠ e := by
    intro x
    by_cases hx : x = some d
    · subst x
      refine ⟨l₁ ++ l₂, Kids_unlink hd hf hK, fun a => ?_⟩
      have hnd := Chain.nodup hK
      rw [List.nodup_middle, List.nodup_cons] at hnd
      rw [child_iff hK]
      constructor
      · intro ha
        refine ⟨?_, fun hae => hnd.1 (hae ▸ ha)⟩
        rcases List.mem_append.1 ha with ha | ha
        · exact List.mem_append_left _ ha
        · exact List.mem_append_right _ (List.mem_cons_of_mem _ ha)
      · rintro ⟨ha, hae⟩
        rcases List.mem_append.1 ha with ha | ha
        · exact List.mem_append_left _ ha
        · exact List.mem_append_right _ ((List.mem_cons.1 ha).resolve_left hae)
    · obtain ⟨l, hKx⟩ := h.kids x
      -- a cell is in one list, so the cell written to is not in this one
      have hdisj : ∀ a, s.child (some d) a → a ∉ l := fun a ha hal =>
        hx (h.parent x (some d) a ((child_iff hKx).2 hal) ha)
      refine ⟨l, Kids_setLink_ne hd hKx hx fun a ha => hdisj a (hchild a ?_), fun a => ?_⟩
      · exact List.mem_append_left _ (List.mem_of_getLast? ha)
      · rw [child_iff hKx]
        constructor
        · intro ha
          exact ⟨ha, fun hae => hdisj e (hchild e (by simp)) (hae ▸ ha)⟩
        · exact And.left
  have hch : ∀ x a, (s.setLink d l₁.getLast? f'.next).child x a ↔ s.child x a ∧ a ≠ e := by
    intro x a
    obtain ⟨l', hK', hl'⟩ := hkids x
    rw [child_iff hK', hl']
  refine ⟨⟨fun x => ?_, fun x y a hx hy => ?_⟩, hch⟩
  · obtain ⟨l', hK', -⟩ := hkids x
    exact ⟨l', hK'⟩
  · exact h.parent x y a ((hch x a).1 hx).1 ((hch y a).1 hy).1

/-- Freeing an entry that is in no list. -/
theorem erase (h : Listed s) (hs' : s'.entries = s.entries.erase e) (hp : s'.pTree = s.pTree)
    (he : ∀ x, ¬ s.child x e) : Listed s' ∧ ∀ x a, s'.child x a ↔ s.child x a ∧ x ≠ some e := by
  have hdead : s'.Kids (some e) [] := by
    refine Kids_dead ?_
    rw [hs', lookup_erase_ite, if_pos rfl]
  have hkids : ∀ x, x ≠ some e → ∀ l, s.Kids x l → s'.Kids x l := by
    intro x hx l hK
    exact Kids_erase hs' hp hK (fun hel => he x ((child_iff hK).2 hel)) hx
  have hch : ∀ x a, s'.child x a ↔ s.child x a ∧ x ≠ some e := by
    intro x a
    by_cases hx : x = some e
    · subst x
      rw [child_iff hdead]
      simp
    · obtain ⟨l, hK⟩ := h.kids x
      rw [child_iff hK, child_iff (hkids x hx l hK)]
      simp [hx]
  refine ⟨⟨fun x => ?_, fun x y a hx hy => ?_⟩, hch⟩
  · by_cases hx : x = some e
    · exact ⟨[], hx ▸ hdead⟩
    · obtain ⟨l, hK⟩ := h.kids x
      exact ⟨l, hkids x hx l hK⟩
  · exact h.parent x y a ((hch x a).1 hx).1 ((hch y a).1 hy).1

/-- A new entry `e`, linked into `d` (which is `e` itself if the freed block `d` was handed out again). -/
theorem make (h : Listed s) (he : e ∉ s.live) (hf : f.nextDir = none) (bufs : Finset Addr)
    (hd : (s.entries.insert e f).lookup d = some f') :
    let t := VfsState.pushEntry { s with entries := s.entries.insert e f, bufs := bufs } d e
    Listed t ∧ ∀ x a, t.child x a ↔ s.child x a ∨ (x = some d ∧ a = e) := by
  have hnone : s.entries.lookup e = none := Finmap.lookup_eq_none.2 fun h => he (mem_live.2 (.inl h))
  set s₁ : VfsState := { s with entries := s.entries.insert e f, bufs := bufs } with hs₁
  obtain ⟨h₁, hch⟩ : Listed s₁ ∧ ∀ x a, s₁.child x a ↔ s.child x a := h.insert hnone rfl rfl hf
  have hfree : ∀ x, ¬ s₁.child x e := by
    intro x hx
    obtain ⟨g, hg⟩ := child_live ((hch x e).1 hx)
    rw [hnone] at hg
    cases hg
  obtain ⟨h₂, hch₂⟩ := h₁.push hd (Finmap.lookup_insert _) hfree
  exact ⟨h₂, fun x a => by rw [hch₂, hch]⟩

/-- Unlinking the entry that the loop over `*ppFsInfo` met. -/
theorem found (h : Listed s) {p q : Option Addr} (hd : s.entries.lookup d = some f)
    (he : s.entries.lookup e = some f') (hl : findEntryLink s d e = .ok (some (p, a))) (hq : q = f'.next) :
    s.child (some d) e ∧ Listed (s.setLink d p q) ∧
      ∀ x b, (s.setLink d p q).child x b ↔ s.child x b ∧ b ≠ e := by
  obtain ⟨l, hK⟩ := h.kids (some d)
  obtain ⟨-, l₁, l₂, rfl, rfl⟩ := findEntryLink_Kids hK hl
  subst hq
  exact ⟨(child_iff hK).2 (by simp), h.unlink hd he hK⟩

/-- Moving the entry that the loop met to the front of `y`. -/
theorem move (h : Listed s) {p q : Option Addr} {c : Addr} {g : FapsDmassFs} (hd : s.entries.lookup d = some f)
    (he : s.entries.lookup e = some f') (hl : findEntryLink s d e = .ok (some (p, a))) (hq : q = f'.next)
    (hc : (s.setLink d p q).entries.lookup c = some g) :
    Listed ((s.setLink d p q).pushEntry c e) ∧
      ∀ x b, ((s.setLink d p q).pushEntry c e).child x b ↔ (s.child x b ∧ b ≠ e) ∨ (x = some c ∧ b = e) := by
  obtain ⟨-, h₁, hch⟩ := h.found hd he hl hq
  obtain ⟨g', hg'⟩ := lookup_of_keys (setLink_keys s (d := d) (p := p) (q := q)) he
  obtain ⟨h₂, hch₂⟩ := h₁.push hc hg' fun x hx => ((hch x e).1 hx).2 rfl
  exact ⟨h₂, fun x b => by rw [hch₂, hch]⟩

end Listed

/-! ### Every call keeps the lists -/

theorem listed_makeEntry {mode unk78 stAttr : UInt32} {fileInfo : SceVfsPath} {out : Option NodePtr}
    (h : Listed s) (hs : makeEntry (createDmassInfo mode) unk78 stAttr k v fileInfo s = .ok (r, out, s')) :
    Listed s' := by
  rcases makeEntry_ok hs with ⟨-, rfl⟩ | ⟨e, leak, name, bufs, n, d, fd, hB, -, -, -, hd, hs⟩
  · exact h
  have h₂ := (h.make hB.fresh rfl bufs hd).1
  rcases hs with ⟨-, vnodes, -, rfl⟩ | ⟨-, w, -, -, rfl⟩
  · exact h₂.of_view rfl fun b => rfl
  · exact h₂.of_view rfl fun b => view_modEntry (by intro; rfl)

theorem listed_deleteDmassInfo (h : Listed s) (he : ∀ x, ¬ s.child x e)
    (hs : deleteDmassInfo e s = .ok (r, s')) : Listed s' := by
  obtain ⟨f, -, ⟨-, rfl, -⟩ | ⟨-, -, -, rfl⟩⟩ := deleteDmassInfo_ok hs
  · exact h
  · refine (h.erase ?_ ?_ he).1 <;> rfl

theorem listed_unlinkAndDelete (h : Listed s) (hs : unlinkAndDelete v e s = .ok (r, s')) : Listed s' := by
  obtain ⟨n, d, fd, -, -, hd, ⟨-, -, rfl⟩ | ⟨pred, x, f, hl, hf, hs⟩⟩ := unlinkAndDelete_ok hs
  · exact h
  obtain ⟨-, h₁, hch⟩ := h.found hd hf hl rfl
  exact listed_deleteDmassInfo h₁ (fun x hx => ((hch x e).1 hx).2 rfl) hs

/-- A successful `vop_remove` or `vop_rmdir` takes `e` out of its list and frees it. -/
theorem unlinkAndDelete_freed (h : Listed s) (hs : unlinkAndDelete v e s = .ok (0, s')) :
    (∃ d, s.child (some d) e) ∧ s'.entries.keys = s.entries.keys.erase e ∧
      ∀ x a, s'.child x a ↔ s.child x a ∧ a ≠ e ∧ x ≠ some e := by
  obtain ⟨n, d, fd, -, -, hd, ⟨h0, -⟩ | ⟨pred, x, f, hl, hf, hs⟩⟩ := unlinkAndDelete_ok hs
  · exact absurd h0 (lt_irrefl _)
  obtain ⟨hchild, h₁, hch₁⟩ := h.found hd hf hl rfl
  obtain ⟨f', -, ⟨h0, -⟩ | ⟨-, -, -, hs'⟩⟩ := deleteDmassInfo_ok hs
  · exact absurd h0 (lt_irrefl _)
  have hent : s'.entries = (s.setLink d pred f.next).entries.erase e := by rw [hs']
  have htop : s'.pTree = (s.setLink d pred f.next).pTree := by rw [hs']; rfl
  obtain ⟨-, hch₂⟩ := h₁.erase hent htop fun x hx => ((hch₁ x e).1 hx).2 rfl
  refine ⟨⟨d, hchild⟩, ?_, fun x a => ?_⟩
  · rw [hent, Finmap.keys_erase, setLink_keys]
  · rw [hch₂, hch₁, and_assoc]

theorem Listed.isTree (h : Listed s) : (ptrGraph s).IsTree :=
  ⟨fun x y a _ _ hx hy => h.parent x y a hx hy, fun _ _ _ _ _ _ hab => Option.some.inj hab⟩

theorem listed_insert_same (h : Listed s) (hf : s.entries.lookup e = some f)
    (hs' : s'.entries = s.entries.insert e f') (hp : s'.pTree = s.pTree) (hlinks : linkView f' = linkView f) :
    Listed s' :=
  h.of_view hp fun _ => view_insert_same hf hs' hlinks

theorem listed_chstatEntry {stat : SceIoStat} {bit : UInt32} (h : Listed s)
    (hs : chstatEntry k v e stat bit s = .ok (r, s')) : Listed s' := by
  obtain ⟨f, mode, hf, -, ⟨times, -, -, -, rfl⟩ | ⟨-, -, n, data, bufs, times, -, -, -, -, rfl⟩⟩ :=
    chstatEntry_ok hs
  · exact listed_insert_same h hf rfl rfl rfl
  · exact listed_insert_same h hf rfl rfl rfl

theorem listed_step {call : VopCall} (h : Listed s) (hs : VopStep s call r s') : Listed s' := by
  unfold VopStep at hs
  cases call with
  | «open» k argp object =>
    rcases vopOpen_ok hs with ⟨-, rfl⟩ | ⟨-, n, e, f, a, -, -, hf, -, o, -, rfl⟩
    · exact h.of_view rfl fun b => rfl
    · exact listed_insert_same h hf rfl rfl rfl
  | create k argp =>
    obtain ⟨out, hs⟩ := dropOut_eq_ok.1 hs
    exact listed_makeEntry h hs
  | close argp =>
    rcases vopClose_ok hs with ⟨-, rfl⟩ | ⟨-, n, e, -, -, f, l₁, x, l₂, -, -, -, -, rfl⟩
    · exact h
    · exact h.of_view rfl fun b => view_modEntry fun _ => rfl
  | lookup k argp =>
    obtain ⟨out, hs⟩ := dropOut_eq_ok.1 hs
    rcases vopPartInit_ok hs with ⟨-, vnodes, -, rfl⟩ | ⟨-, n, e, f, w, -, -, -, -, -, rfl⟩
    · exact h.of_view rfl fun b => rfl
    · exact h.of_view rfl fun b => view_modEntry (by intro; rfl)
  | read argp =>
    obtain ⟨out, hs⟩ := dropOut_eq_ok.1 hs
    rcases vopRead_ok hs with rfl | ⟨n, e, f, m, -, -, -, -, -, rfl⟩
    · exact h
    · exact h.of_view rfl fun b => rfl
  | write k argp =>
    rcases vopWrite_ok hs with ⟨-, rfl⟩ | ⟨n, e, f, data, bufs, -, -, hf, -, -, -, rfl⟩
    · exact h
    · exact listed_insert_same h hf rfl rfl rfl
  | lseek argp =>
    rcases vopLseek_ok hs with ⟨-, rfl⟩ | ⟨-, n, -, -, rfl⟩
    · exact h
    · exact h.of_view rfl fun b => rfl
  | remove argp =>
    rcases vopRemove_ok hs with ⟨-, rfl⟩ | ⟨e, f, -, -, -, hs⟩
    · exact h
    · exact listed_unlinkAndDelete h hs
  | mkdir k argp =>
    obtain ⟨out, hs⟩ := dropOut_eq_ok.1 hs
    rcases vopMkdir_ok hs with ⟨-, rfl⟩ | ⟨n, d, f, -, -, -, -, hs⟩
    · exact h
    · exact listed_makeEntry h hs
  | rmdir argp =>
    rcases vopRmdir_ok hs with ⟨-, rfl⟩ | ⟨e, f, -, -, -, -, hs⟩
    · exact h
    · exact listed_unlinkAndDelete h hs
  | dopen k argp =>
    rcases vopDopen_ok hs with ⟨-, rfl⟩ | ⟨-, n, e, f, a, -, -, -, -, rfl⟩
    · exact h
    · exact h.of_view rfl fun b => view_modEntry fun _ => rfl
  | dclose argp =>
    rcases vopDclose_ok hs with ⟨-, rfl⟩ | ⟨-, n, e, -, -, f, l₁, x, l₂, -, -, -, -, rfl⟩
    · exact h
    · exact h.of_view rfl fun b => view_modEntry fun _ => rfl
  | dread argp =>
    obtain ⟨out, hs⟩ := dropOut_eq_ok.1 hs
    rcases vopDread_ok hs with ⟨-, rfl⟩ | ⟨-, n, e, f, l₁, x, l₂, a, c, -, -, -, -, -, -, -, rfl⟩
    · exact h
    · exact h.of_view rfl fun b => view_modEntry fun _ => rfl
  | chstat k argp =>
    rcases vopChstat_ok hs with ⟨-, rfl⟩ | ⟨e, -, hs⟩
    · exact h
    · exact listed_chstatEntry h hs
  | rename k argp =>
    obtain ⟨out, hs⟩ := dropOut_eq_ok.1 hs
    rcases vopRename_ok hs with ⟨-, vnodes, -, rfl⟩ |
      ⟨-, -, n, d, fd, e, f, pred, x, w, n3, d3, fd3, v, old, name, hn⟩
    · exact h.of_view rfl fun b => rfl
    obtain ⟨-, -, hd, -, hf, hl, -, -, -, -, hd3, -, -, -, rfl⟩ := hn
    exact (h.move hd hf hl rfl hd3).1.of_view rfl fun b => view_modEntry (by intro; rfl)
  | pread argp =>
    obtain rfl := VopStep.pread_eq hs
    exact h
  | pwrite k argp =>
    rcases vopPwrite_ok hs with ⟨-, rfl⟩ | ⟨n, e, f, data, bufs, -, -, hf, -, -, -, rfl⟩
    · exact h
    · exact listed_insert_same h hf rfl rfl rfl
  | inactive argp =>
    rcases vopInactive_ok hs with ⟨-, rfl⟩ | ⟨-, v, n, -, -, ⟨-, rfl⟩ | ⟨e, f, -, -, rfl⟩⟩
    · exact h
    · exact h.of_view rfl fun b => rfl
    · exact h.of_view rfl fun b => view_modEntry fun _ => rfl
  | chstatByFd k argp =>
    rcases vopChstatByFd_ok hs with ⟨-, rfl⟩ | ⟨n, e, -, -, hs⟩
    · exact h
    · exact listed_chstatEntry h hs

theorem kids_freshMount (h : FreshMount s) : ∃ e, s.pTree = some e ∧ s.Kids none [e] ∧ ∀ d, s.Kids (some d) [] := by
  obtain ⟨k, v, m, s₀, e, leak, name, bufs, n, -, -, -, hent, -, hp, -⟩ := freshMount_ok h
  refine ⟨e, hp, ⟨hp, none, ?_, rfl⟩, fun d => ?_⟩
  · unfold next?
    rw [hent, lookup_insert_ite, if_pos rfl]
    rfl
  · show s.head (some d) = none
    rw [head_some, hent, lookup_insert_ite]
    split <;> rfl

theorem child_freshMount (h : FreshMount s) (ha : s.child x a) : x = none ∧ s.pTree = some a := by
  obtain ⟨e, hp, hroot, hdir⟩ := kids_freshMount h
  cases x with
  | none =>
    rw [child_iff hroot, List.mem_singleton] at ha
    rw [ha]
    exact ⟨rfl, hp⟩
  | some d =>
    rw [child_iff (hdir d)] at ha
    cases ha

theorem listed_freshMount (h : FreshMount s) : Listed s := by
  obtain ⟨e, -, hroot, hdir⟩ := kids_freshMount h
  refine ⟨fun x => ?_, fun x y a hx hy => ?_⟩
  · cases x with
    | none => exact ⟨[e], hroot⟩
    | some d => exact ⟨[], hdir d⟩
  · rw [(child_freshMount h hx).1, (child_freshMount h hy).1]

end VitaUtility.Dmass

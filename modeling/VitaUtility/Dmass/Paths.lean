import VitaUtility.Dmass.Resolution

/-!
# Well-formed trees and what their paths resolve to

The directory tree is the graph of the sibling lists, each entry labelled with its name. In a well-formed
tree `get_fs_entry` neither faults nor hangs, and it resolves a path to an entry exactly when the components
of the path lead there from the top (`resolves_iff`); so the tree is a map from paths to entries.
-/

namespace VitaUtility.Dmass
open VfsState

variable {s s' : VfsState} {k : Answers} {r : Int} {a b d e : Addr} {v : NodePtr} {x y : Option Addr}
  {l : List Addr} {f : FapsDmassFs} {c : CStr} {cs : List CStr} {path : Option CStr}

/-- The directory tree by the names of its entries. -/
def nameGraph (s : VfsState) : DirGraph Addr CStr where
  child := s.child
  label := s.nameOf

/-- Sibling lists end and are disjoint; siblings have different names, which are components of paths; and
only directories have children. -/
structure WellFormed (s : VfsState) : Prop where
  lists : Listed s
  sib : ∀ x a b, (nameGraph s).Open x → s.child x a → s.child x b → s.nameOf a = s.nameOf b → a = b
  named : ∀ x a, (nameGraph s).Open x → s.child x a → ∃ c, s.nameOf a = some c ∧ IsName c
  dirs : ∀ d f a, (nameGraph s).Open (some d) → s.entries.lookup d = some f → s.child (some d) a →
    isDir f.stat.stMode

/-- The whole heap of entries hangs from `pTree`. -/
def AllReachable (s : VfsState) : Prop := ∀ e ∈ s.entries.keys, Reachable s e

namespace WellFormed

theorem isTree (h : WellFormed s) : (nameGraph s).IsTree :=
  ⟨fun x y a _ _ hx hy => h.lists.parent x y a hx hy, h.sib⟩

theorem open_child (h : WellFormed s) (hx : (nameGraph s).Open x) (ha : s.child x a) :
    (nameGraph s).Open (some a) := by
  obtain ⟨c, hc, -⟩ := h.named x a hx ha
  exact DirGraph.Open.child hx ha hc

/-- Directories lead to an entry exactly when a path of names does. -/
theorem open_iff_reachable (h : WellFormed s) : (nameGraph s).Open (some a) ↔ Reachable s a := by
  constructor
  · intro ho
    exact ho.relabel (fun _ _ => id) fun _ b _ _ => ⟨b, rfl⟩
  · intro hr
    refine hr.relabel (fun _ _ => id) fun x b hx hb => ?_
    obtain ⟨c, hc, -⟩ := h.named x b hx hb
    exact ⟨c, hc⟩

end WellFormed

/-- A mounted file system is a well-formed tree when the name of the root directory could be copied. -/
theorem wellFormed_freshMount (h : FreshMount s) (hroot : ∀ e, s.pTree = some e → s.nameOf e = some mdName) :
    WellFormed s := by
  have hchild := fun x a (ha : s.child x a) => child_freshMount h ha
  refine ⟨listed_freshMount h, fun x a b _ ha hb _ => ?_, fun x a _ ha => ?_, fun d f a _ _ ha => ?_⟩
  · exact Option.some.inj ((hchild x a ha).2.symm.trans (hchild x b hb).2)
  · exact named_freshMount h hroot ha
  · cases (hchild _ a ha).1

theorem allReachable_freshMount (h : FreshMount s) : AllReachable s := by
  obtain ⟨e, hp, hroot, -⟩ := kids_freshMount h
  intro b hb
  obtain ⟨k, v, m, s₀, e', leak, name, bufs, n, -, -, -, hent, -, hp', -⟩ := freshMount_ok h
  obtain rfl := Option.some.inj (hp.symm.trans hp')
  obtain rfl : b = e := by
    rw [hent, Finmap.mem_keys, Finmap.mem_insert] at hb
    exact hb.resolve_right Finmap.notMem_empty
  exact DirGraph.Open_none.child ((child_iff hroot).2 (List.mem_singleton_self b)) rfl

theorem wellFormed_mounted : WellFormed mounted := wellFormed_freshMount freshMount_mounted nameOf_mounted

/-! ### Paths and walks -/

theorem FirstWalk.walk (h : FirstWalk s x cs y) : (nameGraph s).Walk x cs y := by
  induction cs generalizing x with
  | nil => exact h
  | cons c cs ih =>
    obtain ⟨a, ha, h⟩ := h
    have hchild := ha.child
    obtain ⟨-, -, -, -, hac⟩ := ha
    exact ⟨a, hchild, hac, ih h⟩

namespace WellFormed

theorem namedTree (h : WellFormed s) : NamedTree s := by
  refine ⟨fun x _ => h.lists.kids x, fun x a hx ha => h.named x a ?_ ha⟩
  cases x with
  | none => exact DirGraph.Open_none
  | some d => exact h.open_iff_reachable.2 hx

/-- Siblings have different names, so the only one of a name is the first. -/
theorem firstNamed (h : WellFormed s) (hx : (nameGraph s).Open x) (ha : s.child x a) (hac : s.nameOf a = some c) :
    FirstNamed s x c a := by
  obtain ⟨l, hK, hal⟩ := ha
  obtain ⟨l₁, l₂, rfl⟩ := List.append_of_mem hal
  refine ⟨l₁, l₂, hK, fun b hb => ?_, hac⟩
  have hchild : ∀ b ∈ l₁ ++ a :: l₂, s.child x b := fun b hb => (child_iff hK).2 hb
  have hbx := hchild b (List.mem_append_left _ hb)
  obtain ⟨c', hc', -⟩ := h.named x b hx hbx
  refine ⟨c', hc', ?_⟩
  rintro rfl
  obtain rfl := h.sib x b a hx hbx (hchild a hal) (hc'.trans hac.symm)
  have hnd := Chain.nodup hK
  rw [List.nodup_middle, List.nodup_cons] at hnd
  exact hnd.1 (List.mem_append_left _ hb)

theorem firstWalk (h : WellFormed s) (hx : (nameGraph s).Open x) (hw : (nameGraph s).Walk x cs y) :
    FirstWalk s x cs y := by
  induction cs generalizing x with
  | nil => exact hw
  | cons c cs ih =>
    obtain ⟨a, ha, hac, hw⟩ := hw
    exact ⟨a, h.firstNamed hx ha hac, ih (h.open_child hx ha) hw⟩

end WellFormed

theorem getFsEntry_spec (h : WellFormed s) (path : Option CStr) :
    (Fails s path ∧ ∀ cs e, (∀ c ∈ cs, IsName c) → path = some (pathStr cs) →
      ¬ (nameGraph s).Walk none cs (some e)) ∨
    ∃ cs e, Resolves s path e ∧ (∀ c ∈ cs, IsName c) ∧ path = some (pathStr cs) ∧
      (nameGraph s).Walk none cs (some e) := by
  rcases getFsEntry_sound h.namedTree path with ⟨r, -, hr⟩ | ⟨e, he, cs, -, hn, hp, hw⟩
  · refine .inl ⟨⟨r, hr⟩, fun cs e hn hp hw => ?_⟩
    rw [hp] at hr
    exact ((h.firstWalk DirGraph.Open_none hw).resolves hn).not_fails ⟨r, hr⟩
  · exact .inr ⟨cs, e, he, hn, hp, hw.walk⟩

namespace WellFormed

theorem resolves_or_fails (h : WellFormed s) (path : Option CStr) : (∃ e, Resolves s path e) ∨ Fails s path := by
  rcases getFsEntry_spec h path with ⟨hf, -⟩ | ⟨cs, e, he, -⟩
  · exact .inr hf
  · exact .inl ⟨e, he⟩

/-- A path resolves to `e` exactly when its components lead from the top to `e`. -/
theorem resolves_iff (h : WellFormed s) : Resolves s path e ↔
    ∃ cs, (∀ c ∈ cs, IsName c) ∧ path = some (pathStr cs) ∧ (nameGraph s).Walk none cs (some e) := by
  constructor
  · intro he
    rcases getFsEntry_spec h path with ⟨hf, -⟩ | ⟨cs, e', he', hn, hp, hw⟩
    · exact absurd hf he.not_fails
    · obtain rfl := he.unique he'
      exact ⟨cs, hn, hp, hw⟩
  · rintro ⟨cs, hn, rfl, hw⟩
    rcases getFsEntry_spec h (some (pathStr cs)) with ⟨-, hno⟩ | ⟨ds, e', he', hn', hp, hw'⟩
    · exact absurd hw (hno cs e hn rfl)
    · obtain rfl := pathStr_injective (fun c hc => (hn c hc).no_slash) (fun c hc => (hn' c hc).no_slash)
        (Option.some.inj hp)
      obtain rfl := Option.some.inj (h.isTree.walk_unique DirGraph.Open_none hw hw')
      exact he'

theorem fails_iff (h : WellFormed s) : Fails s path ↔ ∀ e, ¬ Resolves s path e := by
  constructor
  · intro hf e he
    exact he.not_fails hf
  · intro hno
    rcases h.resolves_or_fails path with ⟨e, he⟩ | hf
    · exact absurd he (hno e)
    · exact hf

theorem resolves_pathStr (h : WellFormed s) (hn : ∀ c ∈ cs, IsName c) :
    Resolves s (some (pathStr cs)) e ↔ (nameGraph s).Walk none cs (some e) := by
  rw [h.resolves_iff]
  constructor
  · rintro ⟨ds, hn', hp, hw⟩
    rwa [pathStr_injective (fun c hc => (hn c hc).no_slash) (fun c hc => (hn' c hc).no_slash) (Option.some.inj hp)]
  · intro hw
    exact ⟨cs, hn, rfl, hw⟩

end WellFormed

/-! ### A new entry -/

section
variable {mode : UInt32} {name : Option NameBlock} {bufs : Finset Addr}

/-- The state with the block of a new entry `e`, not linked yet. -/
def withEntry (s : VfsState) (k : Answers) (mode : UInt32) (name : Option NameBlock) (e : Addr)
    (bufs : Finset Addr) : VfsState :=
  { s with entries := s.entries.insert e (newDmassFs mode k name), bufs := bufs }

/-- `s'` has the entries of `t` with `e` put first into `d`, perhaps with a vnode. -/
def Linked (t s' : VfsState) (d e : Addr) : Prop :=
  s'.entries = (t.pushEntry d e).entries ∨
    ∃ w, s'.entries = ((t.pushEntry d e).modEntry e fun f => { f with pNode := some w }).entries

namespace Linked
variable {t : VfsState}

theorem view_push {β : Type} {π : FapsDmassFs → β} (h : Linked t s' d e) (hπ : ∀ f q, π { f with pNode := q } = π f)
    (b : Addr) : s'.view π b = (t.pushEntry d e).view π b := by
  unfold view
  rcases h with h | ⟨w, h⟩ <;> rw [h]
  exact view_modEntry fun f => hπ f (some w)

theorem view {β : Type} {π : FapsDmassFs → β} (h : Linked t s' d e) (h₁ : ∀ f q, π { f with nextDir := q } = π f)
    (h₂ : ∀ f q, π { f with next := q } = π f) (h₃ : ∀ f q, π { f with pNode := q } = π f) (b : Addr) :
    s'.view π b = t.view π b :=
  (h.view_push h₃ b).trans (view_pushEntry h₁ h₂)

theorem keys (h : Linked t s' d e) : s'.entries.keys = t.entries.keys := by
  rcases h with h | ⟨w, h⟩ <;> rw [h]
  · exact pushEntry_keys t
  · rw [modEntry_keys, pushEntry_keys]

end Linked

/-- The lists after it: `e` is a new child of `d`. -/
theorem listed_linked {fd : FapsDmassFs} (hL : Listed s) (he : e ∉ s.live)
    (hd : (withEntry s k mode name e bufs).entries.lookup d = some fd)
    (h : Linked (withEntry s k mode name e bufs) s' d e) (hp : s'.pTree = s.pTree) :
    Listed s' ∧ ∀ x a, s'.child x a ↔ s.child x a ∨ (x = some d ∧ a = e) := by
  obtain ⟨hL₁, hch⟩ : Listed ((withEntry s k mode name e bufs).pushEntry d e) ∧ _ := hL.make he rfl bufs hd
  have hviews := h.view_push (π := linkView) (by intros; rfl)
  refine ⟨hL₁.of_view hp hviews, fun x a => ?_⟩
  exact (child_of_view (s := (withEntry s k mode name e bufs).pushEntry d e) hp hviews).trans (hch x a)

theorem head_linked {fd : FapsDmassFs} (hd : (withEntry s k mode name e bufs).entries.lookup d = some fd)
    (h : Linked (withEntry s k mode name e bufs) s' d e) (b : Addr) : s'.head (some b) =
      if some b = some d then some e else (withEntry s k mode name e bufs).head (some b) := by
  have hhead : s'.head (some b) = ((withEntry s k mode name e bufs).pushEntry d e).head (some b) :=
    head_of_view (h.view_push (by intros; rfl) b)
  rw [hhead, head_pushEntry hd]

theorem nameOf_linked (h : Linked (withEntry s k mode name e bufs) s' d e) (b : Addr) :
    s'.nameOf b = if b = e then name.map (·.str) else s.nameOf b := by
  have hview : s'.nameOf b = (withEntry s k mode name e bufs).nameOf b :=
    nameOf_of_view (h.view (by intros; rfl) (by intros; rfl) (by intros; rfl) b)
  rw [hview]
  unfold nameOf VfsState.view withEntry
  rw [lookup_insert_ite]
  split <;> rfl

theorem live_linked (h : Linked (withEntry s k mode name e bufs) s' d e) : e ∈ s'.live := by
  rw [live, h.keys]
  refine Finset.mem_union_left _ (mem_keys_iff.2 ⟨newDmassFs mode k name, ?_⟩)
  unfold withEntry
  rw [lookup_insert_ite, if_pos rfl]

end

end VitaUtility.Dmass

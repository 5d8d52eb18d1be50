import VitaUtility.VfsMountOld.Items

/-!
# Trees of `FileEntry`

`next` leads to the next entry of a directory and `next_dir` to the first entry in it, so the entries are a forest in
which a node has the forest inside it and the forest after it. `Holds` says that the links spell one out, `Names` which
node of it a path without a leading `/` names.
-/

namespace VitaUtility.VfsMountOld
open Dmass (Addr NodePtr Store Fault SceIoStat SCE_S_IFREG SCE_S_IFDIR)

structure Node where
  addr : Addr
  name : CStr
  stat : Option SceIoStat

namespace Node
variable (x : Node)

def mode : UInt32 := (x.stat.map (·.stMode)).getD 0

/-- `(stat->st_mode & bit) != 0` -/
def HasBit (bit : UInt32) : Prop := x.mode &&& bit ≠ 0

instance (bit : UInt32) : Decidable (x.HasBit bit) := inferInstanceAs (Decidable (_ ≠ _))

def IsDir : Prop := x.HasBit SCE_S_IFDIR

instance : Decidable x.IsDir := inferInstanceAs (Decidable (_ ≠ _))

end Node

/-- The entries of a directory: the first, what is in it, and the others. -/
inductive Forest where
  | nil
  | cons (x : Node) (sub next : Forest)

namespace Forest

/-- The entries, each with what is in it. -/
def siblings : Forest → List (Node × Forest)
  | nil => []
  | cons x sub next => (x, sub) :: next.siblings

def names (f : Forest) : List CStr := f.siblings.map (·.1.name)

def addrs : Forest → List Addr
  | nil => []
  | cons x sub next => x.addr :: (sub.addrs ++ next.addrs)

/-- Every node has the property. -/
def All (P : Node → Prop) : Forest → Prop
  | nil => True
  | cons x sub next => P x ∧ sub.All P ∧ next.All P

/-- No two entries of a directory have one name. -/
def Unique : Forest → Prop
  | nil => True
  | cons x sub next => x.name ∉ next.names ∧ sub.Unique ∧ next.Unique

/-- A tree of entries, all of them with a `stat`. -/
structure IsTree (f : Forest) : Prop where
  names : f.All fun x => IsName x.name
  unique : f.Unique
  addrs : f.addrs.Nodup
  stats : f.All fun x => x.stat.isSome

/-- The names `cs` lead to `x`, through directories. -/
inductive Leads : Forest → List CStr → Node → Prop
  | here {f : Forest} {x : Node} {sub : Forest} : (x, sub) ∈ f.siblings → Leads f [x.name] x
  | into {f : Forest} {x y : Node} {sub : Forest} {cs : List CStr} : (x, sub) ∈ f.siblings → x.IsDir →
    Leads sub cs y → Leads f (x.name :: cs) y

end Forest

/-- `c₁/c₂/..` -/
def relPath : List CStr → CStr
  | [] => []
  | [c] => c
  | c :: cs => c ++ slash :: relPath cs

/-- The path names the node `x`. -/
def Forest.Names (f : Forest) (path : CStr) (x : Node) : Prop := ∃ cs, path = relPath cs ∧ f.Leads cs x

/-- The links from `p` on spell out the forest. -/
def VfsState.Holds (s : VfsState) : Option Addr → Forest → Prop
  | p, .nil => p = none
  | p, .cons x sub next => p = some x.addr ∧ ∃ e, s.entries.lookup x.addr = some e ∧ e.name = x.name ∧ e.stat = x.stat ∧
    s.Holds e.nextDir sub ∧ s.Holds e.next next

namespace Forest
variable {f sub next : Forest} {x y : Node} {cs : List CStr} {c path rest : CStr} {P : Node → Prop} {s : VfsState} {p : Option Addr}

theorem Leads.ne_nil (h : f.Leads cs x) : cs ≠ [] := by
  cases h <;> simp

theorem relPath_cons (h : cs ≠ []) : relPath (c :: cs) = c ++ slash :: relPath cs := by
  cases cs with
  | nil => exact absurd rfl h
  | cons d cs => rfl

theorem not_leads_nil : ¬ nil.Leads cs y := by
  rintro (h | ⟨h, -, -⟩) <;> cases h

theorem leads_cons : (cons x sub next).Leads cs y ↔ (cs = [x.name] ∧ y = x) ∨
    (∃ cs', cs = x.name :: cs' ∧ x.IsDir ∧ sub.Leads cs' y) ∨ next.Leads cs y := by
  constructor
  · rintro (h | ⟨h, hdir, hsub⟩)
    · rcases List.mem_cons.1 h with heq | h
      · cases heq
        exact .inl ⟨rfl, rfl⟩
      · exact .inr (.inr (.here h))
    · rcases List.mem_cons.1 h with heq | h
      · cases heq
        exact .inr (.inl ⟨_, rfl, hdir, hsub⟩)
      · exact .inr (.inr (.into h hdir hsub))
  · rintro (⟨rfl, rfl⟩ | ⟨cs', rfl, hdir, hsub⟩ | (h | ⟨h, hdir, hsub⟩))
    · exact .here List.mem_cons_self
    · exact .into List.mem_cons_self hdir hsub
    · exact .here (List.mem_cons_of_mem _ h)
    · exact .into (List.mem_cons_of_mem _ h) hdir hsub

theorem not_names_nil : ¬ nil.Names path y := fun ⟨_, _, h⟩ => not_leads_nil h

theorem names_cons : (cons x sub next).Names path y ↔ (path = x.name ∧ y = x) ∨
    (∃ rest, path = x.name ++ slash :: rest ∧ x.IsDir ∧ sub.Names rest y) ∨ next.Names path y := by
  constructor
  · rintro ⟨cs, rfl, h⟩
    rcases leads_cons.1 h with ⟨rfl, rfl⟩ | ⟨cs', rfl, hdir, hsub⟩ | h
    · exact .inl ⟨rfl, rfl⟩
    · exact .inr (.inl ⟨relPath cs', relPath_cons hsub.ne_nil, hdir, cs', rfl, hsub⟩)
    · exact .inr (.inr ⟨cs, rfl, h⟩)
  · rintro (⟨rfl, rfl⟩ | ⟨rest, rfl, hdir, cs, rfl, h⟩ | ⟨cs, rfl, h⟩)
    · exact ⟨[y.name], rfl, leads_cons.2 (.inl ⟨rfl, rfl⟩)⟩
    · exact ⟨x.name :: cs, (relPath_cons h.ne_nil).symm, leads_cons.2 (.inr (.inl ⟨cs, rfl, hdir, h⟩))⟩
    · exact ⟨cs, rfl, leads_cons.2 (.inr (.inr h))⟩

/-- The first component of a path. -/
def first (path : CStr) : CStr := path.takeWhile (· ≠ slash)

theorem first_eq (hc : slash ∉ c) : first c = c := by
  have h := (span_pathStr hc []).1
  rwa [pathStr, List.flatMap_nil, List.append_nil] at h

theorem first_append (hc : slash ∉ c) : first (c ++ slash :: rest) = c := by
  have hall : ∀ z ∈ c, decide (z ≠ slash) = true := by
    intro z hz
    refine decide_eq_true ?_
    rintro rfl
    exact hc hz
  rw [first, List.takeWhile_append_of_pos hall]
  simp

/-- A path that names something starts with the name of an entry of the directory. -/
theorem Names.first_mem (h : f.Names path y) (hf : f.All fun x => IsName x.name) : first path ∈ f.names := by
  induction f generalizing path with
  | nil => exact absurd h not_names_nil
  | cons x sub next ihs ihn =>
    obtain ⟨hx, -, hnext⟩ := hf
    rcases names_cons.1 h with ⟨rfl, -⟩ | ⟨rest, rfl, -, -⟩ | h
    · rw [first_eq hx.no_slash]
      exact List.mem_cons_self
    · rw [first_append hx.no_slash]
      exact List.mem_cons_self
    · exact List.mem_cons_of_mem _ (ihn h hnext)

/-- The name of the first entry names that entry. -/
theorem names_self (hx : IsName x.name) (hn : next.All fun x => IsName x.name) (hfresh : x.name ∉ next.names) :
    (cons x sub next).Names x.name y ↔ y = x := by
  refine names_cons.trans ⟨?_, fun h => .inl ⟨rfl, h⟩⟩
  rintro (⟨-, h⟩ | ⟨rest, h, -⟩ | h)
  · exact h
  · have := congrArg List.length h
    simp at this
  · exact absurd (first_eq hx.no_slash ▸ h.first_mem hn) hfresh

/-- A path that goes on from the first entry names what is in it. -/
theorem names_inner (hx : IsName x.name) (hn : next.All fun x => IsName x.name) (hfresh : x.name ∉ next.names) :
    (cons x sub next).Names (x.name ++ slash :: rest) y ↔ x.IsDir ∧ sub.Names rest y := by
  refine names_cons.trans ⟨?_, fun h => .inr (.inl ⟨rest, rfl, h⟩)⟩
  rintro (⟨h, -⟩ | ⟨rest', h, hsub⟩ | h)
  · have := congrArg List.length h
    simp at this
  · obtain rfl : rest = rest' := by simpa using h
    exact hsub
  · exact absurd (first_append hx.no_slash ▸ h.first_mem hn) hfresh

/-- Any other path names what comes after it. -/
theorem names_after (hne : path ≠ x.name) (hslash : ∀ rest, path ≠ x.name ++ slash :: rest) :
    (cons x sub next).Names path y ↔ next.Names path y := by
  refine names_cons.trans ⟨?_, fun h => .inr (.inr h)⟩
  rintro (⟨h, -⟩ | ⟨rest, h, -⟩ | h)
  · exact absurd h hne
  · exact absurd h (hslash rest)
  · exact h

theorem Names.mem_addrs (h : f.Names path y) : y.addr ∈ f.addrs := by
  induction f generalizing path with
  | nil => exact absurd h not_names_nil
  | cons x sub next ihs ihn =>
    rw [addrs, List.mem_cons, List.mem_append]
    rcases names_cons.1 h with ⟨-, rfl⟩ | ⟨rest, -, -, h⟩ | h
    · exact .inl rfl
    · exact .inr (.inl (ihs h))
    · exact .inr (.inr (ihn h))

/-- The addresses of a forest that the links spell out are those of live blocks. -/
theorem mem_keys (h : s.Holds p f) : ∀ a ∈ f.addrs, a ∈ s.entries.keys := by
  induction f generalizing p with
  | nil => nofun
  | cons x sub next ihs ihn =>
    obtain ⟨-, e, he, -, -, hsub, hnext⟩ := h
    intro a ha
    rw [addrs, List.mem_cons, List.mem_append] at ha
    rcases ha with rfl | ha | ha
    · exact Finmap.mem_keys.2 (Finmap.mem_iff.2 ⟨e, he⟩)
    · exact ihs hsub a ha
    · exact ihn hnext a ha

/-- What a walk of at most `n` entries finds at the first. -/
theorem holds_cons {n : Nat} (h : s.Holds p (cons x sub next)) (hn : (cons x sub next).addrs.length ≤ n) :
    ∃ e m, p = some x.addr ∧ n = m + 1 ∧ s.entries.lookup x.addr = some e ∧ e.name = x.name ∧ e.stat = x.stat ∧
      (s.Holds e.nextDir sub ∧ sub.addrs.length ≤ m) ∧ s.Holds e.next next ∧ next.addrs.length ≤ m := by
  obtain ⟨hp, e, he, hname, hstat, hsub, hnext⟩ := h
  rw [addrs, List.length_cons, List.length_append] at hn
  exact ⟨e, n - 1, hp, by omega, he, hname, hstat, ⟨hsub, by omega⟩, hnext, by omega⟩

theorem length_le_keys (h : s.Holds p f) (hnd : f.addrs.Nodup) : f.addrs.length ≤ s.entries.keys.card := by
  rw [← List.toFinset_card_of_nodup hnd]
  exact Finset.card_le_card fun a ha => mem_keys h a (List.mem_toFinset.1 ha)

end Forest

end VitaUtility.VfsMountOld

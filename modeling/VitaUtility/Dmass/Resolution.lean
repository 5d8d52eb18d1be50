import VitaUtility.Dmass.Tree

/-!
# What `get_fs_entry` resolves a path to

A path is resolved by first siblings: in the list at `pTree` and then in the list of each picked entry, the loop
picks the first sibling that has the name of the next component. `getFsEntry_iff` says so for every tree of names
and every path: what is not of the form `/c₁/c₂/..`, or leads nowhere, is answered with a negative value.
-/

namespace VitaUtility.Dmass
open VfsState

variable {s s' : VfsState} {k : Answers} {r : Int} {a b d e : Addr} {v : NodePtr} {x y : Option Addr}
  {l : List Addr} {f : FapsDmassFs} {c : CStr} {cs : List CStr} {path : Option CStr}

/-- The name of an entry, unless it is NULL. -/
def VfsState.nameOf (s : VfsState) (a : Addr) : Option CStr := (s.view (·.name) a).join.map (·.str)

theorem nameOf_eq_some : s.nameOf a = some c ↔ ∃ f n, s.entries.lookup a = some f ∧ f.name = some n ∧ n.str = c := by
  unfold nameOf
  rw [Option.map_eq_some_iff]
  simp only [Option.join_eq_some_iff, view_eq_some]
  constructor
  · rintro ⟨n, ⟨f, hf, hn⟩, hc⟩
    exact ⟨f, n, hf, hn, hc⟩
  · rintro ⟨f, n, hf, hn, hc⟩
    exact ⟨n, ⟨f, hf, hn⟩, hc⟩

theorem nameOf_of_view (h : s'.view (·.name) a = s.view (·.name) a) : s'.nameOf a = s.nameOf a := by
  unfold nameOf
  rw [h]

def Resolves (s : VfsState) (path : Option CStr) (e : Addr) : Prop := getFsEntry path s = .ok (.ok (some e))

instance : Decidable (Resolves s path e) := inferInstanceAs (Decidable (_ = _))

def Fails (s : VfsState) (path : Option CStr) : Prop := ∃ r, getFsEntry path s = .ok (.error r)

theorem Resolves.unique (h : Resolves s path a) (h' : Resolves s path b) : a = b := by
  have := h.symm.trans h'
  exact Option.some.inj (Except.ok.inj (Except.ok.inj this))

theorem Resolves.not_fails (h : Resolves s path e) : ¬ Fails s path := by
  rintro ⟨r, hr⟩
  have := h.symm.trans hr
  cases Except.ok.inj this

/-! ### The component loop -/

/-- One round of the search for the name `c`, the first component of `rest`. -/
theorem peekName_eq {rest : CStr} (hf : s.entries.lookup a = some f) (hn : s.nameOf a ≠ none)
    (hc : rest.takeWhile (· ≠ slash) = c) : peekName s rest c.length a = .ok (s.nameOf a == some c, f.next) := by
  obtain ⟨n, hn⟩ := Option.ne_none_iff_exists'.1 hn
  obtain ⟨f', b, hf', hb, rfl⟩ := nameOf_eq_some.1 hn
  obtain rfl := Option.some.inj (hf.symm.trans hf')
  have htake : rest.take c.length = c := by
    rw [← hc]
    exact (List.prefix_iff_eq_take.1 (List.takeWhile_prefix _)).symm
  have hhit : (b.str.take c.length == c && (b.str[c.length]?).isNone) = (some b.str == some c) := by
    rw [Bool.eq_iff_iff]
    simp only [Bool.and_eq_true, beq_iff_eq, Option.isNone_iff_eq_none, List.getElem?_eq_none_iff, Option.some.injEq]
    constructor
    · rintro ⟨h, hlen⟩
      rw [← h, List.take_of_length_le hlen]
    · rintro h
      rw [h]
      simp
  refine bind_eq_ok.2 ⟨f, entry_eq_ok.2 hf, ?_⟩
  rw [hb, htake, hn]
  show Except.ok (_, f.next) = _
  rw [hhit]

/-- One round of the loop on a path `/..`: `c` is its first component. -/
theorem getFsEntryLoop_round {fuel : Nat} {rest : CStr} {p : Option Addr} (hc : rest.takeWhile (· ≠ slash) = c) :
    getFsEntryLoop s (fuel + 1) (slash :: rest) p =
      if c.length = 0 then .ok (.error (-2)) else (do
        match ← findLink (peekName s rest c.length) .hang s.entries.keys.card none p with
        | none => return .error (sceError 0x80010002)
        | some (_, e) =>
        let f ← s.entry e
        getFsEntryLoop s fuel (rest.dropWhile (· ≠ slash))
          (if (rest.dropWhile (· ≠ slash)).head? = some slash then f.nextDir else some e)) := by
  have hchr : strchr (slash :: rest) slash = some (slash :: rest) := by simp [strchr]
  have hlen : (slash :: rest).length - (rest.dropWhile (· ≠ slash)).length - 1 = c.length := by
    have := congrArg List.length (List.takeWhile_append_dropWhile (p := (· ≠ slash)) (l := rest))
    rw [hc, List.length_append] at this
    rw [List.length_cons]
    omega
  rw [getFsEntryLoop]
  · simp only [hchr, List.tail_cons, strchr_getD]
    exact hlen ▸ rfl
  · exact List.cons_ne_nil _ _

/-- A round that picks the entry `a` goes on with what follows the component. -/
theorem getFsEntryLoop_pick {fuel : Nat} {rest s2 : CStr} {p q : Option Addr}
    (hc : rest.takeWhile (· ≠ slash) = c) (hs2 : rest.dropWhile (· ≠ slash) = s2) (h0 : c ≠ [])
    (hfind : findLink (peekName s rest c.length) .hang s.entries.keys.card none p = .ok (some (q, a)))
    (hf : s.entries.lookup a = some f) : getFsEntryLoop s (fuel + 1) (slash :: rest) p =
      getFsEntryLoop s fuel s2 (if s2.head? = some slash then f.nextDir else some a) := by
  rw [getFsEntryLoop_round hc, if_neg (by simpa using h0), hs2, hfind, ok_bind]
  show (s.entry a >>= _) = _
  rw [entry_eq_ok.2 hf]
  rfl

/-! ### First siblings -/

/-- `a` is the first sibling of the name `c` in the directory `x`, after siblings of other names. -/
def FirstNamed (s : VfsState) (x : Option Addr) (c : CStr) (a : Addr) : Prop :=
  ∃ l₁ l₂, s.Kids x (l₁ ++ a :: l₂) ∧ (∀ b ∈ l₁, ∃ c', s.nameOf b = some c' ∧ c' ≠ c) ∧ s.nameOf a = some c

/-- The first siblings of the names `cs` lead from `x` to `y`. -/
def FirstWalk (s : VfsState) : Option Addr → List CStr → Option Addr → Prop
  | x, [], y => x = y
  | x, c :: cs, y => ∃ a, FirstNamed s x c a ∧ FirstWalk s (some a) cs y

theorem FirstWalk.snoc (h : FirstWalk s x cs y) (ha : FirstNamed s y c a) : FirstWalk s x (cs ++ [c]) (some a) := by
  induction cs generalizing x with
  | nil =>
    obtain rfl : x = y := h
    exact ⟨a, ha, rfl⟩
  | cons c₀ cs ih =>
    obtain ⟨b, hb, h⟩ := h
    exact ⟨b, hb, ih h⟩

/-- One round of the sibling loop, on any entry with a name. -/
theorem peekName_next {rest : CStr} {c' : CStr} {q : Option Addr} (hc : rest.takeWhile (· ≠ slash) = c)
    (hn : s.nameOf a = some c') (hq : s.next? a = some q) :
    peekName s rest c.length a = .ok (some c' == some c, q) := by
  obtain ⟨f, hf, rfl⟩ := Option.map_eq_some_iff.1 hq
  rw [peekName_eq hf (by rw [hn]; nofun) hc, hn]

theorem FirstNamed.find (h : FirstNamed s x c a) {rest : CStr} (hc : rest.takeWhile (· ≠ slash) = c) :
    ∃ p, findLink (peekName s rest c.length) .hang s.entries.keys.card none (s.head x) = .ok (some (p, a)) := by
  obtain ⟨l₁, l₂, hK, hother, ha⟩ := h
  refine findLink_first hK (fun b hb q hq => ?_) (fun q hq => ?_) ?_
  · obtain ⟨c', hc', hne⟩ := hother b hb
    rw [peekName_next hc hc' hq]
    simp [hne]
  · rw [peekName_next hc ha hq]
    simp
  · have hlen := Chain.length_le hK fun b hb => mem_keys_iff.2 (Kids_live hK hb)
    simp at hlen
    omega

/-- The component loop follows first siblings. -/
theorem getFsEntryLoop_first {fuel : Nat} (hn : ∀ c ∈ cs, IsName c) (hne : cs ≠ []) (hlen : (pathStr cs).length ≤ fuel)
    (h : FirstWalk s x cs (some e)) : getFsEntryLoop s fuel (pathStr cs) (s.head x) = .ok (.ok (some e)) := by
  induction cs generalizing x fuel with
  | nil => exact absurd rfl hne
  | cons c ds ih =>
    obtain ⟨a, ha, h⟩ := h
    obtain ⟨hcn, hcs⟩ := hn c List.mem_cons_self
    obtain ⟨htake, hdrop⟩ := span_pathStr hcs ds
    rw [pathStr_cons, List.length_cons, List.length_append] at hlen
    obtain ⟨fuel, rfl⟩ : ∃ m, fuel = m + 1 := ⟨fuel - 1, by omega⟩
    obtain ⟨p, hfind⟩ := ha.find htake
    obtain ⟨l₁, l₂, hK, -, -⟩ := ha
    obtain ⟨f, hf⟩ := Kids_live hK (List.mem_append_right _ List.mem_cons_self)
    rw [pathStr_cons, getFsEntryLoop_pick htake hdrop hcn hfind hf]
    cases ds with
    | nil =>
      obtain rfl := Option.some.inj (show some a = some e from h)
      cases fuel <;> rfl
    | cons d ds =>
      have hhead : (if (pathStr (d :: ds)).head? = some slash then f.nextDir else some a) = s.head (some a) := by
        rw [head_some, hf]
        rfl
      rw [hhead]
      exact ih (fun c hc => hn c (List.mem_cons_of_mem _ hc)) nofun (by omega) h

theorem FirstWalk.resolves (h : FirstWalk s none cs (some e)) (hn : ∀ c ∈ cs, IsName c) :
    Resolves s (some (pathStr cs)) e := by
  cases cs with
  | nil => cases h
  | cons c cs =>
    unfold Resolves getFsEntry getFsEntryInternal
    have hslash : (pathStr (c :: cs)).head? = some slash := rfl
    dsimp only
    rw [if_neg (not_not.2 hslash)]
    exact getFsEntryLoop_first hn nofun le_rfl h

/-! ### Every path over a tree of names -/

/-- Every sibling list that can be reached from `pTree` ends, and its entries have names that can be components. -/
structure NamedTree (s : VfsState) : Prop where
  kids : ∀ x, (ptrGraph s).Open x → ∃ l, s.Kids x l
  named : ∀ x a, (ptrGraph s).Open x → s.child x a → ∃ c, s.nameOf a = some c ∧ IsName c

theorem named_freshMount (h : FreshMount s) (hroot : ∀ e, s.pTree = some e → s.nameOf e = some mdName)
    (ha : s.child x a) : ∃ c, s.nameOf a = some c ∧ IsName c :=
  ⟨mdName, hroot a (child_freshMount h ha).2, by decide, by decide⟩

theorem namedTree_freshMount (h : FreshMount s) (hroot : ∀ e, s.pTree = some e → s.nameOf e = some mdName) :
    NamedTree s :=
  ⟨fun x _ => (listed_freshMount h).kids x, fun _ _ _ ha => named_freshMount h hroot ha⟩

theorem nameOf_mounted : ∀ e, mounted.pTree = some e → mounted.nameOf e = some mdName := by
  intro e he
  have hp : mounted.pTree = some 1 := by decide +kernel
  obtain rfl := Option.some.inj (hp.symm.trans he)
  decide +kernel

/-- The search for the name `c` in the sibling list of `x`. -/
theorem NamedTree.find (h : NamedTree s) (hx : (ptrGraph s).Open x) {rest : CStr}
    (hc : rest.takeWhile (· ≠ slash) = c) :
    findLink (peekName s rest c.length) .hang s.entries.keys.card none (s.head x) = .ok none ∨
    ∃ p a, findLink (peekName s rest c.length) .hang s.entries.keys.card none (s.head x) = .ok (some (p, a)) ∧
      FirstNamed s x c a := by
  obtain ⟨l, hK⟩ := h.kids x hx
  have hnamed : ∀ a ∈ l, ∃ c', s.nameOf a = some c' := by
    intro a ha
    obtain ⟨c', hc', -⟩ := h.named x a hx ((child_iff hK).2 ha)
    exact ⟨c', hc'⟩
  have hfind : findLink (peekName s rest c.length) .hang s.entries.keys.card none (s.head x) =
      .ok (linkOf (fun a => s.nameOf a == some c) none l) := by
    refine findLink_chain hK (fun a ha q hq => ?_) ?_
    · obtain ⟨c', hc'⟩ := hnamed a ha
      rw [peekName_next hc hc' hq, hc']
    · exact Chain.length_le hK fun a ha => mem_keys_iff.2 (Kids_live hK ha)
  cases hl : linkOf (fun a => s.nameOf a == some c) none l with
  | none => exact .inl (by rw [hfind, hl])
  | some pa =>
    obtain ⟨p, a⟩ := pa
    obtain ⟨l₁, l₂, rfl, hother, ha, -⟩ := linkOf_eq_some.1 hl
    refine .inr ⟨p, a, by rw [hfind, hl], l₁, l₂, hK, fun b hb => ?_, eq_of_beq ha⟩
    obtain ⟨c', hc'⟩ := hnamed b (List.mem_append_left _ hb)
    refine ⟨c', hc', ?_⟩
    rintro rfl
    have := hother b hb
    rw [hc', beq_self_eq_true] at this
    cases this

theorem FirstNamed.child (h : FirstNamed s x c a) : s.child x a := by
  obtain ⟨l₁, l₂, hK, -, -⟩ := h
  exact (child_iff hK).2 (by simp)

theorem FirstNamed.isName (h : FirstNamed s x c a) (ht : NamedTree s) (hx : (ptrGraph s).Open x) : IsName c := by
  obtain ⟨c', hc', hn'⟩ := ht.named x a hx h.child
  obtain ⟨-, -, -, -, hac⟩ := h
  rwa [← Option.some.inj (hac.symm.trans hc')] at hn'

/-- The loop answers with an error, or what is left of the path has components and picks by first siblings. -/
theorem getFsEntryLoop_sound (h : NamedTree s) {fuel : Nat} {rest : CStr} (hlen : rest.length < fuel)
    (hx : (ptrGraph s).Open x) :
    (∃ r < 0, getFsEntryLoop s fuel (slash :: rest) (s.head x) = .ok (.error r)) ∨
    ∃ cs e, getFsEntryLoop s fuel (slash :: rest) (s.head x) = .ok (.ok (some e)) ∧
      (∀ c ∈ cs, IsName c) ∧ slash :: rest = pathStr cs ∧ FirstWalk s x cs (some e) := by
  induction fuel generalizing rest x with
  | zero => omega
  | succ fuel ih =>
    obtain ⟨c, hc⟩ : ∃ c, rest.takeWhile (· ≠ slash) = c := ⟨_, rfl⟩
    obtain ⟨s2, hs2⟩ : ∃ s2, rest.dropWhile (· ≠ slash) = s2 := ⟨_, rfl⟩
    have hrest : rest = c ++ s2 := by
      rw [← hc, ← hs2]
      exact (List.takeWhile_append_dropWhile).symm
    by_cases h0 : c = []
    · refine .inl ⟨-2, by decide, ?_⟩
      rw [getFsEntryLoop_round hc, if_pos (List.length_eq_zero_iff.2 h0)]
    rcases h.find hx hc with hfind | ⟨p, a, hfind, ha⟩
    · refine .inl ⟨sceError 0x80010002, by decide, ?_⟩
      rw [getFsEntryLoop_round hc, if_neg (by simpa using h0), hfind]
      rfl
    have hname : IsName c := ha.isName h hx
    obtain ⟨f, hf⟩ := child_live ha.child
    rw [getFsEntryLoop_pick hc hs2 h0 hfind hf]
    cases s2 with
    | nil =>
      refine .inr ⟨[c], a, ?_, ?_, ?_, a, ha, rfl⟩
      · cases fuel <;> rfl
      · intro c' hc'
        rwa [List.mem_singleton.1 hc']
      · rw [hrest]
        simp [pathStr]
    | cons z rest' =>
      obtain rfl := head_dropWhile hs2
      have hlen' : rest'.length < fuel := by
        rw [hrest, List.length_append, List.length_cons] at hlen
        omega
      have hhead : (if (slash :: rest').head? = some slash then f.nextDir else some a) = s.head (some a) := by
        rw [head_some, hf]
        rfl
      rw [hhead]
      refine (ih hlen' (hx.child ha.child rfl)).imp id ?_
      rintro ⟨ds, e, hloop, hn, hds, hw⟩
      refine ⟨c :: ds, e, hloop, ?_, ?_, a, ha, hw⟩
      · intro c' hc'
        rcases List.mem_cons.1 hc' with rfl | hc'
        · exact hname
        · exact hn c' hc'
      · rw [pathStr_cons, ← hds, hrest]

/-- The path is `/c₁/../cₙ` with names `cᵢ` that pick first siblings, the last of them `e`. -/
def PathPicks (s : VfsState) (path : Option CStr) (e : Addr) : Prop :=
  ∃ cs, cs ≠ [] ∧ (∀ c ∈ cs, IsName c) ∧ path = some (pathStr cs) ∧ FirstWalk s none cs (some e)

theorem getFsEntry_sound (h : NamedTree s) (path : Option CStr) :
    (∃ r < 0, getFsEntry path s = .ok (.error r)) ∨ ∃ e, Resolves s path e ∧ PathPicks s path e := by
  unfold Resolves getFsEntry getFsEntryInternal
  cases path with
  | none => exact .inl ⟨-1, by decide, rfl⟩
  | some path =>
    cases path with
    | nil => exact .inl ⟨-1, by decide, rfl⟩
    | cons z rest =>
      by_cases hz : z = slash
      · subst hz
        dsimp only
        rw [if_neg (not_not.2 List.head?_cons)]
        refine (getFsEntryLoop_sound h (Nat.lt_succ_self rest.length) DirGraph.Open_none).imp id ?_
        rintro ⟨cs, e, he, hn, hcs, hw⟩
        refine ⟨e, he, cs, ?_, hn, congrArg some hcs, hw⟩
        rintro rfl
        cases hcs
      · refine .inl ⟨-1, by decide, if_pos ?_⟩
        rw [List.head?_cons]
        intro h
        exact hz (Option.some.inj h)

/-- `get_fs_entry` resolves the paths that pick an entry, to that entry, and answers all others with an error. -/
theorem getFsEntry_iff (path : Option CStr) (h : NamedTree s) :
    (∀ e, PathPicks s path e → getFsEntry path s = .ok (.ok (some e))) ∧
    ((∀ e, ¬ PathPicks s path e) → ∃ r < 0, getFsEntry path s = .ok (.error r)) := by
  constructor
  · rintro e ⟨cs, -, hn, rfl, hw⟩
    exact hw.resolves hn
  · intro hno
    rcases getFsEntry_sound h path with hr | ⟨e, -, he⟩
    · exact hr
    · exact absurd he (hno e)

/-- After the mount `/md` picks the root directory, and `/md/` picks nothing. -/
theorem getFsEntry_iff_mounted : getFsEntry (some (pathStr [mdName])) mounted = .ok (.ok (some 1)) ∧
    ∃ r < 0, getFsEntry (some (pathStr [mdName, []])) mounted = .ok (.error r) := by
  have h : NamedTree mounted := namedTree_freshMount freshMount_mounted nameOf_mounted
  refine ⟨(getFsEntry_iff (some (pathStr [mdName])) h).1 1 ?_,
    (getFsEntry_iff (some (pathStr [mdName, []])) h).2 ?_⟩
  · refine ⟨[mdName], List.cons_ne_nil _ _, fun c hc => ?_, rfl, 1, ⟨[], [], ?_, ?_, ?_⟩, rfl⟩
    · rw [List.mem_singleton.1 hc]
      exact ⟨by decide, by decide⟩
    · obtain ⟨e, he, hK, -⟩ := kids_freshMount freshMount_mounted
      have hp : mounted.pTree = some 1 := by decide +kernel
      obtain rfl := Option.some.inj (hp.symm.trans he)
      exact hK
    · exact fun b hb => absurd hb (List.not_mem_nil)
    · decide +kernel
  · rintro e ⟨cs, -, hn, hp, -⟩
    obtain rfl : [mdName, []] = cs := pathStr_injective (by decide) (fun c hc => (hn c hc).no_slash) (Option.some.inj hp)
    exact (hn [] (by simp)).ne_nil rfl

end VitaUtility.Dmass

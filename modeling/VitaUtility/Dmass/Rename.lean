import VitaUtility.Dmass.Namespace

/-!
# `vop_rename` as a move in the tree

`vop_rename` unlinks the entry, links it into the new directory and gives it a new name, and asks nothing of
the destination. So it moves a subtree of the path map when the destination is free and not inside the moved
entry and the new name can be copied; in every other case the tree is broken (`treeKept_iff`).
-/

namespace VitaUtility.Dmass
open VfsState

variable {s s' : VfsState} {k : Answers} {r : Int} {a b d e n : Addr} {v : NodePtr} {x y : Option Addr}
  {f : FapsDmassFs} {c : CStr} {cs ds : List CStr} {path : Option CStr}

/-- What of an entry is neither a link nor its name. -/
def contentView (f : FapsDmassFs) : SceIoStat × Option DataBlock × List FapsDmassFsX × UInt32 :=
  (f.stat, f.data, f.pDmassFsX, f.refer)

/-- The entry `e` has been taken from where it was to the directory `n`, and given a name. -/
structure Renamed (s s' : VfsState) (n e : Addr) : Prop where
  lists : Listed s'
  child : ∀ x a, s'.child x a ↔ (s.child x a ∧ a ≠ e) ∨ (x = some n ∧ a = e)
  keys : s'.entries.keys = s.entries.keys
  names : ∀ b, b ≠ e → s'.nameOf b = s.nameOf b
  content : ∀ b, s'.view contentView b = s.view contentView b

/-- `name_cpy` of the new name succeeds, after the old one has been freed. -/
def nameFits (k : Answers) (s : VfsState) (e : Addr) (name : CStr) : Prop :=
  name ≠ [] ∧ ∀ f ∈ s.entries.lookup e, (k.malloc 0 (s.dmassFree (f.name.map (·.addr))).live).isSome

theorem nameCpy_str {i : Nat} : (nameCpy k i c s).1.map (·.str) =
    if c ≠ [] ∧ (k.malloc i s.live).isSome then some c else none := by
  unfold nameCpy
  by_cases hc : c = []
  · subst hc
    rfl
  · rw [if_neg (by rwa [List.length_eq_zero_iff]), malloc]
    cases k.malloc i s.live <;> simp [hc]

/-- What `vop_rename` has done when it returns 0, and when the entry has got its new name. -/
theorem renamed_vopRename {argp : SceVopRenameArgs} {out : Option NodePtr} (hL : Listed s)
    (hn : s.devInfo argp.node3 = some n) (he : Resolves s argp.fileInfoOld.path e)
    (hs : vopRename k argp s = .ok (0, out, s')) : Renamed s s' n e ∧
      ((nameFits k s e argp.fileInfoNew.name ∧ s'.nameOf e = some argp.fileInfoNew.name) ∨
        (¬ nameFits k s e argp.fileInfoNew.name ∧ s'.nameOf e = none)) := by
  rcases vopRename_ok hs with ⟨h0, -⟩ | ⟨-, -, n', d, fd, e', f, pred, x, w, n3, d3, fd3, v, old, name, h⟩
  · exact absurd h0 (lt_irrefl _)
  obtain ⟨-, -, hd, hpath, hf, hl, -, -, hn3, hd3, hfd3, -, -, hname, hs'⟩ := h
  obtain rfl : e' = e := Resolves.unique hpath he
  obtain rfl := Option.some.inj ((devInfo_eq_some.2 ⟨n3, hn3, hd3⟩).symm.trans hn)
  obtain ⟨hL₂, hch⟩ := hL.move hd hf hl rfl hfd3
  set t := (s.setLink d pred f.next).pushEntry d3 e' with ht
  have hsame : ∀ {β : Type} (π : FapsDmassFs → β) b,
      s'.view π b = (t.modEntry e' fun f => { f with name := name, pNode := some w }).view π b := by
    intro β π b
    rw [hs']
    rfl
  have htkeys : t.entries.keys = s.entries.keys := (pushEntry_keys _).trans (setLink_keys s)
  have hview : ∀ {β : Type} (π : FapsDmassFs → β), (∀ f q, π { f with nextDir := q } = π f) →
      (∀ f q, π { f with next := q } = π f) → ∀ b, t.view π b = s.view π b := fun π h₁ h₂ b =>
    (view_pushEntry h₁ h₂).trans (view_setLink h₁ h₂)
  have hlinks : ∀ b, s'.view linkView b = t.view linkView b := fun b =>
    (hsame linkView b).trans (view_modEntry (by intro; rfl))
  have hp : s'.pTree = t.pTree := by rw [hs']; rfl
  refine ⟨⟨hL₂.of_view hp hlinks, fun x a => ?_, ?_, fun b hb => ?_, fun b => ?_⟩, ?_⟩
  · exact (child_of_view (s := t) hp hlinks).trans (hch x a)
  · rw [← htkeys, hs']
    exact modEntry_keys t
  · refine nameOf_of_view ((hsame _ b).trans ?_)
    rw [← hview (·.name) (by intros; rfl) (by intros; rfl)]
    unfold view
    rw [lookup_modEntry, if_neg hb]
  · exact (hsame _ b).trans ((view_modEntry (by intro; rfl)).trans (hview _ (by intros; rfl) (by intros; rfl) b))
  · have hnew : s'.nameOf e' = name.map (·.str) := by
      obtain ⟨g, hg⟩ := lookup_of_keys htkeys hf
      unfold nameOf
      rw [hsame]
      unfold view
      rw [lookup_modEntry, if_pos rfl, hg]
      rfl
    have hlive : (t.dmassFree (f.name.map (·.addr))).live = (s.dmassFree (f.name.map (·.addr))).live := by
      unfold live
      rw [dmassFree_entries, dmassFree_entries, htkeys]
      rfl
    rw [hnew, hname, nameCpy_str, hlive]
    have hfits : nameFits k s e' argp.fileInfoNew.name ↔ argp.fileInfoNew.name ≠ [] ∧
        (k.malloc 0 (s.dmassFree (f.name.map (·.addr))).live).isSome := by
      unfold nameFits
      rw [hf]
      simp
    by_cases h : nameFits k s e' argp.fileInfoNew.name
    · exact .inl ⟨h, if_pos (hfits.1 h)⟩
    · exact .inr ⟨h, if_neg fun h' => h (hfits.2 h')⟩

namespace Renamed

theorem ptrMove (h : Renamed s s' n e) : (ptrGraph s).Move (ptrGraph s') n e where
  child x a _ := by
    show s'.child x a ↔ _
    rw [h.child, and_comm]
    rfl
  label _ _ _ _ _ := rfl

theorem move (h : Renamed s s' n e) : (nameGraph s).Move (nameGraph s') n e where
  child x a _ := by
    show s'.child x a ↔ _
    rw [h.child, and_comm]
    rfl
  label _ a _ _ ha := h.names a ha

theorem wellFormed (h : Renamed s s' n e) (hW : WellFormed s) (he : (nameGraph s).Open (some e))
    (hn : (nameGraph s).Open (some n)) (hf : s.entries.lookup n = some f) (hdir : isDir f.stat.stMode)
    (hN : ¬ (nameGraph s).Below e n) (hname : s'.nameOf e = some c) (hc : IsName c)
    (hfree : ∀ a, a ≠ e → s.child (some n) a → s.nameOf a ≠ some c) : WellFormed s' := by
  have htree := h.move.isTree hW.isTree he hn hN hname hfree
  have hopen : ∀ x, (nameGraph s').Open x ↔ (nameGraph s).Open x := fun x =>
    h.move.open_iff hW.isTree he hn hN hname
  have hmode : ∀ b g, s'.entries.lookup b = some g → ∃ g', s.entries.lookup b = some g' ∧ g'.stat = g.stat := by
    intro b g hg
    have := h.content b
    unfold view at this
    rw [hg] at this
    obtain ⟨g', hg', hgg⟩ := Option.map_eq_some_iff.1 this.symm
    exact ⟨g', hg', (Prod.mk.inj hgg).1⟩
  refine ⟨h.lists, htree.sib, fun x a hx ha => ?_, fun b g a hb hg ha => ?_⟩
  · rw [hopen] at hx
    rcases (h.child x a).1 ha with ⟨ha, hae⟩ | ⟨-, rfl⟩
    · rw [h.names a hae]
      exact hW.named x a hx ha
    · exact ⟨c, hname, hc⟩
  · rw [hopen] at hb
    obtain ⟨g', hg', hstat⟩ := hmode b g hg
    rw [← hstat]
    rcases (h.child _ a).1 ha with ⟨ha, -⟩ | ⟨hbn, -⟩
    · exact hW.dirs b g' a hb hg' ha
    · obtain rfl := Option.some.inj hbn
      rwa [← Option.some.inj (hf.symm.trans hg')]

end Renamed

/-- In a well-formed tree it is the same to be below an entry by pointers and by names. -/
theorem WellFormed.below_iff (hW : WellFormed s) (he : (nameGraph s).Open (some e)) :
    (ptrGraph s).Below e n ↔ (nameGraph s).Below e n := by
  constructor
  · rintro ⟨p, hp⟩
    refine hp.relabel he (fun _ _ => id) fun x b hx hb => ?_
    obtain ⟨c, hc, -⟩ := hW.named x b hx hb
    exact ⟨c, hc⟩
  · rintro ⟨p, hp⟩
    exact hp.relabel (hW.open_iff_reachable.1 he) (fun _ _ => id) fun _ b _ _ => ⟨b, rfl⟩

theorem nameOf_of_hit {rest : CStr} {len : Nat} {q : Option Addr} (h : peekName s rest len a = .ok (true, q)) :
    s.nameOf a = some (rest.take len) := by
  unfold peekName at h
  rw [bind_eq_ok] at h
  obtain ⟨f, hf, h⟩ := h
  split at h
  · cases h
  rename_i b hb
  have hhit : (b.str.take len == rest.take len && (b.str[len]?).isNone) = true := (Prod.mk.inj (Except.ok.inj h)).1
  simp only [Bool.and_eq_true, beq_iff_eq, Option.isNone_iff_eq_none, List.getElem?_eq_none_iff] at hhit
  refine nameOf_eq_some.2 ⟨f, b, entry_eq_ok.1 hf, hb, ?_⟩
  rw [← hhit.1, List.take_of_length_le hhit.2]

/-- What a round compares names with is a component. -/
theorem no_slash_component (s1 : CStr) :
    slash ∉ s1.tail.take (s1.length - ((strchr s1.tail slash).getD []).length - 1) := by
  have hlen := congrArg List.length (List.takeWhile_append_dropWhile (p := (· ≠ slash)) (l := s1.tail))
  rw [List.length_append, List.length_tail] at hlen
  rw [strchr_getD]
  have heq : s1.length - (s1.tail.dropWhile (· ≠ slash)).length - 1 = (s1.tail.takeWhile (· ≠ slash)).length := by
    omega
  rw [heq, ← List.prefix_iff_eq_take.1 (List.takeWhile_prefix _)]
  intro hmem
  have hne := List.all_eq_true.1 List.all_takeWhile _ hmem
  exact of_decide_eq_true hne rfl

/-- The loop ends with the last entry whose name it has met as a component. -/
theorem getFsEntryLoop_named {fuel : Nat} {current : CStr} {p : Option Addr}
    (h : getFsEntryLoop s fuel current p = .ok (.ok (some e))) :
    (current = [] ∧ p = some e) ∨ ∃ c, s.nameOf e = some c ∧ slash ∉ c := by
  induction fuel generalizing current p with
  | zero =>
    cases current with
    | nil => exact .inl ⟨rfl, Except.ok.inj (Except.ok.inj h)⟩
    | cons c current => cases h
  | succ fuel ih =>
    cases current with
    | nil => exact .inl ⟨rfl, Except.ok.inj (Except.ok.inj h)⟩
    | cons c current =>
      right
      unfold getFsEntryLoop at h
      split at h
      · cases h
      rename_i s1 hs1
      dsimp only at h
      split at h
      · cases h
      rw [bind_eq_ok] at h
      obtain ⟨link, hl, h⟩ := h
      split at h
      · cases h
      rename_i q a
      rw [bind_eq_ok] at h
      obtain ⟨f, -, h⟩ := h
      obtain ⟨r, hpeek⟩ := findLink_hit hl
      rcases ih h with ⟨hnil, hp⟩ | hname
      · rw [hnil] at hp
        obtain rfl := Option.some.inj hp
        exact ⟨_, nameOf_of_hit hpeek, no_slash_component s1⟩
      · exact hname

theorem Resolves.name (h : Resolves s path e) : ∃ c, s.nameOf e = some c ∧ slash ∉ c := by
  unfold Resolves getFsEntry getFsEntryInternal at h
  split at h
  · cases h
  split at h
  · cases h
  rename_i hslash
  rcases getFsEntryLoop_named h with ⟨hnil, -⟩ | hname
  · rw [hnil] at hslash
    exact absurd nofun hslash
  · exact hname

theorem Resolves.nameOf_ne_none (h : Resolves s path e) : s.nameOf e ≠ none := by
  obtain ⟨c, hc, -⟩ := h.name
  rw [hc]
  nofun

/-- `vop_rename` has moved the entry `e`, with all below it, from the path `old` to `new`. -/
structure TreeKept (s s' : VfsState) (e : Addr) (old new : CStr) : Prop where
  found : Resolves s' (some new) e
  subtree : ∀ cs a, (∀ c ∈ cs, IsName c) → Resolves s (some (old ++ pathStr cs)) a →
    Resolves s' (some (new ++ pathStr cs)) a
  content : ∀ a, s'.view contentView a = s.view contentView a
  gone : old ≠ new → ¬ Resolves s' (some old) e
  reach : ∀ a, Reachable s a → Reachable s' a
  names : ∀ x a b, s'.child x a → s'.child x b → s'.nameOf a = s'.nameOf b → a = b
  acyclic : ∀ a, ¬ Relation.TransGen (fun d a => s'.child (some d) a) a a

/-- The destination is free, the new directory is not the moved entry or below it, and the name can be copied. -/
structure Movable (k : Answers) (s : VfsState) (e n : Addr) (new name : CStr) : Prop where
  free : ∀ b, Resolves s (some new) b → b = e
  outside : ¬ (nameGraph s).Below e n
  fits : nameFits k s e name

theorem treeKept_of_movable {old parent name : CStr} (hW : WellFormed s) (hA : AllReachable s)
    (he : Resolves s (some old) e) (hparent : Resolves s (some parent) n) (hf : s.entries.lookup n = some f)
    (hdir : isDir f.stat.stMode) (hname : slash ∉ name) (hR : Renamed s s' n e) (hnew : s'.nameOf e = some name)
    (hm : Movable k s e n (parent ++ slash :: name) name) : TreeKept s s' e old (parent ++ slash :: name) := by
  obtain ⟨PT, hPTn, hPT, hwT⟩ := hW.resolves_iff.1 he
  obtain rfl := Option.some.inj hPT
  obtain ⟨PN, hPNn, hwN, hpath⟩ := path_in hW hparent
  have hc : IsName name := ⟨hm.fits.1, hname⟩
  have hnames : ∀ cs, (∀ c ∈ cs, IsName c) → ∀ c ∈ PN ++ [name] ++ cs, IsName c := by
    intro cs hcs c' hc'
    rcases List.mem_append.1 hc' with hc' | hc'
    · rcases List.mem_append.1 hc' with hc' | hc'
      · exact hPNn c' hc'
      · rwa [List.mem_singleton.1 hc']
    · exact hcs c' hc'
  have hfree : ∀ a, a ≠ e → s.child (some n) a → s.nameOf a ≠ some name := by
    intro a hae ha hna
    refine hae (hm.free a ?_)
    rw [hpath name, hW.resolves_pathStr (by simpa using hnames [] nofun)]
    exact DirGraph.Walk_snoc.2 ⟨some n, a, hwN, ha, hna, rfl⟩
  have hW' := hR.wellFormed hW ⟨PT, hwT⟩ ⟨PN, hwN⟩ hf hdir hm.outside hnew hc hfree
  have hwalk := fun p y => hR.move.walk_iff (p := p) (y := y) hW.isTree hwT hwN hm.outside hnew
  have hreach : ∀ x, (ptrGraph s').Open x ↔ (ptrGraph s).Open x := fun x =>
    hR.ptrMove.open_iff hW.lists.isTree (hW.open_iff_reachable.1 ⟨PT, hwT⟩) (hW.open_iff_reachable.1 ⟨PN, hwN⟩)
      (by rw [hW.below_iff ⟨PT, hwT⟩]; exact hm.outside) rfl
  have hlive : ∀ a, (∃ f, s'.entries.lookup a = some f) → Reachable s' a := by
    intro a ha
    exact (hreach _).2 (hA a (hR.keys ▸ mem_keys_iff.2 ha))
  have hsub : ∀ cs a, (∀ c ∈ cs, IsName c) → Resolves s (some (pathStr PT ++ pathStr cs)) a →
      Resolves s' (some (parent ++ slash :: name ++ pathStr cs)) a := by
    intro cs a hcs ha
    rw [← pathStr_append, hW.resolves_pathStr, DirGraph.Walk_append] at ha
    swap
    · intro c' hc'
      rcases List.mem_append.1 hc' with hc' | hc'
      · exact hPTn c' hc'
      · exact hcs c' hc'
    obtain ⟨y, hy, hya⟩ := ha
    obtain rfl := hW.isTree.walk_unique DirGraph.Open_none hwT hy
    rw [hpath name, ← pathStr_append, hW'.resolves_pathStr (hnames cs hcs)]
    exact (hwalk _ _).2 (.inr ⟨cs, rfl, hya⟩)
  refine ⟨?_, hsub, hR.content, fun hne hold => ?_, fun a ha => (hreach _).2 ha, fun x a b ha hb hab => ?_,
    fun a haa => ?_⟩
  · simpa [pathStr] using hsub [] e nofun (by simpa [pathStr] using he)
  · rw [hW'.resolves_pathStr hPTn] at hold
    rcases (hwalk _ _).1 hold with ⟨-, hb⟩ | ⟨r, hr, hwr⟩
    · exact hb e rfl .refl
    · obtain rfl := hW.isTree.walk_self ⟨PT, hwT⟩ hwr
      rw [List.append_nil] at hr
      exact hne (by rw [hr, hpath name])
  · have hx : (nameGraph s').Open x := by
      cases x with
      | none => exact DirGraph.Open_none
      | some d =>
        obtain ⟨g, hg, -⟩ := parent_live ha
        exact hW'.open_iff_reachable.2 (hlive d ⟨g, hg⟩)
    exact hW'.sib x a b hx ha hb hab
  · have ha : Reachable s' a := by
      rcases Relation.TransGen.head'_iff.1 haa with ⟨b, hb, -⟩
      obtain ⟨g, hg, -⟩ := parent_live hb
      exact hlive a ⟨g, hg⟩
    exact hR.lists.isTree.acyclic ha (fun _ b _ _ => ⟨b, rfl⟩) haa

theorem movable_of_treeKept {old parent name : CStr} (hW : WellFormed s) (he : Resolves s (some old) e)
    (hparent : Resolves s (some parent) n) (hname : slash ∉ name) (hR : Renamed s s' n e)
    (hnew : (nameFits k s e name ∧ s'.nameOf e = some name) ∨ (¬ nameFits k s e name ∧ s'.nameOf e = none))
    (h : TreeKept s s' e old (parent ++ slash :: name)) : Movable k s e n (parent ++ slash :: name) name := by
  obtain ⟨PT, hPTn, hPT, hwT⟩ := hW.resolves_iff.1 he
  obtain ⟨PN, hPNn, hwN, hpath⟩ := path_in hW hparent
  -- the entry has a name where it is found
  have hfits : nameFits k s e name ∧ s'.nameOf e = some name :=
    hnew.resolve_right fun hno => h.found.nameOf_ne_none hno.2
  refine ⟨fun b hb => ?_, fun hN => ?_, hfits.1⟩
  · by_contra hbe
    rw [hpath name, hW.resolves_pathStr] at hb
    swap
    · intro c' hc'
      rcases List.mem_append.1 hc' with hc' | hc'
      · exact hPNn c' hc'
      · rw [List.mem_singleton.1 hc']
        exact ⟨hfits.1.1, hname⟩
    obtain ⟨y, b', hy, hchild, hlabel, hbb⟩ := DirGraph.Walk_snoc.1 hb
    obtain rfl := Option.some.inj hbb
    obtain rfl := hW.isTree.walk_unique DirGraph.Open_none hwN hy
    refine hbe (h.names (some n) b e ((hR.child _ b).2 (.inl ⟨hchild, hbe⟩)) ((hR.child _ e).2 (.inr ⟨rfl, rfl⟩)) ?_)
    rw [hR.names b hbe, hfits.2]
    exact hlabel
  · -- no directory leads to the entry any more
    have hopen : (nameGraph s).Open (some e) := ⟨PT, hwT⟩
    refine hR.ptrMove.not_open hW.lists.isTree (hW.open_iff_reachable.1 hopen) ?_ .refl
      (h.reach e (hW.open_iff_reachable.1 hopen))
    rw [hW.below_iff hopen]
    exact hN

theorem treeKept_iff {argp : SceVopRenameArgs} {old parent name : CStr} (hW : WellFormed s) (hA : AllReachable s)
    (hold : argp.fileInfoOld.path = some old) (he : Resolves s (some old) e)
    (hnode3 : s.devInfo argp.node3 = some n) (hparent : Resolves s (some parent) n)
    (hf : s.entries.lookup n = some f) (hdir : isDir f.stat.stMode)
    (hnew : argp.fileInfoNew = ⟨name, some (parent ++ slash :: name)⟩) (hname : slash ∉ name)
    (hs : VopStep s (.rename k argp) 0 s') :
    TreeKept s s' e old (parent ++ slash :: name) ↔ Movable k s e n (parent ++ slash :: name) name := by
  obtain ⟨out, hs⟩ := dropOut_eq_ok.1 hs
  obtain ⟨hR, hcase⟩ := renamed_vopRename hW.lists hnode3 (hold ▸ he) hs
  rw [hnew] at hcase
  constructor
  · exact movable_of_treeKept hW he hparent hname hR hcase
  · intro hm
    have hlabel := (hcase.resolve_right fun hno => hno.1 hm.fits).2
    exact treeKept_of_movable hW hA he hparent hf hdir hname hR hlabel hm

/-- The file `/md/a` is the one entry in the root directory. -/
def oneFile : VfsState := lastState [.create idle ⟨0, inRoot chA⟩] mounted

def twoFiles : VfsState := lastState [.create idle ⟨0, inRoot chB⟩] oneFile

theorem rootOne_oneFile : RootOne oneFile := .of_view (by decide +kernel) (by decide +kernel) (by decide +kernel)

theorem keepsForm_createInRoot {x : CChar} (hW : WellFormed s) (hR : RootOne s) (hx : slash ∉ [x])
    (hs : (VopCall.exec s (.create idle ⟨0, inRoot x⟩)).map (·.1) = .ok 0) :
    KeepsForm s (lastState [.create idle ⟨0, inRoot x⟩] s) := by
  obtain ⟨hv, hparent, f, hd, hdir⟩ := hR
  exact (pathAdded_create hW hv hparent hd hdir hx (fun _ _ => rfl) (lastState_step hs)).2

theorem wellFormed_oneFile : WellFormed oneFile ∧ AllReachable oneFile := by
  obtain ⟨hW, hA⟩ : KeepsForm mounted oneFile :=
    keepsForm_createInRoot wellFormed_mounted rootOne_mounted (by decide) (by decide +kernel)
  exact ⟨hW, hA (allReachable_freshMount freshMount_mounted)⟩

theorem wellFormed_twoFiles : WellFormed twoFiles ∧ AllReachable twoFiles := by
  obtain ⟨hW, hA⟩ : KeepsForm oneFile twoFiles :=
    keepsForm_createInRoot wellFormed_oneFile.1 rootOne_oneFile (by decide) (by decide +kernel)
  exact ⟨hW, hA wellFormed_oneFile.2⟩

theorem resolves_oneFile : Resolves oneFile (some (slash :: mdName ++ [slash, chA])) 4 := by decide +kernel

/-- The file has no children, so the root directory is not below it. -/
theorem not_below_oneFile : ¬ (nameGraph oneFile).Below 4 1 := by
  have hleaf : oneFile.view (·.nextDir) 4 = some none := by decide +kernel
  obtain ⟨g, hg, hnone⟩ := view_eq_some.1 hleaf
  rintro ⟨p, hp⟩
  cases p with
  | nil => cases hp
  | cons c p =>
    obtain ⟨d, hd, -⟩ := hp
    exact leaf_of_nextDir hg hnone hd

/-- `/md/a` to `/md/b` -/
def renameAToB : SceVopRenameArgs := ⟨0, 0, inRoot chA, 0, inRoot chB⟩

theorem treeKept_iff_oneFile : TreeKept oneFile (lastState [.rename idle renameAToB] oneFile) 4
    (slash :: mdName ++ [slash, chA]) (slash :: mdName ++ [slash, chB]) := by
  obtain ⟨hv, hparent, f, hf, hdir⟩ := rootOne_oneFile
  have hs : VopStep oneFile (.rename idle renameAToB) 0 (lastState [.rename idle renameAToB] oneFile) :=
    lastState_step (by decide +kernel)
  have hname : slash ∉ [chB] := by decide
  refine (treeKept_iff wellFormed_oneFile.1 wellFormed_oneFile.2 rfl resolves_oneFile hv hparent hf hdir rfl hname
    hs).2 ⟨fun b hb => ?_, not_below_oneFile, by decide, fun _ _ => rfl⟩
  have hno : getFsEntry (some (slash :: mdName ++ [slash, chB])) oneFile = .ok (.error (sceError 0x80010002)) := by
    decide +kernel
  cases hb.symm.trans hno

/-- The rename does not look at `/md/b`: two entries have the name. -/
theorem not_treeKept_twoFiles :
    let s' := lastState [.rename idle renameAToB] twoFiles
    WellFormed twoFiles ∧ AllReachable twoFiles ∧ Resolves twoFiles (some (slash :: mdName ++ [slash, chA])) 4 ∧
      Resolves twoFiles (some (slash :: mdName)) 1 ∧ VopStep twoFiles (.rename idle renameAToB) 0 s' ∧
      ¬ TreeKept twoFiles s' 4 (slash :: mdName ++ [slash, chA]) (slash :: mdName ++ [slash, chB]) := by
  intro s'
  refine ⟨wellFormed_twoFiles.1, wellFormed_twoFiles.2, by decide +kernel, by decide +kernel,
    lastState_step (by decide +kernel), fun h => ?_⟩
  have hhead : s'.head (some 1) = some 4 := by decide +kernel
  have h4 : s'.next? 4 = some (some 7) := by decide +kernel
  have h7 : s'.next? 7 = some none := by decide +kernel
  have hkids : s'.Kids (some 1) [4, 7] := by
    unfold Kids
    rw [hhead]
    exact ⟨rfl, _, h4, rfl, _, h7, rfl⟩
  have hnames : s'.nameOf 4 = s'.nameOf 7 := by decide +kernel
  have heq := h.names (some 1) 4 7 ⟨_, hkids, by simp⟩ ⟨_, hkids, by simp⟩ hnames
  exact absurd heq (by decide)

end VitaUtility.Dmass

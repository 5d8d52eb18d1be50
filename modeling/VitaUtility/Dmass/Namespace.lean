import VitaUtility.Dmass.Paths
import VitaUtility.Dmass.Vnodes

/-!
# Namespace calls as updates of the path map

`vop_create` and `vop_mkdir` add one path to the map of a well-formed tree, `vop_remove` and `vop_rmdir` delete
one, and all four leave a well-formed tree: the graph of names before and after a call is that of the `Insert`
and `Erase` of directory graphs.
-/

namespace VitaUtility.Dmass
open VfsState

variable {s s' : VfsState} {k : Answers} {r : Int} {a b d e : Addr} {v : NodePtr} {x y : Option Addr}
  {f g : FapsDmassFs} {c : CStr} {cs : List CStr} {path : Option CStr}

/-- What a well-formed tree depends on besides the links. -/
def labelView (f : FapsDmassFs) : Option NameBlock × UInt32 := (f.name, f.stat.stMode)

theorem nameOf_of_labelView (h : s'.view labelView a = s.view labelView a) : s'.nameOf a = s.nameOf a := by
  refine nameOf_of_view ?_
  have := congrArg (Option.map (·.1)) h
  unfold view at *
  rwa [Option.map_map, Option.map_map] at this

theorem mode_of_labelView (h : s'.view labelView a = s.view labelView a) (hf : s'.entries.lookup a = some f) :
    ∃ g, s.entries.lookup a = some g ∧ g.stat.stMode = f.stat.stMode := by
  unfold view at h
  rw [hf] at h
  obtain ⟨g, hg, hgf⟩ := Option.map_eq_some_iff.1 h.symm
  exact ⟨g, hg, (Prod.mk.inj hgf).2⟩

/-! ### Adding an entry -/

/-- The entry `e` of the name `c` is new in `s'`, in the directory `d`. -/
structure Added (s s' : VfsState) (d e : Addr) (c : CStr) : Prop where
  lists : Listed s'
  child : ∀ x a, s'.child x a ↔ s.child x a ∨ (x = some d ∧ a = e)
  parent : d ∈ s.entries.keys
  fresh : e ∉ s.entries.keys
  keys : s'.entries.keys = insert e s.entries.keys
  labels : ∀ b, b ≠ e → s'.view labelView b = s.view labelView b
  name : s'.nameOf e = some c

namespace Added

theorem not_child (h : Added s s' d e c) : ¬ s.child x e := fun hx =>
  h.fresh (mem_keys_iff.2 (child_live hx))

theorem leaf (h : Added s s' d e c) : ¬ s'.child (some e) a := by
  rw [h.child]
  rintro (ha | ⟨hed, -⟩)
  · obtain ⟨f, hf, -⟩ := parent_live ha
    exact h.fresh (mem_keys_iff.2 ⟨f, hf⟩)
  · exact h.fresh (Option.some.inj hed ▸ h.parent)

theorem nameOf (h : Added s s' d e c) (hb : b ≠ e) : s'.nameOf b = s.nameOf b :=
  nameOf_of_labelView (h.labels b hb)

theorem nameOf_child (h : Added s s' d e c) (ha : s.child x a) : s'.nameOf a = s.nameOf a := by
  refine h.nameOf ?_
  rintro rfl
  exact h.not_child ha

theorem insert (h : Added s s' d e c) : (nameGraph s).Insert (nameGraph s') d e where
  child x a _ := h.child x a
  leaf _ := h.leaf
  label _ _ _ ha := h.nameOf_child ha
  fresh _ _ := h.not_child

theorem ptrInsert (h : Added s s' d e c) : (ptrGraph s).Insert (ptrGraph s') d e where
  child x a _ := h.child x a
  leaf _ := h.leaf
  label _ _ _ _ := rfl
  fresh _ _ := h.not_child

theorem wellFormed (h : Added s s' d e c) (hW : WellFormed s) (hd : (nameGraph s).Open (some d))
    (hf : s.entries.lookup d = some f) (hdir : isDir f.stat.stMode) (hc : IsName c)
    (hfree : ∀ a, s.child (some d) a → s.nameOf a ≠ some c) : WellFormed s' := by
  have hopen : ∀ x, (nameGraph s').Open x ↔ (nameGraph s).Open x ∨ x = some e := fun x =>
    h.insert.open_iff hW.isTree hd h.name
  have htree := h.insert.isTree hW.isTree hd h.name hfree
  refine ⟨h.lists, htree.sib, fun x a hx ha => ?_, fun b g a hb hg ha => ?_⟩
  · rcases (hopen x).1 hx with hx | rfl
    · rcases (h.child x a).1 ha with ha | ⟨-, rfl⟩
      · rw [h.nameOf_child ha]
        exact hW.named x a hx ha
      · exact ⟨c, h.name, hc⟩
    · exact absurd ha h.leaf
  · rcases (hopen _).1 hb with hb | hbe
    swap
    · obtain rfl := Option.some.inj hbe
      exact absurd ha h.leaf
    have hbe : b ≠ e := by
      rintro rfl
      exact h.leaf ha
    obtain ⟨g', hg', hmode⟩ := mode_of_labelView (h.labels b hbe) hg
    rw [← hmode]
    rcases (h.child _ a).1 ha with ha | ⟨hbd, -⟩
    · exact hW.dirs b g' a hb hg' ha
    · obtain rfl := Option.some.inj hbd
      rwa [← Option.some.inj (hf.symm.trans hg')]

/-- The path of the new entry is added to the path map. -/
theorem resolves_iff (h : Added s s' d e c) (hW : WellFormed s) (hW' : WellFormed s')
    (hd : (nameGraph s).Walk none cs (some d)) (hn : ∀ c ∈ cs, IsName c) (hc : IsName c) :
    Resolves s' path a ↔ Resolves s path a ∨ (path = some (pathStr (cs ++ [c])) ∧ a = e) := by
  rw [hW.resolves_iff, hW'.resolves_iff]
  simp only [DirGraph.Walk_insert h.insert hW.isTree hd h.name]
  constructor
  · rintro ⟨ds, hnd, rfl, hw | ⟨rfl, ha⟩⟩
    · exact .inl ⟨ds, hnd, rfl, hw⟩
    · exact .inr ⟨rfl, Option.some.inj ha⟩
  · rintro (⟨ds, hnd, rfl, hw⟩ | ⟨rfl, rfl⟩)
    · exact ⟨ds, hnd, rfl, .inl hw⟩
    · refine ⟨cs ++ [c], fun c' hc' => ?_, rfl, .inr ⟨rfl, rfl⟩⟩
      rcases List.mem_append.1 hc' with hc' | hc'
      · exact hn c' hc'
      · rwa [List.mem_singleton.1 hc']

theorem allReachable (h : Added s s' d e c) (hA : AllReachable s) : AllReachable s' := by
  intro b hb
  rw [h.keys, Finset.mem_insert] at hb
  have hpar : (ptrGraph s').Open (some d) := by
    obtain ⟨p, hp⟩ := hA d h.parent
    exact ⟨p, h.ptrInsert.walk_old DirGraph.Open_none hp⟩
  rcases hb with rfl | hb
  · exact hpar.child ((h.child _ b).2 (.inr ⟨rfl, rfl⟩)) rfl
  · obtain ⟨p, hp⟩ := hA b hb
    exact ⟨p, h.ptrInsert.walk_old DirGraph.Open_none hp⟩

end Added

/-- What is in a new, empty file or directory. -/
structure IsEmpty (mode : UInt32) (g : FapsDmassFs) : Prop where
  mode : g.stat.stMode = mode
  size : g.stat.stSize = 0
  data : g.data = none
  kids : g.nextDir = none
  handles : g.pDmassFsX = []

section
variable {mode : UInt32} {name : Option NameBlock} {bufs : Finset Addr}

theorem added_linked (hL : Listed s) (he : e ∉ s.live) (hd : s.entries.lookup d = some f)
    (h : Linked (withEntry s k mode name e bufs) s' d e) (hp : s'.pTree = s.pTree) (hname : name.map (·.str) = some c) :
    Added s s' d e c := by
  have hfresh : e ∉ s.entries.keys := fun h => he (mem_live.2 (.inl (Finmap.mem_keys.1 h)))
  have hde : d ≠ e := by
    rintro rfl
    exact hfresh (mem_keys_iff.2 ⟨f, hd⟩)
  have hd₁ : (withEntry s k mode name e bufs).entries.lookup d = some f := by
    unfold withEntry
    rw [lookup_insert_ite, if_neg hde, hd]
  obtain ⟨hL', hch⟩ := listed_linked hL he hd₁ h hp
  refine ⟨hL', hch, mem_keys_iff.2 ⟨f, hd⟩, hfresh, ?_, fun b hb => ?_, ?_⟩
  · rw [h.keys]
    ext b
    simp [withEntry, Finmap.mem_keys, Finmap.mem_insert]
  · rw [h.view (by intros; rfl) (by intros; rfl) (by intros; rfl)]
    unfold view withEntry
    rw [lookup_insert_ite, if_neg hb]
  · rw [nameOf_linked h, if_pos rfl, hname]

theorem isEmpty_linked (hde : d ≠ e) (hd : s.entries.lookup d = some f)
    (h : Linked (withEntry s k mode name e bufs) s' d e) : ∃ g, s'.entries.lookup e = some g ∧ IsEmpty mode g := by
  have hnew : (withEntry s k mode name e bufs).entries.lookup e = some (newDmassFs mode k name) :=
    Finmap.lookup_insert _
  have hd₁ : (withEntry s k mode name e bufs).entries.lookup d = some f := by
    unfold withEntry
    rw [lookup_insert_ite, if_neg hde, hd]
  obtain ⟨g, hg⟩ := mem_keys_iff.1 (h.keys ▸ mem_keys_iff.2 ⟨_, hnew⟩)
  have hcontent := h.view (π := fun f => (f.stat, f.data, f.pDmassFsX)) (by intros; rfl) (by intros; rfl)
    (by intros; rfl) e
  unfold view at hcontent
  rw [hg, hnew] at hcontent
  obtain ⟨hstat, hrest⟩ := Prod.mk.inj (Option.some.inj hcontent)
  obtain ⟨hdata, hhandles⟩ := Prod.mk.inj hrest
  have hkids := head_linked hd₁ h e
  rw [if_neg fun heq => hde (Option.some.inj heq).symm, head_some, head_some, hg, hnew] at hkids
  refine ⟨g, hg, ?_, ?_, hdata, hkids, hhandles⟩
  · rw [hstat]
    rfl
  · rw [hstat]
    unfold newDmassFs initEntryDate
    cases k.rtc <;> rfl

end

theorem added_makeEntry {mode unk78 stAttr : UInt32} {fileInfo : SceVfsPath} {out : Option NodePtr}
    (hL : Listed s) (hk : k.mallocs) (hv : s.devInfo v = some d) (hd : s.entries.lookup d = some f)
    (hs : makeEntry (createDmassInfo mode) unk78 stAttr k v fileInfo s = .ok (0, out, s')) :
    fileInfo.name ≠ [] ∧ Fails s fileInfo.path ∧ ∃ e g, Added s s' d e fileInfo.name ∧
      s'.entries.lookup e = some g ∧ IsEmpty mode g := by
  rcases makeEntry_ok hs with ⟨h0, -⟩ | ⟨e, leak, name, bufs, n, d', fd, hB, hfail, hn, hd', -, hs⟩
  · exact absurd h0 (lt_irrefl _)
  obtain rfl := Option.some.inj ((devInfo_eq_some.2 ⟨n, hn, hd'⟩).symm.trans hv)
  have hde : d' ≠ e := by
    rintro rfl
    exact hB.fresh (mem_live.2 (.inl (Finmap.mem_iff.2 ⟨f, hd⟩)))
  rcases hs with ⟨h0, -⟩ | ⟨-, w, -, -, hs'⟩
  · exact absurd h0 (lt_irrefl _)
  have hlink : Linked (withEntry s k mode name e bufs) s' d' e := .inr ⟨w, by rw [hs']; rfl⟩
  have hname : name.map (·.str) = some fileInfo.name := by
    rcases hB.kept with ⟨hnone, -⟩ | ⟨b, -, -, -, hb, -⟩
    · exact absurd hnone (hB.got hk)
    · rw [hb]
      rfl
  obtain ⟨g, hg, hempty⟩ := isEmpty_linked hde hd hlink
  exact ⟨hB.named, hfail, e, g, added_linked hL hB.fresh hd hlink (by rw [hs']; rfl) hname, hg, hempty⟩

/-! ### Removing an entry -/

/-- The entry `e`, which had no children, is not in `s'`. -/
structure Removed (s s' : VfsState) (e : Addr) : Prop where
  lists : Listed s'
  child : ∀ x a, s'.child x a ↔ s.child x a ∧ a ≠ e ∧ x ≠ some e
  leaf : ∀ a, ¬ s.child (some e) a
  keys : s'.entries.keys = s.entries.keys.erase e
  labels : ∀ b, b ≠ e → s'.view labelView b = s.view labelView b

namespace Removed

theorem erase (h : Removed s s' e) : (nameGraph s).Erase (nameGraph s') e where
  child x a _ hx := by
    show s'.child x a ↔ s.child x a ∧ a ≠ e
    rw [h.child]
    simp [hx]
  leaf := h.leaf
  label _ _ _ _ ha := nameOf_of_labelView (h.labels _ ha)

theorem ptrErase (h : Removed s s' e) : (ptrGraph s).Erase (ptrGraph s') e where
  child x a _ hx := by
    show s'.child x a ↔ s.child x a ∧ a ≠ e
    rw [h.child]
    simp [hx]
  leaf := h.leaf
  label _ _ _ _ _ := rfl

theorem wellFormed (h : Removed s s' e) (hW : WellFormed s) : WellFormed s' := by
  refine ⟨h.lists, (h.erase.isTree hW.isTree).sib, fun x a hx ha => ?_, fun b g a hb hg ha => ?_⟩
  · obtain ⟨hx, -⟩ := h.erase.open_iff.1 hx
    obtain ⟨ha, hae, -⟩ := (h.child x a).1 ha
    rw [nameOf_of_labelView (h.labels a hae)]
    exact hW.named x a hx ha
  · obtain ⟨hb, -⟩ := h.erase.open_iff.1 hb
    obtain ⟨ha, -, hbe⟩ := (h.child _ a).1 ha
    obtain ⟨g', hg', hmode⟩ := mode_of_labelView (h.labels b fun h => hbe (congrArg some h)) hg
    rw [← hmode]
    exact hW.dirs b g' a hb hg' ha

/-- The path of the entry is deleted from the path map. -/
theorem resolves_iff (h : Removed s s' e) (hW : WellFormed s) (hW' : WellFormed s') :
    Resolves s' path a ↔ Resolves s path a ∧ a ≠ e := by
  rw [hW.resolves_iff, hW'.resolves_iff]
  simp only [DirGraph.Walk_erase h.erase]
  constructor
  · rintro ⟨cs, hn, hp, hw, hne⟩
    exact ⟨⟨cs, hn, hp, hw⟩, fun h => hne (congrArg some h)⟩
  · rintro ⟨⟨cs, hn, hp, hw⟩, hne⟩
    exact ⟨cs, hn, hp, hw, fun h => hne (Option.some.inj h)⟩

theorem allReachable (h : Removed s s' e) (hA : AllReachable s) : AllReachable s' := by
  intro b hb
  rw [h.keys, Finset.mem_erase] at hb
  exact h.ptrErase.open_iff.2 ⟨hA b hb.2, fun h => hb.1 (Option.some.inj h)⟩

end Removed

theorem view_unlinkAndDelete {β : Type} {π : FapsDmassFs → β} (h₁ : ∀ f q, π { f with nextDir := q } = π f)
    (h₂ : ∀ f q, π { f with next := q } = π f) (hs : unlinkAndDelete v e s = .ok (r, s')) (hb : b ≠ e) :
    s'.view π b = s.view π b := by
  obtain ⟨n, d, fd, -, -, -, ⟨-, -, rfl⟩ | ⟨pred, x, f, -, -, hs⟩⟩ := unlinkAndDelete_ok hs
  · rfl
  obtain ⟨f', -, ⟨-, rfl, -⟩ | ⟨-, -, -, rfl⟩⟩ := deleteDmassInfo_ok hs
  · exact view_setLink h₁ h₂
  · have hset : (s.setLink d pred f.next).view π b = s.view π b := view_setLink h₁ h₂
    rw [← hset]
    unfold view
    dsimp only
    rw [lookup_erase_ite, if_neg hb]

theorem removed_unlinkAndDelete (hL : Listed s) (hleaf : ∀ a, ¬ s.child (some e) a)
    (hs : unlinkAndDelete v e s = .ok (0, s')) : Removed s s' e := by
  obtain ⟨-, hkeys, hch⟩ := unlinkAndDelete_freed hL hs
  refine ⟨listed_unlinkAndDelete hL hs, hch, hleaf, hkeys, fun b hb => ?_⟩
  exact view_unlinkAndDelete (by intros; rfl) (by intros; rfl) hs hb

/-! ### The calls on a well-formed tree -/

/-- Every path but `path` resolves to the same entry, or fails in both states. -/
def SameElsewhere (s s' : VfsState) (path : Option CStr) : Prop :=
  ∀ q, q ≠ path → (∀ a, Resolves s' q a ↔ Resolves s q a) ∧ (Fails s' q ↔ Fails s q)

theorem sameElsewhere_of_resolves (hW : WellFormed s) (hW' : WellFormed s')
    (h : ∀ q, q ≠ path → ∀ a, Resolves s' q a ↔ Resolves s q a) : SameElsewhere s s' path := by
  intro q hq
  refine ⟨h q hq, ?_⟩
  rw [hW.fails_iff, hW'.fails_iff]
  simp only [h q hq]

/-- `path` has been added to the path map, for a new and empty entry. -/
structure PathAdded (s s' : VfsState) (path : Option CStr) (mode : UInt32) : Prop where
  new : ∃ e g, Resolves s' path e ∧ e ∉ s.entries.keys ∧ s'.entries.lookup e = some g ∧ IsEmpty mode g
  elsewhere : SameElsewhere s s' path

/-- `path` has been deleted from the path map. -/
structure PathRemoved (s s' : VfsState) (path : Option CStr) : Prop where
  gone : Fails s' path
  elsewhere : SameElsewhere s s' path

/-- The tree stays well formed, and keeps hanging from `pTree` as a whole. -/
def KeepsForm (s s' : VfsState) : Prop := WellFormed s' ∧ (AllReachable s → AllReachable s')

/-- The path of a name in the directory that `parent` resolves to. -/
theorem path_in {parent : CStr} (hW : WellFormed s) (hparent : Resolves s (some parent) d) :
    ∃ cs, (∀ c ∈ cs, IsName c) ∧ (nameGraph s).Walk none cs (some d) ∧
      ∀ c, parent ++ slash :: c = pathStr (cs ++ [c]) := by
  obtain ⟨cs, hn, hp, hw⟩ := hW.resolves_iff.1 hparent
  refine ⟨cs, hn, hw, fun c => ?_⟩
  rw [pathStr_snoc, Option.some.inj hp]

theorem pathAdded_makeEntry {mode unk78 stAttr : UInt32} {parent name : CStr} {out : Option NodePtr}
    (hW : WellFormed s) (hk : k.mallocs) (hv : s.devInfo v = some d) (hparent : Resolves s (some parent) d)
    (hd : s.entries.lookup d = some f) (hdir : isDir f.stat.stMode) (hname : slash ∉ name)
    (hs : makeEntry (createDmassInfo mode) unk78 stAttr k v ⟨name, some (parent ++ slash :: name)⟩ s =
      .ok (0, out, s')) : PathAdded s s' (some (parent ++ slash :: name)) mode ∧ KeepsForm s s' := by
  obtain ⟨hne, hfail, e, g, hA, hg, hempty⟩ := added_makeEntry hW.lists hk hv hd hs
  dsimp only at hne hfail hA
  obtain ⟨cs, hn, hw, hpath⟩ := path_in hW hparent
  have hc : IsName name := ⟨hne, hname⟩
  have hcs : ∀ c ∈ cs ++ [name], IsName c := by
    intro c' hc'
    rcases List.mem_append.1 hc' with hc' | hc'
    · exact hn c' hc'
    · rwa [List.mem_singleton.1 hc']
  rw [hpath name] at hfail ⊢
  -- the path failed, so no child of the directory had the name
  have hfree : ∀ a, s.child (some d) a → s.nameOf a ≠ some name := by
    intro a ha hna
    refine hW.fails_iff.1 hfail a ((hW.resolves_pathStr hcs).2 ?_)
    exact DirGraph.Walk_snoc.2 ⟨some d, a, hw, ha, hna, rfl⟩
  have hW' := hA.wellFormed hW ⟨cs, hw⟩ hd hdir hc hfree
  have hres : ∀ q a, Resolves s' q a ↔ _ := fun q a => hA.resolves_iff hW hW' hw hn hc
  refine ⟨⟨⟨e, g, (hres _ e).2 (.inr ⟨rfl, rfl⟩), hA.fresh, hg, hempty⟩, ?_⟩, hW', hA.allReachable⟩
  refine sameElsewhere_of_resolves hW hW' fun q hq a => ?_
  rw [hres]
  simp [hq]

theorem pathRemoved_unlinkAndDelete (hW : WellFormed s) (hpath : Resolves s path e)
    (hleaf : ∀ a, ¬ s.child (some e) a) (hs : unlinkAndDelete v e s = .ok (0, s')) :
    PathRemoved s s' path ∧ KeepsForm s s' := by
  have hR := removed_unlinkAndDelete hW.lists hleaf hs
  have hW' := hR.wellFormed hW
  have hres : ∀ q a, Resolves s' q a ↔ _ := fun q a => hR.resolves_iff hW hW'
  refine ⟨⟨?_, sameElsewhere_of_resolves hW hW' fun q hq a => ?_⟩, hW', hR.allReachable⟩
  · rw [hW'.fails_iff]
    intro a ha
    rw [hres] at ha
    exact ha.2 (ha.1.unique hpath)
  · rw [hres]
    refine ⟨And.left, fun ha => ⟨ha, ?_⟩⟩
    -- an entry has one path
    rintro rfl
    obtain ⟨cs, hn, rfl, hw⟩ := hW.resolves_iff.1 ha
    obtain ⟨ds, hn', rfl, hw'⟩ := hW.resolves_iff.1 hpath
    exact hq (by rw [hW.isTree.path_unique hw hw'])

/-- A regular file of a well-formed tree has no children. -/
theorem WellFormed.leaf_of_isReg (hW : WellFormed s) (hpath : Resolves s path e) (hf : s.entries.lookup e = some f)
    (hreg : isReg f.stat.stMode) : ¬ s.child (some e) a := by
  intro ha
  obtain ⟨cs, -, -, hw⟩ := hW.resolves_iff.1 hpath
  have hdir := hW.dirs e f a ⟨cs, hw⟩ hf ha
  exact absurd (hreg.symm.trans hdir) (by decide)

section
variable {parent name : CStr}

theorem pathAdded_create (hW : WellFormed s) (hv : s.devInfo v = some d) (hparent : Resolves s (some parent) d)
    (hd : s.entries.lookup d = some f) (hdir : isDir f.stat.stMode) (hname : slash ∉ name) (hk : k.mallocs)
    (hs : VopStep s (.create k ⟨v, ⟨name, some (parent ++ slash :: name)⟩⟩) 0 s') :
    PathAdded s s' (some (parent ++ slash :: name)) (SCE_S_IWUSR ||| SCE_S_IRUSR ||| SCE_S_IFREG) ∧
      KeepsForm s s' := by
  obtain ⟨out, hs⟩ := dropOut_eq_ok.1 hs
  exact pathAdded_makeEntry hW hk hv hparent hd hdir hname hs

theorem pathAdded_mkdir (hW : WellFormed s) (hv : s.devInfo v = some d) (hparent : Resolves s (some parent) d)
    (hd : s.entries.lookup d = some f) (hdir : isDir f.stat.stMode) (hname : slash ∉ name) (hk : k.mallocs)
    (hs : VopStep s (.mkdir k ⟨v, ⟨name, some (parent ++ slash :: name)⟩⟩) 0 s') :
    PathAdded s s' (some (parent ++ slash :: name)) (SCE_S_IWUSR ||| SCE_S_IRUSR ||| SCE_S_IFDIR) ∧
      KeepsForm s s' := by
  obtain ⟨out, hs⟩ := dropOut_eq_ok.1 hs
  rcases vopMkdir_ok hs with ⟨h0, -⟩ | ⟨n, d, f, -, -, -, -, hs⟩
  · exact absurd h0 (lt_irrefl _)
  · exact pathAdded_makeEntry hW hk hv hparent hd hdir hname hs

theorem pathRemoved_remove {argp : SceVfsPartDeinit} (hW : WellFormed s) (hs : VopStep s (.remove argp) 0 s') :
    PathRemoved s s' argp.fileInfo.path ∧ KeepsForm s s' := by
  rcases vopRemove_ok hs with ⟨h0, -⟩ | ⟨e, g, hpath, hg, hreg, hs⟩
  · exact absurd h0 (lt_irrefl _)
  · exact pathRemoved_unlinkAndDelete hW hpath (fun a => hW.leaf_of_isReg hpath hg hreg) hs

theorem pathRemoved_rmdir {argp : SceVopRmdirArgs} (hW : WellFormed s) (hs : VopStep s (.rmdir argp) 0 s') :
    PathRemoved s s' argp.fileInfo.path ∧ KeepsForm s s' := by
  rcases vopRmdir_ok hs with ⟨h0, -⟩ | ⟨e, g, hpath, hg, hnone, -, hs⟩
  · exact absurd h0 (lt_irrefl _)
  · exact pathRemoved_unlinkAndDelete hW hpath (fun a => leaf_of_nextDir hg hnone) hs

/-- The four namespace calls on the path `parent/name`, through the vnode of the directory `parent`. -/
theorem namespace_step (hW : WellFormed s) (hv : s.devInfo v = some d)
    (hparent : Resolves s (some parent) d) (hd : s.entries.lookup d = some f) (hdir : isDir f.stat.stMode)
    (hname : slash ∉ name) (hk : k.mallocs) :
    let fileInfo : SceVfsPath := ⟨name, some (parent ++ slash :: name)⟩
    (∀ s', VopStep s (.create k ⟨v, fileInfo⟩) 0 s' →
      PathAdded s s' fileInfo.path (SCE_S_IWUSR ||| SCE_S_IRUSR ||| SCE_S_IFREG) ∧ KeepsForm s s') ∧
    (∀ s', VopStep s (.mkdir k ⟨v, fileInfo⟩) 0 s' →
      PathAdded s s' fileInfo.path (SCE_S_IWUSR ||| SCE_S_IRUSR ||| SCE_S_IFDIR) ∧ KeepsForm s s') ∧
    (∀ s', VopStep s (.remove ⟨v, fileInfo⟩) 0 s' → PathRemoved s s' fileInfo.path ∧ KeepsForm s s') ∧
    (∀ s', VopStep s (.rmdir ⟨v, fileInfo⟩) 0 s' → PathRemoved s s' fileInfo.path ∧ KeepsForm s s') := by
  refine ⟨fun s' hs => ?_, fun s' hs => ?_, fun s' hs => ?_, fun s' hs => ?_⟩
  · exact pathAdded_create hW hv hparent hd hdir hname hk hs
  · exact pathAdded_mkdir hW hv hparent hd hdir hname hk hs
  · exact pathRemoved_remove hW hs
  · exact pathRemoved_rmdir hW hs

end

/-- The root directory is the entry 1, with the vnode 0. -/
structure RootOne (s : VfsState) : Prop where
  node : s.devInfo 0 = some 1
  path : Resolves s (some (slash :: mdName)) 1
  dir : ∃ f, s.entries.lookup 1 = some f ∧ isDir f.stat.stMode

theorem RootOne.of_view (hv : s.devInfo 0 = some 1) (hpath : Resolves s (some (slash :: mdName)) 1)
    (hmode : s.view (fun f => decide (isDir f.stat.stMode)) 1 = some true) : RootOne s := by
  obtain ⟨f, hf, hdir⟩ := view_eq_some.1 hmode
  exact ⟨hv, hpath, f, hf, of_decide_eq_true hdir⟩

theorem rootOne_mounted : RootOne mounted := .of_view (by decide +kernel) (by decide +kernel) (by decide +kernel)

theorem namespace_step_create :
    PathAdded mounted (lastState [.create idle ⟨0, inRoot chA⟩] mounted) (inRoot chA).path
      (SCE_S_IWUSR ||| SCE_S_IRUSR ||| SCE_S_IFREG) ∧
    KeepsForm mounted (lastState [.create idle ⟨0, inRoot chA⟩] mounted) := by
  obtain ⟨hv, hparent, f, hd, hdir⟩ := rootOne_mounted
  have hname : slash ∉ [chA] := by decide
  exact (namespace_step wellFormed_mounted hv hparent hd hdir hname (k := idle) (fun _ _ => rfl)).1 _
    (lastState_step (by decide +kernel))

end VitaUtility.Dmass

import VitaUtility.Dmass.Creation
import VitaUtility.Dmass.Rename

/-!
# Looking up what has just been created

`get_fs_entry` takes the first sibling of a name. A call that makes or moves an entry puts it first into its
directory, so the path of its name leads to it, whatever else the directory holds. `vop_lookup` refuses the
names of `check_name` before it resolves anything, and no call that stores a name does.
-/

namespace VitaUtility.Dmass
open VfsState

variable {s s' : VfsState} {k : Answers} {r : Int} {a b d e : Addr} {u v w : NodePtr} {x y : Option Addr}
  {f : FapsDmassFs} {c : CStr} {cs : List CStr} {path : Option CStr}

/-! ### What a path resolves to hangs from the top -/

theorem next?_of_peekName {rest : CStr} {len : Nat} {hit : Bool} {q : Option Addr}
    (h : peekName s rest len a = .ok (hit, q)) : s.next? a = some q := by
  unfold peekName at h
  rw [bind_eq_ok] at h
  obtain ⟨f, hf, h⟩ := h
  rw [entry_eq_ok] at hf
  unfold next?
  rw [hf]
  split at h <;> cases h
  rfl

theorem getFsEntryLoop_reachable {fuel : Nat} {current : CStr} (hL : Listed s) (hx : (ptrGraph s).Open x)
    (h : getFsEntryLoop s fuel current (s.head x) = .ok (.ok (some e))) (hne : current ≠ []) : Reachable s e := by
  induction fuel generalizing current x with
  | zero =>
    cases current with
    | nil => exact absurd rfl hne
    | cons c current => cases h
  | succ fuel ih =>
    cases current with
    | nil => exact absurd rfl hne
    | cons c current =>
      unfold getFsEntryLoop at h
      split at h
      · cases h
      rename_i s1 hs1
      dsimp only at h
      split at h
      · cases h
      rw [bind_eq_ok] at h
      obtain ⟨link, hl, h⟩ := h
      split at h
      · cases h
      rename_i p a
      rw [bind_eq_ok] at h
      obtain ⟨f, hf, h⟩ := h
      rw [entry_eq_ok] at hf
      obtain ⟨l, hK⟩ := hL.kids x
      have ha : (ptrGraph s).Open (some a) :=
        hx.child ((child_iff hK).2 (findLink_mem hK (fun _ _ _ => next?_of_peekName) hl)) rfl
      cases hs2 : (strchr s1.tail slash).getD [] with
      | nil =>
        rw [hs2, if_neg (show ([] : CStr).head? ≠ some slash by simp)] at h
        obtain rfl : a = e := by
          cases fuel <;> exact Option.some.inj (Except.ok.inj (Except.ok.inj h))
        exact ha
      | cons z s2 =>
        have hz : z = slash := head_dropWhile (strchr_getD.symm.trans hs2)
        have hhead : f.nextDir = s.head (some a) := by
          rw [head_some, hf]
          rfl
        rw [hs2, hz, if_pos List.head?_cons, hhead] at h
        exact ih ha h (List.cons_ne_nil _ _)

theorem Resolves.live (h : Resolves s path e) : ∃ f, s.entries.lookup e = some f := by
  obtain ⟨c, hc⟩ := Option.ne_none_iff_exists'.1 h.nameOf_ne_none
  obtain ⟨f, -, hf, -⟩ := nameOf_eq_some.1 hc
  exact ⟨f, hf⟩

theorem Resolves.reachable (h : Resolves s path e) (hL : Listed s) : Reachable s e := by
  unfold Resolves getFsEntry getFsEntryInternal at h
  split at h
  · cases h
  split at h
  · cases h
  rename_i hslash
  refine getFsEntryLoop_reachable (x := none) hL DirGraph.Open_none h ?_
  rintro rfl
  exact hslash nofun

/-! ### An entry put first into a directory -/

/-- The entry `e`, new or taken from where it was, is the first of the directory `d`. -/
structure PutFirst (s s' : VfsState) (d e : Addr) : Prop where
  lists : Listed s'
  child : ∀ x a, s'.child x a ↔ (s.child x a ∧ a ≠ e) ∨ (x = some d ∧ a = e)
  first : s'.head (some d) = some e
  names : ∀ b, b ≠ e → s'.nameOf b = s.nameOf b

namespace PutFirst

/-- The path to the directory leads there by first siblings, when it does not go through the entry. -/
theorem firstWalk (h : PutFirst s s' d e) (hW : WellFormed s) (hx : (nameGraph s).Open x)
    (hwalk : (nameGraph s).Walk x cs (some d)) (hout : ¬ (nameGraph s).Below e d) : FirstWalk s' x cs (some d) := by
  induction cs generalizing x with
  | nil => exact hwalk
  | cons c cs ih =>
    have hxd : x ≠ some d := by
      rintro rfl
      cases hW.isTree.walk_self hx hwalk
    obtain ⟨a, ha, hac, hwalk⟩ := hwalk
    have hae : a ≠ e := by
      rintro rfl
      exact hout ⟨cs, hwalk⟩
    obtain ⟨l, hK⟩ := h.lists.kids x
    have hmem : ∀ b, b ∈ l ↔ s.child x b ∧ b ≠ e := by
      intro b
      rw [← child_iff hK, h.child]
      simp [hxd]
    obtain ⟨l₁, l₂, rfl⟩ := List.append_of_mem ((hmem a).2 ⟨ha, hae⟩)
    refine ⟨a, ⟨l₁, l₂, hK, fun b hb => ?_, (h.names a hae).trans hac⟩, ih (hW.open_child hx ha) hwalk⟩
    obtain ⟨hb', hbe⟩ := (hmem b).1 (List.mem_append_left _ hb)
    obtain ⟨c', hc', -⟩ := hW.named x b hx hb'
    refine ⟨c', (h.names b hbe).trans hc', ?_⟩
    -- siblings of one name are equal, and no cell is in a list twice
    rintro rfl
    obtain rfl := hW.sib x b a hx hb' ha (hc'.trans hac.symm)
    have hnd := Chain.nodup hK
    rw [List.nodup_middle, List.nodup_cons] at hnd
    exact hnd.1 (List.mem_append_left _ hb)

theorem firstNamed (h : PutFirst s s' d e) (hname : s'.nameOf e = some c) : FirstNamed s' (some d) c e := by
  obtain ⟨l, hK⟩ := h.lists.kids (some d)
  have hK' := hK
  unfold Kids at hK'
  rw [h.first] at hK'
  cases l with
  | nil => cases hK'
  | cons a l =>
    obtain rfl := Option.some.inj hK'.1
    exact ⟨[], l, hK, nofun, hname⟩

theorem resolves (h : PutFirst s s' d e) (hW : WellFormed s) (hwalk : (nameGraph s).Walk none cs (some d))
    (hn : ∀ c ∈ cs, IsName c) (hout : ¬ (nameGraph s).Below e d) (hname : s'.nameOf e = some c) (hc : IsName c) :
    Resolves s' (some (pathStr (cs ++ [c]))) e := by
  refine ((h.firstWalk hW DirGraph.Open_none hwalk hout).snoc (h.firstNamed hname)).resolves fun c' hc' => ?_
  rcases List.mem_append.1 hc' with hc' | hc'
  · exact hn c' hc'
  · rwa [List.mem_singleton.1 hc']

end PutFirst

theorem putFirst_linked {mode : UInt32} {name : Option NameBlock} {bufs : Finset Addr} {fd : FapsDmassFs}
    (hL : Listed s) (he : e ∉ s.live) (hd : (withEntry s k mode name e bufs).entries.lookup d = some fd)
    (hlink : Linked (withEntry s k mode name e bufs) s' d e) (hp : s'.pTree = s.pTree) : PutFirst s s' d e := by
  obtain ⟨hL', hch⟩ := listed_linked hL he hd hlink hp
  refine ⟨hL', fun x a => ?_, ?_, fun b hb => ?_⟩
  · have hne : s.child x a → a ≠ e := by
      rintro ha rfl
      obtain ⟨f, hf⟩ := child_live ha
      exact he (mem_live.2 (.inl (Finmap.mem_iff.2 ⟨f, hf⟩)))
    exact (hch x a).trans (or_congr_left ⟨fun ha => ⟨ha, hne ha⟩, And.left⟩)
  · rw [head_linked hd hlink, if_pos rfl]
  · rw [nameOf_linked hlink, if_neg hb]

theorem putFirst_vopRename {argp : SceVopRenameArgs} {out : Option NodePtr} (hL : Listed s)
    (hd : s.devInfo argp.node3 = some d) (he : Resolves s argp.fileInfoOld.path e)
    (hs : vopRename k argp s = .ok (0, out, s')) : PutFirst s s' d e := by
  have hR := (renamed_vopRename hL hd he hs).1
  refine ⟨hR.lists, hR.child, ?_, hR.names⟩
  rcases vopRename_ok hs with ⟨h0, -⟩ | ⟨-, -, n', d', fd, e', f, pred, x, w, n3, d3, fd3, v, old, name, h⟩
  · exact absurd h0 (lt_irrefl _)
  obtain ⟨-, -, -, hpath, -, -, -, -, hn3, hd3, hfd3, -, -, -, hs'⟩ := h
  obtain rfl : e' = e := Resolves.unique hpath he
  obtain rfl := Option.some.inj ((devInfo_eq_some.2 ⟨n3, hn3, hd3⟩).symm.trans hd)
  have hhead : s'.head (some d3) = ((s.setLink d' pred f.next).pushEntry d3 e').head (some d3) := by
    rw [hs']
    exact head_of_view (view_modEntry fun _ => rfl)
  rw [hhead, head_pushEntry hfd3, if_pos rfl]

/-! ### `vop_lookup` -/

theorem checkName_cases (name : CStr) : checkName name = 0 ∨ checkName name = sceError 0x80020005 := by
  have hch : ∀ ch list, checkNameInternal ch list = 0 ∨ checkNameInternal ch list = sceError 0x80020005 := by
    intro ch list
    induction list with
    | nil => exact .inl rfl
    | cons c list ih =>
      unfold checkNameInternal
      split
      · exact .inr rfl
      · exact ih
  induction name with
  | nil => exact .inl rfl
  | cons c name ih =>
    unfold checkName
    dsimp only
    split
    · rcases hch c badChars with h | h
      · rename_i hneg
        rw [h] at hneg
        exact absurd hneg (lt_irrefl _)
      · exact .inr h
    · exact ih

/-- The slash is one of the bad characters. -/
theorem no_slash_of_checkName {name : CStr} (h : checkName name = 0) : slash ∉ name := by
  induction name with
  | nil => nofun
  | cons c name ih =>
    unfold checkName at h
    dsimp only at h
    split at h
    · rename_i hneg
      exact absurd h hneg.ne
    · rename_i hpos
      intro hmem
      rcases List.mem_cons.1 hmem with rfl | hmem
      · exact hpos (by decide)
      · exact ih h hmem

/-- `u` is a vnode of a mount. -/
def mountedNode (s : VfsState) (u : NodePtr) : Prop := ∃ n, s.vnodes.lookup u = some n ∧ n.mount ≠ none

/-- A `vop_lookup` of the path and name of `fileInfo` gives a vnode of the entry that `w` is a vnode of. -/
def LookupFinds (k : Answers) (s : VfsState) (u : NodePtr) (fileInfo : SceVfsPath) (w : NodePtr) : Prop :=
  ∃ e w' t, s.devInfo w = some e ∧ vopPartInit k ⟨u, fileInfo⟩ s = .ok (0, some w', t) ∧ t.devInfo w' = some e

theorem newNode_made {m : Option MountPtr} (hmade : vnodeMade k s) (hm : m ≠ none) :
    ∃ w, s.newNode k m = .ok (.ok w, { s with vnodes := s.vnodes.insert w {} }) := by
  obtain ⟨m, rfl⟩ := Option.ne_none_iff_exists'.1 hm
  obtain ⟨hnode, hwait⟩ := hmade
  unfold newNode
  cases hv : k.newNode s.nodesInUse with
  | error c =>
    rw [hv] at hnode
    cases hnode
  | ok v =>
    dsimp only
    rw [if_neg (not_lt.2 hwait)]
    exact ⟨v, rfl⟩

theorem vopPartInit_gives {fileInfo : SceVfsPath} (hmade : vnodeMade k s) (hu : mountedNode s u)
    (hname : checkName fileInfo.name = 0) (hpath : Resolves s fileInfo.path e) :
    Gives (vopPartInit k ⟨u, fileInfo⟩ s) fun x => x.1 = 0 := by
  obtain ⟨n, hn, hm⟩ := hu
  obtain ⟨w, hw⟩ := newNode_made hmade hm
  obtain ⟨f, hf⟩ := hpath.live
  have hd : VfsState.deref { s with vnodes := s.vnodes.insert w {} } (some e) = .ok (e, f) := deref_eq_ok.2 ⟨rfl, hf⟩
  unfold vopPartInit
  dsimp only
  rw [hname, if_neg (by decide), if_neg (by decide)]
  refine Gives.bind (node_eq_ok.2 hn) ?_
  rw [if_neg hm]
  refine Gives.bind hpath (Gives.bind hw (Gives.bind hd ?_))
  exact ⟨_, rfl, rfl⟩

theorem lookupFinds_iff_resolves {fileInfo : SceVfsPath} (hmade : vnodeMade k s) (hu : mountedNode s u)
    (hw : s.devInfo w = some e) :
    LookupFinds k s u fileInfo w ↔ checkName fileInfo.name = 0 ∧ Resolves s fileInfo.path e := by
  have hspec : ∀ w' t, vopPartInit k ⟨u, fileInfo⟩ s = .ok (0, some w', t) →
      ∃ e', Resolves s fileInfo.path e' ∧ t.devInfo w' = some e' := by
    intro w' t h
    rcases vopPartInit_ok h with ⟨h0, -⟩ | ⟨-, n, e', f, w₂, -, hpath, -, -, hout, rfl⟩
    · exact absurd h0 (lt_irrefl _)
    obtain rfl := Option.some.inj hout
    exact ⟨e', hpath, (devInfo_insert rfl rfl).trans (if_pos rfl)⟩
  constructor
  · rintro ⟨e₁, w', t, he₁, h, ht⟩
    obtain rfl := Option.some.inj (hw.symm.trans he₁)
    obtain ⟨e', hpath, he'⟩ := hspec w' t h
    obtain rfl := Option.some.inj (ht.symm.trans he')
    refine ⟨(checkName_cases _).resolve_right fun hbad => ?_, hpath⟩
    unfold vopPartInit at h
    dsimp only at h
    rw [if_pos hbad] at h
    cases h
  · rintro ⟨hname, hpath⟩
    obtain ⟨⟨r, out, t⟩, h, rfl⟩ := vopPartInit_gives hmade hu hname hpath
    rcases vopPartInit_ok h with ⟨h0, -⟩ | ⟨-, n, e', f, w', -, -, -, -, rfl, -⟩
    · exact absurd h0 (lt_irrefl _)
    obtain ⟨e', hpath', he'⟩ := hspec w' t h
    obtain rfl := hpath.unique hpath'
    exact ⟨e, w', t, hw, h, he'⟩

/-! ### The names that can be looked up -/

/-- The path of a new entry leads to it when the entry has got its name, and this is a component. -/
theorem resolves_makeEntry {mode unk78 stAttr : UInt32} {parent name : CStr} (hW : WellFormed s)
    (hv : s.devInfo v = some d) (hparent : Resolves s (some parent) d)
    (hs : makeEntry (createDmassInfo mode) unk78 stAttr k v ⟨name, some (parent ++ slash :: name)⟩ s =
      .ok (0, some w, s')) : ∃ e, s'.devInfo w = some e ∧
      (Resolves s' (some (parent ++ slash :: name)) e ↔ slash ∉ name ∧ nameKept k s.live) := by
  rcases makeEntry_cases hs with ⟨-, h0, -⟩ | ⟨hlinks, -⟩
  · exact absurd h0 (lt_irrefl _)
  obtain ⟨e, nm, bufs, d', fd, he, hv', hd, hlink, hp, hname, hcase⟩ := makeEntry_linked hs hlinks
  obtain rfl := Option.some.inj (hv'.symm.trans hv)
  rcases hcase with ⟨-, h0⟩ | ⟨-, -, w', hout, hw, -⟩
  · exact absurd h0 (lt_irrefl _)
  obtain rfl := Option.some.inj hout
  have hnameOf : s'.nameOf e = nm.map (·.str) := by rw [nameOf_linked hlink, if_pos rfl]
  refine ⟨e, hw, fun hpath => ?_, fun ⟨hslash, hkept⟩ => ?_⟩
  · obtain ⟨c, hc, hslash⟩ := hpath.name
    rw [hnameOf] at hc
    rcases hname with ⟨hkept, hnm⟩ | ⟨-, rfl⟩
    · obtain rfl := Option.some.inj (hnm.symm.trans hc)
      exact ⟨hslash, hkept⟩
    · cases hc
  · have hnm := (hname.resolve_right fun hlost => hlost.1 hkept).2
    obtain ⟨cs, hn, hwalk, hpathStr⟩ := path_in hW hparent
    have hput := putFirst_linked hW.lists he hd hlink hp
    -- the directory was live before, so it is not below the new entry
    have hout : ¬ (nameGraph s).Below e d' := by
      rintro ⟨p, hp⟩
      have hlive : ∀ f, s.entries.lookup e ≠ some f := fun f hf => he (mem_live.2 (.inl (Finmap.mem_iff.2 ⟨f, hf⟩)))
      cases p with
      | nil =>
        obtain rfl := Option.some.inj (show some e = some d' from hp)
        obtain ⟨f, hf⟩ := hparent.live
        exact hlive f hf
      | cons c p =>
        obtain ⟨a, ha, -⟩ := hp
        obtain ⟨f, hf, -⟩ := parent_live ha
        exact hlive f hf
    rw [hpathStr name]
    exact hput.resolves hW hwalk hn hout (hnameOf.trans hnm) ⟨hlinks.2.1, hslash⟩

theorem lookupFinds_makeEntry {mode unk78 stAttr : UInt32} {parent name : CStr} {k' : Answers} (hW : WellFormed s)
    (hv : s.devInfo v = some d) (hparent : Resolves s (some parent) d)
    (hs : makeEntry (createDmassInfo mode) unk78 stAttr k v ⟨name, some (parent ++ slash :: name)⟩ s =
      .ok (0, some w, s')) (hmade : vnodeMade k' s') (hu : mountedNode s' u) :
    LookupFinds k' s' u ⟨name, some (parent ++ slash :: name)⟩ w ↔ checkName name = 0 ∧ nameKept k s.live := by
  obtain ⟨e, hw, hpath⟩ := resolves_makeEntry hW hv hparent hs
  rw [lookupFinds_iff_resolves hmade hu hw]
  refine and_congr_right fun hcheck => hpath.trans ?_
  exact and_iff_right (no_slash_of_checkName hcheck)

theorem lookupFinds_rename {argp : SceVopRenameArgs} {parent name : CStr} {k' : Answers} (hW : WellFormed s)
    (hd : s.devInfo argp.node3 = some d) (hparent : Resolves s (some parent) d)
    (hnew : argp.fileInfoNew = ⟨name, some (parent ++ slash :: name)⟩) (he : Resolves s argp.fileInfoOld.path e)
    (hs : vopRename k argp s = .ok (0, some w, s')) (hmade : vnodeMade k' s') (hu : mountedNode s' u) :
    LookupFinds k' s' u ⟨name, some (parent ++ slash :: name)⟩ w ↔
      checkName name = 0 ∧ nameFits k s e name ∧ ¬ (nameGraph s).Below e d := by
  obtain ⟨hR, hcase⟩ := renamed_vopRename hW.lists hd he hs
  rw [hnew] at hcase
  have hw : s'.devInfo w = some e := by
    rcases vopRename_ok hs with ⟨h0, -⟩ | ⟨-, -, n', d', fd, e', f, pred, x, w', n3, d3, fd3, v, old, nm, h⟩
    · exact absurd h0 (lt_irrefl _)
    obtain ⟨-, -, -, hpath, -, -, -, hout, -, -, -, -, -, -, hs'⟩ := h
    obtain rfl : e' = e := Resolves.unique hpath he
    obtain rfl := Option.some.inj hout
    rw [hs']
    exact (devInfo_insert (s := s) rfl rfl).trans (if_pos rfl)
  rw [lookupFinds_iff_resolves hmade hu hw]
  refine and_congr_right fun hcheck => ?_
  dsimp only at hcheck hcase ⊢
  have hopen : (nameGraph s).Open (some e) := by
    obtain ⟨cs, -, -, hwalk⟩ := hW.resolves_iff.1 he
    exact ⟨cs, hwalk⟩
  constructor
  · intro hpath
    refine ⟨(hcase.resolve_right fun hlost => hpath.nameOf_ne_none hlost.2).1, fun hbelow => ?_⟩
    -- what is moved below itself does not hang from the top any more
    refine hR.ptrMove.not_open hW.lists.isTree (hW.open_iff_reachable.1 hopen) ?_ .refl (hpath.reachable hR.lists)
    rwa [hW.below_iff hopen]
  · rintro ⟨hfits, hout⟩
    have hname := (hcase.resolve_right fun hlost => hlost.1 hfits).2
    obtain ⟨cs, hn, hwalk, hpathStr⟩ := path_in hW hparent
    rw [hpathStr name]
    exact (putFirst_vopRename hW.lists hd he hs).resolves hW hwalk hn hout hname
      ⟨hfits.1, no_slash_of_checkName hcheck⟩

/-- Which of the names that the three calls have stored under the directory `d` can be looked up. -/
theorem lookupFinds_iff {parent name : CStr} {k' : Answers} (hW : WellFormed s) (hv : s.devInfo v = some d)
    (hparent : Resolves s (some parent) d) (hmade : vnodeMade k' s') (hu : mountedNode s' u) :
    let fileInfo : SceVfsPath := ⟨name, some (parent ++ slash :: name)⟩
    (vopCreate k ⟨v, fileInfo⟩ s = .ok (0, some w, s') →
      (LookupFinds k' s' u fileInfo w ↔ checkName name = 0 ∧ nameKept k s.live)) ∧
    (vopMkdir k ⟨v, fileInfo⟩ s = .ok (0, some w, s') →
      (LookupFinds k' s' u fileInfo w ↔ checkName name = 0 ∧ nameKept k s.live)) ∧
    (∀ node node2 fileInfoOld e, Resolves s fileInfoOld.path e →
      vopRename k ⟨node, node2, fileInfoOld, v, fileInfo⟩ s = .ok (0, some w, s') →
      (LookupFinds k' s' u fileInfo w ↔ checkName name = 0 ∧ nameFits k s e name ∧ ¬ (nameGraph s).Below e d)) := by
  refine ⟨fun hs => ?_, fun hs => ?_, fun node node2 fileInfoOld e he hs => ?_⟩
  · exact lookupFinds_makeEntry hW hv hparent hs hmade hu
  · rcases vopMkdir_ok hs with ⟨h0, -⟩ | ⟨n, d', f, -, -, -, -, hs⟩
    · exact absurd h0 (lt_irrefl _)
    · exact lookupFinds_makeEntry hW hv hparent hs hmade hu
  · exact lookupFinds_rename hW hv hparent rfl he hs hmade hu

theorem lookupFinds_iff_root :
    LookupFinds idle (lastState [.create idle ⟨0, inRoot chA⟩] mounted) 0 (inRoot chA) 1 ∧
      LookupFinds idle (lastState [.mkdir idle ⟨0, inRoot chA⟩] mounted) 0 (inRoot chA) 1 ∧
      LookupFinds idle (lastState [.rename idle renameAToB] oneFile) 0 (inRoot chB) 2 := by
  have hcreate : vopCreate idle ⟨0, inRoot chA⟩ mounted = .ok (0, some 1, _) :=
    lastState_out (.create idle ⟨0, inRoot chA⟩) rfl (by decide +kernel)
  have hmkdir : vopMkdir idle ⟨0, inRoot chA⟩ mounted = .ok (0, some 1, _) :=
    lastState_out (.mkdir idle ⟨0, inRoot chA⟩) rfl (by decide +kernel)
  have hrename : vopRename idle renameAToB oneFile = .ok (0, some 2, _) :=
    lastState_out (.rename idle renameAToB) rfl (by decide +kernel)
  obtain ⟨hv, hparent, -⟩ := rootOne_mounted
  obtain ⟨hv', hparent', -⟩ := rootOne_oneFile
  have hnode : ∀ t : VfsState, (t.vnodes.lookup 0).bind (·.mount) = some 0 → mountedNode t 0 := by
    intro t ht
    obtain ⟨n, hn, hm⟩ := Option.bind_eq_some_iff.1 ht
    exact ⟨n, hn, by rw [hm]; nofun⟩
  refine ⟨?_, ?_, ?_⟩
  · refine ((lookupFinds_iff wellFormed_mounted hv hparent vnodeMade_idle
      (hnode _ (by decide +kernel))).1 hcreate).2 ?_
    exact ⟨by decide, nameKept_idle _⟩
  · refine ((lookupFinds_iff wellFormed_mounted hv hparent vnodeMade_idle
      (hnode _ (by decide +kernel))).2.1 hmkdir).2 ?_
    exact ⟨by decide, nameKept_idle _⟩
  · refine ((lookupFinds_iff wellFormed_oneFile.1 hv' hparent' vnodeMade_idle
      (hnode _ (by decide +kernel))).2.2 0 0 (inRoot chA) 4 resolves_oneFile hrename).2 ?_
    exact ⟨by decide, ⟨by decide, fun _ _ => rfl⟩, not_below_oneFile⟩

/-- `vop_create` stores the name `:`, and `vop_lookup` says that there is no such file. -/
theorem not_lookupFinds_colon : ∃ s', WellFormed mounted ∧ mounted.devInfo 0 = some 1 ∧
    Resolves mounted (some (slash :: mdName)) 1 ∧ vopCreate idle ⟨0, inRoot colon⟩ mounted = .ok (0, some 1, s') ∧
    vnodeMade idle s' ∧ mountedNode s' 0 ∧ ¬ LookupFinds idle s' 0 (inRoot colon) 1 := by
  have hcreate : vopCreate idle ⟨0, inRoot colon⟩ mounted =
      .ok (0, some 1, lastState [.create idle ⟨0, inRoot colon⟩] mounted) :=
    lastState_out (.create idle ⟨0, inRoot colon⟩) rfl (by decide +kernel)
  have hnode : ((lastState [.create idle ⟨0, inRoot colon⟩] mounted).vnodes.lookup 0).bind (·.mount) = some 0 := by
    decide +kernel
  obtain ⟨n, hn, hm⟩ := Option.bind_eq_some_iff.1 hnode
  refine ⟨_, wellFormed_mounted, rootOne_mounted.node, rootOne_mounted.path, hcreate, vnodeMade_idle,
    ⟨n, hn, by rw [hm]; nofun⟩, ?_⟩
  rintro ⟨e, w', t, -, h, -⟩
  have hcheck : checkName (inRoot colon).name = sceError 0x80020005 := by decide
  unfold vopPartInit at h
  dsimp only at h
  rw [if_pos hcheck] at h
  cases h

end VitaUtility.Dmass

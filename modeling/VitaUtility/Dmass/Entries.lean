import VitaUtility.Dmass.Removal
import VitaUtility.Dmass.Represents

/-!
# The namespace calls on the file system of paths

Each call first returns (`_gives`: what it needs of the state and of the kernel), and then does to the map what the
operation does: a new entry is put at its path, a removed one deleted, a renamed one takes all below it along.
-/

namespace VitaUtility.Dmass
open VfsState

variable {s s' : VfsState} {k : Answers} {r : Int} {a b d e : Addr} {u v w : NodePtr} {f : FapsDmassFs} {c c' : CStr}
  {p p' : List CStr} {x y : PathNode FilePtr UInt8} {n : SceVfsNode} {A : FileSys} {mode unk78 stAttr : UInt32}
  {fileInfo : SceVfsPath}

/-! ### New entries -/

theorem makeEntry_exists (fileInfo : SceVfsPath) (hpath : Resolves s fileInfo.path e) :
    makeEntry (createDmassInfo mode) unk78 stAttr k u fileInfo s = .ok (sceError 0x80010011, none, s) := by
  unfold makeEntry
  rw [show getFsEntry fileInfo.path s = _ from hpath]
  rfl

theorem makeEntry_gives (hk : Plenty k) (hn : s.vnodes.lookup u = some n) (hd : n.devInfo = some d)
    (hm : n.mount ≠ none) (hf : s.entries.lookup d = some f) {res : Int}
    (hpath : getFsEntry fileInfo.path s = .ok (.error res)) (hne : fileInfo.name ≠ []) :
    Gives (makeEntry (createDmassInfo mode) unk78 stAttr k u fileInfo s) fun x => x.1 = 0 := by
  have hans : entryAnswered k fileInfo.name s.live := by
    refine ⟨hne, ?_⟩
    obtain ⟨e, he⟩ := Option.isSome_iff_exists.1 (hk.mallocs 0 s.live)
    refine ⟨e.1, ?_, ?_⟩
    · unfold Answers.block
      rw [he]
      rfl
    · rw [Answers.block, Option.isSome_map]
      exact hk.mallocs 1 _
  unfold makeEntry
  refine Gives.bind hpath ?_
  rcases createDmassInfo_cases mode k fileInfo.name s with ⟨hno, -⟩ | ⟨-, e, leak, name, bufs, hB, -, hc⟩
  · exact absurd hans hno
  rw [hc]
  have hde : d ≠ e := by
    rintro rfl
    exact hB.fresh (mem_live.2 (.inl (Finmap.mem_iff.2 ⟨f, hf⟩)))
  have hderef : VfsState.deref { s with entries := s.entries.insert e (newDmassFs mode k name), bufs := bufs } n.devInfo =
      .ok (d, f) := by
    rw [deref_eq_ok]
    refine ⟨hd, ?_⟩
    dsimp only
    rw [lookup_insert_ite, if_neg hde, hf]
  refine Gives.bind (node_eq_ok.2 hn) (Gives.bind hderef ?_)
  obtain ⟨w, hw⟩ := newNode_made (hk.made _) hm
  exact Gives.bind hw ⟨_, rfl, rfl⟩

/-- What a new entry of the mode holds. -/
def emptyNode (mode : UInt32) (y : PathNode FilePtr UInt8) : Prop :=
  (isReg mode ∧ y = .file .empty) ∨ (isDir mode ∧ y = .dir)

theorem holds_linked {name : Option NameBlock} {bufs : Finset Addr} (hde : d ≠ e)
    (hd : s.entries.lookup d = some f) (h : Linked (withEntry s k mode name e bufs) s' d e)
    (hsize : ∀ v n, s'.vnodes.lookup v = some n → n.devInfo = some e → n.stSize = 0) (hy : emptyNode mode y) :
    EntryHolds s' e y := by
  obtain ⟨g, hg, hempty⟩ := isEmpty_linked hde hd h
  have hrefer : g.refer = 0 := by
    have hview := h.view (π := (·.refer)) (by intros; rfl) (by intros; rfl) (by intros; rfl) e
    unfold view withEntry at hview
    rw [hg, lookup_insert_ite, if_pos rfl] at hview
    exact Option.some.inj hview
  refine ⟨g, hg, ?_⟩
  rcases hy with ⟨hreg, rfl⟩ | ⟨hdir, rfl⟩
  · have hcap : Capacious (dataView g) := by
      unfold dataView
      rw [hempty.data]
      exact ⟨hempty.size.ge, hempty.size.le, ⟨0, rfl⟩, Nat.zero_le _⟩
    refine ⟨?_, hempty.size, hsize, hcap, rfl, fun h => ?_, ?_, nofun, ArrayFile.inside_empty⟩
    · rw [hempty.mode]
      exact hreg
    · rw [hempty.handles]
      rfl
    · rw [hempty.handles]
      exact hrefer
  · dsimp only
    rw [hempty.mode]
    exact ⟨hdir, hempty.handles, hrefer⟩

theorem view_linked {β : Type} {π : FapsDmassFs → β} {name : Option NameBlock} {bufs : Finset Addr}
    (h₁ : ∀ f q, π { f with nextDir := q } = π f) (h₂ : ∀ f q, π { f with next := q } = π f)
    (h₃ : ∀ f q, π { f with pNode := q } = π f) (h : Linked (withEntry s k mode name e bufs) s' d e) (hb : b ≠ e) :
    s'.view π b = s.view π b := by
  rw [h.view h₁ h₂ h₃]
  unfold view withEntry
  rw [lookup_insert_ite, if_neg hb]

theorem represents_makeEntry (mode unk78 stAttr : UInt32) (hR : Represents s A) (hk : Plenty k) (hu : A.nodes u = some p)
    (hdir : A.find p = some .dir) (hc : IsName c) (hfree : A.find (p ++ [c]) = none) (hy : emptyNode mode y) :
    ∃ w s', makeEntry (createDmassInfo mode) unk78 stAttr k u (fileIn p c) s = .ok (0, some w, s') ∧
      A.nodes w = none ∧ Represents s' ((A.put (p ++ [c]) (some y)).bind w (some (p ++ [c]))) := by
  obtain ⟨n, d, hn, hnd, hm, hwalk⟩ := hR.node hu
  obtain ⟨f, hf, hisDir, -⟩ := entryHolds_dir (hR.holds hwalk hdir)
  obtain ⟨res, -, hpath⟩ := hR.fails (hR.names hwalk hc) hfree
  have hgives : Gives (makeEntry (createDmassInfo mode) unk78 stAttr k u (fileIn p c) s) fun x => x.1 = 0 :=
    makeEntry_gives hk hn hnd hm hf hpath hc.ne_nil
  obtain ⟨⟨r, out, s'⟩, hs, rfl⟩ := hgives
  rcases makeEntry_cases hs with ⟨-, h0, -⟩ | ⟨-, e, leak, name, bufs, n', d', fd, hB, -, hn', hd', -, hcase⟩
  · exact absurd h0 (lt_irrefl _)
  obtain rfl := Option.some.inj (hn.symm.trans hn')
  obtain rfl := Option.some.inj (hnd.symm.trans hd')
  rcases hcase with ⟨-, h0, -⟩ | ⟨-, -, w, hw, rfl, hs'⟩
  · exact absurd h0 (lt_irrefl _)
  have hlink : Linked (withEntry s k mode name e bufs) s' d e := .inr ⟨w, by rw [hs']; rfl⟩
  have hname : name.map (·.str) = some c := by
    rcases hB.kept with ⟨hnone, -⟩ | ⟨b, -, -, -, hb, -⟩
    · exact absurd hnone (hB.got hk.mallocs)
    · rw [hb]
      rfl
  have hA : Added s s' d e c := added_linked hR.form.lists hB.fresh hf hlink (by rw [hs']; rfl) hname
  obtain ⟨m, hnodes, hme, hmount, hsize⟩ : ∃ m, s'.vnodes = s.vnodes.insert w m ∧ m.devInfo = some e ∧
      m.mount = n.mount ∧ m.stSize = 0 := by
    refine ⟨_, congrArg (·.vnodes) hs', ?_, ?_, ?_⟩ <;> rfl
  have hG : Given s s' e w m := by
    refine ⟨hw, hnodes, hme, ⟨u, n, hn, ?_, hmount⟩, ?_, linksStep_makeEntry hs⟩
    · simp [hnd]
    · rw [hs']
      rfl
  have hdead : ∀ v, s.devInfo v ≠ some e := fun v hv => hA.fresh (hR.live v e hv)
  have hde : d ≠ e := fun heq => hA.fresh (heq ▸ hA.parent)
  have hW' := hA.wellFormed hR.form ⟨p, hwalk⟩ hf hisDir hc fun a ha hac =>
    hR.map.find_eq_none.1 hfree a (DirGraph.Walk_snoc.2 ⟨some d, a, hwalk, ha, hac, rfl⟩)
  have hnew : EntryHolds s' e y := by
    refine holds_linked hde hf hlink (fun v m' hv he => ?_) hy
    rw [hnodes, lookup_insert_ite] at hv
    split at hv
    · rw [← Option.some.inj hv]
      exact hsize
    · exact absurd (devInfo_eq_some.2 ⟨m', hv, he⟩) (hdead v)
  have hkeep : ∀ q a x, A.find q = some x → (nameGraph s).Walk none q (some a) → EntryHolds s a x → EntryHolds s' a x := by
    intro q a x _ _ hx
    have hae : a ≠ e := by
      rintro rfl
      exact hA.fresh (mem_keys_iff.2 hx.live)
    exact hG.frame hx (view_linked (by intros; rfl) (by intros; rfl) (by intros; rfl) hlink hae) fun h => absurd h hae
  have hmap := hR.map.insert hR.form.isTree hA.insert hwalk hA.name hfree hnew hkeep hdead fun _ => rfl
  have hwalk' : (nameGraph s').Walk none (p ++ [c]) (some e) :=
    (DirGraph.Walk_insert hA.insert hR.form.isTree hwalk hA.name).2 (.inr ⟨rfl, rfl⟩)
  refine ⟨w, s', hs, hR.unused hw, hW', hA.allReachable hR.reach, hG.back hR.back, fun v b hv => ?_,
    hG.mount_all hR.mount, hmap.bind hW'.isTree hwalk' hG.devInfo⟩
  rw [hA.keys, Finset.mem_insert]
  rw [hG.devInfo] at hv
  split at hv
  · exact .inl (Option.some.inj hv).symm
  · exact .inr (hR.live v b hv)

theorem serves_create (hR : Represents s A) (hk : Plenty k) (hu : A.nodes u = some p) (hdir : A.find p = some .dir)
    (hc : IsName c) : Serves s A (.create k ⟨u, fileIn p c⟩) (.create u c) := by
  cases hx : A.find (p ++ [c]) with
  | none =>
    obtain ⟨w, s', hs, hw, hR'⟩ := represents_makeEntry (SCE_S_IWUSR ||| SCE_S_IRUSR ||| SCE_S_IFREG)
      (SCE_S_IXUSR ||| SCE_S_IWUSR ||| SCE_S_IRUSR) (SCE_SO_IXOTH ||| SCE_SO_IWOTH ||| SCE_SO_IROTH) hR hk hu hdir hc hx (.inl ⟨by decide, rfl⟩)
    refine ⟨0, some w, [], s', _, ?_, ⟨w, hw, PathFs.make_free hu hdir hx⟩, hR'⟩
    show (vopCreate k ⟨u, fileIn p c⟩ s).map _ = _
    rw [vopCreate, createDmassFileInfo, hs]
    rfl
  | some x =>
    obtain ⟨n, d, -, -, -, hwalk⟩ := hR.node hu
    obtain ⟨e, he, -⟩ := hR.resolves (hR.names hwalk hc) hx
    obtain ⟨w, hw⟩ := hR.exists_unused
    refine ⟨sceError 0x80010011, none, [], s, A, ?_, ⟨w, hw, ?_⟩, hR⟩
    · show (vopCreate k ⟨u, fileIn p c⟩ s).map _ = _
      rw [vopCreate, createDmassFileInfo, makeEntry_exists (fileIn p c) he]
      rfl
    · rw [fsReply_neg (by decide)]
      exact PathFs.make_used hu hx

theorem vopMkdir_eq (hn : s.vnodes.lookup u = some n) (hd : n.devInfo = some d) (hf : s.entries.lookup d = some f)
    (hdir : isDir f.stat.stMode) : vopMkdir k ⟨u, fileInfo⟩ s = makeEntry createDmassDirInfo SCE_S_IWUSR
      (SCE_SO_IXOTH ||| SCE_SO_IWOTH ||| SCE_SO_IROTH ||| SCE_SO_IFDIR) k u fileInfo s := by
  have hderef : s.deref n.devInfo = .ok (d, f) := deref_eq_ok.2 ⟨hd, hf⟩
  unfold vopMkdir
  rw [node_eq_ok.2 hn]
  show (s.deref n.devInfo >>= _) = _
  rw [hderef]
  exact if_neg (not_not.2 hdir)

theorem vopMkdir_not_dir (hn : s.vnodes.lookup u = some n) (hd : n.devInfo = some d)
    (hf : s.entries.lookup d = some f) (hdir : ¬ isDir f.stat.stMode) :
    vopMkdir k ⟨u, fileInfo⟩ s = .ok (sceError 0x80010014, none, s) := by
  have hderef : s.deref n.devInfo = .ok (d, f) := deref_eq_ok.2 ⟨hd, hf⟩
  unfold vopMkdir
  rw [node_eq_ok.2 hn]
  show (s.deref n.devInfo >>= _) = _
  rw [hderef]
  exact if_pos hdir

theorem serves_mkdir (hR : Represents s A) (hk : Plenty k) (hu : A.nodes u = some p) (hc : IsName c) :
    Serves s A (.mkdir k ⟨u, fileIn p c⟩) (.mkdir u c) := by
  obtain ⟨n, d, hn, hnd, -, hwalk⟩ := hR.node hu
  obtain ⟨z, hz, hholds⟩ := hR.map.found p d hwalk
  obtain ⟨f, hf⟩ := hholds.live
  obtain ⟨w, hw⟩ := hR.exists_unused
  cases z with
  | file F =>
    have hno : ¬ isDir f.stat.stMode := fun hdir => nomatch (hholds.isDir_iff hf).1 hdir
    refine ⟨sceError 0x80010014, none, [], s, A, ?_, ⟨w, hw, ?_⟩, hR⟩
    · show (vopMkdir k ⟨u, fileIn p c⟩ s).map _ = _
      rw [vopMkdir_not_dir hn hnd hf hno]
      rfl
    · rw [fsReply_neg (by decide)]
      exact PathFs.make_in_file hu hz
  | dir =>
    have hanswer : VopCall.answer s (.mkdir k ⟨u, fileIn p c⟩) = (makeEntry (createDmassInfo (SCE_S_IWUSR |||
        SCE_S_IRUSR ||| SCE_S_IFDIR)) SCE_S_IWUSR (SCE_SO_IXOTH ||| SCE_SO_IWOTH ||| SCE_SO_IROTH ||| SCE_SO_IFDIR) k u
        (fileIn p c) s).map fun x => (x.1, x.2.1, [], x.2.2) := by
      show (vopMkdir k ⟨u, fileIn p c⟩ s).map _ = _
      rw [vopMkdir_eq hn hnd hf ((hholds.isDir_iff hf).2 rfl)]
      rfl
    cases hx : A.find (p ++ [c]) with
    | none =>
      obtain ⟨w, s', hs, hw, hR'⟩ := represents_makeEntry (SCE_S_IWUSR ||| SCE_S_IRUSR ||| SCE_S_IFDIR)
        SCE_S_IWUSR (SCE_SO_IXOTH ||| SCE_SO_IWOTH ||| SCE_SO_IROTH ||| SCE_SO_IFDIR) hR hk hu hz hc hx (.inr ⟨by decide, rfl⟩)
      refine ⟨0, some w, [], s', _, ?_, ⟨w, hw, PathFs.make_free hu hz hx⟩, hR'⟩
      rw [hanswer, hs]
      rfl
    | some x =>
      obtain ⟨e, he, -⟩ := hR.resolves (hR.names hwalk hc) hx
      refine ⟨sceError 0x80010011, none, [], s, A, ?_, ⟨w, hw, ?_⟩, hR⟩
      · rw [hanswer, makeEntry_exists (fileIn p c) he]
        rfl
      · rw [fsReply_neg (by decide)]
        exact PathFs.make_used hu hx

/-! ### More vnodes -/

theorem vopPartInit_fails {res : Int} (fileInfo : SceVfsPath) (hn : s.vnodes.lookup u = some n) (hm : n.mount ≠ none)
    (hname : checkName fileInfo.name = 0) (hpath : getFsEntry fileInfo.path s = .ok (.error res)) :
    vopPartInit k ⟨u, fileInfo⟩ s = .ok (res, none, s) := by
  unfold vopPartInit
  dsimp only
  rw [hname, if_neg (by decide), if_neg (by decide), node_eq_ok.2 hn]
  show (if n.mount = none then _ else _) = _
  rw [if_neg hm, hpath]
  rfl

theorem serves_lookup (hR : Represents s A) (hk : Plenty k) (hu : A.nodes u = some p) (hc : IsName c)
    (hcheck : checkName c = 0) : Serves s A (.lookup k ⟨u, fileIn p c⟩) (.lookup u c) := by
  obtain ⟨n, d, hn, hnd, hm, hwalk⟩ := hR.node hu
  cases hx : A.find (p ++ [c]) with
  | none =>
    obtain ⟨w, hw⟩ := hR.exists_unused
    obtain ⟨res, hneg, hpath⟩ := hR.fails (hR.names hwalk hc) hx
    refine ⟨res, none, [], s, A, ?_, ⟨w, hw, ?_⟩, hR⟩
    · show (vopPartInit k ⟨u, fileIn p c⟩ s).map _ = _
      rw [vopPartInit_fails (fileIn p c) hn hm hcheck hpath]
      rfl
    · rw [fsReply_neg hneg]
      exact PathFs.exec_lookup_absent hu hx
  | some x =>
    obtain ⟨e, he, hwe, -⟩ := hR.resolves (hR.names hwalk hc) hx
    have hgives : Gives (vopPartInit k ⟨u, fileIn p c⟩ s) fun x => x.1 = 0 :=
      vopPartInit_gives (hk.made s) ⟨n, hn, hm⟩ hcheck he
    obtain ⟨⟨r, out, s'⟩, hs, rfl⟩ := hgives
    rcases vopPartInit_ok hs with ⟨h0, -⟩ | ⟨-, n', e', f, w, hn', hpath, hf, hw, rfl, hs'⟩
    · exact absurd h0 (lt_irrefl _)
    obtain rfl := Option.some.inj (hn.symm.trans hn')
    obtain rfl : e' = e := Resolves.unique hpath he
    obtain ⟨m, hnodes, hme, hmount, hsize⟩ : ∃ m, s'.vnodes = s.vnodes.insert w m ∧ m.devInfo = some e' ∧
        m.mount = n.mount ∧ m.stSize = f.stat.stSize := by
      refine ⟨_, congrArg (·.vnodes) hs', ?_, ?_, ?_⟩ <;> rfl
    have hG : Given s s' e' w m := by
      refine ⟨hw, hnodes, hme, ⟨u, n, hn, ?_, hmount⟩, ?_, linksStep_lookup hs⟩
      · simp [hnd]
      · rw [hs']
        rfl
    have hview : ∀ {β : Type} (π : FapsDmassFs → β), (∀ f q, π { f with pNode := q } = π f) →
        ∀ b, s'.view π b = s.view π b := by
      intro β π hπ b
      rw [hs']
      exact view_modEntry fun f => hπ f _
    have hT : SameTree s s' := by
      refine ⟨?_, hview linkView (by intros; rfl), hview labelView (by intros; rfl)⟩
      rw [hs']
      rfl
    have hmap : PathFs.Depicts (nameGraph s') (EntryHolds s') s.devInfo A := by
      refine hR.map.mono (fun q y => by rw [hT.graph]) (fun q a x _ _ hx => ?_) fun _ => rfl
      refine hG.frame hx (hview contentView (by intros; rfl) a) fun _ => .inr fun f' hf' => ?_
      rw [← Option.some.inj (hf.symm.trans hf')]
      exact hsize
    refine ⟨0, some w, [], s', _, ?_, ⟨w, hR.unused hw, PathFs.exec_lookup hu hx⟩, hT.wellFormed hR.form,
      hT.allReachable hR.reach, hG.back hR.back, fun v b hv => ?_, hG.mount_all hR.mount, ?_⟩
    · show (vopPartInit k ⟨u, fileIn p c⟩ s).map _ = _
      rw [hs]
      rfl
    · rw [hT.mem_keys]
      rw [hG.devInfo] at hv
      split at hv
      · obtain rfl := Option.some.inj hv
        exact mem_keys_iff.2 ⟨f, hf⟩
      · exact hR.live v b hv
    · refine hmap.bind (hT.wellFormed hR.form).isTree ?_ hG.devInfo
      rw [hT.graph]
      exact hwe

/-! ### Entries that go -/

theorem findEntryLink_child (hL : Listed s) (hchild : s.child (some d) e) :
    ∃ y, findEntryLink s d e = .ok (some y) := by
  obtain ⟨l, hK⟩ := hL.kids (some d)
  cases hl : linkOf (fun b => e == b) none l with
  | none => exact absurd hchild (not_child_of_findEntryLink hK ((findEntryLink_eq hK).trans (by rw [hl])))
  | some y => exact ⟨y, (findEntryLink_eq hK).trans (by rw [hl])⟩

theorem deleteDmassInfo_gives (hf : s.entries.lookup e = some f) (h0 : f.refer = 0) (hnil : f.pDmassFsX = []) :
    Gives (deleteDmassInfo e s) fun x => x.1 = 0 := by
  unfold deleteDmassInfo
  refine Gives.bind (entry_eq_ok.2 hf) ?_
  rw [if_neg (not_not.2 h0), if_neg (not_not.2 hnil)]
  exact ⟨_, rfl, rfl⟩

theorem unlinkAndDelete_gives (hL : Listed s) (hn : s.vnodes.lookup u = some n) (hd : n.devInfo = some d)
    (hchild : s.child (some d) e) (hf : s.entries.lookup e = some f) (h0 : f.refer = 0) (hnil : f.pDmassFsX = []) :
    Gives (unlinkAndDelete u e s) fun x => x.1 = 0 := by
  obtain ⟨fd, hfd, -⟩ := parent_live hchild
  obtain ⟨⟨pred, y⟩, hlink⟩ := findEntryLink_child hL hchild
  have hderef : s.deref n.devInfo = .ok (d, fd) := deref_eq_ok.2 ⟨hd, hfd⟩
  have hview : (s.setLink d pred f.next).view (fun f => (f.refer, f.pDmassFsX)) e =
      s.view (fun f => (f.refer, f.pDmassFsX)) e := view_setLink (by intros; rfl) (by intros; rfl)
  unfold view at hview
  rw [hf] at hview
  obtain ⟨f', hf', heq⟩ := Option.map_eq_some_iff.1 hview
  obtain ⟨hrefer, hhandles⟩ := Prod.mk.inj heq
  refine Gives.bind (node_eq_ok.2 hn) (Gives.bind hderef (Gives.bind hlink (Gives.bind (entry_eq_ok.2 hf) ?_)))
  exact deleteDmassInfo_gives hf' (hrefer.trans h0) (hhandles.trans hnil)

theorem unlinkAndDelete_nodes (hs : unlinkAndDelete u e s = .ok (r, s')) :
    s'.vnodes = s.vnodes ∧ s'.files = s.files := by
  obtain ⟨n, d, fd, -, -, -, ⟨-, -, rfl⟩ | ⟨pred, x, f, -, -, hs⟩⟩ := unlinkAndDelete_ok hs
  · exact ⟨rfl, rfl⟩
  obtain ⟨f', -, ⟨-, rfl, -⟩ | ⟨-, -, -, rfl⟩⟩ := deleteDmassInfo_ok hs
  · exact ⟨rfl, rfl⟩
  · exact ⟨rfl, rfl⟩

theorem represents_unlink (hR : Represents s A) (hu : A.nodes u = some p)
    (hw : (nameGraph s).Walk none (p ++ [c]) (some e)) (hf : s.entries.lookup e = some f) (h0 : f.refer = 0)
    (hnil : f.pDmassFsX = []) (hleaf : ∀ a, ¬ s.child (some e) a) (hfree : ∀ v, A.nodes v ≠ some (p ++ [c])) :
    ∃ s', unlinkAndDelete u e s = .ok (0, s') ∧ Represents s' (A.put (p ++ [c]) none) := by
  obtain ⟨n, d, hn, hnd, -, hwalk⟩ := hR.node hu
  obtain ⟨⟨r, s'⟩, hs, rfl⟩ := unlinkAndDelete_gives hR.form.lists hn hnd (hR.child hwalk hw) hf h0 hnil
  have hE := removed_unlinkAndDelete hR.form.lists hleaf hs
  obtain ⟨hnodes, hfiles⟩ := unlinkAndDelete_nodes hs
  have hdead : ∀ v, s.devInfo v ≠ some e := fun v hv => hfree v ((hR.map.nodes v _).2 ⟨e, hv, hw⟩)
  have hdev : ∀ v, s'.devInfo v = s.devInfo v := by
    intro v
    unfold VfsState.devInfo
    rw [hnodes]
  have hgone : s'.pNodeOf e = none := by
    have he : e ∉ s'.entries.keys := by simp [hE.keys]
    unfold pNodeOf
    rw [Finmap.lookup_eq_none.2 fun h => he (Finmap.mem_keys.2 h)]
    rfl
  refine ⟨s', hs, hE.wellFormed hR.form, hE.allReachable hR.reach, fun b w hb => ?_, fun v b hv => ?_, ?_, ?_⟩
  · by_cases hbe : b = e
    · rw [hbe, hgone] at hb
      cases hb
    · rw [hdev]
      refine hR.back b w ?_
      rwa [pNodeOf_of_view (view_unlinkAndDelete (by intros; rfl) (by intros; rfl) hs hbe)] at hb
  · rw [hdev] at hv
    rw [hE.keys, Finset.mem_erase]
    refine ⟨?_, hR.live v b hv⟩
    rintro rfl
    exact hdead v hv
  · rw [hnodes]
    exact hR.mount
  · refine hR.map.erase hR.form.isTree hE.erase hw (fun q a x _ _ hae hx => ?_) hdead hdev
    refine hx.frame (view_unlinkAndDelete (by intros; rfl) (by intros; rfl) hs hae) (fun v m hv hm => ?_)
      fun F g _ _ hv => ⟨by rw [hfiles], (hdev _).trans hv⟩
    rw [hnodes] at hv
    exact .inl ⟨v, m, hv, hm, rfl⟩

theorem vopRemove_fails {res : Int} (fileInfo : SceVfsPath) (hpath : getFsEntry fileInfo.path s = .ok (.error res)) :
    vopRemove ⟨u, fileInfo⟩ s = .ok (sceError 0x80010002, s) := by
  unfold vopRemove
  rw [hpath]
  rfl

theorem vopRemove_not_file (fileInfo : SceVfsPath) (hpath : Resolves s fileInfo.path e)
    (hf : s.entries.lookup e = some f) (hreg : ¬ isReg f.stat.stMode) : vopRemove ⟨u, fileInfo⟩ s = .ok (-1, s) := by
  have hderef : s.deref (some e) = .ok (e, f) := deref_eq_ok.2 ⟨rfl, hf⟩
  unfold vopRemove
  rw [show getFsEntry fileInfo.path s = _ from hpath]
  show (s.deref (some e) >>= _) = _
  rw [hderef]
  exact if_pos hreg

theorem serves_remove (hR : Represents s A) (hu : A.nodes u = some p) (hc : IsName c)
    (hfree : ∀ F, A.find (p ++ [c]) = some (.file F) → (∀ h, F.opens h = 0) ∧ ∀ v, A.nodes v ≠ some (p ++ [c])) :
    Serves s A (.remove ⟨u, fileIn p c⟩) (.remove u c) := by
  obtain ⟨n, d, hn, hnd, -, hwalk⟩ := hR.node hu
  obtain ⟨w, hw⟩ := hR.exists_unused
  have hnames := hR.names hwalk hc
  have hserves : ∀ res < 0, (∀ F, A.find (p ++ [c]) ≠ some (.file F)) → vopRemove ⟨u, fileIn p c⟩ s = .ok (res, s) →
      Serves s A (.remove ⟨u, fileIn p c⟩) (.remove u c) := by
    intro res hneg hx hs
    refine ⟨res, none, [], s, A, ?_, ⟨w, hw, ?_⟩, hR⟩
    · simp only [VopCall.answer, VopCall.execOut, VopCall.exec, hs, Except.map]
    · rw [fsReply_neg hneg]
      exact PathFs.exec_remove_fails hu hx
  cases hx : A.find (p ++ [c]) with
  | none =>
    obtain ⟨res, -, hpath⟩ := hR.fails hnames hx
    exact hserves _ (by decide) (by simp [hx]) (vopRemove_fails (fileIn p c) hpath)
  | some x =>
    obtain ⟨e, he, hwe, hholds⟩ := hR.resolves hnames hx
    obtain ⟨f, hf⟩ := hholds.live
    cases x with
    | dir =>
      have hreg : ¬ isReg f.stat.stMode := fun hreg => by
        obtain ⟨F, hF⟩ := (hholds.isReg_iff hf).1 hreg
        cases hF
      exact hserves _ (by decide) (by simp [hx]) (vopRemove_not_file (fileIn p c) he hf hreg)
    | file F =>
      obtain ⟨hclosed, hnone⟩ := hfree F hx
      obtain ⟨f', hf', hF⟩ := entryHolds_file hholds
      obtain rfl := Option.some.inj (hf.symm.trans hf')
      obtain ⟨hnil, h0⟩ := hF.closed hclosed
      obtain ⟨s', hs, hR'⟩ := represents_unlink hR hu hwe hf h0 hnil
        (fun a => hR.form.leaf_of_isReg he hf hF.reg) hnone
      refine ⟨0, none, [], s', _, ?_, ⟨w, hw, PathFs.exec_remove hu hx⟩, hR'⟩
      have hrun : vopRemove ⟨u, fileIn p c⟩ s = .ok (0, s') := (vopRemove_eq ⟨he, f, hf, hF.reg⟩).trans hs
      simp only [VopCall.answer, VopCall.execOut, VopCall.exec, hrun, Except.map]

theorem nextDir_of_leaf (hL : Listed s) (hf : s.entries.lookup e = some f) (hleaf : ∀ a, ¬ s.child (some e) a) :
    f.nextDir = none := by
  obtain ⟨l, hK⟩ := hL.kids (some e)
  have hhead : s.head (some e) = f.nextDir := by
    rw [head_some, hf]
    rfl
  cases l with
  | nil => exact hhead.symm.trans hK
  | cons a l => exact absurd ⟨_, hK, List.mem_cons_self⟩ (hleaf a)

theorem vopRmdir_fails {res : Int} (fileInfo : SceVfsPath) (hpath : getFsEntry fileInfo.path s = .ok (.error res)) :
    vopRmdir ⟨u, fileInfo⟩ s = .ok (res, s) := by
  unfold vopRmdir
  rw [hpath]
  rfl

theorem vopRmdir_refuses (fileInfo : SceVfsPath) (hpath : Resolves s fileInfo.path e)
    (hf : s.entries.lookup e = some f) (h : f.nextDir = none → ¬ isDir f.stat.stMode) :
    ∃ res < 0, vopRmdir ⟨u, fileInfo⟩ s = .ok (res, s) := by
  have hderef : s.deref (some e) = .ok (e, f) := deref_eq_ok.2 ⟨rfl, hf⟩
  unfold vopRmdir
  rw [show getFsEntry fileInfo.path s = _ from hpath]
  show ∃ res < 0, (s.deref (some e) >>= _) = _
  rw [hderef]
  by_cases hnone : f.nextDir = none
  · exact ⟨_, by decide, (if_neg (not_not.2 hnone)).trans (if_pos (h hnone))⟩
  · exact ⟨_, by decide, if_pos hnone⟩

theorem serves_rmdir (hR : Represents s A) (hu : A.nodes u = some p) (hc : IsName c)
    (hfree : A.find (p ++ [c]) = some .dir → A.Leaf (p ++ [c]) → ∀ v, A.nodes v ≠ some (p ++ [c])) :
    Serves s A (.rmdir ⟨u, fileIn p c⟩) (.rmdir u c) := by
  obtain ⟨n, d, hn, hnd, -, hwalk⟩ := hR.node hu
  obtain ⟨w, hw⟩ := hR.exists_unused
  have hnames := hR.names hwalk hc
  have hserves : ∀ res < 0, (A.find (p ++ [c]) = some .dir → ¬ A.Leaf (p ++ [c])) →
      vopRmdir ⟨u, fileIn p c⟩ s = .ok (res, s) → Serves s A (.rmdir ⟨u, fileIn p c⟩) (.rmdir u c) := by
    intro res hneg hx hs
    refine ⟨res, none, [], s, A, ?_, ⟨w, hw, ?_⟩, hR⟩
    · simp only [VopCall.answer, VopCall.execOut, VopCall.exec, hs, Except.map]
    · rw [fsReply_neg hneg]
      exact PathFs.exec_rmdir_fails hu hx
  cases hx : A.find (p ++ [c]) with
  | none =>
    obtain ⟨res, hneg, hpath⟩ := hR.fails hnames hx
    exact hserves res hneg (fun h => by rw [hx] at h; cases h) (vopRmdir_fails (fileIn p c) hpath)
  | some x =>
    obtain ⟨e, he, hwe, hholds⟩ := hR.resolves hnames hx
    obtain ⟨f, hf⟩ := hholds.live
    by_cases hempty : x = .dir ∧ A.Leaf (p ++ [c])
    · obtain ⟨rfl, hleaf⟩ := hempty
      obtain ⟨f', hf', hdir, hnil, h0⟩ := entryHolds_dir hholds
      obtain rfl := Option.some.inj (hf.symm.trans hf')
      have hkids := (hR.leaf_iff hwe).1 hleaf
      obtain ⟨s', hs, hR'⟩ := represents_unlink hR hu hwe hf h0 hnil hkids (hfree hx hleaf)
      refine ⟨0, none, [], s', _, ?_, ⟨w, hw, PathFs.exec_rmdir hu hx hleaf⟩, hR'⟩
      have hrun : vopRmdir ⟨u, fileIn p c⟩ s = .ok (0, s') :=
        (vopRmdir_eq ⟨he, f, hf, nextDir_of_leaf hR.form.lists hf hkids, hdir⟩).trans hs
      simp only [VopCall.answer, VopCall.execOut, VopCall.exec, hrun, Except.map]
    · have hno : f.nextDir = none → ¬ isDir f.stat.stMode := by
        intro hnone hdir
        refine hempty ⟨(hholds.isDir_iff hf).1 hdir, ?_⟩
        exact (hR.leaf_iff hwe).2 fun a => leaf_of_nextDir hf hnone
      obtain ⟨res, hneg, hs⟩ := vopRmdir_refuses (u := u) (fileIn p c) he hf hno
      refine hserves res hneg (fun hdir hleaf => hempty ⟨?_, hleaf⟩) hs
      exact Option.some.inj (hx.symm.trans hdir)

end VitaUtility.Dmass

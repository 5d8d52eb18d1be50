import VitaUtility.Dmass.Entries

/-!
# The driver is a file system of paths

Whatever is asked of it after the mount within `Asks`, in any order and on any number of files and directories, the
driver answers as the map from paths does (`fileSys_run`).
-/

namespace VitaUtility.Dmass
open VfsState

variable {s s' s₀ : VfsState} {k : Answers} {r : Int} {a b d e : Addr} {u v w node2 : NodePtr} {f : FapsDmassFs}
  {c c' : CStr} {p p' q : List CStr} {x : PathNode FilePtr UInt8} {n : SceVfsNode} {A : FileSys} {call : VopCall}
  {op : FsOp CStr FilePtr UInt8 NodePtr}

/-! ### Renaming -/

theorem nameCpy_entries (k : Answers) (i : Nat) (str : CStr) (s : VfsState) :
    (nameCpy k i str s).2.entries = s.entries ∧ (nameCpy k i str s).2.vnodes = s.vnodes := by
  rcases nameCpy_cases k i str s with ⟨h, -⟩ | ⟨a, -, -, h⟩ <;> rw [h]
  · exact ⟨rfl, rfl⟩
  · exact ⟨rfl, rfl⟩

theorem vopRename_fails {argp : SceVopRenameArgs} {n2 : SceVfsNode} {res : Int} (hn : s.vnodes.lookup argp.node = some n)
    (hn2 : s.vnodes.lookup argp.node2 = some n2) (hm : n.mount = n2.mount)
    (hpath : getFsEntry argp.fileInfoOld.path s = .ok (.error res)) : vopRename k argp s = .ok (res, none, s) := by
  unfold vopRename
  rw [node_eq_ok.2 hn, node_eq_ok.2 hn2]
  show (if n.mount ≠ n2.mount then _ else _) = _
  rw [if_neg (not_not.2 hm), hpath]
  rfl

theorem vopRename_gives {argp : SceVopRenameArgs} {n2 n3 old : SceVfsNode} {d3 : Addr} {fd3 : FapsDmassFs}
    (hL : Listed s) (hk : Plenty k) (hn : s.vnodes.lookup argp.node = some n) (hd : n.devInfo = some d)
    (hm : n.mount ≠ none) (hn2 : s.vnodes.lookup argp.node2 = some n2) (hm2 : n.mount = n2.mount)
    (hpath : Resolves s argp.fileInfoOld.path e) (hf : s.entries.lookup e = some f) (hchild : s.child (some d) e)
    (hn3 : s.vnodes.lookup argp.node3 = some n3) (hd3 : n3.devInfo = some d3) (hf3 : s.entries.lookup d3 = some fd3)
    (hp : f.pNode = some v) (hold : s.vnodes.lookup v = some old) (hve : old.devInfo ≠ none) :
    Gives (vopRename k argp s) fun x => x.1 = 0 := by
  obtain ⟨fd, hfd, -⟩ := parent_live hchild
  obtain ⟨⟨pred, y⟩, hlink⟩ := findEntryLink_child hL hchild
  obtain ⟨w, hw⟩ := newNode_made (hk.made s) hm
  have hunused : w ∉ s.nodesInUse := by
    rcases newNode_ok hw with ⟨-, c, vnodes, hc, -⟩ | ⟨-, w', hw', hno, -⟩
    · cases hc
    · rwa [Except.ok.inj hw']
  have hkeep : ∀ {t m}, s.vnodes.lookup t = some m → m.devInfo ≠ none → (s.vnodes.insert w {}).lookup t = some m := by
    intro t m ht hdev
    obtain ⟨b, hb⟩ := Option.ne_none_iff_exists'.1 hdev
    rw [lookup_insert_ite, if_neg]
    · exact ht
    · rintro rfl
      exact hunused (mem_nodesInUse.2 ⟨m, b, ht, hb⟩)
  obtain ⟨s₁, hs₁⟩ : ∃ s₁ : VfsState, { s with vnodes := s.vnodes.insert w {} } = s₁ := ⟨_, rfl⟩
  rw [hs₁] at hw
  have hentry : s₁.entry e = .ok f := by
    rw [entry_eq_ok, ← hs₁]
    exact hf
  obtain ⟨s₂, hs₂⟩ : ∃ s₂, s₁.setLink d pred f.next = s₂ := ⟨_, rfl⟩
  have hnode3 : s₂.node argp.node3 = .ok n3 := by
    rw [node_eq_ok, ← hs₂, setLink_vnodes, ← hs₁]
    exact hkeep hn3 (by simp [hd3])
  obtain ⟨g3, hg3⟩ : ∃ g3, s₂.entries.lookup d3 = some g3 := by
    refine lookup_of_keys ?_ hf3
    rw [← hs₂, setLink_keys, ← hs₁]
  have hderef3 : s₂.deref n3.devInfo = .ok (d3, g3) := deref_eq_ok.2 ⟨hd3, hg3⟩
  unfold vopRename
  refine Gives.bind (node_eq_ok.2 hn) (Gives.bind (node_eq_ok.2 hn2) ?_)
  rw [if_neg (not_not.2 hm2)]
  have hderef : s.deref n.devInfo = .ok (d, fd) := deref_eq_ok.2 ⟨hd, hfd⟩
  have hderefOld : s.deref (some e) = .ok (e, f) := deref_eq_ok.2 ⟨rfl, hf⟩
  refine Gives.bind hpath (Gives.bind hderef (Gives.bind hderefOld ?_))
  refine Gives.bind hlink (Gives.bind hw (Gives.bind hentry ?_))
  dsimp only
  rw [hs₂]
  refine Gives.bind hnode3 (Gives.bind hderef3 ?_)
  dsimp only
  obtain ⟨s₃, hs₃⟩ : ∃ s₃, (s₂.pushEntry d3 e).dmassFree (f.name.map (·.addr)) = s₃ := ⟨_, rfl⟩
  rw [hs₃]
  have hvnodes : (nameCpy k 0 argp.fileInfoNew.name s₃).2.vnodes = s.vnodes.insert w {} := by
    rw [(nameCpy_entries k 0 _ s₃).2, ← hs₃, dmassFree_vnodes, pushEntry_vnodes, ← hs₂, setLink_vnodes, ← hs₁]
  refine Gives.bind (a := old) ?_ ⟨_, rfl, rfl⟩
  rw [derefNode_eq_ok]
  refine ⟨v, hp, ?_⟩
  rw [modEntry_vnodes, hvnodes]
  exact hkeep hold hve

/-- The entry `e` has been renamed, with a new vnode `w`. -/
theorem represents_renamed {old : SceVfsNode} {d3 : Addr} {m : SceVfsNode} (hR : Represents s A)
    (hM : Renamed s s' d3 e) (hname : s'.nameOf e = some c') (hG : Given s s' e w m)
    (hw : (nameGraph s).Walk none p (some e)) (hw3 : (nameGraph s).Walk none p' (some d3))
    (hdir : A.find p' = some .dir) (hc' : IsName c') (hfree : A.find (p' ++ [c']) = none ∨ p = p' ++ [c'])
    (hout : ¬ p <+: p') (hv : s.vnodes.lookup v = some old) (hve : old.devInfo = some e)
    (hsize : m.stSize = old.stSize) :
    Represents s' ((A.move p (p' ++ [c'])).bind w (some (p' ++ [c']))) := by
  have hW := hR.form
  have htree := hW.isTree
  obtain ⟨fd3, hfd3, hisDir, -⟩ := entryHolds_dir (hR.holds hw3 hdir)
  have hbelow : ¬ (nameGraph s).Below e d3 := by
    rintro ⟨q, hq⟩
    refine hout ⟨q, htree.path_unique (DirGraph.Walk_append.2 ⟨_, hw, hq⟩) hw3⟩
  have hsole : ∀ a, (nameGraph s).Walk none (p' ++ [c']) (some a) → a = e := by
    intro a ha
    rcases hfree with hfree | rfl
    · exact absurd ha (hR.map.find_eq_none.1 hfree a)
    · exact Option.some.inj (htree.walk_unique DirGraph.Open_none ha hw)
  have hW' : WellFormed s' := hM.wellFormed hW ⟨p, hw⟩ ⟨p', hw3⟩ hfd3 hisDir hbelow hname hc' fun a hae ha hna =>
    hae (hsole a (DirGraph.Walk_snoc.2 ⟨some d3, a, hw3, ha, hna, rfl⟩))
  have hreach : AllReachable s' := by
    intro b hb
    rw [hM.keys] at hb
    refine (hM.ptrMove.open_iff hW.lists.isTree (hW.open_iff_reachable.1 ⟨p, hw⟩) (hW.open_iff_reachable.1 ⟨p', hw3⟩) ?_
      rfl).2 (hR.reach b hb)
    rwa [hW.below_iff ⟨p, hw⟩]
  have hkeep : ∀ q a x, A.find q = some x → (nameGraph s).Walk none q (some a) → EntryHolds s a x →
      EntryHolds s' a x := fun q a x _ _ hx => hG.frame hx (hM.content a) fun _ => .inl ⟨v, old, hv, hve, hsize⟩
  have hmap := hR.map.move htree hM.move hw hw3 hbelow hname hfree hkeep fun _ => rfl
  refine ⟨hW', hreach, hG.back hR.back, fun v b hv => ?_, hG.mount_all hR.mount, hmap.bind hW'.isTree ?_ hG.devInfo⟩
  · rw [hM.keys]
    rw [hG.devInfo] at hv
    split at hv
    · obtain rfl := Option.some.inj hv
      exact mem_keys_iff.2 (hR.holds_live hw)
    · exact hR.live v b hv
  · refine (PathFs.Depicts.walk_move htree hM.move hw hw3 hbelow hname hsole _ e).2 (.inl ⟨[], ?_, ?_⟩)
    · simp
    · simpa using hw

theorem serves_rename (hR : Represents s A) (hk : Plenty k) (hu : A.nodes u = some p) (hu' : A.nodes v = some p')
    (h2 : A.nodes node2 = some q) (hc : IsName c) (hc' : IsName c')
    (hmove : A.find (p ++ [c]) ≠ none → A.find p' = some .dir ∧
      (A.find (p' ++ [c']) = none ∨ p ++ [c] = p' ++ [c']) ∧ ¬ p ++ [c] <+: p' ∧
      ∀ e, Resolves s (fileIn p c).path e → s.pNodeOf e ≠ none) :
    Serves s A (.rename k ⟨u, node2, fileIn p c, v, fileIn p' c'⟩) (.rename u c v c') := by
  obtain ⟨n, d, hn, hnd, hm, hwalk⟩ := hR.node hu
  obtain ⟨n2, d2, hn2, hnd2, -, -⟩ := hR.node h2
  obtain ⟨n3, d3, hn3, hnd3, -, hwalk3⟩ := hR.node hu'
  have hm2 : n.mount = n2.mount := by
    obtain ⟨m, hall⟩ := hR.mount
    rw [hall u n hn (by simp [hnd]), hall node2 n2 hn2 (by simp [hnd2])]
  have hnames := hR.names hwalk hc
  cases hx : A.find (p ++ [c]) with
  | none =>
    obtain ⟨w, hw⟩ := hR.exists_unused
    obtain ⟨res, hneg, hpath⟩ := hR.fails hnames hx
    refine ⟨res, none, [], s, A, ?_, ⟨w, hw, ?_⟩, hR⟩
    · have hrun : vopRename k ⟨u, node2, fileIn p c, v, fileIn p' c'⟩ s = .ok (res, none, s) :=
        vopRename_fails hn hn2 hm2 hpath
      simp only [VopCall.answer, hrun, Except.map]
    · rw [fsReply_neg hneg]
      exact PathFs.exec_rename_absent hu hu' hx
  | some x =>
    obtain ⟨hdir, hfree, hout, hback⟩ := hmove (by simp [hx])
    obtain ⟨e, he, hwe, hholds⟩ := hR.resolves hnames hx
    obtain ⟨f, hf⟩ := hholds.live
    obtain ⟨t, ht⟩ := Option.ne_none_iff_exists'.1 (hback e he)
    obtain ⟨ft, hft, hpNode⟩ := pNodeOf_eq_some.1 ht
    obtain rfl := Option.some.inj (hf.symm.trans hft)
    obtain ⟨old, hold, holde⟩ := devInfo_eq_some.1 (hR.back e t ht)
    obtain ⟨fd3, hfd3⟩ := hR.holds_live hwalk3
    obtain ⟨⟨r, out, s'⟩, hs, rfl⟩ : Gives (vopRename k ⟨u, node2, fileIn p c, v, fileIn p' c'⟩ s) fun x => x.1 = 0 :=
      vopRename_gives hR.form.lists hk hn hnd hm hn2 hm2 he hf (hR.child hwalk hwe) hn3 hnd3 hfd3 hpNode hold
        (by simp [holde])
    obtain ⟨hM, hcase⟩ := renamed_vopRename hR.form.lists (devInfo_eq_some.2 ⟨n3, hn3, hnd3⟩) he hs
    have hname := (hcase.resolve_right fun hno => hno.1 ⟨hc'.ne_nil, fun _ _ => hk.mallocs 0 _⟩).2
    rcases vopRename_ok hs with ⟨h0, -⟩ | ⟨-, -, n', d', fd, e', f', pred, y, w, n3', d3', fd3', v', old', name, h⟩
    · exact absurd h0 (lt_irrefl _)
    obtain ⟨-, -, -, hpath, hf', -, hw, rfl, -, -, -, hv', hold', -, hs'⟩ := h
    obtain rfl : e' = e := Resolves.unique hpath he
    obtain rfl := Option.some.inj (hf.symm.trans hf')
    obtain rfl := Option.some.inj (hpNode.symm.trans hv')
    have htw : t ≠ w := by
      rintro rfl
      exact hw (mem_nodesInUse.2 ⟨old, e', hold, holde⟩)
    obtain rfl : old = old' := by
      rw [lookup_insert_ite, if_neg htw, hold] at hold'
      exact Option.some.inj hold'
    obtain ⟨m, hnodes, hme, hmount, hsize⟩ : ∃ m, s'.vnodes = s.vnodes.insert w m ∧ m.devInfo = some e' ∧
        m.mount = old.mount ∧ m.stSize = old.stSize := by
      refine ⟨_, congrArg (·.vnodes) hs', ?_, ?_, ?_⟩ <;> rfl
    have hG : Given s s' e' w m := by
      refine ⟨hw, hnodes, hme, ⟨t, old, hold, ?_, hmount⟩, ?_, linksStep_rename hs⟩
      · simp [holde]
      · rw [hs']
        rfl
    refine ⟨0, some w, [], s', _, ?_, ⟨w, hR.unused hw, PathFs.exec_rename hu hu' hx⟩,
      represents_renamed hR hM hname hG hwe hwalk3 hdir hc' hfree hout hold holde hsize⟩
    simp only [VopCall.answer, hs, Except.map]

/-! ### Vnodes and files -/

theorem vopInactive_gives (hR : Represents s A) (hn : s.vnodes.lookup v = some n) :
    Gives (vopInactive ⟨some v⟩ s) fun x => x.1 = 0 := by
  unfold vopInactive
  refine Gives.bind (node_eq_ok.2 hn) ?_
  split
  · exact ⟨_, rfl, rfl⟩
  · rename_i e he
    obtain ⟨f, hf⟩ := mem_keys_iff.1 (hR.live v e (devInfo_eq_some.2 ⟨n, hn, he⟩))
    exact Gives.bind (entry_eq_ok.2 hf) ⟨_, rfl, rfl⟩

theorem serves_inactive (hR : Represents s A) (hv : v ∈ s.vnodes.keys) (hidle : idleNode s A v) :
    Serves s A (.inactive ⟨some v⟩) (.inactive v) := by
  obtain ⟨w, hw⟩ := hR.exists_unused
  obtain ⟨n, hn⟩ := Finmap.mem_iff.1 (Finmap.mem_keys.1 hv)
  obtain ⟨⟨r, s'⟩, hs, rfl⟩ := vopInactive_gives hR hn
  have hanswer : VopCall.answer s (.inactive ⟨some v⟩) = .ok (0, none, [], s') := by
    simp only [VopCall.answer, VopCall.execOut, VopCall.exec, hs, Except.map]
  -- the entry of the vnode, when it has one, has lost its back pointer
  obtain ⟨hnodes, hfiles, hT, hcontent, hpNode⟩ : s'.vnodes = modifyAt s.vnodes v (fun n => { n with devInfo := none }) ∧
      s'.files = s.files ∧ SameTree s s' ∧ (∀ b, s'.view contentView b = s.view contentView b) ∧
      ∀ b w, s'.pNodeOf b = some w → s.pNodeOf b = some w ∧ s.devInfo v ≠ some b := by
    rcases vopInactive_ok hs with ⟨h0, -⟩ | ⟨-, v', n', hv', hn', hcase⟩
    · exact absurd h0 (lt_irrefl _)
    obtain rfl := Option.some.inj hv'
    obtain rfl := Option.some.inj (hn.symm.trans hn')
    rcases hcase with ⟨hnone, rfl⟩ | ⟨e, f, he, hf, rfl⟩
    · refine ⟨rfl, rfl, ⟨rfl, fun _ => rfl, fun _ => rfl⟩, fun _ => rfl, fun b w hb => ⟨hb, fun hdev => ?_⟩⟩
      obtain ⟨m, hm, hmb⟩ := devInfo_eq_some.1 hdev
      obtain rfl := Option.some.inj (hn.symm.trans hm)
      rw [hnone] at hmb
      cases hmb
    · refine ⟨rfl, rfl, ⟨rfl, fun _ => view_modEntry fun _ => rfl, fun _ => view_modEntry fun _ => rfl⟩,
        fun _ => view_modEntry fun _ => rfl, fun b w hb => ?_⟩
      unfold pNodeOf at hb ⊢
      rw [modNode_entries, lookup_modEntry] at hb
      split at hb
      · rw [hf] at hb
        cases hb
      · refine ⟨hb, fun hdev => ?_⟩
        obtain ⟨m, hm, hmb⟩ := devInfo_eq_some.1 hdev
        obtain rfl := Option.some.inj (hn.symm.trans hm)
        obtain rfl := Option.some.inj (he.symm.trans hmb)
        contradiction
  have hdev : ∀ w, s'.devInfo w = if w = v then none else s.devInfo w := by
    intro w
    unfold VfsState.devInfo
    rw [hnodes, lookup_modifyAt]
    split
    · rw [hn]
      rfl
    · rfl
  refine ⟨0, none, [], s', _, hanswer, ⟨w, hw, rfl⟩, hT.wellFormed hR.form, hT.allReachable hR.reach, fun b t hb => ?_,
    fun t b ht => ?_, ?_, ?_⟩
  · obtain ⟨hb, hvb⟩ := hpNode b t hb
    have hold := hR.back b t hb
    rw [hdev, if_neg]
    · exact hold
    · rintro rfl
      exact hvb hold
  · rw [hdev] at ht
    split at ht
    · cases ht
    · exact hT.mem_keys.2 (hR.live t b ht)
  · obtain ⟨m, hall⟩ := hR.mount
    refine ⟨m, fun t n' hn' hne => ?_⟩
    rw [hnodes, lookup_modifyAt] at hn'
    split at hn'
    · rw [hn] at hn'
      cases hn'
      exact absurd rfl hne
    · exact hall t n' hn' hne
  · have hold : PathFs.Depicts (nameGraph s') (EntryHolds s') s.devInfo A := by
      refine hR.map.mono (fun q y => by rw [hT.graph]) (fun q a x hx _ ha => ?_) fun _ => rfl
      refine ha.frame (hcontent a) (fun t m hm hma => ?_) fun F g hF hg hopen => ⟨by rw [hfiles], ?_⟩
      · rw [hnodes, lookup_modifyAt] at hm
        split at hm
        · rw [hn] at hm
          cases hm
          cases hma
        · exact .inl ⟨t, m, hm, hma, rfl⟩
      · rw [hdev, if_neg]
        · exact hopen
        · rw [hF] at hx
          exact hidle q F g hx hg
    exact hold.unbind hdev

/-- A data call makes its handle or goes through an open one. -/
theorem handle_open {F : ArrayFile FilePtr UInt8} {fop : FileOp FilePtr UInt8} (hcall : arrayCall v F call)
    (hop : fileOp call = some fop) : (∃ h atEnd, fop = .open h atEnd) ∨ 0 < F.opens (handleOf fop) := by
  cases call with
  | «open» k argp object =>
    obtain rfl := Option.some.inj hop
    exact .inl ⟨_, _, rfl⟩
  | close argp =>
    obtain rfl := Option.some.inj hop
    exact .inr hcall.2
  | read argp =>
    obtain rfl := Option.some.inj hop
    exact .inr hcall.2.1
  | write k argp =>
    obtain rfl := Option.some.inj hop
    exact .inr hcall.2.1
  | pread argp =>
    obtain rfl := Option.some.inj hop
    exact .inr hcall.2.1
  | pwrite k argp =>
    obtain rfl := Option.some.inj hop
    exact .inr hcall.2.1
  | lseek argp =>
    obtain rfl := Option.some.inj hop
    exact .inr hcall.2
  | _ => exact hcall.elim

theorem serves_io {F : ArrayFile FilePtr UInt8} {fop : FileOp FilePtr UInt8} (hR : Represents s A)
    (hv : A.nodes v = some p) (hx : A.find p = some (.file F)) (hsole : ∀ w, A.nodes w = some p → w = v)
    (hcall : arrayCall v F call) (hop : fileOp call = some fop)
    (hnew : ∀ h atEnd, fop = .open h atEnd → ∀ q G, A.find q = some (.file G) → q ≠ p → G.opens h = 0) :
    Serves s A call (.io v fop) := by
  obtain ⟨w, hw⟩ := hR.exists_unused
  obtain ⟨e, hve, hwalk⟩ := (hR.map.nodes v p).1 hv
  obtain ⟨f, hf, hF⟩ := entryHolds_file (hR.holds hwalk hx)
  have hone : ∀ w, s.devInfo w = some e → w = v := fun w hw => hsole w ((hR.map.nodes w p).2 ⟨e, hw, hwalk⟩)
  obtain ⟨op, r, out, s', f', hop', hrun, hreply, hholds, hO⟩ := fileHolds_step hF hf hve hone hcall
  obtain rfl := Option.some.inj (hop.symm.trans hop')
  have hanswer : call.answer s = .ok (r, none, out, s') := by
    cases call with
    | create | lookup | mkdir | rename => exact hcall.elim
    | _ => simp only [VopCall.answer, hrun, Except.map]
  have hT := hO.sameTree hf
  -- the handle of the call is open on no other file
  have hother : ∀ q a G, A.find q = some (.file G) → (nameGraph s).Walk none q (some a) → a ≠ e →
      EntryHolds s a (.file G) → G.opens (handleOf fop) = 0 := by
    intro q a G hq hqa hae ha
    by_contra hne
    obtain ⟨g, -, hG⟩ := entryHolds_file ha
    have hdev := (hG.files _ (Nat.pos_of_ne_zero hne)).1
    rcases handle_open hcall hop with ⟨h, atEnd, rfl⟩ | hopen
    · refine hne (hnew h atEnd rfl q G hq ?_)
      rintro rfl
      exact hae (Option.some.inj (hR.form.isTree.walk_unique DirGraph.Open_none hqa hwalk))
    · exact hae (Option.some.inj (hdev.symm.trans (hF.files _ hopen).1))
  refine ⟨r, none, out, s', A.put p (some (.file (F.exec fop).2)), hanswer, ⟨w, hw, ?_⟩, hT.wellFormed hR.form,
    hT.allReachable hR.reach, fun b t hb => ?_, fun t b ht => ?_, ?_, ?_⟩
  · rw [PathFs.exec_io hv hx, ← hreply]
    unfold reply fsReply
    split <;> rfl
  · rw [hO.devInfo]
    refine hR.back b t ?_
    rwa [pNodeOf_of_view (hO.view hf hO.pNode b)] at hb
  · rw [hO.devInfo] at ht
    exact hT.mem_keys.2 (hR.live t b ht)
  · obtain ⟨m, hall⟩ := hR.mount
    refine ⟨m, fun t n hn hne => ?_⟩
    obtain ⟨n', hn', hdev, hmount, -⟩ := hO.node hn
    rw [hdev] at hne
    rw [hmount]
    exact hall t n' hn' hne
  · refine hR.map.store hR.form.isTree (fun q y => by rw [hT.graph]) hwalk hholds (fun q a x hq hqa hae ha => ?_)
      hO.devInfo
    refine hO.frame hve hae ha fun G hG => ?_
    subst hG
    exact hother q a G hq hqa hae ha

/-! ### Runs -/

theorem represents_step (hR : Represents s A) (hq : Asks s A call op) : Serves s A call op := by
  cases hq with
  | create hk hu hdir hc => exact serves_create hR hk hu hdir hc
  | mkdir hk hu hc => exact serves_mkdir hR hk hu hc
  | lookup hk hu hc hcheck => exact serves_lookup hR hk hu hc hcheck
  | remove hu hc hfree => exact serves_remove hR hu hc hfree
  | rmdir hu hc hfree => exact serves_rmdir hR hu hc hfree
  | rename hk hu hu' h2 hc hc' hmove => exact serves_rename hR hk hu hu' h2 hc hc' hmove
  | inactive hv hidle => exact serves_inactive hR hv hidle
  | io hv hx hsole hcall hop hnew => exact serves_io hR hv hx hsole hcall hop hnew

/-- Each call asks for its operation when it is made, whatever vnodes the calls before it have made. -/
def AsksAll (s : VfsState) (A : FileSys) : List VopCall → List (FsOp CStr FilePtr UInt8 NodePtr) → Prop
  | [], [] => True
  | call :: calls, op :: ops => Asks s A call op ∧ ∀ r node out s' A', call.answer s = .ok (r, node, out, s') →
      A.Step op (fsReply r node out) A' → AsksAll s' A' calls ops
  | _, _ => False

/-- The file system answers the operations one after the other with these replies. -/
def PathRun : FileSys → List (FsOp CStr FilePtr UInt8 NodePtr × FsReply UInt8 NodePtr) → FileSys → Prop :=
  Run fun A l A' => A.Step l.1 l.2 A'

theorem represents_run {calls : List VopCall} {ops : List (FsOp CStr FilePtr UInt8 NodePtr)} (hR : Represents s A)
    (hq : AsksAll s A calls ops) : ∃ rs s' A', runAnswers calls s = .ok (rs, s') ∧ rs.length = ops.length ∧
      PathRun A (ops.zip rs) A' ∧ Represents s' A' := by
  induction calls generalizing s A ops with
  | nil =>
    cases ops with
    | nil => exact ⟨[], s, A, rfl, rfl, .nil A, hR⟩
    | cons op ops => exact hq.elim
  | cons call calls ih =>
    cases ops with
    | nil => exact hq.elim
    | cons op ops =>
      obtain ⟨r, node, out, t, B, hcall, hstep, hB⟩ := represents_step hR hq.1
      obtain ⟨rs, s', A', hcalls, hlen, hrun, hR'⟩ := ih hB (hq.2 r node out t B hcall hstep)
      refine ⟨fsReply r node out :: rs, s', A', ?_, ?_, ?_, hR'⟩
      · exact bind_eq_ok.2 ⟨_, hcall, bind_eq_ok.2 ⟨_, hcalls, rfl⟩⟩
      · rw [List.length_cons, List.length_cons, hlen]
      · exact Run.cons (l := (op, fsReply r node out)) hstep hrun

/-- The root directory alone, with its vnode. -/
def rootOnly (v : NodePtr) : FileSys where
  find p := if p = [mdName] then some .dir else none
  nodes u := if u = v then some [mdName] else none

theorem walk_freshMount (h : FreshMount s) (hroot : ∀ e, s.pTree = some e → s.nameOf e = some mdName) :
    (nameGraph s).Walk none p (some e) ↔ p = [mdName] ∧ s.pTree = some e := by
  constructor
  · intro hw
    cases p with
    | nil => cases hw
    | cons c p =>
      obtain ⟨a, ha, hc, hw⟩ := hw
      have hp := (child_freshMount h ha).2
      obtain rfl := Option.some.inj (hc.symm.trans (hroot a hp))
      cases p with
      | nil =>
        obtain rfl := Option.some.inj (show some a = some e from hw)
        exact ⟨rfl, hp⟩
      | cons c p =>
        obtain ⟨b, hb, -⟩ := hw
        cases (child_freshMount h hb).1
  · rintro ⟨rfl, hp⟩
    obtain ⟨e', hp', hK, -⟩ := kids_freshMount h
    obtain rfl := Option.some.inj (hp.symm.trans hp')
    exact ⟨e, (child_iff hK).2 (List.mem_singleton_self e), hroot e hp, rfl⟩

theorem represents_freshMount (h : FreshMount s) (hroot : ∀ e, s.pTree = some e → s.nameOf e = some mdName)
    (hv : s.devInfo v ≠ none) : Represents s (rootOnly v) := by
  have hwalk := fun p e => walk_freshMount (p := p) (e := e) h hroot
  obtain ⟨k, v', m, s₀, e, leak, name, bufs, n, hU, -, -, hent, -, hp, hnodes⟩ := freshMount_ok h
  have hdev : ∀ u, s.devInfo u = if u = v' then some e else none := by
    intro u
    have hold : s₀.devInfo u = none := by
      cases hu : s₀.devInfo u with
      | none => rfl
      | some b =>
        obtain ⟨n', hn', hb⟩ := devInfo_eq_some.1 hu
        rw [hU.vnodes u n' hn'] at hb
        cases hb
    rw [devInfo_insert hnodes rfl, hold]
  obtain rfl : v = v' := by
    by_contra hne
    rw [hdev, if_neg hne] at hv
    exact hv rfl
  have hlookup : ∀ b f, s.entries.lookup b = some f → b = e ∧ f.pNode = some v ∧ EntryHolds s e .dir := by
    intro b f hf
    have hf' := hf
    rw [hent, lookup_insert_ite] at hf
    split at hf
    · subst b
      obtain rfl := Option.some.inj hf
      refine ⟨rfl, rfl, _, hf', ?_, rfl, rfl⟩
      unfold newDmassFs initEntryDate
      cases k.rtc <;> exact (by decide : isDir (SCE_S_IWUSR ||| SCE_S_IRUSR ||| SCE_S_IFDIR))
    · cases hf
  have hlive : e ∈ s.entries.keys := by
    rw [mem_keys_iff, hent, lookup_insert_ite, if_pos rfl]
    exact ⟨_, rfl⟩
  refine ⟨wellFormed_freshMount h hroot, allReachable_freshMount h, fun b w hb => ?_, fun u b hu => ?_, ⟨m, ?_⟩, ?_⟩
  · obtain ⟨f, hf, hw⟩ := pNodeOf_eq_some.1 hb
    obtain ⟨rfl, hv', -⟩ := hlookup b f hf
    obtain rfl := Option.some.inj (hw.symm.trans hv')
    exact (hdev w).trans (if_pos rfl)
  · rw [hdev] at hu
    split at hu
    · rwa [← Option.some.inj hu]
    · cases hu
  · intro u n' hn' hne
    rw [hnodes, lookup_insert_ite] at hn'
    split at hn'
    · rw [← Option.some.inj hn']
    · exact absurd (hU.vnodes u n' hn') hne
  · obtain ⟨f, hf⟩ := mem_keys_iff.1 hlive
    refine ⟨fun p a ha => ?_, fun p hno => ?_, fun u p => ?_⟩
    · obtain ⟨rfl, hpa⟩ := (hwalk p a).1 ha
      obtain rfl := Option.some.inj (hp.symm.trans hpa)
      exact ⟨.dir, by simp [rootOnly], (hlookup e f hf).2.2⟩
    · refine if_neg ?_
      rintro rfl
      exact hno e ((hwalk _ e).2 ⟨rfl, hp⟩)
    · show (if u = v then some [mdName] else none) = some p ↔ _
      rw [hdev]
      constructor
      · intro hu
        split at hu
        · exact ⟨e, if_pos ‹_›, (hwalk p e).2 ⟨(Option.some.inj hu).symm, hp⟩⟩
        · cases hu
      · rintro ⟨a, ha, hpa⟩
        split at ha
        · rw [if_pos ‹_›, ((hwalk p a).1 hpa).1]
        · cases ha

/-- `/md/a` is made, opened and written, and renamed to `/md/b`. -/
def writeAndRename : List VopCall :=
  [.create idle ⟨0, fileIn [mdName] [chA]⟩, .open idle ⟨1, 7⟩ { node := 1 }, .write idle ⟨1, 7, fun i => i.toUInt8, 3⟩,
    .rename idle ⟨0, 0, fileIn [mdName] [chA], 0, fileIn [mdName] [chB]⟩]

def writeAndRenameOps : List (FsOp CStr FilePtr UInt8 NodePtr) :=
  [.create 0 [chA], .io 1 (.open 7 false), .io 1 (.write 7 [0, 1, 2]), .rename 0 [chA] 0 [chB]]

theorem plenty_idle : Plenty idle := ⟨fun _ _ => rfl, fun _ => rfl, le_rfl⟩

theorem answer_lastState {node : Option NodePtr} {out : List UInt8} (h : call.answer s = .ok (r, node, out, s')) :
    s' = lastState [call] s := by
  have hs : call.exec s = .ok (r, s') := by
    rw [← answer_exec, h]
    rfl
  unfold lastState runCalls runCalls
  rw [hs]

/-- The file system after `/md/a` has been made with the vnode 1. -/
def withA : FileSys := ((rootOnly 0).put [mdName, [chA]] (some (.file .empty))).bind 1 (some [mdName, [chA]])

theorem nodes_withA (hw : withA.nodes w = some [mdName, [chA]]) : w = 1 := by
  by_contra hne
  rw [withA, PathFs.nodes_bind_of_ne _ _ hne] at hw
  change (if w = 0 then some [mdName] else none) = _ at hw
  split at hw
  · exact absurd (Option.some.inj hw) (by decide)
  · cases hw

theorem files_withA {F : ArrayFile FilePtr UInt8} (hx : withA.find q = some (.file F)) : q = [mdName, [chA]] := by
  by_contra hne
  have hroot : (rootOnly 0).find q = some (.file F) := (PathFs.find_put_of_ne _ _ hne).symm.trans hx
  unfold rootOnly at hroot
  dsimp only at hroot
  split at hroot <;> cases hroot

theorem create_withA {node : Option NodePtr} {out : List UInt8}
    (h : VopCall.answer mounted (.create idle ⟨0, fileIn [mdName] [chA]⟩) = .ok (r, node, out, s'))
    (hA : (rootOnly 0).Step (.create 0 [chA]) (fsReply r node out) A) : A = withA := by
  obtain ⟨w, -, hA⟩ := hA
  have hout : (VopCall.answer mounted (.create idle ⟨0, fileIn [mdName] [chA]⟩)).map (fun x => (x.1, x.2.1, x.2.2.1)) =
      .ok (0, some 1, []) := by decide +kernel
  rw [h] at hout
  obtain ⟨rfl, hout⟩ := Prod.mk.inj (Except.ok.inj hout)
  obtain ⟨rfl, rfl⟩ := Prod.mk.inj hout
  have hexec : (rootOnly 0).exec w (.create 0 [chA]) = (some (0, some w, []),
      ((rootOnly 0).put [mdName, [chA]] (some (.file .empty))).bind w (some [mdName, [chA]])) :=
    PathFs.make_free (A := rootOnly 0) (p := [mdName]) (u := 0) (c := [chA]) rfl rfl rfl
  obtain ⟨hw, rfl⟩ := Prod.mk.inj (hexec.symm.trans hA)
  rw [fsReply, if_neg (by decide)] at hw
  cases hw
  rfl

theorem asksAll_writeAndRename : AsksAll mounted (rootOnly 0) writeAndRename writeAndRenameOps := by
  have hname : ∀ c : CChar, c ≠ slash → IsName [c] := by
    intro c hc
    exact ⟨nofun, fun hmem => hc (List.mem_singleton.1 hmem).symm⟩
  refine ⟨.create plenty_idle rfl rfl (hname _ (by decide)), ?_⟩
  intro r₁ node₁ out₁ s₁ A₁ h₁ hA₁
  obtain rfl := create_withA h₁ hA₁
  obtain rfl := answer_lastState h₁
  -- the file is empty and has one vnode
  refine ⟨.io (p := [mdName, [chA]]) rfl rfl (fun _ => nodes_withA) ⟨rfl, rfl, rfl, fun _ _ => rfl⟩ rfl
    fun h atEnd _ q G hG hq => absurd (files_withA hG) hq, ?_⟩
  rintro r₂ node₂ out₂ s₂ A₂ h₂ ⟨w₂, -, hA₂⟩
  rw [PathFs.exec_io (p := [mdName, [chA]]) rfl rfl] at hA₂
  obtain ⟨-, rfl⟩ := Prod.mk.inj hA₂
  obtain rfl := answer_lastState h₂
  refine ⟨.io (p := [mdName, [chA]]) rfl (PathFs.find_put ..) (fun _ => nodes_withA)
    ⟨rfl, by decide, by decide, by decide, fun _ _ => rfl⟩ rfl (by rintro h atEnd ⟨⟩), ?_⟩
  rintro r₃ node₃ out₃ s₃ A₃ h₃ ⟨w₃, -, hA₃⟩
  rw [PathFs.exec_io (p := [mdName, [chA]]) rfl (PathFs.find_put ..)] at hA₃
  obtain ⟨-, rfl⟩ := Prod.mk.inj hA₃
  have hs₃ := answer_lastState h₃
  refine ⟨.rename (p := [mdName]) (q := [mdName]) plenty_idle rfl rfl rfl (hname _ (by decide)) (hname _ (by decide))
    fun _ => ⟨rfl, .inl rfl, by decide, fun e he => ?_⟩, fun _ _ _ _ _ _ _ => trivial⟩
  rw [hs₃] at he ⊢
  have h4 : e = 4 := he.unique (by decide +kernel)
  subst h4
  decide +kernel

end VitaUtility.Dmass

import VitaUtility.Dmass.Call

/-!
# What a namespace or listing call that returns has done

One inversion lemma for each function of `Vop.lean`: from `f s = .ok (r, s')`, the branches it can
have taken, with their guards and the new state. The invariants are derived from these.
-/

namespace VitaUtility.Dmass
open VfsState

variable {s s' : VfsState} {k : Answers} {r : Int} {a b d e : Addr} {v : NodePtr}

/-! ### Heap blocks and vnodes -/

/-- The blocks of a new entry: the entry, the copy of its name that is lost, and the copy it keeps. -/
structure NewBlocks (k : Answers) (s : VfsState) (str : CStr) (e leak : Addr) (name : Option NameBlock)
    (bufs : Finset Addr) : Prop where
  named : str ≠ []
  fresh : e ∉ s.live
  lost : leak ∉ s.live
  ne : leak ≠ e
  kept : (name = none ∧ bufs = insert leak s.bufs) ∨
    ∃ b, b ∉ s.live ∧ b ≠ e ∧ b ≠ leak ∧ name = some ⟨b, str⟩ ∧ bufs = insert b (insert leak s.bufs)
  got : k.mallocs → name ≠ none

theorem nameCpy_cases (k : Answers) (i : Nat) (str : CStr) (s : VfsState) :
    (nameCpy k i str s = (none, s) ∧ (str = [] ∨ k.block i s.live = none)) ∨
      ∃ a, a ∉ s.live ∧ (str ≠ [] ∧ k.block i s.live = some a) ∧
        nameCpy k i str s = (some ⟨a, str⟩, { s with bufs := insert a s.bufs }) := by
  unfold nameCpy
  split
  · exact .inl ⟨rfl, .inl (List.eq_nil_of_length_eq_zero ‹_›)⟩
  · have hne : str ≠ [] := fun e => ‹¬ str.length = 0› (by simp [e])
    rcases malloc_cases k i s with ⟨h0, h⟩ | ⟨a, ha, h0, h⟩ <;> rw [h]
    · exact .inl ⟨rfl, .inr h0⟩
    · exact .inr ⟨a, ha, ⟨hne, h0⟩, rfl⟩

/-- `name_cpy` does not look at the vnodes. -/
theorem nameCpy_vnodes (k : Answers) (i : Nat) (str : CStr) (s : VfsState) (vnodes : Store SceVfsNode) :
    nameCpy k i str { s with vnodes := vnodes } =
      ((nameCpy k i str s).1, { s with bufs := (nameCpy k i str s).2.bufs, vnodes := vnodes }) := by
  unfold nameCpy malloc live
  split
  · rfl
  · cases k.malloc i (s.entries.keys ∪ s.bufs) <;> rfl

/-- `create_dmass_file_info` and `create_dmass_dir_info` make an entry of the name: the two allocations whose
answers they look at succeed, when the blocks `L` are live. -/
def entryAnswered (k : Answers) (str : CStr) (L : Finset Addr) : Prop :=
  str ≠ [] ∧ ∃ e ∈ k.block 0 L, (k.block 1 (insert e L)).isSome

instance {str : CStr} {L : Finset Addr} : Decidable (entryAnswered k str L) :=
  inferInstanceAs (Decidable (_ ∧ ∃ e ∈ k.block 0 L, _))

/-- So does the third, the copy of the name that the entry keeps. -/
def nameKept (k : Answers) (L : Finset Addr) : Prop :=
  ∀ e ∈ k.block 0 L, ∀ leak ∈ k.block 1 (insert e L), (k.block 2 (insert leak (insert e L))).isSome

theorem live_insert_bufs (s : VfsState) (a : Addr) :
    VfsState.live { s with bufs := insert a s.bufs } = insert a s.live := by
  unfold live
  exact Finset.union_insert ..

theorem createDmassInfo_cases (mode : UInt32) (k : Answers) (str : CStr) (s : VfsState) :
    (¬ entryAnswered k str s.live ∧ createDmassInfo mode k str s = (none, s)) ∨
      (entryAnswered k str s.live ∧ ∃ e leak name bufs, NewBlocks k s str e leak name bufs ∧
        (name ≠ none ↔ nameKept k s.live) ∧ createDmassInfo mode k str s =
          (some e, { s with entries := s.entries.insert e (newDmassFs mode k name), bufs := bufs })) := by
  unfold createDmassInfo entryAnswered nameKept
  rcases malloc_cases k 0 s with ⟨h0, h⟩ | ⟨e, he, h0, h⟩
  · rw [h, h0]
    exact .inl ⟨by simp, rfl⟩
  have he' : e ∉ s.bufs := fun hb => he (mem_live.2 (.inr hb))
  rw [h0]
  rcases nameCpy_cases k 1 str { s with bufs := insert e s.bufs } with ⟨h₁, hno⟩ | ⟨leak, hl, ⟨hne, hm₁⟩, h₁⟩
  · rw [live_insert_bufs] at hno
    simp only [h, h₁, dmassFree, Finset.erase_insert he']
    refine .inl ⟨?_, trivial⟩
    rintro ⟨hne, e', he', hsome⟩
    obtain rfl := Option.some.inj he'
    rw [hno.resolve_left hne] at hsome
    cases hsome
  rw [live_insert_bufs] at hl hm₁
  obtain ⟨hle, hl'⟩ := not_or.1 fun h => hl (Finset.mem_insert.2 h)
  have hlive : VfsState.live { s with bufs := insert leak (insert e s.bufs) } = insert leak (insert e s.live) :=
    (live_insert_bufs { s with bufs := insert e s.bufs } leak).trans (by rw [live_insert_bufs])
  simp only [h, h₁]
  refine .inr ⟨⟨hne, e, rfl, by rw [hm₁]; rfl⟩, ?_⟩
  rcases nameCpy_cases k 2 str { s with bufs := insert leak (insert e s.bufs) } with
    ⟨h₂, hno⟩ | ⟨b, hb, ⟨-, hm₂⟩, h₂⟩
  · have hnone := hno.resolve_left hne
    rw [hlive] at hnone
    refine ⟨e, leak, none, insert leak s.bufs, ⟨hne, he, hl', hle, .inl ⟨rfl, rfl⟩, fun hk => ?_⟩, ?_, ?_⟩
    · have := hk 2 (insert leak (insert e s.live))
      rw [← Option.isSome_map, show Option.map _ _ = _ from hnone] at this
      cases this
    · simp [hm₁, hnone]
    · have : (insert leak (insert e s.bufs)).erase e = insert leak s.bufs := by
        rw [Finset.erase_insert_of_ne hle, Finset.erase_insert he']
      rw [h₂]; simp [this]
  · rw [hlive] at hb hm₂
    obtain ⟨hbl, hb⟩ := not_or.1 fun h => hb (Finset.mem_insert.2 h)
    obtain ⟨hbe, hb'⟩ := not_or.1 fun h => hb (Finset.mem_insert.2 h)
    refine ⟨e, leak, some ⟨b, str⟩, insert b (insert leak s.bufs),
      ⟨hne, he, hl', hle, .inr ⟨b, hb', hbe, hbl, rfl, rfl⟩, fun _ => Option.some_ne_none _⟩, ?_, ?_⟩
    · simp [hm₁, hm₂]
    · have : (insert b (insert leak (insert e s.bufs))).erase e = insert b (insert leak s.bufs) := by
        rw [Finset.erase_insert_of_ne hbe, Finset.erase_insert_of_ne hle, Finset.erase_insert he']
      rw [h₂]; simp [this]

/-- What a failed `newNode` leaves: the vnodes, or all but one that was not in use. -/
def NodesKept (s : VfsState) (vnodes : Store SceVfsNode) : Prop :=
  vnodes = s.vnodes ∨ ∃ v, v ∉ s.nodesInUse ∧ vnodes = s.vnodes.erase v

/-- `ksceVfsGetNewNode` and `ksceVfsNodeWaitEventFlag` succeed. -/
def vnodeMade (k : Answers) (s : VfsState) : Prop := (k.newNode s.nodesInUse).isOk ∧ 0 ≤ k.waitEventFlag

instance : Decidable (vnodeMade k s) := inferInstanceAs (Decidable (_ ∧ _))

theorem newNode_ok {m : Option MountPtr} {x : Except Int NodePtr} (h : s.newNode k m = .ok (x, s')) :
    (¬ vnodeMade k s ∧ ∃ c vnodes, x = .error c ∧ c < 0 ∧ NodesKept s vnodes ∧ s' = { s with vnodes := vnodes }) ∨
      (vnodeMade k s ∧ ∃ v, x = .ok v ∧ v ∉ s.nodesInUse ∧ s' = { s with vnodes := s.vnodes.insert v {} }) := by
  unfold newNode at h
  unfold vnodeMade
  split at h
  · cases h
  split at h
  · rename_i c hc
    cases h
    refine .inl ⟨?_, _, _, rfl, c.2, .inl rfl, rfl⟩
    rw [hc]
    exact fun h => nomatch h.1
  · rename_i v hv
    rw [hv]
    split at h <;> cases h
    · exact .inl ⟨fun h => not_lt.2 h.2 ‹_›, _, _, rfl, ‹_›, .inr ⟨v.1, v.2, rfl⟩, rfl⟩
    · exact .inr ⟨⟨rfl, not_lt.1 ‹_›⟩, v.1, rfl, v.2, rfl⟩

/-- `v->core.dev_info` -/
def VfsState.devInfo (s : VfsState) (v : NodePtr) : Option Addr := (s.vnodes.lookup v).bind (·.devInfo)

theorem devInfo_eq_some : s.devInfo v = some e ↔ ∃ n, s.vnodes.lookup v = some n ∧ n.devInfo = some e :=
  Option.bind_eq_some_iff

theorem mem_nodesInUse {v : NodePtr} :
    v ∈ s.nodesInUse ↔ ∃ n e, s.vnodes.lookup v = some n ∧ n.devInfo = some e := by
  unfold nodesInUse
  rw [Finset.mem_filter, Finmap.mem_keys, Finmap.mem_iff]
  constructor
  · rintro ⟨⟨n, hn⟩, h⟩
    rw [hn] at h
    obtain ⟨e, he⟩ := Option.isSome_iff_exists.1 h
    exact ⟨n, e, hn, he⟩
  · rintro ⟨n, e, hn, he⟩
    exact ⟨⟨n, hn⟩, by rw [hn]; simp [he]⟩

namespace NodesKept
variable {vnodes : Store SceVfsNode} {n : SceVfsNode}

theorem sub (h : NodesKept s vnodes) (hn : vnodes.lookup v = some n) : s.vnodes.lookup v = some n := by
  rcases h with rfl | ⟨w, -, rfl⟩
  · exact hn
  · rw [lookup_erase_ite] at hn
    split at hn
    · cases hn
    · exact hn

theorem keep (h : NodesKept s vnodes) (hn : s.vnodes.lookup v = some n) (he : n.devInfo = some e) :
    vnodes.lookup v = some n := by
  rcases h with rfl | ⟨w, hw, rfl⟩
  · exact hn
  · rw [lookup_erase_ite, if_neg]
    · exact hn
    · rintro rfl; exact hw (mem_nodesInUse.2 ⟨n, e, hn, he⟩)

end NodesKept

/-! ### Path resolution only fails with negative values -/

theorem getFsEntryLoop_neg {fuel : Nat} {current : CStr} {p : Option Addr}
    (h : getFsEntryLoop s fuel current p = .ok (.error r)) : r < 0 := by
  induction fuel generalizing current p with
  | zero => cases current <;> simp [getFsEntryLoop] at h
  | succ fuel ih =>
    cases current with
    | nil => simp [getFsEntryLoop] at h
    | cons c current =>
      unfold getFsEntryLoop at h
      split at h
      · cases h; decide
      dsimp only at h
      split at h
      · cases h; decide
      rw [bind_eq_ok] at h
      obtain ⟨x, -, h⟩ := h
      split at h
      · cases h; decide
      rw [bind_eq_ok] at h
      obtain ⟨f, -, h⟩ := h
      exact ih h

theorem getFsEntry_neg {path : Option CStr} (h : getFsEntry path s = .ok (.error r)) : r < 0 := by
  unfold getFsEntry getFsEntryInternal at h
  split at h
  · cases h; decide
  split at h
  · cases h; decide
  · exact getFsEntryLoop_neg h

/-! ### The calls -/

/-- `vop_create` and `vop_mkdir` find the path free and make an entry, which they link at once. -/
def linksEntry (k : Answers) (s : VfsState) (fileInfo : SceVfsPath) : Prop :=
  (∃ res, getFsEntry fileInfo.path s = .ok (.error res)) ∧ entryAnswered k fileInfo.name s.live

instance {fileInfo : SceVfsPath} : Decidable (linksEntry k s fileInfo) :=
  have : Decidable (∃ res, getFsEntry fileInfo.path s = .ok (.error res)) :=
    match getFsEntry fileInfo.path s with
    | .ok (.error res) => isTrue ⟨res, rfl⟩
    | .ok (.ok _) | .error _ => isFalse nofun
  inferInstanceAs (Decidable (_ ∧ entryAnswered k fileInfo.name s.live))

theorem makeEntry_cases {mode unk78 stAttr : UInt32} {fileInfo : SceVfsPath} {out : Option NodePtr}
    (h : makeEntry (createDmassInfo mode) unk78 stAttr k v fileInfo s = .ok (r, out, s')) :
    (¬ linksEntry k s fileInfo ∧ r < 0 ∧ s' = s) ∨
      (linksEntry k s fileInfo ∧ ∃ e leak name bufs n d fd, NewBlocks k s fileInfo.name e leak name bufs ∧
        (name ≠ none ↔ nameKept k s.live) ∧ s.vnodes.lookup v = some n ∧ n.devInfo = some d ∧
        (s.entries.insert e (newDmassFs mode k name)).lookup d = some fd ∧
        let s₁ : VfsState := { s with entries := s.entries.insert e (newDmassFs mode k name), bufs := bufs }
        let s₂ := s₁.pushEntry d e
        (¬ vnodeMade k s ∧ r < 0 ∧ ∃ vnodes, NodesKept s vnodes ∧ s' = { s₂ with vnodes := vnodes }) ∨
          (vnodeMade k s ∧ r = 0 ∧ ∃ w, w ∉ s.nodesInUse ∧ out = some w ∧
            s' = { s₂.modEntry e fun f => { f with pNode := some w } with
              vnodes := s.vnodes.insert w {
                mount := n.mount, stSize := 0, devInfo := some e, prevNode := some v, unk74 := 1,
                unk78 := unk78, stAttr := stAttr, unk8C := 0, someCounter58 := 1 } })) := by
  unfold makeEntry at h
  unfold linksEntry
  rw [bind_eq_ok] at h
  obtain ⟨x, hx, h⟩ := h
  rw [hx]
  split at h
  · cases h
    exact .inl ⟨(nomatch ·.1), by decide, rfl⟩
  rcases createDmassInfo_cases mode k fileInfo.name s with ⟨hans, hc⟩ | ⟨hans, e, leak, name, bufs, hB, hkept, hc⟩ <;>
    rw [hc] at h
  · cases h
    exact .inl ⟨fun h => hans h.2, by decide, rfl⟩
  dsimp only at h
  rw [bind_eq_ok] at h
  obtain ⟨n, hn, h⟩ := h
  rw [bind_eq_ok] at h
  obtain ⟨⟨d, fd⟩, hd, h⟩ := h
  rw [bind_eq_ok] at h
  obtain ⟨⟨y, s₃⟩, hy, h⟩ := h
  rw [node_eq_ok] at hn
  rw [deref_eq_ok] at hd
  refine .inr ⟨⟨⟨_, rfl⟩, hans⟩, e, leak, name, bufs, n, d, fd, hB, hkept, hn, hd.1, hd.2, ?_⟩
  rcases newNode_ok hy with ⟨hmade, c, vnodes, rfl, hc, hk, rfl⟩ | ⟨hmade, w, rfl, hw, rfl⟩
  · cases h
    exact .inl ⟨hmade, hc, vnodes, hk, rfl⟩
  · cases h
    refine .inr ⟨hmade, rfl, w, hw, rfl, ?_⟩
    simp only [modNode, modEntry, modifyAt_insert]
    rfl

theorem makeEntry_ok {mode unk78 stAttr : UInt32} {fileInfo : SceVfsPath} {out : Option NodePtr}
    (h : makeEntry (createDmassInfo mode) unk78 stAttr k v fileInfo s = .ok (r, out, s')) :
    (r < 0 ∧ s' = s) ∨
      ∃ e leak name bufs n d fd, NewBlocks k s fileInfo.name e leak name bufs ∧
        (∃ res, getFsEntry fileInfo.path s = .ok (.error res)) ∧
        s.vnodes.lookup v = some n ∧ n.devInfo = some d ∧
        (s.entries.insert e (newDmassFs mode k name)).lookup d = some fd ∧
        let s₁ : VfsState := { s with entries := s.entries.insert e (newDmassFs mode k name), bufs := bufs }
        let s₂ := s₁.pushEntry d e
        (r < 0 ∧ ∃ vnodes, NodesKept s vnodes ∧ s' = { s₂ with vnodes := vnodes }) ∨
          (r = 0 ∧ ∃ w, w ∉ s.nodesInUse ∧ out = some w ∧
            s' = { s₂.modEntry e fun f => { f with pNode := some w } with
              vnodes := s.vnodes.insert w {
                mount := n.mount, stSize := 0, devInfo := some e, prevNode := some v, unk74 := 1,
                unk78 := unk78, stAttr := stAttr, unk8C := 0, someCounter58 := 1 } }) := by
  rcases makeEntry_cases h with ⟨-, h⟩ | ⟨hlinks, e, leak, name, bufs, n, d, fd, hB, -, hn, hd, hfd, h⟩
  · exact .inl h
  · exact .inr ⟨e, leak, name, bufs, n, d, fd, hB, hlinks.1, hn, hd, hfd, h.imp And.right And.right⟩

theorem vopPartInit_ok {argp : SceVfsPartInit} {out : Option NodePtr}
    (h : vopPartInit k argp s = .ok (r, out, s')) :
    (r < 0 ∧ ∃ vnodes, NodesKept s vnodes ∧ s' = { s with vnodes := vnodes }) ∨
      (r = 0 ∧ ∃ n e f w, s.vnodes.lookup argp.node = some n ∧
        getFsEntry argp.pathInfo.path s = .ok (.ok (some e)) ∧ s.entries.lookup e = some f ∧
        w ∉ s.nodesInUse ∧ out = some w ∧
        s' = { s.modEntry e fun f => { f with pNode := some w } with
          vnodes := s.vnodes.insert w {
            devInfo := some e, mount := n.mount, prevNode := some argp.node, unk74 := 1,
            stAttr := f.stat.stAttr, stSize := f.stat.stSize, unk8C := 0, someCounter58 := 1,
            unk78 := if isDir f.stat.stMode then SCE_S_IWUSR else SCE_S_IXUSR } }) := by
  unfold vopPartInit at h
  dsimp only at h
  split at h
  · cases h; exact .inl ⟨by decide, _, .inl rfl, rfl⟩
  split at h
  · cases h; exact .inl ⟨‹_›, _, .inl rfl, rfl⟩
  rw [bind_eq_ok] at h
  obtain ⟨n, hn, h⟩ := h
  split at h
  · cases h; exact .inl ⟨by decide, _, .inl rfl, rfl⟩
  rw [bind_eq_ok] at h
  obtain ⟨x, hx, h⟩ := h
  split at h
  · cases h; exact .inl ⟨getFsEntry_neg hx, _, .inl rfl, rfl⟩
  rw [bind_eq_ok] at h
  obtain ⟨⟨y, s₁⟩, hy, h⟩ := h
  rcases newNode_ok hy with ⟨-, c, vnodes, rfl, hc, hk, rfl⟩ | ⟨-, w, rfl, hw, rfl⟩
  · cases h; exact .inl ⟨hc, vnodes, hk, rfl⟩
  · rw [bind_eq_ok] at h
    obtain ⟨⟨e, f⟩, hd, h⟩ := h
    rw [deref_eq_ok] at hd
    obtain ⟨rfl, hf⟩ := hd
    cases h
    exact .inr ⟨rfl, n, e, f, w, node_eq_ok.1 hn, hx, hf, hw, rfl, by simp only [modNode, modEntry, modifyAt_insert]⟩

theorem deleteDmassInfo_ok (h : deleteDmassInfo e s = .ok (r, s')) : ∃ f, s.entries.lookup e = some f ∧
    ((r < 0 ∧ s' = s ∧ (f.refer ≠ 0 ∨ f.pDmassFsX ≠ [])) ∨
      (r = 0 ∧ f.refer = 0 ∧ f.pDmassFsX = [] ∧
        s' = { (s.dmassFree (f.name.map (·.addr))).dmassFree (f.data.map (·.addr)) with
          entries := s.entries.erase e })) := by
  unfold deleteDmassInfo at h
  rw [bind_eq_ok] at h
  obtain ⟨f, hf, h⟩ := h
  refine ⟨f, entry_eq_ok.1 hf, ?_⟩
  split at h
  · cases h; exact .inl ⟨by decide, rfl, .inl ‹_›⟩
  split at h
  · cases h; exact .inl ⟨by decide, rfl, .inr ‹_›⟩
  · cases h; exact .inr ⟨rfl, not_not.1 ‹_›, not_not.1 ‹_›, by simp⟩

theorem unlinkAndDelete_ok (h : unlinkAndDelete v e s = .ok (r, s')) : ∃ n d fd,
    s.vnodes.lookup v = some n ∧ n.devInfo = some d ∧ s.entries.lookup d = some fd ∧
      ((r < 0 ∧ findEntryLink s d e = .ok none ∧ s' = s) ∨
        ∃ pred x f, findEntryLink s d e = .ok (some (pred, x)) ∧ s.entries.lookup e = some f ∧
          deleteDmassInfo e (s.setLink d pred f.next) = .ok (r, s')) := by
  unfold unlinkAndDelete at h
  rw [bind_eq_ok] at h
  obtain ⟨n, hn, h⟩ := h
  rw [bind_eq_ok] at h
  obtain ⟨⟨d, fd⟩, hd, h⟩ := h
  rw [bind_eq_ok] at h
  obtain ⟨y, hy, h⟩ := h
  rw [deref_eq_ok] at hd
  refine ⟨n, d, fd, node_eq_ok.1 hn, hd.1, hd.2, ?_⟩
  rcases y with _ | ⟨pred, x⟩
  · cases h; exact .inl ⟨by decide, hy, rfl⟩
  · rw [bind_eq_ok] at h
    obtain ⟨f, hf, h⟩ := h
    exact .inr ⟨pred, x, f, hy, entry_eq_ok.1 hf, h⟩

theorem vopRemove_ok {argp : SceVfsPartDeinit} (h : vopRemove argp s = .ok (r, s')) : (r < 0 ∧ s' = s) ∨
    ∃ e f, getFsEntry argp.fileInfo.path s = .ok (.ok (some e)) ∧ s.entries.lookup e = some f ∧
      isReg f.stat.stMode ∧ unlinkAndDelete argp.node e s = .ok (r, s') := by
  unfold vopRemove at h
  rw [bind_eq_ok] at h
  obtain ⟨x, hx, h⟩ := h
  split at h
  · cases h; exact .inl ⟨by decide, rfl⟩
  rw [bind_eq_ok] at h
  obtain ⟨⟨e, f⟩, hd, h⟩ := h
  rw [deref_eq_ok] at hd
  obtain ⟨rfl, hf⟩ := hd
  dsimp only at h
  split at h
  · cases h; exact .inl ⟨by decide, rfl⟩
  · exact .inr ⟨e, f, hx, hf, not_not.1 ‹_›, h⟩

theorem vopRmdir_ok {argp : SceVopRmdirArgs} (h : vopRmdir argp s = .ok (r, s')) : (r < 0 ∧ s' = s) ∨
    ∃ e f, getFsEntry argp.fileInfo.path s = .ok (.ok (some e)) ∧ s.entries.lookup e = some f ∧
      f.nextDir = none ∧ isDir f.stat.stMode ∧ unlinkAndDelete argp.node e s = .ok (r, s') := by
  unfold vopRmdir at h
  rw [bind_eq_ok] at h
  obtain ⟨x, hx, h⟩ := h
  split at h
  · cases h; exact .inl ⟨getFsEntry_neg hx, rfl⟩
  rw [bind_eq_ok] at h
  obtain ⟨⟨e, f⟩, hd, h⟩ := h
  rw [deref_eq_ok] at hd
  obtain ⟨rfl, hf⟩ := hd
  dsimp only at h
  split at h
  · cases h; exact .inl ⟨by decide, rfl⟩
  split at h
  · cases h; exact .inl ⟨by decide, rfl⟩
  · exact .inr ⟨e, f, hx, hf, not_not.1 ‹_›, not_not.1 ‹_›, h⟩

theorem vopMkdir_ok {argp : SceVopMkdirArgs} {out : Option NodePtr}
    (h : vopMkdir k argp s = .ok (r, out, s')) : (r < 0 ∧ s' = s) ∨
    ∃ n d f, s.vnodes.lookup argp.node = some n ∧ n.devInfo = some d ∧ s.entries.lookup d = some f ∧
      isDir f.stat.stMode ∧ makeEntry createDmassDirInfo SCE_S_IWUSR
        (SCE_SO_IXOTH ||| SCE_SO_IWOTH ||| SCE_SO_IROTH ||| SCE_SO_IFDIR) k argp.node argp.fileInfo s =
          .ok (r, out, s') := by
  unfold vopMkdir at h
  rw [bind_eq_ok] at h
  obtain ⟨n, hn, h⟩ := h
  rw [bind_eq_ok] at h
  obtain ⟨⟨d, f⟩, hd, h⟩ := h
  rw [deref_eq_ok] at hd
  dsimp only at h
  split at h
  · cases h; exact .inl ⟨by decide, rfl⟩
  · exact .inr ⟨n, d, f, node_eq_ok.1 hn, hd.1, hd.2, not_not.1 ‹_›, h⟩

/-- The loop over `*ppFsInfo` meets `e` in the list of `d`. -/
def linked (s : VfsState) (d e : Addr) : Prop :=
  match findEntryLink s d e with
  | .ok (some _) => True
  | _ => False

instance : Decidable (linked s d e) := by
  unfold linked; split <;> infer_instance

/-- What a path is resolved to. -/
def target (s : VfsState) (path : Option CStr) : Option Addr :=
  match getFsEntry path s with
  | .ok (.ok p) => p
  | _ => none

/-- `vop_rename` gets past its tests: it finds the old entry in the list of its directory, and makes the new vnode. -/
def movesEntry (k : Answers) (s : VfsState) (argp : SceVopRenameArgs) : Prop :=
  (s.vnodes.lookup argp.node).map (·.mount) = (s.vnodes.lookup argp.node2).map (·.mount) ∧ vnodeMade k s ∧
    ∃ e ∈ target s argp.fileInfoOld.path, ∃ d ∈ s.devInfo argp.node, linked s d e

instance {argp : SceVopRenameArgs} : Decidable (movesEntry k s argp) :=
  inferInstanceAs (Decidable (_ ∧ _ ∧ ∃ e ∈ target _ _, ∃ d ∈ s.devInfo _, _))

theorem vopRename_ok {argp : SceVopRenameArgs} {out : Option NodePtr}
    (h : vopRename k argp s = .ok (r, out, s')) :
    (r < 0 ∧ ∃ vnodes, NodesKept s vnodes ∧ s' = { s with vnodes := vnodes }) ∨
      (r = 0 ∧ movesEntry k s argp ∧ ∃ n d fd e f pred x w n3 d3 fd3 v old name,
        s.vnodes.lookup argp.node = some n ∧ n.devInfo = some d ∧ s.entries.lookup d = some fd ∧
        getFsEntry argp.fileInfoOld.path s = .ok (.ok (some e)) ∧ s.entries.lookup e = some f ∧
        findEntryLink s d e = .ok (some (pred, x)) ∧ w ∉ s.nodesInUse ∧ out = some w ∧
        s.vnodes.lookup argp.node3 = some n3 ∧ n3.devInfo = some d3 ∧
        (s.setLink d pred f.next).entries.lookup d3 = some fd3 ∧
        f.pNode = some v ∧ (s.vnodes.insert w {}).lookup v = some old ∧
        let s₁ := ((s.setLink d pred f.next).pushEntry d3 e).dmassFree (f.name.map (·.addr))
        name = (nameCpy k 0 argp.fileInfoNew.name s₁).1 ∧
        s' = { s₁.modEntry e fun f => { f with name := name, pNode := some w } with
          bufs := (nameCpy k 0 argp.fileInfoNew.name s₁).2.bufs
          vnodes := s.vnodes.insert w {
            mount := old.mount, stSize := old.stSize, devInfo := some e, prevNode := some v, unk74 := 1,
            unk78 := old.unk78, stAttr := old.stAttr, unk8C := old.unk8C, someCounter58 := 1 } }) := by
  unfold vopRename at h
  rw [bind_eq_ok] at h
  obtain ⟨n, hn, h⟩ := h
  rw [bind_eq_ok] at h
  obtain ⟨n2, hn2, h⟩ := h
  split at h
  · cases h; exact .inl ⟨by decide, _, .inl rfl, rfl⟩
  rename_i hmount
  rw [bind_eq_ok] at h
  obtain ⟨y, hy, h⟩ := h
  split at h
  · cases h; exact .inl ⟨getFsEntry_neg hy, _, .inl rfl, rfl⟩
  rw [bind_eq_ok] at h
  obtain ⟨⟨d, fd⟩, hd, h⟩ := h
  rw [bind_eq_ok] at h
  obtain ⟨⟨e, f₀⟩, he, h⟩ := h
  rw [bind_eq_ok] at h
  obtain ⟨link, hlink, h⟩ := h
  rw [deref_eq_ok] at hd he
  obtain ⟨rfl, -⟩ := he
  rcases link with _ | ⟨pred, x⟩
  · cases h; exact .inl ⟨by decide, _, .inl rfl, rfl⟩
  dsimp only at h
  rw [bind_eq_ok] at h
  obtain ⟨⟨z, s₁⟩, hz, h⟩ := h
  rcases newNode_ok hz with ⟨-, c, vnodes, rfl, hc, hk, rfl⟩ | ⟨hmade, w, rfl, hw, rfl⟩
  · cases h; exact .inl ⟨hc, vnodes, hk, rfl⟩
  dsimp only at h
  rw [bind_eq_ok] at h
  obtain ⟨f, hf, h⟩ := h
  rw [bind_eq_ok] at h
  obtain ⟨n3, hn3, h⟩ := h
  rw [bind_eq_ok] at h
  obtain ⟨⟨d3, fd3⟩, hd3, h⟩ := h
  rw [bind_eq_ok] at h
  obtain ⟨old, hold, h⟩ := h
  rw [entry_eq_ok] at hf
  rw [node_eq_ok] at hn hn2 hn3
  rw [deref_eq_ok] at hd3
  rw [derefNode_eq_ok] at hold
  obtain ⟨v, hv, hold⟩ := hold
  -- the new vnode has no `dev_info` yet, so it is not `node3`
  have hn3' : s.vnodes.lookup argp.node3 = some n3 := by
    rw [setLink_vnodes, lookup_insert_ite] at hn3
    split at hn3
    · cases hn3; cases hd3.1
    · exact hn3
  set s₁ := ((s.setLink d pred f.next).pushEntry d3 e).dmassFree (f.name.map (·.addr)) with hs₁
  have hcpy := nameCpy_vnodes k 0 argp.fileInfoNew.name s₁ (s.vnodes.insert w {})
  generalize hnm : nameCpy k 0 argp.fileInfoNew.name _ = y at h hold
  obtain rfl := hnm.symm.trans hcpy
  cases h
  have hmoves : movesEntry k s argp := by
    refine ⟨?_, hmade, e, ?_, d, devInfo_eq_some.2 ⟨n, hn, hd.1⟩, ?_⟩
    · rw [hn, hn2, Option.map_some, Option.map_some, not_not.1 hmount]
    · unfold target
      rw [hy]
      rfl
    · unfold linked
      rw [hlink]
      trivial
  refine .inr ⟨rfl, hmoves, n, d, fd, e, f, pred, x, w, n3, d3, fd3, v, old, _, hn, hd.1, hd.2, hy, hf, hlink, hw,
    rfl, hn3', hd3.1, hd3.2, hv, hold, rfl, ?_⟩
  simp only [modNode, modEntry, modifyAt_insert, modifyAt_modifyAt, hv]
  rfl

/-! ### Listing -/

theorem createDmassCtlData_ok {key : Int32} {object : Option Addr}
    (h : createDmassCtlData k e key s = .ok (object, s')) : (object = none ∧ s' = s) ∨
    ∃ a f, object = some a ∧ a ∉ s.live ∧ s.entries.lookup e = some f ∧
      s' = { s.modEntry e fun f => { f with
          pDmassFsX := ⟨a, key, none⟩ :: f.pDmassFsX
          refer := f.refer + 1 } with
        bufs := insert a s.bufs } := by
  unfold createDmassCtlData at h
  rcases malloc_cases k 0 s with ⟨-, hm⟩ | ⟨a, ha, -, hm⟩ <;> rw [hm] at h
  · cases h; exact .inl ⟨rfl, rfl⟩
  dsimp only at h
  rw [bind_eq_ok] at h
  obtain ⟨f, hf, h⟩ := h
  cases h
  exact .inr ⟨a, f, rfl, ha, entry_eq_ok.1 hf, rfl⟩

theorem vopDopen_ok {argp : SceVfsDopen} (h : vopDopen k argp s = .ok (r, s')) : (r < 0 ∧ s' = s) ∨
    (r = 0 ∧ ∃ n e f a, s.vnodes.lookup argp.node = some n ∧ n.devInfo = some e ∧
      s.entries.lookup e = some f ∧ a ∉ s.live ∧
      s' = { s.modEntry e fun f => { f with
          pDmassFsX := ⟨a, argp.pVfsFileObject.toInt32, f.nextDir⟩ :: f.pDmassFsX
          refer := f.refer + 1 } with
        bufs := insert a s.bufs }) := by
  unfold vopDopen at h
  rw [bind_eq_ok] at h
  obtain ⟨n, hn, h⟩ := h
  split at h
  · cases h; exact .inl ⟨by decide, rfl⟩
  rename_i e he
  rw [bind_eq_ok] at h
  obtain ⟨⟨object, s₁⟩, hx, h⟩ := h
  rcases createDmassCtlData_ok hx with ⟨rfl, rfl⟩ | ⟨a, f, rfl, ha, hf, rfl⟩ <;> cases h
  · exact .inl ⟨by decide, rfl⟩
  · refine .inr ⟨rfl, n, e, f, a, node_eq_ok.1 hn, he, hf, ha, ?_⟩
    simp only [modEntry, modifyAt_modifyAt]
    rfl

theorem unlinkCtlData_eq (key : Int32) (l : List FapsDmassFsX) :
    (unlinkCtlData key l = none ∧ searchDmassCtlData key l = none) ∨
      ∃ l₁ x l₂, l = l₁ ++ x :: l₂ ∧ x.handlerIndex = key ∧ (∀ y ∈ l₁, y.handlerIndex ≠ key) ∧
        unlinkCtlData key l = some (x, l₁ ++ l₂) ∧ searchDmassCtlData key l = some x ∧
        ∀ g, modCtlData key g l = l₁ ++ g x :: l₂ := by
  induction l with
  | nil => exact .inl ⟨rfl, rfl⟩
  | cons y l ih =>
    by_cases hy : key = y.handlerIndex
    · refine .inr ⟨[], y, l, rfl, hy.symm, nofun, ?_⟩
      simp [unlinkCtlData, searchDmassCtlData, modCtlData, hy]
    · rcases ih with ⟨h₁, h₂⟩ | ⟨l₁, x, l₂, rfl, hx, hl₁, h₁, h₂, h₃⟩
      · exact .inl ⟨by simp [unlinkCtlData, hy, h₁], by simp [searchDmassCtlData, hy, h₂]⟩
      · refine .inr ⟨y :: l₁, x, l₂, rfl, hx, ?_, ?_⟩
        · intro z hz
          rcases List.mem_cons.1 hz with rfl | hz
          · exact fun e => hy e.symm
          · exact hl₁ z hz
        · simp [unlinkCtlData, searchDmassCtlData, modCtlData, hy, h₁, h₂, h₃]

theorem search_isSome_iff {key : Int32} {l : List FapsDmassFsX} :
    (searchDmassCtlData key l).isSome ↔ 0 < l.countP fun x => x.handlerIndex = key := by
  induction l with
  | nil => simp [searchDmassCtlData]
  | cons x l ih =>
    unfold searchDmassCtlData
    by_cases hx : key = x.handlerIndex
    · rw [if_pos hx, List.countP_cons_of_pos (by simp [hx])]
      simp
    · rw [if_neg hx, ih, List.countP_cons_of_neg (by simpa using fun e => hx e.symm)]

/-- What a successful `vop_close` or `vop_dclose` has done to the entry `e`. -/
def HandleDropped (s s' : VfsState) (e : Addr) (key : Int32) : Prop :=
  ∃ f l₁ x l₂, s.entries.lookup e = some f ∧ f.pDmassFsX = l₁ ++ x :: l₂ ∧ x.handlerIndex = key ∧
    (∀ y ∈ l₁, y.handlerIndex ≠ key) ∧
    s' = (s.modEntry e fun f => { f with pDmassFsX := l₁ ++ l₂, refer := f.refer - 1 }).dmassFree (some x.addr)

theorem deleteDmassCtlData_ok {key : Int32} (h : deleteDmassCtlData e key s = .ok (r, s')) :
    (r < 0 ∧ s' = s) ∨ (r = 0 ∧ HandleDropped s s' e key) := by
  unfold deleteDmassCtlData at h
  rw [bind_eq_ok] at h
  obtain ⟨f, hf, h⟩ := h
  rcases unlinkCtlData_eq key f.pDmassFsX with ⟨hu, -⟩ | ⟨l₁, x, l₂, hl, hx, hl₁, hu, -⟩ <;>
    rw [hu] at h <;> cases h
  · exact .inl ⟨by decide, rfl⟩
  · exact .inr ⟨rfl, f, l₁, x, l₂, entry_eq_ok.1 hf, hl, hx, hl₁, rfl⟩

theorem vopDclose_ok {argp : SceVfsDclose} (h : vopDclose argp s = .ok (r, s')) : (r < 0 ∧ s' = s) ∨
    (r = 0 ∧ ∃ n e, s.vnodes.lookup argp.node = some n ∧ n.devInfo = some e ∧
      HandleDropped s s' e argp.pVfsFileObject.toInt32) := by
  unfold vopDclose at h
  rw [bind_eq_ok] at h
  obtain ⟨n, hn, h⟩ := h
  split at h
  · cases h; exact .inl ⟨by decide, rfl⟩
  rename_i e he
  rw [bind_eq_ok] at h
  obtain ⟨f, hf, h⟩ := h
  split at h
  · cases h; exact .inl ⟨by decide, rfl⟩
  rw [bind_eq_ok] at h
  obtain ⟨⟨res, s₁⟩, hdel, h⟩ := h
  rcases deleteDmassCtlData_ok hdel with ⟨hr, rfl⟩ | ⟨rfl, hd⟩
  · dsimp only at h
    rw [if_pos hr] at h
    cases h; exact .inl ⟨by decide, rfl⟩
  · cases h; exact .inr ⟨rfl, n, e, node_eq_ok.1 hn, he, hd⟩

theorem vopDread_ok {argp : SceVfsDread} {out : Option SceIoDirent} (h : vopDread argp s = .ok (r, out, s')) :
    (r ≤ 0 ∧ s' = s) ∨
      (r = 1 ∧ ∃ n e f l₁ x l₂ a c, s.vnodes.lookup argp.node = some n ∧ n.devInfo = some e ∧
        s.entries.lookup e = some f ∧ f.pDmassFsX = l₁ ++ x :: l₂ ∧
        x.handlerIndex = argp.pVfsFileObject.toInt32 ∧ x.current = some a ∧ s.entries.lookup a = some c ∧
        s' = s.modEntry e fun f => { f with pDmassFsX := l₁ ++ { x with current := c.next } :: l₂ }) := by
  unfold vopDread at h
  rw [bind_eq_ok] at h
  obtain ⟨n, hn, h⟩ := h
  split at h
  · cases h; exact .inl ⟨by decide, rfl⟩
  rename_i e he
  rw [bind_eq_ok] at h
  obtain ⟨f, hf, h⟩ := h
  rcases unlinkCtlData_eq argp.pVfsFileObject.toInt32 f.pDmassFsX with
    ⟨-, hu⟩ | ⟨l₁, x, l₂, hl, hx, -, -, hu, hm⟩ <;> rw [hu] at h
  · cases h; exact .inl ⟨by decide, rfl⟩
  dsimp only at h
  split at h
  · cases h; exact .inl ⟨by decide, rfl⟩
  rename_i a ha
  rw [bind_eq_ok] at h
  obtain ⟨c, hc, h⟩ := h
  split at h
  · cases h
  cases h
  rw [entry_eq_ok] at hf hc
  refine .inr ⟨rfl, n, e, f, l₁, x, l₂, a, c, node_eq_ok.1 hn, he, hf, hl, hx, ha, hc, ?_⟩
  simp only [modEntry, modifyAt, hf, hm]

theorem vopInactive_ok {argp : SceVopInactiveArgs} (h : vopInactive argp s = .ok (r, s')) :
    (r < 0 ∧ s' = s) ∨ (r = 0 ∧ ∃ v n, argp.node = some v ∧ s.vnodes.lookup v = some n ∧
      ((n.devInfo = none ∧ s' = s.modNode v fun n => { n with devInfo := none }) ∨
        ∃ e f, n.devInfo = some e ∧ s.entries.lookup e = some f ∧
          s' = (s.modEntry e fun f => { f with pNode := none }).modNode v fun n =>
            { n with devInfo := none })) := by
  unfold vopInactive at h
  split at h
  · cases h; exact .inl ⟨by decide, rfl⟩
  rename_i v hv
  rw [bind_eq_ok] at h
  obtain ⟨n, hn, h⟩ := h
  rw [node_eq_ok] at hn
  split at h
  · cases h; exact .inr ⟨rfl, v, n, hv, hn, .inl ⟨‹_›, rfl⟩⟩
  · rename_i e he
    rw [bind_eq_ok] at h
    obtain ⟨f, hf, h⟩ := h
    cases h
    exact .inr ⟨rfl, v, n, hv, hn, .inr ⟨e, f, he, entry_eq_ok.1 hf, rfl⟩⟩

/-! ### The mount -/

theorem setFsRoot_snd (e : Addr) (s : VfsState) :
    (setFsRoot e s).2 = { s with pTree := if s.pTree.isSome then s.pTree else some e } := by
  unfold setFsRoot
  split <;> rfl

theorem vfsSetRoot_ok {argp : Option SceVfsopSetRootArgs} (h : vfsSetRoot k argp s = .ok (r, s')) :
    (r < 0 ∧ s' = s) ∨ (r = 0 ∧ ∃ a m e leak name bufs n, argp = some a ∧
      NewBlocks k s mdName e leak name bufs ∧ s.vnodes.lookup a.pNode = some n ∧
      s' = { s with
        entries := s.entries.insert e { newDmassFs (SCE_S_IWUSR ||| SCE_S_IRUSR ||| SCE_S_IFDIR) k name with
          pNode := some a.pNode }
        bufs := bufs
        pTree := if s.pTree.isSome then s.pTree else some e
        vnodes := s.vnodes.insert a.pNode { n with
          devInfo := some e, mount := some m, prevNode := none, unk60 := 0, unk64 := 0,
          unk74 := 1, unk78 := 0x1002, stSize := 0, stAttr := 0, unk8C := 0 } }) := by
  unfold vfsSetRoot at h
  split at h
  · cases h
    exact .inl ⟨by decide, rfl⟩
  rename_i a
  split at h
  · cases h
    exact .inl ⟨by decide, rfl⟩
  rename_i m hm
  rcases createDmassInfo_cases (SCE_S_IWUSR ||| SCE_S_IRUSR ||| SCE_S_IFDIR) k mdName s with
    ⟨-, hc⟩ | ⟨-, e, leak, name, bufs, hB, -, hc⟩ <;> rw [createDmassDirInfo, hc] at h
  · cases h
    exact .inl ⟨by decide, rfl⟩
  dsimp only at h
  rw [bind_eq_ok] at h
  obtain ⟨n, hn, h⟩ := h
  rw [node_eq_ok] at hn
  rw [setFsRoot_snd] at h
  cases h
  refine .inr ⟨rfl, a, m, e, leak, name, bufs, n, rfl, hB, hn, ?_⟩
  unfold modNode modifyAt modEntry
  simp only [hn, modifyAt_insert]

theorem freshMount_ok (h : FreshMount s) : ∃ k v m s₀ e leak name bufs n, Unmounted s₀ ∧
    NewBlocks k s₀ mdName e leak name bufs ∧ s₀.vnodes.lookup v = some n ∧
    s.entries = Finmap.insert e { newDmassFs (SCE_S_IWUSR ||| SCE_S_IRUSR ||| SCE_S_IFDIR) k name with
      pNode := some v } ∅ ∧
    s.bufs = bufs ∧ s.pTree = some e ∧
    s.vnodes = s₀.vnodes.insert v { n with
      devInfo := some e, mount := some m, prevNode := none, unk60 := 0, unk64 := 0,
      unk74 := 1, unk78 := 0x1002, stSize := 0, stAttr := 0, unk8C := 0 } := by
  obtain ⟨k, argp, s₀, hU, h⟩ := h
  rcases vfsSetRoot_ok h with ⟨h0, -⟩ | ⟨-, a, m, e, leak, name, bufs, n, ha, hB, hn, rfl⟩
  · exact absurd h0 (lt_irrefl _)
  cases ha
  refine ⟨k, argp.pNode, m, s₀, e, leak, name, bufs, n, hU, hB, hn, ?_, rfl, ?_, rfl⟩
  · rw [← hU.entries]
  · dsimp only
    rw [hU.pTree]
    rfl

end VitaUtility.Dmass

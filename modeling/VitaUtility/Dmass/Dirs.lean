import VitaUtility.Dmass.Tree

/-!
# Only directories have children

`vop_mkdir` tests that the directory it is given is one. `vop_create` and `vop_rename` do not test it of
theirs, and `vop_remove`, which takes any regular file, does not look for children.
-/

namespace VitaUtility.Dmass
open VfsState

variable {s s' : VfsState} {k : Answers} {r : Int} {b d e : Addr} {v : NodePtr} {f : FapsDmassFs}

def dirView (f : FapsDmassFs) : UInt32 × Option Addr := (f.stat.stMode, f.nextDir)

def DirsOnly (s : VfsState) : Prop := ∀ b x, s.view dirView b = some x → x.2 ≠ none → isDir x.1

/-- What `s'` has of an entry, `s` has; but for `d` only the mode. -/
def KeptBut (d : Addr) (s s' : VfsState) : Prop :=
  ∀ b x, s'.view dirView b = some x → s.view dirView b = some x ∨
    (b = d ∧ ∃ y, s.view dirView d = some y ∧ x.1 = y.1)

theorem DirsOnly.of_keptBut (h : DirsOnly s) (hk : KeptBut d s s') (hd : s.entries.lookup d = some f)
    (hdir : isDir f.stat.stMode) : DirsOnly s' := by
  intro b x hx hne
  rcases hk b x hx with hx | ⟨rfl, y, hy, hxy⟩
  · exact h b x hx hne
  · obtain ⟨g, hg, rfl⟩ := view_eq_some.1 hy
    obtain rfl := Option.some.inj (hd.symm.trans hg)
    rw [hxy]
    exact hdir

theorem DirsOnly.of_view (h : DirsOnly s) (hv : ∀ b, s'.view dirView b = s.view dirView b) : DirsOnly s' := by
  intro b x hx
  rw [hv] at hx
  exact h b x hx

theorem keptBut_modEntry {q : Option Addr} : KeptBut d s (s.modEntry d fun f => { f with nextDir := q }) := by
  intro b x hx
  unfold view at hx
  rw [lookup_modEntry] at hx
  split at hx
  · subst b
    cases hg : s.entries.lookup d with
    | none =>
      rw [hg] at hx
      cases hx
    | some g =>
      rw [hg] at hx
      cases hx
      exact .inr ⟨rfl, dirView g, view_eq_some.2 ⟨g, hg, rfl⟩, rfl⟩
  · exact .inl hx

theorem keptBut_setLink {p q : Option Addr} : KeptBut d s (s.setLink d p q) := by
  cases p with
  | none => exact keptBut_modEntry
  | some a =>
    intro b x hx
    have hv : (s.setLink d (some a) q).view dirView b = s.view dirView b := view_modEntry fun _ => rfl
    rw [hv] at hx
    exact .inl hx

theorem keptBut_pushEntry : KeptBut d s (s.pushEntry d e) := by
  have hv : ∀ b, (s.modEntry e fun f => { f with next := s.head (some d) }).view dirView b = s.view dirView b :=
    fun b => view_modEntry fun _ => rfl
  intro b x hx
  rcases keptBut_modEntry b x hx with hx | ⟨hb, y, hy, hxy⟩
  · rw [hv] at hx
    exact .inl hx
  · rw [hv] at hy
    exact .inr ⟨hb, y, hy, hxy⟩

theorem dirsOnly_insert_new {mode : UInt32} {name : Option NameBlock} (h : DirsOnly s)
    (hs' : s'.entries = s.entries.insert e (newDmassFs mode k name)) : DirsOnly s' := by
  intro b x hx hne
  unfold view at hx
  rw [hs', lookup_insert_ite] at hx
  split at hx
  · cases hx
    exact absurd rfl hne
  · exact h b x hx hne

theorem dirsOnly_makeEntry {mode unk78 stAttr : UInt32} {fileInfo : SceVfsPath} {out : Option NodePtr}
    (h : DirsOnly s) (hv : s.entryOf v d f) (hdir : linksEntry k s fileInfo → isDir f.stat.stMode)
    (hs : makeEntry (createDmassInfo mode) unk78 stAttr k v fileInfo s = .ok (r, out, s')) : DirsOnly s' := by
  rcases makeEntry_cases hs with ⟨-, -, rfl⟩ | ⟨hlinks, e, leak, name, bufs, n, d', fd, hB, -, hn, hd', -, hs⟩
  · exact h
  obtain ⟨⟨m, hm, hmd⟩, hd⟩ := hv
  obtain rfl := Option.some.inj (hn.symm.trans hm)
  obtain rfl := Option.some.inj (hd'.symm.trans hmd)
  -- `d'` was live, so the new block is another one
  have hne : d' ≠ e := by
    rintro rfl
    exact hB.fresh (mem_live.2 (.inl (Finmap.mem_iff.2 ⟨f, hd⟩)))
  set s₁ : VfsState := { s with entries := s.entries.insert e (newDmassFs mode k name), bufs := bufs } with hs₁
  have hd₁ : s₁.entries.lookup d' = some f := by rw [hs₁, lookup_insert_ite, if_neg hne, hd]
  have h₁ : DirsOnly s₁ := dirsOnly_insert_new h rfl
  have h₂ : DirsOnly (s₁.pushEntry d' e) := h₁.of_keptBut keptBut_pushEntry hd₁ (hdir hlinks)
  rcases hs with ⟨-, -, vnodes, -, rfl⟩ | ⟨-, -, w, -, -, rfl⟩
  · exact h₂.of_view fun b => rfl
  · exact h₂.of_view fun b => view_modEntry (by intro; rfl)

/-- What the loops unlink is in a list, so the entry of the list is a directory. -/
theorem DirsOnly.unlink (h : DirsOnly s) (hL : Listed s) {p q : Option Addr} {a : Addr} {g : FapsDmassFs}
    (hd : s.entries.lookup d = some f) (he : s.entries.lookup e = some g)
    (hl : findEntryLink s d e = .ok (some (p, a))) : DirsOnly (s.setLink d p q) := by
  obtain ⟨hchild, -⟩ := hL.found hd he hl rfl
  obtain ⟨f', hf', hne⟩ := parent_live hchild
  obtain rfl := Option.some.inj (hd.symm.trans hf')
  exact h.of_keptBut keptBut_setLink hd (h d _ (view_eq_some.2 ⟨f, hd, rfl⟩) hne)

theorem dirsOnly_unlinkAndDelete (h : DirsOnly s) (hL : Listed s) (hs : unlinkAndDelete v e s = .ok (r, s')) :
    DirsOnly s' := by
  obtain ⟨n, d, fd, -, -, hd, ⟨-, -, rfl⟩ | ⟨pred, x, f, hl, hf, hs⟩⟩ := unlinkAndDelete_ok hs
  · exact h
  have h₁ : DirsOnly (s.setLink d pred f.next) := h.unlink hL hd hf hl
  obtain ⟨f', -, ⟨-, rfl, -⟩ | ⟨-, -, -, rfl⟩⟩ := deleteDmassInfo_ok hs
  · exact h₁
  · intro b x hx hne
    unfold view at hx
    dsimp only at hx
    rw [lookup_erase_ite] at hx
    split at hx
    · cases hx
    · exact h₁ b x hx hne

theorem isDir_of_type {m m' : UInt32} (h : m' &&& SCE_S_IFMT = m &&& SCE_S_IFMT) (hm : isDir m) : isDir m' :=
  h.trans hm

theorem DirsOnly.chmod (h : DirsOnly s) {f' : FapsDmassFs} (hf : s.entries.lookup e = some f)
    (hs' : s'.entries = s.entries.insert e f') (hd : f'.nextDir = f.nextDir)
    (hmode : f'.stat.stMode &&& SCE_S_IFMT = f.stat.stMode &&& SCE_S_IFMT) : DirsOnly s' := by
  intro b x hx hne
  unfold view at hx
  rw [hs', lookup_insert_ite] at hx
  split at hx
  · cases hx
    refine isDir_of_type hmode (h e (dirView f) (view_eq_some.2 ⟨f, hf, rfl⟩) ?_)
    intro hnone
    exact hne (hd.trans hnone)
  · exact h b x hx hne

theorem dirsOnly_rename {argp : SceVopRenameArgs} {out : Option NodePtr} (h : DirsOnly s) (hL : Listed s)
    (hv : s.entryOf argp.node3 d f) (hdir : movesEntry k s argp → isDir f.stat.stMode)
    (hs : vopRename k argp s = .ok (r, out, s')) : DirsOnly s' := by
  rcases vopRename_ok hs with ⟨-, vnodes, -, rfl⟩ |
    ⟨-, hmoves, n, d₁, fd, e, f₁, pred, x, w, n3, d3, fd3, v, old, name, hn⟩
  · exact h.of_view fun b => rfl
  obtain ⟨-, -, hd, -, hf, hl, -, -, hn3, hd3, hfd3, -, -, -, rfl⟩ := hn
  have h₁ : DirsOnly (s.setLink d₁ pred f₁.next) := h.unlink hL hd hf hl
  obtain ⟨⟨m, hm, hmd⟩, hf'⟩ := hv
  obtain rfl := Option.some.inj (hn3.symm.trans hm)
  obtain rfl := Option.some.inj (hd3.symm.trans hmd)
  have hmode : fd3.stat.stMode = f.stat.stMode := by
    have hview : (s.setLink d₁ pred f₁.next).view (fun f => f.stat.stMode) d3 = s.view (fun f => f.stat.stMode) d3 :=
      view_setLink (fun _ _ => rfl) fun _ _ => rfl
    unfold view at hview
    rw [hfd3, hf'] at hview
    exact Option.some.inj hview
  have hdir3 : isDir fd3.stat.stMode := by
    rw [hmode]
    exact hdir hmoves
  have h₂ : DirsOnly ((s.setLink d₁ pred f₁.next).pushEntry d3 e) := h₁.of_keptBut keptBut_pushEntry hfd3 hdir3
  exact h₂.of_view fun b => view_modEntry (by intro; rfl)

/-! ### Runs -/

/-- The calls that change the namespace or a mode, through vnodes of live entries. -/
def nsCall (call : VopCall) (s : VfsState) : Prop :=
  match call with
  | .create _ argp => s.liveNode argp.pNode
  | .mkdir _ argp => s.liveNode argp.node
  | .remove argp => s.liveNode argp.node
  | .rmdir argp => s.liveNode argp.node
  | .rename _ argp => s.liveNode argp.node ∧ s.liveNode argp.node3
  | .chstat .. => True
  | _ => False

/-- When `vop_create` or `vop_rename` links an entry, the vnode it links it under is of a directory. -/
def parentIsDir (call : VopCall) (s : VfsState) : Prop :=
  match call with
  | .create k argp => linksEntry k s argp.fileInfo → ∀ f ∈ s.entryAt argp.pNode, isDir f.stat.stMode
  | .rename k argp => movesEntry k s argp → ∀ f ∈ s.entryAt argp.node3, isDir f.stat.stMode
  | _ => True

instance (call : VopCall) (s : VfsState) : Decidable (nsCall call s) := by
  unfold nsCall; split <;> infer_instance

instance (call : VopCall) (s : VfsState) : Decidable (parentIsDir call s) := by
  unfold parentIsDir; split <;> infer_instance

theorem dirsOnly_step {call : VopCall} (h : DirsOnly s) (hL : Listed s) (hc : nsCall call s)
    (hdir : parentIsDir call s) (hs : VopStep s call r s') : DirsOnly s' := by
  unfold VopStep at hs
  cases call with
  | create k argp =>
    obtain ⟨d, f, hv⟩ := hc
    obtain ⟨out, hs⟩ := dropOut_eq_ok.1 hs
    exact dirsOnly_makeEntry h hv (fun hlinks => hdir hlinks f (entryAt_eq_some.2 ⟨d, hv⟩)) hs
  | mkdir k argp =>
    obtain ⟨out, hs⟩ := dropOut_eq_ok.1 hs
    rcases vopMkdir_ok hs with ⟨-, rfl⟩ | ⟨n, d, f, hn, hd, hf, hdir, hs⟩
    · exact h
    · exact dirsOnly_makeEntry h ⟨⟨n, hn, hd⟩, hf⟩ (fun _ => hdir) hs
  | remove argp =>
    rcases vopRemove_ok hs with ⟨-, rfl⟩ | ⟨e, f, -, -, -, hs⟩
    · exact h
    · exact dirsOnly_unlinkAndDelete h hL hs
  | rmdir argp =>
    rcases vopRmdir_ok hs with ⟨-, rfl⟩ | ⟨e, f, -, -, -, -, hs⟩
    · exact h
    · exact dirsOnly_unlinkAndDelete h hL hs
  | rename k argp =>
    obtain ⟨-, d, f, hv⟩ := hc
    obtain ⟨out, hs⟩ := dropOut_eq_ok.1 hs
    exact dirsOnly_rename h hL hv (fun hmoves => hdir hmoves f (entryAt_eq_some.2 ⟨d, hv⟩)) hs
  | chstat k argp =>
    rcases vopChstat_ok hs with ⟨-, rfl⟩ | ⟨e, -, hs⟩
    · exact h
    obtain ⟨f, mode, hf, hm, ⟨times, ht, -, -, rfl⟩ | ⟨-, -, n, data, bufs, times, -, ht, -, -, rfl⟩⟩ :=
      chstatEntry_ok hs
    · exact h.chmod hf rfl rfl (by dsimp only; rw [ht, hm])
    · exact h.chmod hf rfl rfl (by dsimp only; rw [ht, hm])
  | _ => exact hc.elim

theorem dirsOnly_freshMount (h : FreshMount s) : DirsOnly s := by
  obtain ⟨k, v, m, s₀, e, leak, name, bufs, n, -, -, -, hent, -⟩ := freshMount_ok h
  intro b x hx hne
  unfold view at hx
  rw [hent, lookup_insert_ite] at hx
  split at hx
  · cases hx
    exact absurd rfl hne
  · cases hx

/-- An entry without children has been freed, and every other entry that directories led to is still there. -/
structure OneFreed (s t : VfsState) (e : Addr) : Prop where
  keys : t.entries.keys = s.entries.keys.erase e
  childless : ∀ a, ¬ s.child (some e) a
  reach : ∀ a, Reachable s a → a ≠ e → Reachable t a

theorem oneFreed_unlinkAndDelete (hL : Listed s) (hf : s.entries.lookup e = some f) (hnone : f.nextDir = none)
    (hs : unlinkAndDelete v e s = .ok (0, s')) : OneFreed s s' e := by
  obtain ⟨-, hkeys, hch⟩ := unlinkAndDelete_freed hL hs
  have hleaf : ∀ a, ¬ s.child (some e) a := fun a => leaf_of_nextDir hf hnone
  have hE : (ptrGraph s).Erase (ptrGraph s') e := by
    refine ⟨fun x a _ hx => ?_, hleaf, fun _ _ _ _ _ => rfl⟩
    show s'.child x a ↔ s.child x a ∧ a ≠ e
    rw [hch]
    simp [hx]
  refine ⟨hkeys, hleaf, fun a ha hne => hE.open_iff.2 ⟨ha, ?_⟩⟩
  intro h
  exact hne (Option.some.inj h)

/-- Only directories have children, and a successful `vop_remove` loses no entry but the one it frees. -/
structure OnlyDirsHaveChildren (s : VfsState) : Prop where
  dirs : ∀ e f, s.entries.lookup e = some f → f.nextDir ≠ none → isDir f.stat.stMode
  remove : ∀ argp t, vopRemove argp s = .ok (0, t) → ∃ e, OneFreed s t e

theorem not_isDir_of_isReg {m : UInt32} (h : isReg m) : ¬ isDir m := by
  intro hd
  exact absurd (h.symm.trans hd) (by decide)

theorem DirsOnly.onlyDirsHaveChildren (h : DirsOnly s) (hL : Listed s) : OnlyDirsHaveChildren s := by
  have hdirs : ∀ e f, s.entries.lookup e = some f → f.nextDir ≠ none → isDir f.stat.stMode := by
    intro e f hf
    exact h e (dirView f) (view_eq_some.2 ⟨f, hf, rfl⟩)
  refine ⟨hdirs, fun argp t hs => ?_⟩
  rcases vopRemove_ok hs with ⟨h0, -⟩ | ⟨e, f, -, hf, hreg, hs⟩
  · exact absurd h0 (lt_irrefl _)
  refine ⟨e, oneFreed_unlinkAndDelete hL hf ?_ hs⟩
  by_contra hne
  exact not_isDir_of_isReg hreg (hdirs e f hf hne)

theorem onlyDirsHaveChildren_run {ls : List (VopCall × Int)} (h0 : FreshMount s)
    (h : VopRun (fun call _ s => nsCall call s ∧ parentIsDir call s) s ls s') : OnlyDirsHaveChildren s' := by
  have hstep : ∀ s call r s', DirsOnly s ∧ Listed s → nsCall call s ∧ parentIsDir call s →
      VopStep s call r s' → DirsOnly s' ∧ Listed s' := by
    rintro s call r s' ⟨hD, hL⟩ ⟨hc, hdir⟩ hs
    exact ⟨dirsOnly_step hD hL hc hdir hs, listed_step hL hs⟩
  obtain ⟨hD, hL⟩ := h.invariant hstep ⟨dirsOnly_freshMount h0, listed_freshMount h0⟩
  exact hD.onlyDirsHaveChildren hL

/-- Make a directory and a file, and remove the file. -/
def dirAndFile : List VopCall :=
  [.mkdir idle ⟨0, inRoot chA⟩, .create idle ⟨0, inRoot chB⟩, .remove ⟨0, inRoot chB⟩]

theorem onlyDirsHaveChildren_run_dirAndFile : OnlyDirsHaveChildren (lastState dirAndFile mounted) := by
  have hok : okRun (fun call _ s => nsCall call s ∧ parentIsDir call s) dirAndFile mounted = true := by decide +kernel
  obtain ⟨ls, h⟩ := okRun_run hok
  exact onlyDirsHaveChildren_run freshMount_mounted h

/-- Create the file `/md/a`, then the file `/md/a/b` in it. -/
def fileInFile : List VopCall :=
  [.create idle ⟨0, inRoot chA⟩, .create idle ⟨1, [chB], some (slash :: mdName ++ [slash, chA, slash, chB])⟩]

theorem not_onlyDirsHaveChildren_fileInFile :
    FreshMount mounted ∧
      (∃ ls, VopRun (fun call _ s => nsCall call s) mounted ls (lastState fileInFile mounted)) ∧
      ¬ OnlyDirsHaveChildren (lastState fileInFile mounted) := by
  refine ⟨freshMount_mounted, okRun_run (by decide +kernel), fun h => ?_⟩
  have hv : (lastState fileInFile mounted).view dirView 4 =
      some (SCE_S_IWUSR ||| SCE_S_IRUSR ||| SCE_S_IFREG, some 7) := by decide +kernel
  obtain ⟨f, hf, hx⟩ := view_eq_some.1 hv
  obtain ⟨hmode, hkids⟩ := Prod.mk.inj hx
  have hdir := h.dirs 4 f hf (by rw [hkids]; nofun)
  rw [hmode] at hdir
  exact absurd hdir (by decide)

end VitaUtility.Dmass

import VitaUtility.Dmass.Lookup

/-!
# Mounting again

`set_fs_root` takes the first root it is given and refuses every later one; `vfs_set_root` does not look at its
answer. So each mount but the first makes a root entry that its vnode points at and that no path leads to.
-/

namespace VitaUtility.Dmass
open VfsState

variable {s s₀ s' : VfsState} {k : Answers} {r : Int} {v : NodePtr}

/-- The calls of the `vfs_*` table that mount and unmount. -/
inductive MountCall where
  | mount
  | setRoot (k : Answers) (argp : Option SceVfsopSetRootArgs)
  | umount

def MountCall.exec (s : VfsState) : MountCall → Except Fault (Int × VfsState)
  | .mount => .ok (vfsMountFunc s)
  | .setRoot k argp => vfsSetRoot k argp s
  | .umount => .ok (vfsUmountFunc s)

/-- A run of such calls, labelled with what they return. -/
def MountRun : VfsState → List (MountCall × Int) → VfsState → Prop :=
  Run fun s l s' => l.1.exec s = .ok (l.2, s')

/-- The call has set a root. -/
def setsRoot : MountCall × Int → Prop
  | (.setRoot .., r) => r = 0
  | _ => False

theorem newRoot_vfsSetRoot {argp : Option SceVfsopSetRootArgs} (h : vfsSetRoot k argp s = .ok (r, s')) :
    (r < 0 ∧ s' = s) ∨ (r = 0 ∧ ∃ a e f, argp = some a ∧ e ∉ s.live ∧ f.next = none ∧ f.nextDir = none ∧
      s'.entries = s.entries.insert e f ∧ s'.pTree = (if s.pTree.isSome then s.pTree else some e) ∧
      s'.devInfo a.pNode = some e) := by
  rcases vfsSetRoot_ok h with hfail | ⟨hr, a, m, e, leak, name, bufs, n, ha, hB, hn, rfl⟩
  · exact .inl hfail
  refine .inr ⟨hr, a, e, _, ha, hB.fresh, ?_, ?_, rfl, rfl, ?_⟩
  · rfl
  · rfl
  · exact (devInfo_insert rfl rfl).trans (if_pos rfl)

/-- `e` is a directory without siblings and without children. -/
def Alone (s : VfsState) (e : Addr) : Prop := ∃ f, s.entries.lookup e = some f ∧ f.next = none ∧ f.nextDir = none

theorem Alone.live (h : Alone s e) : e ∈ s.live := by
  obtain ⟨f, hf, -⟩ := h
  exact mem_live.2 (.inl (Finmap.mem_iff.2 ⟨f, hf⟩))

/-- No root has been set, or the first one is still the entry that `get_fs_entry` starts from. -/
def Rooted (ls : List (MountCall × Int)) (s : VfsState) : Prop :=
  ((∀ l ∈ ls, ¬ setsRoot l) ∧ Unmounted s) ∨ ((∃ l ∈ ls, setsRoot l) ∧ ∃ e, Alone s e ∧ s.pTree = some e)

theorem rooted_run {ls : List (MountCall × Int)} (h0 : Unmounted s₀) (h : MountRun s₀ ls s) : Rooted ls s := by
  induction h with
  | nil => exact .inl ⟨nofun, h0⟩
  | @snoc s s' ls l _ hl ih =>
    -- a call that has set no root has changed nothing
    have hkeep : ¬ setsRoot l → s' = s → Rooted (ls ++ [l]) s' := by
      rintro hno rfl
      rcases ih with ⟨hnone, hU⟩ | ⟨⟨l', hl', hset⟩, hroot⟩
      · refine .inl ⟨fun l' hl' => ?_, hU⟩
        rcases List.mem_append.1 hl' with hl' | hl'
        · exact hnone l' hl'
        · rwa [List.mem_singleton.1 hl']
      · exact .inr ⟨⟨l', List.mem_append_left _ hl', hset⟩, hroot⟩
    obtain ⟨call, r⟩ := l
    cases call with
    | mount =>
      cases hl
      exact hkeep id rfl
    | umount =>
      cases hl
      exact hkeep id rfl
    | setRoot k argp =>
      rcases newRoot_vfsSetRoot hl with ⟨hr, hs'⟩ | ⟨hr, a, e, f, -, he, hnext, hdir, hent, hp, -⟩
      · exact hkeep (fun h0 : r = 0 => absurd h0 hr.ne) hs'
      refine .inr ⟨⟨_, List.mem_append_right _ (List.mem_singleton_self _), hr⟩, ?_⟩
      rcases ih with ⟨-, hU⟩ | ⟨-, e₀, he₀, hp₀⟩
      · refine ⟨e, ⟨f, ?_, hnext, hdir⟩, by rw [hp, hU.pTree]; rfl⟩
        rw [hent, lookup_insert_ite, if_pos rfl]
      · have hne : e₀ ≠ e := by
          rintro rfl
          exact he he₀.live
        obtain ⟨f₀, hf₀, halone⟩ := he₀
        refine ⟨e₀, ⟨f₀, ?_, halone⟩, by rw [hp, hp₀]; rfl⟩
        rw [hent, lookup_insert_ite, if_neg hne, hf₀]

/-! ### The two roots -/

/-- `"/md/<name>"` -/
def inMd (name : CStr) : SceVfsPath := ⟨name, some (slash :: mdName ++ slash :: name)⟩

/-- The entry of the vnode `v` is the one that `get_fs_entry` starts from. -/
def RootAgrees (s : VfsState) (v : NodePtr) : Prop := ∃ e, s.devInfo v = some e ∧ s.pTree = some e

/-- The path leads to the entry of the vnode `w`. -/
def FoundAt (s : VfsState) (w : NodePtr) (path : Option CStr) : Prop := ∃ e, s.devInfo w = some e ∧ Resolves s path e

theorem nameOf_of_peekName {rest : CStr} {len : Nat} {z : Bool × Option Addr}
    (h : peekName s rest len e = .ok z) : s.nameOf e ≠ none := by
  unfold peekName at h
  rw [bind_eq_ok] at h
  obtain ⟨f, hf, h⟩ := h
  split at h
  · cases h
  rename_i b hb
  rw [nameOf_eq_some.2 ⟨f, b, entry_eq_ok.1 hf, hb, rfl⟩]
  nofun

theorem md_component (name : CStr) : (mdName ++ slash :: name).takeWhile (· ≠ slash) = mdName ∧
    (mdName ++ slash :: name).dropWhile (· ≠ slash) = slash :: name := by
  constructor <;> rfl

/-- The first round of every resolution in `/md`. -/
theorem getFsEntry_md (name : CStr) : getFsEntry (inMd name).path s = (do
    match ← findLink (peekName s (mdName ++ slash :: name) mdName.length) .hang s.entries.keys.card none s.pTree with
    | none => return .error (sceError 0x80010002)
    | some (_, e) =>
    let f ← s.entry e
    getFsEntryLoop s (mdName ++ slash :: name).length (slash :: name) f.nextDir) := by
  have hslash : (slash :: mdName ++ slash :: name).head? = some slash := rfl
  unfold inMd getFsEntry getFsEntryInternal
  dsimp only
  rw [if_neg (not_not.2 hslash)]
  show getFsEntryLoop s ((mdName ++ slash :: name).length + 1) (slash :: (mdName ++ slash :: name)) s.pTree = _
  rw [getFsEntryLoop_round (md_component name).1, (md_component name).2]
  rfl

/-- A root directory whose name could not be copied is not searched. -/
theorem named_root {name : CStr} {x : Except Int (Option Addr)} (hp : s.pTree = some e)
    (h : getFsEntry (inMd name).path s = .ok x) : s.nameOf e ≠ none := by
  rw [getFsEntry_md, hp, bind_eq_ok] at h
  obtain ⟨y, hy, -⟩ := h
  obtain ⟨z, hz⟩ := findLink_peek hy
  exact nameOf_of_peekName hz

/-- A directory without children has nothing to find. -/
theorem getFsEntryLoop_none {fuel : Nat} {name : CStr} :
    getFsEntryLoop s (fuel + 1) (slash :: name) none ≠ .ok (.ok (some e)) := by
  rw [getFsEntryLoop_round rfl]
  split
  · nofun
  · cases s.entries.keys.card <;> nofun

/-- Nothing is found below a root directory without children. -/
theorem not_resolves_md {name : CStr} {e₀ : Addr} (hp : s.pTree = some e₀) (h : Alone s e₀) :
    ¬ Resolves s (inMd name).path e := by
  obtain ⟨f, hf, hnext, hdir⟩ := h
  intro hpath
  unfold Resolves at hpath
  rw [getFsEntry_md, hp, bind_eq_ok] at hpath
  obtain ⟨y, hy, hpath⟩ := hpath
  have hK : Chain s.next? (some e₀) [e₀] := ⟨rfl, none, by unfold next?; rw [hf, Option.map_some, hnext], rfl⟩
  cases y with
  | none => cases hpath
  | some y =>
    obtain ⟨p, a⟩ := y
    have ha := findLink_mem hK (fun _ _ _ => next?_of_peekName) hy
    obtain rfl := List.mem_singleton.1 ha
    dsimp only at hpath
    rw [bind_eq_ok] at hpath
    obtain ⟨g, hg, hpath⟩ := hpath
    obtain rfl := Option.some.inj (hf.symm.trans (entry_eq_ok.1 hg))
    rw [hdir] at hpath
    exact getFsEntryLoop_none hpath

/-- What `vop_create` makes in another directory leaves the root directory as it is. -/
theorem alone_linked {mode : UInt32} {name : Option NameBlock} {bufs : Finset Addr} {fd : FapsDmassFs} {t : VfsState}
    {d e₀ : Addr} (he : e ∉ s.live) (hd : (withEntry s k mode name e bufs).entries.lookup d = some fd)
    (hlink : Linked (withEntry s k mode name e bufs) t d e) (hne : e₀ ≠ d) (h₀ : Alone s e₀) : Alone t e₀ := by
  have he₀ : e₀ ≠ e := by
    rintro rfl
    exact he h₀.live
  obtain ⟨f, hf, hnext, hdir⟩ := h₀
  have hview : t.view linkView e₀ = s.view linkView e₀ := by
    rw [hlink.view_push (by intros; rfl)]
    unfold pushEntry view withEntry
    rw [lookup_modEntry, if_neg hne, lookup_modEntry, if_neg he₀, lookup_insert_ite, if_neg he₀]
  unfold view at hview
  rw [hf] at hview
  obtain ⟨g, hg, hlinks⟩ := Option.map_eq_some_iff.1 hview
  obtain ⟨h₁, h₂⟩ := Prod.mk.inj hlinks
  exact ⟨g, hg, h₁.trans hnext, h₂.trans hdir⟩

theorem nameOf_freshMount (h : FreshMount s) (hp : s.pTree = some e) (hne : s.nameOf e ≠ none) :
    s.nameOf e = some mdName := by
  obtain ⟨k, v, m, s₀, e', leak, name, bufs, n, -, hB, -, hent, -, hp', -⟩ := freshMount_ok h
  obtain rfl := Option.some.inj (hp.symm.trans hp')
  have hname : s.nameOf e = name.map (·.str) := by
    unfold nameOf view
    rw [hent, lookup_insert_ite, if_pos rfl]
    rfl
  rw [hname] at hne ⊢
  rcases hB.kept with ⟨rfl, -⟩ | ⟨b, -, -, -, rfl, -⟩
  · exact absurd rfl hne
  · rfl

theorem foundAt_freshMount {name : CStr} {w : NodePtr} {t : VfsState} (h : FreshMount s) (hv : RootAgrees s v)
    (hs : vopCreate k ⟨v, inMd name⟩ s = .ok (0, some w, t)) :
    FoundAt t w (inMd name).path ↔ slash ∉ name ∧ nameKept k s.live := by
  obtain ⟨e, hv, hp⟩ := hv
  obtain ⟨x, hx⟩ : ∃ x, getFsEntry (inMd name).path s = .ok x := by
    unfold vopCreate makeEntry at hs
    rw [bind_eq_ok] at hs
    obtain ⟨x, hx, -⟩ := hs
    exact ⟨x, hx⟩
  have hname := nameOf_freshMount h hp (named_root hp hx)
  have hW : WellFormed s := by
    refine wellFormed_freshMount h fun e' he' => ?_
    rwa [← Option.some.inj (hp.symm.trans he')]
  obtain ⟨e', hp', hK, -⟩ := kids_freshMount h
  obtain rfl := Option.some.inj (hp.symm.trans hp')
  have hmd : ∀ c ∈ [mdName], IsName c := by
    intro c hc
    rw [List.mem_singleton.1 hc]
    exact ⟨by decide, by decide⟩
  have hroot : Resolves s (some (slash :: mdName)) e :=
    (hW.resolves_pathStr hmd).2 ⟨e, (child_iff hK).2 (List.mem_singleton_self e), hname, rfl⟩
  obtain ⟨e', hw, hpath⟩ := resolves_makeEntry hW hv hroot hs
  rw [← hpath]
  constructor
  · rintro ⟨e'', hw', hres⟩
    obtain rfl := Option.some.inj (hw.symm.trans hw')
    exact hres
  · exact fun hres => ⟨e', hw, hres⟩

theorem rootAgrees_iff {ls : List (MountCall × Int)} {argp : SceVfsopSetRootArgs} (h0 : Unmounted s₀)
    (hrun : MountRun s₀ ls s) (hs : vfsSetRoot k (some argp) s = .ok (0, s')) :
    (RootAgrees s' argp.pNode ↔ ∀ l ∈ ls, ¬ setsRoot l) ∧
    ∀ k name w t, vopCreate k ⟨argp.pNode, inMd name⟩ s' = .ok (0, some w, t) →
      (FoundAt t w (inMd name).path ↔ (∀ l ∈ ls, ¬ setsRoot l) ∧ slash ∉ name ∧ nameKept k s'.live) := by
  rcases newRoot_vfsSetRoot hs with ⟨hr, -⟩ | ⟨-, a, e, f, ha, he, -, -, hent, hp, hv⟩
  · exact absurd hr (lt_irrefl _)
  obtain rfl := Option.some.inj ha
  rcases rooted_run h0 hrun with ⟨hnone, hU⟩ | ⟨⟨l, hl, hset⟩, e₀, he₀, hp₀⟩
  · have hA : RootAgrees s' argp.pNode := ⟨e, hv, by rw [hp, hU.pTree]; rfl⟩
    refine ⟨iff_of_true hA hnone, fun k' name w t hc => ?_⟩
    rw [foundAt_freshMount ⟨k, argp, s, hU, hs⟩ hA hc]
    exact (and_iff_right hnone).symm
  · -- the entry of the new vnode is new, and `pTree` has stayed
    have hne : e₀ ≠ e := by
      rintro rfl
      exact he he₀.live
    have hp' : s'.pTree = some e₀ := by rw [hp, hp₀]; rfl
    refine ⟨iff_of_false ?_ fun hno => hno l hl hset, fun k' name w t hc => iff_of_false ?_ fun h => h.1 l hl hset⟩
    · rintro ⟨e', he', hp''⟩
      obtain rfl := Option.some.inj (hv.symm.trans he')
      exact hne (Option.some.inj (hp'.symm.trans hp''))
    · rintro ⟨e', -, hpath⟩
      have hkeep : Alone s' e₀ := by
        obtain ⟨f₀, hf₀, halone⟩ := he₀
        exact ⟨f₀, by rw [hent, lookup_insert_ite, if_neg hne, hf₀], halone⟩
      rcases makeEntry_cases hc with ⟨-, hr, -⟩ | ⟨hlinks, -⟩
      · exact absurd hr (lt_irrefl _)
      obtain ⟨e₁, nm, bufs, d, fd, hfresh, hd, hfd, hlink, hpt, -⟩ := makeEntry_linked hc hlinks
      obtain rfl := Option.some.inj (hv.symm.trans hd)
      exact not_resolves_md (hpt.trans hp') (alone_linked hfresh hfd hlink hne hkeep) hpath

/-- Two fresh vnodes, for the roots of two mounts. -/
def twoNodes : VfsState := { unmounted with vnodes := Finmap.insert 1 {} unmounted.vnodes }

theorem unmounted_twoNodes : Unmounted twoNodes := by
  refine ⟨rfl, rfl, rfl, fun v n hn => ?_⟩
  unfold twoNodes unmounted at hn
  rw [lookup_insert_ite, lookup_insert_ite] at hn
  split at hn
  · cases hn
    rfl
  · split at hn <;> cases hn
    rfl

/-- The state after a `vfs_set_root` with the vnode `v`. -/
def rootSet (v : NodePtr) (s : VfsState) : VfsState :=
  match vfsSetRoot idle (some ⟨some 0, v⟩) s with
  | .ok (_, s) => s
  | .error _ => s

theorem rootAgrees_iff_once : RootAgrees (rootSet 0 twoNodes) 0 ∧
    FoundAt (lastState [.create idle ⟨0, inMd [chA]⟩] (rootSet 0 twoNodes)) 1 (inMd [chA]).path := by
  have hrun : MountRun twoNodes [(.mount, 0), (.umount, 0)] twoNodes :=
    (Run.nil _).snoc (l := (MountCall.mount, 0)) rfl |>.snoc (l := (MountCall.umount, 0)) rfl
  have hset : vfsSetRoot idle (some ⟨some 0, 0⟩) twoNodes = .ok (0, rootSet 0 twoNodes) := rfl
  have hcreate : vopCreate idle ⟨0, inMd [chA]⟩ (rootSet 0 twoNodes) = .ok (0, some 1, _) :=
    lastState_out (.create idle ⟨0, inMd [chA]⟩) rfl (by decide +kernel)
  have hno : ∀ l ∈ [((.mount, 0) : MountCall × Int), (.umount, 0)], ¬ setsRoot l := by
    intro l hl
    rcases List.mem_pair.1 hl with rfl | rfl <;> exact id
  have h := rootAgrees_iff unmounted_twoNodes hrun hset
  exact ⟨h.1.2 hno, (h.2 idle [chA] 1 _ hcreate).2 ⟨hno, by decide, nameKept_idle _⟩⟩

/-- After an unmount and a mount on a fresh vnode, the vnode has a root of its own. -/
theorem not_rootAgrees_again : ∃ s s' t w, Unmounted twoNodes ∧
    MountRun twoNodes [(.setRoot idle (some ⟨some 0, 0⟩), 0), (.umount, 0)] s ∧ s.devInfo 1 = none ∧
    vfsSetRoot idle (some ⟨some 0, 1⟩) s = .ok (0, s') ∧ ¬ RootAgrees s' 1 ∧
    vopCreate idle ⟨1, inMd [chA]⟩ s' = .ok (0, some w, t) ∧ ¬ FoundAt t w (inMd [chA]).path := by
  have hcreate : vopCreate idle ⟨1, inMd [chA]⟩ (rootSet 1 (rootSet 0 twoNodes)) = .ok (0, some 2, _) :=
    lastState_out (.create idle ⟨1, inMd [chA]⟩) rfl (by decide +kernel)
  refine ⟨rootSet 0 twoNodes, rootSet 1 (rootSet 0 twoNodes), _, 2, unmounted_twoNodes, ?_, by decide +kernel, rfl, ?_,
    hcreate, ?_⟩
  · exact (Run.nil _).snoc (l := (MountCall.setRoot idle (some ⟨some 0, 0⟩), 0)) rfl
      |>.snoc (l := (MountCall.umount, 0)) rfl
  · rintro ⟨e, he, hp⟩
    have hne : (rootSet 1 (rootSet 0 twoNodes)).devInfo 1 ≠ (rootSet 1 (rootSet 0 twoNodes)).pTree := by
      decide +kernel
    exact hne (he.trans hp.symm)
  · rintro ⟨e, -, hpath⟩
    have hno : getFsEntry (inMd [chA]).path
        (lastState [.create idle ⟨1, inMd [chA]⟩] (rootSet 1 (rootSet 0 twoNodes))) =
        .ok (.error (sceError 0x80010002)) := by decide +kernel
    cases hno.symm.trans hpath

end VitaUtility.Dmass

import VitaUtility.Dmass.Paths
import VitaUtility.Dmass.Vnodes

/-!
# What a failed removal has done

`vop_remove` and `vop_rmdir` take the entry out of its sibling list and then ask `delete_dmass_info` to free it,
which refuses while the entry has handles. The call then returns an error, but the entry is out of the list.
-/

namespace VitaUtility.Dmass
open VfsState

variable {s s₀ s' : VfsState} {r : Int} {d e : Addr} {v : NodePtr} {f : FapsDmassFs} {path : Option CStr}

/-- The sibling lists are unchanged, the path leads where it led, and no live entry has become unreachable. -/
structure InPlace (s s' : VfsState) (path : Option CStr) : Prop where
  kids : ∀ x l, s'.Kids x l ↔ s.Kids x l
  path : ∀ a, Resolves s' path a ↔ Resolves s path a
  reach : ∀ a ∈ s'.entries.keys, Reachable s a → Reachable s' a

theorem InPlace.refl : InPlace s s path := ⟨fun _ _ => Iff.rfl, fun _ => Iff.rfl, fun _ _ => id⟩

/-- `e` is a child of the entry of `v`, and still has handles. -/
def Busy (s : VfsState) (v : NodePtr) (e : Addr) : Prop :=
  ∃ d f, s.devInfo v = some d ∧ s.child (some d) e ∧ s.entries.lookup e = some f ∧ (f.refer ≠ 0 ∨ f.pDmassFsX ≠ [])

/-- The path is of a file, which `vop_remove` unlinks. -/
def fileAt (s : VfsState) (path : Option CStr) (e : Addr) : Prop :=
  Resolves s path e ∧ ∃ f, s.entries.lookup e = some f ∧ isReg f.stat.stMode

/-- The path is of a directory without children, which `vop_rmdir` unlinks. -/
def emptyDirAt (s : VfsState) (path : Option CStr) (e : Addr) : Prop :=
  Resolves s path e ∧ ∃ f, s.entries.lookup e = some f ∧ f.nextDir = none ∧ isDir f.stat.stMode

theorem inPlace_unlinkAndDelete (hL : Listed s) (hr : r < 0) (hs : unlinkAndDelete v e s = .ok (r, s')) :
    InPlace s s' path ↔ ¬ Busy s v e := by
  obtain ⟨n, d, fd, hn, hd, hfd, ⟨-, hno, rfl⟩ | ⟨pred, x, f, hl, hf, hs⟩⟩ := unlinkAndDelete_ok hs
  · refine iff_of_true .refl ?_
    rintro ⟨d', f, hd', hchild, -⟩
    obtain rfl := Option.some.inj ((devInfo_eq_some.2 ⟨n, hn, hd⟩).symm.trans hd')
    obtain ⟨l, hK⟩ := hL.kids (some d)
    exact not_child_of_findEntryLink hK hno hchild
  obtain ⟨hchild, -, hch⟩ := hL.found hfd hf hl rfl
  obtain ⟨f', hf', ⟨-, rfl, hbusy⟩ | ⟨h0, -⟩⟩ := deleteDmassInfo_ok hs
  swap
  · exact absurd h0 hr.ne
  have hview : (s.setLink d pred f.next).view (fun f => (f.refer, f.pDmassFsX)) e =
      s.view (fun f => (f.refer, f.pDmassFsX)) e := view_setLink (by intros; rfl) (by intros; rfl)
  unfold view at hview
  rw [hf, hf'] at hview
  obtain ⟨hrefer, hhandles⟩ := Prod.mk.inj (Option.some.inj hview)
  refine iff_of_false (fun hI => ?_) fun hno => hno ⟨d, f, devInfo_eq_some.2 ⟨n, hn, hd⟩, hchild, hf, ?_⟩
  · -- `e` is not in the list any more
    obtain ⟨l, hK, hel⟩ := hchild
    have hgone : (s.setLink d pred f.next).child (some d) e := ⟨l, (hI.kids _ _).2 hK, hel⟩
    exact ((hch _ e).1 hgone).2 rfl
  · rwa [hrefer, hhandles] at hbusy

theorem vopRemove_eq {argp : SceVfsPartDeinit} (h : fileAt s argp.fileInfo.path e) :
    vopRemove argp s = unlinkAndDelete argp.node e s := by
  obtain ⟨hpath, f, hf, hreg⟩ := h
  have hd : s.deref (some e) = .ok (e, f) := deref_eq_ok.2 ⟨rfl, hf⟩
  unfold vopRemove
  rw [show getFsEntry argp.fileInfo.path s = _ from hpath]
  show (s.deref (some e) >>= _) = _
  rw [hd]
  exact if_neg (not_not.2 hreg)

theorem vopRmdir_eq {argp : SceVopRmdirArgs} (h : emptyDirAt s argp.fileInfo.path e) :
    vopRmdir argp s = unlinkAndDelete argp.node e s := by
  obtain ⟨hpath, f, hf, hnone, hdir⟩ := h
  have hd : s.deref (some e) = .ok (e, f) := deref_eq_ok.2 ⟨rfl, hf⟩
  unfold vopRmdir
  rw [show getFsEntry argp.fileInfo.path s = _ from hpath]
  show (s.deref (some e) >>= _) = _
  rw [hd]
  exact (if_neg (not_not.2 hnone)).trans (if_neg (not_not.2 hdir))

theorem inPlace_remove {argp : SceVfsPartDeinit} (hL : Listed s) (hr : r < 0) (hs : vopRemove argp s = .ok (r, s')) :
    InPlace s s' argp.fileInfo.path ↔ ¬ ∃ e, fileAt s argp.fileInfo.path e ∧ Busy s argp.node e := by
  by_cases h : ∃ e, fileAt s argp.fileInfo.path e
  · obtain ⟨e, he⟩ := h
    rw [vopRemove_eq he] at hs
    rw [inPlace_unlinkAndDelete hL hr hs]
    refine not_congr ⟨fun hb => ⟨e, he, hb⟩, ?_⟩
    rintro ⟨e', he', hb⟩
    rwa [he.1.unique he'.1]
  · rcases vopRemove_ok hs with ⟨-, rfl⟩ | ⟨e, f, hpath, hf, hreg, -⟩
    · exact iff_of_true .refl fun ⟨e, he, _⟩ => h ⟨e, he⟩
    · exact absurd ⟨e, hpath, f, hf, hreg⟩ h

theorem inPlace_rmdir {argp : SceVopRmdirArgs} (hL : Listed s) (hr : r < 0) (hs : vopRmdir argp s = .ok (r, s')) :
    InPlace s s' argp.fileInfo.path ↔ ¬ ∃ e, emptyDirAt s argp.fileInfo.path e ∧ Busy s argp.node e := by
  by_cases h : ∃ e, emptyDirAt s argp.fileInfo.path e
  · obtain ⟨e, he⟩ := h
    rw [vopRmdir_eq he] at hs
    rw [inPlace_unlinkAndDelete hL hr hs]
    refine not_congr ⟨fun hb => ⟨e, he, hb⟩, ?_⟩
    rintro ⟨e', he', hb⟩
    rwa [he.1.unique he'.1]
  · rcases vopRmdir_ok hs with ⟨-, rfl⟩ | ⟨e, f, hpath, hf, hnone, hdir, -⟩
    · exact iff_of_true .refl fun ⟨e, he, _⟩ => h ⟨e, he⟩
    · exact absurd ⟨e, hpath, f, hf, hnone, hdir⟩ h

theorem listed_run {ls : List (VopCall × Int)} (h0 : FreshMount s₀) (hrun : VopRun (fun _ _ _ => True) s₀ ls s) :
    Listed s :=
  hrun.invariant (fun _ _ _ _ hL _ hs => listed_step hL hs) (listed_freshMount h0)

theorem inPlace_iff {ls : List (VopCall × Int)} (h0 : FreshMount s₀) (hrun : VopRun (fun _ _ _ => True) s₀ ls s)
    (hr : r < 0) :
    (∀ argp, vopRemove argp s = .ok (r, s') →
      (InPlace s s' argp.fileInfo.path ↔ ¬ ∃ e, fileAt s argp.fileInfo.path e ∧ Busy s argp.node e)) ∧
    (∀ argp, vopRmdir argp s = .ok (r, s') →
      (InPlace s s' argp.fileInfo.path ↔ ¬ ∃ e, emptyDirAt s argp.fileInfo.path e ∧ Busy s argp.node e)) :=
  have hL := listed_run h0 hrun
  ⟨fun _ hs => inPlace_remove hL hr hs, fun _ hs => inPlace_rmdir hL hr hs⟩

/-- The file `a` of the root directory is open. -/
def fileOpen : List VopCall := [.create idle ⟨0, inRoot chA⟩, .open idle ⟨1, 7⟩ { node := 1 }]

theorem fileOpen_run : ∃ ls, VopRun (fun _ _ _ => True) mounted ls (lastState fileOpen mounted) :=
  lastState_run (fun _ _ _ _ => trivial) (by decide +kernel)

/-- A `vop_rmdir` of the open file fails at its mode. -/
theorem inPlace_iff_fileOpen : InPlace (lastState fileOpen mounted)
    (lastState [.rmdir ⟨0, inRoot chA⟩] (lastState fileOpen mounted)) (inRoot chA).path := by
  obtain ⟨ls, hrun⟩ := fileOpen_run
  have hs : VopStep (lastState fileOpen mounted) (.rmdir ⟨0, inRoot chA⟩) (sceError 0x80010014) _ :=
    lastState_step (by decide +kernel)
  have hpath : Resolves (lastState fileOpen mounted) (inRoot chA).path 4 := by decide +kernel
  have hmode : (lastState fileOpen mounted).view (fun f => decide (isDir f.stat.stMode)) 4 = some false := by
    decide +kernel
  refine ((inPlace_iff freshMount_mounted hrun (by decide)).2 ⟨0, inRoot chA⟩ hs).2 ?_
  rintro ⟨e, ⟨he, f, hf, -, hdir⟩, -⟩
  obtain rfl := he.unique hpath
  obtain ⟨f', hf', hno⟩ := view_eq_some.1 hmode
  obtain rfl := Option.some.inj (hf.symm.trans hf')
  exact of_decide_eq_false hno hdir

/-- A `vop_remove` of it returns -1 and leaves it live, but out of its list. -/
theorem not_inPlace_fileOpen : ∃ ls s', VopRun (fun _ _ _ => True) mounted ls (lastState fileOpen mounted) ∧
    vopRemove ⟨0, inRoot chA⟩ (lastState fileOpen mounted) = .ok (-1, s') ∧ 4 ∈ s'.entries.keys ∧
    Fails s' (inRoot chA).path ∧ ¬ InPlace (lastState fileOpen mounted) s' (inRoot chA).path := by
  obtain ⟨ls, hrun⟩ := fileOpen_run
  have hs : VopStep (lastState fileOpen mounted) (.remove ⟨0, inRoot chA⟩) (-1) _ :=
    lastState_step (by decide +kernel)
  have hpath : Resolves (lastState fileOpen mounted) (inRoot chA).path 4 := by decide +kernel
  have hfail : Fails (lastState [.remove ⟨0, inRoot chA⟩] (lastState fileOpen mounted)) (inRoot chA).path := by
    refine ⟨sceError 0x80010002, ?_⟩
    decide +kernel
  exact ⟨ls, _, hrun, hs, by decide +kernel, hfail, fun hI => ((hI.path 4).2 hpath).not_fails hfail⟩

end VitaUtility.Dmass

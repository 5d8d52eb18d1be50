import VitaUtility.Dmass.Paths
import VitaUtility.Dmass.Vnodes

/-!
# What a failed creation leaves behind

`vop_create` and `vop_mkdir` link the new entry into its directory and then ask the kernel for a vnode; when the
kernel refuses, they return its error with the entry still linked. The copy of the name that the entry keeps
is not checked at all, so a call that returns 0 may have made an entry without a name.
-/

namespace VitaUtility.Dmass
open VfsState

variable {s s' : VfsState} {k : Answers} {r : Int} {d e : Addr} {v : NodePtr} {out : Option NodePtr}
  {mode unk78 stAttr : UInt32} {fileInfo : SceVfsPath} {name : Option NameBlock} {bufs : Finset Addr}

/-- The sibling lists, what every path resolves to, and the live blocks of the heap are the same. -/
structure Untouched (s s' : VfsState) : Prop where
  kids : ∀ x l, s'.Kids x l ↔ s.Kids x l
  paths : ∀ path a, Resolves s' path a ↔ Resolves s path a
  live : s'.live = s.live

theorem Untouched.refl : Untouched s s := ⟨fun _ _ => Iff.rfl, fun _ _ => Iff.rfl, rfl⟩

/-- A failure has changed nothing, and a success has made an entry with a name and a vnode. -/
structure NoTrace (s : VfsState) (r : Int) (out : Option NodePtr) (s' : VfsState) : Prop where
  failed : r < 0 → Untouched s s'
  made : r = 0 → ∃ e w, e ∉ s.live ∧ out = some w ∧ s'.devInfo w = some e ∧ s'.pNodeOf e = some w ∧
    s'.nameOf e ≠ none

theorem NoTrace.of_failed (hr : r < 0) (h : Untouched s s') : NoTrace s r out s' :=
  ⟨fun _ => h, fun h0 => absurd h0 hr.ne⟩

/-- What a `makeEntry` that links its entry has done, by the answers of the kernel. -/
theorem makeEntry_linked (h : makeEntry (createDmassInfo mode) unk78 stAttr k v fileInfo s = .ok (r, out, s'))
    (hlinks : linksEntry k s fileInfo) : ∃ e name bufs d fd, e ∉ s.live ∧ s.devInfo v = some d ∧
      (withEntry s k mode name e bufs).entries.lookup d = some fd ∧ Linked (withEntry s k mode name e bufs) s' d e ∧
      s'.pTree = s.pTree ∧
      ((nameKept k s.live ∧ name.map (·.str) = some fileInfo.name) ∨ (¬ nameKept k s.live ∧ name = none)) ∧
      ((¬ vnodeMade k s ∧ r < 0) ∨
        (vnodeMade k s ∧ r = 0 ∧ ∃ w, out = some w ∧ s'.devInfo w = some e ∧ s'.pNodeOf e = some w)) := by
  rcases makeEntry_cases h with ⟨hno, -, -⟩ | ⟨-, e, leak, name, bufs, n, d, fd, hB, hkept, hn, hd, hfd, hs⟩
  · exact absurd hlinks hno
  have hname : (nameKept k s.live ∧ name.map (·.str) = some fileInfo.name) ∨
      (¬ nameKept k s.live ∧ name = none) := by
    rcases hB.kept with ⟨hnone, -⟩ | ⟨b, -, -, -, hb, -⟩
    · exact .inr ⟨fun hk => hkept.2 hk hnone, hnone⟩
    · exact .inl ⟨hkept.1 (by rw [hb]; nofun), by rw [hb]; rfl⟩
  rcases hs with ⟨hmade, hr, vnodes, -, rfl⟩ | ⟨hmade, hr, w, -, hout, rfl⟩
  · exact ⟨e, name, bufs, d, fd, hB.fresh, devInfo_eq_some.2 ⟨n, hn, hd⟩, hfd, .inl rfl, rfl, hname,
      .inl ⟨hmade, hr⟩⟩
  · refine ⟨e, name, bufs, d, fd, hB.fresh, devInfo_eq_some.2 ⟨n, hn, hd⟩, hfd, .inr ⟨w, rfl⟩, rfl, hname,
      .inr ⟨hmade, hr, w, hout, ?_, ?_⟩⟩
    · exact (devInfo_insert rfl rfl).trans (if_pos rfl)
    · obtain ⟨g, hg⟩ := lookup_of_keys (pushEntry_keys (withEntry s k mode name e bufs))
        (Finmap.lookup_insert _) (a := e)
      exact (pNodeOf_modEntry hg (fun _ => rfl) e).trans (if_pos rfl)

theorem noTrace_makeEntry (h : makeEntry (createDmassInfo mode) unk78 stAttr k v fileInfo s = .ok (r, out, s')) :
    NoTrace s r out s' ↔ (linksEntry k s fileInfo → vnodeMade k s ∧ nameKept k s.live) := by
  by_cases hlinks : linksEntry k s fileInfo
  swap
  · rcases makeEntry_cases h with ⟨-, hr, rfl⟩ | ⟨hlinks', -⟩
    · exact iff_of_true (.of_failed hr .refl) fun h => absurd h hlinks
    · exact absurd hlinks' hlinks
  obtain ⟨e, name, bufs, d, fd, hfresh, -, -, hL, -, hname, hs⟩ := makeEntry_linked h hlinks
  rcases hs with ⟨hmade, hr⟩ | ⟨hmade, hr, w, hout, hw, hp⟩
  · -- the entry is still linked, and its block is live
    refine iff_of_false (fun hT => hfresh ?_) fun himp => hmade (himp hlinks).1
    rw [← (hT.failed hr).live]
    exact live_linked hL
  have hnameOf : s'.nameOf e = name.map (·.str) := by
    rw [nameOf_linked hL, if_pos rfl]
  rcases hname with ⟨hkept, hname⟩ | ⟨hlost, hname⟩
  · refine iff_of_true ⟨fun h => absurd h hr.not_lt, fun _ => ⟨e, w, hfresh, hout, hw, hp, ?_⟩⟩
      fun _ => ⟨hmade, hkept⟩
    rw [hnameOf, hname]
    nofun
  · refine iff_of_false (fun hT => ?_) fun himp => hlost (himp hlinks).2
    obtain ⟨e', w', -, hout', hw', -, hne⟩ := hT.made hr
    obtain rfl := Option.some.inj (hout.symm.trans hout')
    obtain rfl := Option.some.inj (hw.symm.trans hw')
    rw [hnameOf, hname] at hne
    exact hne rfl

/-- `vop_mkdir` is given a directory. -/
def inDirectory (s : VfsState) (v : NodePtr) : Prop := ∃ e f, s.entryOf v e f ∧ isDir f.stat.stMode

theorem noTrace_iff {fileInfo : SceVfsPath} :
    (vopCreate k ⟨v, fileInfo⟩ s = .ok (r, out, s') →
      (NoTrace s r out s' ↔ (linksEntry k s fileInfo → vnodeMade k s ∧ nameKept k s.live))) ∧
    (vopMkdir k ⟨v, fileInfo⟩ s = .ok (r, out, s') →
      (NoTrace s r out s' ↔ (inDirectory s v → linksEntry k s fileInfo → vnodeMade k s ∧ nameKept k s.live))) := by
  refine ⟨fun h => noTrace_makeEntry h, fun h => ?_⟩
  unfold vopMkdir at h
  rw [bind_eq_ok] at h
  obtain ⟨n, hn, h⟩ := h
  rw [bind_eq_ok] at h
  obtain ⟨⟨d, f⟩, hd, h⟩ := h
  rw [node_eq_ok] at hn
  rw [deref_eq_ok] at hd
  have hnode : s.entryOf v d f := ⟨⟨n, hn, hd.1⟩, hd.2⟩
  dsimp only at h
  split at h
  · rename_i hdir
    cases h
    refine iff_of_true (.of_failed (by decide) .refl) ?_
    rintro ⟨d', f', ⟨⟨n', hn', hd'⟩, hf'⟩, hdir'⟩
    obtain rfl := Option.some.inj (hn.symm.trans hn')
    obtain rfl := Option.some.inj (hd.1.symm.trans hd')
    obtain rfl := Option.some.inj (hd.2.symm.trans hf')
    exact absurd hdir' hdir
  · rename_i hdir
    rw [noTrace_makeEntry h]
    exact ⟨fun himp _ => himp, fun himp => himp ⟨d, f, hnode, not_not.1 hdir⟩⟩

theorem vnodeMade_idle : vnodeMade idle s := ⟨rfl, le_rfl⟩

theorem nameKept_idle (L : Finset Addr) : nameKept idle L := fun _ _ _ _ => rfl

theorem noTrace_iff_mounted :
    NoTrace mounted 0 (some 1) (lastState [.create idle ⟨0, inRoot chA⟩] mounted) ∧
      NoTrace mounted 0 (some 1) (lastState [.mkdir idle ⟨0, inRoot chA⟩] mounted) := by
  have hcreate : vopCreate idle ⟨0, inRoot chA⟩ mounted = .ok (0, some 1, _) :=
    lastState_out (.create idle ⟨0, inRoot chA⟩) rfl (by decide +kernel)
  have hmkdir : vopMkdir idle ⟨0, inRoot chA⟩ mounted = .ok (0, some 1, _) :=
    lastState_out (.mkdir idle ⟨0, inRoot chA⟩) rfl (by decide +kernel)
  refine ⟨(noTrace_iff.1 hcreate).2 fun _ => ?_, (noTrace_iff.2 hmkdir).2 fun _ _ => ?_⟩
  · exact ⟨vnodeMade_idle, nameKept_idle _⟩
  · exact ⟨vnodeMade_idle, nameKept_idle _⟩

/-- The kernel has no vnode left. -/
def noVnode : Answers := { idle with newNode := fun _ => .error ⟨-1, by decide⟩ }

theorem not_noTrace_noVnode : WellFormed mounted ∧ ∃ s', vopCreate noVnode ⟨0, inRoot chA⟩ mounted = .ok (-1, none, s') ∧
    ¬ NoTrace mounted (-1) none s' := by
  have h : vopCreate noVnode ⟨0, inRoot chA⟩ mounted = .ok (-1, none, _) :=
    lastState_out (.create noVnode ⟨0, inRoot chA⟩) rfl (by decide +kernel)
  refine ⟨wellFormed_mounted, _, h, fun hT => ?_⟩
  have hlive := (hT.failed (by decide)).live
  revert hlive
  decide +kernel

end VitaUtility.Dmass

import VitaUtility.Dmass.Resize

/-!
# Attribute changes that fail

`vop_chstat` and `vop_chstat_by_fd` store the mode before they look at the size. A call that asks for both and is
refused the size has changed the mode; every other call that fails leaves all attributes as they were.
-/

namespace VitaUtility.Dmass
open VfsState

variable {s s' : VfsState} {k : Answers} {r size : Int} {e : Addr} {v : NodePtr} {f : FapsDmassFs}
  {stat : SceIoStat} {bit : UInt32}

/-- The stat and the data of every entry and the size of every vnode are as before. -/
structure AttrsKept (s s' : VfsState) : Prop where
  stat : ∀ e, s'.view (·.stat) e = s.view (·.stat) e
  data : ∀ e, s'.view (·.data) e = s.view (·.data) e
  nodeSize : ∀ v, (s'.vnodes.lookup v).map (·.stSize) = (s.vnodes.lookup v).map (·.stSize)

theorem AttrsKept.refl (s : VfsState) : AttrsKept s s := ⟨fun _ => rfl, fun _ => rfl, fun _ => rfl⟩

/-- If the call returns a negative value, the attributes are as before. -/
def AllOrNothing (s : VfsState) (x : Except Fault (Int × VfsState)) : Prop :=
  ∀ r s', x = .ok (r, s') → r < 0 → AttrsKept s s'

/-- The `SCE_CST_MODE` part stores another mode, of the same type. -/
def modeChanged (f : FapsDmassFs) (stat : SceIoStat) (bit : UInt32) : Prop :=
  bit &&& SCE_CST_MODE ≠ 0 ∧ f.stat.stMode &&& SCE_S_IFMT = stat.stMode &&& SCE_S_IFMT ∧ stat.stMode ≠ f.stat.stMode

/-- The `SCE_CST_SIZE` part fails: the size is out of range, or its buffer is not allocated. -/
def sizeRefused (k : Answers) (s : VfsState) (size : Int) : Prop :=
  size < 0 ∨ 0xFFFFFFFF < size ∨ (size ≠ 0 ∧ k.block 0 s.live = none)

theorem chstatSize_refused (h : sizeRefused k s size) : ∃ r < 0, chstatSize k v e size s = .ok (r, s) := by
  unfold chstatSize
  by_cases hneg : size < 0
  · exact ⟨-1, by decide, if_pos hneg⟩
  rw [if_neg hneg]
  have h := h.resolve_left hneg
  have h0 : size ≠ 0 := by
    rcases h with h | h
    · omega
    · exact h.1
  rw [if_neg h0]
  by_cases hbig : size > 0xFFFFFFFF
  · exact ⟨-1, by decide, if_pos hbig⟩
  · rw [if_neg hbig, dmassMalloc_none (h.resolve_left hbig).2]
    exact ⟨-2, by decide, rfl⟩

/-- When it is not refused, the `SCE_CST_SIZE` part returns 0, if it returns. -/
theorem chstatSize_granted (h : ¬ sizeRefused k s size) (hs : chstatSize k v e size s = .ok (r, s')) : ¬ r < 0 := by
  intro hr
  obtain ⟨h₁, h₂⟩ := not_or.1 h
  obtain ⟨h₂, h₃⟩ := not_or.1 h₂
  unfold chstatSize at hs
  rw [if_neg h₁] at hs
  split at hs
  · rw [bind_eq_ok] at hs
    obtain ⟨f, -, hs⟩ := hs
    rw [bind_eq_ok] at hs
    obtain ⟨t, -, hs⟩ := hs
    cases hs
    omega
  rename_i h0
  obtain ⟨a, ha⟩ := Option.ne_none_iff_exists'.1 fun hk => h₃ ⟨h0, hk⟩
  rw [dmassMalloc_some ha] at hs
  dsimp only at hs
  rw [bind_eq_ok] at hs
  obtain ⟨t, -, hs⟩ := hs
  rw [bind_eq_ok] at hs
  obtain ⟨u, -, hs⟩ := hs
  cases hs
  omega

/-- The state after the `SCE_CST_MODE` part. -/
def withMode (s : VfsState) (e : Addr) (stat : SceIoStat) (bit : UInt32) : VfsState :=
  if bit &&& SCE_CST_MODE ≠ 0 then
    s.modEntry e fun f => { f with stat := { f.stat with stMode := stat.stMode } } else s

theorem withMode_live : (withMode s e stat bit).live = s.live := by
  unfold withMode
  split
  · unfold live
    rw [modEntry_keys, modEntry_bufs]
  · rfl

theorem attrsKept_withMode (hf : s.entries.lookup e = some f)
    (htype : typeKept f stat bit) : AttrsKept s (withMode s e stat bit) ↔ ¬ modeChanged f stat bit := by
  unfold withMode modeChanged
  by_cases hbit : bit &&& SCE_CST_MODE = 0
  · rw [if_neg (not_not.2 hbit)]
    exact iff_of_true (AttrsKept.refl s) fun h => h.1 hbit
  have htype := htype.resolve_left hbit
  rw [if_pos hbit]
  constructor
  · rintro h ⟨-, -, hne⟩
    have := h.stat e
    unfold view at this
    rw [lookup_modEntry, if_pos rfl, hf] at this
    exact hne (Option.some.inj (congrArg (Option.map SceIoStat.stMode) this))
  · intro h
    have hmode : stat.stMode = f.stat.stMode := by
      by_contra hne
      exact h ⟨hbit, htype, hne⟩
    refine ⟨fun b => ?_, fun b => view_modEntry fun _ => rfl, fun v => rfl⟩
    unfold view
    rw [lookup_modEntry, hmode]
    split
    · subst b
      rw [hf]
      rfl
    · rfl

/-- A call that gets past the type test answers what its `SCE_CST_SIZE` part answers. -/
theorem chstatEntry_typeKept (hf : s.entries.lookup e = some f) (htype : typeKept f stat bit) :
    chstatEntry k v e stat bit s =
      ((if bit &&& SCE_CST_SIZE ≠ 0 then chstatSize k v e stat.stSize (withMode s e stat bit)
        else .ok (0, withMode s e stat bit)) >>= fun x => if x.1 < 0 then .ok x else
          .ok (0, x.2.modEntry e fun f => { f with stat := chstatTimes stat bit f.stat })) := by
  unfold chstatEntry
  rw [entry_eq_ok.2 hf, ok_bind, if_neg fun h => htype.elim h.1 h.2]
  rfl

/-- A failed change of an entry keeps the attributes unless it stored a mode and was refused the size. -/
theorem allOrNothing_chstatEntry (hf : s.entries.lookup e = some f) :
    AllOrNothing s (chstatEntry k v e stat bit s) ↔
      ¬ (modeChanged f stat bit ∧ bit &&& SCE_CST_SIZE ≠ 0 ∧ sizeRefused k s stat.stSize) := by
  by_cases htype : typeKept f stat bit
  · have hlive : sizeRefused k (withMode s e stat bit) stat.stSize ↔ sizeRefused k s stat.stSize := by
      unfold sizeRefused
      rw [withMode_live]
    by_cases href : bit &&& SCE_CST_SIZE ≠ 0 ∧ sizeRefused k s stat.stSize
    · obtain ⟨r, hr, hs⟩ := chstatSize_refused (v := v) (e := e) (hlive.2 href.2)
      have hcall : chstatEntry k v e stat bit s = .ok (r, withMode s e stat bit) := by
        rw [chstatEntry_typeKept hf htype, if_pos href.1, hs, ok_bind, if_pos hr]
      have hiff : AllOrNothing s (chstatEntry k v e stat bit s) ↔ AttrsKept s (withMode s e stat bit) := by
        rw [hcall]
        constructor
        · intro h
          exact h r _ rfl hr
        · intro h r' s' he _
          obtain ⟨-, rfl⟩ := Prod.mk.inj (Except.ok.inj he)
          exact h
      rw [hiff, attrsKept_withMode hf htype]
      exact not_congr ⟨fun h => ⟨h, href⟩, fun h => h.1⟩
    · refine iff_of_true (fun r s' he hr => ?_) fun h => href h.2
      rw [chstatEntry_typeKept hf htype, bind_eq_ok] at he
      obtain ⟨⟨r₁, s₁⟩, h₁, he⟩ := he
      have h₁neg : ¬ r₁ < 0 := by
        split at h₁
        · exact chstatSize_granted (fun h => href ⟨‹_›, hlive.1 h⟩) h₁
        · cases h₁
          omega
      rw [if_neg h₁neg] at he
      cases he
      omega
  · refine iff_of_true (fun r s' he _ => ?_) fun h => htype (.inr h.1.2.1)
    rw [chstatEntry_type hf htype] at he
    cases he
    exact AttrsKept.refl s

/-- A call that fails is one that has done nothing, unless it has stored another mode and is refused the size. -/
theorem allOrNothing_iff (v : NodePtr) (stat : SceIoStat) (bit : UInt32) (hf : s.entries.lookup e = some f) :
    (∀ fileInfo : SceVfsPath, Resolves s fileInfo.path e →
      (AllOrNothing s (vopChstat k ⟨v, fileInfo, stat, bit⟩ s) ↔
        ¬ (modeChanged f stat bit ∧ bit &&& SCE_CST_SIZE ≠ 0 ∧ sizeRefused k s stat.stSize))) ∧
    (s.devInfo v = some e →
      (AllOrNothing s (vopChstatByFd k ⟨v, stat, bit⟩ s) ↔
        ¬ (modeChanged f stat bit ∧ bit &&& SCE_CST_SIZE ≠ 0 ∧ sizeRefused k s stat.stSize))) := by
  refine ⟨fun fileInfo hpath => ?_, fun hd => ?_⟩
  · rw [vopChstat_of_resolves hf hpath]
    exact allOrNothing_chstatEntry hf
  · rw [vopChstatByFd_of_devInfo hd]
    exact allOrNothing_chstatEntry hf

/-- The new file `/md/a`: entry 4, with vnode 1. -/
theorem entry_newFile : ∃ f, newFile.entries.lookup 4 = some f ∧ f.stat.stMode = 0x2180 ∧
    Resolves newFile (inRoot chA).path 4 ∧ newFile.devInfo 1 = some 4 := by
  have hmode : newFile.view (·.stat.stMode) 4 = some 0x2180 := by decide +kernel
  obtain ⟨f, hf, hmode⟩ := view_eq_some.1 hmode
  exact ⟨f, hf, hmode, by decide +kernel, by decide +kernel⟩

theorem allOrNothing_iff_newFile :
    AllOrNothing newFile (vopChstat idle ⟨1, inRoot chA, { stSize := -1 }, SCE_CST_SIZE⟩ newFile) ∧
    AllOrNothing newFile (vopChstatByFd idle ⟨1, { stSize := -1 }, SCE_CST_SIZE⟩ newFile) := by
  obtain ⟨f, hf, -, hpath, hd⟩ := entry_newFile
  have h := allOrNothing_iff (k := idle) 1 { stSize := -1 } SCE_CST_SIZE hf
  have hno : ¬ (modeChanged f { stSize := -1 } SCE_CST_SIZE ∧ SCE_CST_SIZE &&& SCE_CST_SIZE ≠ 0 ∧
      sizeRefused idle newFile (-1)) := fun h => h.1.1 (by decide)
  exact ⟨(h.1 (inRoot chA) hpath).2 hno, (h.2 hd).2 hno⟩

/-- Another mode and a size of -1: the call fails, and the mode is changed. -/
theorem not_allOrNothing_mode :
    ¬ AllOrNothing newFile (vopChstat idle ⟨1, inRoot chA, { stMode := 0x2100, stSize := -1 },
      SCE_CST_MODE ||| SCE_CST_SIZE⟩ newFile) ∧
    ¬ AllOrNothing newFile (vopChstatByFd idle ⟨1, { stMode := 0x2100, stSize := -1 },
      SCE_CST_MODE ||| SCE_CST_SIZE⟩ newFile) := by
  obtain ⟨f, hf, hmode, hpath, hd⟩ := entry_newFile
  rw [vopChstat_of_resolves hf hpath, vopChstatByFd_of_devInfo hd, allOrNothing_chstatEntry hf, not_not]
  have hyes : modeChanged f { stMode := 0x2100, stSize := -1 } (SCE_CST_MODE ||| SCE_CST_SIZE) := by
    unfold modeChanged
    rw [hmode]
    decide
  exact ⟨⟨hyes, by decide, .inl (by decide)⟩, ⟨hyes, by decide, .inl (by decide)⟩⟩

end VitaUtility.Dmass

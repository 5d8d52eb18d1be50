import VitaUtility.Dmass.Offsets
import VitaUtility.Dmass.Paths
import VitaUtility.Dmass.Vnodes

/-!
# Changing the size of a file

`vop_chstat` and `vop_chstat_by_fd` allocate the requested size and copy the old one. A smaller size than the old
one, except 0, is copied past the end of the new buffer.
-/

namespace VitaUtility.Dmass
open VfsState

variable {s s' : VfsState} {k : Answers} {r size : Int} {e : Addr} {v : NodePtr} {f : FapsDmassFs} {stat : SceIoStat}
  {bit : UInt32}

/-- A file of at most `0xFFFFFFFF` bytes, all in its buffer. -/
structure SizeInBuffer (f : FapsDmassFs) : Prop where
  nonneg : 0 ≤ f.stat.stSize
  le : f.stat.stSize ≤ 0xFFFFFFFF
  room : f.stat.stSize ≤ capacity f.data

/-- The call has returned 0, so that no copy has left its buffers. The entry `e`, which had the content `f`, has a
buffer of `size` bytes that starts as the file did, and `e` and `v` have that size. -/
def ResizedTo (x : Except Fault (Int × VfsState)) (v : NodePtr) (e : Addr) (f : FapsDmassFs) (size : Int) : Prop :=
  ∃ s' f' n', x = .ok (0, s') ∧ s'.entries.lookup e = some f' ∧ s'.vnodes.lookup v = some n' ∧
    f'.stat.stSize = size ∧ n'.stSize = size ∧ capacity f'.data = toSize size ∧
    (bytesOf f'.data).take (min (toSize f.stat.stSize) (toSize size)) =
      (bytesOf f.data).take (min (toSize f.stat.stSize) (toSize size))

/-- The `SCE_CST_MODE` bit is not set, or the type of the entry stays. -/
def typeKept (f : FapsDmassFs) (stat : SceIoStat) (bit : UInt32) : Prop :=
  bit &&& SCE_CST_MODE = 0 ∨ f.stat.stMode &&& SCE_S_IFMT = stat.stMode &&& SCE_S_IFMT

theorem chstatEntry_type (hf : s.entries.lookup e = some f) (h : ¬ typeKept f stat bit) :
    chstatEntry k v e stat bit s = .ok (-1, s) := by
  refine bind_eq_ok.2 ⟨f, entry_eq_ok.2 hf, ?_⟩
  exact if_pos (not_or.1 h)

/-- The `SCE_CST_SIZE` part succeeds when the new buffer has room for the old size. -/
theorem chstatSize_total (hf : s.entries.lookup e = some f) (hF : SizeInBuffer f) (hv : (s.vnodes.lookup v).isSome)
    (h0 : 0 ≤ size) (hle : size ≤ 0xFFFFFFFF) (hk : (k.block 0 s.live).isSome)
    (hgrow : size = 0 ∨ f.stat.stSize ≤ size) : ∃ s', chstatSize k v e size s = .ok (0, s') := by
  obtain ⟨n, hn⟩ := Option.isSome_iff_exists.1 hv
  unfold chstatSize
  rw [if_neg (not_lt.2 h0)]
  by_cases hzero : size = 0
  · rw [if_pos hzero]
    exact ⟨_, bind_eq_ok.2 ⟨f, entry_eq_ok.2 hf, bind_eq_ok.2 ⟨_, bind_eq_ok.2 ⟨n, node_eq_ok.2 hn, rfl⟩, rfl⟩⟩⟩
  rw [if_neg hzero, if_neg (not_lt.2 hle)]
  have hgrow := hgrow.resolve_left hzero
  have hF0 := hF.nonneg
  have hroom := hF.room
  obtain ⟨a, ha⟩ := Option.isSome_iff_exists.1 hk
  have hto : toSize f.stat.stSize ≤ toSize size := by
    unfold toSize
    omega
  have hnew : toSize f.stat.stSize ≤ (fill k.garbage (toSize size)).length := by rwa [length_fill]
  obtain ⟨s₁, h₁⟩ := moveData_total (a := a) hf (by unfold toSize; omega) hnew
  obtain ⟨f', b, -, -, -, hs₁⟩ := moveData_ok h₁
  have hn₁ : s₁.vnodes.lookup v = some n := by rwa [hs₁]
  rw [dmassMalloc_some ha]
  exact ⟨_, bind_eq_ok.2 ⟨s₁, h₁, bind_eq_ok.2 ⟨_, bind_eq_ok.2 ⟨n, node_eq_ok.2 hn₁, rfl⟩, rfl⟩⟩⟩

theorem chstatEntry_total (hf : s.entries.lookup e = some f) (hF : SizeInBuffer f) (hv : (s.vnodes.lookup v).isSome)
    (h0 : 0 ≤ stat.stSize) (hle : stat.stSize ≤ 0xFFFFFFFF) (hbit : bit &&& SCE_CST_SIZE ≠ 0)
    (hk : (k.block 0 s.live).isSome) (htype : typeKept f stat bit)
    (hgrow : stat.stSize = 0 ∨ f.stat.stSize ≤ stat.stSize) :
    Gives (chstatEntry k v e stat bit s) fun x => x.1 = 0 := by
  -- the `SCE_CST_MODE` part changes no size and no block
  obtain ⟨s₁, hs₁⟩ : ∃ s₁, (if bit &&& SCE_CST_MODE ≠ 0 then
      s.modEntry e fun f => { f with stat := { f.stat with stMode := stat.stMode } } else s) = s₁ := ⟨_, rfl⟩
  have hkeep : ∃ f₁, s₁.entries.lookup e = some f₁ ∧ SizeInBuffer f₁ ∧ f₁.stat.stSize = f.stat.stSize ∧
      s₁.vnodes = s.vnodes ∧ s₁.live = s.live := by
    rw [← hs₁]
    split
    · refine ⟨_, (lookup_modEntry.trans (if_pos rfl)).trans (congrArg _ hf), ⟨hF.nonneg, hF.le, hF.room⟩, rfl, rfl,
      ?_⟩
      unfold live
      rw [modEntry_keys, modEntry_bufs]
    · exact ⟨f, hf, hF, rfl, rfl, rfl⟩
  obtain ⟨f₁, hf₁, hF₁, hsize, hnodes, hlive⟩ := hkeep
  obtain ⟨s₂, h₂⟩ := chstatSize_total (k := k) hf₁ hF₁ (by rwa [hnodes]) h0 hle (by rwa [hlive]) (by rwa [hsize])
  refine Gives.bind (entry_eq_ok.2 hf) ?_
  rw [if_neg (fun h => htype.elim h.1 h.2)]
  dsimp only
  rw [hs₁, if_pos hbit]
  exact Gives.bind h₂ ⟨_, if_neg (lt_irrefl _), rfl⟩

theorem resizedTo_chstatEntry (hf : s.entries.lookup e = some f) (hF : SizeInBuffer f)
    (hv : (s.vnodes.lookup v).isSome) (h0 : 0 ≤ stat.stSize) (hle : stat.stSize ≤ 0xFFFFFFFF)
    (hbit : bit &&& SCE_CST_SIZE ≠ 0) (hk : (k.block 0 s.live).isSome) :
    ResizedTo (chstatEntry k v e stat bit s) v e f stat.stSize ↔
      typeKept f stat bit ∧ (stat.stSize = 0 ∨ f.stat.stSize ≤ stat.stSize) := by
  have hF0 := hF.nonneg
  have hFle := hF.le
  constructor
  · rintro ⟨s', f', n', hs, -⟩
    refine ⟨?_, ?_⟩
    · by_contra hno
      rw [chstatEntry_type hf hno] at hs
      cases hs
    obtain ⟨f₁, mode, hf₁, -, ⟨times, -, -, hno, -⟩ | ⟨-, -, n, data, bufs, times, -, -, -, hR, -⟩⟩ :=
      chstatEntry_ok hs
    · exact absurd (hno.resolve_left hbit) (lt_irrefl _)
    obtain rfl := Option.some.inj (hf.symm.trans hf₁)
    rcases hR.block with ⟨hzero, -⟩ | ⟨b, -, -, -, hM⟩
    · exact .inl hzero
    · have hroom := hM.room
      unfold toSize at hroom
      exact .inr (by omega)
  · rintro ⟨htype, hgrow⟩
    obtain ⟨⟨r, s'⟩, hs, rfl⟩ := chstatEntry_total (k := k) hf hF hv h0 hle hbit hk htype hgrow
    obtain ⟨f₁, mode, hf₁, -, ⟨times, -, -, hno, -⟩ | ⟨-, -, n, data, bufs, times, hn, -, hsize, hR, rfl⟩⟩ :=
      chstatEntry_ok hs
    · exact absurd (hno.resolve_left hbit) (lt_irrefl _)
    obtain rfl := Option.some.inj (hf.symm.trans hf₁)
    refine ⟨_, { f with data := data, stat := times }, { n with stSize := stat.stSize }, hs, Finmap.lookup_insert _,
      ?_, hsize, rfl, ?_⟩
    · dsimp only
      rw [lookup_modifyAt, if_pos rfl, hn]
      rfl
    · rcases hR.block with ⟨hzero, rfl, -⟩ | ⟨b, rfl, -, -, hM⟩
      · rw [hzero]
        have h00 : toSize 0 = 0 := rfl
        rw [h00, Nat.min_zero]
        exact ⟨rfl, rfl⟩
      · rw [min_eq_left hM.room]
        exact ⟨hM.length, hM.bytes⟩

theorem vopChstat_of_resolves {fileInfo : SceVfsPath} (hf : s.entries.lookup e = some f)
    (hpath : Resolves s fileInfo.path e) :
    vopChstat k ⟨v, fileInfo, stat, bit⟩ s = chstatEntry k v e stat bit s := by
  have hd : s.deref (some e) = .ok (e, f) := deref_eq_ok.2 ⟨rfl, hf⟩
  unfold vopChstat
  rw [show getFsEntry fileInfo.path s = _ from hpath]
  simp only [ok_bind, hd]

theorem vopChstatByFd_of_devInfo (hd : s.devInfo v = some e) :
    vopChstatByFd k ⟨v, stat, bit⟩ s = chstatEntry k v e stat bit s := by
  obtain ⟨n, hn, he⟩ := devInfo_eq_some.1 hd
  unfold vopChstatByFd
  simp only [node_eq_ok.2 hn, ok_bind, he]

/-- A request for `size` bytes, 0 or more than the file had, does what it should; every other one fails. -/
theorem resizedTo_iff (stat : SceIoStat) (bit : UInt32) (hf : s.entries.lookup e = some f)
    (hF : SizeInBuffer f) (hv : (s.vnodes.lookup v).isSome)
    (h0 : 0 ≤ stat.stSize) (hle : stat.stSize ≤ 0xFFFFFFFF) (hbit : bit &&& SCE_CST_SIZE ≠ 0)
    (hk : (k.block 0 s.live).isSome) :
    (∀ fileInfo : SceVfsPath, Resolves s fileInfo.path e →
      (ResizedTo (vopChstat k ⟨v, fileInfo, stat, bit⟩ s) v e f stat.stSize ↔
        typeKept f stat bit ∧ (stat.stSize = 0 ∨ f.stat.stSize ≤ stat.stSize))) ∧
    (s.devInfo v = some e →
      (ResizedTo (vopChstatByFd k ⟨v, stat, bit⟩ s) v e f stat.stSize ↔
        typeKept f stat bit ∧ (stat.stSize = 0 ∨ f.stat.stSize ≤ stat.stSize))) := by
  refine ⟨fun fileInfo hpath => ?_, fun hd => ?_⟩
  · rw [vopChstat_of_resolves hf hpath]
    exact resizedTo_chstatEntry hf hF hv h0 hle hbit hk
  · rw [vopChstatByFd_of_devInfo hd]
    exact resizedTo_chstatEntry hf hF hv h0 hle hbit hk

/-- The new file with two bytes. -/
def twoBytes : VfsState :=
  lastState [.open idle ⟨1, 7⟩ { node := 1 }, .write idle ⟨1, 7, fun _ => 1, 2⟩] newFile

theorem sizeInBuffer_twoBytes : ∃ f, twoBytes.entries.lookup 4 = some f ∧ isReg f.stat.stMode ∧
    f.stat.stSize = 2 ∧ SizeInBuffer f := by
  have hf : twoBytes.view (fun f => (f.stat.stSize, capacity f.data, decide (isReg f.stat.stMode))) 4 =
      some (2, 512, true) := by decide +kernel
  obtain ⟨f, hf, hx⟩ := view_eq_some.1 hf
  obtain ⟨hsize, hx⟩ := Prod.mk.inj hx
  obtain ⟨hcap, hreg⟩ := Prod.mk.inj hx
  exact ⟨f, hf, of_decide_eq_true hreg, hsize, by omega, by omega, by omega⟩

theorem resizedTo_iff_grow : ∃ f, twoBytes.entries.lookup 4 = some f ∧
    ResizedTo (vopChstat idle ⟨1, inRoot chA, { stSize := 600 }, SCE_CST_SIZE⟩ twoBytes) 1 4 f 600 ∧
    ResizedTo (vopChstatByFd idle ⟨1, { stSize := 0 }, SCE_CST_SIZE⟩ twoBytes) 1 4 f 0 := by
  obtain ⟨f, hf, -, h2, hF⟩ := sizeInBuffer_twoBytes
  have hv : (twoBytes.vnodes.lookup 1).isSome := by decide +kernel
  have hpath : Resolves twoBytes (inRoot chA).path 4 := by decide +kernel
  have hgrow := resizedTo_iff (k := idle) { stSize := 600 } SCE_CST_SIZE hf hF hv (by decide)
    (by decide) (by decide) rfl
  have hempty := resizedTo_iff (k := idle) { stSize := 0 } SCE_CST_SIZE hf hF hv (by decide)
    (by decide) (by decide) rfl
  refine ⟨f, hf, (hgrow.1 (inRoot chA) hpath).2 ⟨.inl (by decide), .inr ?_⟩, (hempty.2 (by decide +kernel)).2 ?_⟩
  · rw [h2]
    decide
  · exact ⟨.inl (by decide), .inl rfl⟩

/-- The two bytes do not fit a buffer of one. -/
theorem not_resizedTo_shrink : ∃ f, twoBytes.entries.lookup 4 = some f ∧ isReg f.stat.stMode ∧ SizeInBuffer f ∧
    vopChstatByFd idle ⟨1, { stSize := 1 }, SCE_CST_SIZE⟩ twoBytes = .error .overrun ∧
    ¬ ResizedTo (vopChstatByFd idle ⟨1, { stSize := 1 }, SCE_CST_SIZE⟩ twoBytes) 1 4 f 1 := by
  obtain ⟨f, hf, hreg, -, hF⟩ := sizeInBuffer_twoBytes
  have hfault : (vopChstatByFd idle ⟨1, { stSize := 1 }, SCE_CST_SIZE⟩ twoBytes).map (·.1) = .error .overrun := by
    decide +kernel
  have hover : vopChstatByFd idle ⟨1, { stSize := 1 }, SCE_CST_SIZE⟩ twoBytes = .error .overrun := by
    cases hx : vopChstatByFd idle ⟨1, { stSize := 1 }, SCE_CST_SIZE⟩ twoBytes with
    | error c =>
      rw [hx] at hfault
      cases hfault
      rfl
    | ok x =>
      rw [hx] at hfault
      cases hfault
  refine ⟨f, hf, hreg, hF, hover, ?_⟩
  rintro ⟨s', f', n', hs, -⟩
  rw [hover] at hs
  cases hs

end VitaUtility.Dmass

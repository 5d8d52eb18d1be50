import VitaUtility.Dmass.DataSpec

/-!
# The capacity of data buffers

The growth test of `vop_write` and `vop_pwrite` compares `st_size` before and after, each rounded up to
512 bytes, and never looks at the buffer; it is right as long as the buffer has the rounded size. The
chstat calls allocate exactly the requested size, so they keep this only for multiples of 512.
-/

namespace VitaUtility.Dmass
open VfsState

variable {s s' : VfsState} {k : Answers} {r : Int} {e : Addr} {v : NodePtr} {f : FapsDmassFs}
  {o : Int} {w : Nat} {data : Option DataBlock} {bufs : Finset Addr}

/-! ### Calls that store no data keep `stat` and `data` of the entries that stay -/

/-- The part of an entry that the data calls work on. -/
def dataView (f : FapsDmassFs) : SceIoStat × Option DataBlock := (f.stat, f.data)

/-- The entries of `s'` have the `stat` and `data` they had in `s`, or are new and empty. -/
def DataKept (s s' : VfsState) : Prop :=
  ∀ b, s'.view dataView b = s.view dataView b ∨ s'.view dataView b = none ∨
    ∃ stat : SceIoStat, stat.stSize = 0 ∧ s'.view dataView b = some (stat, none)

theorem DataKept.of_view (h : ∀ b, s'.view dataView b = s.view dataView b) : DataKept s s' :=
  fun b => .inl (h b)

theorem DataKept.refl : DataKept s s := .of_view fun _ => rfl

theorem dataKept_makeEntry {mode unk78 stAttr : UInt32} {fileInfo : SceVfsPath} {out : Option NodePtr}
    (h : makeEntry (createDmassInfo mode) unk78 stAttr k v fileInfo s = .ok (r, out, s')) : DataKept s s' := by
  rcases makeEntry_ok h with ⟨-, rfl⟩ | ⟨e, leak, name, bufs, n, d, fd, hB, -, -, -, -, h⟩
  · exact .refl
  have hview : ∀ b, s'.view dataView b = if b = e then some (dataView (newDmassFs mode k name)) else
      s.view dataView b := by
    intro b
    have hpush := (view_pushEntry (π := dataView) (s := { s with
      entries := s.entries.insert e (newDmassFs mode k name), bufs := bufs }) (d := d) (e := e) (b := b)
      (by intros; rfl) (by intros; rfl)).trans (view_insert (s := s) rfl)
    rcases h with ⟨-, vnodes, -, rfl⟩ | ⟨-, w, -, -, rfl⟩
    · exact hpush
    · exact (view_modEntry (by intro; rfl)).trans hpush
  intro b
  rw [hview]
  split
  · refine .inr (.inr ⟨_, ?_, rfl⟩)
    unfold newDmassFs initEntryDate
    cases k.rtc <;> rfl
  · exact .inl rfl

theorem dataKept_unlinkAndDelete (h : unlinkAndDelete v e s = .ok (r, s')) : DataKept s s' := by
  obtain ⟨n, d, fd, -, -, -, ⟨-, -, rfl⟩ | ⟨pred, x, f, -, -, h⟩⟩ := unlinkAndDelete_ok h
  · exact .refl
  have hv : ∀ b, (s.setLink d pred f.next).view dataView b = s.view dataView b := fun b =>
    view_setLink (fun _ _ => rfl) fun _ _ => rfl
  obtain ⟨f', -, ⟨-, rfl, -⟩ | ⟨-, -, -, rfl⟩⟩ := deleteDmassInfo_ok h
  · exact .of_view hv
  · intro b
    rw [← hv]
    unfold view
    dsimp only
    rw [lookup_erase_ite]
    split
    · exact .inr (.inl rfl)
    · exact .inl rfl

theorem view_handleDropped {β : Type} {π : FapsDmassFs → β} {key : Int32} (h : HandleDropped s s' e key)
    (hπ : ∀ f l n, π { f with pDmassFsX := l, refer := n } = π f) (b : Addr) : s'.view π b = s.view π b := by
  obtain ⟨f, l₁, x, l₂, -, -, -, -, rfl⟩ := h
  exact view_modEntry fun f => hπ f _ _

/-- The calls that change `stat` or `data` of an entry. -/
def VopCall.storesData : VopCall → Prop
  | .write .. | .pwrite .. | .chstat .. | .chstatByFd .. => True
  | _ => False

theorem dataKept_step {call : VopCall} (hc : ¬ call.storesData) (h : VopStep s call r s') : DataKept s s' := by
  unfold VopStep at h
  cases call with
  | «open» k argp object =>
    rcases vopOpen_ok h with ⟨-, rfl⟩ | ⟨-, n, e, f, a, -, -, hf, -, o, -, rfl⟩
    · exact .refl
    · exact .of_view fun b => view_insert_same hf rfl rfl
  | create k argp =>
    obtain ⟨out, h⟩ := dropOut_eq_ok.1 h
    exact dataKept_makeEntry h
  | close argp =>
    rcases vopClose_ok h with ⟨-, rfl⟩ | ⟨-, n, e, -, -, hd⟩
    · exact .refl
    · exact .of_view (view_handleDropped hd fun _ _ _ => rfl)
  | lookup k argp =>
    obtain ⟨out, h⟩ := dropOut_eq_ok.1 h
    rcases vopPartInit_ok h with ⟨-, vnodes, -, rfl⟩ | ⟨-, n, e, f, w, -, -, -, -, -, rfl⟩
    · exact .refl
    · exact .of_view fun b => view_modEntry fun _ => rfl
  | read argp =>
    obtain ⟨out, h⟩ := dropOut_eq_ok.1 h
    rcases vopRead_ok h with rfl | ⟨n, e, f, m, -, -, -, -, -, rfl⟩
    · exact .refl
    · exact .of_view fun b => rfl
  | write k argp => exact absurd trivial hc
  | lseek argp =>
    rcases vopLseek_ok h with ⟨-, rfl⟩ | ⟨-, n, -, -, rfl⟩
    · exact .refl
    · exact .of_view fun b => rfl
  | remove argp =>
    rcases vopRemove_ok h with ⟨-, rfl⟩ | ⟨e, f, -, -, -, h⟩
    · exact .refl
    · exact dataKept_unlinkAndDelete h
  | mkdir k argp =>
    obtain ⟨out, h⟩ := dropOut_eq_ok.1 h
    rcases vopMkdir_ok h with ⟨-, rfl⟩ | ⟨n, d, f, -, -, -, -, h⟩
    · exact .refl
    · exact dataKept_makeEntry h
  | rmdir argp =>
    rcases vopRmdir_ok h with ⟨-, rfl⟩ | ⟨e, f, -, -, -, -, h⟩
    · exact .refl
    · exact dataKept_unlinkAndDelete h
  | dopen k argp =>
    rcases vopDopen_ok h with ⟨-, rfl⟩ | ⟨-, n, e, f, a, -, -, -, -, rfl⟩
    · exact .refl
    · exact .of_view fun b => view_modEntry fun _ => rfl
  | dclose argp =>
    rcases vopDclose_ok h with ⟨-, rfl⟩ | ⟨-, n, e, -, -, hd⟩
    · exact .refl
    · exact .of_view (view_handleDropped hd fun _ _ _ => rfl)
  | dread argp =>
    obtain ⟨out, h⟩ := dropOut_eq_ok.1 h
    rcases vopDread_ok h with ⟨-, rfl⟩ | ⟨-, n, e, f, l₁, x, l₂, a, c, -, -, -, -, -, -, -, rfl⟩
    · exact .refl
    · exact .of_view fun b => view_modEntry fun _ => rfl
  | chstat k argp => exact absurd trivial hc
  | rename k argp =>
    obtain ⟨out, h⟩ := dropOut_eq_ok.1 h
    rcases vopRename_ok h with ⟨-, vnodes, -, rfl⟩ | ⟨-, -, n, d, fd, e, f, pred, x, w, n3, d3, fd3, v, old, name, h⟩
    · exact .refl
    · obtain ⟨-, -, -, -, -, -, -, -, -, -, -, -, -, -, rfl⟩ := h
      refine .of_view fun b => ?_
      have h₁ : ((s.setLink d pred f.next).pushEntry d3 e |>.modEntry e fun f =>
          { f with name := name, pNode := some w }).view dataView b =
          ((s.setLink d pred f.next).pushEntry d3 e).view dataView b := view_modEntry fun _ => rfl
      refine h₁.trans ?_
      exact (view_pushEntry (by intros; rfl) (by intros; rfl)).trans (view_setLink (by intros; rfl) (by intros; rfl))
  | pread argp =>
    obtain rfl := VopStep.pread_eq h
    exact .refl
  | pwrite k argp => exact absurd trivial hc
  | inactive argp =>
    rcases vopInactive_ok h with ⟨-, rfl⟩ | ⟨-, v, n, -, -, ⟨-, rfl⟩ | ⟨e, f, -, -, rfl⟩⟩
    · exact .refl
    · exact .refl
    · exact .of_view fun b => view_modEntry fun _ => rfl
  | chstatByFd k argp => exact absurd trivial hc

/-! ### The capacity invariant -/

/-- The largest size whose rounding fits a `SceSize`. -/
def maxSize : Nat := 0xFFFFFE00

/-- What the growth test assumes: the buffer has `st_size` rounded up. -/
def RoundedRoom (f : FapsDmassFs) : Prop :=
  (f.stat.stSize = 0 ∧ f.data = none) ∨ ∃ b, f.data = some b ∧ blockAlign f.stat.stSize ≤ b.bytes.length

/-- The invariant: buffers of whole blocks, that hold `st_size` bytes. -/
structure Capacious (x : SceIoStat × Option DataBlock) : Prop where
  nonneg : 0 ≤ x.1.stSize
  room : x.1.stSize ≤ capacity x.2
  blocks : 512 ∣ capacity x.2
  le : capacity x.2 ≤ maxSize

theorem Capacious.roundedRoom (h : Capacious (dataView f)) : RoundedRoom f := by
  obtain ⟨h0, hroom, ⟨c, hc⟩, hle⟩ := h
  obtain ⟨m, hm⟩ := Int.eq_ofNat_of_zero_le h0
  simp only [dataView, maxSize] at hm hroom hc hle
  cases hd : f.data with
  | none =>
    rw [hd] at hroom
    have : capacity none = 0 := rfl
    exact .inl ⟨by omega, hd⟩
  | some b =>
    rw [hd] at hroom hc hle
    have hb : capacity (some b) = b.bytes.length := rfl
    refine .inr ⟨b, hd, ?_⟩
    rw [hm, blockAlign_eq (by omega)]
    omega

/-- The growth test makes room for what it was asked for, in whole blocks. -/
theorem grownCapacity_spec (h : Capacious (dataView f)) (hw : f.stat.stSize + w ≤ maxSize) :
    f.stat.stSize + w ≤ grownCapacity f w ∧ 512 ∣ grownCapacity f w ∧ grownCapacity f w ≤ maxSize := by
  obtain ⟨h0, hroom, hblocks, hle⟩ := h
  obtain ⟨m, hm⟩ := Int.eq_ofNat_of_zero_le h0
  obtain ⟨c, hc⟩ := hblocks
  simp only [dataView, maxSize] at *
  have h₁ := blockAlign_eq (n := m) (by omega)
  have h₂ := blockAlign_eq (n := m + w) (by omega)
  unfold grownCapacity
  rw [hm] at hroom hw ⊢
  rw [← Int.natCast_add, h₁, h₂]
  split
  · rw [toSize_natCast (by omega)]
    omega
  · refine ⟨by omega, ⟨c, hc⟩, hle⟩

theorem le_toSize (ho : o ≤ 0xFFFFFFFF) : o ≤ toSize o := by
  unfold toSize; omega

/-- A write keeps the invariant when its copy stays in the buffer; one of no bytes is not checked by a copy. -/
theorem Stored.capacious {src : List UInt8} (hS : Stored s f o src data bufs) (h : Capacious (dataView f))
    (hw : f.stat.stSize + src.length ≤ maxSize) (ho : o ≤ 0xFFFFFFFF)
    (hzero : src = [] → o ≤ capacity f.data) : Capacious (grownStat f o src.length, data) := by
  obtain ⟨hroom, hblocks, hle⟩ := grownCapacity_spec h hw
  rw [← hS.size] at hroom hblocks hle
  have hend : o + src.length ≤ capacity data := by
    rcases hS.fits with rfl | hfit
    · have hsize : capacity data = capacity f.data := by
        rw [hS.size]
        simp [grownCapacity]
      have := hzero rfl
      simp only [List.length_nil]
      omega
    · have := le_toSize ho
      omega
  refine ⟨?_, ?_, hblocks, hle⟩
  · exact le_trans h.nonneg (le_max_left _ _)
  · refine max_le ?_ hend
    show f.stat.stSize ≤ capacity data
    omega

theorem Resized.capacious {size : Int} (hR : Resized s f size data bufs) (hsize : 512 ∣ size)
    {stat : SceIoStat} (hstat : stat.stSize = size) : Capacious (stat, data) := by
  obtain ⟨c, hc⟩ := hsize
  have hle := hR.le
  have h0 := hR.nonneg
  rcases hR.block with ⟨rfl, rfl, -⟩ | ⟨b, rfl, -, -, hM⟩
  · refine ⟨hstat ▸ le_rfl, hstat ▸ le_rfl, ⟨0, rfl⟩, Nat.zero_le _⟩
  · have hcap : capacity (some b) = toSize size := hM.length
    have hto : (toSize size : Int) = size := by unfold toSize; omega
    refine ⟨hstat ▸ h0, ?_, ?_, ?_⟩
    · dsimp only
      rw [hstat, hcap, hto]
    · exact ⟨c.toNat, by dsimp only; omega⟩
    · dsimp only [maxSize]
      omega

/-- Sizes stay at most `maxSize`. A new size of whole blocks does so in any case. -/
def smallSizes (call : VopCall) (s : VfsState) : Prop :=
  match call with
  | .write k argp => ∀ e f, s.entryOf argp.node e f → writeReached k s argp f →
      f.stat.stSize + argp.nbyte.toNat ≤ maxSize
  | .pwrite k argp => ∀ e f, s.entryOf argp.node e f → pwriteReached k s argp f →
      f.stat.stSize + argp.nbyte.toNat ≤ maxSize
  | _ => True

/-- A new size is a multiple of 512, and a write of no bytes that gets past its tests starts inside the buffer. -/
def wholeBlocks (call : VopCall) (s : VfsState) : Prop :=
  match call with
  | .write k argp => ∀ e f, s.entryOf argp.node e f → writeReached k s argp f → argp.nbyte = 0 →
      (s.files argp.pVfsFileObject).offset ≤ capacity f.data
  | .pwrite k argp => ∀ e f, s.entryOf argp.node e f → pwriteReached k s argp f → argp.nbyte = 0 →
      argp.offset.toInt ≤ capacity f.data
  | .chstat k argp => ∀ e f, getFsEntry argp.fileInfo.path s = .ok (.ok (some e)) → s.entries.lookup e = some f →
      SizeReached k s f argp.stat argp.bit → 512 ∣ argp.stat.stSize
  | .chstatByFd k argp => ∀ e f, s.entryOf argp.pNode e f → SizeReached k s f argp.stat argp.bit →
      512 ∣ argp.stat.stSize
  | _ => True

/-- Every live entry has a buffer of whole blocks that holds its `st_size`. -/
def AllCapacious (s : VfsState) : Prop := ∀ b x, s.view dataView b = some x → Capacious x

theorem AllCapacious.of_kept (h : AllCapacious s) (hk : DataKept s s') : AllCapacious s' := by
  intro b x hx
  rcases hk b with hb | hb | ⟨stat, h0, hb⟩ <;> rw [hb] at hx
  · exact h b x hx
  · cases hx
  · cases hx
    exact ⟨h0.ge, h0.le, ⟨0, rfl⟩, Nat.zero_le _⟩

theorem AllCapacious.insert {f' : FapsDmassFs} (h : AllCapacious s) (hs' : s'.entries = s.entries.insert e f')
    (hf' : Capacious (dataView f')) : AllCapacious s' := by
  intro b x hx
  unfold view at hx
  rw [hs', lookup_insert_ite] at hx
  split at hx
  · cases hx; exact hf'
  · exact h b x hx

theorem AllCapacious.get (h : AllCapacious s) (hf : s.entries.lookup e = some f) : Capacious (dataView f) :=
  h e (dataView f) (view_eq_some.2 ⟨f, hf, rfl⟩)

theorem allCapacious_chstatEntry {stat : SceIoStat} {bit : UInt32} (h : AllCapacious s)
    (hc : chstatEntry k v e stat bit s = .ok (r, s'))
    (hbit : ∀ f, s.entries.lookup e = some f → SizeReached k s f stat bit → 512 ∣ stat.stSize) : AllCapacious s' := by
  obtain ⟨f, mode, hf, -, ⟨times, -, hsize, -, rfl⟩ | ⟨-, hreach, n, data, bufs, times, -, -, hsize, hR, rfl⟩⟩ :=
    chstatEntry_ok hc
  · have hold := h.get hf
    refine h.insert rfl ⟨?_, ?_, hold.blocks, hold.le⟩
    · exact hsize ▸ hold.nonneg
    · exact hsize ▸ hold.room
  · exact h.insert rfl (hR.capacious (hbit f hf hreach) hsize)

/-- What `vop_write` and `vop_pwrite` leave in the entry. -/
theorem AllCapacious.stored {g : Nat → UInt8} (h : AllCapacious s) (hf : s.entries.lookup e = some f)
    (hS : Stored s f o (fill g w) data bufs) (hw : f.stat.stSize + w ≤ maxSize) (ho : o ≤ 0xFFFFFFFF)
    (hzero : w = 0 → o ≤ capacity f.data) : Capacious (grownStat f o w, data) := by
  have hlen : (fill g w).length = w := length_fill
  have hcap := hS.capacious (h.get hf) (by rwa [hlen]) ho fun hnil => hzero ?_
  · rwa [hlen] at hcap
  · rw [hnil] at hlen
    exact hlen.symm

theorem allCapacious_step {call : VopCall} (h : AllCapacious s) (hsmall : smallSizes call s)
    (hblocks : wholeBlocks call s) (hs : VopStep s call r s') : AllCapacious s' := by
  by_cases hc : call.storesData
  swap
  · exact h.of_kept (dataKept_step hc hs)
  unfold VopStep at hs
  cases call with
  | write k argp =>
    rcases vopWrite_ok hs with ⟨-, rfl⟩ | ⟨n, e, f, data, bufs, hn, he, hf, hreach, hS, -, rfl⟩
    · exact h
    refine h.insert rfl (h.stored hf hS (hsmall e f ⟨⟨n, hn, he⟩, hf⟩ hreach) hreach.offset fun hzero => ?_)
    exact hblocks e f ⟨⟨n, hn, he⟩, hf⟩ hreach (UInt32.toNat_inj.1 hzero)
  | pwrite k argp =>
    rcases vopPwrite_ok hs with ⟨-, rfl⟩ | ⟨n, e, f, data, bufs, hn, he, hf, hreach, hS, -, rfl⟩
    · exact h
    refine h.insert rfl (h.stored hf hS (hsmall e f ⟨⟨n, hn, he⟩, hf⟩ hreach) hreach.1.offset fun hzero => ?_)
    exact hblocks e f ⟨⟨n, hn, he⟩, hf⟩ hreach (UInt32.toNat_inj.1 hzero)
  | chstat k argp =>
    rcases vopChstat_ok hs with ⟨-, rfl⟩ | ⟨e, hpath, hc⟩
    · exact h
    · exact allCapacious_chstatEntry h hc fun f hf => hblocks e f hpath hf
  | chstatByFd k argp =>
    rcases vopChstatByFd_ok hs with ⟨-, rfl⟩ | ⟨n, e, hn, he, hc⟩
    · exact h
    · exact allCapacious_chstatEntry h hc fun f hf => hblocks e f ⟨⟨n, hn, he⟩, hf⟩
  | _ => exact absurd hc id

theorem allCapacious_freshMount (h : FreshMount s) : AllCapacious s := by
  obtain ⟨k, v, m, s₀, e, leak, name, bufs, n, -, -, -, hent, -⟩ := freshMount_ok h
  intro b x hx
  unfold view at hx
  rw [hent, lookup_insert_ite] at hx
  split at hx
  · cases hx
    unfold newDmassFs initEntryDate
    cases k.rtc <;> exact ⟨le_rfl, le_rfl, ⟨0, rfl⟩, Nat.zero_le _⟩
  · cases hx

/-! ### Writes stay in the buffer -/

/-- The growth test only fails when the heap does. -/
theorem growData_cases (hf : s.entries.lookup e = some f) (h : Capacious (dataView f))
    (hw : f.stat.stSize + w ≤ maxSize) :
    (∃ L, k.malloc 0 L = none ∧ growData k e w s = .ok none) ∨ ∃ s₁, growData k e w s = .ok (some s₁) := by
  have hroom := grownCapacity_spec h hw
  have h0 := h.nonneg
  have hle := h.room
  have hsize : toSize f.stat.stSize = f.stat.stSize := by
    simp only [dataView, maxSize] at *
    unfold toSize
    omega
  simp only [dataView] at *
  exact growData_total hf (by omega) (by omega)

theorem growData_returns (hf : s.entries.lookup e = some f) (h : Capacious (dataView f))
    (hw : f.stat.stSize + w ≤ maxSize) : ∃ x, growData k e w s = .ok x := by
  rcases growData_cases (k := k) hf h hw with ⟨L, -, hg⟩ | ⟨s₁, hg⟩
  exacts [⟨_, hg⟩, ⟨_, hg⟩]

theorem growData_grown (hk : k.mallocs) (hf : s.entries.lookup e = some f) (h : Capacious (dataView f))
    (hw : f.stat.stSize + w ≤ maxSize) : ∃ data bufs, Grown s f w data bufs ∧ growData k e w s =
      .ok (some { s with entries := s.entries.insert e { f with data := data }, bufs := bufs }) := by
  rcases growData_cases (k := k) hf h hw with ⟨L, hL, -⟩ | ⟨s₁, hg⟩
  · have := hk 0 L
    rw [hL] at this
    cases this
  · rcases growData_ok hg with h0 | ⟨f', data, bufs, hf', hG, hx⟩
    · cases h0
    obtain rfl := Option.some.inj (hf.symm.trans hf')
    exact ⟨data, bufs, hG, hx ▸ hg⟩

theorem memWrite_returns (hG : Grown s f w data bufs) (h : Capacious (dataView f)) (h0 : 0 ≤ o)
    (ho : o ≤ f.stat.stSize) (hw : f.stat.stSize + w ≤ maxSize) {g : Nat → UInt8} :
    ∃ d, memWrite data o (fill g w) = .ok d := by
  have hroom := grownCapacity_spec h hw
  have hto : toSize o = o := by
    simp only [maxSize] at hw
    unfold toSize
    omega
  refine ⟨_, memWrite_eq_ok.2 ⟨.inr ?_, rfl⟩⟩
  rw [length_fill, hG.size]
  omega

/-- Growing and copying return, whatever is done after them. -/
theorem store_returns {α : Type} {g : Nat → UInt8} {fail : Except Fault α}
    {rest : VfsState → FapsDmassFs → Option DataBlock → Except Fault α} (hf : s.entries.lookup e = some f)
    (h : Capacious (dataView f)) (h0 : 0 ≤ o) (ho : o ≤ f.stat.stSize) (hw : f.stat.stSize + w ≤ maxSize)
    (hfail : Returns fail) (hrest : ∀ s f d, Returns (rest s f d)) : Returns (growData k e w s >>= fun
      | none => fail
      | some s => s.entry e >>= fun f => memWrite f.data o (fill g w) >>= fun d => rest s f d) := by
  obtain ⟨x, hx⟩ := growData_returns (k := k) hf h hw
  refine Returns.bind hx ?_
  rcases growData_ok hx with rfl | ⟨f', data, bufs, hf', hG, rfl⟩
  · exact hfail
  obtain rfl := Option.some.inj (hf.symm.trans hf')
  obtain ⟨d, hd⟩ := memWrite_returns hG h h0 ho hw
  exact Returns.bind (entry_eq_ok.2 (Finmap.lookup_insert _)) (Returns.bind hd (hrest _ _ _))

theorem vopWrite_returns {argp : SceVfsWrite} (he : s.entryOf argp.node e f) (h : Capacious (dataView f))
    (h0 : 0 ≤ (s.files argp.pVfsFileObject).offset) (ho : (s.files argp.pVfsFileObject).offset ≤ f.stat.stSize)
    (hw : f.stat.stSize + argp.nbyte.toNat ≤ maxSize) : Returns (vopWrite k argp s) := by
  obtain ⟨⟨n, hn, he⟩, hf⟩ := he
  refine Returns.bind (node_eq_ok.2 hn) ?_
  rw [he]
  refine Returns.bind (entry_eq_ok.2 hf) ?_
  dsimp only
  split
  · exact ⟨_, rfl⟩
  split
  · exact ⟨_, rfl⟩
  split
  · exact ⟨_, rfl⟩
  refine store_returns hf h h0 ho hw ⟨_, rfl⟩ fun s₁ f₁ d => ?_
  split <;> exact ⟨_, rfl⟩

theorem vopPwrite_returns {argp : SceVopPwriteArgs} (he : s.entryOf argp.node e f) (h : Capacious (dataView f))
    (h0 : 0 ≤ argp.offset.toInt) (ho : argp.offset.toInt ≤ f.stat.stSize)
    (hw : f.stat.stSize + argp.nbyte.toNat ≤ maxSize) : Returns (vopPwrite k argp s) := by
  obtain ⟨⟨n, hn, he⟩, hf⟩ := he
  refine Returns.bind (node_eq_ok.2 hn) ?_
  rw [he]
  refine Returns.bind (entry_eq_ok.2 hf) ?_
  dsimp only
  split
  · exact ⟨_, rfl⟩
  split
  · exact ⟨_, rfl⟩
  split
  · exact ⟨_, rfl⟩
  split
  · exact ⟨_, rfl⟩
  refine store_returns hf h h0 ho hw ⟨_, rfl⟩ fun s₁ f₁ d => ?_
  split <;> exact ⟨_, rfl⟩

/-! ### The capacity in runs -/

/-- The growth test can rely on the buffers of `s`: each has the rounded size, and a write at an offset up
to `st_size` stays in it. -/
structure BuffersFit (s : VfsState) : Prop where
  room : ∀ e f, s.entries.lookup e = some f → RoundedRoom f
  write : ∀ k argp e f, s.entryOf argp.node e f → 0 ≤ (s.files argp.pVfsFileObject).offset →
    (s.files argp.pVfsFileObject).offset ≤ f.stat.stSize → f.stat.stSize + argp.nbyte.toNat ≤ maxSize →
    Returns (vopWrite k argp s)
  pwrite : ∀ k argp e f, s.entryOf argp.node e f → 0 ≤ argp.offset.toInt → argp.offset.toInt ≤ f.stat.stSize →
    f.stat.stSize + argp.nbyte.toNat ≤ maxSize → Returns (vopPwrite k argp s)

theorem AllCapacious.buffersFit (h : AllCapacious s) : BuffersFit s := by
  refine ⟨fun e f hf => (h.get hf).roundedRoom, ?_, ?_⟩
  · intro k argp e f he h0 ho hw
    exact vopWrite_returns he (h.get he.2) h0 ho hw
  · intro k argp e f he h0 ho hw
    exact vopPwrite_returns he (h.get he.2) h0 ho hw

theorem buffersFit_run {ls : List (VopCall × Int)} (hm : FreshMount s)
    (h : VopRun (fun call _ s => smallSizes call s ∧ wholeBlocks call s) s ls s') : BuffersFit s' :=
  (h.invariant (fun _ _ _ _ hI hok => allCapacious_step hI hok.1 hok.2) (allCapacious_freshMount hm)).buffersFit

/-- Create a file, open it and set its size. -/
def resizeCalls (size : Int) : List VopCall :=
  [.create idle ⟨0, inRoot chA⟩, .open idle ⟨1, 1⟩ { node := 1 },
    .chstatByFd idle ⟨1, { stSize := size }, SCE_CST_SIZE⟩]

theorem buffersFit_run_resize : ∃ ls, VopRun (fun call _ s => smallSizes call s ∧ wholeBlocks call s)
    mounted ls (lastState (resizeCalls 512) mounted) ∧ BuffersFit (lastState (resizeCalls 512) mounted) := by
  have hok : ∀ c ∈ resizeCalls 512, ∀ s, smallSizes c s ∧ wholeBlocks c s := by
    simp [resizeCalls, smallSizes, wholeBlocks, maxSize]
  obtain ⟨ls, h⟩ := lastState_run (s := mounted) (fun c hc _ s => hok c hc s) (by decide +kernel)
  exact ⟨ls, h, buffersFit_run freshMount_mounted h⟩

/-- After a request for one byte the buffer has one byte, and a byte written at `st_size` leaves it. -/
theorem not_buffersFit_resize : FreshMount mounted ∧
    (∃ ls, VopRun (fun call _ s => smallSizes call s) mounted ls (lastState (resizeCalls 1) mounted)) ∧
    ¬ BuffersFit (lastState (resizeCalls 1) mounted) := by
  have hok : ∀ c ∈ resizeCalls 1, ∀ s, smallSizes c s := by
    simp [resizeCalls, smallSizes, maxSize]
  refine ⟨freshMount_mounted, lastState_run (fun c hc _ s => hok c hc s) (by decide +kernel), fun hfit => ?_⟩
  have hv : (lastState (resizeCalls 1) mounted).view (fun f => (f.stat.stSize, f.data.map (·.bytes))) 4 =
      some (1, some [0]) := by decide +kernel
  obtain ⟨f, hf, hx⟩ := view_eq_some.1 hv
  obtain ⟨hsize, hdata⟩ := Prod.mk.inj hx
  rcases hfit.room 4 f hf with ⟨h0, -⟩ | ⟨b, hb, hroom⟩
  · omega
  · rw [hb] at hdata
    have hbytes : b.bytes = [0] := Option.some.inj hdata
    rw [hsize, hbytes] at hroom
    revert hroom
    decide

end VitaUtility.Dmass

import VitaUtility.Dmass.VopSpec

/-!
# What a data or handle call that returns has done

The inversion lemmas for `VopData.lean`, in the manner of `VopSpec.lean`. `vop_write` and `vop_pwrite`
store bytes by the same steps: perhaps a larger block for the data, a copy into it, perhaps a new size.
-/

namespace VitaUtility.Dmass
open VfsState

variable {s s' s₁ : VfsState} {k : Answers} {r : Int} {e : Addr} {v : NodePtr} {h : FilePtr}
  {f : FapsDmassFs} {n : SceVfsNode} {data data' : Option DataBlock} {bufs : Finset Addr} {o size : Int} {w : Nat}

/-! ### Rounding to blocks -/

theorem and_not_511 (x : BitVec 64) : x &&& ~~~0x1FF#64 = (x >>> 9) <<< 9 := by
  have h : ∀ i < 64, (0x1FF#64).getLsbD i = decide (i < 9) := by decide
  ext i hi
  simp only [BitVec.getElem_and, BitVec.getElem_not, BitVec.getElem_shiftLeft]
  rw [← BitVec.getLsbD_eq_getElem, ← BitVec.getLsbD_eq_getElem, h i hi]
  by_cases h9 : i < 9
  · simp [h9]
  · simp [h9, show 9 + (i - 9) = i by omega]

theorem blockAlign_eq {n : Nat} (hn : n < 2 ^ 62) : blockAlign n = ((n + 511) / 512 * 512 : Nat) := by
  have h₁ : (BitVec.ofInt 64 (n : Int) + 0x1FF#64).toNat = n + 511 := by
    simp [BitVec.ofInt_natCast]
    omega
  have h₂ : (((BitVec.ofInt 64 (n : Int) + 0x1FF#64) >>> 9) <<< 9).toNat = (n + 511) / 512 * 512 := by
    rw [BitVec.toNat_shiftLeft, BitVec.toNat_ushiftRight, h₁]
    simp [Nat.shiftRight_eq_div_pow, Nat.shiftLeft_eq]
    omega
  rw [blockAlign, and_not_511, BitVec.toInt_eq_toNat_of_lt (by omega), h₂]

/-- A sum of two signed 64-bit values, the first not negative: when it wraps it comes out negative. -/
theorem bmod_add_cases {b : Int} (h0 : 0 ≤ b) (hb : b < 2 ^ 63) (i : Int64) :
    Int.bmod (b + i.toInt) (2 ^ 64) = b + i.toInt ∨
      (Int.bmod (b + i.toInt) (2 ^ 64) < 0 ∧ 2 ^ 63 ≤ b + i.toInt) := by
  have h₁ := i.toInt_lt
  have h₂ := i.le_toInt
  by_cases hfit : b + i.toInt < 2 ^ 63
  · exact .inl (Int.bmod_eq_of_le (by omega) (by omega))
  · refine .inr ⟨?_, by omega⟩
    rw [Int.bmod_def]
    split <;> omega

theorem toSize_natCast (hw : w < 0x100000000) : toSize w = w := by
  unfold toSize; omega

/-! ### Copies -/

/-- The block that holds the data; NULL is an empty one. -/
def bytesOf (data : Option DataBlock) : List UInt8 := (data.map (·.bytes)).getD []

def capacity (data : Option DataBlock) : Nat := (bytesOf data).length

/-- `data` after a `memcpy` into it. -/
def written (data : Option DataBlock) (o : Int) (src : List UInt8) : Option DataBlock :=
  data.map fun b => { b with bytes := splice b.bytes (toSize o) src }

theorem memRead_eq_ok {out : List UInt8} : memRead data o w = .ok out ↔
    (w = 0 ∨ toSize o + w ≤ capacity data) ∧ out = slice (bytesOf data) (toSize o) w := by
  unfold memRead capacity
  by_cases hw : w = 0
  · subst hw
    simp [slice, eq_comm]
  rw [if_neg hw]
  cases data with
  | none => simp [bytesOf, hw]
  | some b =>
    show (if toSize o + w ≤ b.bytes.length then _ else _) = _ ↔ (w = 0 ∨ toSize o + w ≤ b.bytes.length) ∧ _
    split
    · simp [*, bytesOf, eq_comm]
    · simp [*]

theorem memWrite_eq_ok {src : List UInt8} : memWrite data o src = .ok data' ↔
    (src = [] ∨ toSize o + src.length ≤ capacity data) ∧ data' = written data o src := by
  unfold memWrite capacity written
  by_cases hs : src = []
  · subst hs
    simp [eq_comm]
  rw [if_neg hs]
  cases data with
  | none => simp [bytesOf, hs]
  | some b =>
    show (if toSize o + src.length ≤ b.bytes.length then _ else _) = _ ↔
      (src = [] ∨ toSize o + src.length ≤ b.bytes.length) ∧ _
    split
    · simp [*, eq_comm]
    · simp [*]

theorem bytesOf_written {src : List UInt8} (h : src = [] ∨ toSize o + src.length ≤ capacity data) :
    bytesOf (written data o src) = splice (bytesOf data) (toSize o) src := by
  cases data with
  | some b => rfl
  | none =>
    obtain rfl : src = [] := by
      rcases h with h | h
      · exact h
      · simp only [capacity, bytesOf, Option.map_none, Option.getD_none, List.length_nil] at h
        exact List.eq_nil_of_length_eq_zero (by omega)
    rw [splice_nil]
    rfl

/-- A copy changes neither the size of the block nor its address. -/
theorem capacity_written {src : List UInt8} (h : src = [] ∨ toSize o + src.length ≤ capacity data) :
    capacity (written data o src) = capacity data := by
  unfold capacity at *
  rw [bytesOf_written h]
  rcases h with rfl | h
  · rw [splice_nil]
  · rw [length_splice (by omega)]
    omega

theorem addr_written {src : List UInt8} : (written data o src).map (·.addr) = data.map (·.addr) := by
  cases data <;> rfl

/-! ### The steps of a write -/

theorem modifyAt_eq {α : Type} {m : Store α} {a : Nat} {x : α} (hx : m.lookup a = some x) (g : α → α) :
    modifyAt m a g = m.insert a (g x) := by
  unfold modifyAt; rw [hx]

/-- Overwriting a live entry keeps the set of live blocks. -/
theorem live_insert {f' : FapsDmassFs} (hf : s.entries.lookup e = some f) :
    VfsState.live { s with entries := s.entries.insert e f' } = s.live := by
  have := keys_modifyAt s.entries e fun _ => f'
  rw [modifyAt_eq hf] at this
  unfold live
  rw [this]

/-- The blocks after data has moved to the new block `a`. -/
def swapBufs (s : VfsState) (old : Option DataBlock) (a : Addr) : Finset Addr :=
  (({ s with bufs := insert a s.bufs } : VfsState).dmassFree (old.map (·.addr))).bufs

/-- Data has stayed in its block, or moved to a new one. -/
def Refilled (s : VfsState) (old data : Option DataBlock) (bufs : Finset Addr) : Prop :=
  (data.map (·.addr) = old.map (·.addr) ∧ bufs = s.bufs) ∨
    ∃ b, data = some b ∧ b.addr ∉ s.live ∧ bufs = swapBufs s old b.addr

theorem dmassMalloc_none (hk : k.block 0 s.live = none) : dmassMalloc k w s = (none, s) := by
  unfold dmassMalloc
  rcases malloc_cases k 0 s with ⟨-, hm⟩ | ⟨a, -, ha, -⟩
  · rw [hm]
  · rw [hk] at ha
    cases ha

theorem dmassMalloc_some {a : Addr} (hk : k.block 0 s.live = some a) :
    dmassMalloc k w s = (some ⟨a, fill k.garbage w⟩, { s with bufs := insert a s.bufs }) := by
  unfold dmassMalloc
  rcases malloc_cases k 0 s with ⟨hno, -⟩ | ⟨b, -, hb, hm⟩
  · rw [hk] at hno
    cases hno
  · obtain rfl := Option.some.inj (hk.symm.trans hb)
    rw [hm]

/-- What moving the data of `f` into the new block `b` needs, and does. -/
structure Moved (f : FapsDmassFs) (b : DataBlock) (size : Nat) : Prop where
  length : b.bytes.length = size
  room : toSize f.stat.stSize ≤ size
  src : toSize f.stat.stSize ≤ capacity f.data
  bytes : b.bytes.take (toSize f.stat.stSize) = (bytesOf f.data).take (toSize f.stat.stSize)

theorem moveData_ok {a : Addr} {bytes : List UInt8}
    (h : moveData e ⟨a, bytes⟩ { s with bufs := insert a s.bufs } = .ok s') : ∃ f b,
      s.entries.lookup e = some f ∧ b.addr = a ∧ Moved f b bytes.length ∧
      s' = { s with entries := s.entries.insert e { f with data := some b }, bufs := swapBufs s f.data a } := by
  unfold moveData at h
  rw [bind_eq_ok] at h
  obtain ⟨f, hf, h⟩ := h
  rw [bind_eq_ok] at h
  obtain ⟨old, hold, h⟩ := h
  rw [bind_eq_ok] at h
  obtain ⟨data, hd, h⟩ := h
  cases h
  rw [entry_eq_ok] at hf
  rw [memRead_eq_ok] at hold
  rw [memWrite_eq_ok] at hd
  have h0 : toSize 0 = 0 := rfl
  obtain ⟨hcap, rfl⟩ := hold
  obtain ⟨hfit, rfl⟩ := hd
  rw [h0] at hcap hfit
  have hsrc : toSize f.stat.stSize ≤ capacity f.data := by omega
  have hlen : (slice (bytesOf f.data) 0 (toSize f.stat.stSize)).length = toSize f.stat.stSize := by
    rw [length_slice]
    unfold capacity at hsrc
    omega
  have hto : toSize f.stat.stSize ≤ bytes.length := by
    rcases hfit with hfit | hfit
    · rw [hfit] at hlen
      simp only [List.length_nil] at hlen
      omega
    · rw [hlen] at hfit
      simpa [capacity, bytesOf] using hfit
  refine ⟨f, ⟨a, splice bytes 0 (slice (bytesOf f.data) 0 (toSize f.stat.stSize))⟩, hf, rfl, ⟨?_, hto, hsrc, ?_⟩, ?_⟩
  · rw [length_splice (by omega), hlen]
    omega
  · rw [splice, List.take_zero, List.nil_append, List.take_left' hlen]
    rfl
  · exact congrArg (fun m => ({ s with entries := m, bufs := swapBufs s f.data a } : VfsState))
      (modifyAt_eq hf _)

theorem moveData_total {a : Addr} {bytes : List UInt8} (hf : s.entries.lookup e = some f)
    (hsrc : toSize f.stat.stSize ≤ capacity f.data) (hroom : toSize f.stat.stSize ≤ bytes.length) :
    ∃ s', moveData e ⟨a, bytes⟩ { s with bufs := insert a s.bufs } = .ok s' := by
  have h0 : toSize 0 = 0 := rfl
  have hlen : (slice (bytesOf f.data) 0 (toSize f.stat.stSize)).length ≤ bytes.length := by
    rw [length_slice]
    omega
  have hr : memRead f.data 0 (toSize f.stat.stSize) = .ok _ :=
    memRead_eq_ok.2 ⟨.inr (by rwa [h0, Nat.zero_add]), rfl⟩
  have hw : memWrite (some ⟨a, bytes⟩) 0 (slice (bytesOf f.data) (toSize 0) (toSize f.stat.stSize)) = .ok _ :=
    memWrite_eq_ok.2 ⟨.inr (by rwa [h0, Nat.zero_add]), rfl⟩
  exact ⟨_, bind_eq_ok.2 ⟨f, entry_eq_ok.2 hf, bind_eq_ok.2 ⟨_, hr, bind_eq_ok.2 ⟨_, hw, rfl⟩⟩⟩⟩

/-! The growth test, by what it and `dmass_malloc` answer -/

theorem growData_stay (hf : s.entries.lookup e = some f)
    (hfit : blockAlign (f.stat.stSize + w) ≤ blockAlign f.stat.stSize) : growData k e w s = .ok (some s) := by
  refine bind_eq_ok.2 ⟨f, entry_eq_ok.2 hf, ?_⟩
  rw [if_neg (not_lt.2 hfit)]
  rfl

theorem growData_refused (hf : s.entries.lookup e = some f)
    (hgt : blockAlign (f.stat.stSize + w) > blockAlign f.stat.stSize) (hk : k.block 0 s.live = none) :
    growData k e w s = .ok none := by
  refine bind_eq_ok.2 ⟨f, entry_eq_ok.2 hf, ?_⟩
  rw [if_pos hgt, dmassMalloc_none hk]
  rfl

theorem growData_moves {a : Addr} (hf : s.entries.lookup e = some f)
    (hgt : blockAlign (f.stat.stSize + w) > blockAlign f.stat.stSize) (hk : k.block 0 s.live = some a) :
    growData k e w s = moveData e ⟨a, fill k.garbage (toSize (blockAlign (f.stat.stSize + w)))⟩
      { s with bufs := insert a s.bufs } >>= fun s => .ok (some s) := by
  unfold growData
  rw [entry_eq_ok.2 hf]
  show (if _ then _ else _) = _
  rw [if_pos hgt, dmassMalloc_some hk]
  rfl

/-- The `dmass_malloc` of the growth test succeeds, if there is one. -/
def blockGiven (k : Answers) (s : VfsState) (f : FapsDmassFs) (w : Nat) : Prop :=
  blockAlign (f.stat.stSize + w) > blockAlign f.stat.stSize → (k.block 0 s.live).isSome

/-- The room the growth test makes for `w` more bytes. -/
def grownCapacity (f : FapsDmassFs) (w : Nat) : Nat :=
  if blockAlign (f.stat.stSize + w) > blockAlign f.stat.stSize then toSize (blockAlign (f.stat.stSize + w))
  else capacity f.data

/-- What `growData` has made of the data of `f`. -/
structure Grown (s : VfsState) (f : FapsDmassFs) (w : Nat) (data : Option DataBlock) (bufs : Finset Addr) : Prop where
  block : Refilled s f.data data bufs
  size : capacity data = grownCapacity f w
  bytes : (bytesOf data).take (toSize f.stat.stSize) = (bytesOf f.data).take (toSize f.stat.stSize)

theorem growData_ok {x : Option VfsState} (h : growData k e w s = .ok x) : x = none ∨ ∃ f data bufs,
    s.entries.lookup e = some f ∧ Grown s f w data bufs ∧
      x = some { s with entries := s.entries.insert e { f with data := data }, bufs := bufs } := by
  obtain ⟨f, hf, -⟩ := bind_eq_ok.1 h
  rw [entry_eq_ok] at hf
  by_cases hgt : blockAlign (f.stat.stSize + w) > blockAlign f.stat.stSize
  · rcases malloc_cases k 0 s with ⟨hk, -⟩ | ⟨a, ha, hk, -⟩
    · rw [growData_refused hf hgt hk] at h
      cases h
      exact .inl rfl
    rw [growData_moves hf hgt hk, bind_eq_ok] at h
    obtain ⟨s₁, h₁, h⟩ := h
    cases h
    obtain ⟨f', b, hf', rfl, hM, rfl⟩ := moveData_ok h₁
    obtain rfl := Option.some.inj (hf.symm.trans hf')
    rw [length_fill] at hM
    refine .inr ⟨f, some b, _, hf, ⟨.inr ⟨b, rfl, ha, rfl⟩, ?_, hM.bytes⟩, rfl⟩
    rw [grownCapacity, if_pos hgt]
    exact hM.length
  · rw [growData_stay hf (not_lt.1 hgt)] at h
    cases h
    refine .inr ⟨f, f.data, s.bufs, hf, ⟨.inl ⟨rfl, rfl⟩, ?_, rfl⟩, ?_⟩
    · rw [grownCapacity, if_neg hgt]
    · rw [insert_lookup_self hf]

theorem growData_total (hf : s.entries.lookup e = some f) (hsrc : toSize f.stat.stSize ≤ capacity f.data)
    (hroom : toSize f.stat.stSize ≤ grownCapacity f w) :
    (∃ L, k.malloc 0 L = none ∧ growData k e w s = .ok none) ∨ ∃ s₁, growData k e w s = .ok (some s₁) := by
  unfold grownCapacity at hroom
  by_cases hgt : blockAlign (f.stat.stSize + w) > blockAlign f.stat.stSize
  · rw [if_pos hgt] at hroom
    rcases malloc_cases k 0 s with ⟨hk, -⟩ | ⟨a, -, hk, -⟩
    · exact .inl ⟨_, Option.map_eq_none_iff.1 hk, growData_refused hf hgt hk⟩
    · obtain ⟨s₁, h₁⟩ := moveData_total (a := a) hf hsrc (hroom.trans_eq length_fill.symm)
      exact .inr ⟨s₁, (growData_moves hf hgt hk).trans (bind_eq_ok.2 ⟨s₁, h₁, rfl⟩)⟩
  · exact .inr ⟨s, growData_stay hf (not_lt.1 hgt)⟩

/-- What `vop_write` and `vop_pwrite` have stored in the entry `f` of the state `s`. -/
structure Stored (s : VfsState) (f : FapsDmassFs) (o : Int) (src : List UInt8) (data : Option DataBlock)
    (bufs : Finset Addr) : Prop where
  block : Refilled s f.data data bufs
  size : capacity data = grownCapacity f src.length
  fits : src = [] ∨ toSize o + src.length ≤ capacity data
  bytes : ∃ old, bytesOf data = splice old (toSize o) src ∧ old.length = capacity data ∧
    old.take (toSize f.stat.stSize) = (bytesOf f.data).take (toSize f.stat.stSize)

theorem Grown.memWrite {d : Option DataBlock} {src : List UInt8} (hG : Grown s f src.length d bufs)
    (hw : memWrite d o src = .ok data) : Stored s f o src data bufs := by
  obtain ⟨hfit, rfl⟩ := memWrite_eq_ok.1 hw
  have hcap := capacity_written hfit
  refine ⟨?_, hcap.trans hG.size, by rwa [hcap], bytesOf d, bytesOf_written hfit, hcap.symm, hG.bytes⟩
  rcases hG.block with ⟨ha, hb⟩ | ⟨b, rfl, hb⟩
  · exact .inl ⟨addr_written.trans ha, hb⟩
  · exact .inr ⟨_, rfl, hb⟩

/-- What `vop_write` and `vop_pwrite` do between the checks and the new size. -/
theorem growStore_ok {src : List UInt8} {F : VfsState → FapsDmassFs → Option DataBlock → Except Fault (Int × VfsState)}
    (hf : s.entries.lookup e = some f) (hw : src.length = w)
    (h : (growData k e w s >>= fun y => match y with
      | none => pure (-2, s)
      | some s₁ => s₁.entry e >>= fun f₁ => memWrite f₁.data o src >>= F s₁ f₁) = .ok (r, s')) :
    (r < 0 ∧ s' = s) ∨ (blockGiven k s f w ∧ ∃ d data bufs, Stored s f o src data bufs ∧
      F { s with entries := s.entries.insert e { f with data := d }, bufs := bufs }
        { f with data := d } data = .ok (r, s')) := by
  obtain ⟨y, hy, h⟩ := bind_eq_ok.1 h
  rcases growData_ok hy with rfl | ⟨f', d, bufs, hf', hG, rfl⟩
  · cases h
    exact .inl ⟨by decide, rfl⟩
  have hgiven : blockGiven k s f w := by
    intro hgt
    rw [Option.isSome_iff_ne_none]
    intro hk
    rw [growData_refused hf hgt hk] at hy
    cases hy
  obtain rfl := Option.some.inj (hf.symm.trans hf')
  obtain ⟨f₁, hf₁, h⟩ := bind_eq_ok.1 h
  rw [entry_eq_ok, lookup_insert_ite, if_pos rfl] at hf₁
  cases hf₁
  obtain ⟨data, hd, h⟩ := bind_eq_ok.1 h
  exact .inr ⟨hgiven, d, data, bufs, Grown.memWrite (hw ▸ hG) hd, h⟩

/-- The entry's `stat` after `w` bytes at `o`. -/
def grownStat (f : FapsDmassFs) (o : Int) (w : Nat) : SceIoStat :=
  { f.stat with stSize := max f.stat.stSize (o + w) }

/-- `vop_write` and `vop_pwrite` through `v` get past the tests they share, to `w` bytes at `o`. -/
structure StoreReached (k : Answers) (s : VfsState) (v : NodePtr) (h : FilePtr) (f : FapsDmassFs) (o : Int) (w : Nat) :
    Prop where
  handle : (searchDmassCtlData h.toInt32 f.pDmassFsX).isSome
  size : ∀ n ∈ s.vnodes.lookup v, n.stSize ≤ 0xFFFFFFFF
  offset : o ≤ 0xFFFFFFFF
  node : v = (s.files h).node
  block : blockGiven k s f w

def writeReached (k : Answers) (s : VfsState) (argp : SceVfsWrite) (f : FapsDmassFs) : Prop :=
  StoreReached k s argp.node argp.pVfsFileObject f (s.files argp.pVfsFileObject).offset argp.nbyte.toNat

def pwriteReached (k : Answers) (s : VfsState) (argp : SceVopPwriteArgs) (f : FapsDmassFs) : Prop :=
  StoreReached k s argp.node argp.pVfsFileObject f argp.offset.toInt argp.nbyte.toNat ∧
    ∀ n ∈ s.vnodes.lookup argp.node, argp.offset.toInt ≤ n.stSize

theorem vopWrite_ok {argp : SceVfsWrite} (h : vopWrite k argp s = .ok (r, s')) : (r < 0 ∧ s' = s) ∨
    ∃ n e f data bufs, s.vnodes.lookup argp.node = some n ∧ n.devInfo = some e ∧
      s.entries.lookup e = some f ∧
      writeReached k s argp f ∧
      Stored s f (s.files argp.pVfsFileObject).offset (fill argp.data argp.nbyte.toNat) data bufs ∧
      r = toSSize argp.nbyte.toNat ∧
      let o := (s.files argp.pVfsFileObject).offset + argp.nbyte.toNat
      s' = { s.setOffset argp.pVfsFileObject o with
        entries := s.entries.insert e { f with
          data := data, stat := grownStat f (s.files argp.pVfsFileObject).offset argp.nbyte.toNat }
        bufs := bufs
        vnodes := if o ≥ f.stat.stSize then modifyAt s.vnodes argp.node fun n => { n with stSize := o }
          else s.vnodes } := by
  unfold vopWrite at h
  rw [bind_eq_ok] at h
  obtain ⟨n, hn, h⟩ := h
  split at h
  · cases h; exact .inl ⟨by decide, rfl⟩
  rename_i e he
  rw [bind_eq_ok] at h
  obtain ⟨f, hf, h⟩ := h
  dsimp only at h
  split at h
  · cases h; exact .inl ⟨by decide, rfl⟩
  rename_i x hx
  split at h
  · cases h; exact .inl ⟨by decide, rfl⟩
  rename_i hbig
  split at h
  · cases h; exact .inl ⟨by decide, rfl⟩
  rename_i hnode
  rw [entry_eq_ok] at hf
  rw [node_eq_ok] at hn
  rcases growStore_ok hf length_fill h with herr | ⟨hgiven, data, data', bufs, hstored, h⟩
  · exact .inl herr
  obtain ⟨hsize, hoffset⟩ := not_or.1 hbig
  refine .inr ⟨n, e, f, data', bufs, hn, he, hf, ⟨by rw [hx]; rfl, by simpa [hn] using hsize, not_lt.1 hoffset,
    not_not.1 hnode, hgiven⟩, hstored, ?_⟩
  dsimp only [grownStat] at h ⊢
  split at h
  · rename_i hge
    obtain ⟨rfl, rfl⟩ := Prod.mk.inj (Except.ok.inj h)
    rw [if_pos hge, max_eq_right hge]
    exact ⟨rfl, by simp [modEntry, modNode, setOffset, modifyAt_insert]⟩
  · rename_i hlt
    obtain ⟨rfl, rfl⟩ := Prod.mk.inj (Except.ok.inj h)
    rw [if_neg hlt, max_eq_left (not_le.1 hlt).le]
    exact ⟨rfl, by simp [modEntry, setOffset, modifyAt_insert]⟩

theorem vopPwrite_ok {argp : SceVopPwriteArgs} (h : vopPwrite k argp s = .ok (r, s')) : (r < 0 ∧ s' = s) ∨
    ∃ n e f data bufs, s.vnodes.lookup argp.node = some n ∧ n.devInfo = some e ∧
      s.entries.lookup e = some f ∧
      pwriteReached k s argp f ∧
      Stored s f argp.offset.toInt (fill argp.data argp.nbyte.toNat) data bufs ∧
      r = toSSize argp.nbyte.toNat ∧
      let o := argp.offset.toInt + argp.nbyte.toNat
      s' = { s with
        entries := s.entries.insert e { f with
          data := data, stat := grownStat f argp.offset.toInt argp.nbyte.toNat }
        bufs := bufs
        vnodes := if o > f.stat.stSize then modifyAt s.vnodes argp.node fun n => { n with stSize := o }
          else s.vnodes } := by
  unfold vopPwrite at h
  rw [bind_eq_ok] at h
  obtain ⟨n, hn, h⟩ := h
  split at h
  · cases h; exact .inl ⟨by decide, rfl⟩
  rename_i e he
  rw [bind_eq_ok] at h
  obtain ⟨f, hf, h⟩ := h
  dsimp only at h
  split at h
  · cases h; exact .inl ⟨by decide, rfl⟩
  rename_i x hx
  split at h
  · cases h; exact .inl ⟨by decide, rfl⟩
  rename_i hbig
  split at h
  · cases h; exact .inl ⟨by decide, rfl⟩
  rename_i ho
  split at h
  · cases h; exact .inl ⟨by decide, rfl⟩
  rename_i hnode
  rw [entry_eq_ok] at hf
  rw [node_eq_ok] at hn
  rcases growStore_ok hf length_fill h with herr | ⟨hgiven, data, data', bufs, hstored, h⟩
  · exact .inl herr
  obtain ⟨hsize, hoffset⟩ := not_or.1 hbig
  refine .inr ⟨n, e, f, data', bufs, hn, he, hf, ⟨⟨by rw [hx]; rfl, by simpa [hn] using hsize, not_lt.1 hoffset,
    not_not.1 hnode, hgiven⟩, by simpa [hn] using ho⟩, hstored, ?_⟩
  dsimp only [grownStat] at h ⊢
  split at h
  · rename_i hgt
    obtain ⟨rfl, rfl⟩ := Prod.mk.inj (Except.ok.inj h)
    rw [if_pos hgt, max_eq_right (le_of_lt hgt)]
    exact ⟨rfl, by simp [modEntry, modNode, modifyAt_insert]⟩
  · rename_i hle
    obtain ⟨rfl, rfl⟩ := Prod.mk.inj (Except.ok.inj h)
    rw [if_neg hle, max_eq_left (not_lt.1 hle)]
    exact ⟨rfl, by simp [modEntry, modifyAt_insert]⟩

/-! ### Changing the size -/

/-- `vop_chstat` and `vop_chstat_by_fd` get past the tests on the mode and the size, to the new size. -/
structure SizeReached (k : Answers) (s : VfsState) (f : FapsDmassFs) (stat : SceIoStat) (bit : UInt32) : Prop where
  asked : bit &&& SCE_CST_SIZE ≠ 0
  mode : bit &&& SCE_CST_MODE ≠ 0 → f.stat.stMode &&& SCE_S_IFMT = stat.stMode &&& SCE_S_IFMT
  nonneg : 0 ≤ stat.stSize
  le : stat.stSize ≤ 0xFFFFFFFF
  block : stat.stSize ≠ 0 → (k.block 0 s.live).isSome

/-- What the `SCE_CST_SIZE` part has done to the entry `f` when it succeeds. -/
structure Resized (s : VfsState) (f : FapsDmassFs) (size : Int) (data : Option DataBlock)
    (bufs : Finset Addr) : Prop where
  nonneg : 0 ≤ size
  le : size ≤ 0xFFFFFFFF
  block : (size = 0 ∧ data = none ∧ bufs = (s.dmassFree (f.data.map (·.addr))).bufs) ∨
    ∃ b, data = some b ∧ b.addr ∉ s.live ∧ bufs = swapBufs s f.data b.addr ∧ Moved f b (toSize size)

theorem chstatSize_ok (h : chstatSize k v e size s = .ok (r, s')) : (r < 0 ∧ s' = s) ∨
    (r = 0 ∧ ∃ f n data bufs, s.entries.lookup e = some f ∧ s.vnodes.lookup v = some n ∧
      (size ≠ 0 → (k.block 0 s.live).isSome) ∧ Resized s f size data bufs ∧
      s' = { s with
        entries := s.entries.insert e { f with data := data, stat := { f.stat with stSize := size } }
        bufs := bufs
        vnodes := modifyAt s.vnodes v fun n => { n with stSize := size } }) := by
  unfold chstatSize at h
  split at h
  · cases h; exact .inl ⟨by decide, rfl⟩
  rename_i hneg
  split at h
  · rename_i h0
    rw [bind_eq_ok] at h
    obtain ⟨f, hf, h⟩ := h
    rw [entry_eq_ok] at hf
    unfold setSize at h
    rw [bind_eq_ok] at h
    obtain ⟨s₁, h₁, h⟩ := h
    rw [bind_eq_ok] at h₁
    obtain ⟨n, hn, h₁⟩ := h₁
    cases h₁; cases h
    refine .inr ⟨rfl, f, n, none, _, hf, node_eq_ok.1 hn, fun hne => absurd h0 hne,
      ⟨not_lt.1 hneg, h0 ▸ by decide, .inl ⟨h0, rfl, rfl⟩⟩, ?_⟩
    simp only [modEntry, modNode, dmassFree_entries, modifyAt_eq hf, modifyAt_insert]
    rfl
  split at h
  · cases h; exact .inl ⟨by decide, rfl⟩
  rename_i hle
  rcases malloc_cases k 0 s with ⟨hk, -⟩ | ⟨a, ha, hk, -⟩
  · rw [dmassMalloc_none hk] at h
    cases h; exact .inl ⟨by decide, rfl⟩
  rw [dmassMalloc_some hk] at h
  dsimp only at h
  rw [bind_eq_ok] at h
  obtain ⟨s₁, h₁, h⟩ := h
  obtain ⟨f, b, hf, rfl, hM, rfl⟩ := moveData_ok h₁
  rw [length_fill] at hM
  unfold setSize at h
  rw [bind_eq_ok] at h
  obtain ⟨s₂, h₂, h⟩ := h
  rw [bind_eq_ok] at h₂
  obtain ⟨n, hn, h₂⟩ := h₂
  cases h₂; cases h
  refine .inr ⟨rfl, f, n, some b, _, hf, node_eq_ok.1 hn, fun _ => by rw [hk]; rfl,
    ⟨not_lt.1 hneg, not_lt.1 hle, .inr ⟨b, rfl, ha, rfl, hM⟩⟩, ?_⟩
  simp only [modEntry, modNode, modifyAt_insert]

/-- `vop_chstat` and `vop_chstat_by_fd` once they have found the entry. A failure may leave the new mode. -/
theorem chstatEntry_ok {stat : SceIoStat} {bit : UInt32} (h : chstatEntry k v e stat bit s = .ok (r, s')) :
    ∃ f mode, s.entries.lookup e = some f ∧ mode &&& SCE_S_IFMT = f.stat.stMode &&& SCE_S_IFMT ∧
      ((∃ times : SceIoStat, times.stMode = mode ∧ times.stSize = f.stat.stSize ∧
          (bit &&& SCE_CST_SIZE = 0 ∨ r < 0) ∧
          s' = { s with entries := s.entries.insert e { f with stat := times } }) ∨
        (r = 0 ∧ SizeReached k s f stat bit ∧ ∃ n data bufs, ∃ times : SceIoStat, s.vnodes.lookup v = some n ∧
          times.stMode = mode ∧ times.stSize = stat.stSize ∧ Resized s f stat.stSize data bufs ∧
          s' = { s with
            entries := s.entries.insert e { f with data := data, stat := times }
            bufs := bufs
            vnodes := modifyAt s.vnodes v fun n => { n with stSize := stat.stSize } })) := by
  unfold chstatEntry at h
  rw [bind_eq_ok] at h
  obtain ⟨f, hf, h⟩ := h
  rw [entry_eq_ok] at hf
  split at h
  · cases h
    exact ⟨f, f.stat.stMode, hf, rfl, .inl ⟨f.stat, rfl, rfl, .inr (by decide), by rw [insert_lookup_self hf]⟩⟩
  rename_i hmode
  dsimp only at h
  -- the entry after the `SCE_CST_MODE` part
  obtain ⟨mode, hm, hs⟩ : ∃ mode, mode &&& SCE_S_IFMT = f.stat.stMode &&& SCE_S_IFMT ∧
      (if bit &&& SCE_CST_MODE ≠ 0 then
        s.modEntry e fun f => { f with stat := { f.stat with stMode := stat.stMode } } else s) =
      { s with entries := s.entries.insert e { f with stat := { f.stat with stMode := mode } } } := by
    by_cases hb : bit &&& SCE_CST_MODE ≠ 0
    · refine ⟨stat.stMode, ?_, ?_⟩
      · by_contra hne
        exact hmode ⟨hb, fun e => hne e.symm⟩
      · rw [if_pos hb, modEntry, modifyAt_eq hf]
    · exact ⟨f.stat.stMode, rfl, by rw [if_neg hb, insert_lookup_self hf]⟩
  rw [hs] at h
  refine ⟨f, mode, hf, hm, ?_⟩
  rw [bind_eq_ok] at h
  obtain ⟨⟨res, s₁⟩, h₁, h⟩ := h
  dsimp only at h
  split at h₁
  · rename_i hbit
    rcases chstatSize_ok h₁ with ⟨hr, rfl⟩ | ⟨rfl, f₁, n, data, bufs, hf₁, hn, hgiven, hR, rfl⟩
    · rw [if_pos hr] at h
      obtain ⟨rfl, rfl⟩ := Prod.mk.inj (Except.ok.inj h)
      exact .inl ⟨{ f.stat with stMode := mode }, rfl, rfl, .inr hr, rfl⟩
    · dsimp only at hf₁
      rw [lookup_insert_ite, if_pos rfl] at hf₁
      cases hf₁
      cases h
      rw [live_insert hf] at hgiven
      have hreached : SizeReached k s f stat bit :=
        ⟨hbit, fun hb => not_not.1 fun hne => hmode ⟨hb, hne⟩, hR.nonneg, hR.le, hgiven⟩
      refine .inr ⟨rfl, hreached, n, data, bufs, chstatTimes stat bit { f.stat with
        stMode := mode, stSize := stat.stSize }, hn, rfl, rfl, ⟨hR.nonneg, hR.le, ?_⟩, ?_⟩
      · rcases hR.block with h0 | ⟨b, hb, hba, hbufs, hM⟩
        · exact .inl h0
        · exact .inr ⟨b, hb, by rwa [live_insert hf] at hba, hbufs, hM.length, hM.room, hM.src, hM.bytes⟩
      · simp [modEntry, modifyAt_insert]
  · rename_i hbit
    cases h₁; cases h
    refine .inl ⟨chstatTimes stat bit { f.stat with stMode := mode }, rfl, rfl, .inl (not_not.1 hbit), ?_⟩
    simp [modEntry, modifyAt_insert]

theorem vopChstat_ok {argp : SceVopChstatArgs} (h : vopChstat k argp s = .ok (r, s')) : (r < 0 ∧ s' = s) ∨
    ∃ e, getFsEntry argp.fileInfo.path s = .ok (.ok (some e)) ∧
      chstatEntry k argp.node e argp.stat argp.bit s = .ok (r, s') := by
  unfold vopChstat at h
  rw [bind_eq_ok] at h
  obtain ⟨x, hx, h⟩ := h
  split at h
  · cases h; exact .inl ⟨getFsEntry_neg hx, rfl⟩
  rw [bind_eq_ok] at h
  obtain ⟨⟨e, f⟩, hd, h⟩ := h
  rw [deref_eq_ok] at hd
  obtain ⟨rfl, -⟩ := hd
  exact .inr ⟨e, hx, h⟩

theorem vopChstatByFd_ok {argp : SceVopChstatByFdArgs} (h : vopChstatByFd k argp s = .ok (r, s')) :
    (r < 0 ∧ s' = s) ∨ ∃ n e, s.vnodes.lookup argp.pNode = some n ∧ n.devInfo = some e ∧
      chstatEntry k argp.pNode e argp.stat argp.bit s = .ok (r, s') := by
  unfold vopChstatByFd at h
  rw [bind_eq_ok] at h
  obtain ⟨n, hn, h⟩ := h
  split at h
  · cases h; exact .inl ⟨by decide, rfl⟩
  · exact .inr ⟨n, _, node_eq_ok.1 hn, ‹_›, h⟩

/-! ### Handles -/

theorem vopOpen_ok {argp : SceVfsOpen} (h : vopOpen k argp s = .ok (r, s')) : (r < 0 ∧ s' = s) ∨
    (r = 0 ∧ ∃ n e f a, s.vnodes.lookup argp.node = some n ∧ n.devInfo = some e ∧
      s.entries.lookup e = some f ∧ a ∉ s.live ∧
      ∃ o, o = (if (s.files argp.pVfsFileObject).flags &&& SCE_O_APPEND ≠ 0 then f.stat.stSize
        else (s.files argp.pVfsFileObject).offset) ∧
      s' = { s.setOffset argp.pVfsFileObject o with
        entries := s.entries.insert e { f with
          pDmassFsX := ⟨a, argp.pVfsFileObject.toInt32, none⟩ :: f.pDmassFsX
          refer := f.refer + 1 }
        bufs := insert a s.bufs }) := by
  unfold vopOpen at h
  rw [bind_eq_ok] at h
  obtain ⟨n, hn, h⟩ := h
  split at h
  · cases h; exact .inl ⟨by decide, rfl⟩
  rename_i e he
  rw [bind_eq_ok] at h
  obtain ⟨⟨object, s₁⟩, hx, h⟩ := h
  rcases createDmassCtlData_ok hx with ⟨rfl, rfl⟩ | ⟨a, f, rfl, ha, hf, rfl⟩
  · cases h; exact .inl ⟨by decide, rfl⟩
  dsimp only at h
  rw [bind_eq_ok] at h
  obtain ⟨f', hf', h⟩ := h
  rw [entry_eq_ok, lookup_modEntry, if_pos rfl, hf] at hf'
  cases hf'
  dsimp only at hf h
  refine .inr ?_
  split at h
  · rename_i happ
    cases h
    refine ⟨rfl, n, e, f, a, node_eq_ok.1 hn, he, hf, ha, _, (if_pos happ).symm, ?_⟩
    simp only [modEntry, modifyAt_eq hf]
    rfl
  · rename_i happ
    cases h
    refine ⟨rfl, n, e, f, a, node_eq_ok.1 hn, he, hf, ha, _, (if_neg happ).symm, ?_⟩
    simp only [modEntry, modifyAt_eq hf, setOffset, Function.update_eq_self]

theorem vopClose_ok {argp : SceVfsClose} (h : vopClose argp s = .ok (r, s')) : (r < 0 ∧ s' = s) ∨
    (r = 0 ∧ ∃ n e, s.vnodes.lookup argp.node = some n ∧ n.devInfo = some e ∧
      HandleDropped s s' e argp.pVfsFileObject.toInt32) := by
  unfold vopClose at h
  rw [bind_eq_ok] at h
  obtain ⟨n, hn, h⟩ := h
  split at h
  · cases h; exact .inl ⟨by decide, rfl⟩
  rename_i e he
  rw [bind_eq_ok] at h
  obtain ⟨f, hf, h⟩ := h
  split at h
  · cases h; exact .inl ⟨by decide, rfl⟩
  rw [bind_eq_ok] at h
  obtain ⟨⟨res, s₁⟩, hdel, h⟩ := h
  rcases deleteDmassCtlData_ok hdel with ⟨hr, rfl⟩ | ⟨rfl, hd⟩
  · dsimp only at h
    rw [if_pos hr] at h
    cases h; exact .inl ⟨hr, rfl⟩
  · cases h; exact .inr ⟨rfl, n, e, node_eq_ok.1 hn, he, hd⟩

theorem vopRead_ok {argp : SceVfsRead} {out : List UInt8} (h : vopRead argp s = .ok (r, out, s')) : s' = s ∨
    ∃ n e f, ∃ m : Nat, s.vnodes.lookup argp.node = some n ∧ n.devInfo = some e ∧
      s.entries.lookup e = some f ∧ (searchDmassCtlData argp.pVfsFileObject.toInt32 f.pDmassFsX).isSome ∧
      (s.files argp.pVfsFileObject).offset + m ≤ f.stat.stSize ∧
      s' = s.setOffset argp.pVfsFileObject ((s.files argp.pVfsFileObject).offset + m) := by
  unfold vopRead at h
  rw [bind_eq_ok] at h
  obtain ⟨n, hn, h⟩ := h
  split at h
  · cases h; exact .inl rfl
  rename_i e he
  rw [bind_eq_ok] at h
  obtain ⟨f, hf, h⟩ := h
  dsimp only at h
  split at h
  · cases h; exact .inl rfl
  rename_i x hx
  split at h
  · cases h; exact .inl rfl
  split at h
  · cases h; exact .inl rfl
  split at h
  · cases h; exact .inl rfl
  split at h
  · cases h; exact .inl rfl
  rename_i hrem
  rw [bind_eq_ok] at h
  obtain ⟨bytes, -, h⟩ := h
  obtain ⟨-, h⟩ := Prod.mk.inj (Except.ok.inj h)
  obtain ⟨-, rfl⟩ := Prod.mk.inj h
  refine .inr ⟨n, e, f, _, node_eq_ok.1 hn, he, entry_eq_ok.1 hf, by rw [hx]; rfl, ?_, rfl⟩
  have hm : toSize (f.stat.stSize - (s.files argp.pVfsFileObject).offset) =
      f.stat.stSize - (s.files argp.pVfsFileObject).offset := by
    unfold toSize; omega
  split <;> omega

theorem vopLseek_ok {argp : SceVopLseekArgs} (h : vopLseek argp s = .ok (r, s')) : (r < 0 ∧ s' = s) ∨
    (0 ≤ r ∧ ∃ n, s.vnodes.lookup argp.node = some n ∧ r ≤ n.stSize ∧ s' = s.setOffset argp.pVfsFileObject r) := by
  unfold vopLseek at h
  rw [bind_eq_ok] at h
  obtain ⟨n, hn, h⟩ := h
  dsimp only at h
  split at h
  · cases h; exact .inl ⟨by decide, rfl⟩
  split at h
  · cases h; exact .inl ⟨by decide, rfl⟩
  rename_i hr
  push Not at hr
  cases h
  exact .inr ⟨hr.2, n, node_eq_ok.1 hn, hr.1, rfl⟩

end VitaUtility.Dmass

import VitaUtility.Dmass.Capacity
import VitaUtility.Dmass.Resize

/-!
# The copies of `vop_pread`, `vop_pwrite` and `vop_write`

Each call up to its `memcpy`, so that the copy can be looked at. The tests before it bound the offset from above
only, and the size for the new buffer is rounded in 64 bits and then cut to 32.
-/

namespace VitaUtility.Dmass
open VfsState

variable {s : VfsState} {k : Answers} {e : Addr} {v : NodePtr} {h : FilePtr} {n : SceVfsNode} {f : FapsDmassFs}
  {data : Option DataBlock} {src : Nat → UInt8} {nbyte : UInt32} {offset : Int64} {o size x : Int} {w : Nat}

/-- `n` bytes from `offset` on of the buffer `data`: the side of a `memcpy` that is not the caller's. -/
structure Copy where
  data : Option DataBlock
  offset : Int
  n : Nat

/-- Each byte is one of the first `size` bytes of the buffer. -/
def Copy.Inside (c : Copy) (size : Int) : Prop :=
  ∀ i < c.n, toSize (c.offset + i) < size ∧ toSize (c.offset + i) < capacity c.data

/-- `vop_pread` up to its copy, or what it returns without one. -/
def preadCopy (argp : SceVopPreadArgs) (s : VfsState) : Except Fault (Int ⊕ Copy) := do
  let n ← s.node argp.node
  match n.devInfo with
  | none => return .inl (-1)
  | some pEntry =>
  let f ← s.entry pEntry
  match searchDmassCtlData argp.pVfsFileObject.toInt32 f.pDmassFsX with
  | none => return .inl (-1)
  | some _ =>
  let offset := argp.offset.toInt
  if n.stSize > 0xFFFFFFFF ∨ offset > 0xFFFFFFFF then return .inl (-1) else
  if offset > n.stSize then return .inl (-1) else
  if argp.node ≠ (s.files argp.pVfsFileObject).node then return .inl (-3) else
  if offset ≥ n.stSize then return .inl 0 else
  let remainSize := n.stSize - offset
  let rSize := if argp.nbyte.toNat ≥ toSize remainSize then toSize remainSize else argp.nbyte.toNat
  return .inr ⟨f.data, offset, rSize⟩

/-- The growth of `vop_write` and `vop_pwrite`, and the copy after it. -/
def storeCopy (k : Answers) (e : Addr) (offset : Int) (wSize : Nat) (s : VfsState) :
    Except Fault (Int ⊕ VfsState × Addr × Copy) := do
  match ← growData k e wSize s with
  | none => return .inl (-2)
  | some s =>
  let f ← s.entry e
  return .inr (s, e, ⟨f.data, offset, wSize⟩)

/-- `vop_pwrite` up to its copy into the entry it names; what it returns before leaves the state. -/
def pwriteCopy (k : Answers) (argp : SceVopPwriteArgs) (s : VfsState) :
    Except Fault (Int ⊕ VfsState × Addr × Copy) := do
  let n ← s.node argp.node
  match n.devInfo with
  | none => return .inl (-1)
  | some pEntry =>
  let f ← s.entry pEntry
  match searchDmassCtlData argp.pVfsFileObject.toInt32 f.pDmassFsX with
  | none => return .inl (-1)
  | some _ =>
  let offset := argp.offset.toInt
  if n.stSize > 0xFFFFFFFF ∨ offset > 0xFFFFFFFF then return .inl (-1) else
  if offset > n.stSize then return .inl (-1) else
  if argp.node ≠ (s.files argp.pVfsFileObject).node then return .inl (-3) else
  storeCopy k pEntry offset argp.nbyte.toNat s

/-- `vop_write` up to its copy. -/
def writeCopy (k : Answers) (argp : SceVfsWrite) (s : VfsState) :
    Except Fault (Int ⊕ VfsState × Addr × Copy) := do
  let n ← s.node argp.node
  match n.devInfo with
  | none => return .inl (-1)
  | some pEntry =>
  let f ← s.entry pEntry
  let o := s.files argp.pVfsFileObject
  match searchDmassCtlData argp.pVfsFileObject.toInt32 f.pDmassFsX with
  | none => return .inl (-1)
  | some _ =>
  if n.stSize > 0xFFFFFFFF ∨ o.offset > 0xFFFFFFFF then return .inl (-1) else
  if argp.node ≠ o.node then return .inl (-3) else
  storeCopy k pEntry o.offset argp.nbyte.toNat s

theorem vopPread_eq (argp : SceVopPreadArgs) (s : VfsState) : vopPread argp s = preadCopy argp s >>= fun
    | .inl r => .ok (r, [])
    | .inr c => memRead c.data c.offset c.n >>= fun data => .ok (toSSize c.n, data) := by
  unfold vopPread preadCopy
  rw [bind_assoc]
  refine bind_congr fun n => ?_
  cases n.devInfo with
  | none => rfl
  | some e =>
  dsimp only
  rw [bind_assoc]
  refine bind_congr fun f => ?_
  cases searchDmassCtlData argp.pVfsFileObject.toInt32 f.pDmassFsX with
  | none => rfl
  | some x =>
  dsimp only
  split
  · rfl
  split
  · rfl
  split
  · rfl
  split <;> rfl

theorem vopPwrite_eq (k : Answers) (argp : SceVopPwriteArgs) (s : VfsState) :
    vopPwrite k argp s = pwriteCopy k argp s >>= fun
    | .inl r => .ok (r, s)
    | .inr (s, e, c) => do
      let f ← s.entry e
      let data ← memWrite c.data c.offset (fill argp.data c.n)
      let s := s.modEntry e fun f => { f with data := data }
      if c.offset + c.n > f.stat.stSize then
        let s := s.modEntry e fun f => { f with stat := { f.stat with stSize := c.offset + c.n } }
        return (toSSize c.n, s.modNode argp.node fun n => { n with stSize := c.offset + c.n })
      else return (toSSize c.n, s) := by
  unfold vopPwrite pwriteCopy
  rw [bind_assoc]
  refine bind_congr fun n => ?_
  cases n.devInfo with
  | none => rfl
  | some e =>
  dsimp only
  rw [bind_assoc]
  refine bind_congr fun f => ?_
  cases searchDmassCtlData argp.pVfsFileObject.toInt32 f.pDmassFsX with
  | none => rfl
  | some x =>
  dsimp only
  split
  · rfl
  split
  · rfl
  split
  · rfl
  unfold storeCopy
  rw [bind_assoc]
  refine bind_congr fun y => ?_
  cases y with
  | none => rfl
  | some s₁ =>
  dsimp only
  rw [bind_assoc]
  cases hf : s₁.entry e with
  | error c => rfl
  | ok f₁ =>
    show _ = (s₁.entry e >>= _)
    rw [hf]
    rfl

theorem vopWrite_eq (k : Answers) (argp : SceVfsWrite) (s : VfsState) :
    vopWrite k argp s = writeCopy k argp s >>= fun
    | .inl r => .ok (r, s)
    | .inr (s, e, c) => do
      let f ← s.entry e
      let data ← memWrite c.data c.offset (fill argp.data c.n)
      let s := (s.modEntry e fun f => { f with data := data }).setOffset argp.pVfsFileObject (c.offset + c.n)
      if c.offset + c.n ≥ f.stat.stSize then
        let s := s.modEntry e fun f => { f with stat := { f.stat with stSize := c.offset + c.n } }
        return (toSSize c.n, s.modNode argp.node fun n => { n with stSize := c.offset + c.n })
      else return (toSSize c.n, s) := by
  unfold vopWrite writeCopy
  rw [bind_assoc]
  refine bind_congr fun n => ?_
  cases n.devInfo with
  | none => rfl
  | some e =>
  dsimp only
  rw [bind_assoc]
  refine bind_congr fun f => ?_
  cases searchDmassCtlData argp.pVfsFileObject.toInt32 f.pDmassFsX with
  | none => rfl
  | some x =>
  dsimp only
  split
  · rfl
  split
  · rfl
  unfold storeCopy
  rw [bind_assoc]
  refine bind_congr fun y => ?_
  cases y with
  | none => rfl
  | some s₁ =>
  dsimp only
  rw [bind_assoc]
  cases hf : s₁.entry e with
  | error c => rfl
  | ok f₁ =>
    show _ = (s₁.entry e >>= _)
    rw [hf]
    rfl

/-! ### Up to the copy -/

/-- The handle `h` is open on `f`, the entry of its vnode `v`. -/
def opened (s : VfsState) (v : NodePtr) (h : FilePtr) (f : FapsDmassFs) : Prop :=
  (searchDmassCtlData h.toInt32 f.pDmassFsX).isSome ∧ v = (s.files h).node

theorem preadCopy_rejected (nbyte : UInt32) (offset : Int64) (hn : s.vnodes.lookup v = some n) (hd : n.devInfo = some e)
    (hf : s.entries.lookup e = some f) (hno : opened s v h f → n.stSize ≤ 0xFFFFFFFF → n.stSize < offset.toInt) :
    Gives (preadCopy ⟨v, h, nbyte, offset⟩ s) fun x => ∃ r < 0, x = .inl r := by
  refine Gives.bind (node_eq_ok.2 hn) ?_
  rw [hd]
  refine Gives.bind (entry_eq_ok.2 hf) ?_
  dsimp only
  split
  · exact ⟨_, rfl, -1, by decide, rfl⟩
  rename_i x hx
  split
  · exact ⟨_, rfl, -1, by decide, rfl⟩
  split
  · exact ⟨_, rfl, -1, by decide, rfl⟩
  split
  · exact ⟨_, rfl, -3, by decide, rfl⟩
  rename_i hbig hpast hnode
  have := hno ⟨by rw [hx]; rfl, not_not.1 hnode⟩ (by omega)
  omega

theorem preadCopy_end (hn : s.vnodes.lookup v = some n) (hd : n.devInfo = some e)
    (hf : s.entries.lookup e = some f) (hopen : opened s v h f) (hle : n.stSize ≤ 0xFFFFFFFF)
    (ho : offset.toInt = n.stSize) : preadCopy ⟨v, h, nbyte, offset⟩ s = .ok (.inl 0) := by
  obtain ⟨x, hx⟩ := Option.isSome_iff_exists.1 hopen.1
  refine bind_eq_ok.2 ⟨n, node_eq_ok.2 hn, ?_⟩
  rw [hd]
  refine bind_eq_ok.2 ⟨f, entry_eq_ok.2 hf, ?_⟩
  dsimp only
  rw [hx]
  dsimp only
  rw [if_neg (by omega), if_neg (by omega), if_neg (not_not.2 hopen.2), if_pos (by omega)]
  rfl

theorem preadCopy_copy (hn : s.vnodes.lookup v = some n) (hd : n.devInfo = some e)
    (hf : s.entries.lookup e = some f) (hopen : opened s v h f) (hle : n.stSize ≤ 0xFFFFFFFF)
    (ho : offset.toInt < n.stSize) : preadCopy ⟨v, h, nbyte, offset⟩ s =
      .ok (.inr ⟨f.data, offset.toInt, min (toSize (n.stSize - offset.toInt)) nbyte.toNat⟩) := by
  obtain ⟨x, hx⟩ := Option.isSome_iff_exists.1 hopen.1
  refine bind_eq_ok.2 ⟨n, node_eq_ok.2 hn, ?_⟩
  rw [hd]
  refine bind_eq_ok.2 ⟨f, entry_eq_ok.2 hf, ?_⟩
  dsimp only
  rw [hx]
  dsimp only
  rw [if_neg (by omega), if_neg (by omega), if_neg (not_not.2 hopen.2), if_neg (by omega), min_def]
  rfl

theorem pwriteCopy_rejected (k : Answers) (src : Nat → UInt8) (nbyte : UInt32) (offset : Int64)
    (hn : s.vnodes.lookup v = some n) (hd : n.devInfo = some e)
    (hf : s.entries.lookup e = some f) (hno : opened s v h f → n.stSize ≤ 0xFFFFFFFF → n.stSize < offset.toInt) :
    Gives (pwriteCopy k ⟨v, h, src, nbyte, offset⟩ s) fun x => ∃ r < 0, x = .inl r := by
  refine Gives.bind (node_eq_ok.2 hn) ?_
  rw [hd]
  refine Gives.bind (entry_eq_ok.2 hf) ?_
  dsimp only
  split
  · exact ⟨_, rfl, -1, by decide, rfl⟩
  rename_i x hx
  split
  · exact ⟨_, rfl, -1, by decide, rfl⟩
  split
  · exact ⟨_, rfl, -1, by decide, rfl⟩
  split
  · exact ⟨_, rfl, -3, by decide, rfl⟩
  rename_i hbig hpast hnode
  have := hno ⟨by rw [hx]; rfl, not_not.1 hnode⟩ (by omega)
  omega

theorem pwriteCopy_store (hn : s.vnodes.lookup v = some n) (hd : n.devInfo = some e)
    (hf : s.entries.lookup e = some f) (hopen : opened s v h f) (hle : n.stSize ≤ 0xFFFFFFFF)
    (ho : offset.toInt ≤ n.stSize) :
    pwriteCopy k ⟨v, h, src, nbyte, offset⟩ s = storeCopy k e offset.toInt nbyte.toNat s := by
  obtain ⟨x, hx⟩ := Option.isSome_iff_exists.1 hopen.1
  unfold pwriteCopy
  simp only [node_eq_ok.2 hn, ok_bind, hd, entry_eq_ok.2 hf, hx]
  rw [if_neg (by omega), if_neg (by omega), if_neg (not_not.2 hopen.2)]

theorem writeCopy_rejected (k : Answers) (src : Nat → UInt8) (nbyte : UInt32)
    (hn : s.vnodes.lookup v = some n) (hd : n.devInfo = some e) (hf : s.entries.lookup e = some f)
    (hno : opened s v h f → n.stSize ≤ 0xFFFFFFFF → 0xFFFFFFFF < (s.files h).offset) :
    Gives (writeCopy k ⟨v, h, src, nbyte⟩ s) fun x => ∃ r < 0, x = .inl r := by
  refine Gives.bind (node_eq_ok.2 hn) ?_
  rw [hd]
  refine Gives.bind (entry_eq_ok.2 hf) ?_
  dsimp only
  split
  · exact ⟨_, rfl, -1, by decide, rfl⟩
  rename_i x hx
  split
  · exact ⟨_, rfl, -1, by decide, rfl⟩
  split
  · exact ⟨_, rfl, -3, by decide, rfl⟩
  rename_i hbig hnode
  have := hno ⟨by rw [hx]; rfl, not_not.1 hnode⟩ (by omega)
  omega

theorem writeCopy_store (hn : s.vnodes.lookup v = some n) (hd : n.devInfo = some e)
    (hf : s.entries.lookup e = some f) (hopen : opened s v h f) (hle : n.stSize ≤ 0xFFFFFFFF)
    (ho : (s.files h).offset ≤ 0xFFFFFFFF) :
    writeCopy k ⟨v, h, src, nbyte⟩ s = storeCopy k e (s.files h).offset nbyte.toNat s := by
  obtain ⟨x, hx⟩ := Option.isSome_iff_exists.1 hopen.1
  unfold writeCopy
  simp only [node_eq_ok.2 hn, ok_bind, hd, entry_eq_ok.2 hf, hx]
  rw [if_neg (by omega), if_neg (not_not.2 hopen.2)]

theorem storeCopy_ok {y : VfsState × Addr × Copy} (h : storeCopy k e o w s = .ok (.inr y)) :
    ∃ f data bufs, s.entries.lookup e = some f ∧ Grown s f w data bufs ∧ y.2.2 = ⟨data, o, w⟩ := by
  unfold storeCopy at h
  rw [bind_eq_ok] at h
  obtain ⟨z, hz, h⟩ := h
  rcases growData_ok hz with rfl | ⟨f, data, bufs, hf, hG, rfl⟩
  · cases h
  dsimp only at h
  rw [bind_eq_ok] at h
  obtain ⟨f₁, hf₁, h⟩ := h
  rw [entry_eq_ok, lookup_insert_ite, if_pos rfl] at hf₁
  cases hf₁
  cases h
  exact ⟨f, data, bufs, hf, hG, rfl⟩

theorem storeCopy_inl {r : Int} (hf : s.entries.lookup e = some f) (h : storeCopy k e o w s = .ok (.inl r)) :
    k.block 0 s.live = none := by
  unfold storeCopy at h
  rw [bind_eq_ok] at h
  obtain ⟨z, hz, h⟩ := h
  cases z with
  | some s₁ =>
    dsimp only at h
    rw [bind_eq_ok] at h
    obtain ⟨f₁, -, h⟩ := h
    cases h
  | none =>
    by_cases hgt : blockAlign (f.stat.stSize + w) > blockAlign f.stat.stSize
    · rcases malloc_cases k 0 s with ⟨hk, -⟩ | ⟨a, -, hk, -⟩
      · exact hk
      rw [growData_moves hf hgt hk, bind_eq_ok] at hz
      obtain ⟨s₁, -, hz⟩ := hz
      cases hz
    · rw [growData_stay hf (not_lt.1 hgt)] at hz
      cases hz

theorem storeCopy_refused (hf : s.entries.lookup e = some f)
    (hgt : blockAlign (f.stat.stSize + w) > blockAlign f.stat.stSize) (hk : k.block 0 s.live = none) :
    storeCopy k e o w s = .ok (.inl (-2)) := by
  unfold storeCopy
  rw [growData_refused hf hgt hk]
  rfl

/-- The size that is copied fits both buffers, so the copy is reached. -/
theorem storeCopy_total (hf : s.entries.lookup e = some f) (hsrc : toSize f.stat.stSize ≤ capacity f.data)
    (hroom : toSize f.stat.stSize ≤ grownCapacity f w)
    (hk : blockAlign (f.stat.stSize + w) > blockAlign f.stat.stSize → (k.block 0 s.live).isSome) :
    ∃ s₁ data, storeCopy k e o w s = .ok (.inr (s₁, e, ⟨data, o, w⟩)) ∧ s₁.view (·.data) e = some data ∧
      capacity data = grownCapacity f w := by
  obtain ⟨s₁, h₁⟩ : ∃ s₁, growData k e w s = .ok (some s₁) := by
    by_cases hgt : blockAlign (f.stat.stSize + w) > blockAlign f.stat.stSize
    · obtain ⟨a, ha⟩ := Option.isSome_iff_exists.1 (hk hgt)
      rw [grownCapacity, if_pos hgt] at hroom
      obtain ⟨s₁, h₁⟩ := moveData_total (a := a) hf hsrc (hroom.trans_eq length_fill.symm)
      exact ⟨s₁, (growData_moves hf hgt ha).trans (bind_eq_ok.2 ⟨s₁, h₁, rfl⟩)⟩
    · exact ⟨s, growData_stay hf (not_lt.1 hgt)⟩
  rcases growData_ok h₁ with hno | ⟨f', data, bufs, hf', hG, hs₁⟩
  · cases hno
  cases hs₁
  obtain rfl := Option.some.inj (hf.symm.trans hf')
  have hlook := Finmap.lookup_insert s.entries (a := e) (b := { f with data := data })
  exact ⟨_, data, bind_eq_ok.2 ⟨_, h₁, bind_eq_ok.2 ⟨_, entry_eq_ok.2 hlook, rfl⟩⟩, congrArg _ hlook, hG.size⟩

/-! ### The arithmetic of the tests -/

theorem blockAlign_bounds (h0 : 0 ≤ x) (hx : x < 2 ^ 62) :
    x ≤ blockAlign x ∧ blockAlign x < x + 512 ∧ 512 ∣ blockAlign x := by
  obtain ⟨m, rfl⟩ := Int.eq_ofNat_of_zero_le h0
  rw [show ((m : Nat) : Int) = m from rfl, blockAlign_eq (by omega)]
  omega

theorem RoundedRoom.le (hroom : RoundedRoom f) : blockAlign f.stat.stSize ≤ capacity f.data := by
  rcases hroom with ⟨h0, hd⟩ | ⟨b, hd, hb⟩
  · rw [h0, hd]
    decide
  · rw [hd]
    exact hb

/-- The offset, as a 32-bit pointer takes it, is not past the `size` bytes of the file, or there is nothing to
copy. -/
def copyInside (o : Int) (w : Nat) (size : Int) : Prop := 0 ≤ o ∨ w = 0 ∨ toSize o ≤ size

theorem inside_read (h0 : 0 ≤ size) (hle : size ≤ 0xFFFFFFFF) (hcap : size ≤ capacity data) (ho : o < size) :
    Copy.Inside ⟨data, o, min (toSize (size - o)) w⟩ size ↔ copyInside o w size := by
  unfold Copy.Inside copyInside
  dsimp only
  constructor
  · intro hin
    by_contra hno
    have hpos : 0 < min (toSize (size - o)) w := by
      unfold toSize at *
      omega
    have hfirst : toSize o < size := by simpa using (hin 0 hpos).1
    omega
  · intro hin i hi
    have hlt : toSize (o + i) < size := by
      unfold toSize at *
      omega
    exact ⟨hlt, by omega⟩

theorem inside_store (h0 : 0 ≤ size) (hle : size + w ≤ maxSize) (hcap : size + w ≤ capacity data) (ho : o ≤ size) :
    Copy.Inside ⟨data, o, w⟩ (size + w) ↔ copyInside o w size := by
  unfold Copy.Inside copyInside
  unfold maxSize at hle
  dsimp only
  constructor
  · intro hin
    by_contra hno
    push Not at hno
    by_cases hfar : size + w ≤ toSize o
    · -- the first byte is outside
      have hfirst : toSize o < size + w := by simpa using (hin 0 (by omega)).1
      omega
    · have hi := hin (size + w - toSize o).toNat (by omega)
      unfold toSize at *
      omega
  · intro hin i hi
    have hlt : toSize (o + i) < size + w := by
      unfold toSize at *
      omega
    exact ⟨hlt, by omega⟩

/-- The growth test finds room, or the rounded size can be a `SceSize`. With a negative offset what is left of the
rounded size may do. -/
def lengthKept (o : Int) (w : Nat) (size : Int) : Prop :=
  blockAlign (size + w) ≤ blockAlign size ∨ size + w ≤ maxSize ∨
    (o < 0 ∧ size ≤ toSize (blockAlign (size + w)) ∧ o + w ≤ toSize (blockAlign (size + w)))

theorem grown_iff (h0 : 0 ≤ f.stat.stSize) (hle : f.stat.stSize ≤ 0xFFFFFFFF) (hroom : RoundedRoom f)
    (ho : o ≤ f.stat.stSize) (hw : w < 2 ^ 32) :
    (f.stat.stSize ≤ grownCapacity f w ∧ o + w ≤ grownCapacity f w) ↔ lengthKept o w f.stat.stSize := by
  have hcap := hroom.le
  obtain ⟨hlo₀, hhi₀, hdvd₀⟩ := blockAlign_bounds h0 (by omega)
  obtain ⟨hlo, hhi, hdvd⟩ := blockAlign_bounds (x := f.stat.stSize + w) (by omega) (by omega)
  unfold grownCapacity lengthKept maxSize
  split
  · unfold toSize
    omega
  · omega

/-! ### Positional calls -/

/-- `vop_pread` has a result of at most 0 without a copy, or copies from the `size` bytes of the file. -/
def PreadInside (argp : SceVopPreadArgs) (s : VfsState) (size : Int) : Prop :=
  Gives (preadCopy argp s) fun
    | .inl r => r ≤ 0
    | .inr c => c.Inside size

/-- `vop_pwrite` fails and changes nothing, or copies to the first `size` bytes of the buffer of its entry. -/
def PwriteInside (k : Answers) (argp : SceVopPwriteArgs) (s : VfsState) (size : Int) : Prop :=
  Gives (pwriteCopy k argp s) fun
    | .inl r => r < 0
    | .inr (s₁, e, c) => s₁.view (·.data) e = some c.data ∧ c.Inside size

/-- A copy that stays inside does not leave its buffer. -/
theorem Copy.Inside.fits {c : Copy} (hin : c.Inside size) (hle : size ≤ 0xFFFFFFFF) :
    c.n = 0 ∨ toSize c.offset + c.n ≤ capacity c.data := by
  by_cases hn : c.n = 0
  · exact .inl hn
  refine .inr ?_
  by_cases hwrap : toSize c.offset + c.n ≤ 0x100000000
  · have hlast := (hin (c.n - 1) (by omega)).2
    unfold toSize at *
    omega
  · -- a copy over the end of the address space has a byte there
    have hend := (hin (0xFFFFFFFF - toSize c.offset) (by omega)).1
    unfold toSize at *
    omega

theorem PreadInside.returns {argp : SceVopPreadArgs} (hin : PreadInside argp s size) (hle : size ≤ 0xFFFFFFFF) :
    Returns (vopPread argp s) := by
  obtain ⟨y, hy, hP⟩ := hin
  rw [vopPread_eq, hy]
  cases y with
  | inl r => exact ⟨_, rfl⟩
  | inr c =>
    show Returns (memRead c.data c.offset c.n >>= _)
    exact Returns.bind (memRead_eq_ok.2 ⟨hP.fits hle, rfl⟩) ⟨_, rfl⟩

theorem memWrite_fill (src : Nat → UInt8)
    (hfit : w = 0 ∨ toSize o + w ≤ capacity data) : Returns (memWrite data o (fill src w)) := by
  refine ⟨_, memWrite_eq_ok.2 ⟨?_, rfl⟩⟩
  rcases hfit with rfl | hfit
  · exact .inl rfl
  · exact .inr (by rwa [length_fill])

theorem PwriteInside.returns {argp : SceVopPwriteArgs} (hin : PwriteInside k argp s size) (hle : size ≤ 0xFFFFFFFF) :
    Returns (vopPwrite k argp s) := by
  obtain ⟨y, hy, hP⟩ := hin
  rw [vopPwrite_eq, hy]
  rcases y with r | ⟨s₁, e, c⟩
  · exact ⟨_, rfl⟩
  obtain ⟨f, hf, -⟩ := view_eq_some.1 hP.1
  obtain ⟨d, hd⟩ := memWrite_fill argp.data (hP.2.fits hle)
  show Returns (s₁.entry e >>= _)
  refine Returns.bind (entry_eq_ok.2 hf) (Returns.bind hd ?_)
  split <;> exact ⟨_, rfl⟩

theorem preadInside_iff (nbyte : UInt32) (offset : Int64) (hn : s.vnodes.lookup v = some n) (hd : n.devInfo = some e)
    (hf : s.entries.lookup e = some f) (hsize : n.stSize = f.stat.stSize) (h0 : 0 ≤ f.stat.stSize)
    (hle : f.stat.stSize ≤ 0xFFFFFFFF) (hcap : f.stat.stSize ≤ capacity f.data) :
    PreadInside ⟨v, h, nbyte, offset⟩ s f.stat.stSize ↔
      (opened s v h f → copyInside offset.toInt nbyte.toNat f.stat.stSize) := by
  by_cases hopen : opened s v h f
  swap
  · refine iff_of_true ?_ fun hop => absurd hop hopen
    obtain ⟨y, hy, r, hr, rfl⟩ := preadCopy_rejected nbyte offset hn hd hf
      fun hop => absurd hop hopen
    exact ⟨_, hy, hr.le⟩
  rw [← hsize] at h0 hle hcap ⊢
  rcases lt_trichotomy offset.toInt n.stSize with ho | ho | ho
  · unfold PreadInside
    rw [preadCopy_copy hn hd hf hopen hle ho, gives_ok]
    dsimp only
    rw [inside_read h0 hle hcap ho]
    exact ⟨fun hin _ => hin, fun hin => hin hopen⟩
  · refine iff_of_true ⟨_, preadCopy_end hn hd hf hopen hle ho, le_refl _⟩ fun _ => .inl (by omega)
  · obtain ⟨y, hy, r, hr, rfl⟩ := preadCopy_rejected nbyte offset hn hd hf fun _ _ => ho
    exact iff_of_true ⟨_, hy, hr.le⟩ fun _ => .inl (by omega)

theorem pwriteInside_iff (src : Nat → UInt8) (nbyte : UInt32) (offset : Int64)
    (hn : s.vnodes.lookup v = some n) (hd : n.devInfo = some e)
    (hf : s.entries.lookup e = some f) (hsize : n.stSize = f.stat.stSize) (h0 : 0 ≤ f.stat.stSize)
    (hle : f.stat.stSize ≤ 0xFFFFFFFF) (hroom : RoundedRoom f) (hw : f.stat.stSize + nbyte.toNat ≤ maxSize) :
    PwriteInside k ⟨v, h, src, nbyte, offset⟩ s (f.stat.stSize + nbyte.toNat) ↔ (opened s v h f →
      (blockAlign (f.stat.stSize + nbyte.toNat) > blockAlign f.stat.stSize → (k.block 0 s.live).isSome) →
        copyInside offset.toInt nbyte.toNat f.stat.stSize) := by
  by_cases hacc : opened s v h f ∧ offset.toInt ≤ f.stat.stSize
  swap
  · obtain ⟨y, hy, r, hr, rfl⟩ := pwriteCopy_rejected k src nbyte offset hn hd hf
      fun hop _ => by
        by_contra hlt
        exact hacc ⟨hop, by omega⟩
    refine iff_of_true ⟨_, hy, hr⟩ fun hop _ => ?_
    have hpast : ¬ offset.toInt ≤ f.stat.stSize := fun ho => hacc ⟨hop, ho⟩
    exact .inl (by omega)
  obtain ⟨hopen, ho⟩ := hacc
  unfold PwriteInside
  rw [pwriteCopy_store hn hd hf hopen (by omega) (by omega)]
  by_cases hk : blockAlign (f.stat.stSize + nbyte.toNat) > blockAlign f.stat.stSize → (k.block 0 s.live).isSome
  · have hto : (toSize f.stat.stSize : Int) = f.stat.stSize := by unfold toSize; omega
    have hcap := hroom.le
    obtain ⟨hlo, -⟩ := blockAlign_bounds h0 (by omega)
    obtain ⟨hkeep, hend⟩ := (grown_iff h0 hle hroom (le_refl _) nbyte.toNat_lt).2 (.inr (.inl hw))
    obtain ⟨s₁, data, hs₁, hdata, hsz⟩ := storeCopy_total (k := k) (o := offset.toInt) hf (by omega) (by omega) hk
    rw [hs₁, gives_ok]
    dsimp only
    rw [inside_store h0 hw (by omega) ho]
    exact ⟨fun hin _ _ => hin.2, fun hin => ⟨hdata, hin hopen hk⟩⟩
  · obtain ⟨hgt, hno⟩ := Classical.not_imp.1 hk
    have hfail := storeCopy_refused (o := offset.toInt) hf hgt (Option.not_isSome_iff_eq_none.1 hno)
    exact iff_of_true ⟨_, hfail, show (-2 : Int) < 0 by decide⟩ fun _ hyes => absurd hyes hk

/-- A call on an open file stays inside it unless its offset is negative and, cut to 32 bits, past the end. -/
theorem positional_iff (src : Nat → UInt8) (nbyte : UInt32) (offset : Int64) (hn : s.vnodes.lookup v = some n)
    (hd : n.devInfo = some e)
    (hf : s.entries.lookup e = some f) (hsize : n.stSize = f.stat.stSize) (h0 : 0 ≤ f.stat.stSize)
    (hle : f.stat.stSize ≤ 0xFFFFFFFF) (hroom : RoundedRoom f) (hw : f.stat.stSize + nbyte.toNat ≤ maxSize) :
    (PreadInside ⟨v, h, nbyte, offset⟩ s f.stat.stSize ↔
      (opened s v h f → copyInside offset.toInt nbyte.toNat f.stat.stSize)) ∧
    (PwriteInside k ⟨v, h, src, nbyte, offset⟩ s (f.stat.stSize + nbyte.toNat) ↔ (opened s v h f →
      (blockAlign (f.stat.stSize + nbyte.toNat) > blockAlign f.stat.stSize → (k.block 0 s.live).isSome) →
        copyInside offset.toInt nbyte.toNat f.stat.stSize)) := by
  have hcap := hroom.le
  obtain ⟨hlo, -⟩ := blockAlign_bounds h0 (by omega)
  exact ⟨preadInside_iff nbyte offset hn hd hf hsize h0 hle (by omega),
    pwriteInside_iff src nbyte offset hn hd hf hsize h0 hle hroom hw⟩

/-- The file of two bytes, as the handle 7 has it. -/
theorem twoBytes_file : ∃ n f, twoBytes.vnodes.lookup 1 = some n ∧ n.devInfo = some 4 ∧
    twoBytes.entries.lookup 4 = some f ∧ n.stSize = f.stat.stSize ∧ f.stat.stSize = 2 ∧ RoundedRoom f ∧
      isReg f.stat.stMode ∧ opened twoBytes 1 7 f := by
  have hn : (twoBytes.vnodes.lookup 1).map (fun n => (n.devInfo, n.stSize)) = some (some 4, 2) := by decide +kernel
  have hf : twoBytes.view (fun f => (f.stat.stSize, f.data.map (·.bytes.length), decide (isReg f.stat.stMode),
      (searchDmassCtlData 7 f.pDmassFsX).isSome)) 4 = some (2, some 512, true, true) := by decide +kernel
  obtain ⟨n, hn, hx⟩ := Option.map_eq_some_iff.1 hn
  obtain ⟨hd, hsize⟩ := Prod.mk.inj hx
  obtain ⟨f, hf, hx⟩ := view_eq_some.1 hf
  obtain ⟨h2, hx⟩ := Prod.mk.inj hx
  obtain ⟨hdata, hx⟩ := Prod.mk.inj hx
  obtain ⟨hreg, hopen⟩ := Prod.mk.inj hx
  obtain ⟨b, hb, h512⟩ := Option.map_eq_some_iff.1 hdata
  refine ⟨n, f, hn, hd, hf, hsize.trans h2.symm, h2, .inr ⟨b, hb, ?_⟩, of_decide_eq_true hreg, hopen, ?_⟩
  · rw [h2, h512]
    decide
  · decide +kernel

theorem positional_iff_twoBytes : PreadInside ⟨1, 7, 9, 1⟩ twoBytes 2 ∧
    PwriteInside idle ⟨1, 7, fun _ => 3, 9, 1⟩ twoBytes 11 := by
  obtain ⟨n, f, hn, hd, hf, hsize, h2, hroom, -⟩ := twoBytes_file
  have hin := positional_iff (k := idle) (h := 7) (fun _ => 3) 9 1 hn hd hf hsize
    (by omega) (by omega) hroom (by rw [h2]; decide)
  rw [h2] at hin
  exact ⟨hin.1.2 fun _ => .inl (by decide), hin.2.2 fun _ _ => .inl (by decide)⟩

/-- The byte before the buffer is read, and written. -/
theorem not_positional_before : ∃ n f, twoBytes.vnodes.lookup 1 = some n ∧ n.devInfo = some 4 ∧
    twoBytes.entries.lookup 4 = some f ∧ isReg f.stat.stMode ∧ n.stSize = f.stat.stSize ∧ f.stat.stSize = 2 ∧
      RoundedRoom f ∧ ¬ PreadInside ⟨1, 7, 1, -1⟩ twoBytes 2 ∧
        ¬ PwriteInside idle ⟨1, 7, fun _ => 3, 1, -1⟩ twoBytes 3 := by
  obtain ⟨n, f, hn, hd, hf, hsize, h2, hroom, hreg, hopen⟩ := twoBytes_file
  have hout : ¬ copyInside (-1) 1 2 := by
    rintro (h | h | h) <;> revert h <;> decide
  have hcap := hroom.le
  have halign : blockAlign 2 = 512 := by decide
  rw [h2, halign] at hcap
  have hread := preadInside_iff (h := 7) 1 (-1) hn hd hf hsize (by omega) (by omega)
    (by omega)
  have hwrite := pwriteInside_iff (k := idle) (h := 7) (fun _ => 3) 1 (-1) hn hd hf hsize
    (by omega) (by omega) hroom (by rw [h2]; decide)
  rw [h2] at hread hwrite
  exact ⟨n, f, hn, hd, hf, hreg, hsize, h2, hroom, fun hin => hout (hread.1 hin hopen),
    fun hin => hout (hwrite.1 hin hopen fun _ => rfl)⟩

/-! ### Growth -/

/-- A call fails, or comes to its copy with a buffer of the entry that has the bytes up to the end of the copy. -/
def GrowsEnough (x : Except Fault (Int ⊕ VfsState × Addr × Copy)) : Prop :=
  Gives x fun
    | .inl r => r < 0
    | .inr (s₁, e, c) => s₁.view (·.data) e = some c.data ∧ c.offset + c.n ≤ capacity c.data

theorem growsEnough_storeCopy (hf : s.entries.lookup e = some f) (h0 : 0 ≤ f.stat.stSize)
    (hle : f.stat.stSize ≤ 0xFFFFFFFF) (hroom : RoundedRoom f) (ho : o ≤ f.stat.stSize) (hw : w < 2 ^ 32) :
    GrowsEnough (storeCopy k e o w s) ↔ ((k.block 0 s.live).isSome → lengthKept o w f.stat.stSize) := by
  have hcap := hroom.le
  obtain ⟨hlo, -⟩ := blockAlign_bounds h0 (by omega)
  have hto : (toSize f.stat.stSize : Int) = f.stat.stSize := by unfold toSize; omega
  have hiff := grown_iff h0 hle hroom ho hw
  constructor
  · rintro ⟨y, hy, hP⟩ hk
    rcases y with r | ⟨s₁, e₁, c⟩
    · rw [storeCopy_inl hf hy] at hk
      cases hk
    obtain ⟨f', data, bufs, hf', hG, rfl⟩ := storeCopy_ok hy
    obtain rfl := Option.some.inj (hf.symm.trans hf')
    have hend := hP.2
    dsimp only at hend
    rw [hG.size] at hend
    -- the old content is the start of the new one, so the new buffer has room for it
    have hlen := congrArg List.length hG.bytes
    rw [List.length_take, List.length_take] at hlen
    have hsize := hG.size
    unfold capacity at hsize hcap
    exact hiff.1 ⟨by omega, hend⟩
  · intro hkept
    by_cases hno : blockAlign (f.stat.stSize + w) > blockAlign f.stat.stSize ∧ ¬ (k.block 0 s.live).isSome
    · have hfail := storeCopy_refused (o := o) hf hno.1 (Option.not_isSome_iff_eq_none.1 hno.2)
      exact ⟨_, hfail, show (-2 : Int) < 0 by decide⟩
    have hgrown : lengthKept o w f.stat.stSize := by
      by_cases hk : (k.block 0 s.live).isSome
      · exact hkept hk
      · exact .inl (not_lt.1 fun hgt => hno ⟨hgt, hk⟩)
    obtain ⟨hkeep, hend⟩ := hiff.2 hgrown
    obtain ⟨s₁, data, hs₁, hdata, hsz⟩ := storeCopy_total (k := k) (o := o) hf (by omega) (by omega)
      fun hgt => not_not.1 fun hk => hno ⟨hgt, hk⟩
    exact ⟨_, hs₁, hdata, by dsimp only; omega⟩

theorem writeCopy_offset {argp : SceVfsWrite} {y : VfsState × Addr × Copy} (hy : writeCopy k argp s = .ok (.inr y)) :
    y.2.2.offset = (s.files argp.pVfsFileObject).offset ∧ y.2.2.offset ≤ 0xFFFFFFFF := by
  unfold writeCopy at hy
  rw [bind_eq_ok] at hy
  obtain ⟨n, -, hy⟩ := hy
  split at hy
  · cases hy
  rw [bind_eq_ok] at hy
  obtain ⟨f, -, hy⟩ := hy
  dsimp only at hy
  split at hy
  · cases hy
  split at hy
  · cases hy
  rename_i hbig
  split at hy
  · cases hy
  obtain ⟨f', data, bufs, -, -, hc⟩ := storeCopy_ok hy
  rw [hc]
  exact ⟨rfl, by dsimp only; omega⟩

/-- With the buffer it needs, a `vop_write` at an offset that is not negative returns. -/
theorem GrowsEnough.returns {argp : SceVfsWrite} (hgrow : GrowsEnough (writeCopy k argp s))
    (h0 : 0 ≤ (s.files argp.pVfsFileObject).offset) : Returns (vopWrite k argp s) := by
  obtain ⟨y, hy, hP⟩ := hgrow
  rw [vopWrite_eq, hy]
  rcases y with r | ⟨s₁, e, c⟩
  · exact ⟨_, rfl⟩
  obtain ⟨ho, hle⟩ := writeCopy_offset hy
  obtain ⟨hdata, hend⟩ := hP
  obtain ⟨f, hf, -⟩ := view_eq_some.1 hdata
  dsimp only at ho hle
  have hto : (toSize c.offset : Int) = c.offset := by unfold toSize; omega
  have hfit : toSize c.offset + c.n ≤ capacity c.data := by omega
  obtain ⟨d, hd⟩ := memWrite_fill argp.data (.inr hfit)
  show Returns (s₁.entry e >>= _)
  refine Returns.bind (entry_eq_ok.2 hf) (Returns.bind hd ?_)
  split <;> exact ⟨_, rfl⟩

/-- A call whose tests pass and whose allocation is answered has the buffer it needs when it does not grow the file
past `maxSize`. -/
theorem growsEnough_iff (src : Nat → UInt8) (nbyte : UInt32) (offset : Int64)
    (hn : s.vnodes.lookup v = some n) (hd : n.devInfo = some e)
    (hf : s.entries.lookup e = some f) (h0 : 0 ≤ f.stat.stSize) (hle : f.stat.stSize ≤ 0xFFFFFFFF)
    (hroom : RoundedRoom f) :
    ((s.files h).offset ≤ f.stat.stSize → (GrowsEnough (writeCopy k ⟨v, h, src, nbyte⟩ s) ↔
      (opened s v h f → n.stSize ≤ 0xFFFFFFFF → (k.block 0 s.live).isSome →
        lengthKept (s.files h).offset nbyte.toNat f.stat.stSize))) ∧
    (offset.toInt ≤ f.stat.stSize → (GrowsEnough (pwriteCopy k ⟨v, h, src, nbyte, offset⟩ s) ↔
      (opened s v h f → n.stSize ≤ 0xFFFFFFFF → offset.toInt ≤ n.stSize → (k.block 0 s.live).isSome →
        lengthKept offset.toInt nbyte.toNat f.stat.stSize))) := by
  refine ⟨fun ho => ?_, fun ho => ?_⟩
  · by_cases hacc : opened s v h f ∧ n.stSize ≤ 0xFFFFFFFF
    · rw [writeCopy_store hn hd hf hacc.1 hacc.2 (by omega),
        growsEnough_storeCopy hf h0 hle hroom ho nbyte.toNat_lt]
      exact ⟨fun hk _ _ => hk, fun hk => hk hacc.1 hacc.2⟩
    · obtain ⟨y, hy, r, hr, rfl⟩ := writeCopy_rejected k src nbyte hn hd hf
        fun hop hsz => absurd ⟨hop, hsz⟩ hacc
      exact iff_of_true ⟨_, hy, hr⟩ fun hop hsz => absurd ⟨hop, hsz⟩ hacc
  · by_cases hacc : opened s v h f ∧ n.stSize ≤ 0xFFFFFFFF ∧ offset.toInt ≤ n.stSize
    · rw [pwriteCopy_store hn hd hf hacc.1 hacc.2.1 hacc.2.2,
        growsEnough_storeCopy hf h0 hle hroom ho nbyte.toNat_lt]
      exact ⟨fun hk _ _ _ => hk, fun hk => hk hacc.1 hacc.2.1 hacc.2.2⟩
    · obtain ⟨y, hy, r, hr, rfl⟩ := pwriteCopy_rejected k src nbyte offset hn hd hf
        fun hop hsz => not_le.1 fun ho => hacc ⟨hop, hsz, ho⟩
      exact iff_of_true ⟨_, hy, hr⟩ fun hop hsz ho => absurd ⟨hop, hsz, ho⟩ hacc

theorem offset_twoBytes : (twoBytes.files 7).offset = 2 := by decide +kernel

theorem growsEnough_iff_twoBytes : GrowsEnough (writeCopy idle ⟨1, 7, fun _ => 3, 600⟩ twoBytes) ∧
    GrowsEnough (pwriteCopy idle ⟨1, 7, fun _ => 3, 600, 1⟩ twoBytes) := by
  obtain ⟨n, f, hn, hd, hf, hsize, h2, hroom, -⟩ := twoBytes_file
  have hkept : ∀ o, lengthKept o 600 f.stat.stSize := by
    intro o
    rw [h2]
    exact .inr (.inl (by decide))
  have hgrow := growsEnough_iff (k := idle) (h := 7) (fun _ => 3) 600 1 hn hd hf (by omega) (by omega) hroom
  refine ⟨(hgrow.1 ?_).2 fun _ _ _ => hkept _, (hgrow.2 ?_).2 fun _ _ _ _ => hkept _⟩
  · rw [offset_twoBytes, h2]
  · rw [h2]
    decide

/-- The size for `0x100000001` bytes is rounded to `0x100000200` and cut to 512. -/
theorem not_growsEnough_wrap : ∃ n f, twoBytes.vnodes.lookup 1 = some n ∧ n.devInfo = some 4 ∧
    twoBytes.entries.lookup 4 = some f ∧ isReg f.stat.stMode ∧ f.stat.stSize = 2 ∧ RoundedRoom f ∧
      (∃ s₁ data, writeCopy idle ⟨1, 7, fun _ => 3, 0xFFFFFFFF⟩ twoBytes = .ok (.inr (s₁, 4, ⟨data, 2, 0xFFFFFFFF⟩)) ∧
        capacity data = 512) ∧ ¬ GrowsEnough (writeCopy idle ⟨1, 7, fun _ => 3, 0xFFFFFFFF⟩ twoBytes) := by
  obtain ⟨n, f, hn, hd, hf, hsize, h2, hroom, hreg, hopen⟩ := twoBytes_file
  have hcap := hroom.le
  have hgrown : grownCapacity f 0xFFFFFFFF = 512 := by
    unfold grownCapacity
    rw [h2, if_pos (by decide)]
    decide
  have halign : blockAlign 2 = 512 := by decide
  rw [h2, halign] at hcap
  have hto : toSize f.stat.stSize = 2 := by rw [h2]; rfl
  obtain ⟨s₁, data, hs₁, -, hdata⟩ := storeCopy_total (k := idle) (o := 2) (w := 0xFFFFFFFF) hf (by omega)
    (by omega) fun _ => rfl
  have hcopy : writeCopy idle ⟨1, 7, fun _ => 3, 0xFFFFFFFF⟩ twoBytes =
      .ok (.inr (s₁, 4, ⟨data, 2, 0xFFFFFFFF⟩)) := by
    rw [writeCopy_store hn hd hf hopen (by omega) (by rw [offset_twoBytes]; decide), offset_twoBytes]
    exact hs₁
  rw [hgrown] at hdata
  refine ⟨n, f, hn, hd, hf, hreg, h2, hroom, ⟨s₁, data, hcopy, hdata⟩, ?_⟩
  rw [hcopy]
  rintro ⟨y, hy, hP⟩
  cases hy
  have hend := hP.2
  dsimp only at hend
  omega

end VitaUtility.Dmass

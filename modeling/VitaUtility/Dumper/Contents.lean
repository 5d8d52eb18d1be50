import VitaUtility.Dumper.Dump

/-!
# What the copy loops move

The loops of `write_file_from_fd` and `get_sha256_from_fd` cut a size into the same chunks. `chunkLoop` is that loop
over any chunk; `chunkLoop_data` says once what comes through it when every call moves what it is asked to.
-/

namespace VitaUtility.Dumper

/-- The loop over whole buffers and the rest; `some res` is the error of the chunk that failed. -/
def chunkLoop {γ : Type} (chunk : Nat → UInt32 → Option Int32 × List γ) (bufferSize : BufferSize) (i : Nat)
    (size : UInt32) : Option Int32 × List γ :=
  if bufferSize.1 ≤ size then
    match chunk i bufferSize.1 with
    | (some res, calls) => (some res, calls)
    | (none, calls) =>
      let rest := chunkLoop chunk bufferSize (i + 1) (size - bufferSize.1)
      (rest.1, calls ++ rest.2)
  else if size > 0 then chunk i size
  else (none, [])
termination_by size.toNat
decreasing_by
  rename_i h
  rw [UInt32.toNat_sub_of_le _ _ h]
  exact Nat.sub_lt_of_pos_le bufferSize.2.1 (UInt32.le_iff_toNat_le.1 h)

/-- A call of `get_sha256_from_fd`. -/
inductive HashCall where
  | read (size : UInt32) (res : Int32)
  | update (data : List UInt8)
  | result

/-- One read of `size` bytes, the `i`-th, and the update with them. -/
def hashChunk (k : IoAnswers) (i : Nat) (size : UInt32) : Option Int32 × List HashCall :=
  let res := k.read i
  let calls := [.read size res]
  if res < 0 then (some res, calls) else
  if res.toUInt32 ≠ size then (some (-1), calls) else
  (none, calls ++ [.update (fill (k.buf i) size.toNat)])

/-- `ksceSha256BlockResult` is called only when no chunk failed. -/
def getSha256FromFd (k : IoAnswers) (bufferSize : BufferSize) (size : UInt32) : Int32 × List HashCall :=
  match chunkLoop (hashChunk k) bufferSize 0 size with
  | (some res, calls) => (res, calls)
  | (none, calls) => (0, calls ++ [.result])

/-! ### The source and the file -/

/-- Where the source is before the `i`-th read. -/
def IoAnswers.srcPos (k : IoAnswers) (pos : Nat) : Nat → Nat
  | 0 => pos
  | i + 1 => k.srcPos pos i + (k.read i).toInt.toNat

/-- The reads are of a source with the bytes `src` that is at `pos`: each puts the next bytes in the buffer, as many
as it returns, and moves the source past them. -/
def IoAnswers.ReadsFrom (k : IoAnswers) (src : List UInt8) (pos : Nat) : Prop :=
  ∀ i, fill (k.buf i) (k.read i).toInt.toNat = slice src (k.srcPos pos i) (k.read i).toInt.toNat

/-- The file after the calls on it, from `off` on; a write puts as many bytes as it returns. -/
def fileAfter : (file : List UInt8) → (off : Nat) → List IoCall → List UInt8
  | file, _, [] => file
  | file, off, .write data res :: calls =>
    fileAfter (splice file off (data.take res.toInt.toNat)) (off + res.toInt.toNat) calls
  | file, off, _ :: calls => fileAfter file off calls

namespace IoCall

/-- The open succeeds, the transfer moves what it is asked to. -/
def Full : IoCall → Prop
  | openDst res => 0 ≤ res
  | read size res => res.toInt = size.toNat
  | write data res => res.toInt = data.length

/-- The bytes handed to the file. -/
def data : IoCall → List UInt8
  | write data _ => data
  | _ => []

/-- How many bytes are asked for. -/
def asks : IoCall → Nat
  | openDst _ => 0
  | read size _ => size.toNat
  | write data _ => data.length

end IoCall

namespace HashCall

/-- The bytes handed to the hash. -/
def data : HashCall → List UInt8
  | update data => data
  | _ => []

def asks : HashCall → Nat
  | read size _ => size.toNat
  | update data => data.length
  | result => 0

end HashCall

/-! ### The loop over any chunk -/

section
variable {γ : Type} {chunk : Nat → UInt32 → Option Int32 × List γ} {B : BufferSize} {i n : Nat} {size : UInt32}
  {full : γ → Prop} {data : γ → List UInt8} {asks : γ → Nat} {pos : Nat → Nat} {src : List UInt8}

/-- When chunks whose calls are full move the next bytes of `src`, so does a loop whose calls are full. -/
theorem chunkLoop_data (hchunk : ∀ i size, (∀ c ∈ (chunk i size).2, full c) → (chunk i size).1 = none ∧
      (chunk i size).2.flatMap data = slice src (pos i) size.toNat ∧ pos (i + 1) = pos i + size.toNat)
    (h : ∀ c ∈ (chunkLoop chunk B i size).2, full c) : (chunkLoop chunk B i size).1 = none ∧
      (chunkLoop chunk B i size).2.flatMap data = slice src (pos i) size.toNat := by
  fun_induction chunkLoop chunk B i size with
  | case1 i size _ res calls hc =>
    have hnone := (hchunk i B.1 (by rwa [hc])).1
    rw [hc] at hnone
    cases hnone
  | case2 i size hle calls hc rest ih =>
    obtain ⟨-, hdata, hpos⟩ := hchunk i B.1 (by rw [hc]; exact fun c hc => h c (List.mem_append_left _ hc))
    obtain ⟨hnone, hrest⟩ := ih fun c hc => h c (List.mem_append_right _ hc)
    refine ⟨hnone, ?_⟩
    rw [hc] at hdata
    rw [List.flatMap_append, hdata, hrest, hpos, ← slice_add, UInt32.toNat_sub_of_le _ _ hle,
      Nat.add_sub_cancel' (UInt32.le_iff_toNat_le.1 hle)]
  | case3 i size _ _ => exact ⟨(hchunk i size h).1, (hchunk i size h).2.1⟩
  | case4 i size _ hpos =>
    have hzero : size.toNat = 0 := Nat.eq_zero_of_not_pos fun h => hpos (UInt32.lt_iff_toNat_lt.2 h)
    rw [hzero]
    exact ⟨rfl, by simp [slice]⟩

theorem chunkLoop_asks (hchunk : ∀ i size, ∀ c ∈ (chunk i size).2, asks c ≤ size.toNat) :
    ∀ c ∈ (chunkLoop chunk B i size).2, asks c ≤ B.1.toNat := by
  fun_induction chunkLoop chunk B i size with
  | case1 i size _ res calls hc =>
    intro c hmem
    exact hchunk i B.1 c (by rwa [hc])
  | case2 i size _ calls hc rest ih =>
    intro c hmem
    rcases List.mem_append.1 hmem with hmem | hmem
    · exact hchunk i B.1 c (by rwa [hc])
    · exact ih c hmem
  | case3 i size hlt _ =>
    intro c hmem
    have hle := hchunk i size c hmem
    have := mt UInt32.le_iff_toNat_le.2 hlt
    omega
  | case4 => exact fun c hmem => absurd hmem List.not_mem_nil

/-- The loop ends after at most one chunk more than the size has whole buffers. -/
theorem chunkLoop_length (hchunk : ∀ i size, (chunk i size).2.length ≤ n) :
    (chunkLoop chunk B i size).2.length ≤ n * (size.toNat / B.1.toNat + 1) := by
  have hB := B.2.1
  fun_induction chunkLoop chunk B i size with
  | case1 i size _ res calls hc =>
    have hlen := hchunk i B.1
    rw [hc] at hlen
    exact Nat.le_trans hlen (Nat.le_mul_of_pos_right n (Nat.succ_pos _))
  | case2 i size hle calls hc rest ih =>
    have hlen := hchunk i B.1
    rw [hc] at hlen
    have hdiv : (size.toNat - B.1.toNat) / B.1.toNat + 1 = size.toNat / B.1.toNat := by
      rw [← Nat.add_div_right _ hB, Nat.sub_add_cancel (UInt32.le_iff_toNat_le.1 hle)]
    rw [UInt32.toNat_sub_of_le _ _ hle, hdiv] at ih
    rw [List.length_append, Nat.mul_add, Nat.mul_one, Nat.add_comm]
    exact Nat.add_le_add ih hlen
  | case3 i size _ _ => exact Nat.le_trans (hchunk i size) (Nat.le_mul_of_pos_right n (Nat.succ_pos _))
  | case4 => exact Nat.zero_le _

end

/-! ### The two chunks -/

section
variable {k : IoAnswers} {B : BufferSize} {i pos off : Nat} {size : UInt32} {src file : List UInt8} {calls : List IoCall}

theorem copyLoop_eq : copyLoop k B i size =
    ((chunkLoop (copyChunk k) B i size).1.getD 0, (chunkLoop (copyChunk k) B i size).2) := by
  fun_induction copyLoop k B i size with
  | case1 i size hle res calls hc =>
    rw [chunkLoop, if_pos hle, hc]
    rfl
  | case2 i size hle calls hc rest ih =>
    rw [chunkLoop, if_pos hle, hc]
    simp only [rest, ih]
  | case3 i size hle hpos res calls hc =>
    rw [chunkLoop, if_neg hle, if_pos hpos, hc]
    rfl
  | case4 i size hle hpos calls hc =>
    rw [chunkLoop, if_neg hle, if_pos hpos, hc]
    rfl
  | case5 i size hle hpos =>
    rw [chunkLoop, if_neg hle, if_neg hpos]
    rfl

/-- A transfer that moves `size` bytes passes both tests. -/
theorem full_res {res : Int32} (h : res.toInt = size.toNat) : ¬ res < 0 ∧ res.toUInt32 = size := by
  have hneg : ¬ res < 0 := by
    rw [Int32.lt_iff_toInt_lt]
    have : (0 : Int32).toInt = 0 := rfl
    omega
  exact ⟨hneg, (toUInt32_eq_iff hneg).2 h⟩

/-- The reads leave the next bytes of the source in the buffer. -/
theorem IoAnswers.ReadsFrom.buf (hk : k.ReadsFrom src pos) (h : (k.read i).toInt = size.toNat) :
    fill (k.buf i) size.toNat = slice src (k.srcPos pos i) size.toNat ∧
      k.srcPos pos (i + 1) = k.srcPos pos i + size.toNat := by
  have hnat : (k.read i).toInt.toNat = size.toNat := by omega
  have hbuf := hk i
  rw [hnat] at hbuf
  exact ⟨hbuf, congrArg (k.srcPos pos i + ·) hnat⟩

theorem copyChunk_data (hk : k.ReadsFrom src pos) (i : Nat) (size : UInt32) (h : ∀ c ∈ (copyChunk k i size).2, c.Full) :
    (copyChunk k i size).1 = none ∧ (copyChunk k i size).2.flatMap IoCall.data = slice src (k.srcPos pos i) size.toNat ∧
      k.srcPos pos (i + 1) = k.srcPos pos i + size.toNat := by
  have hread : (k.read i).toInt = size.toNat := by
    refine h (.read size (k.read i)) ?_
    unfold copyChunk
    dsimp only
    split_ifs <;> simp
  obtain ⟨hbuf, hpos⟩ := hk.buf hread
  obtain ⟨hneg, heq⟩ := full_res hread
  have hwrite : (k.write i).toInt = size.toNat := by
    have hmem : .write (fill (k.buf i) size.toNat) (k.write i) ∈ (copyChunk k i size).2 := by
      unfold copyChunk
      dsimp only
      rw [if_neg hneg, if_neg (not_not.2 heq)]
      split_ifs <;> simp
    simpa [IoCall.Full] using h _ hmem
  obtain ⟨hneg', heq'⟩ := full_res hwrite
  have hchunk : copyChunk k i size =
      (none, [.read size (k.read i), .write (fill (k.buf i) size.toNat) (k.write i)]) := by
    simp [copyChunk, hneg, heq, hneg', heq']
  rw [hchunk]
  exact ⟨rfl, by simpa [IoCall.data] using hbuf, hpos⟩

theorem copyChunk_full (h : k.Moves i size.toNat) : ∀ c ∈ (copyChunk k i size).2, c.Full := by
  unfold copyChunk
  dsimp only
  split_ifs <;> simp [IoCall.Full, h.1, h.2]

/-- A copy that does not fail has full calls only. -/
theorem copyLoop_full (h : k.MovesAll B.1.toNat i size.toNat) : ∀ c ∈ (copyLoop k B i size).2, c.Full := by
  have hB := B.2.1
  fun_induction copyLoop k B i size with
  | case1 i size hle res calls hc =>
    rw [movesAll_chunk hB (UInt32.le_iff_toNat_le.1 hle)] at h
    exact absurd h.1 (copyChunk_some hc).1
  | case2 i size hle calls hc rest ih =>
    rw [movesAll_chunk hB (UInt32.le_iff_toNat_le.1 hle)] at h
    rw [UInt32.toNat_sub_of_le _ _ hle] at ih
    intro c hmem
    rcases List.mem_append.1 hmem with hmem | hmem
    · exact copyChunk_full h.1 c (by rwa [hc])
    · exact ih h.2 c hmem
  | case3 i size hle hpos res calls hc =>
    have hlt := mt UInt32.le_iff_toNat_le.2 hle
    rw [movesAll_rest (UInt32.lt_iff_toNat_lt.1 hpos) (by omega)] at h
    exact absurd h (copyChunk_some hc).1
  | case4 i size hle hpos calls hc =>
    have hlt := mt UInt32.le_iff_toNat_le.2 hle
    rw [movesAll_rest (UInt32.lt_iff_toNat_lt.1 hpos) (by omega)] at h
    intro c hmem
    exact copyChunk_full h c (by rwa [hc])
  | case5 => exact fun c hmem => absurd hmem List.not_mem_nil

theorem copyFile_full (h : k.Copies B size) : ∀ c ∈ (copyFile k B size).2, c.Full := by
  intro c hc
  rcases List.mem_cons.1 hc with rfl | hc
  · exact h.1
  · exact copyLoop_full h.2 c hc

theorem fileAfter_eq (hoff : off ≤ file.length) (h : ∀ c ∈ calls, c.Full) :
    fileAfter file off calls = splice file off (calls.flatMap IoCall.data) := by
  induction calls generalizing file off with
  | nil => exact splice_nil.symm
  | cons call calls ih =>
    have hcalls : ∀ c ∈ calls, c.Full := fun c hc => h c (List.mem_cons_of_mem _ hc)
    cases call with
    | openDst res => exact ih hoff hcalls
    | read size res => exact ih hoff hcalls
    | write data res =>
      have hres : res.toInt.toNat = data.length := by
        have := h _ List.mem_cons_self
        simp only [IoCall.Full] at this
        omega
      rw [fileAfter, hres, List.take_length, ih ?_ hcalls, List.flatMap_cons, splice_splice hoff]
      · rfl
      · rw [length_splice hoff]
        exact Nat.le_max_right _ _

theorem bytesWritten_full (h : ∀ c ∈ calls, c.Full) : bytesWritten calls = (calls.flatMap IoCall.data).length := by
  induction calls with
  | nil => rfl
  | cons call calls ih =>
    have ih := ih fun c hc => h c (List.mem_cons_of_mem _ hc)
    cases call with
    | openDst res => exact ih
    | read size res => exact ih
    | write data res =>
      have hres := h _ List.mem_cons_self
      simp only [IoCall.Full] at hres
      rw [bytesWritten, ih, List.flatMap_cons, List.length_append, IoCall.data]
      omega

/-- What full calls move: the file, which began empty or with the size of the copy, holds the next bytes of the
source, and the reads have moved past these. -/
structure CopiedExactly (src : List UInt8) (pos size : Nat) (file : List UInt8) (calls : List IoCall) : Prop where
  file : fileAfter file 0 calls = slice src pos size
  advanced : bytesRead calls = size

theorem copyFile_exact (hk : k.ReadsFrom src pos) (hfile : file.length ≤ size.toNat)
    (h : ∀ c ∈ (copyFile k B size).2, c.Full) : CopiedExactly src pos size.toNat file (copyFile k B size).2 := by
  have hcalls : ∀ c ∈ (copyLoop k B 0 size).2, c.Full := fun c hc => h c (List.mem_cons_of_mem _ hc)
  have hcalls' := hcalls
  rw [copyLoop_eq] at hcalls'
  obtain ⟨hnone, hdata⟩ := chunkLoop_data (copyChunk_data hk) hcalls'
  have hzero : (copyLoop k B 0 size).1 = 0 := by rw [copyLoop_eq, hnone]; rfl
  obtain ⟨-, -, hread, hwritten⟩ | ⟨-, hneg, -⟩ := copyLoop_cases k B 0 size
  swap
  · rw [hzero] at hneg
    exact absurd hneg (by decide)
  have hdata : (copyLoop k B 0 size).2.flatMap IoCall.data = slice src pos size.toNat := by
    rw [copyLoop_eq]
    exact hdata
  rw [bytesWritten_full hcalls, hdata] at hwritten
  constructor
  · show fileAfter file 0 (copyLoop k B 0 size).2 = _
    rw [fileAfter_eq (Nat.zero_le _) hcalls, hdata, splice, List.take_zero, List.nil_append, Nat.zero_add, hwritten,
      List.drop_eq_nil_of_le hfile, List.append_nil]
  · exact hread

/-- Every read of the loop gives what it is asked for. -/
def IoAnswers.ReadsAll (k : IoAnswers) (bufferSize i size : Nat) : Prop :=
  EachRound (fun i n => (k.read i).toInt = n) bufferSize i size

theorem hashChunk_of_read (h : (k.read i).toInt = size.toNat) :
    hashChunk k i size = (none, [.read size (k.read i), .update (fill (k.buf i) size.toNat)]) := by
  obtain ⟨hneg, heq⟩ := full_res h
  simp [hashChunk, hneg, heq]

theorem hashChunk_of_failed (h : ¬ (k.read i).toInt = size.toNat) :
    ∃ res, hashChunk k i size = (some res, [.read size (k.read i)]) := by
  by_cases hneg : k.read i < 0
  · exact ⟨k.read i, by simp [hashChunk, hneg]⟩
  · exact ⟨-1, by simp [hashChunk, hneg, mt (toUInt32_eq_iff hneg).1 h]⟩

/-- `data` is what is hashed of `n` bytes from the round `i` on: all of them, or the buffers before the round that
failed. -/
structure HashedUpTo (k : IoAnswers) (src : List UInt8) (pos bufferSize i n : Nat) (data : List UInt8) : Prop where
  next : data = slice src (k.srcPos pos i) data.length
  length : (k.ReadsAll bufferSize i n ∧ data.length = n) ∨
    (¬ k.ReadsAll bufferSize i n ∧ ∃ j, data.length = bufferSize * j ∧ bufferSize * j < n)

namespace HashedUpTo
variable {data : List UInt8}

theorem failed (hn : 0 < n) (h : ¬ k.ReadsAll B.1.toNat i n) : HashedUpTo k src pos B.1.toNat i n [] :=
  ⟨by simp [slice], .inr ⟨h, 0, rfl, hn⟩⟩

/-- A buffer that could be read comes before what the next rounds hash. -/
theorem chunk (hk : k.ReadsFrom src pos) (hle : B.1.toNat ≤ n) (hread : (k.read i).toInt = B.1.toNat)
    (h : HashedUpTo k src pos B.1.toNat (i + 1) (n - B.1.toNat) data) :
    HashedUpTo k src pos B.1.toNat i n (fill (k.buf i) B.1.toNat ++ data) := by
  obtain ⟨hbuf, hpos⟩ := hk.buf hread
  obtain ⟨hnext, hlen⟩ := h
  rw [hpos] at hnext
  constructor
  · rw [List.length_append, length_fill, slice_add, ← hbuf, ← hnext]
  · unfold IoAnswers.ReadsAll
    rw [List.length_append, length_fill, eachRound_chunk B.2.1 hle]
    rcases hlen with ⟨hall, hlen⟩ | ⟨hall, j, hlen, hlt⟩
    · exact .inl ⟨⟨hread, hall⟩, by omega⟩
    · exact .inr ⟨fun h => hall h.2, j + 1, by rw [hlen, Nat.mul_add]; omega, by rw [Nat.mul_add]; omega⟩

end HashedUpTo

theorem hashLoop_data (hk : k.ReadsFrom src pos) : HashedUpTo k src pos B.1.toNat i size.toNat
    ((chunkLoop (hashChunk k) B i size).2.flatMap HashCall.data) := by
  fun_induction chunkLoop (hashChunk k) B i size with
  | case1 i size hle res calls hc =>
    have hle := UInt32.le_iff_toNat_le.1 hle
    by_cases hread : (k.read i).toInt = B.1.toNat
    · rw [hashChunk_of_read hread] at hc
      cases hc
    obtain ⟨res', hfailed⟩ := hashChunk_of_failed hread
    obtain rfl : _ = calls := congrArg Prod.snd (hfailed.symm.trans hc)
    exact .failed (Nat.lt_of_lt_of_le B.2.1 hle) fun h => hread ((eachRound_chunk B.2.1 hle).1 h).1
  | case2 i size hle calls hc rest ih =>
    have hle' := UInt32.le_iff_toNat_le.1 hle
    by_cases hread : (k.read i).toInt = B.1.toNat
    swap
    · obtain ⟨res', hfailed⟩ := hashChunk_of_failed hread
      rw [hfailed] at hc
      cases hc
    obtain rfl : _ = calls := congrArg Prod.snd ((hashChunk_of_read hread).symm.trans hc)
    rw [UInt32.toNat_sub_of_le _ _ hle] at ih
    exact .chunk hk hle' hread ih
  | case3 i size hle hpos =>
    have hlt := mt UInt32.le_iff_toNat_le.2 hle
    have hpos := UInt32.lt_iff_toNat_lt.1 hpos
    have hall := eachRound_rest (P := fun i n => (k.read i).toInt = n) (i := i) hpos (Nat.not_le.1 hlt)
    by_cases hread : (k.read i).toInt = size.toNat
    · rw [hashChunk_of_read hread]
      exact ⟨by simpa [HashCall.data] using (hk.buf hread).1, .inl ⟨hall.2 hread, by simp [HashCall.data]⟩⟩
    · obtain ⟨res, hfailed⟩ := hashChunk_of_failed hread
      rw [hfailed]
      exact .failed hpos (mt hall.1 hread)
  | case4 i size hle hpos =>
    have hzero : size.toNat = 0 := Nat.eq_zero_of_not_pos fun h => hpos (UInt32.lt_iff_toNat_lt.2 h)
    rw [hzero]
    exact ⟨by simp [slice], .inl ⟨eachRound_zero B.2.1, rfl⟩⟩

/-- `ksceSha256BlockResult` adds nothing to what is hashed. -/
theorem hashed_getSha256FromFd : (getSha256FromFd k B size).2.flatMap HashCall.data =
    (chunkLoop (hashChunk k) B 0 size).2.flatMap HashCall.data := by
  unfold getSha256FromFd
  rcases chunkLoop (hashChunk k) B 0 size with ⟨_ | res, calls⟩
  · simp [HashCall.data]
  · rfl

theorem getSha256FromFd_exact (hk : k.ReadsFrom src pos) (h : k.ReadsAll B.1.toNat 0 size.toNat) :
    (getSha256FromFd k B size).2.flatMap HashCall.data = slice src pos size.toNat := by
  obtain ⟨hnext, ⟨-, hlen⟩ | ⟨hall, -⟩⟩ : HashedUpTo k src pos B.1.toNat 0 size.toNat _ := hashLoop_data hk
  · rw [hlen] at hnext
    exact hashed_getSha256FromFd.trans hnext
  · exact absurd h hall

/-! ### Bounds -/

theorem copyChunk_asks (k : IoAnswers) (i : Nat) (size : UInt32) : ∀ c ∈ (copyChunk k i size).2, c.asks ≤ size.toNat := by
  unfold copyChunk
  dsimp only
  split_ifs <;> simp [IoCall.asks]

theorem hashChunk_asks (k : IoAnswers) (i : Nat) (size : UInt32) : ∀ c ∈ (hashChunk k i size).2, c.asks ≤ size.toNat := by
  unfold hashChunk
  dsimp only
  split_ifs <;> simp [HashCall.asks]

theorem copyChunk_length (k : IoAnswers) (i : Nat) (size : UInt32) : (copyChunk k i size).2.length ≤ 2 := by
  unfold copyChunk
  dsimp only
  split_ifs <;> simp

theorem hashChunk_length (k : IoAnswers) (i : Nat) (size : UInt32) : (hashChunk k i size).2.length ≤ 2 := by
  unfold hashChunk
  dsimp only
  split_ifs <;> simp

/-- At most a buffer is asked for at once, and there is an end to the calls. -/
def Bounded {γ : Type} (asks : γ → Nat) (bufferSize : BufferSize) (size : UInt32) (calls : List γ) : Prop :=
  (∀ c ∈ calls, asks c ≤ bufferSize.1.toNat) ∧ calls.length ≤ 2 * (size.toNat / bufferSize.1.toNat + 1) + 1

theorem copyFile_bounded (k : IoAnswers) (B : BufferSize) (size : UInt32) :
    Bounded IoCall.asks B size (copyFile k B size).2 := by
  have hcalls : (copyFile k B size).2 = .openDst k.openDst :: (chunkLoop (copyChunk k) B 0 size).2 := by
    rw [copyFile, copyLoop_eq]
  rw [hcalls]
  constructor
  · intro c hc
    rcases List.mem_cons.1 hc with rfl | hc
    · exact Nat.zero_le _
    · exact chunkLoop_asks (copyChunk_asks k) c hc
  · exact Nat.succ_le_succ (chunkLoop_length (copyChunk_length k))

theorem getSha256FromFd_bounded (k : IoAnswers) (B : BufferSize) (size : UInt32) :
    Bounded HashCall.asks B size (getSha256FromFd k B size).2 := by
  have hasks := @chunkLoop_asks _ _ B 0 size _ (hashChunk_asks k)
  have hlen := @chunkLoop_length _ _ B 0 _ size (hashChunk_length k)
  unfold getSha256FromFd
  rcases hloop : chunkLoop (hashChunk k) B 0 size with ⟨_ | res, calls⟩ <;> rw [hloop] at hasks hlen
  · constructor
    · intro c hc
      rcases List.mem_append.1 hc with hc | hc
      · exact hasks c hc
      · rw [List.mem_singleton.1 hc]
        exact Nat.zero_le _
    · rw [List.length_append]
      exact Nat.succ_le_succ hlen
  · exact ⟨hasks, Nat.le_succ_of_le hlen⟩

theorem EmmcDumper.writeFileFromFd_bounded (k : IoAnswers) (size : UInt32) :
    Bounded IoCall.asks bufferSize size (writeFileFromFd k size).2 := by
  have hopen : Bounded IoCall.asks bufferSize size [.openDst k.openDst] := by
    refine ⟨fun c hc => ?_, by simp⟩
    rw [List.mem_singleton.1 hc]
    exact Nat.zero_le _
  unfold writeFileFromFd
  dsimp only
  split_ifs
  · exact hopen
  · exact hopen
  · exact copyFile_bounded k bufferSize size

end

/-- Both loops, in all three programs, move exactly the next bytes of the source when the kernel's answers are those of
transfers that move what they are asked to. -/
theorem dumps_exact (src : List UInt8) (pos : Nat) (size : UInt32) (k : IoAnswers) (hk : k.ReadsFrom src pos) :
    (k.Copies Slb2Dumper.bufferSize size →
      CopiedExactly src pos size.toNat [] (Slb2Dumper.writeFileFromFd k size).2) ∧
    (k.Copies IdstorageRawDumper.bufferSize size →
      CopiedExactly src pos size.toNat [] (IdstorageRawDumper.writeFileFromFd k size).2) ∧
    (0 ≤ k.chstat → k.Copies EmmcDumper.bufferSize size → ∀ file, file.length = size.toNat →
      CopiedExactly src pos size.toNat file (EmmcDumper.writeFileFromFd k size).2) ∧
    (k.ReadsAll Slb2Dumper.bufferSize.1.toNat 0 size.toNat →
      (getSha256FromFd k Slb2Dumper.bufferSize size).2.flatMap HashCall.data = slice src pos size.toNat) ∧
    Bounded IoCall.asks Slb2Dumper.bufferSize size (Slb2Dumper.writeFileFromFd k size).2 ∧
    Bounded IoCall.asks IdstorageRawDumper.bufferSize size (IdstorageRawDumper.writeFileFromFd k size).2 ∧
    Bounded IoCall.asks EmmcDumper.bufferSize size (EmmcDumper.writeFileFromFd k size).2 ∧
    Bounded HashCall.asks Slb2Dumper.bufferSize size (getSha256FromFd k Slb2Dumper.bufferSize size).2 := by
  refine ⟨fun h => copyFile_exact hk (Nat.zero_le _) (copyFile_full h),
    fun h => copyFile_exact hk (Nat.zero_le _) (copyFile_full h), fun hchstat h file hfile => ?_,
    getSha256FromFd_exact hk, copyFile_bounded k _ size, copyFile_bounded k _ size,
    EmmcDumper.writeFileFromFd_bounded k size, getSha256FromFd_bounded k _ size⟩
  obtain ⟨hfail, -⟩ | ⟨-, -, heq⟩ := EmmcDumper.writeFileFromFd_cases k size
  · rcases hfail with hneg | hneg
    · exact absurd h.1 (Int32.not_le.2 hneg)
    · exact absurd hchstat (Int32.not_le.2 hneg)
  · rw [heq]
    exact copyFile_exact hk (Nat.le_of_eq hfile) (copyFile_full h)

/-- A device with the bytes `first` and then the byte 8: one read gives `first`, the next one the 8, and then it is at its
end. -/
def twoReads (first : List UInt8) : IoAnswers where
  openSrc := 3
  deviceSize := .ofNat (first.length + 1)
  openDst := 4
  chstat := 0
  read i := if i = 0 then .ofNat first.length else if i = 1 then 1 else 0
  buf i := fun b => if i = 0 then first.getD b 0 else 8
  write i := if i = 0 then .ofNat first.length else 1

section
variable {first : List UInt8} {B : BufferSize} {size : UInt32}

theorem toInt_ofNat_length (h : first.length < 2 ^ 31) : (Int32.ofNat first.length).toInt = first.length :=
  Int32.toInt_ofNat_of_lt h

theorem readsFrom_twoReads (h : first.length < 2 ^ 31) : (twoReads first).ReadsFrom (first ++ [8]) 0 := by
  have hfirst : ((twoReads first).read 0).toInt.toNat = first.length := by
    show (Int32.ofNat first.length).toInt.toNat = _
    rw [toInt_ofNat_length h, Int.toNat_natCast]
  have hpos : (twoReads first).srcPos 0 1 = first.length := (Nat.zero_add _).trans hfirst
  rintro (_ | _ | i)
  · rw [hfirst]
    show fill (fun b => first.getD b 0) first.length = ((first ++ [8]).drop 0).take first.length
    rw [List.drop_zero, List.take_left]
    refine List.ext_getElem length_fill fun j _ hj => ?_
    simp [fill, List.getD_eq_getElem?_getD, hj]
  · rw [hpos]
    show [8] = ((first ++ [8]).drop first.length).take 1
    rw [List.drop_left]
    rfl
  · rfl

theorem moves_twoReads (h : first.length < 2 ^ 31) :
    (twoReads first).Moves 0 first.length ∧ (twoReads first).Moves 1 1 :=
  ⟨⟨toInt_ofNat_length h, toInt_ofNat_length h⟩, rfl, rfl⟩

/-- The two rounds of a size that is one more than the buffer's. -/
theorem eachRound_two {P : Nat → Nat → Prop} {b : Nat} (hb : 1 < b) (h : P 0 b ∧ P 1 1) : EachRound P b 0 (b + 1) := by
  rw [eachRound_chunk (by omega) (Nat.le_add_right b 1), Nat.add_sub_cancel_left]
  exact ⟨h.1, (eachRound_rest Nat.one_pos hb).2 h.2⟩

theorem copies_twoReads (hB : 1 < B.1.toNat) (h : first.length = B.1.toNat) (hsize : size.toNat = B.1.toNat + 1) :
    (twoReads first).Copies B size := by
  have hmoves := @moves_twoReads first (h ▸ B.2.2)
  refine ⟨show (0 : Int32) ≤ 4 by decide, ?_⟩
  rw [hsize]
  exact eachRound_two hB (h ▸ hmoves)

theorem readsAll_twoReads (hB : 1 < B.1.toNat) (h : first.length = B.1.toNat) :
    (twoReads first).ReadsAll B.1.toNat 0 (B.1.toNat + 1) := by
  have hmoves := @moves_twoReads first (h ▸ B.2.2)
  exact eachRound_two hB (h ▸ ⟨hmoves.1.1, hmoves.2.1⟩)

end

/-- A device of one byte more than a buffer, in two rounds of each loop. -/
theorem dumps_exact_twoChunks : (let first := List.replicate 0x20000 (7 : UInt8)
    CopiedExactly (first ++ [8]) 0 0x20001 [] (Slb2Dumper.writeFileFromFd (twoReads first) 0x20001).2 ∧
    CopiedExactly (first ++ [8]) 0 0x20001 [] (IdstorageRawDumper.writeFileFromFd (twoReads first) 0x20001).2 ∧
    (getSha256FromFd (twoReads first) Slb2Dumper.bufferSize 0x20001).2.flatMap HashCall.data =
      slice (first ++ [8]) 0 0x20001) ∧
    let first := List.replicate 0x80000 (7 : UInt8)
    CopiedExactly (first ++ [8]) 0 0x80001 (List.replicate 0x80001 0)
      (EmmcDumper.writeFileFromFd (twoReads first) 0x80001).2 := by
  have hlen (n : Nat) : (List.replicate n (7 : UInt8)).length = n := List.length_replicate
  constructor
  · have hreads := @readsFrom_twoReads (List.replicate 0x20000 7) (by rw [hlen]; decide)
    obtain ⟨hslb2, hidstorage, -, hhash, -⟩ := dumps_exact _ 0 0x20001 _ hreads
    refine ⟨hslb2 ?_, hidstorage ?_, hhash ?_⟩
    · exact copies_twoReads (by decide) (hlen _) rfl
    · exact copies_twoReads (by decide) (hlen _) rfl
    · exact readsAll_twoReads (by decide) (hlen _)
  · have hreads := @readsFrom_twoReads (List.replicate 0x80000 7) (by rw [hlen]; decide)
    obtain ⟨-, -, hemmc, -⟩ := dumps_exact _ 0 0x80001 _ hreads
    refine hemmc (Int32.le_refl 0) ?_ _ List.length_replicate
    exact copies_twoReads (by decide) (hlen _) rfl

end VitaUtility.Dumper

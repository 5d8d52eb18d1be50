import VitaUtility.Lib.Bytes
import VitaUtility.Lib.Memory

/-!
# The copy loop of the dumpers

`slb2_dumper`, `idstorage_raw_dumper` and `emmc_dumper` copy a device to a file through a static buffer, one
`ksceIoRead` and one `ksceIoWrite` a round. A transfer that fails or moves another number of bytes than asked for
ends the loop with a negative result.
-/

namespace VitaUtility.Dumper

/-- What the kernel answers while one device is dumped. -/
structure IoAnswers where
  /-- `ksceIoOpen` of the device -/
  openSrc : Int32
  /-- `ksceIoLseek(fd, 0, SCE_SEEK_END)` on the device -/
  deviceSize : Int64
  /-- `ksceIoOpen` of the file -/
  openDst : Int32
  /-- `ksceIoChstatByFd` on the file -/
  chstat : Int32
  /-- the `i`-th `ksceIoRead` -/
  read : Nat → Int32
  /-- the buffer after it -/
  buf : Nat → Mem
  /-- the `i`-th `ksceIoWrite` -/
  write : Nat → Int32

/-- A call on the file or of the copy, with its result. -/
inductive IoCall where
  | openDst (res : Int32)
  | read (size : UInt32) (res : Int32)
  | write (data : List UInt8) (res : Int32)

/-- A size that the loops can use for their buffer. -/
abbrev BufferSize := { n : UInt32 // 0 < n.toNat ∧ n.toNat < 2 ^ 31 }

/-- One read and one write of `size` bytes, the `i`-th of both; `some res` goes to `error`. -/
def copyChunk (k : IoAnswers) (i : Nat) (size : UInt32) : Option Int32 × List IoCall :=
  let res := k.read i
  let calls := [.read size res]
  if res < 0 then (some res, calls) else
  if res.toUInt32 ≠ size then (some (-1), calls) else
  let res := k.write i
  let calls := calls ++ [.write (fill (k.buf i) size.toNat) res]
  if res < 0 then (some res, calls) else
  if res.toUInt32 ≠ size then (some (-1), calls) else
  (none, calls)

/-- `res` at `error`, after the loop over whole buffers and the rest. -/
def copyLoop (k : IoAnswers) (bufferSize : BufferSize) (i : Nat) (size : UInt32) : Int32 × List IoCall :=
  if bufferSize.1 ≤ size then
    match copyChunk k i bufferSize.1 with
    | (some res, calls) => (res, calls)
    | (none, calls) =>
      let rest := copyLoop k bufferSize (i + 1) (size - bufferSize.1)
      (rest.1, calls ++ rest.2)
  else if size > 0 then
    match copyChunk k i size with
    | (some res, calls) => (res, calls)
    | (none, calls) => (0, calls)
  else (0, [])
termination_by size.toNat
decreasing_by
  rename_i h
  rw [UInt32.toNat_sub_of_le _ _ h]
  exact Nat.sub_lt_of_pos_le bufferSize.2.1 (UInt32.le_iff_toNat_le.1 h)

/-! ### What is moved -/

/-- The bytes that the reads returned. -/
def bytesRead : List IoCall → Nat
  | [] => 0
  | .read _ res :: calls => res.toInt.toNat + bytesRead calls
  | _ :: calls => bytesRead calls

/-- The bytes that the writes took. -/
def bytesWritten : List IoCall → Nat
  | [] => 0
  | .write _ res :: calls => res.toInt.toNat + bytesWritten calls
  | _ :: calls => bytesWritten calls

/-- The `i`-th read and the `i`-th write move `n` bytes. -/
def IoAnswers.Moves (k : IoAnswers) (i n : Nat) : Prop := (k.read i).toInt = n ∧ (k.write i).toInt = n

/-- Every round from the `i`-th on satisfies `P` with what it asks for: a buffer, and the last one the rest. -/
def EachRound (P : Nat → Nat → Prop) (bufferSize i size : Nat) : Prop :=
  ∀ j < (size + bufferSize - 1) / bufferSize, P (i + j) (min bufferSize (size - bufferSize * j))

/-- Every round from the `i`-th on moves what it asks for. -/
def IoAnswers.MovesAll (k : IoAnswers) (bufferSize i size : Nat) : Prop := EachRound k.Moves bufferSize i size

section
variable {P : Nat → Nat → Prop} {b i n : Nat}

theorem eachRound_zero (hn : 0 < n) : EachRound P n i 0 := by
  intro j hj
  rw [Nat.zero_add, Nat.div_eq_of_lt (by omega)] at hj
  omega

theorem eachRound_rest (hn : 0 < n) (hb : n < b) : EachRound P b i n ↔ P i n := by
  have hrounds : (n + b - 1) / b = 1 := by
    rw [show n + b - 1 = n - 1 + b by omega, Nat.add_div_right _ (by omega), Nat.div_eq_of_lt (by omega)]
  have hmin : min b n = n := by omega
  simp [EachRound, hrounds, hmin]

theorem eachRound_chunk (hb : 0 < b) (hn : b ≤ n) : EachRound P b i n ↔ P i b ∧ EachRound P b (i + 1) (n - b) := by
  have hrounds : (n + b - 1) / b = (n - b + b - 1) / b + 1 := by
    rw [show n + b - 1 = n - b + b - 1 + b by omega, Nat.add_div_right _ hb]
  have hmin : min b n = b := by omega
  simp only [EachRound, hrounds, Nat.forall_lt_succ_left]
  simp [hmin, Nat.mul_add, Nat.sub_sub, Nat.add_comm, Nat.add_left_comm]

end

section
variable {k : IoAnswers} {i n : Nat} {size : UInt32} {calls calls' : List IoCall} {B : BufferSize}

theorem bytesRead_append : bytesRead (calls ++ calls') = bytesRead calls + bytesRead calls' := by
  induction calls with
  | nil => simp [bytesRead]
  | cons call calls ih => cases call <;> simp [bytesRead, ih, Nat.add_assoc]

theorem bytesWritten_append : bytesWritten (calls ++ calls') = bytesWritten calls + bytesWritten calls' := by
  induction calls with
  | nil => simp [bytesWritten]
  | cons call calls ih => cases call <;> simp [bytesWritten, ih, Nat.add_assoc]

theorem toUInt32_eq_iff {res : Int32} (h : ¬ res < 0) : res.toUInt32 = size ↔ res.toInt = size.toNat := by
  have hle : 0 ≤ res := Int32.not_lt.1 h
  have hcast := Int32.cast_toNatClampNeg res hle
  rw [← UInt32.toNat_inj, Int32.toNat_toUInt32_of_le hle]
  omega

/-- A round that fails has written nothing, or read what it should and written something else. -/
theorem copyChunk_cases (k : IoAnswers) (i : Nat) (size : UInt32) :
    (k.Moves i size.toNat ∧ ∃ calls, copyChunk k i size = (none, calls) ∧ bytesRead calls = size.toNat ∧
      bytesWritten calls = size.toNat) ∨
    (¬ k.Moves i size.toNat ∧ ∃ res calls, copyChunk k i size = (some res, calls) ∧ res < 0 ∧
      (bytesWritten calls = 0 ∨ (bytesRead calls = size.toNat ∧ bytesWritten calls ≠ size.toNat))) := by
  let read : IoCall := .read size (k.read i)
  let write : IoCall := .write (fill (k.buf i) size.toNat) (k.write i)
  have hneg {res : Int32} (h : res < 0) : res.toInt < 0 := Int32.lt_iff_toInt_lt.1 h
  have hreads : bytesRead [read, write] = (k.read i).toInt.toNat := rfl
  have hwrites : bytesWritten [read, write] = (k.write i).toInt.toNat := rfl
  by_cases hr : k.read i < 0
  · refine .inr ⟨fun ⟨h, _⟩ => ?_, k.read i, [read], by simp [copyChunk, hr, read], hr, .inl rfl⟩
    have := hneg hr
    omega
  by_cases hr' : (k.read i).toUInt32 = size
  rotate_left
  · refine .inr ⟨fun ⟨h, _⟩ => ?_, -1, [read], by simp [copyChunk, hr, hr', read], by decide, .inl rfl⟩
    exact hr' ((toUInt32_eq_iff hr).2 h)
  have hread := (toUInt32_eq_iff hr).1 hr'
  by_cases hw : k.write i < 0
  · have := hneg hw
    refine .inr ⟨fun ⟨_, h⟩ => by omega, k.write i, [read, write], by simp [copyChunk, hr, hr', hw, read, write], hw, ?_⟩
    by_cases h : (0 : Nat) = size.toNat
    · exact .inl (by omega)
    · exact .inr (by omega)
  by_cases hw' : (k.write i).toUInt32 = size
  · have hwrite := (toUInt32_eq_iff hw).1 hw'
    refine .inl ⟨⟨hread, hwrite⟩, [read, write], by simp [copyChunk, hr, hr', hw, hw', read, write], ?_⟩
    omega
  · have hwrite := mt (toUInt32_eq_iff hw).2 hw'
    refine .inr ⟨fun ⟨_, h⟩ => hwrite h, -1, [read, write], by simp [copyChunk, hr, hr', hw, hw', read, write],
      by decide, .inr ?_⟩
    have := hw
    rw [Int32.not_lt, Int32.le_iff_toInt_le] at this
    have : (0 : Int32).toInt = 0 := rfl
    omega

theorem copyChunk_none (h : copyChunk k i size = (none, calls)) :
    k.Moves i size.toNat ∧ bytesRead calls = size.toNat ∧ bytesWritten calls = size.toNat := by
  obtain ⟨hmoves, _, heq, hcalls⟩ | ⟨_, _, _, heq, _⟩ := copyChunk_cases k i size
  · obtain rfl : calls = _ := by simpa [h] using heq
    exact ⟨hmoves, hcalls⟩
  · simp [h] at heq

theorem copyChunk_some {res : Int32} (h : copyChunk k i size = (some res, calls)) :
    ¬ k.Moves i size.toNat ∧ res < 0 ∧
      (bytesWritten calls = 0 ∨ (bytesRead calls = size.toNat ∧ bytesWritten calls ≠ size.toNat)) := by
  obtain ⟨_, _, heq, _⟩ | ⟨hmoves, _, _, heq, hcalls⟩ := copyChunk_cases k i size
  · simp [h] at heq
  · obtain ⟨rfl, rfl⟩ : res = _ ∧ calls = _ := by simpa [h] using heq
    exact ⟨hmoves, hcalls⟩

theorem openDst_not_mem_copyChunk (k : IoAnswers) (i : Nat) (size : UInt32) (fd : Int32) :
    .openDst fd ∉ (copyChunk k i size).2 := by
  unfold copyChunk
  dsimp only
  split_ifs <;> simp

theorem openDst_not_mem_copyLoop (k : IoAnswers) (B : BufferSize) (i : Nat) (size : UInt32) (fd : Int32) :
    .openDst fd ∉ (copyLoop k B i size).2 := by
  fun_induction copyLoop k B i size with
  | case1 i size _ res calls hchunk => simpa [hchunk] using openDst_not_mem_copyChunk k i B.1 fd
  | case2 i size _ calls hchunk rest ih =>
    have hcalls := openDst_not_mem_copyChunk k i B.1 fd
    rw [hchunk] at hcalls
    exact fun h => (List.mem_append.1 h).elim hcalls ih
  | case3 i size _ _ res calls hchunk => simpa [hchunk] using openDst_not_mem_copyChunk k i size fd
  | case4 i size _ _ calls hchunk => simpa [hchunk] using openDst_not_mem_copyChunk k i size fd
  | case5 => exact List.not_mem_nil

theorem movesAll_zero (hn : 0 < n) : k.MovesAll n i 0 := eachRound_zero hn

theorem movesAll_rest {b : Nat} (hn : 0 < n) (hb : n < b) : k.MovesAll b i n ↔ k.Moves i n := eachRound_rest hn hb

theorem movesAll_chunk {b : Nat} (hb : 0 < b) (hn : b ≤ n) :
    k.MovesAll b i n ↔ k.Moves i b ∧ k.MovesAll b (i + 1) (n - b) := eachRound_chunk hb hn

/-- The loop ends with 0 exactly when it moves everything, and says so with a negative number when it does not. -/
theorem copyLoop_cases (k : IoAnswers) (B : BufferSize) (i : Nat) (size : UInt32) :
    (k.MovesAll B.1.toNat i size.toNat ∧ (copyLoop k B i size).1 = 0 ∧
      bytesRead (copyLoop k B i size).2 = size.toNat ∧ bytesWritten (copyLoop k B i size).2 = size.toNat) ∨
    (¬ k.MovesAll B.1.toNat i size.toNat ∧ (copyLoop k B i size).1 < 0 ∧
      ¬ (bytesRead (copyLoop k B i size).2 = size.toNat ∧ bytesWritten (copyLoop k B i size).2 = size.toNat)) := by
  have hB := B.2.1
  fun_induction copyLoop k B i size with
  | case1 i size h res calls hchunk =>
    have hle := UInt32.le_iff_toNat_le.1 h
    rw [movesAll_chunk hB hle]
    obtain ⟨hmoves, hres, hcalls⟩ := copyChunk_some hchunk
    exact .inr ⟨fun h => hmoves h.1, hres, by dsimp only; omega⟩
  | case2 i size h calls hchunk rest ih =>
    have hle := UInt32.le_iff_toNat_le.1 h
    rw [movesAll_chunk hB hle]
    simp only [bytesRead_append, bytesWritten_append, rest]
    obtain ⟨hmoves, hread, hwritten⟩ := copyChunk_none hchunk
    rw [UInt32.toNat_sub_of_le _ _ h] at ih
    obtain ⟨hall, hres, hrest⟩ | ⟨hall, hres, hrest⟩ := ih
    · exact .inl ⟨⟨hmoves, hall⟩, hres, by omega⟩
    · exact .inr ⟨fun h => hall h.2, hres, by omega⟩
  | case3 i size h hpos res calls hchunk =>
    have hlt := mt UInt32.le_iff_toNat_le.2 h
    rw [movesAll_rest (UInt32.lt_iff_toNat_lt.1 hpos) (by omega)]
    obtain ⟨hmoves, hres, hcalls⟩ := copyChunk_some hchunk
    have := UInt32.lt_iff_toNat_lt.1 hpos
    rw [UInt32.toNat_zero] at this
    exact .inr ⟨hmoves, hres, by dsimp only; omega⟩
  | case4 i size h hpos calls hchunk =>
    have hlt := mt UInt32.le_iff_toNat_le.2 h
    rw [movesAll_rest (UInt32.lt_iff_toNat_lt.1 hpos) (by omega)]
    obtain ⟨hmoves, hread, hwritten⟩ := copyChunk_none hchunk
    exact .inl ⟨hmoves, rfl, hread, hwritten⟩
  | case5 i size h hpos =>
    have hzero : size.toNat = 0 := Nat.eq_zero_of_not_pos fun h => hpos (UInt32.lt_iff_toNat_lt.2 h)
    rw [hzero]
    exact .inl ⟨movesAll_zero hB, rfl, rfl, rfl⟩

end

end VitaUtility.Dumper

import Mathlib.Algebra.GroupWithZero.Nat
import Mathlib.Data.List.Basic
import Mathlib.Tactic.SplitIfs

/-!
# The compression of a file

`zlib_test_file` of `SceZlibSample`: it reads `sd0:os0.bin` in chunks, gives each to `sceZlibDeflate`, and writes what
that made of them to a file on the first drive there is.
-/

namespace VitaUtility.ZlibSample

/-- `sizeof(working_buffer)` -/
def workingBufferSize : Nat := 0x10000

/-- The size of `zlib_output`. -/
def zlibOutputSize : Nat := 0x800000

/-- The drives an output file is written to, in the order they are tried. -/
inductive Drive where
  | host0
  | uma0
  | sd0
  | ux0
deriving DecidableEq

def drives : List Drive := [.host0, .uma0, .sd0, .ux0]

/-- What `sceZlibDeflate` does with a stream: its result, the stream after it, how many bytes of the input it has
consumed, and the output. -/
structure DeflateAnswer (σ : Type) where
  res : Int32
  strm : σ
  consumed : Nat
  out : List UInt8

/-- `sceZlibDeflate`, for a stream with this input and this much space for output, and a value of flush. -/
abbrev Deflate (σ : Type) := (strm : σ) → (input : List UInt8) → (availOut : Nat) → (flush : Int32) → DeflateAnswer σ

/-- What `zlib_test_file` gets from outside. -/
structure ZlibAnswers (σ : Type) where
  heapid : Int32
  memid : Int32
  /-- what `SceZlibForDriver_20A122F8` made of the stream -/
  strm : σ
  deflate : Deflate σ
  fd : Int32
  getstatByFd : Int32
  stSize : Int64
  /-- the bytes that each `ksceIoRead` gives; the one after the last gives none -/
  reads : List (List UInt8)
  getstat : Drive → Int32
  outFd : Int32

/-- A call of `sceZlibDeflate`, with the number of bytes it has consumed. -/
structure DeflateCall where
  input : List UInt8
  flush : Int32
  consumed : Nat

section
variable {σ : Type}

/-- The loop over the file: the calls it makes, the last result, and the output. -/
def fileLoop (deflate : Deflate σ) : (reads : List (List UInt8)) → (fileSize : Int32) → (strm : σ) →
    (availOut : Nat) → (zlibRes : Int32) → List DeflateCall × Int32 × List UInt8
  | [], _, _, _, zlibRes => ([], zlibRes, [])
  | input :: reads, fileSize, strm, availOut, _ =>
    let fileSize := fileSize - Int32.ofNat input.length
    let flush := if fileSize ≠ 0 then 0 else 4
    let a := deflate strm input availOut flush
    let call := ⟨input, flush, a.consumed⟩
    if a.res = 0 then
      let rest := fileLoop deflate reads fileSize a.strm (availOut - a.out.length) a.res
      (call :: rest.1, rest.2.1, a.out ++ rest.2.2)
    else ([call], a.res, a.out)

namespace ZlibAnswers
variable (k : ZlibAnswers σ)

/-- `zlib_sample_output.gzip` on the first drive, if it is written. -/
def writeOutput (out : List UInt8) : Option (Drive × List UInt8) :=
  match drives.find? fun drv => 0 ≤ k.getstat drv with
  | none => none
  | some drv =>
    if out.length = 0 then none
    else if k.outFd < 0 then none
    else some (drv, out)

/-- The result, the calls of `sceZlibDeflate`, and the file that is written. -/
def zlibTestFile : Int32 × List DeflateCall × Option (Drive × List UInt8) :=
  if k.heapid < 0 then (-1, [], none)
  else if k.memid < 0 then (0, [], none)
  else if k.fd < 0 then (0, [], none)
  else if k.getstatByFd < 0 then (0, [], none)
  else
    let (calls, zlibRes, out) := fileLoop k.deflate k.reads k.stSize.toInt32 k.strm zlibOutputSize (-1)
    (0, calls, if zlibRes = 1 then k.writeOutput out else none)

end ZlibAnswers

/-! ### The whole file -/

def total (reads : List (List UInt8)) : Nat := (reads.map List.length).sum

/-- What `zlib.h` says of `deflate`: it consumes its input unless the space for output runs out, fails without such
space, and says that it is at the end only if it was told to finish and nothing is left of the input. -/
structure Deflate.Documented (deflate : Deflate σ) : Prop where
  consumes : ∀ strm input availOut flush, 0 ≤ (deflate strm input availOut flush).res →
    (deflate strm input availOut flush).consumed = input.length ∨ (deflate strm input availOut flush).out.length = availOut
  no_space : ∀ strm input flush, (deflate strm input 0 flush).res < 0
  finishes : ∀ strm input availOut flush, (deflate strm input availOut flush).res = 1 →
    flush = 4 ∧ (deflate strm input availOut flush).consumed = input.length

/-- The reads give between 1 and `0x10000` bytes each, and `st_size` in all. -/
structure ZlibAnswers.ReadsFile (k : ZlibAnswers σ) : Prop where
  chunk : ∀ input ∈ k.reads, 1 ≤ input.length ∧ input.length ≤ workingBufferSize
  whole : k.stSize.toInt = total k.reads

/-- The call that carries the last byte of a file of `size` bytes is the one with flush 4. -/
def FlushesLast (size : Nat) (calls : List DeflateCall) : Prop :=
  ∀ before call after, calls = before ++ call :: after →
    (call.flush = 4 ↔ total (before.map (·.input)) + call.input.length = size)

/-- A file of `size` bytes is handed over whole. -/
structure HandsOver (size : Nat) (calls : List DeflateCall) (written : Option (Drive × List UInt8)) : Prop where
  flush : FlushesLast size calls
  output : written.isSome → (calls.map (·.consumed)).sum = size

/-- The loop is come to. -/
structure ZlibAnswers.Starts (k : ZlibAnswers σ) : Prop where
  heap : 0 ≤ k.heapid
  memblk : 0 ≤ k.memid
  opened : 0 ≤ k.fd
  stat : 0 ≤ k.getstatByFd

/-- As long as the stream goes on, what is left of the file is no multiple of `2 ^ 32` bytes, or nothing. -/
def NoWrap (deflate : Deflate σ) : (reads : List (List UInt8)) → (strm : σ) → (availOut : Nat) → Prop
  | [], _, _ => True
  | input :: reads, strm, availOut =>
    (2 ^ 32 ∣ total reads → total reads = 0) ∧
    let a := deflate strm input availOut 0
    (a.res = 0 → NoWrap deflate reads a.strm (availOut - a.out.length))

variable {deflate : Deflate σ} {reads : List (List UInt8)} {input : List UInt8} {strm : σ} {availOut : Nat}
  {fileSize zlibRes : Int32} {size : Nat} {call : DeflateCall} {calls : List DeflateCall}

@[simp] theorem total_nil : total [] = 0 := rfl

@[simp] theorem total_cons : total (input :: reads) = input.length + total reads := by
  simp [total]

theorem total_replicate {n : Nat} : total (List.replicate n input) = n * input.length := by
  induction n with
  | zero => rw [List.replicate_zero, total_nil, Nat.zero_mul]
  | succ n ih => rw [List.replicate_succ, total_cons, ih, Nat.succ_mul, Nat.add_comm]

theorem total_eq_zero (h : ∀ input ∈ reads, 1 ≤ input.length) : total reads = 0 ↔ reads = [] := by
  cases reads with
  | nil => simp
  | cons input reads =>
    have := h input (by simp)
    simp only [total_cons, reduceCtorEq, iff_false]
    omega

/-- The counter is 0 when what is left is a multiple of `2 ^ 32` bytes. -/
theorem counter_eq_zero : Int32.ofNat size = 0 ↔ 2 ^ 32 ∣ size := by
  rw [← Int32.toInt_inj, Int32.toInt_ofNat']
  exact Int.dvd_iff_bmod_eq_zero.symm.trans Int.natCast_dvd_natCast

theorem counter_sub : Int32.ofNat (input.length + size) - Int32.ofNat input.length = Int32.ofNat size := by
  rw [Nat.add_comm, Int32.ofNat_add, Int32.add_sub_cancel]

theorem flushesLast_nil : FlushesLast size [] := by
  rintro (_ | _) call after h <;> cases h

theorem flushesLast_cons : FlushesLast (call.input.length + size) (call :: calls) ↔
    (call.flush = 4 ↔ size = 0) ∧ FlushesLast size calls := by
  constructor
  · intro h
    refine ⟨(h [] call calls rfl).trans (by simp), fun before c after heq => ?_⟩
    refine (h (call :: before) c after (by rw [heq, List.cons_append])).trans ?_
    simp only [List.map_cons, total_cons]
    omega
  · rintro ⟨hcall, h⟩ (_ | ⟨c', before⟩) c after heq
    · obtain ⟨rfl, -⟩ := List.cons.inj heq
      simpa using hcall
    · obtain ⟨rfl, hcalls⟩ := List.cons.inj heq
      refine (h before c after hcalls).trans ?_
      simp only [List.map_cons, total_cons]
      omega

/-- The calls are told right where the end is exactly when the counter does not wrap. -/
theorem fileLoop_flushesLast (hchunk : ∀ input ∈ reads, 1 ≤ input.length) :
    FlushesLast (total reads) (fileLoop deflate reads (Int32.ofNat (total reads)) strm availOut zlibRes).1 ↔
      NoWrap deflate reads strm availOut := by
  induction reads generalizing strm availOut zlibRes with
  | nil => exact iff_of_true flushesLast_nil trivial
  | cons input reads ih =>
    replace ih := @ih
    have hreads : ∀ i ∈ reads, 1 ≤ i.length := fun i hi => hchunk i (List.mem_cons_of_mem _ hi)
    unfold fileLoop NoWrap
    dsimp only
    rw [total_cons, counter_sub]
    by_cases hdvd : 2 ^ 32 ∣ total reads
    · -- flush is 4, which is right only if this is the last chunk
      rw [if_neg (not_not.2 (counter_eq_zero.2 hdvd))]
      by_cases hlast : total reads = 0
      · obtain rfl := (total_eq_zero hreads).1 hlast
        refine iff_of_true ?_ ⟨fun _ => rfl, fun _ => trivial⟩
        split <;> exact flushesLast_cons.2 ⟨by simp, flushesLast_nil⟩
      · refine iff_of_false (fun h => ?_) fun h => hlast (h.1 hdvd)
        split at h <;> exact hlast ((flushesLast_cons.1 h).1.1 rfl)
    · rw [if_pos (mt counter_eq_zero.1 hdvd)]
      have hne : total reads ≠ 0 := fun h => hdvd (h ▸ Nat.dvd_zero _)
      split
      · next hres =>
        refine flushesLast_cons.trans ?_
        rw [ih hreads]
        exact ⟨fun h => ⟨fun hd => absurd hd hdvd, fun _ => h.2⟩,
          fun h => ⟨iff_of_false (show ¬ (0 : Int32) = 4 by decide) hne, h.2 hres⟩⟩
      · next hres =>
        refine flushesLast_cons.trans ?_
        exact iff_of_true ⟨iff_of_false (show ¬ (0 : Int32) = 4 by decide) hne, flushesLast_nil⟩
          ⟨fun hd => absurd hd hdvd, fun h => absurd h hres⟩

/-- Without space for output the loop does not come to the end of the stream. -/
theorem fileLoop_no_space (hd : deflate.Documented) (hres : zlibRes ≠ 1) :
    (fileLoop deflate reads fileSize strm 0 zlibRes).2.1 ≠ 1 := by
  cases reads with
  | nil => exact hres
  | cons input reads =>
    unfold fileLoop
    dsimp only
    generalize ha : deflate strm input 0 (if fileSize - Int32.ofNat input.length ≠ 0 then 0 else 4) = a
    have hneg : a.res < 0 := ha ▸ hd.no_space _ _ _
    have h0 : a.res ≠ 0 := fun h => absurd (h ▸ hneg) (by decide)
    have h1 : a.res ≠ 1 := fun h => absurd (h ▸ hneg) (by decide)
    rw [if_neg h0]
    exact h1

/-- At the end of the stream, everything has been consumed. -/
theorem fileLoop_consumed (hd : deflate.Documented) (hchunk : ∀ input ∈ reads, 1 ≤ input.length)
    (hwrap : NoWrap deflate reads strm availOut) (hres : zlibRes ≠ 1)
    (h : (fileLoop deflate reads (Int32.ofNat (total reads)) strm availOut zlibRes).2.1 = 1) :
    ((fileLoop deflate reads (Int32.ofNat (total reads)) strm availOut zlibRes).1.map (·.consumed)).sum = total reads := by
  induction reads generalizing strm availOut zlibRes with
  | nil => rfl
  | cons input reads ih =>
    have hreads : ∀ i ∈ reads, 1 ≤ i.length := fun i hi => hchunk i (List.mem_cons_of_mem _ hi)
    obtain ⟨hlast, htail⟩ := hwrap
    unfold fileLoop at h ⊢
    dsimp only at h ⊢
    rw [total_cons, counter_sub] at h ⊢
    by_cases hdvd : 2 ^ 32 ∣ total reads
    · obtain rfl := (total_eq_zero hreads).1 (hlast hdvd)
      rw [if_neg (not_not.2 (counter_eq_zero.2 hdvd))] at h ⊢
      split at h
      · next hzero =>
        have h01 : (0 : Int32) = 1 := hzero.symm.trans h
        exact absurd h01 (by decide)
      · next hne =>
        rw [if_neg hne]
        simpa using (hd.finishes _ _ _ _ h).2
    · rw [if_pos (mt counter_eq_zero.1 hdvd)] at h ⊢
      split at h
      · next hzero =>
        have h0 : (deflate strm input availOut 0).res ≠ 1 := by
          rw [hzero]
          decide
        rw [if_pos hzero, List.map_cons, List.sum_cons, ih hreads (htail hzero) h0 h]
        rcases hd.consumes strm input availOut 0 (Int32.le_of_eq hzero.symm) with hall | hfull
        · rw [hall]
        · -- what is left of the input would be lost, but there is no space for the next call
          rw [hfull, Nat.sub_self] at h
          exact absurd h (fileLoop_no_space hd h0)
      · exact absurd (hd.finishes _ _ _ _ h).1 (by decide)

end

/-- A file is handed over whole exactly when the counter does not wrap while the stream goes on. -/
theorem zlibTestFile_handsOver_iff {σ : Type} (k : ZlibAnswers σ) (hd : k.deflate.Documented) (hfile : k.ReadsFile) :
    HandsOver (total k.reads) k.zlibTestFile.2.1 k.zlibTestFile.2.2 ↔
      (k.Starts → NoWrap k.deflate k.reads k.strm zlibOutputSize) := by
  have hnothing : HandsOver (total k.reads) [] none := ⟨flushesLast_nil, by simp⟩
  have hsize : k.stSize.toInt32 = Int32.ofNat (total k.reads) := by
    rw [← Int64.ofInt_toInt k.stSize, hfile.whole, Int64.toInt32_ofInt, Int32.ofInt_eq_ofNat]
  have hchunk : ∀ input ∈ k.reads, 1 ≤ input.length := fun input hi => (hfile.chunk input hi).1
  unfold ZlibAnswers.zlibTestFile
  split_ifs with hheap hmem hfd hstat
  · exact iff_of_true hnothing fun h => absurd hheap (Int32.not_lt.2 h.heap)
  · exact iff_of_true hnothing fun h => absurd hmem (Int32.not_lt.2 h.memblk)
  · exact iff_of_true hnothing fun h => absurd hfd (Int32.not_lt.2 h.opened)
  · exact iff_of_true hnothing fun h => absurd hstat (Int32.not_lt.2 h.stat)
  · rw [hsize]
    constructor
    · exact fun h _ => (fileLoop_flushesLast hchunk).1 h.flush
    · intro h
      have hwrap := h ⟨Int32.not_lt.1 hheap, Int32.not_lt.1 hmem, Int32.not_lt.1 hfd, Int32.not_lt.1 hstat⟩
      refine ⟨(fileLoop_flushesLast hchunk).2 hwrap, fun hwritten => ?_⟩
      refine fileLoop_consumed hd hchunk hwrap (by decide) ?_
      by_contra hne
      dsimp only at hwritten
      rw [if_neg hne] at hwritten
      cases hwritten

/-- The header of a gzip file, and what comes after it for the bytes `aa`. -/
def gzipHeader : List UInt8 := [0x1F, 0x8B, 8, 0, 0, 0, 0, 0, 0, 3]

def restOfAA : List UInt8 := [0x4B, 0x4C, 4, 0, 0xD7, 0x19, 0x8A, 7, 2, 0, 0, 0]

/-- What `deflate` does with the bytes `aa`, the stream being the input before; other input it keeps. -/
def deflateAA : Deflate (List UInt8) := fun strm input availOut flush =>
  if availOut = 0 then ⟨-5, strm, 0, []⟩
  else if strm ++ input = [0x61, 0x61] ∧ flush = 4 ∧ restOfAA.length ≤ availOut then
    ⟨1, strm ++ input, input.length, restOfAA⟩
  else if strm = [] ∧ gzipHeader.length ≤ availOut then ⟨0, input, input.length, gzipHeader⟩
  else ⟨0, strm ++ input, input.length, []⟩

theorem deflateAA_documented : deflateAA.Documented := by
  refine ⟨fun strm input availOut flush h => ?_, fun strm input flush => ?_, fun strm input availOut flush h => ?_⟩
  · unfold deflateAA at h ⊢
    split_ifs at h ⊢ with hout
    · exact absurd (show (0 : Int32) ≤ -5 from h) (by decide)
    · exact .inl rfl
    · exact .inl rfl
    · exact .inl rfl
  · unfold deflateAA
    rw [if_pos rfl]
    show (-5 : Int32) < 0
    decide
  · unfold deflateAA at h ⊢
    split_ifs at h ⊢ with hout hinput
    · cases h
    · exact ⟨hinput.2.1, rfl⟩
    · cases h
    · cases h

/-- A file of the bytes `aa`, in two reads. -/
def twoReadsOfA : ZlibAnswers (List UInt8) where
  heapid := 1
  memid := 2
  strm := []
  deflate := deflateAA
  fd := 3
  getstatByFd := 0
  stSize := 2
  reads := [[0x61], [0x61]]
  getstat := fun drv => if drv = .ux0 then 0 else -1
  outFd := 4

theorem zlibTestFile_handsOver_twoChunks :
    HandsOver 2 twoReadsOfA.zlibTestFile.2.1 (some (.ux0, gzipHeader ++ restOfAA)) ∧
      twoReadsOfA.zlibTestFile.2.1.length = 2 :=
  ⟨(zlibTestFile_handsOver_iff twoReadsOfA deflateAA_documented ⟨by decide, rfl⟩).2
    fun _ => ⟨by decide, fun _ => ⟨fun _ => rfl, fun _ => trivial⟩⟩, rfl⟩

/-- The gzip file of the byte `a`. -/
def gzipOfA : List UInt8 :=
  [0x1F, 0x8B, 8, 0, 0, 0, 0, 0, 4, 3, 0x4B, 4, 0, 0x43, 0xBE, 0xB7, 0xE8, 1, 0, 0, 0]

/-- What `deflate` does with the byte `a`; other input it keeps. -/
def deflateA : Deflate Unit := fun _ input availOut flush =>
  if availOut = 0 then ⟨-5, (), 0, []⟩
  else if input = [0x61] ∧ flush = 4 ∧ gzipOfA.length ≤ availOut then ⟨1, (), 1, gzipOfA⟩
  else ⟨0, (), input.length, []⟩

theorem deflateA_documented : deflateA.Documented := by
  refine ⟨fun strm input availOut flush h => ?_, fun strm input flush => ?_, fun strm input availOut flush h => ?_⟩
  · unfold deflateA at h ⊢
    split_ifs at h ⊢ with hout hinput
    · exact absurd h (by decide)
    · exact .inl (hinput.1 ▸ rfl)
    · exact .inl rfl
  · unfold deflateA
    rw [if_pos rfl]
    decide
  · unfold deflateA at h ⊢
    split_ifs at h ⊢ with hout hinput
    · cases h
    · exact ⟨hinput.2.1, hinput.1 ▸ rfl⟩
    · cases h

/-- A file that starts with the byte `a`, which the first read gives alone. -/
def startsWithA (stSize : Int64) (reads : List (List UInt8)) : ZlibAnswers Unit where
  heapid := 1
  memid := 2
  strm := ()
  deflate := deflateA
  fd := 3
  getstatByFd := 0
  stSize := stSize
  reads := [0x61] :: reads
  getstat := fun drv => if drv = .ux0 then 0 else -1
  outFd := 4

/-- A file of `2 ^ 32 + 1` bytes: the first of them makes a whole output file. -/
def longFile : ZlibAnswers Unit := startsWithA 0x100000001 (.replicate 0x10000 (.replicate 0x10000 0))

theorem longFile_fail : longFile.deflate.Documented ∧ longFile.ReadsFile ∧
    longFile.zlibTestFile = (0, [⟨[0x61], 4, 1⟩], some (.ux0, gzipOfA)) ∧
    ¬ HandsOver (total longFile.reads) longFile.zlibTestFile.2.1 longFile.zlibTestFile.2.2 := by
  have htotal : total longFile.reads = 2 ^ 32 + 1 := by
    unfold longFile startsWithA
    rw [total_cons, total_replicate, List.length_replicate]
    rfl
  have hrun : longFile.zlibTestFile = (0, [⟨[0x61], 4, 1⟩], some (.ux0, gzipOfA)) := rfl
  refine ⟨deflateA_documented, ⟨fun input hinput => ?_, ?_⟩, hrun, fun h => ?_⟩
  · rcases List.mem_cons.1 hinput with rfl | hmem
    · decide
    · rw [List.eq_of_mem_replicate hmem, List.length_replicate]
      decide
  · rw [htotal]
    rfl
  · have hlast := (h.flush [] ⟨[0x61], 4, 1⟩ [] (by rw [hrun]; rfl)).1 rfl
    rw [htotal] at hlast
    exact absurd hlast (by decide)

end VitaUtility.ZlibSample

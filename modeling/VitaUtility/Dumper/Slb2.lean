import VitaUtility.Dumper.Contents
import VitaUtility.Lib.Mask
import VitaUtility.CStr

/-!
# SLB2 images

`slb2_extraction` and `slb2_check_sha256` of `slb2_dumper` over any header. The fields of the header are used as they
are: the count as an index into the ten entries, the sector as a 32-bit position, the names as strings.
-/

namespace VitaUtility.Dumper.Slb2Dumper

/-- The `0x200` bytes of a `SceSlb2Header`. -/
abbrev SceSlb2Header := Mem

/-- `sizeof(SceSlb2Header)` -/
def headerSize : Nat := 0x200

variable (header : SceSlb2Header)

def isSlb2 : Prop := header 0 = 0x53 ∧ header 1 = 0x4C ∧ header 2 = 0x42 ∧ header 3 = 0x32

instance : Decidable (isSlb2 header) := inferInstanceAs (Decidable (_ ∧ _))

def fileCount : UInt32 := load32 header 0xC

/-- Where `entry[i]` starts. -/
def entryAt (i : Nat) : Nat := 0x20 + 0x30 * i

def sectorPos (i : Nat) : UInt32 := load32 header (entryAt i)

def size (i : Nat) : UInt32 := load32 header (entryAt i + 4)

/-- `entry[i].file_name` as a string, which has to end inside the header. -/
def fileName (i : Nat) : Option CStr := strAt header (headerSize - (entryAt i + 0x10)) (entryAt i + 0x10)

/-- A `write_file_from_fd` of an extraction: its path, and its calls. -/
structure WrittenFile where
  path : CStr
  calls : List IoCall

/-- The kernel while an image is extracted: its answers to the copy of the file `i`, the device being at `pos`. -/
abbrev ExtractionKernel (image : List UInt8) := (i pos : Nat) → { k : IoAnswers // k.ReadsFrom image pos }

/-- `entry[i].sector_pos << 9` -/
def bytePos (i : Nat) : Nat := (sectorPos header i <<< 9).toNat

variable {image : List UInt8} (kernel : ExtractionKernel image) (dstDir : CStr)

/-- One round of the loop; `none` when it uses memory that is not in an entry of the header. -/
def extractFile (i : Nat) : Option WrittenFile :=
  if i < 10 then do
    let name ← fileName header i
    let path := (dstDir ++ slash :: name).take 0xFF
    let (_res, calls) := writeFileFromFd (kernel i (bytePos header i)).1 (size header i)
    some ⟨path, calls⟩
  else none

/-- `n` rounds, from the file `i` on. -/
def extractLoop : (n i : Nat) → Option (List WrittenFile)
  | 0, _ => some []
  | n + 1, i => do
    let file ← extractFile header kernel dstDir i
    let files ← extractLoop n (i + 1)
    some (file :: files)

/-- The result and what has been written; what `write_file_from_fd` returns is dropped. -/
def slb2Extraction (openSrc : Int32) : Option (Int32 × List WrittenFile) :=
  let fd := openSrc
  if fd < 0 then some (fd, []) else
  if ¬ isSlb2 header then some (0, []) else do
  let files ← extractLoop header kernel dstDir (fileCount header).toNat 0
  some (0, files)

/-- `slb2_size` for the entry `i`, by which the digest goes. -/
def slb2Size (i : Nat) : UInt32 := (sectorPos header i <<< 9) + ((size header i + 0x1FF) &&& 0xFFFFFE00)

/-- The result and the calls for the digest; the index of the entry is unsigned. -/
def slb2CheckSha256 (openSrc : Int32) (k : IoAnswers) : Option (Int32 × List HashCall) :=
  let fd := openSrc
  if fd < 0 then some (fd, []) else
  if ¬ isSlb2 header then some (0, []) else
  let last := (fileCount header - 1).toNat
  if last < 10 then
    let (_res, calls) := getSha256FromFd k bufferSize (slb2Size header last)
    some (0, calls)
  else none

/-! ### Staying in the header -/

/-- The name of the file `i` ends inside the header. -/
def NameEnds (i : Nat) : Prop := ∃ b, entryAt i + 0x10 ≤ b ∧ b < headerSize ∧ header b = 0

section
variable {header kernel dstDir} {i n : Nat} {file : WrittenFile} {files : List WrittenFile}

theorem fileName_isSome (hi : i < 10) : (∃ name, fileName header i = some name) ↔ NameEnds header i := by
  unfold fileName NameEnds
  rw [strAt_isSome]
  have hsum : entryAt i + 0x10 + (headerSize - (entryAt i + 0x10)) = headerSize := by
    unfold entryAt headerSize
    omega
  rw [hsum]

/-- The calls of the file `i`. -/
theorem extractFile_eq_some : extractFile header kernel dstDir i = some file ↔
    i < 10 ∧ ∃ name, fileName header i = some name ∧ file = ⟨(dstDir ++ slash :: name).take 0xFF,
      (writeFileFromFd (kernel i (bytePos header i)).1 (size header i)).2⟩ := by
  unfold extractFile
  by_cases hi : i < 10
  · rw [if_pos hi]
    simp only [Option.bind_eq_bind, Option.bind_eq_some_iff, Option.some.injEq, hi, true_and]
    exact exists_congr fun name => and_congr_right fun _ => eq_comm
  · rw [if_neg hi]
    exact iff_of_false (fun h => nomatch h) fun h => hi h.1

theorem extractLoop_succ : extractLoop header kernel dstDir (n + 1) i = some files ↔
    ∃ file rest, files = file :: rest ∧ extractFile header kernel dstDir i = some file ∧
      extractLoop header kernel dstDir n (i + 1) = some rest := by
  rw [extractLoop]
  simp only [Option.bind_eq_bind, Option.bind_eq_some_iff, Option.some.injEq]
  constructor
  · rintro ⟨file, hfile, rest, hrest, rfl⟩
    exact ⟨file, rest, rfl, hfile, hrest⟩
  · rintro ⟨file, rest, rfl, hfile, hrest⟩
    exact ⟨file, hfile, rest, hrest, rfl⟩

/-- The loop returns the files one by one, in the order of the entries. -/
theorem extractLoop_eq_some : extractLoop header kernel dstDir n i = some files ↔
    files.length = n ∧ ∀ j < n, ∃ file, files[j]? = some file ∧
      extractFile header kernel dstDir (i + j) = some file := by
  induction n generalizing i files with
  | zero =>
    rw [extractLoop]
    constructor
    · rintro h
      obtain rfl := Option.some.inj h
      exact ⟨rfl, fun j hj => absurd hj (Nat.not_lt_zero _)⟩
    · rintro ⟨h, -⟩
      rw [List.length_eq_zero_iff.1 h]
  | succ n ih =>
    rw [extractLoop_succ]
    constructor
    · rintro ⟨file, rest, rfl, hfile, hrest⟩
      obtain ⟨hlen, hall⟩ := ih.1 hrest
      refine ⟨congrArg (· + 1) hlen, fun j hj => ?_⟩
      cases j with
      | zero => exact ⟨file, rfl, hfile⟩
      | succ j =>
        obtain ⟨file', hget, hfile'⟩ := hall j (by omega)
        exact ⟨file', hget, by rwa [show i + (j + 1) = i + 1 + j by omega]⟩
    · rintro ⟨hlen, hall⟩
      cases files with
      | nil => cases hlen
      | cons file rest =>
        obtain ⟨file', hget, hfile⟩ := hall 0 (Nat.succ_pos _)
        obtain rfl := Option.some.inj hget
        refine ⟨file, rest, rfl, hfile, ih.2 ⟨Nat.succ.inj hlen, fun j hj => ?_⟩⟩
        obtain ⟨file', hget, hfile'⟩ := hall (j + 1) (by omega)
        exact ⟨file', hget, by rwa [show i + 1 + j = i + (j + 1) by omega]⟩

theorem extractFile_isSome : (∃ file, extractFile header kernel dstDir i = some file) ↔ i < 10 ∧ NameEnds header i := by
  constructor
  · rintro ⟨file, hfile⟩
    obtain ⟨hi, name, hname, -⟩ := extractFile_eq_some.1 hfile
    exact ⟨hi, (fileName_isSome hi).1 ⟨name, hname⟩⟩
  · rintro ⟨hi, hends⟩
    obtain ⟨name, hname⟩ := (fileName_isSome hi).2 hends
    exact ⟨_, extractFile_eq_some.2 ⟨hi, name, hname, rfl⟩⟩

theorem extractLoop_isSome : (∃ files, extractLoop header kernel dstDir n i = some files) ↔
    ∀ j < n, i + j < 10 ∧ NameEnds header (i + j) := by
  constructor
  · rintro ⟨files, hfiles⟩ j hj
    obtain ⟨file, -, hfile⟩ := (extractLoop_eq_some.1 hfiles).2 j hj
    exact extractFile_isSome.1 ⟨file, hfile⟩
  · intro h
    induction n generalizing i with
    | zero => exact ⟨[], rfl⟩
    | succ n ih =>
      obtain ⟨file, hfile⟩ := extractFile_isSome.2 (h 0 (Nat.succ_pos _))
      obtain ⟨files, hfiles⟩ := ih (i := i + 1) fun j hj => by
        have := h (j + 1) (by omega)
        rwa [show i + (j + 1) = i + 1 + j by omega] at this
      exact ⟨file :: files, extractLoop_succ.2 ⟨file, files, rfl, hfile, hfiles⟩⟩

/-- Every listed name ends in the header, and the list in the ten entries. -/
theorem listed_iff : (∀ j < (fileCount header).toNat, 0 + j < 10 ∧ NameEnds header (0 + j)) ↔
    (fileCount header).toNat ≤ 10 ∧ ∀ j < (fileCount header).toNat, NameEnds header j := by
  simp only [Nat.zero_add]
  constructor
  · intro h
    refine ⟨?_, fun j hj => (h j hj).2⟩
    by_contra hlt
    have := (h 10 (by omega)).1
    omega
  · exact fun h j hj => ⟨by omega, h.2 j hj⟩

end

/-! ### What is written -/

/-- The file `i` was opened as `dstDir/file_name`, and holds the `size` bytes of the image from `512 * sector_pos` on. -/
def WrittenExactly (header : SceSlb2Header) (image : List UInt8) (dstDir : CStr) (i : Nat) (file : WrittenFile) : Prop :=
  (∃ name, fileName header i = some name ∧ file.path = dstDir ++ slash :: name) ∧
  Complete (size header i).toNat file.calls ∧
  fileAfter [] 0 file.calls = slice image (512 * (sectorPos header i).toNat) (size header i).toNat

/-- The path of the file `i` fits its buffer, its copy does not fail, and the image has the same bytes at the 32-bit
position as at the sector. -/
def Extracts (i : Nat) : Prop :=
  (∃ name, fileName header i = some name ∧ (dstDir ++ slash :: name).length ≤ 0xFF) ∧
  (kernel i (bytePos header i)).1.Copies bufferSize (size header i) ∧
  slice image (bytePos header i) (size header i).toNat =
    slice image (512 * (sectorPos header i).toNat) (size header i).toNat

section
variable {header kernel dstDir} {k : IoAnswers} {B : BufferSize} {i pos : Nat} {len : UInt32} {file : WrittenFile}

theorem writtenExactly_iff (h : extractFile header kernel dstDir i = some file) :
    WrittenExactly header image dstDir i file ↔ Extracts header kernel dstDir i := by
  obtain ⟨-, name, hname, rfl⟩ := extractFile_eq_some.1 h
  unfold WrittenExactly Extracts
  have hpath : (dstDir ++ slash :: name).take 0xFF = dstDir ++ slash :: name ↔
      (dstDir ++ slash :: name).length ≤ 0xFF := by
    rw [List.take_eq_self_iff]
  simp only [hname, Option.some.injEq, exists_eq_left', hpath]
  refine and_congr_right fun _ => ?_
  rw [writeFileFromFd, copyFile_complete_iff]
  refine and_congr_right fun hcopies => ?_
  have hexact : CopiedExactly image (bytePos header i) (size header i).toNat [] _ :=
    copyFile_exact (kernel i (bytePos header i)).2 (Nat.zero_le _) (copyFile_full hcopies)
  rw [hexact.file]

end

/-! ### Any header -/

section
variable {header kernel dstDir} {openSrc r : Int32} {k : IoAnswers} {files : List WrittenFile}

theorem slb2Extraction_eq_some (hmagic : isSlb2 header) :
    slb2Extraction header kernel dstDir openSrc = some (r, files) ↔
      (openSrc < 0 ∧ r = openSrc ∧ files = []) ∨
      (¬ openSrc < 0 ∧ r = 0 ∧ extractLoop header kernel dstDir (fileCount header).toNat 0 = some files) := by
  unfold slb2Extraction
  by_cases hopen : openSrc < 0
  · simp [hopen, eq_comm]
  rw [if_neg hopen, if_neg (not_not.2 hmagic)]
  simp only [Option.bind_eq_bind, Option.bind_eq_some_iff, Option.some.injEq, Prod.mk.injEq, hopen, false_and, false_or,
    not_false_eq_true, true_and]
  constructor
  · rintro ⟨files, hfiles, rfl, rfl⟩
    exact ⟨rfl, hfiles⟩
  · rintro ⟨rfl, hfiles⟩
    exact ⟨files, hfiles, rfl, rfl⟩

/-- The index of the last entry is unsigned, and wraps when there is none. -/
theorem last_lt_iff : (fileCount header - 1).toNat < 10 ↔
    1 ≤ (fileCount header).toNat ∧ (fileCount header).toNat ≤ 10 := by
  have hlt := (fileCount header).toNat_lt
  have hone : (1 : UInt32).toNat = 1 := rfl
  rw [UInt32.toNat_sub, hone]
  omega

theorem slb2Extraction_isSome (hmagic : isSlb2 header) :
    (∃ r, slb2Extraction header kernel dstDir openSrc = some r) ↔
      openSrc < 0 ∨ ((fileCount header).toNat ≤ 10 ∧ ∀ i < (fileCount header).toNat, NameEnds header i) := by
  by_cases hopen : openSrc < 0
  · exact iff_of_true ⟨(openSrc, []), (slb2Extraction_eq_some hmagic).2 (.inl ⟨hopen, rfl, rfl⟩)⟩ (.inl hopen)
  rw [or_iff_right hopen, ← listed_iff]
  constructor
  · rintro ⟨⟨r, files⟩, hr⟩
    obtain ⟨hneg, -⟩ | ⟨-, -, hfiles⟩ := (slb2Extraction_eq_some hmagic).1 hr
    · exact absurd hneg hopen
    · exact extractLoop_isSome.1 ⟨files, hfiles⟩
  · intro h
    obtain ⟨files, hfiles⟩ := extractLoop_isSome.2 h
    exact ⟨(0, files), (slb2Extraction_eq_some hmagic).2 (.inr ⟨hopen, rfl, hfiles⟩)⟩

theorem slb2CheckSha256_isSome (hmagic : isSlb2 header) :
    (∃ r, slb2CheckSha256 header openSrc k = some r) ↔
      openSrc < 0 ∨ (1 ≤ (fileCount header).toNat ∧ (fileCount header).toNat ≤ 10) := by
  unfold slb2CheckSha256
  by_cases hopen : openSrc < 0
  · exact iff_of_true ⟨_, if_pos hopen⟩ (.inl hopen)
  rw [or_iff_right hopen, if_neg hopen, if_neg (not_not.2 hmagic), ← last_lt_iff]
  dsimp only
  split_ifs with hlast
  · exact iff_of_true ⟨_, rfl⟩ hlast
  · exact iff_of_false (by simp) hlast

/-- `0 ≤ r` promises the files only where every one of them comes out. -/
theorem slb2Extraction_written (hmagic : isSlb2 header)
    (hr : slb2Extraction header kernel dstDir openSrc = some (r, files)) :
    (0 ≤ r → ∀ i < (fileCount header).toNat, ∃ file, files[i]? = some file ∧ WrittenExactly header image dstDir i file) ↔
      openSrc < 0 ∨ ∀ i < (fileCount header).toNat, Extracts header kernel dstDir i := by
  rcases (slb2Extraction_eq_some hmagic).1 hr with ⟨hopen, rfl, rfl⟩ | ⟨hopen, rfl, hfiles⟩
  · exact iff_of_true (fun h => absurd h (Int32.not_le.2 hopen)) (.inl hopen)
  obtain ⟨-, hall⟩ := extractLoop_eq_some.1 hfiles
  rw [or_iff_right hopen]
  constructor
  · intro h i hi
    obtain ⟨file, hget, hwritten⟩ := h (Int32.le_refl _) i hi
    obtain ⟨file', hget', hfile⟩ := hall i hi
    obtain rfl := Option.some.inj (hget.symm.trans hget')
    rw [Nat.zero_add] at hfile
    exact (writtenExactly_iff hfile).1 hwritten
  · intro h _ i hi
    obtain ⟨file, hget, hfile⟩ := hall i hi
    rw [Nat.zero_add] at hfile
    exact ⟨file, hget, (writtenExactly_iff hfile).2 (h i hi)⟩

end

/-- A header with `n` files, all of them empty and without a name. -/
def emptyFiles (n : UInt8) : SceSlb2Header := fun
  | 0 => 0x53
  | 1 => 0x4C
  | 2 => 0x42
  | 3 => 0x32
  | 0xC => n
  | _ => 0

/-- No file can be opened for writing, and nothing can be read. -/
def refusing (image : List UInt8) : ExtractionKernel image := fun _ _ =>
  ⟨{ failedRead with openDst := -1 }, fun _ => by simp [fill, slice, failedRead]⟩

/-- A count of 11 takes the extraction past the header, a count of 0 the digest before it, and an extraction that
has written nothing returns 0. -/
theorem emptyFiles_fail :
    slb2Extraction (emptyFiles 11) (refusing []) [] 3 = none ∧
    slb2CheckSha256 (emptyFiles 0) 3 failedRead = none ∧
    ∃ files, slb2Extraction (emptyFiles 1) (refusing []) [] 3 = some (0, files) ∧
      ¬ ∃ file, files[0]? = some file ∧ WrittenExactly (emptyFiles 1) [] [] 0 file := by
  refine ⟨Option.eq_none_iff_forall_ne_some.2 fun r hr => ?_, Option.eq_none_iff_forall_ne_some.2 fun r hr => ?_, ?_⟩
  · obtain hopen | ⟨hcount, -⟩ := (slb2Extraction_isSome (by decide)).1 ⟨r, hr⟩
    · exact absurd hopen (by decide)
    · exact absurd hcount (by decide)
  · obtain hopen | ⟨hcount, -⟩ := (slb2CheckSha256_isSome (by decide)).1 ⟨r, hr⟩
    · exact absurd hopen (by decide)
    · exact absurd hcount (by decide)
  have hmagic : isSlb2 (emptyFiles 1) := by decide
  have hcount : (fileCount (emptyFiles 1)).toNat = 1 := by decide
  have hname : ∀ i < (fileCount (emptyFiles 1)).toNat, NameEnds (emptyFiles 1) i := by
    intro i hi
    obtain rfl : i = 0 := by omega
    exact ⟨0x30, by decide, by decide, rfl⟩
  obtain ⟨⟨r, files⟩, hr⟩ : ∃ r, slb2Extraction (emptyFiles 1) (refusing []) [] 3 = some r :=
    (slb2Extraction_isSome hmagic).2 (.inr ⟨by decide, hname⟩)
  obtain ⟨hopen, -⟩ | ⟨-, rfl, -⟩ := (slb2Extraction_eq_some hmagic).1 hr
  · exact absurd hopen (by decide)
  refine ⟨files, hr, fun hwritten => ?_⟩
  obtain hopen | h := (slb2Extraction_written hmagic hr).1 fun _ i hi => by
    obtain rfl : i = 0 := by omega
    exact hwritten
  · exact absurd hopen (by decide)
  · exact absurd (h 0 (by decide)).2.1.1 (by decide)

/-- Which headers the two functions read without leaving the ten entries, and which runs of an extraction that
returns a result that is not negative have written every listed file. -/
theorem extraction_iff (openSrc : Int32) (k : IoAnswers) (hmagic : isSlb2 header) :
    ((∃ r, slb2Extraction header kernel dstDir openSrc = some r) ↔
      openSrc < 0 ∨ ((fileCount header).toNat ≤ 10 ∧ ∀ i < (fileCount header).toNat, NameEnds header i)) ∧
    ((∃ r, slb2CheckSha256 header openSrc k = some r) ↔
      openSrc < 0 ∨ (1 ≤ (fileCount header).toNat ∧ (fileCount header).toNat ≤ 10)) ∧
    ∀ r files, slb2Extraction header kernel dstDir openSrc = some (r, files) →
      ((0 ≤ r → ∀ i < (fileCount header).toNat, ∃ file, files[i]? = some file ∧
          WrittenExactly header image dstDir i file) ↔
        openSrc < 0 ∨ ∀ i < (fileCount header).toNat, Extracts header kernel dstDir i) :=
  ⟨slb2Extraction_isSome hmagic, slb2CheckSha256_isSome hmagic, fun _ _ => slb2Extraction_written hmagic⟩

/-- One byte of an image, and then none. -/
def readsByte (image : List UInt8) (pos : Nat) : IoAnswers where
  openSrc := 3
  deviceSize := 0
  openDst := 4
  chstat := 0
  read i := if i = 0 ∧ pos < image.length then 1 else 0
  buf _ b := image.getD (pos + b) 0
  write _ := 1

theorem readsFrom_readsByte (image : List UInt8) (pos : Nat) : (readsByte image pos).ReadsFrom image pos := by
  intro i
  by_cases h : i = 0 ∧ pos < image.length
  · have hread : (readsByte image pos).read i = 1 := if_pos h
    obtain ⟨rfl, hpos⟩ := h
    rw [hread]
    show [image.getD pos 0] = (image.drop pos).take 1
    rw [List.drop_eq_getElem_cons hpos, List.take_succ_cons, List.take_zero]
    simp [List.getD_eq_getElem?_getD, hpos]
  · have hread : (readsByte image pos).read i = 0 := if_neg h
    rw [hread]
    rfl

/-- A header with two files of one byte, `a` in the sector 1 and `b` in the sector 2. -/
def filesAB : SceSlb2Header := fun
  | 0 => 0x53
  | 1 => 0x4C
  | 2 => 0x42
  | 3 => 0x32
  | 0xC => 2
  | 0x20 => 1
  | 0x24 => 1
  | 0x30 => 0x61
  | 0x50 => 2
  | 0x54 => 1
  | 0x60 => 0x62
  | _ => 0

def imageAB : List UInt8 := List.replicate 1024 5 ++ [6]

def readsAB : ExtractionKernel imageAB := fun _ pos => ⟨readsByte imageAB pos, readsFrom_readsByte imageAB pos⟩

theorem extracts_filesAB : ∀ i < 2, Extracts filesAB readsAB (literal "ux0:/slb2_act") i := by
  have hlen : imageAB.length = 1025 := by rw [imageAB, List.length_append, List.length_replicate]; rfl
  intro i hi
  have hpos : bytePos filesAB i = 512 * (i + 1) ∧ (sectorPos filesAB i).toNat = i + 1 ∧ size filesAB i = 1 := by
    obtain rfl | rfl : i = 0 ∨ i = 1 := by omega
    · decide
    · decide
  refine ⟨?_, ⟨show (0 : Int32) ≤ 4 by decide, ?_⟩, by rw [hpos.1, hpos.2.1]⟩
  · obtain rfl | rfl : i = 0 ∨ i = 1 := by omega
    · exact ⟨literal "a", by decide, by decide⟩
    · exact ⟨literal "b", by decide, by decide⟩
  · rw [hpos.2.2]
    refine (movesAll_rest (by decide) (by decide)).2 ⟨?_, rfl⟩
    have hin : bytePos filesAB i < imageAB.length := by omega
    simp [readsAB, readsByte, hin]

/-- Two files that are not empty come out, and their digest is computed. -/
theorem extraction_iff_twoFiles :
    (∃ r, slb2CheckSha256 filesAB 3 failedRead = some r) ∧
    ∃ files, slb2Extraction filesAB readsAB (literal "ux0:/slb2_act") 3 = some (0, files) ∧
      ∀ i < 2, ∃ file, files[i]? = some file ∧ WrittenExactly filesAB imageAB (literal "ux0:/slb2_act") i file := by
  obtain ⟨hrun, hcheck, hwritten⟩ :=
    extraction_iff filesAB readsAB (literal "ux0:/slb2_act") 3 failedRead (by decide)
  have hcount : (fileCount filesAB).toNat = 2 := by decide
  rw [hcount] at hrun hcheck hwritten
  have hends : ∀ i < 2, NameEnds filesAB i := by
    intro i hi
    obtain rfl | rfl : i = 0 ∨ i = 1 := by omega
    · exact ⟨0x31, by decide, by decide, rfl⟩
    · exact ⟨0x61, by decide, by decide, rfl⟩
  obtain ⟨⟨r, files⟩, hr⟩ := hrun.2 (.inr ⟨by decide, hends⟩)
  obtain ⟨hopen, -⟩ | ⟨-, rfl, -⟩ := (slb2Extraction_eq_some (by decide)).1 hr
  · exact absurd hopen (by decide)
  · exact ⟨hcheck.2 (.inr (by decide)), files, hr, (hwritten 0 files hr).2 (.inr extracts_filesAB) (Int32.le_refl 0)⟩

/-! ### The digest -/

/-- The end of the file `i` in the image. -/
def entryEnd (i : Nat) : Nat := 512 * (sectorPos header i).toNat + (size header i).toNat

/-- The end of the last sector that the file `i` has a byte in, or begins with. -/
def sectorEnd (i : Nat) : Nat := 512 * (sectorPos header i).toNat + ((size header i).toNat + 511) / 512 * 512

/-- The bytes that the digest is over. -/
def hashed (calls : List HashCall) : List UInt8 := calls.flatMap HashCall.data

section
variable {header} {i len : Nat}

/-- The 32-bit size of the digest is the end of the entry's last sector, unless that is `2 ^ 32` or more. -/
theorem toNat_slb2Size : (slb2Size header i).toNat = sectorEnd header i % 2 ^ 32 := by
  have hmask : (0xFFFFFE00 : UInt32).toNat = (2 ^ (32 - 9) - 1) * 2 ^ 9 := by decide
  have hround : (0x1FF : UInt32).toNat = 511 := rfl
  have hshift : 2 ^ ((9 : UInt32).toNat % 32) = 512 := rfl
  have hpow : 2 ^ 32 = 4294967296 := rfl
  have hsize := (size header i).toNat_lt
  rw [slb2Size, UInt32.toNat_add, toNat_and_high hmask, UInt32.toNat_add, UInt32.toNat_shiftLeft, hround,
    Nat.shiftLeft_eq, hshift, sectorEnd]
  omega

theorem entryEnd_le_sectorEnd : entryEnd header i ≤ sectorEnd header i ∧ sectorEnd header i < entryEnd header i + 512 ∧
    512 ∣ sectorEnd header i := by
  unfold entryEnd sectorEnd
  omega

/-- Whole buffers that do not reach the end of the last sector do not reach the end of the entry either. -/
theorem lt_entryEnd {j : Nat} (h : 0x20000 * j < sectorEnd header i) : 0x20000 * j < entryEnd header i := by
  obtain ⟨-, hlt, s, hs⟩ := @entryEnd_le_sectorEnd header i
  have hstep : 256 * j + 1 ≤ s := by omega
  omega

/-- The first `len` bytes cover the files, where `len` is what has been hashed of the size that goes by the entry
`last`. -/
theorem covered_iff {n last : Nat} {readsAll : Nat → Prop} (hlast : last < n)
    (hends : ∀ i < n, entryEnd header i < 2 ^ 32)
    (hlen : (readsAll (slb2Size header last).toNat ∧ len = (slb2Size header last).toNat) ∨
      (¬ readsAll (slb2Size header last).toNat ∧ ∃ j, len = 0x20000 * j ∧ 0x20000 * j < (slb2Size header last).toNat)) :
    (∀ i < n, entryEnd header i ≤ len) ↔
      (∀ i < n, entryEnd header i ≤ sectorEnd header last) ∧ sectorEnd header last < 2 ^ 32 ∧
        readsAll (sectorEnd header last) := by
  rw [toNat_slb2Size] at hlen
  have hend := hends last hlast
  obtain ⟨hle, hlt, hsector⟩ := @entryEnd_le_sectorEnd header last
  by_cases hwrap : sectorEnd header last < 2 ^ 32
  swap
  · -- the end of the sectors is `2 ^ 32`, and its low half is zero
    have hzero : sectorEnd header last % 2 ^ 32 = 0 := by omega
    have hlen : len = 0 := by
      rcases hlen with ⟨-, h⟩ | ⟨-, j, -, h⟩ <;> omega
    refine iff_of_false (fun h => ?_) fun h => hwrap h.2.1
    have := h last hlast
    omega
  rw [Nat.mod_eq_of_lt hwrap] at hlen
  rcases hlen with ⟨hread, rfl⟩ | ⟨hread, j, rfl, hj⟩
  · exact ⟨fun h => ⟨h, hwrap, hread⟩, fun h => h.1⟩
  · refine iff_of_false (fun h => ?_) fun h => hread h.2.2
    exact absurd (h last hlast) (Nat.not_le.2 (lt_entryEnd hj))

end

/-- The digest is over the image from its start, and covers the files exactly when none ends after the sectors of the
last one, these end below `2 ^ 32`, and no read fails. -/
theorem digest_iff (openSrc : Int32) (k : IoAnswers) (hk : k.ReadsFrom image 0) (hopen : 0 ≤ openSrc)
    (hmagic : isSlb2 header) (hone : 1 ≤ (fileCount header).toNat) (hten : (fileCount header).toNat ≤ 10)
    (hends : ∀ i < (fileCount header).toNat, entryEnd header i < 2 ^ 32) :
    ∃ r calls, slb2CheckSha256 header openSrc k = some (r, calls) ∧
      hashed calls = slice image 0 (hashed calls).length ∧
      ((∀ i < (fileCount header).toNat, entryEnd header i ≤ (hashed calls).length) ↔
        (∀ i < (fileCount header).toNat, entryEnd header i ≤ sectorEnd header ((fileCount header).toNat - 1)) ∧
        sectorEnd header ((fileCount header).toNat - 1) < 2 ^ 32 ∧
        k.ReadsAll bufferSize.1.toNat 0 (sectorEnd header ((fileCount header).toNat - 1))) := by
  have hlast : (fileCount header - 1).toNat = (fileCount header).toNat - 1 := by
    rw [UInt32.toNat_sub_of_le _ _ (UInt32.le_iff_toNat_le.2 (show (1 : UInt32).toNat ≤ _ from hone))]
    rfl
  generalize hn : (fileCount header).toNat - 1 = last at hlast ⊢
  have hcheck : slb2CheckSha256 header openSrc k =
      some (0, (getSha256FromFd k bufferSize (slb2Size header last)).2) := by
    unfold slb2CheckSha256
    rw [if_neg (Int32.not_lt.2 hopen), if_neg (not_not.2 hmagic)]
    dsimp only
    rw [hlast, if_pos (by omega)]
  refine ⟨_, _, hcheck, ?_⟩
  rw [hashed, hashed_getSha256FromFd]
  obtain ⟨hslice, hlen⟩ := @hashLoop_data k bufferSize 0 0 (slb2Size header last) image hk
  exact ⟨hslice, covered_iff (by omega) hends hlen⟩

/-- A header with two files of one byte, the first in the sector `n` and the second in the sector 0. -/
def twoFiles (n : UInt8) : SceSlb2Header := fun
  | 0 => 0x53
  | 1 => 0x4C
  | 2 => 0x42
  | 3 => 0x32
  | 0xC => 2
  | 0x20 => n
  | 0x24 => 1
  | 0x54 => 1
  | _ => 0

/-- A device of two sectors of zeros, of which the first is read. -/
def zeroSectors : IoAnswers := { failedRead with read := fun i => if i = 0 then 512 else 0, buf := fun _ _ => 0 }

theorem fill_zero {n m : Nat} (h : n ≤ m) : fill (fun _ => (0 : UInt8)) n = slice (.replicate m 0) 0 n := by
  simp [fill, slice, List.map_const', h]

theorem readsFrom_zeroSectors : zeroSectors.ReadsFrom (.replicate 1024 0) 0 := by
  intro i
  cases i with
  | zero => exact fill_zero (show 512 ≤ 1024 by decide)
  | succ i => rfl

/-- The file in the sector 1 is not covered when the last entry is in the sector 0. -/
theorem twoFiles_fail : ∃ calls, slb2CheckSha256 (twoFiles 1) 3 zeroSectors = some (0, calls) ∧
    (fileCount (twoFiles 1)).toNat = 2 ∧ (∀ i < 2, entryEnd (twoFiles 1) i < 2 ^ 32) ∧
    (hashed calls).length = 512 ∧ entryEnd (twoFiles 1) 0 = 513 := by
  have hcalls : slb2CheckSha256 (twoFiles 1) 3 zeroSectors =
      some (0, [.read 512 512, .update (fill (fun _ => 0) 512), .result]) := by
    have hlast : (fileCount (twoFiles 1) - 1).toNat = 1 := by decide
    have hsize : slb2Size (twoFiles 1) 1 = 512 := by decide
    unfold slb2CheckSha256
    rw [if_neg (by decide), if_neg (not_not.2 (by decide))]
    dsimp only
    rw [hlast, if_pos (by decide), hsize, getSha256FromFd, chunkLoop, if_neg (by decide), if_pos (by decide)]
    rfl
  refine ⟨_, hcalls, by decide, by decide, ?_, by decide⟩
  simp [hashed, HashCall.data]

theorem digest_iff_sameSector : ∃ r calls, slb2CheckSha256 (twoFiles 0) 3 zeroSectors = some (r, calls) ∧
    ∀ i < 2, entryEnd (twoFiles 0) i ≤ (hashed calls).length := by
  obtain ⟨r, calls, hrun, -, hiff⟩ := digest_iff (twoFiles 0) 3 zeroSectors readsFrom_zeroSectors (by decide) (by decide)
    (by decide) (by decide) (by decide)
  refine ⟨r, calls, hrun, hiff.2 ⟨by decide, by decide, ?_⟩⟩
  have hend : sectorEnd (twoFiles 0) 1 = 512 := by decide
  show zeroSectors.ReadsAll 0x20000 0 (sectorEnd (twoFiles 0) 1)
  rw [hend]
  exact (eachRound_rest (by decide) (by decide)).2 rfl

end VitaUtility.Dumper.Slb2Dumper

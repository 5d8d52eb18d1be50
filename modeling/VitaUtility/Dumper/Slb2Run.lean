import VitaUtility.Dumper.Drive
import VitaUtility.Dumper.Slb2

/-!
# A run of `slb2_dumper`

`slb2_dump_main` as a whole: both devices are dumped, and the images that have been written are read again, for a digest
and for the files in them. What comes out in the end is compared with the devices.
-/

namespace VitaUtility.Dumper.Slb2Dumper

/-- The two partitions. -/
inductive Part where
  | ina
  | act
deriving DecidableEq

def Part.device : Part → CStr
  | .ina => literal "sdstor0:int-lp-ina-sloader"
  | .act => literal "sdstor0:int-lp-act-sloader"

def Part.name : Part → CStr
  | .ina => literal "/slb2_ina"
  | .act => literal "/slb2_act"

/-- What the kernel answers about one partition in a run; `image` is what is in the file of the partition. -/
structure PartAnswers where
  /-- `ksceIoGetstat` of that file and of the directory -/
  statBin : Int32
  statDir : Int32
  /-- `slb2_dump` -/
  dump : IoAnswers
  mkdir : Int32
  /-- `ksceIoOpen` of the image in `slb2_check_sha256` and in `slb2_extraction` -/
  openCheck : Int32
  openExtract : Int32
  /-- how many bytes of the header are read there, and the stack before -/
  readCheck : Nat
  readExtract : Nat
  stack : Mem
  /-- the reads for the digest, and what is in `sha256_hash` when there is none -/
  check : List UInt8 → IoAnswers
  garbage : List UInt8
  /-- `ksceIoOpen` and `ksceIoWrite` of the digest -/
  openHash : Int32
  writeHash : Int32
  /-- the copies of the files -/
  extract : (image : List UInt8) → ExtractionKernel image

structure RunAnswers where
  /-- `ksceIoGetstat` of `"host0:"`, `"sd0:"` and `"ux0:"` -/
  statHost0 : Int32
  statSd0 : Int32
  statUx0 : Int32
  part : Part → PartAnswers
  /-- the digest of SHA-256 -/
  sha256 : List UInt8 → List UInt8

/-- The files and the directories. -/
structure Drive where
  files : Files
  dirs : CStr → Bool

/-- The header after `ksceIoRead` of it; its memory ends at `0x200`. -/
def headerRead (image : List UInt8) (stack : Mem) (n : Nat) : SceSlb2Header := fun b =>
  if b < headerSize then if b < n then image.getD b (stack b) else stack b else 0

def isResult : HashCall → Bool
  | .result => true
  | _ => false

/-- `write_file` -/
def writeFile (openHash writeHash : Int32) (data : List UInt8) : Option (List UInt8) :=
  if openHash < 0 then none else some (data.take writeHash.toInt.toNat)

/-- `"%s.bin"` of the directory -/
def binPath (drv : CStr) (p : Part) : CStr := snprintf 0x40 (drv ++ p.name ++ literal ".bin")

def dirPath (drv : CStr) (p : Part) : CStr := snprintf 0x40 (drv ++ p.name)

/-- `slb2_check_sha256` of the image at `path`; `none` as for `slb2CheckSha256`. -/
def checkSha256 (k : PartAnswers) (sha256 : List UInt8 → List UInt8) (fs : Files) (path : CStr) : Option Files :=
  match fs path with
  | none => some fs
  | some image =>
    let header := headerRead image k.stack k.readCheck
    match slb2CheckSha256 header k.openCheck (k.check image) with
    | none => none
    | some (_res, calls) =>
      if k.openCheck < 0 ∨ ¬ isSlb2 header then some fs else
      let hash := if calls.any isResult then sha256 (hashed calls) else k.garbage
      some (fs.put (snprintf 0x100 (path ++ literal ".sha256")) (writeFile k.openHash k.writeHash hash))

/-- The files that an extraction writes, one after the other. -/
def putWritten (fs : Files) (written : List WrittenFile) : Files :=
  written.foldl (fun fs w => fs.put w.path (leaves [] w.calls)) fs

/-- `slb2_extraction` of the image at `path`. -/
def extraction (k : PartAnswers) (fs : Files) (path dir : CStr) : Option Files :=
  match fs path with
  | none => some fs
  | some image =>
    match slb2Extraction (headerRead image k.stack k.readExtract) (k.extract image) dir k.openExtract with
    | none => none
    | some (_res, written) => some (putWritten fs written)

/-- What is done for a partition that has no directory; this is made first, whatever comes of the rest. -/
def extractMissing (k : RunAnswers) (drv : CStr) (p : Part) (d : Drive) : Option Drive :=
  if ¬ (k.part p).statDir < 0 then some d else
  match checkSha256 (k.part p) k.sha256 d.files (binPath drv p) with
  | none => none
  | some fs =>
    match extraction (k.part p) fs (binPath drv p) (dirPath drv p) with
    | none => none
    | some fs => some ⟨fs, if (k.part p).mkdir < 0 then d.dirs else Function.update d.dirs (dirPath drv p) true⟩

/-- The drive that is there. -/
def RunAnswers.drv (k : RunAnswers) : Option CStr :=
  if 0 ≤ k.statHost0 then some (literal "host0:") else if 0 ≤ k.statSd0 then some (literal "sd0:")
  else if 0 ≤ k.statUx0 then some (literal "ux0:") else none

/-- The files after both dumps. -/
def dumpBoth (k : RunAnswers) (drv : CStr) (fs : Files) : Files :=
  (fs.dumpMissing (k.part .ina).statBin (binPath drv .ina) (leaves [] (slb2Dump (k.part .ina).dump).2)).dumpMissing
    (k.part .act).statBin (binPath drv .act) (leaves [] (slb2Dump (k.part .act).dump).2)

/-- `slb2_dump_main`: the result and what is on the drives, if it stays in its memory. -/
def slb2DumpMain (k : RunAnswers) (d : Drive) : Option (Int32 × Drive) :=
  match k.drv with
  | none => some (2, d)
  | some drv =>
    match extractMissing k drv .ina ⟨dumpBoth k drv d.files, d.dirs⟩ with
    | none => none
    | some d =>
      match extractMissing k drv .act d with
      | none => none
      | some d => some (0, d)

/-! ### The paths -/

section
variable {drv path name : CStr} {p q : Part}

/-- The path of the digest. -/
def hashPath (drv : CStr) (p : Part) : CStr := snprintf 0x100 (binPath drv p ++ literal ".sha256")

theorem binPath_eq (h : drv ∈ drives) : binPath drv p = dirPath drv p ++ literal ".bin" := by
  revert drv
  cases p <;> decide

theorem hashPath_eq (h : drv ∈ drives) : hashPath drv p = dirPath drv p ++ literal ".bin.sha256" := by
  revert drv
  cases p <;> decide

theorem length_dirPath (h : drv ∈ drives) : (dirPath drv p).length = drv.length + 9 := by
  revert drv
  cases p <;> decide

theorem length_drive (h : drv ∈ drives) : drv.length ≤ 6 := by
  revert drv
  decide

theorem dirPath_ne_other (h : drv ∈ drives) (hne : p ≠ q) : dirPath drv p ≠ dirPath drv q := by
  revert drv
  cases p <;> cases q
  · exact absurd rfl hne
  · decide
  · decide
  · exact absurd rfl hne

/-- No path belongs to both partitions. -/
theorem not_prefix_other (h : drv ∈ drives) (hne : p ≠ q) (hpath : dirPath drv p <+: path) : ¬ dirPath drv q <+: path := by
  have hlen : (dirPath drv p).length = (dirPath drv q).length := by rw [length_dirPath h, length_dirPath h]
  intro hq
  have hsame := (List.prefix_of_prefix_length_le hpath hq (Nat.le_of_eq hlen)).eq_of_length hlen
  exact dirPath_ne_other h hne hsame

end

/-! ### A good image -/

/-- The header of an image that is as long as one. -/
def headerOf (src : List UInt8) : SceSlb2Header := fun b => if b < headerSize then src.getD b 0 else 0

/-- The device holds an SLB2 image: from one to ten files, with names of their own in their fields, inside of it. -/
structure IsImage (src : List UInt8) : Prop where
  header : headerSize ≤ src.length
  fits : src.length < 2 ^ 32
  magic : isSlb2 (headerOf src)
  count : 1 ≤ (fileCount (headerOf src)).toNat ∧ (fileCount (headerOf src)).toNat ≤ 10
  name : ∀ i < (fileCount (headerOf src)).toNat, ∃ name, fileName (headerOf src) i = some name ∧ name.length < 0x20
  distinct : ∀ i < (fileCount (headerOf src)).toNat, ∀ j < (fileCount (headerOf src)).toNat,
    fileName (headerOf src) i = fileName (headerOf src) j → i = j
  inside : ∀ i < (fileCount (headerOf src)).toNat,
    512 * (sectorPos (headerOf src) i).toNat + (size (headerOf src) i).toNat ≤ src.length

/-- The size for the digest. -/
def digestSize (src : List UInt8) : UInt32 :=
  slb2Size (headerOf src) ((fileCount (headerOf src)).toNat - 1)

/-- The partition has neither a file nor a directory, as `ksceIoGetstat` answers, and every call for it does what it
should. -/
structure PartAnswers.Works (k : PartAnswers) (src : List UInt8) : Prop where
  statBin : k.statBin < 0
  statDir : k.statDir < 0
  mkdir : 0 ≤ k.mkdir
  holds : k.dump.Holds src
  dumps : k.dump.Copies bufferSize (UInt32.ofNat src.length)
  openCheck : 0 ≤ k.openCheck
  openExtract : 0 ≤ k.openExtract
  readCheck : k.readCheck = headerSize
  readExtract : k.readExtract = headerSize
  reads : (k.check src).ReadsFrom src 0
  readsAll : (k.check src).ReadsAll bufferSize.1.toNat 0 (digestSize src).toNat
  openHash : 0 ≤ k.openHash
  writeHash : k.writeHash = 0x20
  extracts : ∀ i < (fileCount (headerOf src)).toNat,
    (k.extract src i (bytePos (headerOf src) i)).1.Copies bufferSize (size (headerOf src) i)

/-- The files of a partition are those of its device. -/
structure CameOut (sha256 : List UInt8 → List UInt8) (src : List UInt8) (drv : CStr) (p : Part) (fs : Files) : Prop where
  image : fs (binPath drv p) = some src
  digest : fs (hashPath drv p) = some ((sha256 (slice src 0 (digestSize src).toNat)).take 0x20)
  file : ∀ i < (fileCount (headerOf src)).toNat, ∃ name, fileName (headerOf src) i = some name ∧
    fs (dirPath drv p ++ slash :: name) =
      some (slice src (512 * (sectorPos (headerOf src) i).toNat) (size (headerOf src) i).toNat)

/-- The path is one of a partition that holds `src`: of its image, of the digest, or of a file. -/
def Owns (src : List UInt8) (drv : CStr) (p : Part) (path : CStr) : Prop :=
  path = binPath drv p ∨ path = hashPath drv p ∨
  ∃ i < (fileCount (headerOf src)).toNat, ∃ name, fileName (headerOf src) i = some name ∧
    path = dirPath drv p ++ slash :: name

section
variable {k : IoAnswers} {B : BufferSize} {src : List UInt8} {i n : Nat} {len : UInt32} {fs : Files}
  {written : List WrittenFile} {w : WrittenFile} {path name drv : CStr} {file : List UInt8} {p : Part}

theorem headerRead_eq {stack : Mem} (h : headerSize ≤ src.length) : headerRead src stack headerSize = headerOf src := by
  funext b
  unfold headerRead headerOf
  by_cases hb : b < headerSize
  · rw [if_pos hb, if_pos hb, if_pos hb]
    have hget := List.getElem?_eq_getElem (Nat.lt_of_lt_of_le hb h)
    simp [List.getD_eq_getElem?_getD, hget]
  · rw [if_neg hb, if_neg hb]

/-- The loop of the digest comes to its end when every read does what it should. -/
theorem hashLoop_none (h : k.ReadsAll B.1.toNat i len.toNat) : (chunkLoop (hashChunk k) B i len).1 = none := by
  have hB := B.2.1
  fun_induction chunkLoop (hashChunk k) B i len with
  | case1 i len hle res calls hc =>
    have hread := ((eachRound_chunk hB (UInt32.le_iff_toNat_le.1 hle)).1 h).1
    rw [hashChunk_of_read hread] at hc
    cases hc
  | case2 i len hle calls hc rest ih =>
    rw [UInt32.toNat_sub_of_le _ _ hle] at ih
    exact ih ((eachRound_chunk hB (UInt32.le_iff_toNat_le.1 hle)).1 h).2
  | case3 i len hle hpos =>
    have hlt := mt UInt32.le_iff_toNat_le.2 hle
    have hread := (eachRound_rest (UInt32.lt_iff_toNat_lt.1 hpos) (Nat.not_le.1 hlt)).1 h
    rw [hashChunk_of_read hread]
  | case4 => rfl

theorem getSha256FromFd_all (hk : k.ReadsFrom src 0) (h : k.ReadsAll B.1.toNat 0 len.toNat) :
    (getSha256FromFd k B len).2.any isResult = true ∧ hashed (getSha256FromFd k B len).2 = slice src 0 len.toNat := by
  obtain ⟨hnext, hlen⟩ : HashedUpTo k src 0 B.1.toNat 0 len.toNat _ := hashLoop_data hk
  obtain ⟨-, hlen⟩ | ⟨hall, -⟩ := hlen
  swap
  · exact absurd h hall
  constructor
  · have hnone := hashLoop_none h
    unfold getSha256FromFd
    rcases hloop : chunkLoop (hashChunk k) B 0 len with ⟨_ | res, calls⟩
    · simp [isResult]
    · rw [hloop] at hnone
      cases hnone
  · rw [hashed, hashed_getSha256FromFd]
    rw [hlen] at hnext
    exact hnext

/-! ### The files of an extraction -/

theorem putWritten_of_not_mem (h : ∀ w ∈ written, path ≠ w.path) : putWritten fs written path = fs path := by
  induction written generalizing fs with
  | nil => rfl
  | cons w written ih =>
    rw [List.forall_mem_cons] at h
    exact (ih h.2).trans (put_of_ne h.1)

/-- A file that no later one has the path of stays as it is written. -/
theorem putWritten_of_mem (hnodup : (written.map WrittenFile.path).Nodup) (hw : w ∈ written)
    (hfile : leaves [] w.calls = some file) : putWritten fs written w.path = some file := by
  induction written generalizing fs with
  | nil => cases hw
  | cons v written ih =>
    rw [List.map_cons, List.nodup_cons] at hnodup
    rcases List.mem_cons.1 hw with rfl | hw
    · have hlater : ∀ u ∈ written, w.path ≠ u.path := by
        intro u hu heq
        rw [heq] at hnodup
        exact hnodup.1 (List.mem_map_of_mem hu)
      show putWritten (fs.put w.path (leaves [] w.calls)) written w.path = some file
      rw [putWritten_of_not_mem hlater, hfile]
      exact Function.update_self ..
    · exact ih hnodup.2 hw

/-! ### The stages -/

theorem dump_leaves {k : PartAnswers} (hsrc : IsImage src) (hk : k.Works src) :
    leaves [] (slb2Dump k.dump).2 = some src := by
  have hsize : (UInt32.ofNat src.length).toNat = src.length := UInt32.toNat_ofNat_of_lt' hsrc.fits
  unfold slb2Dump
  rw [dumpDevice_eq (by rw [hsize]; exact hk.holds.size)]
  exact leaves_copyFile hk.holds.reads hsize (Nat.zero_le _) hk.dumps

/-- `512 * sector_pos` of a file that lies in the image has 32 bits. -/
theorem bytePos_eq (hsrc : IsImage src) (hi : i < (fileCount (headerOf src)).toNat) :
    bytePos (headerOf src) i = 512 * (sectorPos (headerOf src) i).toNat := by
  have hinside := hsrc.inside i hi
  have hfits := hsrc.fits
  rw [bytePos, UInt32.toNat_shiftLeft, Nat.shiftLeft_eq]
  show (sectorPos (headerOf src) i).toNat * 2 ^ 9 % 2 ^ 32 = _
  omega

theorem extracts {k : PartAnswers} (hsrc : IsImage src) (hk : k.Works src) (hdrv : drv ∈ drives)
    (hi : i < (fileCount (headerOf src)).toNat) : Extracts (headerOf src) (k.extract src) (dirPath drv p) i := by
  obtain ⟨name, hname, hlen⟩ := hsrc.name i hi
  refine ⟨⟨name, hname, ?_⟩, hk.extracts i hi, by rw [bytePos_eq hsrc hi]⟩
  have hdrive := length_drive hdrv
  rw [List.length_append, length_dirPath hdrv, List.length_cons]
  omega

/-- The digest is written, and nothing else. -/
theorem checkSha256_works {k : PartAnswers} {sha256 : List UInt8 → List UInt8} (hsrc : IsImage src) (hk : k.Works src)
    (himage : fs (binPath drv p) = some src) : checkSha256 k sha256 fs (binPath drv p) =
      some (fs.put (hashPath drv p) (some ((sha256 (slice src 0 (digestSize src).toNat)).take 0x20))) := by
  have hlast : (fileCount (headerOf src) - 1).toNat = (fileCount (headerOf src)).toNat - 1 := by
    rw [UInt32.toNat_sub_of_le _ _ (UInt32.le_iff_toNat_le.2 (show (1 : UInt32).toNat ≤ _ from hsrc.count.1))]
    rfl
  have hcount := hsrc.count
  have hcheck : slb2CheckSha256 (headerOf src) k.openCheck (k.check src) =
      some (0, (getSha256FromFd (k.check src) bufferSize (digestSize src)).2) := by
    unfold slb2CheckSha256
    rw [if_neg (Int32.not_lt.2 hk.openCheck), if_neg (not_not.2 hsrc.magic)]
    dsimp only
    rw [hlast, if_pos (by omega)]
    rfl
  obtain ⟨hresult, hhashed⟩ := getSha256FromFd_all hk.reads hk.readsAll
  unfold checkSha256
  rw [himage]
  dsimp only
  rw [hk.readCheck, headerRead_eq hsrc.header, hcheck]
  dsimp only
  rw [if_neg (by simp [Int32.not_lt.2 hk.openCheck, hsrc.magic]), hresult, if_pos rfl, hhashed, writeFile,
    if_neg (Int32.not_lt.2 hk.openHash), hk.writeHash]
  rfl

/-- What an extraction writes, by the number of the file. -/
theorem written_get {k : PartAnswers} (hsrc : IsImage src) (hk : k.Works src) (hdrv : drv ∈ drives) :
    ∃ written, slb2Extraction (headerOf src) (k.extract src) (dirPath drv p) k.openExtract = some (0, written) ∧
      written.length = (fileCount (headerOf src)).toNat ∧
      ∀ i w, written[i]? = some w → ∃ name, fileName (headerOf src) i = some name ∧
        w.path = dirPath drv p ++ slash :: name ∧
        leaves [] w.calls =
          some (slice src (512 * (sectorPos (headerOf src) i).toNat) (size (headerOf src) i).toNat) := by
  have hends : ∀ i < (fileCount (headerOf src)).toNat, NameEnds (headerOf src) i := by
    intro i hi
    have hcount := hsrc.count
    obtain ⟨name, hname, -⟩ := hsrc.name i hi
    exact (fileName_isSome (by omega)).1 ⟨name, hname⟩
  have hsome : ∃ r, slb2Extraction (headerOf src) (k.extract src) (dirPath drv p) k.openExtract = some r :=
    (slb2Extraction_isSome hsrc.magic).2 (.inr ⟨hsrc.count.2, hends⟩)
  obtain ⟨⟨r, written⟩, hr⟩ := hsome
  rcases (slb2Extraction_eq_some hsrc.magic).1 hr with ⟨hneg, -⟩ | ⟨-, rfl, hloop⟩
  · exact absurd hk.openExtract (Int32.not_le.2 hneg)
  obtain ⟨hlen, hall⟩ := extractLoop_eq_some.1 hloop
  refine ⟨written, hr, hlen, fun i w hw => ?_⟩
  have hi : i < (fileCount (headerOf src)).toNat := hlen ▸ (List.getElem?_eq_some_iff.1 hw).1
  obtain ⟨w', hw', hfile⟩ := hall i hi
  obtain rfl := Option.some.inj (hw.symm.trans hw')
  rw [Nat.zero_add] at hfile
  obtain ⟨⟨name, hname, hpath⟩, -, hdata⟩ := (writtenExactly_iff hfile).2 (extracts hsrc hk hdrv hi)
  obtain ⟨-, name', hname', rfl⟩ := extractFile_eq_some.1 hfile
  refine ⟨name, hname, hpath, ?_⟩
  exact (leaves_eq (hk.extracts i hi).1).trans (congrArg some hdata)

/-- The files of the image come out in the directory, and nothing else changes. -/
theorem extraction_works {k : PartAnswers} (hsrc : IsImage src) (hk : k.Works src) (hdrv : drv ∈ drives)
    (himage : fs (binPath drv p) = some src) :
    ∃ fs', extraction k fs (binPath drv p) (dirPath drv p) = some fs' ∧
      (∀ i < (fileCount (headerOf src)).toNat, ∃ name, fileName (headerOf src) i = some name ∧
        fs' (dirPath drv p ++ slash :: name) =
          some (slice src (512 * (sectorPos (headerOf src) i).toNat) (size (headerOf src) i).toNat)) ∧
      ∀ path, (∀ i < (fileCount (headerOf src)).toNat, ∀ name, fileName (headerOf src) i = some name →
        path ≠ dirPath drv p ++ slash :: name) → fs' path = fs path := by
  obtain ⟨written, hrun, hlen, hget⟩ := written_get hsrc hk hdrv
  refine ⟨putWritten fs written, ?_, fun i hi => ?_, fun path hpath => ?_⟩
  · unfold extraction
    rw [himage]
    dsimp only
    rw [hk.readExtract, headerRead_eq hsrc.header, hrun]
  · have hw : written[i]? = some written[i] := List.getElem?_eq_getElem (hlen ▸ hi)
    obtain ⟨name, hname, hpath, hfile⟩ := hget i _ hw
    refine ⟨name, hname, ?_⟩
    rw [← hpath]
    refine putWritten_of_mem ?_ (List.getElem_mem _) hfile
    rw [List.nodup_iff_getElem?_ne_getElem?]
    intro a b hab hb heq
    rw [List.length_map] at hb
    rw [List.getElem?_map, List.getElem?_map, List.getElem?_eq_getElem (Nat.lt_trans hab hb),
      List.getElem?_eq_getElem hb] at heq
    obtain ⟨na, hna, hpa, -⟩ := hget a _ (List.getElem?_eq_getElem (Nat.lt_trans hab hb))
    obtain ⟨nb, hnb, hpb, -⟩ := hget b _ (List.getElem?_eq_getElem hb)
    rw [Option.map_some, Option.map_some, hpa, hpb, Option.some.injEq, List.append_cancel_left_eq, List.cons.injEq] at heq
    rw [heq.2, ← hnb] at hna
    exact absurd (hsrc.distinct a (by omega) b (by omega) hna) (Nat.ne_of_lt hab)
  · refine putWritten_of_not_mem fun w hw => ?_
    obtain ⟨j, hj⟩ := List.getElem?_of_mem hw
    obtain ⟨name, hname, hp, -⟩ := hget j w hj
    rw [hp]
    exact hpath j (hlen ▸ (List.getElem?_eq_some_iff.1 hj).1) name hname

end

/-! ### The run -/

section
variable {k : RunAnswers} {d : Drive} {drv : CStr} {p q : Part} {src : List UInt8}

/-- A partition without a directory comes out, and nothing but its paths changes. -/
theorem extractMissing_works (hsrc : IsImage src) (hk : (k.part p).Works src) (hdrv : drv ∈ drives)
    (himage : d.files (binPath drv p) = some src) :
    ∃ d', extractMissing k drv p d = some d' ∧ CameOut k.sha256 src drv p d'.files ∧
      (∀ path, ¬ Owns src drv p path → d'.files path = d.files path) ∧
      d'.dirs = Function.update d.dirs (dirPath drv p) true := by
  have hbin := binPath_eq (p := p) hdrv
  have hhash := hashPath_eq (p := p) hdrv
  let hash := (k.sha256 (slice src 0 (digestSize src).toNat)).take 0x20
  let fs := d.files.put (hashPath drv p) (some hash)
  have hcheck : checkSha256 (k.part p) k.sha256 d.files (binPath drv p) = some fs := checkSha256_works hsrc hk himage
  have hfs : ∀ path, path ≠ hashPath drv p → fs path = d.files path := fun path h => Function.update_of_ne h ..
  have hself : fs (hashPath drv p) = some hash := Function.update_self ..
  have hne : binPath drv p ≠ hashPath drv p := by
    rw [hbin, hhash, Ne, List.append_cancel_left_eq]
    decide
  obtain ⟨fs', hextract, hfiles, hrest⟩ := extraction_works hsrc hk hdrv ((hfs _ hne).trans himage)
  -- neither the image nor the digest is under the directory
  have hkept : ∀ {rest : CStr}, rest.head? ≠ some slash → fs' (dirPath drv p ++ rest) = fs (dirPath drv p ++ rest) := by
    refine fun hhead => hrest _ fun i _ name _ heq => hhead ?_
    rw [(List.append_cancel_left_eq ..).mp heq]
    rfl
  have himage' : fs' (binPath drv p) = fs (binPath drv p) := by
    rw [hbin]
    exact hkept (by decide)
  have hhash' : fs' (hashPath drv p) = fs (hashPath drv p) := by
    rw [hhash]
    exact hkept (by decide)
  refine ⟨⟨fs', Function.update d.dirs (dirPath drv p) true⟩, ?_,
    ⟨himage'.trans ((hfs _ hne).trans himage), hhash'.trans hself, hfiles⟩, fun path hpath => ?_, rfl⟩
  · unfold extractMissing
    rw [if_neg (not_not.2 hk.statDir), hcheck]
    dsimp only
    rw [hextract]
    dsimp only
    rw [if_neg (Int32.not_lt.2 hk.mkdir)]
  · refine (hrest path fun i hi name hname heq => hpath (.inr (.inr ⟨i, hi, name, hname, heq⟩))).trans (hfs path ?_)
    exact fun heq => hpath (.inr (.inl heq))

theorem mem_drives (h : k.drv = some drv) : drv ∈ drives := by
  unfold RunAnswers.drv at h
  split_ifs at h <;> cases h <;> simp [drives]

theorem CameOut.congr {sha256 : List UInt8 → List UInt8} {fs fs' : Files} (hdrv : drv ∈ drives)
    (h : CameOut sha256 src drv p fs) (heq : ∀ path, dirPath drv p <+: path → fs' path = fs path) :
    CameOut sha256 src drv p fs' where
  image := (heq _ (by rw [binPath_eq hdrv]; exact List.prefix_append _ _)).trans h.image
  digest := (heq _ (by rw [hashPath_eq hdrv]; exact List.prefix_append _ _)).trans h.digest
  file i hi := by
    obtain ⟨name, hname, hfile⟩ := h.file i hi
    exact ⟨name, hname, (heq _ (List.prefix_append _ _)).trans hfile⟩

theorem prefix_binPath (hdrv : drv ∈ drives) : dirPath drv p <+: binPath drv p := by
  rw [binPath_eq hdrv]
  exact List.prefix_append _ _

theorem binPath_injective (hdrv : drv ∈ drives) (h : binPath drv p = binPath drv q) : p = q := by
  by_contra hne
  have hpre := prefix_binPath (p := q) hdrv
  rw [← h] at hpre
  exact not_prefix_other hdrv hne (prefix_binPath hdrv) hpre

/-- The paths of a partition begin with its directory's. -/
theorem Owns.under_dirPath {path : CStr} (hdrv : drv ∈ drives) (h : Owns src drv p path) : dirPath drv p <+: path := by
  obtain rfl | rfl | ⟨i, -, name, -, rfl⟩ := h
  · exact prefix_binPath hdrv
  · rw [hashPath_eq hdrv]
    exact List.prefix_append _ _
  · exact List.prefix_append _ _

theorem dumpBoth_of_ne {fs : Files} {path : CStr} (h : ∀ p, path ≠ binPath drv p) :
    dumpBoth k drv fs path = fs path := by
  rw [dumpBoth, dumpMissing_eq, dumpMissing_eq, put_of_ne (h _), put_of_ne (h _)]

theorem dumpBoth_bin {fs : Files} (hdrv : drv ∈ drives) (hsrc : IsImage src) (hk : (k.part p).Works src) :
    dumpBoth k drv fs (binPath drv p) = some src := by
  have hne : binPath drv .ina ≠ binPath drv .act := fun h => absurd (binPath_injective hdrv h) (by decide)
  have hleft : (if (k.part p).statBin < 0 then leaves [] (slb2Dump (k.part p).dump).2 else none) = some src :=
    (if_pos hk.statBin).trans (dump_leaves hsrc hk)
  rw [dumpBoth, dumpMissing_eq, dumpMissing_eq]
  cases p with
  | ina => rw [put_of_ne hne, put_self, hleft, Option.some_or]
  | act => rw [put_self, hleft, Option.some_or]

/-- When `ksceIoGetstat` fails for the files and the directories of the two partitions, these hold images and no call
fails, the run ends well: the files of the partitions are the images, with their digests and the files inside of them in
the two directories, and no other file or directory has changed. -/
theorem slb2DumpMain_comesOut {dev : CStr → List UInt8} (hdrv : k.drv = some drv)
    (hsrc : ∀ p : Part, IsImage (dev p.device)) (hk : ∀ p : Part, (k.part p).Works (dev p.device)) :
    ∃ d', slb2DumpMain k d = some (0, d') ∧ (∀ p : Part, CameOut k.sha256 (dev p.device) drv p d'.files) ∧
      (∀ path, (∀ p : Part, ¬ Owns (dev p.device) drv p path) → d'.files path = d.files path) ∧
      (∀ p, d'.dirs (dirPath drv p) = true) ∧ ∀ path, (∀ p, path ≠ dirPath drv p) → d'.dirs path = d.dirs path := by
  have hmem := mem_drives hdrv
  have hne : Part.ina ≠ Part.act := by decide
  have hother : ∀ {p q : Part} {path : CStr}, p ≠ q → dirPath drv p <+: path → ¬ Owns (dev q.device) drv q path :=
    fun hne hpath h => not_prefix_other hmem hne hpath (h.under_dirPath hmem)
  have himage : ∀ p : Part, dumpBoth k drv d.files (binPath drv p) = some (dev p.device) := fun p =>
    dumpBoth_bin hmem (hsrc p) (hk p)
  obtain ⟨d₁, hrun₁, hout₁, hfiles₁, hdirs₁⟩ :=
    extractMissing_works (d := ⟨dumpBoth k drv d.files, d.dirs⟩) (hsrc .ina) (hk .ina) hmem (himage .ina)
  obtain ⟨d₂, hrun₂, hout₂, hfiles₂, hdirs₂⟩ :=
    extractMissing_works (d := d₁) (hsrc .act) (hk .act) hmem
      ((hfiles₁ _ (hother hne.symm (prefix_binPath hmem))).trans (himage .act))
  rw [hdirs₁] at hdirs₂
  refine ⟨d₂, ?_, fun p => ?_, fun path hpath => ?_, fun p => ?_, fun path hpath => ?_⟩
  · unfold slb2DumpMain
    rw [hdrv]
    dsimp only
    rw [hrun₁]
    dsimp only
    rw [hrun₂]
  · cases p with
    | ina => exact hout₁.congr hmem fun path hpath => hfiles₂ path (hother hne hpath)
    | act => exact hout₂
  · rw [hfiles₂ path (hpath .act), hfiles₁ path (hpath .ina)]
    exact dumpBoth_of_ne fun p heq => hpath p (.inl heq)
  · rw [hdirs₂]
    cases p with
    | ina => exact (Function.update_of_ne (dirPath_ne_other hmem hne) ..).trans (Function.update_self ..)
    | act => exact Function.update_self ..
  · rw [hdirs₂, Function.update_of_ne (hpath .act), Function.update_of_ne (hpath .ina)]

end

/-- The bytes of an image with the file `a`, which is the byte 7 in the sector 1. -/
def byteOfA : Nat → UInt8
  | 0 => 0x53
  | 1 => 0x4C
  | 2 => 0x42
  | 3 => 0x32
  | 0xC => 1
  | 0x20 => 1
  | 0x24 => 1
  | 0x30 => 0x61
  | 0x200 => 7
  | _ => 0

def imageOfA : List UInt8 := fill byteOfA 0x400

def headerOfA : SceSlb2Header := fun b => if b < headerSize then byteOfA b else 0

theorem headerOf_imageOfA : headerOf imageOfA = headerOfA := by
  funext b
  unfold headerOf headerOfA
  refine if_ctx_congr Iff.rfl (fun hb => ?_) fun _ => rfl
  have hlen : b < 0x400 := Nat.lt_trans hb (by decide)
  simp [imageOfA, fill, List.getD_eq_getElem?_getD, hlen]

theorem isImage_imageOfA : IsImage imageOfA := by
  have hcount : (fileCount headerOfA).toNat = 1 := by decide
  have hlen : imageOfA.length = 0x400 := length_fill
  refine ⟨by rw [hlen]; decide, by rw [hlen]; decide, ?_, ?_, ?_, ?_, ?_⟩ <;> rw [headerOf_imageOfA]
  · decide
  · simp [hcount]
  · intro i hi
    obtain rfl : i = 0 := by omega
    exact ⟨literal "a", by decide, by decide⟩
  · intro i hi j hj _
    omega
  · intro i hi
    obtain rfl : i = 0 := by omega
    rw [hlen]
    decide

/-- The device of `imageOfA`, read at once. -/
def readsA : IoAnswers where
  openSrc := 3
  deviceSize := 0x400
  openDst := 4
  chstat := 0
  read i := if i = 0 then 0x400 else 0
  buf _ b := byteOfA b
  write _ := 0x400

theorem readsFrom_readsA : readsA.ReadsFrom imageOfA 0 := by
  intro i
  cases i with
  | zero =>
    show fill byteOfA 0x400 = slice (fill byteOfA 0x400) 0 0x400
    have hshift : (fun b => byteOfA (0 + b)) = byteOfA := funext fun b => congrArg byteOfA (Nat.zero_add b)
    rw [slice_fill (by decide), hshift]
  | succ i => rfl

/-- No call fails, and both devices hold `imageOfA`. -/
def runOfA : RunAnswers where
  statHost0 := 0
  statSd0 := -1
  statUx0 := -1
  part _ := {
    statBin := -1
    statDir := -1
    dump := readsA
    mkdir := 0
    openCheck := 3
    openExtract := 3
    readCheck := headerSize
    readExtract := headerSize
    stack := fun _ => 0
    check := fun _ => readsA
    garbage := []
    openHash := 4
    writeHash := 0x20
    extract := fun image _ pos => ⟨readsByte image pos, readsFrom_readsByte image pos⟩ }
  sha256 _ := List.replicate 0x20 0

theorem runOfA_works (p : Part) : (runOfA.part p).Works imageOfA where
  statBin := show (-1 : Int32) < 0 by decide
  statDir := show (-1 : Int32) < 0 by decide
  mkdir := Int32.le_refl 0
  holds := ⟨show (0 : Int32) ≤ 3 by decide, by rw [imageOfA, length_fill]; rfl, readsFrom_readsA⟩
  dumps := by
    rw [imageOfA, length_fill]
    exact ⟨show (0 : Int32) ≤ 4 by decide, (movesAll_rest (by decide) (by decide)).2 ⟨rfl, rfl⟩⟩
  openCheck := show (0 : Int32) ≤ 3 by decide
  openExtract := show (0 : Int32) ≤ 3 by decide
  readCheck := rfl
  readExtract := rfl
  reads := readsFrom_readsA
  readsAll := by
    have hsize : digestSize imageOfA = 0x400 := by
      rw [digestSize, headerOf_imageOfA]
      decide
    rw [hsize]
    exact (eachRound_rest (by decide) (by decide)).2 rfl
  openHash := show (0 : Int32) ≤ 4 by decide
  writeHash := rfl
  extracts := by
    rw [headerOf_imageOfA]
    intro i hi
    obtain rfl : i = 0 := by
      have hcount : (fileCount headerOfA).toNat = 1 := by decide
      omega
    have hsize : size headerOfA 0 = 1 := by decide
    have hpos : bytePos headerOfA 0 = 0x200 := by decide
    rw [hsize, hpos]
    refine ⟨show (0 : Int32) ≤ 4 by decide, (movesAll_rest (by decide) (by decide)).2 ⟨?_, rfl⟩⟩
    have hlen : 0x200 < imageOfA.length := by rw [imageOfA, length_fill]; decide
    simp [runOfA, readsByte, hlen]

/-- Files that are on the drive already, but that `ksceIoGetstat` does not see, are replaced. -/
theorem slb2DumpMain_comesOut_oneFile :
    ∃ d', slb2DumpMain runOfA ⟨fun _ => some [1], fun _ => false⟩ = some (0, d') ∧
      d'.files (literal "host0:/slb2_act/a") = some [7] ∧ d'.files (literal "host0:/slb2_act/b") = some [1] := by
  obtain ⟨d', hrun, hout, hrest, -⟩ := @slb2DumpMain_comesOut runOfA ⟨fun _ => some [1], fun _ => false⟩
    (literal "host0:") (fun _ => imageOfA) rfl (fun _ => isImage_imageOfA) runOfA_works
  have hcount : (fileCount headerOfA).toNat = 1 := by decide
  have hname : fileName headerOfA 0 = some (literal "a") := by decide
  refine ⟨d', hrun, ?_, hrest _ fun p howns => ?_⟩
  · obtain ⟨name, hname', hfile⟩ := (hout .act).file 0 (by rw [headerOf_imageOfA]; decide)
    rw [headerOf_imageOfA] at hname' hfile
    obtain rfl : literal "a" = name := Option.some_inj.1 (hname.symm.trans hname')
    have hsize : (size headerOfA 0).toNat = 1 := by decide
    have hpos : 512 * (sectorPos headerOfA 0).toNat = 0x200 := by decide
    rw [hsize, hpos, imageOfA, slice_fill (by decide)] at hfile
    exact hfile
  · obtain h | h | ⟨i, hi, name, hname', h⟩ := howns
    · cases p <;> exact absurd h (by decide)
    · cases p <;> exact absurd h (by decide)
    · rw [headerOf_imageOfA] at hi hname'
      obtain rfl : i = 0 := by omega
      obtain rfl : literal "a" = name := Option.some_inj.1 (hname.symm.trans hname')
      cases p <;> exact absurd h (by decide)

end VitaUtility.Dumper.Slb2Dumper

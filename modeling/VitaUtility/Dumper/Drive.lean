import VitaUtility.CStr
import VitaUtility.Dumper.Contents
import VitaUtility.Lib.Put

/-!
# The files of a drive

`emmc_dump_main` and `idstorage_dump_main` over any number of runs. A partition is dumped when `ksceIoGetstat` fails for
its file, so a file is what the last such run that opens it leaves of it, whole or not. As long as `ksceIoGetstat` fails
for missing files only, that is the first one, and no later run changes the file.
-/

namespace VitaUtility.Dumper

/-- The files of all drives, by their paths. -/
abbrev Files := CStr → Option (List UInt8)

/-- What a dump leaves at its path: nothing if it does not open it. It begins with the bytes `grown`. -/
def leaves (grown : List UInt8) : List IoCall → Option (List UInt8)
  | .openDst fd :: calls => if fd < 0 then none else some (fileAfter grown 0 calls)
  | _ => none

/-- The file at the path, if it is opened; the open truncates it. -/
def Files.put (fs : Files) (path : CStr) (file : Option (List UInt8)) : Files := VitaUtility.put fs path file

/-- `if(ksceIoGetstat(path, &stat) < 0)`, which answers `stat`, and the dump to `path`, which leaves `file`. -/
def Files.dumpMissing (fs : Files) (stat : Int32) (path : CStr) (file : Option (List UInt8)) : Files :=
  if stat < 0 then fs.put path file else fs

/-- The drives that can be written to. -/
def drives : List CStr := [literal "host0:", literal "sd0:", literal "ux0:"]

/-- `snprintf(buf, n, "%s..", ..)` of a string -/
def snprintf (n : Nat) (s : CStr) : CStr := s.take (n - 1)

/-- `drv` after `ksceIoGetstat` of `"host0:"` and of the drive that is left then. -/
def chosenDrive (host0 second : Int32) : CStr :=
  let drv := literal "host0:"
  let drv := if host0 < 0 then literal "sd0:" else drv
  if second < 0 then literal "ux0:" else drv

namespace EmmcDumper

/-- What the kernel answers in a run. -/
structure RunAnswers where
  /-- `ksceIoGetstat` of the drive, twice, and of the directory -/
  statHost0 : Int32
  statDrv : Int32
  statDir : Int32
  mkdir : Int32
  /-- `ksceIoGetstat` of the file of each part -/
  stat : Nat → Int32
  /-- the dump of each part -/
  part : Nat → IoAnswers
  /-- the bytes of each file once `ksceIoChstatByFd` has extended it -/
  grown : Nat → List UInt8

/-- The names of the files, and the devices. -/
def parts : List (CStr × CStr) := [
  (literal "idstorage_part_raw.bin", literal "sdstor0:int-lp-ign-idstor"),
  (literal "slb2_raw_act.bin", literal "sdstor0:int-lp-act-sloader"),
  (literal "slb2_raw.bin", literal "sdstor0:int-lp-ign-sloader"),
  (literal "os0_raw_act.bin", literal "sdstor0:int-lp-act-os"),
  (literal "vs0_raw.bin", literal "sdstor0:int-lp-ign-vsh"),
  (literal "vd0_raw.bin", literal "sdstor0:int-lp-ign-vshdata"),
  (literal "tm0_raw.bin", literal "sdstor0:int-lp-ign-vtrm"),
  (literal "ur0_raw.bin", literal "sdstor0:int-lp-ign-user"),
  (literal "imc0_raw.bin", literal "sdstor0:int-lp-ign-userext"),
  (literal "ud0_raw.bin", literal "sdstor0:int-lp-ign-updater"),
  (literal "sa0_raw.bin", literal "sdstor0:int-lp-ign-sysdata"),
  (literal "pd0_raw.bin", literal "sdstor0:int-lp-ign-pidata"),
  (literal "nand_raw_act.bin", literal "sdstor0:int-lp-act-entire")]

/-- `"%s/emmc"` -/
def dirOf (drv : CStr) : CStr := snprintf 0xF (drv ++ literal "/emmc")

/-- `"%s/name"` -/
def pathOf (dir name : CStr) : CStr := snprintf 0x40 (dir ++ slash :: name)

namespace RunAnswers
variable (k : RunAnswers)

def drv : CStr := chosenDrive k.statHost0 k.statDrv

/-- What is in the file of the part `i` when the copy begins. -/
def base (i : Nat) : List UInt8 := if (k.part i).chstat < 0 then [] else k.grown i

/-- What the dump of the part `i` leaves. -/
def left (i : Nat) : Option (List UInt8) := leaves (k.base i) (partDump (k.part i)).2

/-- The directory is there or can be made. -/
def Starts : Prop := ¬ (k.statDir < 0 ∧ k.mkdir < 0)

instance : Decidable k.Starts := inferInstanceAs (Decidable (¬ _))

end RunAnswers

/-- The result, and the files; the failure is `SCE_KERNEL_START_FAILED`. -/
def emmcDumpMain (k : RunAnswers) (fs : Files) : Int32 × Files :=
  if ¬ k.Starts then (2, fs) else
  (0, parts.zipIdx.foldl (fun fs x => fs.dumpMissing (k.stat x.2) (pathOf (dirOf k.drv) x.1.1) (k.left x.2)) fs)

/-- The files after a number of runs. -/
def runs (ks : List RunAnswers) (fs : Files) : Files := ks.foldl (fun fs k => (emmcDumpMain k fs).2) fs

/-- What a run puts at the path of the part `i`. -/
def RunAnswers.dumped (k : RunAnswers) (i : Nat) : Option (List UInt8) :=
  if k.Starts ∧ k.stat i < 0 then k.left i else none

/-- In no run does `ksceIoGetstat` fail for a part's file that is there. -/
def Truthful : List RunAnswers → Files → Prop
  | [], _ => True
  | k :: ks, fs =>
    (∀ i name device, parts[i]? = some (name, device) → fs (pathOf (dirOf k.drv) name) ≠ none → 0 ≤ k.stat i) ∧
      Truthful ks (emmcDumpMain k fs).2

end EmmcDumper

namespace IdstorageRawDumper

/-- What the kernel answers in a run. -/
structure RunAnswers where
  /-- `ksceIoGetstat` of the drive, three times, and of the file -/
  statHost0 : Int32
  statDrv : Int32
  statChosen : Int32
  stat : Int32
  part : IoAnswers

namespace RunAnswers
variable (k : RunAnswers)

def drv : CStr := chosenDrive k.statHost0 k.statDrv

def left : Option (List UInt8) := leaves [] (partDump k.part).2

end RunAnswers

/-- `"%s/idstorage_part_raw.bin"` -/
def pathOf (drv : CStr) : CStr := snprintf 0x40 (drv ++ literal "/idstorage_part_raw.bin")

/-- The result, and the files. -/
def idstorageDumpMain (k : RunAnswers) (fs : Files) : Int32 × Files :=
  if k.statChosen < 0 then (2, fs) else (0, fs.dumpMissing k.stat (pathOf k.drv) k.left)

def runs (ks : List RunAnswers) (fs : Files) : Files := ks.foldl (fun fs k => (idstorageDumpMain k fs).2) fs

/-- What a run puts at its path. -/
def RunAnswers.dumped (k : RunAnswers) : Option (List UInt8) :=
  if ¬ k.statChosen < 0 ∧ k.stat < 0 then k.left else none

/-- In no run does `ksceIoGetstat` fail for the file when it is there. -/
def Truthful : List RunAnswers → Files → Prop
  | [], _ => True
  | k :: ks, fs => (fs (pathOf k.drv) ≠ none → 0 ≤ k.stat) ∧ Truthful ks (idstorageDumpMain k fs).2

end IdstorageRawDumper

theorem chosenDrive_mem_drives {host0 second : Int32} : chosenDrive host0 second ∈ drives := by
  unfold chosenDrive
  split_ifs <;> simp [drives]

/-! ### One dump -/

/-- The device is there, holds `src` and is read from its start; its size is known. -/
structure IoAnswers.Holds (k : IoAnswers) (src : List UInt8) : Prop where
  opens : 0 ≤ k.openSrc
  size : k.deviceSize.toInt = src.length
  reads : k.ReadsFrom src 0

section
variable {k : IoAnswers} {B : BufferSize} {src grown file : List UInt8} {fs : Files} {path : CStr} {size : UInt32}
  {i pos off : Nat}

theorem dumpMissing_eq {stat : Int32} {new : Option (List UInt8)} :
    fs.dumpMissing stat path new = put fs path (if stat < 0 then new else none) := by
  unfold Files.dumpMissing
  by_cases h : stat < 0
  · rw [if_pos h, if_pos h]
    rfl
  · rw [if_neg h, if_neg h, put, Option.none_or, Function.update_eq_self]

/-- `file'` is `file` with the next bytes of the source at `off`, `n` of them at most. -/
def PutsUpTo (src : List UInt8) (p : Nat) (file : List UInt8) (off n : Nat) (file' : List UInt8) : Prop :=
  ∃ m ≤ n, file' = splice file off (slice src p m)

theorem PutsUpTo.mono {p n n' : Nat} {file' : List UInt8} (h : PutsUpTo src p file off n file') (hn : n ≤ n') :
    PutsUpTo src p file off n' file' :=
  h.imp fun _ ⟨hm, hfile⟩ => ⟨Nat.le_trans hm hn, hfile⟩

theorem PutsUpTo.none {p n : Nat} : PutsUpTo src p file off n file := ⟨0, Nat.zero_le _, splice_nil.symm⟩

theorem copyChunk_puts {out : Option Int32} {calls : List IoCall} (hk : k.ReadsFrom src pos)
    (h : copyChunk k i size = (out, calls)) :
    PutsUpTo src (k.srcPos pos i) file off size.toNat (fileAfter file off calls) := by
  obtain rfl : calls = (copyChunk k i size).2 := by rw [h]
  unfold copyChunk
  dsimp only
  by_cases hread : k.read i < 0
  · rw [if_pos hread]
    exact .none
  by_cases hfull : (k.read i).toUInt32 = size
  swap
  · rw [if_neg hread, if_pos hfull]
    exact .none
  obtain ⟨hbuf, -⟩ := hk.buf ((toUInt32_eq_iff hread).1 hfull)
  have hwritten : (fill (k.buf i) size.toNat).take (k.write i).toInt.toNat =
      slice src (k.srcPos pos i) (min (k.write i).toInt.toNat size.toNat) := by
    rw [hbuf, slice, slice, List.take_take]
  rw [if_neg hread, if_neg (not_not.2 hfull)]
  refine ⟨min (k.write i).toInt.toNat size.toNat, Nat.min_le_right _ _, ?_⟩
  split_ifs <;> exact congrArg (splice file off) hwritten

/-- A round that does not fail puts all of it there, and the next one goes on after it. -/
theorem copyChunk_puts_all {calls : List IoCall} (hk : k.ReadsFrom src pos) (h : copyChunk k i size = (none, calls)) :
    (slice src (k.srcPos pos i) size.toNat).length = size.toNat ∧
    k.srcPos pos (i + 1) = k.srcPos pos i + size.toNat ∧
    ∀ file off rest, fileAfter file off (calls ++ rest) =
      fileAfter (splice file off (slice src (k.srcPos pos i) size.toNat)) (off + size.toNat) rest := by
  obtain ⟨⟨hread, hwrite⟩, -, -⟩ := copyChunk_none h
  obtain ⟨hneg, heq⟩ := full_res hread
  obtain ⟨hneg', heq'⟩ := full_res hwrite
  obtain ⟨hbuf, hpos⟩ := hk.buf hread
  have hcalls : calls = [.read size (k.read i), .write (fill (k.buf i) size.toNat) (k.write i)] := by
    simpa [copyChunk, hneg, heq, hneg', heq', eq_comm] using h
  have hlen : (fill (k.buf i) size.toNat).length = size.toNat := length_fill
  have hnat : (k.write i).toInt.toNat = size.toNat := by omega
  subst hcalls
  refine ⟨by rw [← hbuf, hlen], hpos, fun file off rest => ?_⟩
  show fileAfter (splice file off ((fill (k.buf i) size.toNat).take (k.write i).toInt.toNat))
    (off + (k.write i).toInt.toNat) rest = _
  rw [hnat, List.take_of_length_le (Nat.le_of_eq hlen), hbuf]

/-- Whatever fails, what a copy has put in the file is the beginning of what it should have. -/
theorem copyLoop_puts (hk : k.ReadsFrom src pos) (hoff : off ≤ file.length) :
    PutsUpTo src (k.srcPos pos i) file off size.toNat (fileAfter file off (copyLoop k B i size).2) := by
  fun_induction copyLoop k B i size generalizing file off with
  | case1 i size hle res calls hc => exact (copyChunk_puts hk hc).mono (UInt32.le_iff_toNat_le.1 hle)
  | case2 i size hle calls hc rest =>
    rename_i ih
    obtain ⟨hlen, hpos, hfile⟩ := copyChunk_puts_all hk hc
    have hoff' : off + B.1.toNat ≤ (splice file off (slice src (k.srcPos pos i) B.1.toNat)).length := by
      rw [length_splice hoff, hlen]
      exact Nat.le_max_right _ _
    obtain ⟨m, hm, hrest⟩ := ih hoff'
    rw [UInt32.toNat_sub_of_le _ _ hle] at hm
    have hle' := UInt32.le_iff_toNat_le.1 hle
    refine ⟨B.1.toNat + m, by omega, ?_⟩
    rw [hfile, hrest, hpos, slice_add, ← splice_splice hoff, hlen]
  | case3 i size hle hpos res calls hc => exact copyChunk_puts hk hc
  | case4 i size hle hpos calls hc => exact copyChunk_puts hk hc
  | case5 => exact .none

theorem leaves_eq (h : 0 ≤ k.openDst) :
    leaves grown (copyFile k B size).2 = some (fileAfter grown 0 (copyFile k B size).2) :=
  if_neg (Int32.not_lt.2 h)

/-- A copy that does not fail leaves the device. -/
theorem leaves_copyFile (hk : k.ReadsFrom src 0) (hsize : size.toNat = src.length)
    (hgrown : grown.length ≤ size.toNat) (hcopies : k.Copies B size) : leaves grown (copyFile k B size).2 = some src := by
  have hfile : fileAfter grown 0 (copyFile k B size).2 = slice src 0 size.toNat :=
    (copyFile_exact hk hgrown (copyFile_full hcopies)).file
  have hslice : slice src 0 size.toNat = src := by
    rw [slice, List.drop_zero, hsize, List.take_length]
  rw [leaves_eq hcopies.1, hfile, hslice]

/-- Any other one leaves the beginning of it. -/
theorem leaves_copyFile_puts (hk : k.ReadsFrom src 0) (h : leaves grown (copyFile k B size).2 = some file) :
    ∃ m, file = splice grown 0 (src.take m) := by
  unfold copyFile leaves at h
  dsimp only at h
  split_ifs at h
  obtain ⟨m, -, hfile⟩ : PutsUpTo src 0 grown 0 size.toNat (fileAfter grown 0 (copyLoop k B 0 size).2) :=
    copyLoop_puts hk (Nat.zero_le _)
  exact ⟨m, (Option.some.inj h).symm.trans hfile⟩

theorem leaves_dumpDevice {writeFile : UInt32 → Int32 × List IoCall}
    (h : leaves grown (dumpDevice k writeFile).2 = some file) :
    ∃ size, leaves grown (writeFile size).2 = some file := by
  unfold dumpDevice at h
  dsimp only at h
  split_ifs at h
  · cases h
  · cases h
  · exact ⟨_, h⟩

/-- A size of 32 bits is passed on. -/
theorem dumpDevice_eq {writeFile : UInt32 → Int32 × List IoCall} (h : k.deviceSize.toInt = size.toNat) :
    dumpDevice k writeFile = writeFile size := by
  have hlt := size.toNat_lt
  have hzero : (0 : Int64).toInt = 0 := rfl
  have hmax : (0xFFFFFFFF : Int64).toInt = 0xFFFFFFFF := rfl
  unfold dumpDevice
  dsimp only
  rw [if_neg (by rw [Int64.lt_iff_toInt_lt]; omega), if_neg (by rw [gt_iff_lt, Int64.lt_iff_toInt_lt]; omega),
    toUInt32_of_toInt h]

end

namespace EmmcDumper

/-- The part `i` is dumped from a device that holds `src`, and every call of it does what it should. -/
structure RunAnswers.Dumps (k : RunAnswers) (i : Nat) (src : List UInt8) : Prop where
  holds : (k.part i).Holds src
  fits : src.length < 2 ^ 32
  chstat : 0 ≤ (k.part i).chstat
  grown : (k.grown i).length = src.length
  copies : (k.part i).Copies bufferSize (UInt32.ofNat src.length)

/-- What a run does, as the files that it writes. -/
def RunAnswers.rows (k : RunAnswers) : List (CStr × Option (List UInt8)) :=
  parts.zipIdx.map fun x => (pathOf (dirOf k.drv) x.1.1, k.dumped x.2)

section
variable {k : RunAnswers} {ks : List RunAnswers} {fs : Files} {drv drv' name device path : CStr} {i : Nat}
  {src : List UInt8}

theorem left_eq (h : k.Dumps i src) : k.left i = some src := by
  have hsize : (UInt32.ofNat src.length).toNat = src.length := UInt32.toNat_ofNat_of_lt' h.fits
  unfold RunAnswers.left RunAnswers.base partDump
  rw [if_neg (Int32.not_lt.2 h.holds.opens), if_neg (Int32.not_lt.2 h.chstat),
    dumpDevice_eq (by rw [hsize]; exact h.holds.size)]
  unfold writeFileFromFd
  dsimp only
  rw [if_neg (Int32.not_lt.2 h.copies.1), if_neg (Int32.not_lt.2 h.chstat)]
  exact leaves_copyFile h.holds.reads hsize (Nat.le_of_eq (h.grown.trans hsize.symm)) h.copies

/-- Whatever fails, the file has the beginning of the device. -/
theorem left_puts {file : List UInt8} (hk : (k.part i).ReadsFrom src 0) (h : k.left i = some file) :
    ∃ m, file = splice (k.base i) 0 (src.take m) := by
  unfold RunAnswers.left partDump at h
  by_cases hopen : (k.part i).openSrc < 0
  · rw [if_pos hopen] at h
    cases h
  rw [if_neg hopen] at h
  obtain ⟨size, hfile⟩ := leaves_dumpDevice h
  rcases writeFileFromFd_cases (k.part i) size with ⟨hfail, -⟩ | ⟨-, -, heq⟩
  · unfold writeFileFromFd at hfile
    dsimp only at hfile
    by_cases hdst : (k.part i).openDst < 0
    · rw [if_pos hdst] at hfile
      simp [leaves, hdst] at hfile
    have hchstat := hfail.resolve_left hdst
    rw [if_neg hdst, if_pos hchstat] at hfile
    simp only [leaves, hdst, if_false, Option.some.injEq] at hfile
    exact ⟨0, by rw [← hfile, List.take_zero, splice_nil]; rfl⟩
  · rw [heq] at hfile
    exact leaves_copyFile_puts hk hfile

theorem emmcDumpMain_snd : (emmcDumpMain k fs).2 = putAll fs k.rows := by
  unfold emmcDumpMain RunAnswers.rows RunAnswers.dumped
  rw [putAll, List.foldl_map]
  by_cases h : k.Starts
  · rw [if_neg (not_not.2 h)]
    simp only [dumpMissing_eq, h, true_and]
  · rw [if_pos h]
    simp only [h, false_and, if_false, put, Option.none_or, Function.update_eq_self]
    exact (List.foldl_fixed _).symm

theorem runs_apply : runs ks fs path = (ks.reverse.findSome? fun k => lastFor k.rows path).or (fs path) := by
  unfold runs
  simp only [emmcDumpMain_snd]
  exact foldl_putAll

theorem drv_mem_drives : k.drv ∈ drives := chosenDrive_mem_drives

/-- The paths of one drive differ. -/
theorem nodup_paths (h : drv ∈ drives) : (parts.zipIdx.map fun x => pathOf (dirOf drv) x.1.1).Nodup := by
  revert drv
  decide

/-- The paths of two drives differ in their first character. -/
theorem head?_pathOf (h : drv ∈ drives) : (pathOf (dirOf drv) name).head? = drv.head? := by
  simp only [drives, List.mem_cons, List.not_mem_nil, or_false] at h
  rcases h with rfl | rfl | rfl <;> rfl

theorem head?_injective (h : drv ∈ drives) (h' : drv' ∈ drives) (heq : drv.head? = drv'.head?) : drv = drv' := by
  have hall : ∀ drv ∈ drives, ∀ drv' ∈ drives, drv.head? = drv'.head? → drv = drv' := by decide
  exact hall drv h drv' h' heq

/-- A run writes at the path of a part only what it dumps of this part. -/
theorem lastFor_rows (hpart : parts[i]? = some (name, device)) (hdrv : drv ∈ drives) :
    lastFor k.rows (pathOf (dirOf drv) name) = if k.drv = drv then k.dumped i else none := by
  unfold RunAnswers.rows
  by_cases hd : k.drv = drv
  · subst hd
    rw [if_pos rfl]
    refine lastFor_of_mem ?_ ?_
    · rw [List.map_map]
      exact nodup_paths hdrv
    · refine List.mem_map.2 ⟨((name, device), i), ?_, rfl⟩
      rw [List.mem_zipIdx_iff_getElem?]
      exact hpart
  · rw [if_neg hd]
    refine lastFor_of_not_mem fun hmem => ?_
    simp only [List.mem_map, exists_exists_and_eq_and] at hmem
    obtain ⟨x, -, hx⟩ := hmem
    have hhead := congrArg List.head? hx
    rw [head?_pathOf drv_mem_drives, head?_pathOf hdrv] at hhead
    exact hd (head?_injective drv_mem_drives hdrv hhead)

theorem lastFor_rows_of_ne (h : ∀ name ∈ parts.map Prod.fst, path ≠ pathOf (dirOf k.drv) name) :
    lastFor k.rows path = none := by
  refine lastFor_of_not_mem fun hmem => ?_
  simp only [RunAnswers.rows, List.mem_map, exists_exists_and_eq_and] at hmem
  obtain ⟨x, hx, rfl⟩ := hmem
  exact h x.1.1 (List.mem_map_of_mem (List.fst_mem_of_mem_zipIdx hx)) rfl

/-- A run whose `ksceIoGetstat` answers for the files that are there writes new ones only. -/
theorem onlyNew_of_truthful (h : Truthful ks fs) : OnlyNew RunAnswers.rows fs ks := by
  induction ks generalizing fs with
  | nil => trivial
  | cons k ks ih =>
    obtain ⟨hstat, hks⟩ := h
    rw [emmcDumpMain_snd] at hks
    refine ⟨fun path hpath => ?_, ih hks⟩
    by_cases hname : ∃ name ∈ parts.map Prod.fst, path = pathOf (dirOf k.drv) name
    · obtain ⟨_, hname, rfl⟩ := hname
      obtain ⟨⟨name, device⟩, hpart, rfl⟩ := List.mem_map.1 hname
      obtain ⟨i, hi⟩ := List.getElem?_of_mem hpart
      rw [lastFor_rows hi drv_mem_drives, if_pos rfl, RunAnswers.dumped, if_neg]
      exact fun h => absurd h.2 (Int32.not_lt.2 (hstat i name device hi hpath))
    · exact lastFor_rows_of_ne fun name hmem heq => hname ⟨name, hmem, heq⟩

/-- Over any runs of the dumper nothing but the files of the parts is made, and the file of a part is what the last run
that dumps it leaves. As long as `ksceIoGetstat` fails for missing files only, a file that is there is never changed, and
the file of a part is what the first run leaves. That is the device if every call of the dump does what it should, and
else the beginning of the device. -/
theorem runs_keepFirst :
    (∀ path, (∀ drv ∈ drives, ∀ name ∈ parts.map Prod.fst, path ≠ pathOf (dirOf drv) name) →
      runs ks fs path = fs path) ∧
    (∀ i name device, parts[i]? = some (name, device) → ∀ drv ∈ drives,
      runs ks fs (pathOf (dirOf drv) name) =
        (ks.reverse.findSome? fun k => if k.drv = drv then k.dumped i else none).or (fs (pathOf (dirOf drv) name))) ∧
    (Truthful ks fs →
      (∀ path file, fs path = some file → runs ks fs path = some file) ∧
      ∀ i name device, parts[i]? = some (name, device) → ∀ drv ∈ drives, fs (pathOf (dirOf drv) name) = none →
        runs ks fs (pathOf (dirOf drv) name) = ks.findSome? fun k => if k.drv = drv then k.dumped i else none) ∧
    ∀ k ∈ ks, ∀ i src, (k.Dumps i src → k.left i = some src) ∧
      ∀ file, (k.part i).ReadsFrom src 0 → k.left i = some file → ∃ m, file = splice (k.base i) 0 (src.take m) := by
  refine ⟨fun path hpath => ?_, fun i name device hpart drv hdrv => ?_, fun htruth => ?_,
    fun k _ i src => ⟨left_eq, fun file => left_puts⟩⟩
  · have hnone : (ks.reverse.findSome? fun k => lastFor k.rows path) = none := by
      rw [List.findSome?_eq_none_iff]
      exact fun k _ => lastFor_rows_of_ne (hpath k.drv drv_mem_drives)
    rw [runs_apply, hnone, Option.none_or]
  · rw [runs_apply]
    simp only [lastFor_rows hpart hdrv]
  · have hfirst : ∀ path, runs ks fs path = (fs path).or (ks.findSome? fun k => lastFor k.rows path) := by
      intro path
      unfold runs
      simp only [emmcDumpMain_snd]
      exact foldl_putAll_of_onlyNew (onlyNew_of_truthful htruth)
    refine ⟨fun path file h => ?_, fun i name device hpart drv hdrv hfs => ?_⟩
    · rw [hfirst, h, Option.some_or]
    · rw [hfirst, hfs, Option.none_or]
      simp only [lastFor_rows hpart hdrv]

end

/-- A run in which no device opens, on `host0:`. -/
def noDevice : RunAnswers where
  statHost0 := 0
  statDrv := 0
  statDir := 0
  mkdir := 0
  stat _ := -1
  part _ := { twoReads [] with openSrc := -1 }
  grown _ := []

def sevens : List UInt8 := List.replicate 0x80000 7

/-- A run in which every device holds `sevens` and an 8. -/
def allSevens : RunAnswers :=
  { noDevice with part := fun _ => twoReads sevens, grown := fun _ => List.replicate 0x80001 0 }

/-- A run that sees the files. -/
def filesThere : RunAnswers := { noDevice with stat := fun _ => 0 }

theorem dumps_allSevens (i : Nat) : allSevens.Dumps i (sevens ++ [8]) := by
  have hlen : sevens.length = 0x80000 := List.length_replicate
  have hsrc : (sevens ++ [8]).length = 0x80001 := by rw [List.length_append, hlen]; rfl
  refine ⟨⟨show (0 : Int32) ≤ 3 by decide, ?_, readsFrom_twoReads (by rw [hlen]; decide)⟩, by rw [hsrc]; decide,
    Int32.le_refl 0, by rw [hsrc]; exact List.length_replicate, ?_⟩
  · show (Int64.ofNat (sevens.length + 1)).toInt = _
    rw [hsrc, hlen]
    rfl
  · rw [hsrc]
    exact copies_twoReads (by decide) hlen rfl

theorem emmcDumpMain_noDevice {fs : Files} : (emmcDumpMain noDevice fs).2 = fs := by
  have hrows : ∀ x ∈ noDevice.rows, x.2 = none := by
    intro x hx
    obtain ⟨y, -, rfl⟩ := List.mem_map.1 hx
    rfl
  funext path
  rw [emmcDumpMain_snd, putAll_apply, lastFor, List.findSome?_eq_none_iff.2, Option.none_or]
  intro x hx
  rw [hrows x (List.mem_reverse.1 hx), ite_self]

/-- The first run makes no file of a part, the second one does, and the third one keeps it. -/
theorem runs_keepFirst_secondRun : runs [noDevice, allSevens, filesThere] (fun _ => none)
    (literal "host0:/emmc/nand_raw_act.bin") = some (sevens ++ [8]) := by
  obtain ⟨-, -, hfirst, hdumps⟩ := @runs_keepFirst [noDevice, allSevens, filesThere] fun _ => none
  have htruth : Truthful [noDevice, allSevens, filesThere] fun _ => none := by
    refine ⟨fun i name device _ h => absurd rfl h, ?_, fun i name device _ _ => Int32.le_refl 0, trivial⟩
    rw [emmcDumpMain_noDevice]
    exact fun i name device _ h => absurd rfl h
  refine ((hfirst htruth).2 12 (literal "nand_raw_act.bin") (literal "sdstor0:int-lp-act-entire") rfl (literal "host0:")
    (by simp [drives]) rfl).trans ?_
  have hnone : noDevice.dumped 12 = none := rfl
  have hseven : allSevens.dumped 12 = some (sevens ++ [8]) :=
    (if_pos ⟨by decide, by decide⟩).trans ((hdumps allSevens (by simp) 12 _).1 (dumps_allSevens 12))
  have hdrv : noDevice.drv = literal "host0:" ∧ allSevens.drv = literal "host0:" := ⟨rfl, rfl⟩
  simp [hnone, hseven, hdrv]

end EmmcDumper

namespace IdstorageRawDumper

section
variable {k : RunAnswers} {ks : List RunAnswers} {fs : Files} {path : CStr}

/-- What a run does, as the one file that it writes. -/
def RunAnswers.rows (k : RunAnswers) : List (CStr × Option (List UInt8)) := [(pathOf k.drv, k.dumped)]

theorem idstorageDumpMain_snd : (idstorageDumpMain k fs).2 = putAll fs k.rows := by
  show _ = put fs (pathOf k.drv) k.dumped
  unfold idstorageDumpMain RunAnswers.dumped
  by_cases h : k.statChosen < 0
  · simp [h, put]
  · simp [h, dumpMissing_eq]

theorem lastFor_rows : lastFor k.rows path = if pathOf k.drv = path then k.dumped else none := by
  rw [RunAnswers.rows, lastFor_cons, lastFor_nil, Option.none_or]

theorem onlyNew_of_truthful (h : Truthful ks fs) : OnlyNew RunAnswers.rows fs ks := by
  induction ks generalizing fs with
  | nil => trivial
  | cons k ks ih =>
    obtain ⟨hstat, hks⟩ := h
    rw [idstorageDumpMain_snd] at hks
    refine ⟨fun path hpath => ?_, ih hks⟩
    rw [lastFor_rows]
    split_ifs with heq
    · subst heq
      exact if_neg fun h => absurd h.2 (Int32.not_lt.2 (hstat hpath))
    · rfl

/-- The same of the one file of `idstorage_raw_dumper`. -/
theorem runs_once :
    runs ks fs path = (ks.reverse.findSome? fun k => if pathOf k.drv = path then k.dumped else none).or (fs path) ∧
    (Truthful ks fs →
      runs ks fs path = (fs path).or (ks.findSome? fun k => if pathOf k.drv = path then k.dumped else none)) ∧
    ∀ k ∈ ks, ∀ src file, k.part.ReadsFrom src 0 → k.left = some file → ∃ m, file = src.take m := by
  unfold runs
  simp only [idstorageDumpMain_snd, ← lastFor_rows]
  refine ⟨foldl_putAll, fun h => foldl_putAll_of_onlyNew (onlyNew_of_truthful h), fun k _ src file hk h => ?_⟩
  obtain ⟨size, hfile⟩ := leaves_dumpDevice h
  obtain ⟨m, hm⟩ := leaves_copyFile_puts hk hfile
  exact ⟨m, by simpa [splice] using hm⟩

end

end IdstorageRawDumper

end VitaUtility.Dumper

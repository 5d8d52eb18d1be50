import Mathlib.Algebra.Group.Int.Defs
import VitaUtility.Dumper.Copy

/-!
# The dumpers

The three programs write a device to a file with one `copyLoop`. Their `error:` label closes the file and returns 0,
so `res` of the loop is lost: `writeFileFromFd` is right about its success only on runs where the copy does not fail.
`reports_iff` says which runs of each function these are.
-/

namespace VitaUtility.Dumper

/-- The loop of a `write_file_from_fd` and its `error:` label, which drops `res`. -/
def copyFile (k : IoAnswers) (bufferSize : BufferSize) (size : UInt32) : Int32 × List IoCall :=
  let (_res, calls) := copyLoop k bufferSize 0 size
  (0, .openDst k.openDst :: calls)

/-- The end of a dump function: the size of the device, and `writeFile` with it. -/
def dumpDevice (k : IoAnswers) (writeFile : UInt32 → Int32 × List IoCall) : Int32 × List IoCall :=
  let deviceSize := k.deviceSize
  if deviceSize < 0 then (deviceSize.toInt32, []) else
  if deviceSize > 0xFFFFFFFF then (-1, []) else
  writeFile deviceSize.toInt32.toUInt32

namespace Slb2Dumper

def bufferSize : BufferSize := ⟨0x20000, by decide⟩

/-- The loop runs also when the file did not open. -/
def writeFileFromFd (k : IoAnswers) (size : UInt32) : Int32 × List IoCall := copyFile k bufferSize size

/-- A device that did not open is used as if it had. -/
def slb2Dump (k : IoAnswers) : Int32 × List IoCall := dumpDevice k (writeFileFromFd k)

end Slb2Dumper

namespace IdstorageRawDumper

def bufferSize : BufferSize := ⟨0x20000, by decide⟩

def writeFileFromFd (k : IoAnswers) (size : UInt32) : Int32 × List IoCall := copyFile k bufferSize size

def partDump (k : IoAnswers) : Int32 × List IoCall := dumpDevice k (writeFileFromFd k)

end IdstorageRawDumper

namespace EmmcDumper

def bufferSize : BufferSize := ⟨0x80000, by decide⟩

def writeFileFromFd (k : IoAnswers) (size : UInt32) : Int32 × List IoCall :=
  let fd := k.openDst
  if fd < 0 then (fd, [.openDst fd]) else
  let res := k.chstat
  if res < 0 then (res, [.openDst fd]) else
  copyFile k bufferSize size

def partDump (k : IoAnswers) : Int32 × List IoCall :=
  if k.openSrc < 0 then (-1, []) else
  dumpDevice k (writeFileFromFd k)

end EmmcDumper

/-- The file was opened, and `size` bytes were read and written. -/
def Complete (size : Int) (calls : List IoCall) : Prop :=
  (∃ fd, 0 ≤ fd ∧ .openDst fd ∈ calls) ∧ bytesRead calls = size ∧ bytesWritten calls = size

/-- 0 only for a complete copy, and a negative number otherwise. -/
def Reports (size : Int) (r : Int32 × List IoCall) : Prop := (r.1 = 0 ∧ Complete size r.2) ∨ r.1 < 0

/-- 0 only for a complete copy. -/
def ZeroIfComplete (size : Int) (r : Int32 × List IoCall) : Prop := r.1 = 0 → Complete size r.2

/-- The file opens, and every read and write moves what it should. -/
def IoAnswers.Copies (k : IoAnswers) (bufferSize : BufferSize) (size : UInt32) : Prop :=
  0 ≤ k.openDst ∧ k.MovesAll bufferSize.1.toNat 0 size.toNat

/-- `P` of the size of the device, where it has 32 bits; a negative one is not 0 when it is cut to them. -/
def IoAnswers.OfDeviceSize (k : IoAnswers) (P : UInt32 → Prop) : Prop :=
  (∀ size : UInt32, k.deviceSize.toInt = size.toNat → P size) ∧
  (k.deviceSize.toInt < 0 → ¬ 2 ^ 32 ∣ k.deviceSize.toInt)

section
variable {k : IoAnswers} {B : BufferSize} {size : UInt32} {r : Int32 × List IoCall}

theorem copyFile_complete_iff : Complete size.toNat (copyFile k B size).2 ↔ k.Copies B size := by
  have hopen : (∃ fd, 0 ≤ fd ∧ IoCall.openDst fd ∈ (copyFile k B size).2) ↔ 0 ≤ k.openDst := by
    simp [copyFile, openDst_not_mem_copyLoop]
  rw [Complete, hopen, IoAnswers.Copies]
  simp only [copyFile, bytesRead, bytesWritten, Int.natCast_inj]
  obtain ⟨hall, _, hcalls⟩ | ⟨hall, _, hcalls⟩ := copyLoop_cases k B 0 size
  · simp [hall, hcalls]
  · simp [hall, hcalls]

/-- The loop's result is lost, so a copy is reported as it should be only when nothing fails. -/
theorem copyFile_reports_iff : Reports size.toNat (copyFile k B size) ↔ k.Copies B size := by
  rw [← copyFile_complete_iff]
  constructor
  · rintro (⟨_, h⟩ | h)
    · exact h
    · exact absurd h (by decide : ¬ (0 : Int32) < 0)
  · exact fun h => .inl ⟨rfl, h⟩

theorem copyFile_zeroIfComplete_iff : ZeroIfComplete size.toNat (copyFile k B size) ↔ k.Copies B size := by
  rw [← copyFile_complete_iff]
  exact ⟨fun h => h rfl, fun h _ => h⟩

theorem Reports.of_neg {n : Int} (h : r.1 < 0) : Reports n r := .inr h

theorem ZeroIfComplete.of_neg {n : Int} (h : r.1 < 0) : ZeroIfComplete n r :=
  fun hzero => absurd (hzero ▸ h) (by decide : ¬ (0 : Int32) < 0)

/-- `(SceSize)device_size` -/
theorem toUInt32_of_toInt {x : Int64} (h : x.toInt = size.toNat) : x.toInt32.toUInt32 = size := by
  rw [← Int64.ofInt_toInt x, h, Int64.toInt32_ofInt, Int32.ofInt_eq_ofNat, Int32.toUInt32_ofNat', UInt32.ofNat_toNat]

/-- A negative size goes back to the caller cut to 32 bits, which are 0 for a multiple of `2 ^ 32`. -/
theorem dumpDevice_zeroIfComplete_iff {writeFile : UInt32 → Int32 × List IoCall} :
    ZeroIfComplete k.deviceSize.toInt (dumpDevice k writeFile) ↔
      k.OfDeviceSize fun size => ZeroIfComplete size.toNat (writeFile size) := by
  have hzero : (0 : Int64).toInt = 0 := rfl
  have hmax : (0xFFFFFFFF : Int64).toInt = 0xFFFFFFFF := rfl
  unfold dumpDevice
  by_cases hneg : k.deviceSize < 0
  · have hlt := Int64.lt_iff_toInt_lt.1 hneg
    have hcut : k.deviceSize.toInt32 = 0 ↔ 2 ^ 32 ∣ k.deviceSize.toInt := by
      rw [← Int32.toInt_inj, Int64.toInt_toInt32]
      exact Int.dvd_iff_bmod_eq_zero.symm
    have hnone : ¬ Complete k.deviceSize.toInt [] := by simp [Complete]
    rw [if_pos hneg, ZeroIfComplete, hcut]
    constructor
    · exact fun h => ⟨fun size hsize => by omega, fun _ hdvd => hnone (h hdvd)⟩
    · exact fun ⟨_, h⟩ hdvd => absurd hdvd (h (by omega))
  have hpos := Int64.le_iff_toInt_le.1 (Int64.not_lt.1 hneg)
  by_cases hbig : k.deviceSize > 0xFFFFFFFF
  · have hgt := Int64.lt_iff_toInt_lt.1 hbig
    have hsize (size : UInt32) := size.toNat_lt
    rw [if_neg hneg, if_pos hbig]
    exact iff_of_true (.of_neg (by decide)) ⟨fun size h => by have := hsize size; omega, fun h => by omega⟩
  have hle := Int64.le_iff_toInt_le.1 (Int64.not_lt.1 hbig)
  obtain ⟨size, hsize⟩ : ∃ size : UInt32, k.deviceSize.toInt = size.toNat := by
    refine ⟨.ofNat k.deviceSize.toInt.toNat, ?_⟩
    rw [UInt32.toNat_ofNat_of_lt' (by rw [UInt32.size]; omega)]
    omega
  rw [if_neg hneg, if_neg hbig, toUInt32_of_toInt hsize]
  constructor
  · intro h
    refine ⟨fun size' hsize' => ?_, fun h => by omega⟩
    obtain rfl : size = size' := (toUInt32_of_toInt hsize).symm.trans (toUInt32_of_toInt hsize')
    rwa [hsize] at h
  · rintro ⟨h, _⟩
    rw [hsize]
    exact h size hsize

theorem IoAnswers.ofDeviceSize_congr {P Q : UInt32 → Prop} (h : ∀ size, P size ↔ Q size) :
    k.OfDeviceSize P ↔ k.OfDeviceSize Q := by
  rw [show P = Q from funext fun size => propext (h size)]

/-- The file's own calls fail, or the loop runs on an open file. -/
theorem EmmcDumper.writeFileFromFd_cases (k : IoAnswers) (size : UInt32) :
    ((k.openDst < 0 ∨ k.chstat < 0) ∧ (writeFileFromFd k size).1 < 0) ∨
    (¬ k.openDst < 0 ∧ ¬ k.chstat < 0 ∧ writeFileFromFd k size = copyFile k bufferSize size) := by
  unfold writeFileFromFd
  by_cases hopen : k.openDst < 0
  · exact .inl ⟨.inl hopen, by rw [if_pos hopen]; exact hopen⟩
  by_cases hchstat : k.chstat < 0
  · exact .inl ⟨.inr hchstat, by rw [if_neg hopen, if_pos hchstat]; exact hchstat⟩
  · exact .inr ⟨hopen, hchstat, by rw [if_neg hopen, if_neg hchstat]⟩

theorem EmmcDumper.writeFileFromFd_reports_iff : Reports size.toNat (writeFileFromFd k size) ↔
    k.openDst < 0 ∨ k.chstat < 0 ∨ k.Copies bufferSize size := by
  rw [← or_assoc]
  obtain ⟨hfail, hneg⟩ | ⟨hopen, hchstat, heq⟩ := writeFileFromFd_cases k size
  · exact iff_of_true (.of_neg hneg) (.inl hfail)
  · rw [heq, copyFile_reports_iff, or_iff_right (not_or.2 ⟨hopen, hchstat⟩)]

theorem EmmcDumper.writeFileFromFd_zeroIfComplete_iff : ZeroIfComplete size.toNat (writeFileFromFd k size) ↔
    k.openDst < 0 ∨ k.chstat < 0 ∨ k.Copies bufferSize size := by
  rw [← or_assoc]
  obtain ⟨hfail, hneg⟩ | ⟨hopen, hchstat, heq⟩ := writeFileFromFd_cases k size
  · exact iff_of_true (.of_neg hneg) (.inl hfail)
  · rw [heq, copyFile_zeroIfComplete_iff, or_iff_right (not_or.2 ⟨hopen, hchstat⟩)]

theorem EmmcDumper.partDump_zeroIfComplete_iff : ZeroIfComplete k.deviceSize.toInt (partDump k) ↔
    k.openSrc < 0 ∨ k.OfDeviceSize fun size => k.openDst < 0 ∨ k.chstat < 0 ∨ k.Copies bufferSize size := by
  unfold partDump
  by_cases hopen : k.openSrc < 0
  · rw [if_pos hopen]
    exact iff_of_true (.of_neg (by decide)) (.inl hopen)
  · rw [if_neg hopen, or_iff_right hopen, dumpDevice_zeroIfComplete_iff]
    exact IoAnswers.ofDeviceSize_congr fun _ => writeFileFromFd_zeroIfComplete_iff

end

/-- The device has one byte, and reading it fails. -/
def failedRead : IoAnswers where
  openSrc := 3
  deviceSize := 1
  openDst := 4
  chstat := 0
  read _ := -1
  buf _ _ := 0
  write _ := 0

theorem failedRead_not_copies (bufferSize : BufferSize) : ¬ failedRead.Copies bufferSize 1 := by
  intro ⟨_, h⟩
  have hB := bufferSize.2.1
  have hsize : (1 : UInt32).toNat = 1 := rfl
  have hread := (h 0 (Nat.div_pos (by omega) hB)).1
  have : (failedRead.read (0 + 0)).toInt = -1 := rfl
  omega

/-- Every function reports the failed read as a success. -/
theorem failedRead_reported :
    ¬ Reports 1 (Slb2Dumper.writeFileFromFd failedRead 1) ∧
    ¬ Reports 1 (IdstorageRawDumper.writeFileFromFd failedRead 1) ∧
    ¬ Reports 1 (EmmcDumper.writeFileFromFd failedRead 1) ∧
    ¬ ZeroIfComplete 1 (Slb2Dumper.slb2Dump failedRead) ∧
    ¬ ZeroIfComplete 1 (IdstorageRawDumper.partDump failedRead) ∧
    ¬ ZeroIfComplete 1 (EmmcDumper.partDump failedRead) := by
  have hcopies := failedRead_not_copies
  have hemmc : ¬ (failedRead.openDst < 0 ∨ failedRead.chstat < 0 ∨ failedRead.Copies EmmcDumper.bufferSize 1) := by
    rintro (h | h | h)
    · exact absurd h (by decide)
    · exact absurd h (by decide)
    · exact hcopies _ h
  refine ⟨fun h => hcopies _ (copyFile_reports_iff.1 h), fun h => hcopies _ (copyFile_reports_iff.1 h),
    fun h => hemmc (EmmcDumper.writeFileFromFd_reports_iff.1 h), fun h => ?_, fun h => ?_, fun h => ?_⟩
  · exact hcopies _ (copyFile_zeroIfComplete_iff.1 ((dumpDevice_zeroIfComplete_iff.1 h).1 1 rfl))
  · exact hcopies _ (copyFile_zeroIfComplete_iff.1 ((dumpDevice_zeroIfComplete_iff.1 h).1 1 rfl))
  · obtain hopen | hsize := EmmcDumper.partDump_zeroIfComplete_iff.1 h
    · exact absurd hopen (by decide)
    · exact hemmc (hsize.1 1 rfl)

/-- Which runs each function reports as it should. -/
theorem reports_iff (k : IoAnswers) (size : UInt32) :
    (Reports size.toNat (Slb2Dumper.writeFileFromFd k size) ↔ k.Copies Slb2Dumper.bufferSize size) ∧
    (Reports size.toNat (IdstorageRawDumper.writeFileFromFd k size) ↔ k.Copies IdstorageRawDumper.bufferSize size) ∧
    (Reports size.toNat (EmmcDumper.writeFileFromFd k size) ↔
      k.openDst < 0 ∨ k.chstat < 0 ∨ k.Copies EmmcDumper.bufferSize size) ∧
    (ZeroIfComplete k.deviceSize.toInt (Slb2Dumper.slb2Dump k) ↔ k.OfDeviceSize (k.Copies Slb2Dumper.bufferSize)) ∧
    (ZeroIfComplete k.deviceSize.toInt (IdstorageRawDumper.partDump k) ↔
      k.OfDeviceSize (k.Copies IdstorageRawDumper.bufferSize)) ∧
    (ZeroIfComplete k.deviceSize.toInt (EmmcDumper.partDump k) ↔
      k.openSrc < 0 ∨
      k.OfDeviceSize fun size => k.openDst < 0 ∨ k.chstat < 0 ∨ k.Copies EmmcDumper.bufferSize size) := by
  refine ⟨copyFile_reports_iff, copyFile_reports_iff, EmmcDumper.writeFileFromFd_reports_iff, ?_, ?_,
    EmmcDumper.partDump_zeroIfComplete_iff⟩
  · exact dumpDevice_zeroIfComplete_iff.trans (k.ofDeviceSize_congr fun _ => copyFile_zeroIfComplete_iff)
  · exact dumpDevice_zeroIfComplete_iff.trans (k.ofDeviceSize_congr fun _ => copyFile_zeroIfComplete_iff)

end VitaUtility.Dumper

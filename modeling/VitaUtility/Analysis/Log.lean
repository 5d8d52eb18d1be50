import VitaUtility.Lib.Bytes
import VitaUtility.Lib.Memory
import VitaUtility.CStr

/-!
# The log of the analysis programs

`log.c`, which `SceExfatfsAnalysis`, `SceSdstorAnalysis` and `SceIofilemgrAnalysis` have a copy of each: a file that is
appended to through a buffer. A step that leaves one of its two arrays is `none`.
-/

namespace VitaUtility.Analysis

/-- `sizeof(log_buff)` -/
def logBuffSize : Nat := 0x400

/-- `sizeof(string)` in `LogWrite` -/
def stringSize : Nat := 0x200

structure LogState where
  logFd : Int32
  logPos : UInt32
  logBuff : Mem

/-- What a program starts with. -/
def LogState.init : LogState := ⟨0, 0, fun _ => 0⟩

/-- The calls on the file; its flags are those of a file that is written at its end. -/
inductive IoCall where
  | open (path : CStr)
  | write (data : List UInt8)
  | close
deriving DecidableEq

/-- The bytes of a list, and zeros after them. -/
def bytesOf (l : List UInt8) : Mem := fun i => l.getD i 0

/-- `vsnprintf(str, n, ..)` for a format that gives `text`: the length of `text`, of which `n - 1` bytes at most are
stored. A length that is not an `int` is an error. -/
def vsnprintf (str : Mem) (n : Nat) (text : List UInt8) : Int32 × Mem :=
  let stored := text.take (n - 1) ++ [0]
  (if text.length < 2 ^ 31 then Int32.ofNat text.length else -1, memcpy str (bytesOf stored) stored.length)

namespace LogState
variable (s : LogState)

def logIsOpened : Int32 :=
  if s.logFd < 0 then 0 else
  if s.logFd = 0 then 0 else 1

/-- `fd` is the answer of `ksceIoOpen`, if it is called. -/
def logOpen (path : CStr) (fd : Int32) : Int32 × List IoCall × LogState :=
  if s.logFd = 0 then (0, [.open path], { s with logFd := fd, logPos := 0 })
  else (-1, [], s)

/-- The buffer is written to the file and cleared. -/
def flush : Option (List IoCall × LogState) :=
  if s.logPos.toNat ≤ logBuffSize then
    some ([.write (fill s.logBuff s.logPos.toNat)],
      { s with logBuff := memset s.logBuff 0 0 s.logPos.toNat, logPos := 0 })
  else none

/-- `memcpy(&log_buff[log_pos], string, len)` and `log_pos += len` -/
def put (string : Mem) (len : UInt32) : Option LogState :=
  if len.toNat ≤ stringSize ∧ s.logPos.toNat + len.toNat ≤ logBuffSize then
    some { s with
      logBuff := fun i => if s.logPos.toNat ≤ i ∧ i < s.logPos.toNat + len.toNat then string (i - s.logPos.toNat)
        else s.logBuff i
      logPos := s.logPos + len }
  else none

def logWrite (text : List UInt8) : Option (Int32 × List IoCall × LogState) :=
  if s.logFd > 0 then do
    let (len, string) := vsnprintf (fun _ => 0) (stringSize - 1) text
    let (calls, s) ← if (s.logPos + len.toUInt32).toNat ≥ logBuffSize then s.flush else some ([], s)
    let s ← s.put string len.toUInt32
    some (0, calls, s)
  else some (0, [], s)

def logClose : Option (Int32 × List IoCall × LogState) :=
  if s.logFd > 0 then do
    let (calls, s) ← if s.logPos ≠ 0 then s.flush else some ([], s)
    some (0, calls ++ [.close], { s with logFd := 0 })
  else some (0, [], s)

end LogState

/-- A call of the three functions, an open with the answer of `ksceIoOpen`. -/
inductive LogCall where
  | open (path : CStr) (fd : Int32)
  | write (text : List UInt8)
  | close

namespace LogState

def exec (s : LogState) : LogCall → Option (Int32 × List IoCall × LogState)
  | .open path fd => some (s.logOpen path fd)
  | .write text => s.logWrite text
  | .close => s.logClose

/-- The calls on the file and the state after a sequence of calls. -/
def run (s : LogState) : List LogCall → Option (List IoCall × LogState)
  | [] => some ([], s)
  | call :: calls => do
    let (_, io, s) ← s.exec call
    let (ios, s) ← s.run calls
    some (io ++ ios, s)

end LogState

/-! ### One call -/

/-- What is in the buffer. -/
def LogState.held (s : LogState) : List UInt8 := fill s.logBuff s.logPos.toNat

/-- What is appended to the file. -/
def appended (calls : List IoCall) : List UInt8 := calls.flatMap fun
  | .write data => data
  | _ => []

section
variable {s s' : LogState} {string str : Mem} {len : UInt32} {text : List UInt8} {n : Nat} {calls : List IoCall}

theorem appended_append {calls' : List IoCall} : appended (calls ++ calls') = appended calls ++ appended calls' :=
  List.flatMap_append

theorem fill_congr {g h : Mem} (heq : ∀ i < n, g i = h i) : fill g n = fill h n :=
  List.map_congr_left fun i hi => heq i (List.mem_range.1 hi)

theorem fill_bytesOf (h : text.length = n) : fill (bytesOf text) n = text := by
  refine List.ext_getElem (by simp [h]) fun i h₁ h₂ => ?_
  simp [fill, bytesOf, h₂]

theorem toNat_len : (vsnprintf str n text).1.toUInt32.toNat = if text.length < 2 ^ 31 then text.length else 2 ^ 32 - 1 := by
  unfold vsnprintf
  dsimp only
  split
  · show (Int32.ofNat text.length).toUInt32.toNat = _
    exact UInt32.toNat_ofNat_of_lt' (by show text.length < 2 ^ 32; omega)
  · rfl

/-- A text that `string` has room for is stored whole. -/
theorem fill_vsnprintf (h : text.length < n) : fill (vsnprintf str n text).2 text.length = text := by
  have htake : text.take (n - 1) = text := List.take_of_length_le (by omega)
  unfold vsnprintf
  dsimp only
  rw [htake]
  refine (fill_congr fun i hi => ?_).trans (fill_bytesOf rfl)
  unfold memcpy bytesOf
  rw [if_pos (by simp; omega)]
  simp [hi, List.getElem?_append_left hi]

namespace LogState

theorem flush_eq (h : s.logPos.toNat ≤ logBuffSize) : ∃ s', s.flush = some ([.write s.held], s') ∧
    s'.logFd = s.logFd ∧ s'.logPos = 0 :=
  ⟨_, if_pos h, rfl, rfl⟩

theorem held_zero (h : s.logPos = 0) : s.held = [] := by
  rw [held, h]
  rfl

theorem put_eq (hlen : len.toNat ≤ stringSize) (hroom : s.logPos.toNat + len.toNat ≤ logBuffSize) :
    ∃ s', s.put string len = some s' ∧ s'.logFd = s.logFd ∧ s'.logPos.toNat ≤ logBuffSize ∧
      s'.held = s.held ++ fill string len.toNat := by
  have hpos : (s.logPos + len).toNat = s.logPos.toNat + len.toNat := by
    unfold logBuffSize at hroom
    rw [UInt32.toNat_add]
    omega
  refine ⟨_, if_pos ⟨hlen, hroom⟩, rfl, by rwa [hpos], ?_⟩
  unfold held fill
  dsimp only
  rw [hpos, List.range_add, List.map_append, List.map_map]
  congr 1
  · refine List.map_congr_left fun i hi => if_neg ?_
    have := List.mem_range.1 hi
    omega
  · refine List.map_congr_left fun i hi => ?_
    have := List.mem_range.1 hi
    simp only [Function.comp_apply]
    rw [if_pos (by omega), Nat.add_sub_cancel_left]

/-- A text of `0x200` bytes or less is put in the buffer, behind what is held or after a flush. -/
theorem logWrite_eq (hfd : s.logFd > 0) (hpos : s.logPos.toNat ≤ logBuffSize) (htext : text.length ≤ stringSize) :
    ∃ calls s', s.logWrite text = some (0, calls, s') ∧ s'.logFd = s.logFd ∧ s'.logPos.toNat ≤ logBuffSize ∧
      appended calls ++ s'.held =
        s.held ++ fill (vsnprintf (fun _ => 0) (stringSize - 1) text).2 text.length := by
  have hlen := @toNat_len (fun _ => 0) text (stringSize - 1)
  rw [if_pos (Nat.lt_of_le_of_lt htext (by decide))] at hlen
  rw [← hlen] at htext
  unfold logWrite
  rw [if_pos hfd]
  generalize vsnprintf (fun _ => 0) (stringSize - 1) text = out at hlen htext ⊢
  obtain ⟨len, string⟩ := out
  dsimp only at hlen htext ⊢
  rw [← hlen]
  have hsum : (s.logPos + len.toUInt32).toNat = s.logPos.toNat + len.toUInt32.toNat := by
    unfold logBuffSize at hpos
    unfold stringSize at htext
    rw [UInt32.toNat_add]
    omega
  by_cases hfull : (s.logPos + len.toUInt32).toNat ≥ logBuffSize
  · obtain ⟨s₁, hflush, hfd₁, hpos₁⟩ := flush_eq hpos
    obtain ⟨s₂, hput, hfd₂, hpos₂, hheld⟩ := @put_eq s₁ string len.toUInt32 htext <| by
      rw [hpos₁]
      exact Nat.le_trans (Nat.le_of_eq (Nat.zero_add _)) (Nat.le_trans htext (by decide))
    refine ⟨[.write s.held], s₂, ?_, hfd₂.trans hfd₁, hpos₂, ?_⟩
    · rw [if_pos hfull]
      simp [hflush, hput]
    · rw [hheld, held_zero hpos₁]
      simp [appended]
  · obtain ⟨s₂, hput, hfd₂, hpos₂, hheld⟩ := @put_eq s string len.toUInt32 htext (by omega)
    refine ⟨[], s₂, ?_, hfd₂, hpos₂, ?_⟩
    · rw [if_neg hfull]
      simp [hput]
    · rw [hheld]
      rfl

/-- A text of more than `0x200` bytes is read beyond `string`. -/
theorem logWrite_eq_none (hfd : s.logFd > 0) (htext : ¬ text.length ≤ stringSize) : s.logWrite text = none := by
  have hlen : ¬ (vsnprintf (fun _ => 0) (stringSize - 1) text).1.toUInt32.toNat ≤ stringSize := by
    rw [toNat_len]
    unfold stringSize at htext ⊢
    split <;> omega
  have hput : ∀ s' : LogState, s'.put (vsnprintf (fun _ => 0) (stringSize - 1) text).2
      (vsnprintf (fun _ => 0) (stringSize - 1) text).1.toUInt32 = none := fun s' => if_neg fun h => hlen h.1
  unfold logWrite
  rw [if_pos hfd]
  simp [hput]

theorem logClose_eq (hfd : s.logFd > 0) (hpos : s.logPos.toNat ≤ logBuffSize) :
    ∃ calls s', s.logClose = some (0, calls, s') ∧ s'.logFd = 0 ∧ s'.logPos.toNat ≤ logBuffSize ∧
      appended calls = s.held := by
  unfold logClose
  rw [if_pos hfd]
  by_cases hempty : s.logPos ≠ 0
  · obtain ⟨s₁, hflush, -, hpos₁⟩ := flush_eq hpos
    refine ⟨[.write s.held, .close], { s₁ with logFd := 0 }, ?_, rfl, ?_, ?_⟩
    · simp [hempty, hflush]
    · show s₁.logPos.toNat ≤ _
      rw [hpos₁]
      exact Nat.zero_le _
    · simp [appended]
  · refine ⟨[.close], { s with logFd := 0 }, ?_, rfl, hpos, ?_⟩
    · simp [hempty]
    · rw [held_zero (not_not.1 hempty)]
      rfl

/-! ### Sequences of calls -/

theorem run_cons {call : LogCall} {calls : List LogCall} {io : List IoCall} : s.run (call :: calls) = some (io, s') ↔
    ∃ r io₁ s₁ io₂, s.exec call = some (r, io₁, s₁) ∧ s₁.run calls = some (io₂, s') ∧ io = io₁ ++ io₂ := by
  rw [run]
  simp only [Option.bind_eq_bind, Option.bind_eq_some_iff, Prod.exists, Option.some.injEq, Prod.mk.injEq]
  constructor
  · rintro ⟨r, io₁, s₁, hcall, io₂, s₂, hrest, rfl, rfl⟩
    exact ⟨r, io₁, s₁, io₂, hcall, hrest, rfl⟩
  · rintro ⟨r, io₁, s₁, io₂, hcall, hrest, rfl⟩
    exact ⟨r, io₁, s₁, hcall, io₂, s', hrest, rfl, rfl⟩

/-- Writes leave in the file and in the buffer, one behind the other, what was there and their texts. -/
theorem run_writes {texts : List (List UInt8)} (hfd : s.logFd > 0) (hpos : s.logPos.toNat ≤ logBuffSize)
    (htexts : ∀ text ∈ texts, text.length ≤ 0x1FE) :
    ∃ io s', s.run (texts.map .write) = some (io, s') ∧ s'.logFd = s.logFd ∧ s'.logPos.toNat ≤ logBuffSize ∧
      appended io ++ s'.held = s.held ++ texts.flatten := by
  induction texts generalizing s with
  | nil => exact ⟨[], s, rfl, rfl, hpos, by simp [appended]⟩
  | cons text texts ih =>
    obtain ⟨htext, htexts⟩ := List.forall_mem_cons.1 htexts
    obtain ⟨io₁, s₁, hwrite, hfd₁, hpos₁, hheld₁⟩ := logWrite_eq hfd hpos (Nat.le_trans htext (by decide))
    have hlt : text.length < stringSize - 1 := Nat.lt_succ_of_le htext
    rw [fill_vsnprintf hlt] at hheld₁
    obtain ⟨io₂, s₂, hrest, hfd₂, hpos₂, hheld₂⟩ := ih (hfd₁ ▸ hfd) hpos₁ htexts
    refine ⟨io₁ ++ io₂, s₂, run_cons.2 ⟨0, io₁, s₁, io₂, hwrite, hrest, rfl⟩, hfd₂.trans hfd₁, hpos₂, ?_⟩
    rw [appended_append, List.append_assoc, hheld₂, ← List.append_assoc, hheld₁, List.append_assoc]
    rfl

end LogState
end

/-- Between an open and a close the file and the buffer hold the texts so far, and after the close the file does. -/
theorem log_content (s : LogState) (path : CStr) (fd : Int32) (texts : List (List UInt8)) (hs : s.logFd = 0) (hfd : 0 < fd)
    (htexts : ∀ text ∈ texts, text.length ≤ 0x1FE) :
    ∃ s₁ io s₂, s.logOpen path fd = (0, [.open path], s₁) ∧ s₁.run (texts.map .write) = some (io, s₂) ∧
      appended io ++ s₂.held = texts.flatten ∧ s₂.logPos.toNat ≤ logBuffSize ∧
      ∃ io' s₃, s₂.logClose = some (0, io', s₃) ∧ appended (io ++ io') = texts.flatten := by
  obtain ⟨io, s₂, hrun, hfd₂, hpos₂, hheld⟩ := @LogState.run_writes { s with logFd := fd, logPos := 0 } texts hfd
    (Nat.zero_le _) htexts
  rw [LogState.held_zero (s := { s with logFd := fd, logPos := 0 }) rfl, List.nil_append] at hheld
  obtain ⟨io', s₃, hclose, -, -, hlast⟩ := LogState.logClose_eq (hfd₂ ▸ hfd) hpos₂
  exact ⟨_, io, s₂, if_pos hs, hrun, hheld, hpos₂, io', s₃, hclose, by rw [appended_append, hlast, hheld]⟩

/-- Three texts, the last of which is written after a flush. -/
theorem log_content_flushed : ∃ s₁ io s₂, LogState.init.logOpen [] 3 = (0, [.open []], s₁) ∧
    s₁.run [.write (.replicate 0x1FE 1), .write (.replicate 0x1FE 2), .write [3, 4, 5, 6]] = some (io, s₂) ∧
    appended io ++ s₂.held = .replicate 0x1FE 1 ++ (.replicate 0x1FE 2 ++ [3, 4, 5, 6]) := by
  obtain ⟨s₁, io, s₂, hopen, hrun, hheld, -⟩ := log_content .init [] 3
    [.replicate 0x1FE 1, .replicate 0x1FE 2, [3, 4, 5, 6]] rfl (by decide) <| by
      simp only [List.forall_mem_cons, List.length_replicate]
      exact ⟨Nat.le_refl _, Nat.le_refl _, by decide, fun _ h => nomatch h⟩
  exact ⟨s₁, io, s₂, hopen, hrun, hheld⟩

/-! ### Texts of any length -/

/-- `log_fd` after a call. -/
def fdAfter (fd : Int32) : LogCall → Int32
  | .open _ answer => if fd = 0 then answer else fd
  | .write _ => fd
  | .close => if fd > 0 then 0 else fd

/-- Every text that is written while the log is open has `0x200` bytes at most. -/
def Fits : (fd : Int32) → List LogCall → Prop
  | _, [] => True
  | fd, call :: calls => (∀ text, call = .write text → fd > 0 → text.length ≤ stringSize) ∧ Fits (fdAfter fd call) calls

section
variable {s : LogState} {call : LogCall} {calls : List LogCall}

/-- A call goes beyond its arrays with a text that is too long, and with no other. -/
theorem exec_cases (hpos : s.logPos.toNat ≤ logBuffSize) :
    ((∃ text, call = .write text ∧ s.logFd > 0 ∧ ¬ text.length ≤ stringSize) ∧ s.exec call = none) ∨
    ((∀ text, call = .write text → s.logFd > 0 → text.length ≤ stringSize) ∧
      ∃ r io s', s.exec call = some (r, io, s') ∧ s'.logFd = fdAfter s.logFd call ∧ s'.logPos.toNat ≤ logBuffSize) := by
  cases call with
  | «open» path fd =>
    refine .inr ⟨fun _ h => (nomatch h), ?_⟩
    by_cases h0 : s.logFd = 0
    · exact ⟨0, _, _, congrArg some (if_pos h0), (if_pos h0).symm, Nat.zero_le _⟩
    · exact ⟨-1, _, _, congrArg some (if_neg h0), (if_neg h0).symm, hpos⟩
  | write text =>
    by_cases hfd : s.logFd > 0
    swap
    · exact .inr ⟨fun _ _ h => absurd h hfd, 0, [], s, if_neg hfd, rfl, hpos⟩
    by_cases htext : text.length ≤ stringSize
    · obtain ⟨io, s', hwrite, hfd', hpos', -⟩ := LogState.logWrite_eq hfd hpos htext
      exact .inr ⟨fun text' h _ => by cases h; exact htext, 0, io, s', hwrite, hfd', hpos'⟩
    · exact .inl ⟨⟨text, rfl, hfd, htext⟩, LogState.logWrite_eq_none hfd htext⟩
  | close =>
    refine .inr ⟨fun _ h => (nomatch h), ?_⟩
    by_cases hfd : s.logFd > 0
    · obtain ⟨io, s', hclose, hfd', hpos', -⟩ := LogState.logClose_eq hfd hpos
      exact ⟨0, io, s', hclose, hfd'.trans (if_pos hfd).symm, hpos'⟩
    · exact ⟨0, [], s, if_neg hfd, (if_neg hfd).symm, hpos⟩

theorem run_safe_iff (hpos : s.logPos.toNat ≤ logBuffSize) :
    (∃ io s', s.run calls = some (io, s') ∧ s'.logPos.toNat ≤ logBuffSize) ↔ Fits s.logFd calls := by
  induction calls generalizing s with
  | nil => exact iff_of_true ⟨[], s, rfl, hpos⟩ trivial
  | cons call calls ih =>
    rcases @exec_cases s call hpos with ⟨⟨text, rfl, hfd, htext⟩, hnone⟩ | ⟨hfits, r, io, s', hexec, hfd', hpos'⟩
    · refine iff_of_false ?_ fun h => htext (h.1 text rfl hfd)
      rintro ⟨io, s', hrun, -⟩
      obtain ⟨r, io₁, s₁, io₂, hexec, -⟩ := LogState.run_cons.1 hrun
      cases hnone.symm.trans hexec
    · rw [Fits, ← hfd', ← ih hpos', and_iff_right hfits]
      constructor
      · rintro ⟨io₀, s₂, hrun, hpos₂⟩
        obtain ⟨r', io₁, s₁, io₂, hexec', hrest, -⟩ := LogState.run_cons.1 hrun
        cases hexec.symm.trans hexec'
        exact ⟨io₂, s₂, hrest, hpos₂⟩
      · rintro ⟨io₂, s₂, hrest, hpos₂⟩
        exact ⟨_, s₂, LogState.run_cons.2 ⟨r, io, s', io₂, hexec, hrest, rfl⟩, hpos₂⟩

end

/-- A sequence of calls stays in `string` and in `log_buff`, and `log_pos` with it, exactly when its texts fit. -/
theorem log_safe_iff (calls : List LogCall) :
    (∃ io s, LogState.init.run calls = some (io, s) ∧ s.logPos.toNat ≤ logBuffSize) ↔ Fits 0 calls :=
  run_safe_iff (Nat.zero_le _)

/-- A text of `0x201` bytes is read beyond the string. -/
theorem longText_fail : LogState.init.run [.open [] 3, .write (.replicate 0x201 1)] = none := by
  refine Option.eq_none_iff_forall_ne_some.2 fun x hrun => ?_
  obtain ⟨r, io₁, s₁, io₂, hopen, hrest, -⟩ := LogState.run_cons.1 (show _ = some (x.1, x.2) from hrun)
  obtain ⟨r', io₃, s₂, io₄, hwrite, -⟩ := LogState.run_cons.1 hrest
  cases hopen
  exact nomatch hwrite.symm.trans (LogState.logWrite_eq_none (show (3 : Int32) > 0 by decide) <| by
    rw [List.length_replicate]
    decide)

/-! ### Open and closed -/

/-- Whether the log is in use after a call: since an open that succeeded, until a close. An open file has a positive
number. -/
def inUse (used : Bool) : LogCall → Bool
  | .open _ fd => used || 0 < fd
  | .write _ => used
  | .close => false

/-- Whether the log has been closed and not opened since. -/
def isClosed (closed : Bool) : LogCall → Bool
  | .open .. => false
  | .write _ => closed
  | .close => true

/-- What an open is to do: return 0 exactly when the log was not in use and `ksceIoOpen` succeeds, and call it after a
close. -/
structure OpenRight (s : LogState) (used closed : Bool) (path : CStr) (fd : Int32) : Prop where
  result : (s.logOpen path fd).1 = 0 ↔ used = false ∧ 0 < fd
  calls : closed = true → .open path ∈ (s.logOpen path fd).2.1

/-- Along the calls every open does what it is to, and the log is open while it is in use. -/
def Right (s : LogState) (used closed : Bool) : List LogCall → Prop
  | [] => used = true → s.logIsOpened = 1
  | call :: calls => (used = true → s.logIsOpened = 1) ∧
    (∀ path fd, call = .open path fd → OpenRight s used closed path fd) ∧
    ∀ r io s', s.exec call = some (r, io, s') → Right s' (inUse used call) (isClosed closed call) calls

/-- Every `ksceIoOpen` that the calls make returns a positive number. -/
def OpensSucceed (s : LogState) : List LogCall → Prop
  | [] => True
  | call :: calls => (∀ path fd, call = .open path fd → s.logFd = 0 → 0 < fd) ∧
    ∀ r io s', s.exec call = some (r, io, s') → OpensSucceed s' calls

/-- `log_fd` tells whether the log is in use, as long as no open has failed. -/
structure Tracks (s : LogState) (used closed : Bool) : Prop where
  nonneg : 0 ≤ s.logFd
  used_iff : used = true ↔ 0 < s.logFd
  unused : closed = true → used = false
  pos : s.logPos.toNat ≤ logBuffSize

section
variable {s s' : LogState} {used closed : Bool} {path : CStr} {fd : Int32} {call : LogCall} {calls : List LogCall}

theorem logIsOpened_eq (h : 0 < s.logFd) : s.logIsOpened = 1 := by
  unfold LogState.logIsOpened
  rw [if_neg (Int32.not_lt.2 (Int32.le_of_lt h)), if_neg (Int32.ne_of_lt h).symm]

namespace Tracks

theorem logFd_eq (h : Tracks s false closed) : s.logFd = 0 :=
  Int32.le_antisymm (Int32.not_lt.1 fun hpos => nomatch h.used_iff.2 hpos) h.nonneg

theorem openRight (h : Tracks s used closed) (hfd : s.logFd = 0 → 0 < fd) : OpenRight s used closed path fd := by
  cases used with
  | true =>
    have hopen : s.logOpen path fd = (-1, [], s) := if_neg (Int32.ne_of_lt (h.used_iff.1 rfl)).symm
    refine ⟨?_, fun hclosed => nomatch h.unused hclosed⟩
    rw [hopen]
    exact iff_of_false (show ¬ (-1 : Int32) = 0 by decide) fun h => nomatch h.1
  | false =>
    have hopen : s.logOpen path fd = (0, [.open path], { s with logFd := fd, logPos := 0 }) := if_pos h.logFd_eq
    constructor
    · rw [hopen]
      exact iff_of_true rfl ⟨rfl, hfd h.logFd_eq⟩
    · intro _
      rw [hopen]
      exact List.mem_singleton_self _

/-- A call whose open succeeds keeps track. -/
theorem step (h : Tracks s used closed) (hopen : ∀ path fd, call = .open path fd → s.logFd = 0 → 0 < fd)
    (hafter : s'.logFd = fdAfter s.logFd call) (hpos : s'.logPos.toNat ≤ logBuffSize) :
    Tracks s' (inUse used call) (isClosed closed call) := by
  cases call with
  | «open» path fd =>
    by_cases h0 : s.logFd = 0
    · have hfd := hopen path fd rfl h0
      rw [fdAfter, if_pos h0] at hafter
      refine ⟨hafter ▸ Int32.le_of_lt hfd, iff_of_true ?_ (hafter ▸ hfd), fun h => (nomatch h), hpos⟩
      simp [inUse, hfd]
    · rw [fdAfter, if_neg h0] at hafter
      have hlt : 0 < s.logFd := Int32.lt_of_le_of_ne h.nonneg (Ne.symm h0)
      refine ⟨hafter ▸ h.nonneg, iff_of_true ?_ (hafter ▸ hlt), fun h => (nomatch h), hpos⟩
      simp [inUse, h.used_iff.2 hlt]
  | write text =>
    rw [fdAfter] at hafter
    exact ⟨hafter ▸ h.nonneg, hafter ▸ h.used_iff, h.unused, hpos⟩
  | close =>
    have h0 : s'.logFd = 0 := by
      rw [hafter, fdAfter]
      split_ifs with hlt
      · rfl
      · exact Int32.le_antisymm (Int32.not_lt.1 hlt) h.nonneg
    refine ⟨h0 ▸ Int32.le_refl _, iff_of_false Bool.false_ne_true ?_, fun _ => rfl, hpos⟩
    rw [h0]
    decide

/-- An open that fails is reported as a success. -/
theorem not_right_of_failed (h0 : s.logFd = 0) (hfd : ¬ 0 < fd) : ¬ Right s used closed (.open path fd :: calls) := by
  have hopen : s.logOpen path fd = (0, [.open path], { s with logFd := fd, logPos := 0 }) := if_pos h0
  rintro ⟨-, hright, -⟩
  exact hfd ((hright path fd rfl).result.1 (by rw [hopen])).2

theorem right_iff (h : Tracks s used closed) : Right s used closed calls ↔ OpensSucceed s calls := by
  have hused : used = true → s.logIsOpened = 1 := fun hu => logIsOpened_eq (h.used_iff.1 hu)
  induction calls generalizing s used closed with
  | nil => exact iff_of_true hused trivial
  | cons call calls ih =>
    by_cases hopen : ∀ path fd, call = .open path fd → s.logFd = 0 → 0 < fd
    swap
    · refine iff_of_false ?_ fun hs => hopen hs.1
      simp only [not_forall] at hopen
      obtain ⟨path, fd, rfl, h0, hfd⟩ := hopen
      exact not_right_of_failed h0 hfd
    · rw [Right, OpensSucceed, and_iff_right hused, and_iff_right hopen,
        and_iff_right fun path fd hcall => h.openRight (hopen path fd hcall)]
      refine forall_congr' fun r => forall_congr' fun io => forall_congr' fun s' => forall_congr' fun hexec => ?_
      obtain ⟨-, hnone⟩ | ⟨-, r', io', s'', hexec', hfd', hpos'⟩ := @exec_cases s call h.pos
      · cases hnone.symm.trans hexec
      cases hexec.symm.trans hexec'
      have hstep := h.step hopen hfd' hpos'
      exact ih hstep fun hu => logIsOpened_eq (hstep.used_iff.1 hu)

end Tracks

end

/-- The three functions are what they are to be along a sequence of calls exactly when each `ksceIoOpen` that it makes
succeeds. -/
theorem log_states_iff (calls : List LogCall) : Right .init false false calls ↔ OpensSucceed .init calls :=
  Tracks.right_iff
    ⟨by decide, iff_of_false Bool.false_ne_true (show ¬ (0 : Int32) < 0 by decide), fun _ => rfl, Nat.zero_le _⟩

/-- An open that fails returns 0, and none that comes after it, even after a close, calls `ksceIoOpen`. -/
theorem failedOpen_fail : (LogState.init.logOpen [] (-1)).1 = 0 ∧
    ∃ io s, LogState.init.run [.open [] (-1), .close] = some (io, s) ∧ s.logOpen [] 3 = (-1, [], s) ∧
    ¬ Right .init false false [.open [] (-1), .close, .open [] 3] := by
  refine ⟨rfl, _, _, rfl, rfl, fun h => ?_⟩
  obtain ⟨hopen, -⟩ := (log_states_iff _).1 h
  exact absurd (hopen [] (-1) rfl rfl) (by decide)

end VitaUtility.Analysis

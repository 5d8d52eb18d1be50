import VitaUtility.Lib.Bytes
import VitaUtility.ModuleLoader.Decimal

/-!
# Commands from the console

The loop of `tty_in_thread` over any sequence of reads: where an iteration writes, and the string that it passes on.
-/

namespace VitaUtility.ModuleLoader

/-- `sizeof(tty_buf)` -/
def ttyBufSize : Nat := 0x80

/-- What an iteration gets: the answer of `sceIoRead` with the bytes that it puts in `tty_buf`, what is in `number`
before, and the answer of `taiLoadStartKernelModule`. -/
structure Input where
  res : Int32
  bytes : Mem
  number₀ : UInt32
  modid : Int32

namespace Input
variable (x : Input)

/-- `tty_buf` when the commands are looked for; the store at -1 is not in it. -/
def buf : Mem := fun i =>
  if (i : Int) = x.res.toInt - 1 then 0
  else if (i : Int) < x.res.toInt then x.bytes i
  else 0

/-- Where the iteration writes, as offsets in `tty_buf`: `sceClibMemset`, `sceIoRead` and the terminator. -/
def writes : List Int :=
  (List.range ttyBufSize).map Int.ofNat ++ (List.range x.res.toInt.toNat).map Int.ofNat ++
    if x.res < 0 then [] else [x.res.toInt - 1]

end Input

/-- `sceClibStrncmp(buf, word, n) == 0` for the `n` characters of `word` -/
def startsWith (buf : Mem) (word : List UInt8) : Bool := fill buf word.length = word

/-- `"load "` -/
def loadWord : List UInt8 := [0x6C, 0x6F, 0x61, 0x64, 0x20]

/-- `"load_by_number "` -/
def loadByNumberWord : List UInt8 :=
  [0x6C, 0x6F, 0x61, 0x64, 0x5F, 0x62, 0x79, 0x5F, 0x6E, 0x75, 0x6D, 0x62, 0x65, 0x72, 0x20]

/-- `"exit"` -/
def exitWord : List UInt8 := [0x65, 0x78, 0x69, 0x74]

/-- The branch that an iteration takes. -/
inductive Command where
  | load
  | loadByNumber
  | exit
  | other
deriving DecidableEq

namespace Input
variable (x : Input)

def command : Command :=
  if x.res < 0 then .other
  else if startsWith x.buf loadWord then .load
  else if startsWith x.buf loadByNumberWord then .loadByNumber
  else if startsWith x.buf exitWord then .exit
  else .other

/-- The offset in `tty_buf` of the string that is passed on. -/
def passed : Option Nat :=
  match x.command with
  | .load => some 5
  | .loadByNumber => some 15
  | _ => none

/-- The string at the offset `off` of `tty_buf`, which has to end there. -/
def string (off : Nat) : Except Fault CStr :=
  match strAt x.buf (ttyBufSize - off) off with
  | none => .error .dangling
  | some s => .ok s

/-- What the command does with the list; a search looks at `n` entries at most. -/
def exec (s : State) (n : Nat) : Except Fault State :=
  match x.command with
  | .load => do
    let path ← x.string 5
    match ← saerchModuleEntry s path n with
    | none => .ok s
    | some a => .ok (s.setModid a x.modid)
  | .loadByNumber => do
    let arg ← x.string 15
    let (s, _loaded) ← loadByNumber s arg x.number₀ x.modid n
    .ok s
  | _ => .ok s

end Input

/-- The iterations of `while(1)` over the inputs, up to the one that leaves the loop or does not return. -/
def ttyInThread (n : Nat) : State → List Input → List Input
  | _, [] => []
  | s, x :: xs =>
    if x.command = .exit then [x] else
    match x.exec s n with
    | .error _ => [x]
    | .ok s => x :: ttyInThread n s xs

/-! ### The buffer -/

/-- Every write of the iteration is to `tty_buf`. -/
def InBuffer (x : Input) : Prop := ∀ off ∈ x.writes, 0 ≤ off ∧ off < ttyBufSize

/-- The string that is passed on, if any, ends in `tty_buf`. -/
def Terminated (x : Input) : Prop := ∀ off, x.passed = some off → ∃ b, off ≤ b ∧ b < ttyBufSize ∧ x.buf b = 0

section
variable {x : Input} {xs : List Input} {s : State} {n : Nat}

theorem mem_writes {off : Int} : off ∈ x.writes ↔
    (∃ i < ttyBufSize, (i : Int) = off) ∨ (∃ i < x.res.toInt.toNat, (i : Int) = off) ∨
      (0 ≤ x.res.toInt ∧ off = x.res.toInt - 1) := by
  have hneg : x.res < 0 ↔ x.res.toInt < 0 := Int32.lt_iff_toInt_lt
  unfold Input.writes
  by_cases h : x.res.toInt < 0
  · simp [hneg, h, Int.not_le.2 h]
  · simp [hneg, h, Int.not_lt.1 h]

/-- The terminator is in the buffer after a read of one byte or more; a read of none puts it at -1. -/
theorem inBuffer_iff (h : x.res.toInt ≤ 0x7F) : InBuffer x ↔ x.res ≠ 0 := by
  have hzero : x.res = 0 ↔ x.res.toInt = 0 := Int32.toInt_inj.symm
  rw [Ne, hzero]
  unfold InBuffer ttyBufSize
  constructor
  · intro hin h0
    have := hin (-1) (mem_writes.2 (.inr (.inr (by omega))))
    omega
  · intro h0 off hoff
    rcases mem_writes.1 hoff with ⟨i, hi, rfl⟩ | ⟨i, hi, rfl⟩ | ⟨hle, rfl⟩
    · unfold ttyBufSize at hi
      omega
    · omega
    · omega

/-- The last byte of the buffer is never read into. -/
theorem buf_last (h : x.res.toInt ≤ 0x7F) : x.buf 0x7F = 0 := by
  unfold Input.buf
  rw [if_neg (show ¬ ((0x7F : Nat) : Int) < x.res.toInt by omega)]
  exact ite_self 0

theorem terminated (h : x.res.toInt ≤ 0x7F) : Terminated x := by
  intro off hoff
  refine ⟨0x7F, ?_, by decide, buf_last h⟩
  unfold Input.passed at hoff
  cases hcmd : x.command <;> simp [hcmd] at hoff <;> omega

theorem mem_of_mem_ttyInThread (h : x ∈ ttyInThread n s xs) : x ∈ xs := by
  induction xs generalizing s with
  | nil => exact h
  | cons y xs ih =>
    unfold ttyInThread at h
    by_cases hexit : y.command = .exit
    · rw [if_pos hexit] at h
      exact List.mem_cons.2 (.inl (List.mem_singleton.1 h))
    · rw [if_neg hexit] at h
      cases hexec : y.exec s n with
      | error e =>
        rw [hexec] at h
        exact List.mem_cons.2 (.inl (List.mem_singleton.1 h))
      | ok s' =>
        rw [hexec] at h
        rcases List.mem_cons.1 h with rfl | h
        · exact List.mem_cons_self
        · exact List.mem_cons_of_mem _ (ih h)

/-- All writes of a run are to the buffer exactly when none of its reads has returned 0; its strings end there. -/
theorem console_iff (hres : ∀ x ∈ xs, x.res.toInt ≤ 0x7F) :
    ((∀ x ∈ ttyInThread n s xs, InBuffer x) ↔ ∀ x ∈ ttyInThread n s xs, x.res ≠ 0) ∧
    ∀ x ∈ ttyInThread n s xs, Terminated x := by
  refine ⟨forall_congr' fun x => forall_congr' fun hx => ?_, fun x hx => ?_⟩
  · exact inBuffer_iff (hres x (mem_of_mem_ttyInThread hx))
  · exact terminated (hres x (mem_of_mem_ttyInThread hx))

end

/-- A line of the console. -/
def typed (line : List UInt8) : Input := ⟨Int32.ofNat line.length, fun i => line.getD i 0, 0, 0⟩

/-- A read of none, as at the end of the input, writes before the buffer. -/
theorem typed_nil_fail : typed [] ∈ ttyInThread 0 World.init.state [typed []] ∧ (typed []).res = 0 ∧
    -1 ∈ (typed []).writes ∧ ¬ InBuffer (typed []) := by
  have hwrites : -1 ∈ (typed []).writes := mem_writes.2 (.inr (.inr ⟨by decide, by decide⟩))
  refine ⟨by simp [ttyInThread, show (typed []).command = .other by decide, Input.exec], rfl, hwrites, fun h => ?_⟩
  exact absurd (h _ hwrites).1 (by decide)

theorem console_iff_exit : InBuffer (typed (exitWord ++ [0x0A])) ∧ (typed (exitWord ++ [0x0A])).command = .exit := by
  have hcmd : (typed (exitWord ++ [0x0A])).command = .exit := by decide
  have hrun : ttyInThread 0 World.init.state [typed (exitWord ++ [0x0A])] = [typed (exitWord ++ [0x0A])] := if_pos hcmd
  have hres : ∀ x ∈ [typed (exitWord ++ [0x0A])], x.res.toInt ≤ 0x7F := by simp [typed, exitWord]
  obtain ⟨hin, -⟩ := @console_iff _ World.init.state 0 hres
  rw [hrun] at hin
  refine ⟨hin.2 (fun x hx => ?_) _ List.mem_cons_self, hcmd⟩
  rw [List.mem_singleton.1 hx]
  decide

end VitaUtility.ModuleLoader

import Mathlib.Data.Finset.Lattice.Fold
import Mathlib.Order.Lattice.Nat
import VitaUtility.Lib.Run
import VitaUtility.Dmass.VopData

/-!
# Calls through the `vop_*` table, and runs of them

SceIofilemgr calls the driver one function at a time. A call carries the answers it gets from the
outside modules; `VopCall.exec` forgets the values handed back through pointers. A run is any
sequence of calls that return.
-/

namespace VitaUtility.Dmass

inductive VopCall where
  /-- SceIofilemgr makes the file object `object`, then calls `vop_open` with it. -/
  | open (k : Answers) (argp : SceVfsOpen) (object : SceVfsFileObject)
  | create (k : Answers) (argp : SceVopCreateArgs)
  | close (argp : SceVfsClose)
  | lookup (k : Answers) (argp : SceVfsPartInit)
  | read (argp : SceVfsRead)
  | write (k : Answers) (argp : SceVfsWrite)
  | lseek (argp : SceVopLseekArgs)
  | remove (argp : SceVfsPartDeinit)
  | mkdir (k : Answers) (argp : SceVopMkdirArgs)
  | rmdir (argp : SceVopRmdirArgs)
  | dopen (k : Answers) (argp : SceVfsDopen)
  | dclose (argp : SceVfsDclose)
  | dread (argp : SceVfsDread)
  | chstat (k : Answers) (argp : SceVopChstatArgs)
  | rename (k : Answers) (argp : SceVopRenameArgs)
  | pread (argp : SceVopPreadArgs)
  | pwrite (k : Answers) (argp : SceVopPwriteArgs)
  | inactive (argp : SceVopInactiveArgs)
  | chstatByFd (k : Answers) (argp : SceVopChstatByFdArgs)

/-- Forget what is handed back through a pointer. -/
def dropOut {α : Type} (x : Except Fault (Int × α × VfsState)) : Except Fault (Int × VfsState) :=
  x.map fun r => (r.1, r.2.2)

def VopCall.exec (s : VfsState) : VopCall → Except Fault (Int × VfsState)
  | .open k argp object => vopOpen k argp { s with files := Function.update s.files argp.pVfsFileObject object }
  | .create k argp => dropOut (vopCreate k argp s)
  | .close argp => vopClose argp s
  | .lookup k argp => dropOut (vopPartInit k argp s)
  | .read argp => dropOut (vopRead argp s)
  | .write k argp => vopWrite k argp s
  | .lseek argp => vopLseek argp s
  | .remove argp => vopRemove argp s
  | .mkdir k argp => dropOut (vopMkdir k argp s)
  | .rmdir argp => vopRmdir argp s
  | .dopen k argp => vopDopen k argp s
  | .dclose argp => vopDclose argp s
  | .dread argp => dropOut (vopDread argp s)
  | .chstat k argp => vopChstat k argp s
  | .rename k argp => dropOut (vopRename k argp s)
  | .pread argp => (vopPread argp s).map fun r => (r.1, s)
  | .pwrite k argp => vopPwrite k argp s
  | .inactive argp => vopInactive argp s
  | .chstatByFd k argp => vopChstatByFd k argp s

/-- `call` returns `r` and leaves `s'`. -/
def VopStep (s : VfsState) (call : VopCall) (r : Int) (s' : VfsState) : Prop := call.exec s = .ok (r, s')

/-- `vop_pread` changes nothing. -/
theorem VopStep.pread_eq {s s' : VfsState} {argp : SceVopPreadArgs} {r : Int} (hs : VopStep s (.pread argp) r s') :
    s' = s := by
  cases hp : vopPread argp s with
  | error e =>
    rw [VopStep, VopCall.exec, hp] at hs
    cases hs
  | ok x =>
    rw [VopStep, VopCall.exec, hp] at hs
    cases hs
    rfl

/-- A run of calls, labelled with what they return; each meets `ok` in the state it is made in. -/
def VopRun (ok : VopCall → Int → VfsState → Prop) : VfsState → List (VopCall × Int) → VfsState → Prop :=
  Run fun s l s' => ok l.1 l.2 s ∧ VopStep s l.1 l.2 s'

theorem VopRun.invariant {ok : VopCall → Int → VfsState → Prop} {I : VfsState → Prop} {s s' : VfsState}
    {ls : List (VopCall × Int)}
    (hstep : ∀ s call r s', I s → ok call r s → VopStep s call r s' → I s') (h : VopRun ok s ls s') (hs : I s) :
    I s' :=
  Run.invariant (fun _ l _ hI hl => hstep _ l.1 l.2 _ hI hl.1 hl.2) h hs

/-- After `module_start` and before the first mount. -/
structure Unmounted (s : VfsState) : Prop where
  entries : s.entries = ∅
  bufs : s.bufs = ∅
  pTree : s.pTree = none
  vnodes : ∀ v n, s.vnodes.lookup v = some n → n.devInfo = none

/-- The file system has just been mounted. -/
def FreshMount (s : VfsState) : Prop :=
  ∃ k argp s₀, Unmounted s₀ ∧ vfsSetRoot k (some argp) s₀ = .ok (0, s)

theorem dropOut_eq_ok {α : Type} {x : Except Fault (Int × α × VfsState)} {r : Int} {s : VfsState} :
    dropOut x = .ok (r, s) ↔ ∃ out, x = .ok (r, out, s) := by
  rcases x with e | ⟨r', out, s'⟩ <;> simp [dropOut, Except.map]

/-! ### Computed runs

Runs on given calls can be evaluated; the outside modules answer as on an idle system. -/

/-- An address above all of `L`. -/
def above (L : Finset Nat) : { a : Nat // a ∉ L } :=
  ⟨L.sup id + 1, fun h => absurd (Finset.le_sup (f := id) h) (Nat.not_succ_le_self _)⟩

/-- Every request succeeds. -/
def idle : Answers where
  malloc _ L := some (above L)
  garbage _ := 0
  newNode L := .ok (above L)
  waitEventFlag := 0
  rtc := .ok {}

def unmounted : VfsState where
  entries := ∅
  bufs := ∅
  vnodes := Finmap.insert 0 {} ∅
  files _ := {}
  pTree := none

/-- `unmounted` after the mount, with the root vnode 0. -/
def mounted : VfsState :=
  match vfsSetRoot idle (some ⟨some 0, 0⟩) unmounted with
  | .ok (_, s) => s
  | .error _ => unmounted

theorem freshMount_mounted : FreshMount mounted := by
  refine ⟨idle, ⟨some 0, 0⟩, unmounted, ⟨rfl, rfl, rfl, ?_⟩, rfl⟩
  intro v n hn
  rw [unmounted, lookup_insert_ite] at hn
  split at hn <;> cases hn
  rfl

def chA : CChar := ⟨0x61, by decide⟩
def chB : CChar := ⟨0x62, by decide⟩

/-- The file or directory of one letter in the root directory. -/
def inRoot (c : CChar) : SceVfsPath := ⟨[c], some (slash :: mdName ++ [slash, c])⟩

def runCalls : List VopCall → VfsState → Except Fault (List (VopCall × Int) × VfsState)
  | [], s => .ok ([], s)
  | call :: calls, s =>
    match call.exec s with
    | .error e => .error e
    | .ok (r, t) =>
      match runCalls calls t with
      | .error e => .error e
      | .ok (ls, u) => .ok ((call, r) :: ls, u)

def allReturn (calls : List VopCall) (s : VfsState) : Bool := (runCalls calls s).isOk

/-- The state after the calls, when they all return. -/
def lastState (calls : List VopCall) (s : VfsState) : VfsState :=
  match runCalls calls s with
  | .error _ => s
  | .ok (_, t) => t

theorem lastState_step {call : VopCall} {s : VfsState} {r : Int} (h : (call.exec s).map (·.1) = .ok r) :
    VopStep s call r (lastState [call] s) := by
  unfold VopStep lastState runCalls runCalls
  cases hx : call.exec s with
  | error e =>
    rw [hx] at h
    cases h
  | ok x =>
    rw [hx] at h
    cases h
    rfl

/-- What a call hands back, together with the state that the run computes. -/
theorem lastState_out {α : Type} (call : VopCall) {s : VfsState} {x : Except Fault (Int × α × VfsState)} {r : Int}
    {out : α} (hx : call.exec s = dropOut x) (h : x.map (fun y => (y.1, y.2.1)) = .ok (r, out)) :
    x = .ok (r, out, lastState [call] s) := by
  cases x with
  | error e => cases h
  | ok y =>
    obtain ⟨r', out', t⟩ := y
    cases h
    unfold lastState runCalls runCalls
    rw [hx]
    rfl

theorem runCalls_run {ok : VopCall → Int → VfsState → Prop} {calls : List VopCall} {s t : VfsState}
    {ls : List (VopCall × Int)} (hok : ∀ c ∈ calls, ∀ r s, ok c r s) (h : runCalls calls s = .ok (ls, t)) :
    VopRun ok s ls t := by
  induction calls generalizing s ls with
  | nil => cases h; exact .nil _
  | cons call calls ih =>
    unfold runCalls at h
    split at h
    · cases h
    rename_i r u hr
    split at h
    · cases h
    rename_i ls' t' hls
    cases h
    exact .cons (l := (call, r)) ⟨hok call (by simp) r _, hr⟩ (ih (fun c hc => hok c (by simp [hc])) hls)

theorem runCalls_calls {calls : List VopCall} {s t : VfsState} {ls : List (VopCall × Int)}
    (h : runCalls calls s = .ok (ls, t)) : ls.map (·.1) = calls := by
  induction calls generalizing s ls with
  | nil => cases h; rfl
  | cons call calls ih =>
    unfold runCalls at h
    split at h
    · cases h
    split at h
    · cases h
    rename_i ls' t' hls
    cases h
    rw [List.map_cons, ih hls]

theorem lastState_calls {ok : VopCall → Int → VfsState → Prop} {calls : List VopCall} {s : VfsState}
    (hok : ∀ c ∈ calls, ∀ r s, ok c r s) (h : allReturn calls s = true) :
    ∃ ls, ls.map (·.1) = calls ∧ VopRun ok s ls (lastState calls s) := by
  unfold allReturn at h
  unfold lastState
  split
  · rename_i hr
    rw [hr] at h
    cases h
  · exact ⟨_, runCalls_calls ‹_›, runCalls_run hok ‹_›⟩

theorem lastState_run {ok : VopCall → Int → VfsState → Prop} {calls : List VopCall} {s : VfsState}
    (hok : ∀ c ∈ calls, ∀ r s, ok c r s) (h : allReturn calls s = true) :
    ∃ ls, VopRun ok s ls (lastState calls s) := by
  obtain ⟨ls, -, hrun⟩ := lastState_calls hok h
  exact ⟨ls, hrun⟩

/-- All calls return, and each meets `ok` in the state it is made in. -/
def okRun (ok : VopCall → Int → VfsState → Prop) [∀ c r s, Decidable (ok c r s)] : List VopCall → VfsState → Bool
  | [], _ => true
  | call :: calls, s =>
    match call.exec s with
    | .error _ => false
    | .ok (r, t) => decide (ok call r s) && okRun ok calls t

theorem okRun_runCalls {ok : VopCall → Int → VfsState → Prop} [∀ c r s, Decidable (ok c r s)]
    {calls : List VopCall} {s : VfsState} (h : okRun ok calls s = true) :
    ∃ ls t, runCalls calls s = .ok (ls, t) ∧ VopRun ok s ls t := by
  induction calls generalizing s with
  | nil => exact ⟨[], s, rfl, .nil s⟩
  | cons call calls ih =>
    unfold okRun at h
    split at h
    · cases h
    rename_i r u hr
    rw [Bool.and_eq_true, decide_eq_true_iff] at h
    obtain ⟨ls, t, hls, hrun⟩ := ih h.2
    refine ⟨(call, r) :: ls, t, ?_, .cons (l := (call, r)) ⟨h.1, hr⟩ hrun⟩
    simp only [runCalls, hr, hls]

theorem okRun_run {ok : VopCall → Int → VfsState → Prop} [∀ c r s, Decidable (ok c r s)]
    {calls : List VopCall} {s : VfsState} (h : okRun ok calls s = true) :
    ∃ ls, VopRun ok s ls (lastState calls s) := by
  obtain ⟨ls, t, hr, hrun⟩ := okRun_runCalls h
  refine ⟨ls, ?_⟩
  unfold lastState
  rw [hr]
  exact hrun

end VitaUtility.Dmass

import Mathlib.Logic.Function.Basic
import VitaUtility.Lib.Bytes

/-!
# A file as an array with handles

What a file is to those who use it: an array, and for each handle how often it is open and where its next
read or write starts. Operations that name an offset after the end fail and change nothing.
-/

namespace VitaUtility

/-- What the offset of a seek counts from. -/
inductive Whence where
  | set
  | cur
  | eof

inductive FileOp (η α : Type) where
  | open (h : η) (atEnd : Bool)
  | close (h : η)
  | read (h : η) (n : Nat)
  | write (h : η) (d : List α)
  | pread (h : η) (n o : Nat)
  | pwrite (h : η) (d : List α) (o : Nat)
  /-- `none` is an unknown `whence` -/
  | seek (h : η) (whence : Option Whence) (o : Int)

/-- The answer to an operation, with the elements read; `none` is a failure. -/
abbrev Reply (α : Type) := Option (Nat × List α)

structure ArrayFile (η α : Type) where
  data : List α
  opens : η → Nat
  offset : η → Nat

namespace ArrayFile
variable {η α : Type}

def empty : ArrayFile η α := ⟨[], fun _ => 0, fun _ => 0⟩

/-- No open handle is after the end. -/
def Inside (F : ArrayFile η α) : Prop := ∀ h, 0 < F.opens h → F.offset h ≤ F.data.length

variable {F : ArrayFile η α} {g h : η} {o : Nat}

theorem inside_empty : (empty : ArrayFile η α).Inside := fun _ h => absurd h (Nat.lt_irrefl 0)

/-- A write does not shrink the array. -/
theorem Inside.store (hF : F.Inside) (d : List α) : ({ F with data := splice F.data o d } : ArrayFile η α).Inside := by
  intro g hg
  have := hF g hg
  show F.offset g ≤ (splice F.data o d).length
  simp only [splice, List.length_append, List.length_take, List.length_drop]
  omega

/-! ### Operations -/

def target (F : ArrayFile η α) (h : η) (o : Int) : Whence → Int
  | .set => o
  | .cur => F.offset h + o
  | .eof => F.data.length + o

variable [DecidableEq η]

/-- The next read or write of `h` starts at `o`. -/
def moveTo (F : ArrayFile η α) (h : η) (o : Nat) : ArrayFile η α :=
  { F with offset := Function.update F.offset h o }

def exec (F : ArrayFile η α) : FileOp η α → Reply α × ArrayFile η α
  | .open h atEnd =>
    (some (0, []), { F with opens := Function.update F.opens h (F.opens h + 1) }.moveTo h
      (if atEnd then F.data.length else 0))
  | .close h => (some (0, []), { F with opens := Function.update F.opens h (F.opens h - 1) })
  | .read h n =>
    let out := slice F.data (F.offset h) n
    (some (out.length, out), F.moveTo h (F.offset h + out.length))
  | .write h d =>
    (some (d.length, []), { F with data := splice F.data (F.offset h) d }.moveTo h (F.offset h + d.length))
  | .pread _ n o =>
    let out := slice F.data o n
    if o ≤ F.data.length then (some (out.length, out), F) else (none, F)
  | .pwrite _ d o =>
    if o ≤ F.data.length then (some (d.length, []), { F with data := splice F.data o d }) else (none, F)
  | .seek _ none _ => (none, F)
  | .seek h (some whence) o =>
    let t := F.target h o whence
    if 0 ≤ t ∧ t ≤ F.data.length then (some (t.toNat, []), F.moveTo h t.toNat) else (none, F)

section
variable {n : Nat} {d : List α} {whence : Whence} {t : Int}

theorem exec_pread (ho : o ≤ F.data.length) :
    F.exec (.pread h n o) = (some ((slice F.data o n).length, slice F.data o n), F) := if_pos ho

theorem exec_pread_after (ho : F.data.length < o) : F.exec (.pread h n o) = (none, F) := if_neg (by omega)

theorem exec_pwrite (ho : o ≤ F.data.length) :
    F.exec (.pwrite h d o) = (some (d.length, []), { F with data := splice F.data o d }) := if_pos ho

theorem exec_pwrite_after (ho : F.data.length < o) : F.exec (.pwrite h d o) = (none, F) := if_neg (by omega)

theorem exec_seek {i : Int} (ht : F.target h i whence = o) (ho : o ≤ F.data.length) :
    F.exec (.seek h (some whence) i) = (some (o, []), F.moveTo h o) := by
  unfold exec
  dsimp only
  rw [ht, if_pos (by omega), Int.toNat_natCast]

theorem exec_seek_outside {i : Int} (ht : F.target h i whence < 0 ∨ F.data.length < F.target h i whence) :
    F.exec (.seek h (some whence) i) = (none, F) := by
  refine if_neg ?_
  omega

end

def run (F : ArrayFile η α) : List (FileOp η α) → List (Reply α) × ArrayFile η α
  | [] => ([], F)
  | op :: ops =>
    let x := F.exec op
    let y := x.2.run ops
    (x.1 :: y.1, y.2)

theorem Inside.moveTo (hF : F.Inside) (ho : 0 < F.opens h → o ≤ F.data.length) : (F.moveTo h o).Inside := by
  intro g hg
  show Function.update F.offset h o g ≤ F.data.length
  rw [Function.update_apply]
  split
  · subst g
    exact ho hg
  · exact hF g hg

theorem Inside.exec (hF : F.Inside) (op : FileOp η α) : (F.exec op).2.Inside := by
  cases op with
  | «open» h atEnd =>
    intro g hg
    show Function.update F.offset h (if atEnd then F.data.length else 0) g ≤ F.data.length
    by_cases hgh : g = h
    · subst g
      rw [Function.update_self]
      split <;> omega
    · have hopen : Function.update F.opens h (F.opens h + 1) g = F.opens g := Function.update_of_ne hgh _ _
      rw [Function.update_of_ne hgh]
      exact hF g (hopen ▸ hg)
  | close h =>
    intro g hg
    refine hF g ?_
    have hle : Function.update F.opens h (F.opens h - 1) g ≤ F.opens g := by
      rw [Function.update_apply]
      split
      · subst g
        omega
      · exact Nat.le_refl _
    exact Nat.lt_of_lt_of_le hg hle
  | read h n =>
    refine hF.moveTo fun hopen => ?_
    have := hF h hopen
    rw [length_slice]
    omega
  | write h d =>
    refine (hF.store d).moveTo fun hopen => ?_
    show _ ≤ (splice F.data (F.offset h) d).length
    rw [length_splice (hF h hopen)]
    exact Nat.le_max_right _ _
  | pread h n o =>
    rcases Nat.lt_or_ge F.data.length o with ho | ho
    · rwa [exec_pread_after ho]
    · rwa [exec_pread ho]
  | pwrite h d o =>
    rcases Nat.lt_or_ge F.data.length o with ho | ho
    · rwa [exec_pwrite_after ho]
    · rw [exec_pwrite ho]
      exact hF.store d
  | seek h whence o =>
    cases whence with
    | none => exact hF
    | some whence =>
      unfold ArrayFile.exec
      dsimp only
      split
      · refine hF.moveTo fun _ => ?_
        omega
      · exact hF

end ArrayFile

end VitaUtility

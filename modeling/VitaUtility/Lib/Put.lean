import Mathlib.Data.List.Nodup
import Mathlib.Logic.Function.Basic

/-!
# Stores that are written to by key

`put` writes a value to a key when there is one to write. Over a sequence of writes a key has the last of its values; it
keeps the first one when no value is written to a key that has one.
-/

namespace VitaUtility

variable {α β ι : Type} [DecidableEq α]

/-- The value `v`, if there is one, for the key. -/
def put (s : α → Option β) (a : α) (v : Option β) : α → Option β := Function.update s a (v.or (s a))

/-- The values of the list, one after the other. -/
def putAll (s : α → Option β) (l : List (α × Option β)) : α → Option β := l.foldl (fun s x => put s x.1 x.2) s

/-- The last value for `a` in the list. -/
def lastFor (l : List (α × Option β)) (a : α) : Option β :=
  l.reverse.findSome? fun x => if x.1 = a then x.2 else none

/-- No run writes a value to a key that has one. -/
def OnlyNew (rows : ι → List (α × Option β)) : (α → Option β) → List ι → Prop
  | _, [] => True
  | s, k :: runs => (∀ a, s a ≠ none → lastFor (rows k) a = none) ∧ OnlyNew rows (putAll s (rows k)) runs

section
variable {s : α → Option β} {l : List (α × Option β)} {a b : α} {v : Option β} {rows : ι → List (α × Option β)}
  {runs : List ι}

@[simp] theorem put_self : put s a v a = v.or (s a) := Function.update_self ..

theorem put_of_ne (h : b ≠ a) : put s a v b = s b := Function.update_of_ne h ..

theorem put_apply : put s a v b = (if a = b then v else none).or (s b) := by
  by_cases h : a = b
  · subst h
    simp
  · rw [put_of_ne (Ne.symm h), if_neg h, Option.none_or]

@[simp] theorem lastFor_nil : lastFor ([] : List (α × Option β)) a = none := rfl

theorem lastFor_cons {x : α × Option β} : lastFor (x :: l) a = (lastFor l a).or (if x.1 = a then x.2 else none) := by
  rw [lastFor, List.reverse_cons, List.findSome?_append, List.findSome?_singleton]
  rfl

theorem putAll_apply : putAll s l a = (lastFor l a).or (s a) := by
  induction l generalizing s with
  | nil => simp [putAll]
  | cons x l ih =>
    rw [lastFor_cons, Option.or_assoc, ← put_apply]
    exact ih

theorem lastFor_of_not_mem (h : a ∉ l.map Prod.fst) : lastFor l a = none := by
  rw [lastFor, List.findSome?_eq_none_iff]
  intro x hx
  rw [if_neg]
  rintro rfl
  exact h (List.mem_map_of_mem (List.mem_reverse.1 hx))

/-- Where the keys differ, each has its own value. -/
theorem lastFor_of_mem (hnodup : (l.map Prod.fst).Nodup) (h : (a, v) ∈ l) : lastFor l a = v := by
  induction l with
  | nil => cases h
  | cons x l ih =>
    rw [List.map_cons, List.nodup_cons] at hnodup
    rw [lastFor_cons]
    rcases List.mem_cons.1 h with rfl | h
    · rw [if_pos rfl, lastFor_of_not_mem hnodup.1, Option.none_or]
    · have hne : x.1 ≠ a := by
        rintro rfl
        exact hnodup.1 (List.mem_map.2 ⟨_, h, rfl⟩)
      rw [if_neg hne, Option.or_none, ih hnodup.2 h]

/-- Over a sequence of runs the last one that has a value for a key decides. -/
theorem foldl_putAll : runs.foldl (fun s k => putAll s (rows k)) s a =
    (runs.reverse.findSome? fun k => lastFor (rows k) a).or (s a) := by
  induction runs generalizing s with
  | nil => simp
  | cons k runs ih =>
    rw [List.foldl_cons, ih, putAll_apply, ← Option.or_assoc, List.reverse_cons, List.findSome?_append,
      List.findSome?_singleton]

/-- When only keys without a value are written to, the first one decides. -/
theorem foldl_putAll_of_onlyNew (h : OnlyNew rows s runs) : runs.foldl (fun s k => putAll s (rows k)) s a =
    (s a).or (runs.findSome? fun k => lastFor (rows k) a) := by
  induction runs generalizing s with
  | nil => simp
  | cons k runs ih =>
    have hrun : putAll s (rows k) a = (s a).or (lastFor (rows k) a) := by
      rw [putAll_apply]
      by_cases hs : s a = none
      · rw [hs, Option.or_none, Option.none_or]
      · rw [h.1 a hs, Option.or_none, Option.none_or]
    rw [List.foldl_cons, ih h.2, hrun, Option.or_assoc, List.findSome?_cons]
    cases lastFor (rows k) a <;> rfl

end

end VitaUtility

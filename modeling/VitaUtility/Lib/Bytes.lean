import Mathlib.Data.List.TakeDrop

/-! # Byte blocks: bounded reads and writes -/

namespace VitaUtility

/-- The first `n` values of `g`. -/
def fill {α : Type} (g : Nat → α) (n : Nat) : List α := (List.range n).map g

/-- `xs` with `d` written over it from `i` on, growing it when `d` passes its end. -/
def splice {α : Type} (xs : List α) (i : Nat) (d : List α) : List α :=
  xs.take i ++ d ++ xs.drop (i + d.length)

/-- The `n` elements of `xs` from `i` on. -/
def slice {α : Type} (xs : List α) (i n : Nat) : List α := (xs.drop i).take n

section
variable {α : Type} {g : Nat → α} {xs ys d : List α} {i j m n : Nat}

@[simp] theorem length_fill : (fill g n).length = n := by simp [fill]

theorem length_splice (h : i ≤ xs.length) : (splice xs i d).length = max xs.length (i + d.length) := by
  simp [splice]; omega

theorem length_slice : (slice xs i n).length = min n (xs.length - i) := by simp [slice]

@[simp] theorem splice_nil : splice xs i [] = xs := by simp [splice]

theorem slice_take (h : i + n ≤ m) : slice (xs.take m) i n = slice xs i n := by
  simp [slice, List.drop_take, List.take_take, show min n (m - i) = n by omega]

/-- Reading past the end of `xs` gives what is left of it. -/
theorem slice_min : slice xs i (min n (xs.length - i)) = slice xs i n := by
  rw [slice, slice, List.take_eq_take_iff, List.length_drop]; omega

theorem slice_add : slice xs i (m + n) = slice xs i m ++ slice xs (i + m) n := by
  simp [slice, List.take_add, List.drop_drop]

theorem slice_fill (h : i + m ≤ n) : slice (fill g n) i m = fill (fun b => g (i + b)) m := by
  apply List.ext_getElem
  · simp [length_slice]; omega
  · intro j _ _
    simp [slice, fill]

theorem getElem?_splice (hi : i ≤ xs.length) : (splice xs i d)[j]? =
    if j < i then xs[j]? else if j < i + d.length then d[j - i]? else xs[j]? := by
  rw [splice, List.append_assoc]
  have hl : (xs.take i).length = i := by simp [hi]
  by_cases h₁ : j < i
  · rw [List.getElem?_append_left (by omega), List.getElem?_take, if_pos h₁, if_pos h₁]
  rw [if_neg h₁, List.getElem?_append_right (by omega), hl]
  by_cases h₂ : j < i + d.length
  · rw [if_pos h₂, List.getElem?_append_left (by omega)]
  · rw [if_neg h₂, List.getElem?_append_right (by omega), List.getElem?_drop]
    congr 1; omega

/-- Two writes one behind the other are one write. -/
theorem splice_splice {e : List α} (hi : i ≤ xs.length) :
    splice (splice xs i d) (i + d.length) e = splice xs i (d ++ e) := by
  have hl : (xs.take i ++ d).length = i + d.length := by simp [hi]
  have htake : (splice xs i d).take (i + d.length) = xs.take i ++ d := by rw [splice, ← hl, List.take_left]
  have hdrop : (splice xs i d).drop (i + d.length) = xs.drop (i + d.length) := by rw [splice, ← hl, List.drop_left]
  show (splice xs i d).take (i + d.length) ++ e ++ (splice xs i d).drop (i + d.length + e.length) = _
  rw [htake, ← List.drop_drop, hdrop, List.drop_drop, splice, List.length_append, List.append_assoc (xs.take i),
    Nat.add_assoc]

/-- Writing into a block at or before the end of its used part `m` is writing into the used part. -/
theorem take_splice (hi : i ≤ m) (hm : m ≤ xs.length) :
    (splice xs i d).take (max m (i + d.length)) = splice (xs.take m) i d := by
  apply List.ext_getElem?
  intro j
  rw [List.getElem?_take, getElem?_splice (by omega), getElem?_splice (by simp; omega), List.getElem?_take]
  by_cases h₁ : j < i
  · rw [if_pos (by omega), if_pos h₁, if_pos h₁, if_pos (by omega)]
  by_cases h₂ : j < i + d.length
  · rw [if_pos (by omega), if_neg h₁, if_pos h₂, if_neg h₁, if_pos h₂]
  · rw [if_neg h₁, if_neg h₂, if_neg h₁, if_neg h₂]
    exact if_congr (by omega) rfl rfl

end

end VitaUtility

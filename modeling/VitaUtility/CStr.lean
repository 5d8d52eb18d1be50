import Mathlib.Data.List.TakeDrop
import VitaUtility.Lib.Memory

/-! # C strings -/

namespace VitaUtility

/-- A `char` of a string: any byte but the terminator. -/
abbrev CChar := { c : UInt8 // c ≠ 0 }

/-- A NUL-terminated string, without its terminator. -/
abbrev CStr := List CChar

/-- `'/'` -/
def slash : CChar := ⟨0x2F, by decide⟩

/-- `strchr`: the suffix of `s` that starts at the first `c`. -/
def strchr (s : CStr) (c : CChar) : Option CStr :=
  match s.dropWhile (· ≠ c) with
  | [] => none
  | s => some s

/-- The string at `a`, if it ends in the `n` bytes from there on. -/
def strAt (m : Mem) : (n a : Nat) → Option CStr
  | 0, _ => none
  | n + 1, a => if h : m a = 0 then some [] else (strAt m n (a + 1)).map (⟨m a, h⟩ :: ·)

theorem strAt_isSome {m : Mem} {n a : Nat} : (∃ s, strAt m n a = some s) ↔ ∃ b, a ≤ b ∧ b < a + n ∧ m b = 0 := by
  induction n generalizing a with
  | zero =>
    constructor
    · rintro ⟨s, h⟩
      cases h
    · rintro ⟨b, h₁, h₂, -⟩
      omega
  | succ n ih =>
    by_cases h0 : m a = 0
    · exact iff_of_true ⟨[], dif_pos h0⟩ ⟨a, Nat.le_refl _, by omega, h0⟩
    rw [strAt, dif_neg h0]
    simp only [Option.map_eq_some_iff]
    constructor
    · rintro ⟨-, s, hs, -⟩
      obtain ⟨b, h₁, h₂, hb⟩ := ih.1 ⟨s, hs⟩
      exact ⟨b, by omega, by omega, hb⟩
    · rintro ⟨b, h₁, h₂, hb⟩
      have hne : b ≠ a := by
        rintro rfl
        exact h0 hb
      obtain ⟨s, hs⟩ := (ih (a := a + 1)).2 ⟨b, by omega, by omega, hb⟩
      exact ⟨_, s, hs, rfl⟩

/-- The string at the start of the bytes, which ends before the first NUL of them. -/
def cstr : List UInt8 → CStr
  | [] => []
  | c :: cs => if h : c = 0 then [] else ⟨c, h⟩ :: cstr cs

/-- A literal whose characters have one byte each. -/
def literal (s : String) : CStr := cstr (s.toList.map fun c => UInt8.ofNat c.toNat)

theorem strAt_cstr {m : Mem} {l : List UInt8} {n a : Nat} (hl : ∀ i c, l[i]? = some c → m (a + i) = c)
    (hend : m (a + l.length) = 0) (hn : l.length < n) : strAt m n a = some (cstr l) := by
  induction l generalizing n a with
  | nil =>
    obtain ⟨n, rfl⟩ : ∃ n', n = n' + 1 := ⟨n - 1, by simp at hn; omega⟩
    rw [strAt, dif_pos (by simpa using hend), cstr]
  | cons c l ih =>
    obtain ⟨n, rfl⟩ : ∃ n', n = n' + 1 := ⟨n - 1, by simp at hn; omega⟩
    have hc : m a = c := hl 0 c rfl
    subst hc
    by_cases h0 : m a = 0
    · rw [strAt, dif_pos h0, cstr, dif_pos h0]
    have hrest : strAt m n (a + 1) = some (cstr l) := by
      refine ih (fun i c hi => ?_) ?_ ?_
      · rw [Nat.add_assoc, Nat.add_comm 1]
        exact hl (i + 1) c hi
      · rw [Nat.add_assoc, Nat.add_comm 1]
        exact hend
      · simp at hn
        omega
    rw [strAt, dif_neg h0, hrest, cstr, dif_neg h0]
    rfl

/-- A string has no NUL before its end, and one at it. -/
theorem strAt_get {m : Mem} {n a i : Nat} {s : CStr} (h : strAt m n a = some s) (hi : i ≤ s.length) :
    m (a + i) = (s[i]?.map Subtype.val).getD 0 := by
  induction n generalizing a i s with
  | zero => cases h
  | succ n ih =>
    by_cases h0 : m a = 0
    · rw [strAt, dif_pos h0] at h
      obtain rfl := Option.some.inj h
      obtain rfl : i = 0 := by simpa using hi
      exact h0
    rw [strAt, dif_neg h0, Option.map_eq_some_iff] at h
    obtain ⟨s, hs, rfl⟩ := h
    cases i with
    | zero => rfl
    | succ i =>
      rw [← Nat.add_assoc, Nat.add_right_comm]
      exact ih hs (by simpa using hi)

/-- The rest of a string is the string that starts inside of it. -/
theorem strAt_drop {m : Mem} {n a i : Nat} {s : CStr} (h : strAt m n a = some s) (hi : i ≤ s.length) :
    strAt m (n - i) (a + i) = some (s.drop i) := by
  induction i with
  | zero => exact h
  | succ i ih =>
    have hrest := ih (by omega)
    obtain ⟨k, hk⟩ : ∃ k, n - i = k + 1 := by
      cases hn : n - i with
      | zero =>
        rw [hn] at hrest
        cases hrest
      | succ k => exact ⟨k, rfl⟩
    have hne : ¬ m (a + i) = 0 := by
      rw [strAt_get h (by omega), List.getElem?_eq_getElem (by omega)]
      exact s[i].2
    rw [hk, strAt, dif_neg hne, Option.map_eq_some_iff] at hrest
    obtain ⟨rest, hrest, heq⟩ := hrest
    rw [show n - (i + 1) = k by omega, ← Nat.add_assoc, hrest, ← List.drop_drop, ← heq]
    rfl

/-! ### Absolute paths -/

/-- `/c₁/c₂/..` -/
def pathStr (cs : List CStr) : CStr := cs.flatMap (slash :: ·)

/-- A name that can be a component of a path. -/
structure IsName (c : CStr) : Prop where
  ne_nil : c ≠ []
  no_slash : slash ∉ c

theorem pathStr_cons {c : CStr} {cs : List CStr} : pathStr (c :: cs) = slash :: (c ++ pathStr cs) := rfl

theorem pathStr_append {cs ds : List CStr} : pathStr (cs ++ ds) = pathStr cs ++ pathStr ds :=
  List.flatMap_append

theorem pathStr_snoc {c : CStr} {cs : List CStr} : pathStr (cs ++ [c]) = pathStr cs ++ slash :: c := by
  rw [pathStr_append, pathStr_cons]
  simp [pathStr]

theorem strchr_getD {s : CStr} {c : CChar} : (strchr s c).getD [] = s.dropWhile (· ≠ c) := by
  unfold strchr
  split
  · rename_i h
    rw [h]
    rfl
  · rfl

/-- What is left after the characters other than `c` starts with `c`. -/
theorem head_dropWhile {s rest : CStr} {c z : CChar} (h : s.dropWhile (· ≠ c) = z :: rest) : z = c := by
  have hhead := List.head?_dropWhile_not (· ≠ c) s
  rw [h] at hhead
  exact not_not.1 (of_decide_eq_false hhead)

/-- The first component of a path, and the path after it. -/
theorem span_pathStr {c : CStr} (hc : slash ∉ c) (cs : List CStr) :
    (c ++ pathStr cs).takeWhile (· ≠ slash) = c ∧ (c ++ pathStr cs).dropWhile (· ≠ slash) = pathStr cs := by
  have hall : ∀ x ∈ c, decide (x ≠ slash) = true := by
    intro x hx
    refine decide_eq_true ?_
    rintro rfl
    exact hc hx
  rw [List.takeWhile_append_of_pos hall, List.dropWhile_append_of_pos hall]
  cases cs with
  | nil => simp [pathStr]
  | cons d cs =>
    rw [pathStr_cons]
    simp

theorem pathStr_injective {cs ds : List CStr} (hc : ∀ c ∈ cs, slash ∉ c) (hd : ∀ c ∈ ds, slash ∉ c)
    (h : pathStr cs = pathStr ds) : cs = ds := by
  induction cs generalizing ds with
  | nil =>
    cases ds with
    | nil => rfl
    | cons d ds => cases h
  | cons c cs ih =>
    cases ds with
    | nil => cases h
    | cons d ds =>
      rw [pathStr_cons, pathStr_cons] at h
      have h := (List.cons.inj h).2
      have h₁ := span_pathStr (hc c (by simp)) cs
      have h₂ := span_pathStr (hd d (by simp)) ds
      rw [h, h₂.1, h₂.2] at h₁
      obtain ⟨rfl, hcs⟩ := h₁
      rw [ih (fun c h => hc c (by simp [h])) (fun c h => hd c (by simp [h])) hcs.symm]

end VitaUtility

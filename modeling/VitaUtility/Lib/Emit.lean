import Mathlib.Data.List.Basic

/-! # Loops that emit, with an early exit -/

namespace VitaUtility

variable {γ ε : Type}

/-- `for(int i=start;i<start+n;i++)` over a body that emits values and may leave the loop. -/
def forEmit (body : Nat → List γ × Option ε) : (n start : Nat) → List γ × Option ε
  | 0, _ => ([], none)
  | n + 1, i =>
    match body i with
    | (out, some exit) => (out, some exit)
    | (out, none) =>
      let rest := forEmit body n (i + 1)
      (out ++ rest.1, rest.2)

/-- What is emitted comes from the rounds up to the first that leaves. -/
theorem mem_forEmit {body : Nat → List γ × Option ε} {n start : Nat} {x : γ} : x ∈ (forEmit body n start).1 ↔
    ∃ j, start ≤ j ∧ j < start + n ∧ (∀ k, start ≤ k → k < j → (body k).2 = none) ∧ x ∈ (body j).1 := by
  induction n generalizing start with
  | zero =>
    constructor
    · intro h
      cases h
    · rintro ⟨j, h₁, h₂, -⟩
      omega
  | succ n ih =>
    unfold forEmit
    rcases hb : body start with ⟨out, _ | exit⟩
    · simp only [List.mem_append, ih]
      constructor
      · rintro (h | ⟨j, h₁, h₂, hrun, h⟩)
        · exact ⟨start, Nat.le_refl _, by omega, by omega, by rwa [hb]⟩
        · refine ⟨j, by omega, by omega, fun k hk hkj => ?_, h⟩
          by_cases heq : k = start
          · rw [heq, hb]
          · exact hrun k (by omega) hkj
      · rintro ⟨j, h₁, h₂, hrun, h⟩
        by_cases heq : j = start
        · rw [heq, hb] at h
          exact .inl h
        · exact .inr ⟨j, by omega, by omega, fun k hk hkj => hrun k (by omega) hkj, h⟩
    · constructor
      · intro h
        exact ⟨start, Nat.le_refl _, by omega, by omega, by rwa [hb]⟩
      · rintro ⟨j, h₁, -, hrun, h⟩
        by_cases heq : j = start
        · rwa [heq, hb] at h
        · have hnone := hrun start (Nat.le_refl _) (by omega)
          rw [hb] at hnone
          cases hnone

/-- The loop runs to its end when no round leaves. -/
theorem forEmit_snd_eq_none {body : Nat → List γ × Option ε} {n start : Nat} : (forEmit body n start).2 = none ↔
    ∀ j, start ≤ j → j < start + n → (body j).2 = none := by
  induction n generalizing start with
  | zero => exact iff_of_true rfl fun j h₁ h₂ => by omega
  | succ n ih =>
    unfold forEmit
    rcases hb : body start with ⟨out, _ | exit⟩
    · dsimp only
      rw [ih]
      constructor
      · intro h j h₁ h₂
        by_cases heq : j = start
        · rw [heq, hb]
        · exact h j (by omega) (by omega)
      · intro h j h₁ h₂
        exact h j (by omega) (by omega)
    · refine iff_of_false (by simp) fun h => ?_
      have hnone := h start (Nat.le_refl _) (by omega)
      simp [hb] at hnone

/-- A loop that no round leaves. -/
theorem forEmit_of_none {body : Nat → List γ × Option ε} {n start : Nat}
    (h : ∀ j, start ≤ j → j < start + n → (body j).2 = none) :
    forEmit body n start = ((List.range' start n).flatMap fun j => (body j).1, none) := by
  induction n generalizing start with
  | zero => rfl
  | succ n ih =>
    have hrest := @ih (start + 1) fun j h₁ h₂ => h j (by omega) (by omega)
    have hnone := h start (Nat.le_refl _) (by omega)
    unfold forEmit
    rcases hb : body start with ⟨out, exit⟩
    rw [hb] at hnone
    obtain rfl : exit = none := hnone
    rw [List.range'_succ, List.flatMap_cons, hb]
    simp [hrest]

/-- A loop that is left in round `j`. -/
theorem forEmit_of_some {body : Nat → List γ × Option ε} {n start j : Nat} {exit : ε}
    (h : ∀ i, start ≤ i → i < start + j → (body i).2 = none) (hj : j < n) (hexit : (body (start + j)).2 = some exit) :
    forEmit body n start = ((List.range' start j).flatMap (fun i => (body i).1) ++ (body (start + j)).1, some exit) := by
  induction j generalizing n start with
  | zero =>
    obtain ⟨n, rfl⟩ : ∃ n', n = n' + 1 := ⟨n - 1, by omega⟩
    unfold forEmit
    rw [Nat.add_zero] at hexit ⊢
    rcases hb : body start with ⟨out, e⟩
    rw [hb] at hexit
    obtain rfl : e = some exit := hexit
    rfl
  | succ j ih =>
    obtain ⟨n, rfl⟩ : ∃ n', n = n' + 1 := ⟨n - 1, by omega⟩
    have hnone := h start (Nat.le_refl _) (by omega)
    have hat : start + 1 + j = start + (j + 1) := by omega
    have hrest := @ih n (start + 1) (fun i h₁ h₂ => h i (by omega) (by omega)) (by omega) (hat ▸ hexit)
    unfold forEmit
    rcases hb : body start with ⟨out, e⟩
    rw [hb] at hnone
    obtain rfl : e = none := hnone
    rw [List.range'_succ, List.flatMap_cons, hb]
    simp [hrest, hat]

/-- What is emitted is in order when each round is, and the rounds are. -/
theorem pairwise_forEmit {body : Nat → List γ × Option ε} {n start : Nat} {R : γ → γ → Prop}
    (hround : ∀ j < start + n, (body j).1.Pairwise R)
    (hlt : ∀ i j, i < j → j < start + n → ∀ x ∈ (body i).1, ∀ y ∈ (body j).1, R x y) :
    (forEmit body n start).1.Pairwise R := by
  induction n generalizing start with
  | zero => exact .nil
  | succ n ih =>
    have hstart : (body start).1.Pairwise R := hround start (by omega)
    have hrest : (forEmit body n (start + 1)).1.Pairwise R := by
      refine ih (fun j hj => hround j (by omega)) fun i j hij hj => hlt i j hij (by omega)
    have hcross : ∀ x ∈ (body start).1, ∀ y ∈ (forEmit body n (start + 1)).1, R x y := by
      intro x hx y hy
      obtain ⟨j, h₁, h₂, -, hy⟩ := mem_forEmit.1 hy
      exact hlt start j (by omega) (by omega) x hx y hy
    unfold forEmit
    rcases hb : body start with ⟨out, _ | exit⟩
    · rw [hb] at hstart hcross
      exact List.pairwise_append.2 ⟨hstart, hrest, hcross⟩
    · rwa [hb] at hstart

end VitaUtility

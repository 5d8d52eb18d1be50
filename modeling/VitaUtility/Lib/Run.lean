import Mathlib.Algebra.GroupWithZero.Nat
import Mathlib.Logic.Relation

/-! # Runs of a labelled transition system -/

namespace VitaUtility

variable {σ ℓ : Type}

/-- `Run step s ls t`: steps labelled `ls`, in this order, lead from `s` to `t`. -/
inductive Run (step : σ → ℓ → σ → Prop) : σ → List ℓ → σ → Prop
  | nil (s : σ) : Run step s [] s
  | snoc {s t u : σ} {ls : List ℓ} {l : ℓ} : Run step s ls t → step t l u → Run step s (ls ++ [l]) u

namespace Run
variable {step : σ → ℓ → σ → Prop} {s t u : σ} {ls : List ℓ} {l : ℓ}

/-- What each step preserves holds wherever a run leads. -/
theorem invariant {I : σ → Prop} (hstep : ∀ s l t, I s → step s l t → I t) (h : Run step s ls t)
    (hs : I s) : I t := by
  induction h with
  | nil => exact hs
  | snoc _ hl ih => exact hstep _ _ _ ih hl

/-- A quantity of the state that each step changes by a weight of its label changes over a run by the
sum of the weights. -/
theorem sum_invariant {I : Nat → σ → Prop} {w : ℓ → Nat} (hstep : ∀ n s l t, I n s → step s l t → I (n + w l) t)
    (h : Run step s ls t) {n : Nat} (hs : I n s) : I (n + (ls.map w).sum) t := by
  induction h with
  | nil => simpa using hs
  | snoc _ hl ih => simpa [Nat.add_assoc] using hstep _ _ _ _ ih hl

theorem cons (hl : step s l t) (h : Run step t ls u) : Run step s (l :: ls) u := by
  induction h with
  | nil => exact .snoc (.nil s) hl
  | snoc _ hl' ih => exact .snoc ih hl'

/-- A run of which only the steps with some labels are made, from a related state. -/
theorem purge {τ : Type} {step' : τ → ℓ → τ → Prop} {R : σ → τ → Prop} {own : ℓ → Bool}
    (hown : ∀ s t l s', l ∈ ls → own l → R s t → step s l s' → ∃ t', step' t l t' ∧ R s' t')
    (hother : ∀ s t l s', l ∈ ls → ¬ own l → R s t → step s l s' → R s' t) (h : Run step s ls u) {t : τ} (hR : R s t) :
    ∃ t', Run step' t (ls.filter own) t' ∧ R u t' := by
  induction h with
  | nil => exact ⟨t, .nil t, hR⟩
  | @snoc u v ls l _ hl ih =>
    have hmem : ∀ l' ∈ ls, l' ∈ ls ++ [l] := fun l' h => List.mem_append_left _ h
    have hlast : l ∈ ls ++ [l] := by simp
    obtain ⟨t', hrun, hR'⟩ := ih (fun s t l' s' h => hown s t l' s' (hmem l' h))
      (fun s t l' s' h => hother s t l' s' (hmem l' h))
    rw [List.filter_append]
    by_cases ho : own l
    · obtain ⟨t'', hl', hR''⟩ := hown _ _ _ _ hlast ho hR' hl
      refine ⟨t'', ?_, hR''⟩
      simpa [ho] using hrun.snoc hl'
    · refine ⟨t', ?_, hother _ _ _ _ hlast ho hR' hl⟩
      simpa [ho] using hrun

/-- Related states make the same runs. -/
theorem simulate {τ : Type} {step' : τ → ℓ → τ → Prop} {R : σ → τ → Prop}
    (hstep : ∀ s t l s', R s t → step s l s' → ∃ t', step' t l t' ∧ R s' t') (h : Run step s ls u) {t : τ} (hR : R s t) :
    ∃ t', Run step' t ls t' ∧ R u t' := by
  induction h with
  | nil => exact ⟨t, .nil t, hR⟩
  | snoc _ hl ih =>
    obtain ⟨t', hrun, hR'⟩ := ih
    obtain ⟨t'', hl', hR''⟩ := hstep _ _ _ _ hR' hl
    exact ⟨t'', hrun.snoc hl', hR''⟩

end Run

/-! ### Results that agree -/

/-- The same error, or the same value in related states. -/
inductive Agrees {ε α τ : Type} (R : σ → τ → Prop) : Except ε (α × σ) → Except ε (α × τ) → Prop
  | error (e : ε) : Agrees R (.error e) (.error e)
  | ok (x : α) {s : σ} {t : τ} : R s t → Agrees R (.ok (x, s)) (.ok (x, t))

namespace Agrees
variable {ε α τ : Type} {R : σ → τ → Prop} {x : Except ε (α × σ)} {y : Except ε (α × τ)} {a : α} {s : σ} {t : τ}

theorem right (h : Agrees R x y) (hx : x = .ok (a, s)) : ∃ t, y = .ok (a, t) ∧ R s t := by
  cases h with
  | error e => cases hx
  | ok b hR =>
    cases hx
    exact ⟨_, rfl, hR⟩

theorem left (h : Agrees R x y) (hy : y = .ok (a, t)) : ∃ s, x = .ok (a, s) ∧ R s t := by
  cases h with
  | error e => cases hy
  | ok b hR =>
    cases hy
    exact ⟨_, rfl, hR⟩

end Agrees

end VitaUtility

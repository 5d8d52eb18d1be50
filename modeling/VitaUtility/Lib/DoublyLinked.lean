import VitaUtility.Lib.Chain

/-!
# Doubly linked lists in a store

`DList nxt prv before p l`: following `nxt` from `p` visits exactly the cells `l`, and `prv` leads back from each of
them to the one before it, from the first to `before`.
-/

namespace VitaUtility

variable {α : Type}

def DList (nxt prv : α → Option (Option α)) : (before p : Option α) → List α → Prop
  | _, p, [] => p = none
  | before, p, a :: l => p = some a ∧ prv a = some before ∧ ∃ q, nxt a = some q ∧ DList nxt prv (some a) q l

namespace DList
variable {nxt nxt' prv prv' : α → Option (Option α)} {before before' p q : Option α} {a b : α} {l l₁ l₂ : List α}

theorem chain (h : DList nxt prv before p l) : Chain nxt p l := by
  induction l generalizing before p with
  | nil => exact h
  | cons a l ih =>
    obtain ⟨rfl, -, q, hq, h⟩ := h
    exact ⟨rfl, q, hq, ih h⟩

theorem head (h : DList nxt prv before p l) : p = l.head? := by
  cases l with
  | nil => exact h
  | cons a l => exact h.1

/-- The list from one of its cells on. -/
theorem suffix (h : DList nxt prv before p (l₁ ++ l₂)) : DList nxt prv (l₁.getLast?.or before) l₂.head? l₂ := by
  induction l₁ generalizing before p with
  | nil => exact (h.head : p = l₂.head?) ▸ h
  | cons a l₁ ih =>
    obtain ⟨-, -, q, -, h⟩ := h
    have hlast : (a :: l₁).getLast?.or before = l₁.getLast?.or (some a) := by
      cases hl : l₁.getLast? <;> simp [List.getLast?_cons, hl]
    exact hlast ▸ ih h

theorem prv_eq (h : DList nxt prv before p (l₁ ++ a :: l₂)) : prv a = some (l₁.getLast?.or before) := h.suffix.2.1

theorem nxt_eq (h : DList nxt prv before p (l₁ ++ a :: l₂)) : nxt a = some l₂.head? := by
  obtain ⟨-, -, q, hq, h⟩ := h.suffix
  rw [hq, h.head]

/-- The links of one direction are the mirror image of those of the other. -/
theorem mirror (h : DList nxt prv none p l) (ha : a ∈ l) (hb : b ∈ l) :
    nxt a = some (some b) ↔ prv b = some (some a) := by
  constructor
  · intro hab
    obtain ⟨l₁, l₂, rfl⟩ := List.append_of_mem ha
    have hnext := Option.some.inj (h.nxt_eq.symm.trans hab)
    obtain ⟨l₃, rfl⟩ : ∃ l₃, l₂ = b :: l₃ := List.head?_eq_some_iff.1 hnext
    have hsplit : l₁ ++ a :: b :: l₃ = (l₁ ++ [a]) ++ b :: l₃ := by simp
    rw [hsplit] at h
    rw [h.prv_eq]
    simp
  · intro hba
    obtain ⟨l₁, l₂, rfl⟩ := List.append_of_mem hb
    have hprev : l₁.getLast? = some a := by
      have := Option.some.inj (h.prv_eq.symm.trans hba)
      simpa using this
    obtain ⟨l₀, rfl⟩ := List.getLast?_eq_some_iff.1 hprev
    rw [List.append_assoc, List.singleton_append] at h
    rw [h.nxt_eq, List.head?_cons]

/-- Only the first cell has no cell before it. -/
theorem prv_none (h : DList nxt prv none p l) (ha : a ∈ l) : prv a = some none ↔ p = some a := by
  obtain ⟨l₁, l₂, rfl⟩ := List.append_of_mem ha
  have hnd := h.chain.nodup
  rw [h.prv_eq, h.head]
  cases l₁ using List.reverseRecOn with
  | nil => simp
  | append_singleton l₁ b =>
    refine iff_of_false (by simp) fun hhead => ?_
    cases l₁ with
    | nil =>
      obtain rfl : b = a := by simpa using hhead
      simp at hnd
    | cons c l₁ =>
      obtain rfl : c = a := by simpa using hhead
      simp at hnd

theorem congr (h : DList nxt prv before p l) (hn : ∀ a ∈ l, nxt' a = nxt a) (hp : ∀ a ∈ l, prv' a = prv a) :
    DList nxt' prv' before p l := by
  induction l generalizing before p with
  | nil => exact h
  | cons b l ih =>
    obtain ⟨rfl, hb, q, hq, h⟩ := h
    exact ⟨rfl, (hp b (by simp)).trans hb, q, (hn b (by simp)).trans hq,
      ih h (fun a ha => hn a (by simp [ha])) fun a ha => hp a (by simp [ha])⟩

/-- Another cell before the first, or none. -/
theorem change_before [DecidableEq α] (h : DList nxt prv before p l) (hn : ∀ a ∈ l, nxt' a = nxt a)
    (hp : ∀ a ∈ l, prv' a = if l.head? = some a then some before' else prv a) : DList nxt' prv' before' p l := by
  cases l with
  | nil => exact h
  | cons a l =>
    have hnd := h.chain.nodup
    obtain ⟨rfl, -, q, hq, h⟩ := h
    refine ⟨rfl, (hp a (by simp)).trans (if_pos rfl), q, (hn a (by simp)).trans hq, h.congr (fun b hb => hn b (by simp [hb])) ?_⟩
    intro b hb
    refine (hp b (by simp [hb])).trans (if_neg fun hab => ?_)
    obtain rfl : a = b := by simpa using hab
    exact (List.nodup_cons.1 hnd).1 hb

/-- A new first cell. -/
theorem push [DecidableEq α] (h : DList nxt prv none p l) (ha : nxt' a = some p) (hprv : prv' a = some none) (hn : ∀ b ∈ l, nxt' b = nxt b)
    (hp : ∀ b ∈ l, prv' b = if l.head? = some b then some (some a) else prv b) : DList nxt' prv' none (some a) (a :: l) :=
  ⟨rfl, hprv, p, ha, h.change_before hn hp⟩

/-- Unlinking `a`: the cell before it, or the link to the first, is led past it, and so is the cell after it. -/
theorem unlink [DecidableEq α] (h : DList nxt prv before p (l₁ ++ a :: l₂))
    (hn : ∀ b ∈ l₁ ++ l₂, nxt' b = if l₁.getLast? = some b then some l₂.head? else nxt b)
    (hp : ∀ b ∈ l₁ ++ l₂, prv' b = if l₂.head? = some b then some (l₁.getLast?.or before) else prv b) :
    DList nxt' prv' before (l₁ ++ l₂).head? (l₁ ++ l₂) := by
  induction l₁ generalizing before p with
  | nil =>
    obtain ⟨-, -, q, hq, htail⟩ := h
    refine htail.head ▸ htail.change_before (fun b hb => (hn b hb).trans (if_neg (by simp))) hp
  | cons c l₁ ih =>
    have hnd := h.chain.nodup
    rw [List.cons_append, List.nodup_cons] at hnd
    have hne : ∀ b ∈ l₁ ++ l₂, c ≠ b := by
      rintro b hb rfl
      rcases List.mem_append.1 hb with hb | hb <;> simp [hb] at hnd
    have hlast : ∀ b, c ≠ b → ((c :: l₁).getLast? = some b ↔ l₁.getLast? = some b) := by
      intro b hcb
      cases hl : l₁.getLast? <;> simp [List.getLast?_cons, hl, hcb]
    have hor : (c :: l₁).getLast?.or before = l₁.getLast?.or (some c) := by
      cases hl : l₁.getLast? <;> simp [List.getLast?_cons, hl]
    obtain ⟨-, hc, q, hq, htail⟩ := h
    rw [List.cons_append, List.head?_cons]
    refine ⟨rfl, ?_, _, ?_, ih htail (fun b hb => ?_) fun b hb => ?_⟩
    · refine (hp c (by simp)).trans (if_neg fun hhead => ?_) |>.trans hc
      exact hne c (by simp [List.mem_of_head? hhead]) rfl
    · rw [hn c (by simp)]
      cases l₁ with
      | nil => exact if_pos rfl
      | cons d l₁ =>
        have hd : (c :: d :: l₁).getLast? ≠ some c := by
          intro h
          rw [List.getLast?_cons_cons] at h
          exact hne c (List.mem_append_left _ (List.mem_of_getLast? h)) rfl
        rw [if_neg hd, hq, htail.head]
        rfl
    · rw [hn b (by simp at hb ⊢; tauto)]
      simp only [hlast b (hne b hb)]
    · rw [hp b (by simp at hb ⊢; tauto), hor]

end DList

end VitaUtility

import Mathlib.Data.List.Nodup
import Mathlib.Data.Finset.Card

/-!
# Singly linked lists in a store

`Chain nxt p l`: following the partial `next` map `nxt` from the pointer `p` visits exactly the cells
`l` and then ends. The map is partial because a cell may have been freed; a chain only passes
through live cells. `findLink` is the C loop `while(*link != NULL){ ..; link = &(*link)->next; }`,
with the link named by the cell it sits in.
-/

namespace VitaUtility

variable {α ε : Type}

/-- Following `nxt` from `p` visits exactly the cells `l` and ends. -/
def Chain (nxt : α → Option (Option α)) : Option α → List α → Prop
  | p, [] => p = none
  | p, a :: l => p = some a ∧ ∃ q, nxt a = some q ∧ Chain nxt q l

namespace Chain
variable {nxt nxt' : α → Option (Option α)} {p q : Option α} {a b : α} {l l₁ l₂ : List α}

@[simp] theorem nil_iff : Chain nxt p [] ↔ p = none := Iff.rfl

theorem cons_iff : Chain nxt p (a :: l) ↔ p = some a ∧ ∃ q, nxt a = some q ∧ Chain nxt q l := Iff.rfl

theorem none_iff : Chain nxt none l ↔ l = [] := by
  cases l <;> simp [cons_iff]

theorem live (h : Chain nxt p l) (ha : a ∈ l) : ∃ q, nxt a = some q := by
  induction l generalizing p with
  | nil => cases ha
  | cons b l ih =>
    obtain ⟨-, q, hq, h⟩ := h
    rcases List.mem_cons.1 ha with rfl | ha
    · exact ⟨q, hq⟩
    · exact ih h ha

/-- A pointer is the start of at most one chain. -/
theorem unique (h₁ : Chain nxt p l₁) (h₂ : Chain nxt p l₂) : l₁ = l₂ := by
  induction l₁ generalizing p l₂ with
  | nil => rw [nil_iff.1 h₁, none_iff] at h₂; exact h₂.symm
  | cons a l₁ ih =>
    obtain ⟨rfl, q, hq, h₁⟩ := h₁
    cases l₂ with
    | nil => cases h₂
    | cons b l₂ =>
      obtain ⟨hab, q', hq', h₂⟩ := h₂
      obtain rfl := Option.some.inj hab
      obtain rfl := Option.some.inj (hq.symm.trans hq')
      rw [ih h₁ h₂]

/-- The cells after `a` form the chain that starts at its `next`. -/
theorem suffix (h : Chain nxt p (l₁ ++ a :: l₂)) : ∃ q, nxt a = some q ∧ Chain nxt q l₂ := by
  induction l₁ generalizing p with
  | nil => exact h.2
  | cons b l₁ ih =>
    obtain ⟨-, q, -, h⟩ := h
    exact ih h

theorem suffix' (h : Chain nxt p (l₁ ++ a :: l₂)) : Chain nxt (some a) (a :: l₂) :=
  ⟨rfl, h.suffix⟩

/-- A chain ends, so no cell is visited twice. -/
theorem nodup (h : Chain nxt p l) : l.Nodup := by
  rw [List.nodup_iff_sublist]
  intro a ha
  obtain ⟨l₁, l₂, rfl, ha₁, ha₂⟩ := List.cons_sublist_iff.1 ha
  obtain ⟨m₁, m₂, rfl⟩ := List.append_of_mem ha₁
  obtain ⟨n₁, n₂, rfl⟩ := List.append_of_mem (List.singleton_sublist.1 ha₂)
  have h₁ : Chain nxt p (m₁ ++ a :: (m₂ ++ (n₁ ++ a :: n₂))) := by simpa using h
  have h₂ : Chain nxt p ((m₁ ++ a :: (m₂ ++ n₁)) ++ a :: n₂) := by simpa using h
  have := congrArg List.length (h₁.suffix'.unique h₂.suffix')
  simp at this
  omega

theorem congr (h : Chain nxt p l) (hl : ∀ a ∈ l, nxt' a = nxt a) : Chain nxt' p l := by
  induction l generalizing p with
  | nil => exact h
  | cons b l ih =>
    obtain ⟨rfl, q, hq, h⟩ := h
    exact ⟨rfl, q, (hl b (by simp)).trans hq, ih h fun a ha => hl a (by simp [ha])⟩

theorem next_mem (h : Chain nxt p l) (ha : a ∈ l) (hn : nxt a = some (some b)) : b ∈ l := by
  obtain ⟨l₁, l₂, rfl⟩ := List.append_of_mem ha
  obtain ⟨q, hq, h₂⟩ := h.suffix
  obtain rfl := Option.some.inj (hn.symm.trans hq)
  cases l₂ with
  | nil => cases h₂
  | cons c l₂ => obtain rfl := Option.some.inj h₂.1; simp

theorem head_mem (h : Chain nxt (some a) l) : a ∈ l := by
  cases l with
  | nil => cases h
  | cons b l => obtain rfl := Option.some.inj h.1; simp

/-- Linking `a` in front of the chain that starts at its new `next`. -/
theorem push (h : Chain nxt p l) (ha : a ∉ l) (hn : nxt' a = some p)
    (hl : ∀ b, b ≠ a → nxt' b = nxt b) : Chain nxt' (some a) (a :: l) :=
  ⟨rfl, p, hn, h.congr fun b hb => hl b fun e => ha (e ▸ hb)⟩

/-- Unlinking `a`: the link that held it, in the list head or in the cell before it, now holds the
`next` of `a`. -/
theorem unlink (h : Chain nxt p (l₁ ++ a :: l₂)) (hq : nxt a = some q)
    (hlast : ∀ b, l₁.getLast? = some b → nxt' b = some q)
    (hl : ∀ b ∈ l₁ ++ l₂, l₁.getLast? ≠ some b → nxt' b = nxt b) :
    Chain nxt' (if l₁ = [] then q else p) (l₁ ++ l₂) := by
  induction l₁ generalizing p with
  | nil =>
    obtain ⟨q', hq', h⟩ := h.suffix
    obtain rfl := Option.some.inj (hq.symm.trans hq')
    exact h.congr fun b hb => hl b hb (by simp)
  | cons c l₁ ih =>
    have hnd := h.nodup
    obtain ⟨rfl, q', hq', h⟩ := h
    cases l₁ with
    | nil =>
      obtain ⟨-, q'', hq'', h⟩ := cons_iff.1 h
      obtain rfl := Option.some.inj (hq.symm.trans hq'')
      refine ⟨rfl, q, hlast c rfl, h.congr fun b hb => hl b (by simp [hb]) ?_⟩
      rintro hcb
      obtain rfl : c = b := by simpa using hcb
      simp [hb] at hnd
    | cons d l₁ =>
      have hc : (c :: d :: l₁).getLast? ≠ some c := by
        intro hc
        have : c ∈ d :: l₁ := List.mem_of_getLast? (by simpa [List.getLast?_cons_cons] using hc)
        simp only [List.cons_append, List.nodup_cons] at hnd
        exact hnd.1 (by simpa [or_assoc] using Or.inl this)
      refine ⟨rfl, q', (hl c (by simp) hc).trans hq', ?_⟩
      have := ih h (fun b hb => hlast b (by simpa [List.getLast?_cons_cons] using hb))
        fun b hb hne => hl b (by simp at hb ⊢; tauto) (by simpa [List.getLast?_cons_cons] using hne)
      simpa using this

theorem length_le [DecidableEq α] {s : Finset α} (h : Chain nxt p l) (hs : ∀ a ∈ l, a ∈ s) :
    l.length ≤ s.card := by
  rw [← List.toFinset_card_of_nodup h.nodup]
  exact Finset.card_le_card fun a ha => hs a (List.mem_toFinset.1 ha)

end Chain

/-- The loop over `*link`: the cell before the first hit (`none`: the link is the list head `pred`
started from) and the hit. `peek` reads a cell, or faults; `hang` is what a loop does that is still
running after `n` cells. -/
def findLink (peek : α → Except ε (Bool × Option α)) (hang : ε) :
    Nat → Option α → Option α → Except ε (Option (Option α × α))
  | _, _, none => .ok none
  | 0, _, some _ => .error hang
  | n + 1, pred, some a =>
    match peek a with
    | .error e => .error e
    | .ok (hit, q) => if hit then .ok (some (pred, a)) else findLink peek hang n (some a) q

/-- What `findLink` finds on a chain. -/
def linkOf (hit : α → Bool) : Option α → List α → Option (Option α × α)
  | _, [] => none
  | pred, a :: l => if hit a then some (pred, a) else linkOf hit (some a) l

section
variable {nxt : α → Option (Option α)} {peek : α → Except ε (Bool × Option α)} {hang : ε}
  {hit : α → Bool} {p pred : Option α} {l l₁ l₂ : List α} {a : α} {n : Nat}

theorem findLink_chain (h : Chain nxt p l)
    (hp : ∀ a ∈ l, ∀ q, nxt a = some q → peek a = .ok (hit a, q)) (hn : l.length ≤ n) :
    findLink peek hang n pred p = .ok (linkOf hit pred l) := by
  induction l generalizing p pred n with
  | nil => rw [Chain.nil_iff.1 h]; cases n <;> rfl
  | cons a l ih =>
    obtain ⟨rfl, q, hq, h⟩ := h
    obtain ⟨n, rfl⟩ : ∃ m, n = m + 1 := ⟨n - 1, by simp at hn; omega⟩
    simp only [findLink, hp a (by simp) q hq, linkOf]
    split
    · rfl
    · exact ih h (fun b hb => hp b (by simp [hb])) (by simpa using hn)

theorem linkOf_snd : (linkOf hit pred l).map Prod.snd = l.find? hit := by
  induction l generalizing pred with
  | nil => rfl
  | cons a l ih =>
    rw [linkOf, List.find?_cons]
    cases hit a
    · exact ih
    · rfl

/-- The loop stops at the first hit; of the cells after it nothing is asked. -/
theorem findLink_first (h : Chain nxt p (l₁ ++ a :: l₂))
    (hl : ∀ b ∈ l₁, ∀ q, nxt b = some q → peek b = .ok (false, q))
    (ha : ∀ q, nxt a = some q → peek a = .ok (true, q)) (hn : l₁.length < n) :
    ∃ q, findLink peek hang n pred p = .ok (some (q, a)) := by
  induction l₁ generalizing p pred n with
  | nil =>
    obtain ⟨rfl, q, hq, -⟩ := h
    obtain ⟨n, rfl⟩ : ∃ m, n = m + 1 := ⟨n - 1, by simp at hn; omega⟩
    exact ⟨pred, by simp [findLink, ha q hq]⟩
  | cons b l₁ ih =>
    obtain ⟨rfl, q, hq, h⟩ := h
    obtain ⟨n, rfl⟩ : ∃ m, n = m + 1 := ⟨n - 1, by simp at hn; omega⟩
    obtain ⟨r, hr⟩ : ∃ r, findLink peek hang n (some b) q = .ok (some (r, a)) :=
      ih h (fun c hc => hl c (List.mem_cons_of_mem _ hc)) (by simpa using hn)
    refine ⟨r, ?_⟩
    simpa [findLink, hl b (by simp) q hq] using hr

/-- A walk that ends has looked at its first cell. -/
theorem findLink_peek {y : Option (Option α × α)} (h : findLink peek hang n pred (some a) = .ok y) :
    ∃ z, peek a = .ok z := by
  cases n with
  | zero => cases h
  | succ n =>
    unfold findLink at h
    split at h
    · cases h
    · exact ⟨_, ‹_›⟩

theorem findLink_hit {q : Option α} (h : findLink peek hang n pred p = .ok (some (q, a))) :
    ∃ r, peek a = .ok (true, r) := by
  induction n generalizing pred p with
  | zero => cases p <;> cases h
  | succ n ih =>
    cases p with
    | none => cases h
    | some b =>
      unfold findLink at h
      split at h
      · cases h
      rename_i hit r hb
      split at h
      · rename_i hhit
        cases h
        exact ⟨r, by rw [hb, hhit]⟩
      · exact ih h

/-- The loop does not leave the chain. -/
theorem findLink_mem {q : Option α} (h : Chain nxt p l) (hp : ∀ b hit r, peek b = .ok (hit, r) → nxt b = some r)
    (hf : findLink peek hang n pred p = .ok (some (q, a))) : a ∈ l := by
  induction l generalizing p pred n with
  | nil =>
    rw [Chain.nil_iff.1 h] at hf
    cases n <;> cases hf
  | cons b l ih =>
    obtain ⟨rfl, r, hr, h⟩ := h
    cases n with
    | zero => cases hf
    | succ n =>
      unfold findLink at hf
      split at hf
      · cases hf
      rename_i hit r' hb
      obtain rfl := Option.some.inj (hr.symm.trans (hp b hit r' hb))
      split at hf
      · cases hf
        exact List.mem_cons_self
      · exact List.mem_cons_of_mem _ (ih h hf)

theorem linkOf_eq_none : linkOf hit pred l = none ↔ ∀ a ∈ l, hit a = false := by
  induction l generalizing pred with
  | nil => simp [linkOf]
  | cons b l ih =>
    cases hb : hit b <;> simp [linkOf, hb, ih]

theorem linkOf_eq_some {q : Option α} : linkOf hit pred l = some (q, a) ↔
    ∃ l₁ l₂, l = l₁ ++ a :: l₂ ∧ (∀ b ∈ l₁, hit b = false) ∧ hit a = true ∧ q = l₁.getLast?.or pred := by
  induction l generalizing pred with
  | nil => simp [linkOf]
  | cons b l ih =>
    cases hb : hit b
    · simp only [linkOf, hb, Bool.false_eq_true, ↓reduceIte, ih]
      constructor
      · rintro ⟨l₁, l₂, rfl, h₁, ha, rfl⟩
        refine ⟨b :: l₁, l₂, rfl, by simpa [hb] using h₁, ha, ?_⟩
        cases h : l₁.getLast? <;> simp [List.getLast?_cons, h]
      · rintro ⟨l₁, l₂, hl, h₁, ha, rfl⟩
        cases l₁ with
        | nil =>
          obtain ⟨rfl, -⟩ := List.cons.inj hl
          rw [hb] at ha; cases ha
        | cons c l₁ =>
          obtain ⟨rfl, rfl⟩ := List.cons.inj hl
          refine ⟨l₁, l₂, rfl, fun d hd => h₁ d (by simp [hd]), ha, ?_⟩
          cases h : l₁.getLast? <;> simp [List.getLast?_cons, h]
    · simp only [linkOf, hb, ↓reduceIte, Option.some.injEq, Prod.mk.injEq]
      constructor
      · rintro ⟨rfl, rfl⟩
        exact ⟨[], l, rfl, by simp, hb, by simp⟩
      · rintro ⟨l₁, l₂, hl, h₁, ha, rfl⟩
        cases l₁ with
        | nil => obtain ⟨rfl, -⟩ := List.cons.inj hl; simp
        | cons c l₁ =>
          obtain ⟨rfl, -⟩ := List.cons.inj hl
          have := h₁ b (by simp); rw [hb] at this; cases this

end

/-! ### Walking a list -/

theorem ok_bind {ε α β : Type} (a : α) (f : α → Except ε β) : (Except.ok a >>= f) = f a := rfl

theorem bind_eq_ok {ε α β : Type} {x : Except ε α} {f : α → Except ε β} {b : β} :
    (x >>= f) = .ok b ↔ ∃ a, x = .ok a ∧ f a = .ok b := by
  cases x <;> simp [bind, Except.bind]

section
variable {β : Type} {round : α → Except ε (β × Option α)} {p q : Option α} {a : α} {b : β} {l : List α} {n m : Nat}
  {out : List β}

/-- `while(p != NULL){ ..; p = p->next; }` for at most `n` rounds, with a round that may fail; `none` when the rounds
were not enough. -/
def walkList (round : α → Except ε (β × Option α)) : Nat → Option α → Option (Except ε (List β))
  | _, none => some (.ok [])
  | 0, some _ => none
  | n + 1, some a =>
    match round a with
    | .error e => some (.error e)
    | .ok (b, q) => (walkList round n q).map (Except.map (b :: ·))

/-- Where a round goes to. -/
def roundNext (round : α → Except ε (β × Option α)) (a : α) : Option (Option α) :=
  match round a with
  | .error _ => none
  | .ok (_, q) => some q

theorem roundNext_eq_some : roundNext round a = some q ↔ ∃ b, round a = .ok (b, q) := by
  unfold roundNext
  rcases round a with e | ⟨b, q'⟩ <;> simp

theorem walkList_ok (h : Chain (roundNext round) p l) : ∃ out, walkList round l.length p = some (.ok out) := by
  induction l generalizing p with
  | nil =>
    obtain rfl := Chain.nil_iff.1 h
    exact ⟨[], rfl⟩
  | cons a l ih =>
    obtain ⟨rfl, q, hq, h⟩ := h
    obtain ⟨b, hround⟩ := roundNext_eq_some.1 hq
    obtain ⟨out, hout⟩ := ih h
    exact ⟨b :: out, by simp [walkList, hround, hout, Except.map]⟩

/-- A walk that has come to the end did so at once, or after a first round. -/
theorem walkList_cases (h : walkList round n p = some (.ok out)) : (p = none ∧ out = []) ∨
    ∃ m a b q rest, n = m + 1 ∧ p = some a ∧ round a = .ok (b, q) ∧ walkList round m q = some (.ok rest) ∧
      out = b :: rest := by
  cases p with
  | none =>
    cases n <;> cases h <;> exact .inl ⟨rfl, rfl⟩
  | some a =>
    cases n with
    | zero => cases h
    | succ m =>
      rw [walkList] at h
      rcases hround : round a with e | ⟨b, q⟩
      · simp [hround] at h
      · simp only [hround, Option.map_eq_some_iff] at h
        obtain ⟨r | rest, hr, heq⟩ := h
        · cases heq
        · cases heq
          exact .inr ⟨m, a, b, q, rest, rfl, rfl, hround, hr, rfl⟩

theorem chain_of_walkList (h : walkList round n p = some (.ok out)) : ∃ l, Chain (roundNext round) p l := by
  induction n generalizing p out with
  | zero =>
    obtain ⟨rfl, rfl⟩ | ⟨m, a, b, q, rest, hn, -⟩ := walkList_cases h
    · exact ⟨[], rfl⟩
    · cases hn
  | succ n ih =>
    obtain ⟨rfl, rfl⟩ | ⟨m, a, b, q, rest, hn, rfl, hround, hrest, rfl⟩ := walkList_cases h
    · exact ⟨[], rfl⟩
    · cases hn
      obtain ⟨l, hl⟩ := ih hrest
      exact ⟨a :: l, rfl, q, roundNext_eq_some.2 ⟨b, hround⟩, hl⟩

/-- What a walk gives is what its rounds give. -/
theorem round_of_mem_walkList (h : walkList round n p = some (.ok out)) (hb : b ∈ out) :
    ∃ a q, round a = .ok (b, q) := by
  induction n generalizing p out with
  | zero =>
    obtain ⟨rfl, rfl⟩ | ⟨m, a, b, q, rest, hn, -⟩ := walkList_cases h
    · cases hb
    · cases hn
  | succ n ih =>
    obtain ⟨rfl, rfl⟩ | ⟨m, a, b', q, rest, hn, rfl, hround, hrest, rfl⟩ := walkList_cases h
    · cases hb
    · cases hn
      rcases List.mem_cons.1 hb with rfl | hb
      · exact ⟨a, q, hround⟩
      · exact ih hrest hb

/-- From `p` on there are cells with the values `out`; `R a q b` says that `a` has the value `b` and is followed by `q`. -/
def Lists (R : α → Option α → β → Prop) : Option α → List β → Prop
  | p, [] => p = none
  | p, b :: out => ∃ a q, p = some a ∧ R a q b ∧ Lists R q out

theorem Lists.congr {R R' : α → Option α → β → Prop} (h : ∀ a q b, R a q b ↔ R' a q b) :
    Lists R p out ↔ Lists R' p out := by
  induction out generalizing p with
  | nil => rfl
  | cons b out ih => simp only [Lists, h, ih]

/-- Values that are made of others. -/
theorem lists_map {γ : Type} {R : α → Option α → γ → Prop} {f : γ → β} :
    Lists (fun a q b => ∃ c, b = f c ∧ R a q c) p out ↔ ∃ l, out = l.map f ∧ Lists R p l := by
  induction out generalizing p with
  | nil =>
    constructor
    · intro h
      exact ⟨[], rfl, h⟩
    · rintro ⟨l, hl, h⟩
      obtain rfl := List.map_eq_nil_iff.1 hl.symm
      exact h
  | cons b out ih =>
    constructor
    · rintro ⟨a, q, hp, ⟨c, hb, hc⟩, h⟩
      obtain ⟨l, hl, h⟩ := ih.1 h
      exact ⟨c :: l, by rw [hb, hl, List.map_cons], a, q, hp, hc, h⟩
    · rintro ⟨l, hl, h⟩
      cases l with
      | nil => cases hl
      | cons c l =>
        obtain ⟨rfl, rfl⟩ := List.cons.inj hl
        obtain ⟨a, q, hp, hc, h⟩ := h
        exact ⟨a, q, hp, ⟨c, rfl, hc⟩, ih.2 ⟨l, rfl, h⟩⟩

/-- A walk gives the values of the cells, if it has rounds enough. -/
theorem walkList_eq_ok_iff : walkList round n p = some (.ok out) ↔
    Lists (fun a q b => round a = .ok (b, q)) p out ∧ out.length ≤ n := by
  induction out generalizing n p with
  | nil =>
    constructor
    · intro h
      obtain ⟨hp, -⟩ | ⟨m, a, b, q, rest, -, -, -, -, hout⟩ := walkList_cases h
      · exact ⟨hp, Nat.zero_le n⟩
      · cases hout
    · rintro ⟨rfl, -⟩
      cases n <;> rfl
  | cons b out ih =>
    constructor
    · intro h
      obtain ⟨-, hout⟩ | ⟨m, a, b, q, rest, rfl, rfl, hround, hrest, hout⟩ := walkList_cases h
      · cases hout
      · cases hout
        obtain ⟨hlists, hn⟩ := ih.1 hrest
        exact ⟨⟨a, q, rfl, hround, hlists⟩, Nat.succ_le_succ hn⟩
    · rintro ⟨⟨a, q, rfl, hround, hlists⟩, hn⟩
      obtain ⟨n, rfl⟩ := Nat.exists_eq_add_one_of_ne_zero (Nat.ne_zero_of_lt hn)
      have hrest := ih.2 ⟨hlists, Nat.le_of_succ_le_succ hn⟩
      rw [walkList, hround]
      dsimp only
      rw [hrest]
      rfl

/-- A walk comes to the end exactly when the rounds follow a chain. -/
theorem walkList_ends_iff : (∃ n out, walkList round n p = some (.ok out)) ↔ ∃ l, Chain (roundNext round) p l := by
  constructor
  · rintro ⟨n, out, h⟩
    exact chain_of_walkList h
  · rintro ⟨l, hl⟩
    obtain ⟨out, h⟩ := walkList_ok hl
    exact ⟨l.length, out, h⟩

end

end VitaUtility

import VitaUtility.Lib.Memory

/-!
# `__swap_data32` of `act_verifier` and `np_act_verifier`

The function turns a number from big-endian bytes to little-endian words or back: it reverses the bytes. Source and
destination lie in one memory; they may be the same buffer.
-/

namespace VitaUtility

/-- `src[k]`, swapped -/
def swappedWord (m : Mem) (src k : Nat) : UInt32 := bswap32 (load32 m (src + 4 * k))

/-- The first `n` rounds of the loop; a buffer has `words` words. -/
def swapLoop (dst src words : Nat) (m : Mem) : (n : Nat) → Mem
  | 0 => m
  | i + 1 =>
    let m := swapLoop dst src words m i
    let val := swappedWord m src (words - i - 1)
    let m' := store32 m (dst + 4 * (words - i - 1)) (swappedWord m src i)
    store32 m' (dst + 4 * i) val

/-- The text of `__swap_data32` in both programs. -/
def swapData32Body (dst src : Nat) (len : UInt32) (m : Mem) : Int × Mem :=
  let s1 := len &&& 4 ≠ 0
  let m := swapLoop dst src (len >>> 2).toNat m (len >>> 3).toNat
  let m := if s1 then store32 m (dst + 4 * (len >>> 3).toNat) (swappedWord m src (len >>> 3).toNat) else m
  (0, m)

def ActVerifier.swapData32 : Nat → Nat → UInt32 → Mem → Int × Mem := swapData32Body

def NpActVerifier.swapData32 : Nat → Nat → UInt32 → Mem → Int × Mem := swapData32Body

section
variable {dst src words n k i j b : Nat} {m : Mem} {len : UInt32}

/-- The two buffers are one, or do not overlap. -/
def SameOrDisjoint (dst src len : Nat) : Prop := dst = src ∨ dst + len ≤ src ∨ src + len ≤ dst

theorem byteOf_swappedWord (hi : i < 4) : byteOf (swappedWord m src k) i = m (src + 4 * k + (3 - i)) := by
  rw [swappedWord, byteOf_bswap32 hi, byteOf_load32 (by omega)]

/-- `m'` has the bytes `j` of `dst` with `done j` from the other end of `src`, and is `m` elsewhere. -/
structure Reversed (dst src len : Nat) (done : Nat → Prop) (m m' : Mem) : Prop where
  inside : ∀ j < len, done j → m' (dst + j) = m (src + (len - 1 - j))
  outside : ∀ b, (∀ j < len, done j → b ≠ dst + j) → m' b = m b

namespace Reversed
variable {done done' : Nat → Prop} {m' : Mem} {L : Nat}

/-- What is not done yet is still to be read from `src`. -/
theorem source (h : Reversed dst src L done m m') (hsd : SameOrDisjoint dst src L) (hi : i < L) (hd : ¬ done i) :
    m' (src + i) = m (src + i) := by
  refine h.outside _ fun j hj hdj he => ?_
  rcases hsd with rfl | hsd
  · obtain rfl : i = j := by omega
    exact hd hdj
  · omega

/-- The word `k` of `src` is swapped into the word `words - k - 1` of `dst`. -/
theorem store (h : Reversed dst src (4 * words) done m m') {v : UInt32} (hk : k < words)
    (hv : ∀ i < 4, byteOf v i = m (src + 4 * k + (3 - i)))
    (hdone : ∀ j, done' j ↔ done j ∨ (4 * (words - k - 1) ≤ j ∧ j < 4 * (words - k - 1) + 4)) :
    Reversed dst src (4 * words) done' m (store32 m' (dst + 4 * (words - k - 1)) v) := by
  refine ⟨fun j hj hd => ?_, fun b hb => ?_⟩
  · by_cases hin : 4 * (words - k - 1) ≤ j ∧ j < 4 * (words - k - 1) + 4
    · have hj' : dst + j = dst + 4 * (words - k - 1) + (j - 4 * (words - k - 1)) := by omega
      rw [hj', store32_self (by omega), hv _ (by omega)]
      congr 1
      omega
    · rw [store32_of_disjoint (by omega)]
      exact h.inside j hj (((hdone j).1 hd).resolve_right hin)
  · by_cases hin : 4 * (words - k - 1) ≤ b - dst ∧ b - dst < 4 * (words - k - 1) + 4 ∧ dst ≤ b
    · exact absurd (by omega) (hb (b - dst) (by omega) ((hdone _).2 (.inr (by omega))))
    · rw [store32_of_disjoint (by omega)]
      exact h.outside b fun j hj hd => hb j hj ((hdone j).2 (.inl hd))

end Reversed

/-- After `n` rounds the `n` words at each end are done. -/
theorem swapLoop_reversed (hsd : SameOrDisjoint dst src (4 * words)) (hn : 2 * n ≤ words) :
    Reversed dst src (4 * words) (fun j => j < 4 * n ∨ 4 * (words - n) ≤ j) m (swapLoop dst src words m n) := by
  induction n with
  | zero => exact ⟨fun j hj hd => by omega, fun _ _ => rfl⟩
  | succ i ih =>
    have h := ih (by omega)
    have hv : ∀ k, k = i ∨ k = words - i - 1 → ∀ c < 4,
        byteOf (swappedWord (swapLoop dst src words m i) src k) c = m (src + 4 * k + (3 - c)) := by
      intro k hk c hc
      rw [byteOf_swappedWord hc, Nat.add_assoc]
      exact h.source hsd (by omega) (by omega)
    rw [swapLoop]
    have h₁ := h.store (k := i) (by omega) (hv i (.inl rfl)) fun j => Iff.rfl
    have h₂ := h₁.store (k := words - i - 1) (by omega) (hv _ (.inr rfl)) fun j => Iff.rfl
    rw [show words - (words - i - 1) - 1 = i by omega] at h₂
    refine ⟨fun j hj hd => h₂.inside j hj (by omega), fun b hb => h₂.outside b fun j hj hd => hb j hj (by omega)⟩

/-- In the middle of an odd number of words one is left. -/
theorem swapData32Body_reversed (h4 : len.toNat % 4 = 0) (hsd : SameOrDisjoint dst src len.toNat) :
    (swapData32Body dst src len m).1 = 0 ∧
      Reversed dst src len.toNat (fun _ => True) m (swapData32Body dst src len m).2 := by
  refine ⟨rfl, ?_⟩
  have hwords : (len >>> 2).toNat = len.toNat / 4 := by
    rw [UInt32.toNat_shiftRight]
    exact Nat.shiftRight_eq_div_pow _ 2
  have hrounds : (len >>> 3).toNat = len.toNat / 8 := by
    rw [UInt32.toNat_shiftRight]
    exact Nat.shiftRight_eq_div_pow _ 3
  have hodd : len &&& 4 ≠ 0 ↔ len.toNat / 4 % 2 = 1 := by
    have hand : (len &&& 4).toBitVec = if len.toNat.testBit 2 then 4 else 0 := BitVec.and_twoPow len.toBitVec 2
    have hbit : len.toNat.testBit 2 = decide (len.toNat / 4 % 2 = 1) := Nat.testBit_eq_decide_div_mod_eq
    rw [ne_eq, ← UInt32.toBitVec_inj, hand, hbit]
    by_cases h : len.toNat / 4 % 2 = 1
    · rw [decide_eq_true h, if_pos rfl]
      exact iff_of_true (by decide) h
    · rw [decide_eq_false h, if_neg Bool.false_ne_true]
      exact iff_of_false (by decide) h
  obtain ⟨words, hlen⟩ : ∃ words, len.toNat = 4 * words := ⟨len.toNat / 4, by omega⟩
  rw [hlen] at hsd ⊢
  have h : Reversed dst src (4 * words) _ m (swapLoop dst src words m (len.toNat / 8)) :=
    swapLoop_reversed hsd (by omega)
  unfold swapData32Body
  dsimp only
  rw [hwords, hrounds, show len.toNat / 4 = words by omega]
  by_cases hs : len &&& 4 ≠ 0
  · rw [if_pos hs]
    have := hodd.1 hs
    have hmid := h.store (k := len.toNat / 8) (v := swappedWord (swapLoop dst src words m (len.toNat / 8)) src
      (len.toNat / 8)) (by omega) (fun c hc => ?_) fun j => Iff.rfl
    · rw [show words - len.toNat / 8 - 1 = len.toNat / 8 by omega] at hmid
      exact ⟨fun j hj _ => hmid.inside j hj (by omega), fun b hb => hmid.outside b fun j hj _ => hb j hj trivial⟩
    · rw [byteOf_swappedWord hc, Nat.add_assoc]
      exact h.source hsd (by omega) (by omega)
  · rw [if_neg hs]
    have : ¬ len.toNat / 4 % 2 = 1 := fun h => hs (hodd.2 h)
    exact ⟨fun j hj _ => h.inside j hj (by omega), fun b hb => h.outside b fun j hj _ => hb j hj trivial⟩

end

/-- Both programs reverse the bytes of the buffer and write nothing else; in place, twice is not at all. -/
theorem swapData32_reverses (f : Nat → Nat → UInt32 → Mem → Int × Mem)
    (hf : f = ActVerifier.swapData32 ∨ f = NpActVerifier.swapData32) (dst src : Nat) (len : UInt32) (m : Mem)
    (h4 : len.toNat % 4 = 0) (hsd : SameOrDisjoint dst src len.toNat) :
    (∀ j < len.toNat, (f dst src len m).2 (dst + j) = m (src + (len.toNat - 1 - j))) ∧
    (∀ b, b < dst ∨ dst + len.toNat ≤ b → (f dst src len m).2 b = m b) ∧
    (f dst dst len (f dst dst len m).2).2 = m := by
  obtain rfl : f = swapData32Body := hf.elim id id
  obtain ⟨-, h⟩ := swapData32Body_reversed (m := m) h4 hsd
  refine ⟨fun j hj => h.inside j hj trivial, fun b hb => h.outside b fun j hj _ he => by omega, ?_⟩
  obtain ⟨-, h₁⟩ := swapData32Body_reversed (m := m) h4 (.inl rfl : SameOrDisjoint dst dst len.toNat)
  obtain ⟨-, h₂⟩ := swapData32Body_reversed (m := (swapData32Body dst dst len m).2) h4
    (.inl rfl : SameOrDisjoint dst dst len.toNat)
  funext b
  by_cases hb : dst ≤ b ∧ b < dst + len.toNat
  · obtain ⟨j, rfl⟩ := Nat.exists_eq_add_of_le hb.1
    rw [h₂.inside j (by omega) trivial, h₁.inside _ (by omega) trivial]
    congr 1
    omega
  · rw [h₂.outside b fun j hj _ he => by omega, h₁.outside b fun j hj _ he => by omega]

theorem swapData32_reverses_threeWords :
    (ActVerifier.swapData32 8 8 12 (fun b => UInt8.ofNat b)).2 9 = 18 ∧
    (ActVerifier.swapData32 8 8 12 (fun b => UInt8.ofNat b)).2 20 = 20 := by
  obtain ⟨hin, hout, -⟩ := swapData32_reverses ActVerifier.swapData32 (.inl rfl) 8 8 12 (fun b => UInt8.ofNat b)
    (by decide) (.inl rfl)
  exact ⟨hin 1 (by decide), hout 20 (.inr (by decide))⟩

end VitaUtility

import VitaUtility.Dmass.Resize

/-!
# `vop_lseek` over all 64-bit values

The sum of base and argument is taken modulo `2 ^ 64` before it is compared with the size of the file. A sum
that wraps comes out negative, so it is refused, and so is the sum that was meant: it is past every size.
-/

namespace VitaUtility.Dmass
open VfsState

variable {s : VfsState} {v : NodePtr} {h : FilePtr} {n : SceVfsNode}

/-- What `where` counts from: the start of the file, the offset of the handle, or the end. -/
def seekBase (where_ offset size : Int) : Option Int :=
  if where_ = SCE_SEEK_SET then some 0
  else if where_ = SCE_SEEK_CUR then some offset
  else if where_ = SCE_SEEK_END then some size
  else none

/-- The offset that `vop_lseek` computes for the base `b`: the sum, or both are outside the file. -/
def SeeksTo (t b : Int) (arg size : Int64) : Prop :=
  t = b + arg.toInt ∨ (t < 0 ∧ size.toInt < b + arg.toInt)

theorem vopLseek_base {arg offset size : Int64} {b w : Int} (hn : s.vnodes.lookup v = some n) (hsize : n.stSize = size.toInt)
    (hoff : (s.files h).offset = offset.toInt) (h0 : 0 ≤ size.toInt) (ho : 0 ≤ offset.toInt)
    (hb : seekBase w offset.toInt size.toInt = some b) :
    ∃ t, SeeksTo t b arg size ∧ vopLseek ⟨v, h, arg, w⟩ s = if t > size.toInt ∨ t < 0 then
      .ok (sceError 0x80010016, s) else .ok (t, s.setOffset h t) := by
  have hpast := size.toInt_lt
  unfold seekBase at hb
  unfold vopLseek
  simp only [node_eq_ok.2 hn, ok_bind, hsize, hoff]
  split at hb
  · cases hb
    exact ⟨arg.toInt, .inl (Int.zero_add _).symm, by rw [if_pos ‹_›]; rfl⟩
  split at hb
  · cases hb
    refine ⟨_, (bmod_add_cases ho offset.toInt_lt arg).imp_right fun h => ⟨h.1, hpast.trans_le h.2⟩, ?_⟩
    rw [if_neg ‹_›, if_pos ‹_›]
    rfl
  split at hb
  · cases hb
    refine ⟨_, (bmod_add_cases h0 size.toInt_lt arg).imp_right fun h => ⟨h.1, hpast.trans_le h.2⟩, ?_⟩
    rw [if_neg ‹_›, if_neg ‹_›, if_pos ‹_›]
    rfl
  · cases hb

theorem vopLseek_noBase {arg : Int64} {offset size w : Int} (hn : s.vnodes.lookup v = some n)
    (hb : seekBase w offset size = none) : vopLseek ⟨v, h, arg, w⟩ s = .ok (sceError 0x80010016, s) := by
  unfold seekBase at hb
  unfold vopLseek
  simp only [node_eq_ok.2 hn, ok_bind]
  split at hb
  · cases hb
  split at hb
  · cases hb
  split at hb
  · cases hb
  rw [if_neg ‹_›, if_neg ‹_›, if_neg ‹_›]
  rfl

/-- `vop_lseek` goes to the sum of base and argument exactly when that is inside the file. -/
theorem lseek_exact (arg : Int64) (w : Int) {offset size : Int64} (hn : s.vnodes.lookup v = some n)
    (hsize : n.stSize = size.toInt) (hoff : (s.files h).offset = offset.toInt)
    (h0 : 0 ≤ size.toInt) (ho : 0 ≤ offset.toInt) :
    (∀ b, seekBase w offset.toInt size.toInt = some b → 0 ≤ b + arg.toInt →
      b + arg.toInt ≤ size.toInt → vopLseek ⟨v, h, arg, w⟩ s =
        .ok (b + arg.toInt, s.setOffset h (b + arg.toInt))) ∧
    ((∀ b, seekBase w offset.toInt size.toInt = some b →
      ¬ (0 ≤ b + arg.toInt ∧ b + arg.toInt ≤ size.toInt)) →
        ∃ r < 0, vopLseek ⟨v, h, arg, w⟩ s = .ok (r, s)) := by
  constructor
  · intro b hb hlo hhi
    obtain ⟨t, rfl | ⟨-, hpast⟩, heq⟩ := vopLseek_base hn hsize hoff h0 ho hb
    · rw [heq, if_neg (by omega)]
    · omega
  · intro hout
    refine ⟨sceError 0x80010016, by decide, ?_⟩
    cases hb : seekBase w offset.toInt size.toInt with
    | none => exact vopLseek_noBase hn hb
    | some b =>
      have := hout b hb
      obtain ⟨t, rfl | ⟨hneg, -⟩, heq⟩ := vopLseek_base hn hsize hoff h0 ho hb
      · rw [heq, if_pos (by omega)]
      · rw [heq, if_pos (.inr hneg)]

/-- From offset 2 of two bytes: back by one, and forward by so much that the sum wraps. -/
theorem lseek_exact_twoBytes : vopLseek ⟨1, 7, -1, SCE_SEEK_CUR⟩ twoBytes = .ok (1, twoBytes.setOffset 7 1) ∧
    ∃ r < 0, vopLseek ⟨1, 7, Int64.maxValue, SCE_SEEK_CUR⟩ twoBytes = .ok (r, twoBytes) := by
  obtain ⟨n, hn, hsize⟩ : ∃ n, twoBytes.vnodes.lookup 1 = some n ∧ n.stSize = (2 : Int64).toInt := by
    refine ⟨(twoBytes.vnodes.lookup 1).get (by decide +kernel), (Option.some_get _).symm, by decide +kernel⟩
  have hoff : (twoBytes.files 7).offset = (2 : Int64).toInt := by decide +kernel
  have h2 : 0 ≤ (2 : Int64).toInt := by decide
  constructor
  · exact (lseek_exact (-1) SCE_SEEK_CUR hn hsize hoff h2 h2).1 2 rfl (by decide) (by decide)
  · refine (lseek_exact Int64.maxValue SCE_SEEK_CUR hn hsize hoff h2 h2).2 fun b hb => ?_
    obtain rfl : (2 : Int64).toInt = b := Option.some.inj hb
    decide +kernel

end VitaUtility.Dmass

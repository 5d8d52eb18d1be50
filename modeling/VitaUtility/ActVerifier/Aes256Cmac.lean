import Mathlib.Logic.Function.Basic
import VitaUtility.Lib.BigEndian
import VitaUtility.Lib.Cmac

/-!
# `aes256cmac.c` of `act_verifier`

`E` is what `ksceAesEncrypt1` does to a block under the key. A local array holds what its memory held before until
it is written: `stack i` is the memory of the `i`-th array.
-/

namespace VitaUtility.ActVerifier

/-- The 16 bytes of a block, the first one highest. -/
abbrev Block := BitVec (8 * 16)

/-- `ksceAesEncrypt1(ctx, src, dst)` -/
def ksceAesEncrypt1 (E : Block → Block) (src dst : Mem) : Mem :=
  fun i => if i < 0x10 then beByte 16 (E (beBits 16 src)) i else dst i

/-- `subkey_base` -/
def subkeyBase : Mem := fun i => if i = 0xF then 0x87 else 0

/-- The loop of the shift; it has come down to `i`. -/
def shiftLOneLoop (src : Mem) : (i : Nat) → (carry : UInt8) → (dst : Mem) → Mem
  | 0, _, dst => dst
  | i + 1, carry, dst =>
    let val := src i
    shiftLOneLoop src i (val >>> 7 &&& 1) (Function.update dst i (val <<< 1 ||| carry))

def actVerifierAes256cmacShiftLOne (src dst : Mem) : Mem := shiftLOneLoop src 0x10 0 dst

/-- The word `k` of the exclusive or. -/
def xorWord (a b : Mem) (k : Nat) (out : Mem) : Mem := store32 out (4 * k) (load32 a (4 * k) ^^^ load32 b (4 * k))

/-- A word is read before it is written, so `out` may be `a` or `b`. -/
def actVerifierAes256cmacXor (a b out : Mem) : Mem :=
  let out := xorWord a b 0 out
  let out := xorWord a b 1 out
  let out := xorWord a b 2 out
  xorWord a b 3 out

def actVerifierAes256cmacPadding (src pad : Mem) (length : UInt32) : Mem :=
  let pad := memcpy pad src length.toNat
  let pad := Function.update pad length.toNat 0x80
  memset pad (length.toNat + 1) 0 (0xF - length).toNat

/-- The subkeys, which are written to `subkey1` and `subkey2`. -/
def actVerifierAes256cmacGenSubKey (E : Block → Block) (tmp subkey1 subkey2 : Mem) : Mem × Mem :=
  let tmp := memset tmp 0 0 0x10
  let tmp := ksceAesEncrypt1 E tmp tmp
  let subkey1 := actVerifierAes256cmacShiftLOne tmp subkey1
  let subkey1 := if tmp 0 &&& 0x80 ≠ 0 then actVerifierAes256cmacXor subkey1 subkeyBase subkey1 else subkey1
  let subkey2 := actVerifierAes256cmacShiftLOne subkey1 subkey2
  let subkey2 := if subkey1 0 &&& 0x80 ≠ 0 then actVerifierAes256cmacXor subkey2 subkeyBase subkey2 else subkey2
  (subkey1, subkey2)

/-- The loop over the blocks before the last. -/
def chainLoop (E : Block → Block) : (n : Nat) → (pInput X : Mem) → Mem
  | 0, _, X => X
  | n + 1, pInput, X =>
    let X := actVerifierAes256cmacXor X pInput X
    let X := ksceAesEncrypt1 E X X
    chainLoop E n (fun i => pInput (0x10 + i)) X

/-- `n` and `flag` -/
def lastBlock (length : UInt32) : UInt32 × Bool :=
  let n := (length + 0xF) >>> 4
  if n ≠ 0 then (n - 1, length &&& 0xF = 0) else (n, false)

/-- `X` as it is fed to the last encryption. -/
def lastInput (E : Block → Block) (stack : Nat → Mem) (src : Mem) (length : UInt32) : Mem :=
  let (subkey1, subkey2) := actVerifierAes256cmacGenSubKey E (stack 0) (stack 1) (stack 2)
  let (n, flag) := lastBlock length
  let last : Mem := fun i => src ((n <<< 4).toNat + i)
  let M :=
    if flag then actVerifierAes256cmacXor last subkey1 (stack 3)
    else
      let subkey2 := actVerifierAes256cmacPadding last subkey2 (length &&& 0xF)
      actVerifierAes256cmacXor subkey2 subkey2 (stack 3)
  let X := memset (stack 4) 0 0 0x10
  let X := chainLoop E n.toNat src X
  actVerifierAes256cmacXor X M X

def actVerifierAes256cmac (E : Block → Block) (stack : Nat → Mem) (src : Mem) (length : UInt32) (cmac : Mem) : Mem :=
  let X := lastInput E stack src length
  let X := ksceAesEncrypt1 E X X
  memcpy cmac X 0x10

/-! ### The helpers -/

section
variable {E : Block → Block} {a b src dst out pad X : Mem} {i j k n : Nat} {carry : UInt8} {length : UInt32}

theorem xorWord_apply : xorWord a b k out j = if 4 * k ≤ j ∧ j < 4 * k + 4 then a j ^^^ b j else out j := by
  unfold xorWord
  split
  · rename_i h
    obtain ⟨i, rfl⟩ := Nat.exists_eq_add_of_le h.1
    have hi : i < 4 := by omega
    rw [store32_self hi, byteOf_xor, byteOf_load32 hi, byteOf_load32 hi]
  · exact store32_of_disjoint (by omega)

theorem xor_apply (hj : j < 16) : actVerifierAes256cmacXor a b out j = a j ^^^ b j := by
  unfold actVerifierAes256cmacXor
  simp only [xorWord_apply]
  split
  · rfl
  split
  · rfl
  split
  · rfl
  rw [if_pos (by omega)]

theorem beBits_xorBlock : beBits 16 (actVerifierAes256cmacXor a b out) = beBits 16 a ^^^ beBits 16 b :=
  beBits_xor fun _ hj => xor_apply hj

theorem beBits_encrypt : beBits 16 (ksceAesEncrypt1 E src dst) = E (beBits 16 src) :=
  beBits_of_beByte fun _ hj => if_pos hj

theorem beBits_memset : beBits 16 (memset dst 0 0 0x10) = 0 :=
  beBits_zero fun j hj => if_pos ⟨Nat.zero_le j, by omega⟩

/-- The bytes from `n` on are not written; below, each byte has taken in the carry of the byte after it. -/
theorem shiftLOneLoop_apply : shiftLOneLoop src n carry dst j =
    if j < n then src j <<< 1 ||| (if j + 1 = n then carry else src (j + 1) >>> 7 &&& 1) else dst j := by
  induction n generalizing carry dst with
  | zero => rfl
  | succ n ih =>
    rw [shiftLOneLoop, ih]
    rcases Nat.lt_trichotomy j n with hlt | rfl | hgt
    · rw [if_pos hlt, if_pos (Nat.lt_succ_of_lt hlt), if_neg (by omega : ¬ j + 1 = n + 1)]
      by_cases hj : j + 1 = n
      · rw [if_pos hj, hj]
      · rw [if_neg hj]
    · rw [if_neg (by omega), if_pos (by omega), if_pos rfl, Function.update_self]
    · rw [if_neg (by omega), if_neg (by omega), Function.update_of_ne (by omega)]

theorem beBits_shiftLOne : beBits 16 (actVerifierAes256cmacShiftLOne src dst) = beBits 16 src <<< 1 := by
  unfold actVerifierAes256cmacShiftLOne
  refine beBits_shiftLeft_one (fun j hj => ?_) fun j hj => ?_
  · rw [shiftLOneLoop_apply, if_pos (by omega), if_pos hj, UInt8.or_zero]
  · rw [shiftLOneLoop_apply, if_pos (by omega), if_neg (by omega)]

theorem beBits_subkeyBase : beBits 16 subkeyBase = 0x87 := by decide

theorem topBit_iff : src 0 &&& 0x80 ≠ 0 ↔ (beBits 16 src).msb := by
  have hbit : (src 0 &&& 0x80).toBitVec = if (src 0).toBitVec.getLsbD 7 then 0x80 else 0 :=
    BitVec.and_twoPow (src 0).toBitVec 7
  rw [msb_beBits (by decide), ne_eq, ← UInt8.toBitVec_inj, hbit]
  cases (src 0).toBitVec.getLsbD 7 <;> decide

/-- One subkey from the other: a shift, and `subkey_base` for the bit that went out. -/
theorem beBits_double : beBits 16 (if src 0 &&& 0x80 ≠ 0
    then actVerifierAes256cmacXor (actVerifierAes256cmacShiftLOne src dst) subkeyBase
      (actVerifierAes256cmacShiftLOne src dst)
    else actVerifierAes256cmacShiftLOne src dst) = Cmac.double 0x87 (beBits 16 src) := by
  unfold Cmac.double
  by_cases h : src 0 &&& 0x80 ≠ 0
  · rw [if_pos h, if_pos (topBit_iff.1 h), beBits_xorBlock, beBits_shiftLOne, beBits_subkeyBase]
  · rw [if_neg h, if_neg fun hmsb => h (topBit_iff.2 hmsb), beBits_shiftLOne]

theorem genSubKey_eq {tmp subkey1 subkey2 : Mem} :
    beBits 16 (actVerifierAes256cmacGenSubKey E tmp subkey1 subkey2).1 = Cmac.subkey1 E 0x87 ∧
    beBits 16 (actVerifierAes256cmacGenSubKey E tmp subkey1 subkey2).2 = Cmac.subkey2 E 0x87 := by
  have hfst : beBits 16 (actVerifierAes256cmacGenSubKey E tmp subkey1 subkey2).1 = Cmac.subkey1 E 0x87 := by
    unfold actVerifierAes256cmacGenSubKey Cmac.subkey1
    dsimp only
    rw [beBits_double, beBits_encrypt, beBits_memset]
  refine ⟨hfst, ?_⟩
  rw [Cmac.subkey2, ← hfst]
  exact beBits_double

/-- The block `i` of a message. -/
def block (src : Mem) (i : Nat) : Block := beBits 16 fun j => src (16 * i + j)

def blocks (src : Mem) (n : Nat) : List Block := (List.range n).map (block src)

theorem blocks_succ : blocks src (n + 1) = block src 0 :: blocks (fun i => src (0x10 + i)) n := by
  rw [blocks, List.range_succ_eq_map, List.map_cons, List.map_map]
  refine congrArg (List.cons _) (List.map_congr_left fun i _ => beBits_congr fun j _ => ?_)
  show src (16 * (i + 1) + j) = src (16 + (16 * i + j))
  congr 1
  omega

theorem beBits_chainLoop : beBits 16 (chainLoop E n src X) = Cmac.chainFrom E (beBits 16 X) (blocks src n) := by
  induction n generalizing src X with
  | zero => rfl
  | succ n ih =>
    have hfirst : beBits 16 src = block src 0 := beBits_congr fun j _ => by rw [Nat.mul_zero, Nat.zero_add]
    rw [chainLoop, ih, beBits_encrypt, beBits_xorBlock, blocks_succ, Cmac.chainFrom_cons, hfirst]

/-! ### The last block -/

theorem lastBlock_eq (length : UInt32) : (lastBlock length).1.toNat = (length.toNat + 15) % 2 ^ 32 / 16 - 1 ∧
    ((lastBlock length).2 = true ↔ 0 < (length.toNat + 15) % 2 ^ 32 / 16 ∧ length.toNat % 16 = 0) := by
  have hn : ((length + 0xF) >>> 4).toNat = (length.toNat + 15) % 2 ^ 32 / 16 := by
    rw [UInt32.toNat_shiftRight, UInt32.toNat_add]
    exact Nat.shiftRight_eq_div_pow _ 4
  have hrest : (length &&& 0xF).toNat = length.toNat % 16 := by
    rw [UInt32.toNat_and]
    exact Nat.and_two_pow_sub_one_eq_mod _ 4
  have hflag : length &&& 0xF = 0 ↔ length.toNat % 16 = 0 := by
    rw [← UInt32.toNat_inj, hrest]
    rfl
  unfold lastBlock
  dsimp only
  split
  · rename_i h0
    have hpos : 0 < ((length + 0xF) >>> 4).toNat := by
      rw [Nat.pos_iff_ne_zero]
      exact fun h => h0 (UInt32.toNat_inj.1 h)
    refine ⟨?_, ?_⟩
    · have hone : (1 : UInt32) ≤ (length + 0xF) >>> 4 := UInt32.le_iff_toNat_le.2 hpos
      rw [UInt32.toNat_sub_of_le _ _ hone, hn]
      rfl
    · rw [decide_eq_true_iff, hflag]
      rw [hn] at hpos
      exact ⟨fun h => ⟨hpos, h⟩, And.right⟩
  · rename_i h0
    rw [not_not] at h0
    rw [← hn, h0]
    exact ⟨rfl, by simp⟩

theorem toNat_shiftLeft_four {n : UInt32} (hn : n.toNat < 2 ^ 28) : (n <<< 4).toNat = 16 * n.toNat := by
  rw [UInt32.toNat_shiftLeft]
  show n.toNat <<< 4 % 2 ^ 32 = _
  rw [Nat.shiftLeft_eq]
  omega

/-- A last block that is whole is masked with the first subkey. -/
theorem lastInput_whole {stack : Nat → Mem} (h0 : 0 < length.toNat) (h16 : length.toNat % 16 = 0) :
    beBits 16 (lastInput E stack src length) =
      Cmac.wholeInput E 0x87 (blocks src (length.toNat / 16 - 1)) (block src (length.toNat / 16 - 1)) := by
  have hlen := length.toNat_lt
  obtain ⟨hn, hflag⟩ := lastBlock_eq length
  have hn' : (lastBlock length).1.toNat = length.toNat / 16 - 1 := by omega
  have hflag' : (lastBlock length).2 = true := hflag.2 (by omega)
  have hlast : beBits 16 (fun i => src (((lastBlock length).1 <<< 4).toNat + i)) = block src (length.toNat / 16 - 1) := by
    rw [toNat_shiftLeft_four (by omega), hn']
    rfl
  unfold lastInput
  dsimp only
  rw [if_pos hflag', beBits_xorBlock, beBits_xorBlock, beBits_chainLoop, beBits_memset, hn', hlast, genSubKey_eq.1,
    Cmac.wholeInput, BitVec.xor_assoc]
  rfl

/-- A last block that has to be padded drops out: `M` is the exclusive or of the padded block with itself. -/
theorem lastInput_padded {stack : Nat → Mem} (h : ¬ (0 < length.toNat ∧ length.toNat % 16 = 0)) :
    beBits 16 (lastInput E stack src length) =
      Cmac.chain E (blocks src ((length.toNat + 15) % 2 ^ 32 / 16 - 1)) := by
  have hlen := length.toNat_lt
  obtain ⟨hn, hflag⟩ := lastBlock_eq length
  have hflag' : ¬ (lastBlock length).2 = true := fun hf => h (by have := hflag.1 hf; omega)
  unfold lastInput
  dsimp only
  rw [if_neg hflag', beBits_xorBlock, beBits_xorBlock, BitVec.xor_self, beBits_chainLoop, beBits_memset, hn]
  exact BitVec.xor_zero

end

/-! ### What is encrypted last -/

section
variable (E : Block → Block) (stack : Nat → Mem) (src cmac : Mem) (length : UInt32)

/-- On whole blocks the result is the CMAC, and 16 bytes are written. -/
theorem aes256cmac_whole (h0 : 0 < length.toNat) (h16 : length.toNat % 16 = 0) :
    beBits 16 (actVerifierAes256cmac E stack src length cmac) =
      E (Cmac.wholeInput E 0x87 (blocks src (length.toNat / 16 - 1)) (block src (length.toNat / 16 - 1))) ∧
    ∀ i, 16 ≤ i → actVerifierAes256cmac E stack src length cmac i = cmac i := by
  unfold actVerifierAes256cmac
  constructor
  · have hcopy : beBits 16 (memcpy cmac (ksceAesEncrypt1 E (lastInput E stack src length)
        (lastInput E stack src length)) 0x10) = E (beBits 16 (lastInput E stack src length)) :=
      (beBits_congr fun _ hj => if_pos hj).trans beBits_encrypt
    rw [← lastInput_whole h0 h16]
    exact hcopy
  · exact fun i hi => if_neg (by omega)

/-- Three different blocks, chained. -/
theorem aes256cmac_whole_threeBlocks :
    let E : Block → Block := fun x => x + 1
    let src : Mem := fun i => .ofNat i
    beBits 16 (actVerifierAes256cmac E (fun _ _ => 1) src 0x30 fun _ => 3) =
      E (E (E (block src 0) ^^^ block src 1) ^^^ block src 2 ^^^ Cmac.subkey1 E 0x87) ∧
    actVerifierAes256cmac E (fun _ _ => 1) src 0x30 (fun _ => 3) 16 = 3 := by
  intro E src
  obtain ⟨hmac, hrest⟩ := aes256cmac_whole E (fun _ _ => 1) src (fun _ => 3) 0x30 (by decide) (by decide)
  have hchain : Cmac.chain E (blocks src 2) = E (E (block src 0) ^^^ block src 1) := by
    show E (E (0#128 ^^^ block src 0) ^^^ block src 1) = _
    rw [BitVec.zero_xor]
  exact ⟨hmac.trans (by rw [← hchain]; rfl), hrest 16 (by decide)⟩

/-- The rest of a message, with `0x80` and zeros put after it. -/
def paddedBlock (src : Mem) (length : UInt32) : Block := beBits 16 fun j =>
  if j < length.toNat % 16 then src (16 * (length.toNat / 16) + j) else if j = length.toNat % 16 then 0x80 else 0

/-- On a message that is not in whole blocks the last encryption gets what CMAC asks for only when the padded block is
the second subkey; from a length of `0xFFFFFFF1` on, only when it undoes the chaining value as well. Two messages
that differ in the last block get the same. -/
theorem lastInput_padded_iff (h : ¬ (0 < length.toNat ∧ length.toNat % 16 = 0)) :
    (beBits 16 (lastInput E stack src length) =
        Cmac.paddedInput E 0x87 (blocks src (length.toNat / 16)) (paddedBlock src length) ↔
      if length.toNat ≤ 0xFFFFFFF0 then paddedBlock src length = Cmac.subkey2 E 0x87
      else Cmac.chain E (blocks src (length.toNat / 16)) ^^^ paddedBlock src length = Cmac.subkey2 E 0x87) ∧
    ∀ src' : Mem, (∀ i < 16 * (length.toNat / 16), src' i = src i) →
      beBits 16 (lastInput E stack src' length) = beBits 16 (lastInput E stack src length) := by
  have hlen := length.toNat_lt
  constructor
  · rw [lastInput_padded h]
    split
    · rw [show (length.toNat + 15) % 2 ^ 32 / 16 - 1 = length.toNat / 16 by omega, Cmac.chain_eq_paddedInput]
    · have hnone : Cmac.chain E (blocks src 0) = 0 := rfl
      rw [show (length.toNat + 15) % 2 ^ 32 / 16 - 1 = 0 by omega, hnone, eq_comm, Cmac.paddedInput, Cmac.xor_eq_zero]
  · intro src' hsrc
    rw [lastInput_padded h, lastInput_padded h]
    refine congrArg _ (List.map_congr_left fun i hi => beBits_congr fun j hj => hsrc _ ?_)
    rw [List.mem_range] at hi
    omega

/-- The empty message, under a block function whose second subkey is its padded block. -/
theorem lastInput_padded_iff_empty : beBits 16 (lastInput (fun _ => 0x20 <<< 120) (fun _ _ => 1) (fun _ => 2) 0) =
    Cmac.paddedInput (fun _ => 0x20 <<< 120) 0x87 [] (paddedBlock (fun _ => 2) 0) :=
  (lastInput_padded_iff (fun _ => 0x20 <<< 120) (fun _ _ => 1) (fun _ => 2) 0 (by decide)).1.2 (by decide)

/-- One byte, 1 or 2: the last encryption gets the same block, and not the one it should. -/
theorem not_paddedInput_oneByte : let E : Block → Block := fun _ => 0
    beBits 16 (lastInput E (fun _ _ => 0) (fun _ => 1) 1) ≠
      Cmac.paddedInput E 0x87 (blocks (fun _ => 1) 0) (paddedBlock (fun _ => 1) 1) ∧
    beBits 16 (lastInput E (fun _ _ => 0) (fun _ => 1) 1) = beBits 16 (lastInput E (fun _ _ => 0) (fun _ => 2) 1) := by
  have hn : ((1 : UInt32).toNat + 15) % 2 ^ 32 / 16 - 1 = 0 := by decide
  refine ⟨?_, ?_⟩
  · have hpad : paddedBlock (fun _ => 1) 1 ≠ Cmac.subkey2 (fun _ => (0 : Block)) 0x87 := by decide
    rw [lastInput_padded (by decide), hn]
    exact fun h => hpad (Cmac.chain_eq_paddedInput.1 h)
  · have hnil : ∀ src, blocks src 0 = [] := fun _ => rfl
    rw [lastInput_padded (by decide), lastInput_padded (by decide), hn, hnil, hnil]

end

end VitaUtility.ActVerifier

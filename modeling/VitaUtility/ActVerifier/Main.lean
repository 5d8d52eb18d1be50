import VitaUtility.Lib.Bytes
import VitaUtility.Lib.Mask
import VitaUtility.ActVerifier.Aes256Cmac
import VitaUtility.ActVerifier.Swap

/-!
# What `act_verifier` and `np_act_verifier` accept

Both programs open an RSA signature in place and compare the low 256 bits of what comes out with a SHA-256 digest.
`act_verifier` goes on with two CMACs; `np_act_verifier` decrypts what it has checked. The services of the kernel and of
SceNpDrm are parameters.
-/

namespace VitaUtility

/-! ### Common code -/

/-- `ksceIoRead(fd, dst, size)` of a file that has the bytes `data` to give; the result is not looked at. -/
def ksceIoRead (dst : Mem) (data : List UInt8) (size : Nat) : Mem :=
  fun i => if i < size then data[i]?.getD (dst i) else dst i

/-- `memcmp(a, b, n) == 0` -/
def memcmpZero (a b : Mem) (n : Nat) : Prop := ∀ i < n, a i = b i

instance (a b : Mem) (n : Nat) : Decidable (memcmpZero a b n) := inferInstanceAs (Decidable (∀ i < n, a i = b i))

/-- The number of an array of words, the lowest first. -/
def wordsVal : List UInt32 → Nat
  | [] => 0
  | w :: ws => w.toNat + 2 ^ 32 * wordsVal ws

/-- `act_rsa_e`: zeroed, then its first word is set. -/
def actRsaE : List UInt32 := 0x10001 :: List.replicate 0x3F 0

/-- What the services compute. -/
structure Services where
  /-- `sceNpDrmRsaModPower(dst, src, {n, k}, 0x40)` -/
  rsaModPower : (n k : List UInt32) → (src : Mem) → Mem
  /-- `ksceSha256Digest` -/
  sha256Digest : List UInt8 → Mem
  /-- `ksceAesEncrypt1` under a key -/
  aesEncrypt1 : (key : List UInt8) → ActVerifier.Block → ActVerifier.Block
  /-- `ksceAesDecrypt1` under a key -/
  aesDecrypt1 : (key : List UInt8) → ActVerifier.Block → ActVerifier.Block
  /-- `ksceSblDmac5AesCbcDec` under a key of 256 bits -/
  aesCbcDec : (key iv : List UInt8) → (src : List UInt8) → Mem

/-- The number of the words at `dst` is that of the words at `src`, raised to `k` modulo `n`. -/
def Services.RsaWorks (k : Services) : Prop := ∀ n e : List UInt32, n.length = 0x40 → e.length = 0x40 → 0 < wordsVal n →
  ∀ src, (leBits 0x100 (k.rsaModPower n e src)).toNat = (leBits 0x100 src).toNat ^ wordsVal e % wordsVal n

/-- `__swap_data32`, `sceNpDrmRsaModPower` and `__swap_data32` of the first `0x20` bytes, all in place at `off`. -/
def openSignature (k : Services) (n : List UInt32) (off : Nat) (m : Mem) : Mem :=
  let m := (swapData32Body off off 0x100 m).2
  let m := memcpyAt m off (k.rsaModPower n actRsaE fun i => m (off + i)) 0x100
  (swapData32Body off off 0x20 m).2

/-- `actVerifierCheckSystemFw` of both programs, with `ksceKernelGetSystemSwVersion` and `fw_data.version`. -/
def checkSystemFwBody (res : Int32) (version : UInt32) : Int32 :=
  if res < 0 then res
  else if (version &&& ~~~0xFFF) - 0x3600000 ≥ 0x140000 then -1
  else 0

section
variable {k : Services} {n : List UInt32} {o b : Nat} {m : Mem} {res : Int32} {version : UInt32}

theorem wordsVal_actRsaE : wordsVal actRsaE = 0x10001 := by rfl

theorem swapped_inside {len : UInt32} {j : Nat} (h4 : len.toNat % 4 = 0) (hj : j < len.toNat) :
    (swapData32Body o o len m).2 (o + j) = m (o + (len.toNat - 1 - j)) :=
  (swapData32Body_reversed h4 (.inl rfl)).2.inside j hj trivial

theorem swapped_outside {len : UInt32} (h4 : len.toNat % 4 = 0) (hb : b < o ∨ o + len.toNat ≤ b) :
    (swapData32Body o o len m).2 b = m b := by
  refine (swapData32Body_reversed h4 (.inl rfl)).2.outside b fun j hj _ heq => ?_
  omega

/-- Only the `0x100` bytes of the signature are written. -/
theorem openSignature_outside (hb : b < o ∨ o + 0x100 ≤ b) : openSignature k n o m b = m b := by
  have hsmall : b < o ∨ o + (0x20 : UInt32).toNat ≤ b := by
    show b < o ∨ o + 0x20 ≤ b
    omega
  have hcopy : ∀ src, memcpyAt (swapData32Body o o 0x100 m).2 o src 0x100 b = (swapData32Body o o 0x100 m).2 b := by
    intro src
    exact if_neg (by omega)
  unfold openSignature
  rw [swapped_outside (by decide) hsmall, hcopy]
  exact swapped_outside (by decide) hb

/-- What `sceNpDrmRsaModPower` writes, the signature being the highest byte first in the file. -/
def powerBytes (k : Services) (n : List UInt32) (o : Nat) (m : Mem) : Mem :=
  k.rsaModPower n actRsaE fun i => (swapData32Body o o 0x100 m).2 (o + i)

theorem toNat_powerBytes (hk : k.RsaWorks) (hlen : n.length = 0x40) (hn : 0 < wordsVal n) :
    (leBits 0x100 (powerBytes k n o m)).toNat = (beBits 0x100 fun i => m (o + i)).toNat ^ 0x10001 % wordsVal n := by
  have hswap : leBits 0x100 (fun i => (swapData32Body o o 0x100 m).2 (o + i)) = beBits 0x100 fun i => m (o + i) :=
    leBits_reverse fun j hj => swapped_inside (by decide) hj
  have hpower := hk n actRsaE hlen (by decide) hn fun i => (swapData32Body o o 0x100 m).2 (o + i)
  rw [hswap, wordsVal_actRsaE] at hpower
  exact hpower

/-- The first `0x20` bytes are then the low 256 bits of the power, the highest first. -/
theorem openSignature_low (hk : k.RsaWorks) (hlen : n.length = 0x40) (hn : 0 < wordsVal n) :
    (beBits 0x20 fun i => openSignature k n o m (o + i)).toNat =
      (beBits 0x100 fun i => m (o + i)).toNat ^ 0x10001 % wordsVal n % 2 ^ 256 := by
  have hbytes : ∀ j < 0x20, (openSignature k n o m (o + j)).toBitVec =
      (leBits 0x100 (powerBytes k n o m)).extractLsb' (8 * (0x20 - 1 - j)) 8 := by
    intro j hj
    rw [extractLsb'_leBits (by omega)]
    unfold openSignature
    rw [swapped_inside (by decide) hj]
    show (memcpyAt _ o (powerBytes k n o m) 0x100 (o + (0x20 - 1 - j))).toBitVec = _
    unfold memcpyAt
    rw [if_pos (by omega), Nat.add_sub_cancel_left]
  rw [beBits_low hbytes, BitVec.toNat_setWidth, toNat_powerBytes hk hlen hn]

/-- The other bytes are the rest of the power, the lowest first. -/
theorem openSignature_high (hk : k.RsaWorks) (hlen : n.length = 0x40) (hn : 0 < wordsVal n) :
    (leBits 0xE0 fun i => openSignature k n o m (o + 0x20 + i)).toNat =
      (beBits 0x100 fun i => m (o + i)).toNat ^ 0x10001 % wordsVal n / 2 ^ 256 := by
  have hbytes : ∀ j < 0xE0, openSignature k n o m (o + 0x20 + j) = powerBytes k n o m (0x20 + j) := by
    intro j hj
    have hafter : o + (0x20 : UInt32).toNat ≤ o + 0x20 + j := Nat.le_add_right _ _
    unfold openSignature
    rw [swapped_outside (by decide) (.inr hafter)]
    show memcpyAt _ o (powerBytes k n o m) 0x100 (o + 0x20 + j) = _
    unfold memcpyAt
    rw [if_pos (by omega), Nat.add_assoc, Nat.add_sub_cancel_left]
  rw [leBits_congr hbytes, toNat_leBits_shift]
  exact congrArg (· / 2 ^ 256) (toNat_powerBytes hk hlen hn)

/-- From 3.60 to before 3.74: the subtraction wraps for what is older. -/
theorem checkSystemFwBody_nonneg : ¬ checkSystemFwBody res version < 0 ↔
    ¬ res < 0 ∧ 0x3600000 ≤ version.toNat ∧ version.toNat < 0x3740000 := by
  have hpage : (version &&& ~~~0xFFF).toNat = version.toNat / 2 ^ 12 * 2 ^ 12 := toNat_and_high (by decide)
  have hge : (version &&& ~~~0xFFF) - 0x3600000 ≥ 0x140000 ↔
      ¬ (0x3600000 ≤ version.toNat ∧ version.toNat < 0x3740000) := by
    have hlt := version.toNat_lt
    have hfw : (0x3600000 : UInt32).toNat = 0x3600000 := rfl
    have hspan : (0x140000 : UInt32).toNat = 0x140000 := rfl
    rw [ge_iff_le, UInt32.le_iff_toNat_le, UInt32.toNat_sub, hpage, hfw, hspan]
    omega
  unfold checkSystemFwBody
  by_cases hres : res < 0
  · simp [hres]
  · rw [if_neg hres]
    by_cases hv : 0x3600000 ≤ version.toNat ∧ version.toNat < 0x3740000
    · rw [if_neg fun h => hge.1 h hv]
      exact iff_of_true (by decide) ⟨hres, hv⟩
    · rw [if_pos (hge.2 hv)]
      exact iff_of_false (by decide) fun h => hv h.2

end

/-! ### `act_verifier` -/

namespace ActVerifier

def actRsaN : List UInt32 :=
  [0x47245239, 0xDD3EBC17, 0x681E0577, 0x981B7CFB, 0x7179289B, 0x20C2642A, 0x893B93C6, 0x3FFEA5A3,
    0x9FA212A0, 0xB62BDC64, 0x434B549B, 0xFC2A3E63, 0x6FD74277, 0x5BD4041A, 0xC7A3E8A6, 0x5181E51C,
    0xB28E037C, 0xD5847215, 0xDE2713E6, 0x5A79B0C8, 0x5B424263, 0x1E871E47, 0x819F5E31, 0x1C8AF859,
    0x16B249B6, 0x58F71FDD, 0xB3EB113A, 0xD9B65FA6, 0x76CAF6FC, 0x9BCE59FC, 0xF74CBC17, 0x28DBCD99,
    0x66EA6EE2, 0x84DC3999, 0x19395124, 0x6939E722, 0x977D7A0C, 0x85F86C86, 0x77EFA707, 0xACB808C5,
    0x9CD1EC70, 0x4C2C8D2F, 0x3C6C3848, 0x971D5406, 0x6060E96B, 0xFFC6CD6B, 0x8677A0AC, 0x9E1CC8DC,
    0x4469D58E, 0xE8B6AD26, 0x7B6BB7CE, 0x41466E16, 0x96B1FFAF, 0xBB18B5A5, 0x2226B027, 0x92BBA884,
    0xB5D9610E, 0x55DCDD07, 0xC3602643, 0x431AFECF, 0xFF257FA6, 0x113FA511, 0x308B55E9, 0xA844CC0E]

def actAesKeyKey : List UInt8 :=
  [0x84, 0x6D, 0x2D, 0xFD, 0x77, 0xD3, 0xC2, 0xE5, 0xF0, 0xE1, 0x7E, 0xB1, 0x8C, 0xC7, 0x86, 0x92,
    0x8B, 0x88, 0x1E, 0x2E, 0x17, 0xAE, 0x0C, 0xD8, 0xFD, 0xE8, 0x88, 0x09, 0xD0, 0xD0, 0x33, 0xC5]

def actAesKeyIv : List UInt8 :=
  [0xC8, 0xA0, 0x40, 0x66, 0x2B, 0x10, 0xA1, 0x98, 0x6A, 0x18, 0x94, 0xE9, 0x4F, 0xBE, 0xFC, 0xF0]

/-- For the activation data in the NVS. -/
def actAesCmacKey : List UInt8 :=
  [0x5A, 0x91, 0xFC, 0x74, 0xA8, 0x2B, 0xE3, 0xF2, 0xB8, 0xF4, 0xDB, 0x60, 0x70, 0xA0, 0x99, 0xA2,
    0xBD, 0xF0, 0x0E, 0x7B, 0xF0, 0x0E, 0x7B, 0xF0, 0x8B, 0x68, 0x55, 0x34, 0xA0, 0x64, 0x6D, 0x87]

/-- What the kernel, the files and the NVS answer. -/
structure ActAnswers extends Services where
  /-- `ksceKernelGetSystemSwVersion`, with `fw_data.version` -/
  swVersion : Int32 × UInt32
  /-- `ksceKernelSearchModuleByName` -/
  searchModule : Int32
  /-- `module_get_offset` -/
  moduleOffset : Int32
  /-- `ksceIoOpen` of `act.dat`, and the bytes there -/
  actDat : Int32 × List UInt8
  /-- `ksceIoOpen` of `actsig.dat`, and the bytes there -/
  actsigDat : Int32 × List UInt8
  /-- `ksceSblNvsReadData` of the `0x20` bytes at `0x520`, with them -/
  nvsReadData : Int32 × Mem
  /-- the memory of the local arrays of the two CMACs -/
  stack : Nat → Nat → Mem

/-- The line that is printed. -/
inductive ActLine where
  | rsaHashNotMatched
  | actDataCmacNotMatched
  | nvsReadDataFailed (res : Int32)
  | nvsActDataCmacNotMatched
  | allOk
deriving DecidableEq

/-- A global buffer before anything is read. -/
def zeroed : Mem := fun _ => 0

section
variable (k : ActAnswers)

def actVerifierCheckSystemFw : Int32 := checkSystemFwBody k.swVersion.1 k.swVersion.2

/-- The result, `act_data` and `actsig`. -/
def actVerifierReadActData : Int32 × Mem × Mem :=
  if k.actDat.1 < 0 then (k.actDat.1, zeroed, zeroed) else
  let actData := ksceIoRead zeroed k.actDat.2 0x80
  if k.actsigDat.1 < 0 then (k.actsigDat.1, actData, zeroed) else
  (0, actData, ksceIoRead zeroed k.actsigDat.2 0x100)

/-- Once the activation data have been checked: their token, and the copy in the NVS. -/
def verifyTokens (actData : Mem) : Int32 × Option ActLine :=
  let enced := k.aesCbcDec actAesKeyKey actAesKeyIv (fill (fun i => actData (0x40 + i)) 0x40)
  let actData := memcpyAt actData 0x40 enced 0x40
  let mac := actVerifierAes256cmac (k.aesEncrypt1 actAesKeyKey) (k.stack 0) actData 0x70 zeroed
  if ¬ memcmpZero (fun i => actData (0x70 + i)) mac 0x10 then (-1, some .actDataCmacNotMatched) else
  if k.nvsReadData.1 < 0 then (k.nvsReadData.1, some (.nvsReadDataFailed k.nvsReadData.1)) else
  let nvsActData := memcpy zeroed k.nvsReadData.2 0x20
  let mac := actVerifierAes256cmac (k.aesEncrypt1 actAesCmacKey) (k.stack 1) nvsActData 0x10 mac
  if ¬ memcmpZero (fun i => nvsActData (0x10 + i)) mac 0x10 then (-1, some .nvsActDataCmacNotMatched) else
  (0, some .allOk)

def actVerifierMain : Int32 × Option ActLine :=
  let res := actVerifierCheckSystemFw k
  if res < 0 then (res, none) else
  if k.searchModule < 0 then (k.searchModule, none) else
  if k.moduleOffset < 0 then (k.moduleOffset, none) else
  let (res, actData, actsig) := actVerifierReadActData k
  if res < 0 then (res, none) else
  let actsig := openSignature k.toServices actRsaN 0 actsig
  let hash := k.sha256Digest (fill actData 0x80)
  if ¬ memcmpZero hash actsig 0x20 then (-1, some .rsaHashNotMatched) else
  verifyTokens k actData

/-- `SCE_KERNEL_START_NO_RESIDENT` is 1, `SCE_KERNEL_START_FAILED` 2. -/
def moduleStart : Int32 :=
  let res := (actVerifierMain k).1
  if res ≥ 0 then 1 else 2

/-! ### What is accepted -/

/-- `act.dat`, `actsig.dat` and the decrypted activation data. -/
def actFile : Mem := ksceIoRead zeroed k.actDat.2 0x80

def sigFile : Mem := ksceIoRead zeroed k.actsigDat.2 0x100

def decrypted : Mem :=
  memcpyAt (actFile k) 0x40 (k.aesCbcDec actAesKeyKey actAesKeyIv (fill (fun i => actFile k (0x40 + i)) 0x40)) 0x40

/-- The CMAC of the `n + 1` blocks at `src`. -/
def macOf (E : Block → Block) (src : Mem) (n : Nat) : Block := E (Cmac.wholeInput E 0x87 (blocks src n) (block src n))

/-- The data are signed, and both MACs are right. -/
structure Genuine : Prop where
  services : ¬ k.swVersion.1 < 0 ∧ ¬ k.searchModule < 0 ∧ ¬ k.moduleOffset < 0
  firmware : 0x3600000 ≤ k.swVersion.2.toNat ∧ k.swVersion.2.toNat < 0x3740000
  files : ¬ k.actDat.1 < 0 ∧ ¬ k.actsigDat.1 < 0
  /-- of the power only the low 256 bits are looked at -/
  signed : (beBits 0x100 (sigFile k)).toNat ^ 0x10001 % wordsVal actRsaN % 2 ^ 256 =
    (beBits 0x20 (k.sha256Digest (fill (actFile k) 0x80))).toNat
  token : macOf (k.aesEncrypt1 actAesKeyKey) (decrypted k) 6 = block (decrypted k) 7
  nvs : ¬ k.nvsReadData.1 < 0 ∧ macOf (k.aesEncrypt1 actAesCmacKey) k.nvsReadData.2 0 = block k.nvsReadData.2 1

end

section
variable {k : ActAnswers} {E : Block → Block} {stack : Nat → Mem} {src mac cmac : Mem} {length : UInt32} {n : Nat}

theorem beBits_cmac (hlen : length.toNat = 16 * (n + 1)) :
    beBits 16 (actVerifierAes256cmac E stack src length cmac) = macOf E src n := by
  have hcopy : beBits 16 (actVerifierAes256cmac E stack src length cmac) = E (beBits 16 (lastInput E stack src length)) := by
    unfold actVerifierAes256cmac
    exact (beBits_congr fun _ hj => if_pos hj).trans beBits_encrypt
  have hblocks : length.toNat / 16 - 1 = n := by omega
  rw [hcopy, lastInput_whole (by omega) (by omega), hblocks]
  rfl

/-- The comparison of a CMAC with the block `i` of a buffer. -/
theorem memcmpZero_cmac (hlen : length.toNat = 16 * (n + 1)) {i : Nat} : memcmpZero (fun j => src (16 * i + j))
      (actVerifierAes256cmac E stack src length cmac) 0x10 ↔ macOf E src n = block src i := by
  rw [← beBits_cmac hlen, eq_comm]
  exact beBits_inj.symm

theorem memcpy_nvs : blocks (memcpy zeroed src 0x20) 0 = blocks src 0 ∧
    ∀ i < 2, block (memcpy zeroed src 0x20) i = block src i := by
  refine ⟨rfl, fun i hi => beBits_congr fun j hj => ?_⟩
  exact if_pos (by omega)

theorem verifyTokens_nonneg : 0 ≤ (verifyTokens k (actFile k)).1 ↔
    macOf (k.aesEncrypt1 actAesKeyKey) (decrypted k) 6 = block (decrypted k) 7 ∧ ¬ k.nvsReadData.1 < 0 ∧
      macOf (k.aesEncrypt1 actAesCmacKey) k.nvsReadData.2 0 = block k.nvsReadData.2 1 := by
  have htoken : ∀ mac, memcmpZero (fun j => decrypted k (0x70 + j))
      (actVerifierAes256cmac (k.aesEncrypt1 actAesKeyKey) (k.stack 0) (decrypted k) 0x70 mac) 0x10 ↔ _ :=
    fun mac => memcmpZero_cmac (n := 6) (i := 7) (by decide)
  have hnvs : ∀ mac, memcmpZero (fun j => memcpy zeroed k.nvsReadData.2 0x20 (0x10 + j))
      (actVerifierAes256cmac (k.aesEncrypt1 actAesCmacKey) (k.stack 1) (memcpy zeroed k.nvsReadData.2 0x20) 0x10 mac) 0x10 ↔
      macOf (k.aesEncrypt1 actAesCmacKey) k.nvsReadData.2 0 = block k.nvsReadData.2 1 := by
    intro mac
    refine (memcmpZero_cmac (n := 0) (i := 1) (by decide)).trans ?_
    rw [macOf, memcpy_nvs.1, memcpy_nvs.2 0 (by decide), memcpy_nvs.2 1 (by decide)]
    rfl
  unfold verifyTokens
  dsimp only
  rw [show memcpyAt (actFile k) 0x40 _ 0x40 = decrypted k from rfl]
  split_ifs with h₁ h₂ h₃
  · exact iff_of_false (Int32.not_le.2 h₂) fun h => h.2.1 h₂
  · exact iff_of_true (by decide) ⟨(htoken _).1 h₁, h₂, (hnvs _).1 h₃⟩
  · exact iff_of_false (by decide) fun h => h₃ ((hnvs _).2 h.2.2)
  · exact iff_of_false (by decide) fun h => h₁ ((htoken _).2 h.1)

theorem memcmpZero_signature (hk : k.RsaWorks) :
    memcmpZero (k.sha256Digest (fill (actFile k) 0x80)) (openSignature k.toServices actRsaN 0 (sigFile k)) 0x20 ↔
      (beBits 0x100 (sigFile k)).toNat ^ 0x10001 % wordsVal actRsaN % 2 ^ 256 =
        (beBits 0x20 (k.sha256Digest (fill (actFile k) 0x80))).toNat := by
  have hlow := openSignature_low (o := 0) (m := sigFile k) hk (n := actRsaN) (by decide) (by decide)
  simp only [Nat.zero_add] at hlow
  rw [← hlow, BitVec.toNat_inj, eq_comm]
  exact beBits_inj.symm

theorem readActData_cases : (¬ (k.actDat.1 < 0) ∧ ¬ k.actsigDat.1 < 0 ∧
      actVerifierReadActData k = (0, actFile k, sigFile k)) ∨
    ((k.actDat.1 < 0 ∨ k.actsigDat.1 < 0) ∧ (actVerifierReadActData k).1 < 0) := by
  unfold actVerifierReadActData
  by_cases h₁ : k.actDat.1 < 0
  · exact .inr ⟨.inl h₁, by rwa [if_pos h₁]⟩
  by_cases h₂ : k.actsigDat.1 < 0
  · refine .inr ⟨.inr h₂, ?_⟩
    rw [if_neg h₁, if_pos h₂]
    exact h₂
  · refine .inl ⟨h₁, h₂, ?_⟩
    rw [if_neg h₁, if_neg h₂]
    rfl

theorem actVerifierMain_nonneg (hk : k.RsaWorks) : 0 ≤ (actVerifierMain k).1 ↔ Genuine k := by
  have hfw : ¬ actVerifierCheckSystemFw k < 0 ↔ _ := checkSystemFwBody_nonneg
  have hsigned := memcmpZero_signature hk
  have htokens := verifyTokens_nonneg (k := k)
  unfold actVerifierMain
  dsimp only
  by_cases h₁ : actVerifierCheckSystemFw k < 0
  · rw [if_pos h₁]
    exact iff_of_false (Int32.not_le.2 h₁) fun h => hfw.2 ⟨h.services.1, h.firmware⟩ h₁
  by_cases h₂ : k.searchModule < 0
  · rw [if_neg h₁, if_pos h₂]
    exact iff_of_false (Int32.not_le.2 h₂) fun h => h.services.2.1 h₂
  by_cases h₃ : k.moduleOffset < 0
  · rw [if_neg h₁, if_neg h₂, if_pos h₃]
    exact iff_of_false (Int32.not_le.2 h₃) fun h => h.services.2.2 h₃
  rw [if_neg h₁, if_neg h₂, if_neg h₃]
  rcases readActData_cases (k := k) with ⟨hact, hsig, hread⟩ | ⟨hfail, hneg⟩
  · rw [hread]
    dsimp only
    rw [if_neg (by decide)]
    obtain ⟨hres, hversion⟩ := hfw.1 h₁
    by_cases h₄ : memcmpZero (k.sha256Digest (fill (actFile k) 0x80))
        (openSignature k.toServices actRsaN 0 (sigFile k)) 0x20
    · rw [if_neg (not_not.2 h₄), htokens]
      constructor
      · rintro ⟨htoken, hnvs⟩
        exact ⟨⟨hres, h₂, h₃⟩, hversion, ⟨hact, hsig⟩, hsigned.1 h₄, htoken, hnvs⟩
      · intro h
        exact ⟨h.token, h.nvs⟩
    · rw [if_pos h₄]
      exact iff_of_false (by decide) fun h => h₄ (hsigned.2 h.signed)
  · rw [if_pos hneg]
    refine iff_of_false (Int32.not_le.2 hneg) fun h => ?_
    rcases hfail with hfail | hfail
    · exact h.files.1 hfail
    · exact h.files.2 hfail

/-- The module is started, and need not stay, exactly when the activation data are genuine. -/
theorem moduleStart_iff (hk : k.RsaWorks) : moduleStart k = 1 ↔ Genuine k := by
  rw [← actVerifierMain_nonneg hk]
  unfold moduleStart
  dsimp only
  by_cases h : (actVerifierMain k).1 ≥ 0
  · rw [if_pos h]
    exact iff_of_true rfl h
  · rw [if_neg h]
    exact iff_of_false (by decide) h

end
/-- Services that compute the power, and zeros else. -/
def powerServices : Services where
  rsaModPower n e src := fun i =>
    ⟨(BitVec.ofNat (8 * 0x100) ((leBits 0x100 src).toNat ^ wordsVal e % wordsVal n)).extractLsb' (8 * i) 8⟩
  sha256Digest _ := zeroed
  aesEncrypt1 _ _ := 0
  aesDecrypt1 _ x := x
  aesCbcDec _ _ _ := zeroed

theorem wordsVal_lt {ws : List UInt32} : wordsVal ws < 2 ^ (32 * ws.length) := by
  induction ws with
  | nil => decide
  | cons w ws ih =>
    have hw := w.toNat_lt
    have hpow : 2 ^ (32 * (ws.length + 1)) = 2 ^ 32 * 2 ^ (32 * ws.length) := by
      rw [← Nat.pow_add]
      congr 1
      omega
    rw [wordsVal, List.length_cons, hpow]
    omega

theorem toNat_ofNat_lt {w x : Nat} (h : x < 2 ^ w) : (BitVec.ofNat w x).toNat = x := by
  rw [BitVec.toNat_ofNat]
  exact Nat.mod_eq_of_lt h

theorem rsaWorks_powerServices : powerServices.RsaWorks := by
  intro n e hn _ hpos src
  have hlt : wordsVal n < 2 ^ (32 * n.length) := wordsVal_lt
  have hmod := Nat.mod_lt ((leBits 0x100 src).toNat ^ wordsVal e) hpos
  have hbits : 32 * 0x40 = 8 * 0x100 := rfl
  rw [hn, hbits] at hlt
  have hbytes : leBits 0x100 (powerServices.rsaModPower n e src) =
      BitVec.ofNat (8 * 0x100) ((leBits 0x100 src).toNat ^ wordsVal e % wordsVal n) :=
    leBits_of_bytes fun _ _ => rfl
  rw [hbytes]
  exact toNat_ofNat_lt (Nat.lt_trans hmod hlt)

/-- Empty files under zeros are genuine. -/
def emptyAct : ActAnswers where
  toServices := powerServices
  swVersion := (0, 0x3650000)
  searchModule := 0
  moduleOffset := 0
  actDat := (0, [])
  actsigDat := (0, [])
  nvsReadData := (0, zeroed)
  stack _ _ := zeroed

theorem ksceIoRead_nil {n b : Nat} : ksceIoRead zeroed [] n b = 0 := by
  unfold ksceIoRead
  split_ifs <;> rfl

theorem toNat_zero {w : Nat} : (0 : BitVec w).toNat = 0 := by simp

theorem genuine_emptyAct : Genuine emptyAct where
  services := by decide
  firmware := by decide
  files := by decide
  signed := by
    have hsig : beBits 0x100 (sigFile emptyAct) = 0 := beBits_zero fun _ _ => ksceIoRead_nil
    have hsha : beBits 0x20 (emptyAct.sha256Digest (fill (actFile emptyAct) 0x80)) = 0 := beBits_zero fun _ _ => rfl
    rw [hsig, hsha, toNat_zero, toNat_zero, Nat.zero_pow (by decide), Nat.zero_mod, Nat.zero_mod]
  token := by
    refine Eq.symm (beBits_zero fun j _ => ?_)
    unfold decrypted memcpyAt
    split_ifs
    · rfl
    · exact ksceIoRead_nil
  nvs := ⟨by decide, Eq.symm (beBits_zero fun _ _ => rfl)⟩

theorem moduleStart_iff_emptyAct : moduleStart emptyAct = 1 :=
  (@moduleStart_iff emptyAct rsaWorks_powerServices).2 genuine_emptyAct

end ActVerifier

/-! ### `np_act_verifier` -/

namespace NpActVerifier
open ActVerifier (Block zeroed)

/-- What the kernel, SceNpDrm and the files answer. -/
structure NpAnswers extends Services where
  /-- `ksceKernelGetSystemSwVersion`, with `fw_data.version` -/
  swVersion : Int32 × UInt32
  /-- `ksceKernelSearchModuleByName` -/
  searchModule : Int32
  /-- `module_get_offset` -/
  moduleOffset : (segidx : Nat) → (offset : UInt32) → Int32
  /-- the words of `act_rsa_n` and the bytes of `act_aes_key`, in SceNpDrm -/
  actRsaN : List UInt32
  actAesKey : List UInt8
  /-- `ksceIoOpen` of the two places of `act.dat`, and the bytes there -/
  hostActDat : Int32 × List UInt8
  tm0ActDat : Int32 × List UInt8
  sha1Digest : List UInt8 → List UInt8
  /-- `sceNpDrmEcdsaVerify` of a hash and a signature -/
  ecdsaVerify : (hash sign : List UInt8) → Int32
  aesInit1 : Int32

/-- The line that is printed. -/
inductive NpLine where
  | ecdsaVerify (res : Int32)
  | rsaHashNotMatched
  | allOk
deriving DecidableEq

/-- The loop of `aes_dec`; `data` has come to an offset in the buffer. -/
def aesDecLoop (D : Block → Block) : (n : Nat) → (data : Nat) → Mem → Mem
  | 0, _, m => m
  | n + 1, data, m =>
    aesDecLoop D n (data + 0x10) (memcpyAt m data (beByte 16 (D (beBits 16 fun i => m (data + i)))) 0x10)

section
variable (k : NpAnswers)

def aesDec (data : Nat) (size : UInt32) (key : List UInt8) (m : Mem) : Int32 × Mem :=
  if k.aesInit1 < 0 then (k.aesInit1, m) else
  (0, aesDecLoop (k.aesDecrypt1 key) ((size &&& ~~~(0x10 - 1)) >>> 4).toNat data m)

def actVerifierCheckSystemFw : Int32 := checkSystemFwBody k.swVersion.1 k.swVersion.2

/-- The result and `act_data`. -/
def actVerifierReadActData : Int32 × Mem :=
  let fd := if k.hostActDat.1 < 0 then k.tm0ActDat else k.hostActDat
  if fd.1 < 0 then (fd.1, zeroed) else (0, ksceIoRead zeroed fd.2 0x1038)

/-- The result, the lines and `act_data`. The result of `sceNpDrmEcdsaVerify` is only printed. -/
def actVerifierMain : Int32 × List NpLine × Mem :=
  let res := actVerifierCheckSystemFw k
  if res < 0 then (res, [], zeroed) else
  if k.searchModule < 0 then (k.searchModule, [], zeroed) else
  let res := k.moduleOffset 0 (0xEDD4 ||| 1)
  if res < 0 then (res, [], zeroed) else
  let res := k.moduleOffset 0 (0xA024 ||| 1)
  if res < 0 then (res, [], zeroed) else
  let (res, actData) := actVerifierReadActData k
  if res < 0 then (res, [], actData) else
  let hashSha1 := k.sha1Digest (fill actData 0x1010)
  let ecdsa := [.ecdsaVerify (k.ecdsaVerify hashSha1 (fill (fun i => actData (0x1010 + i)) 0x28))]
  let res := k.moduleOffset 0 0xFD64
  if res < 0 then (res, ecdsa, actData) else
  let res := k.moduleOffset 1 0x10
  if res < 0 then (res, ecdsa, actData) else
  let actData := openSignature k.toServices k.actRsaN 0xED0 actData
  let hash := k.sha256Digest (fill actData 0xED0)
  if ¬ memcmpZero hash (fun i => actData (0xED0 + i)) 0x20 then (-1, ecdsa ++ [.rsaHashNotMatched], actData) else
  let actData := (aesDec k 0x10 0x800 k.actAesKey actData).2
  (0, ecdsa ++ [.allOk], actData)

/-- `SCE_KERNEL_START_NO_RESIDENT` is 1, `SCE_KERNEL_START_FAILED` 2. -/
def moduleStart : Int32 :=
  let res := (actVerifierMain k).1
  if res ≥ 0 then 1 else 2

/-! ### What is accepted -/

/-- `act.dat` from the place it is read from. -/
def actFile : Mem := ksceIoRead zeroed (if k.hostActDat.1 < 0 then k.tm0ActDat else k.hostActDat).2 0x1038

/-- The number of the signature, opened. -/
def power : Nat := (beBits 0x100 fun i => actFile k (0xED0 + i)).toNat ^ 0x10001 % wordsVal k.actRsaN

/-- The data are signed with RSA; what the ECDSA signature is does not matter. -/
structure Genuine : Prop where
  services : ¬ k.swVersion.1 < 0 ∧ ¬ k.searchModule < 0
  firmware : 0x3600000 ≤ k.swVersion.2.toNat ∧ k.swVersion.2.toNat < 0x3740000
  offsets : ¬ k.moduleOffset 0 (0xEDD4 ||| 1) < 0 ∧ ¬ k.moduleOffset 0 (0xA024 ||| 1) < 0 ∧
    ¬ k.moduleOffset 0 0xFD64 < 0 ∧ ¬ k.moduleOffset 1 0x10 < 0
  file : ¬ k.hostActDat.1 < 0 ∨ ¬ k.tm0ActDat.1 < 0
  signed : power k % 2 ^ 256 = (beBits 0x20 (k.sha256Digest (fill (actFile k) 0xED0))).toNat

/-- What is left in `act_data` once they have been accepted: the rights are decrypted block by block, when the key could
be set, the signature is opened, its low 256 bits the highest byte first and the others the lowest first, and nothing
else is changed. -/
structure Opened (actData : Mem) : Prop where
  rights : ∀ i < 0x80, (beBits 16 fun j => actData (0x10 + 16 * i + j)) =
    if k.aesInit1 < 0 then beBits 16 fun j => actFile k (0x10 + 16 * i + j)
    else k.aesDecrypt1 k.actAesKey (beBits 16 fun j => actFile k (0x10 + 16 * i + j))
  low : (beBits 0x20 fun i => actData (0xED0 + i)).toNat = power k % 2 ^ 256
  high : (leBits 0xE0 fun i => actData (0xEF0 + i)).toNat = power k / 2 ^ 256
  rest : ∀ b, b < 0x10 ∨ 0x810 ≤ b ∧ b < 0xED0 ∨ 0xFD0 ≤ b → actData b = actFile k b

end

section
variable {k : NpAnswers} {D : Block → Block} {m : Mem} {n data b i : Nat}

theorem aesDecLoop_outside (hb : b < data ∨ data + 16 * n ≤ b) : aesDecLoop D n data m b = m b := by
  induction n generalizing data m with
  | zero => rfl
  | succ n ih =>
    rw [aesDecLoop, ih (by omega)]
    exact if_neg (by omega)

/-- Each block is decrypted for itself. -/
theorem beBits_aesDecLoop (hi : i < n) : (beBits 16 fun j => aesDecLoop D n data m (data + 16 * i + j)) =
    D (beBits 16 fun j => m (data + 16 * i + j)) := by
  induction n generalizing data m i with
  | zero => omega
  | succ n ih =>
    rw [aesDecLoop]
    cases i with
    | zero =>
      refine beBits_of_beByte fun j hj => ?_
      rw [aesDecLoop_outside (by omega)]
      unfold memcpyAt
      rw [if_pos (by omega)]
      congr 1
      omega
    | succ i =>
      have hshift : ∀ j, data + 16 * (i + 1) + j = data + 0x10 + 16 * i + j := by
        intro j
        omega
      simp only [hshift]
      rw [ih (by omega)]
      congr 1
      refine beBits_congr fun j _ => ?_
      exact if_neg (by omega)

theorem readActData_cases : (¬ k.hostActDat.1 < 0 ∨ ¬ k.tm0ActDat.1 < 0) ∧ actVerifierReadActData k = (0, actFile k) ∨
    (k.hostActDat.1 < 0 ∧ k.tm0ActDat.1 < 0) ∧ (actVerifierReadActData k).1 < 0 := by
  unfold actVerifierReadActData actFile
  by_cases h₁ : k.hostActDat.1 < 0
  · by_cases h₂ : k.tm0ActDat.1 < 0
    · simp [h₁, h₂]
    · simp [h₁, h₂]
  · simp [h₁]

theorem memcmpZero_signature (hk : k.RsaWorks) (hlen : k.actRsaN.length = 0x40) (hn : 0 < wordsVal k.actRsaN) :
    memcmpZero (k.sha256Digest (fill (openSignature k.toServices k.actRsaN 0xED0 (actFile k)) 0xED0))
      (fun i => openSignature k.toServices k.actRsaN 0xED0 (actFile k) (0xED0 + i)) 0x20 ↔
    power k % 2 ^ 256 = (beBits 0x20 (k.sha256Digest (fill (actFile k) 0xED0))).toNat := by
  have hdata : fill (openSignature k.toServices k.actRsaN 0xED0 (actFile k)) 0xED0 = fill (actFile k) 0xED0 := by
    refine List.map_congr_left fun b hb => openSignature_outside ?_
    rw [List.mem_range] at hb
    omega
  rw [hdata, power, ← openSignature_low (o := 0xED0) (m := actFile k) hk hlen hn, BitVec.toNat_inj, eq_comm]
  exact beBits_inj.symm

theorem aesDec_eq : (aesDec k 0x10 0x800 k.actAesKey m).2 =
    if k.aesInit1 < 0 then m else aesDecLoop (k.aesDecrypt1 k.actAesKey) 0x80 0x10 m := by
  have hsize : (((0x800 : UInt32) &&& ~~~(0x10 - 1)) >>> 4).toNat = 0x80 := by decide
  unfold aesDec
  rw [hsize]
  by_cases hinit : k.aesInit1 < 0
  · rw [if_pos hinit, if_pos hinit]
  · rw [if_neg hinit, if_neg hinit]

/-- Only the rights are decrypted. -/
theorem aesDec_outside (hb : b < 0x10 ∨ 0x810 ≤ b) : (aesDec k 0x10 0x800 k.actAesKey m).2 b = m b := by
  rw [aesDec_eq]
  by_cases hinit : k.aesInit1 < 0
  · rw [if_pos hinit]
  · rw [if_neg hinit]
    exact aesDecLoop_outside (by omega)

theorem aesDec_block (hi : i < 0x80) : (beBits 16 fun j => (aesDec k 0x10 0x800 k.actAesKey m).2 (0x10 + 16 * i + j)) =
    if k.aesInit1 < 0 then beBits 16 fun j => m (0x10 + 16 * i + j)
    else k.aesDecrypt1 k.actAesKey (beBits 16 fun j => m (0x10 + 16 * i + j)) := by
  rw [aesDec_eq]
  by_cases hinit : k.aesInit1 < 0
  · rw [if_pos hinit, if_pos hinit]
  · rw [if_neg hinit, if_neg hinit]
    exact beBits_aesDecLoop hi

/-- The data that `actVerifierMain` leaves when it gets to the end. -/
theorem opened (hk : k.RsaWorks) (hlen : k.actRsaN.length = 0x40) (hn : 0 < wordsVal k.actRsaN) :
    Opened k (aesDec k 0x10 0x800 k.actAesKey (openSignature k.toServices k.actRsaN 0xED0 (actFile k))).2 := by
  have hkept : ∀ i < 0x80, (beBits 16 fun j => openSignature k.toServices k.actRsaN 0xED0 (actFile k) (0x10 + 16 * i + j)) =
      beBits 16 fun j => actFile k (0x10 + 16 * i + j) := by
    intro i hi
    refine beBits_congr fun j hj => openSignature_outside ?_
    omega
  have hafter : ∀ b, 0x810 ≤ b →
      (aesDec k 0x10 0x800 k.actAesKey (openSignature k.toServices k.actRsaN 0xED0 (actFile k))).2 b =
        openSignature k.toServices k.actRsaN 0xED0 (actFile k) b := fun b hb => aesDec_outside (.inr hb)
  refine ⟨fun i hi => ?_, ?_, ?_, fun b hb => (aesDec_outside (by omega)).trans (openSignature_outside (by omega))⟩
  · rw [aesDec_block hi, hkept i hi]
  · refine Eq.trans (congrArg BitVec.toNat (beBits_congr fun i _ => ?_)) (openSignature_low hk hlen hn)
    exact hafter _ (by omega)
  · refine Eq.trans (congrArg BitVec.toNat (leBits_congr fun i _ => ?_)) (openSignature_high hk hlen hn)
    exact hafter _ (by omega)

/-- `actVerifierMain` ends well on genuine data, and with an error else. -/
theorem actVerifierMain_cases (hk : k.RsaWorks) (hlen : k.actRsaN.length = 0x40) (hn : 0 < wordsVal k.actRsaN) :
    (Genuine k ∧ (actVerifierMain k).1 = 0 ∧ Opened k (actVerifierMain k).2.2) ∨
      (¬ Genuine k ∧ (actVerifierMain k).1 < 0) := by
  have hfw : ¬ actVerifierCheckSystemFw k < 0 ↔ _ := checkSystemFwBody_nonneg
  have hsigned := memcmpZero_signature hk hlen hn
  unfold actVerifierMain
  dsimp only
  by_cases h₁ : actVerifierCheckSystemFw k < 0
  · rw [if_pos h₁]
    exact .inr ⟨fun h => hfw.2 ⟨h.services.1, h.firmware⟩ h₁, h₁⟩
  by_cases h₂ : k.searchModule < 0
  · rw [if_neg h₁, if_pos h₂]
    exact .inr ⟨fun h => h.services.2 h₂, h₂⟩
  by_cases h₃ : k.moduleOffset 0 (0xEDD4 ||| 1) < 0
  · rw [if_neg h₁, if_neg h₂, if_pos h₃]
    exact .inr ⟨fun h => h.offsets.1 h₃, h₃⟩
  by_cases h₄ : k.moduleOffset 0 (0xA024 ||| 1) < 0
  · rw [if_neg h₁, if_neg h₂, if_neg h₃, if_pos h₄]
    exact .inr ⟨fun h => h.offsets.2.1 h₄, h₄⟩
  rw [if_neg h₁, if_neg h₂, if_neg h₃, if_neg h₄]
  rcases readActData_cases (k := k) with ⟨hfile, hread⟩ | ⟨hfile, hneg⟩
  · rw [hread]
    dsimp only
    rw [if_neg (by decide)]
    by_cases h₅ : k.moduleOffset 0 0xFD64 < 0
    · rw [if_pos h₅]
      exact .inr ⟨fun h => h.offsets.2.2.1 h₅, h₅⟩
    by_cases h₆ : k.moduleOffset 1 0x10 < 0
    · rw [if_neg h₅, if_pos h₆]
      exact .inr ⟨fun h => h.offsets.2.2.2 h₆, h₆⟩
    rw [if_neg h₅, if_neg h₆]
    obtain ⟨hres, hversion⟩ := hfw.1 h₁
    by_cases h₇ : memcmpZero (k.sha256Digest (fill (openSignature k.toServices k.actRsaN 0xED0 (actFile k)) 0xED0))
        (fun i => openSignature k.toServices k.actRsaN 0xED0 (actFile k) (0xED0 + i)) 0x20
    · rw [if_neg (not_not.2 h₇)]
      exact .inl ⟨⟨⟨hres, h₂⟩, hversion, ⟨h₃, h₄, h₅, h₆⟩, hfile, hsigned.1 h₇⟩, rfl, opened hk hlen hn⟩
    · rw [if_pos h₇]
      exact .inr ⟨fun h => h₇ (hsigned.2 h.signed), (by decide : (-1 : Int32) < 0)⟩
  · rw [if_pos hneg]
    exact .inr ⟨fun h => h.file.elim (fun h => h hfile.1) fun h => h hfile.2, hneg⟩

/-- The module is started exactly when the data are signed with RSA, whatever the ECDSA signature is, and it then has
decrypted the rights, opened the signature and changed nothing else. -/
theorem moduleStart_accepts (hk : k.RsaWorks) (hlen : k.actRsaN.length = 0x40) (hn : 0 < wordsVal k.actRsaN) :
    (moduleStart k = 1 ↔ Genuine k) ∧ (Genuine k → Opened k (actVerifierMain k).2.2) := by
  unfold moduleStart
  dsimp only
  rcases actVerifierMain_cases hk hlen hn with ⟨hg, hres, hopened⟩ | ⟨hg, hneg⟩
  · rw [hres, if_pos (by decide)]
    exact ⟨iff_of_true rfl hg, fun _ => hopened⟩
  · rw [if_neg (Int32.not_le.2 hneg)]
    exact ⟨iff_of_false (by decide) hg, fun h => absurd h hg⟩

end

/-- An empty file whose ECDSA signature is refused, under zeros. -/
def emptyNp : NpAnswers where
  toServices := ActVerifier.powerServices
  swVersion := (0, 0x3650000)
  searchModule := 0
  moduleOffset _ _ := 0
  actRsaN := ActVerifier.actRsaN
  actAesKey := []
  hostActDat := (-1, [])
  tm0ActDat := (0, [])
  sha1Digest _ := []
  ecdsaVerify _ _ := -1
  aesInit1 := 0

theorem genuine_emptyNp : Genuine emptyNp where
  services := by decide
  firmware := by decide
  offsets := by decide
  file := by decide
  signed := by
    have hsig : (beBits 0x100 fun i => actFile emptyNp (0xED0 + i)) = 0 := beBits_zero fun _ _ => ActVerifier.ksceIoRead_nil
    have hsha : beBits 0x20 (emptyNp.sha256Digest (fill (actFile emptyNp) 0xED0)) = 0 := beBits_zero fun _ _ => rfl
    rw [power, hsig, hsha, ActVerifier.toNat_zero, ActVerifier.toNat_zero, Nat.zero_pow (by decide), Nat.zero_mod,
      Nat.zero_mod]

theorem moduleStart_accepts_emptyNp : moduleStart emptyNp = 1 ∧ Opened emptyNp (actVerifierMain emptyNp).2.2 := by
  obtain ⟨hiff, hopened⟩ := @moduleStart_accepts emptyNp ActVerifier.rsaWorks_powerServices (by decide) (by decide)
  exact ⟨hiff.2 genuine_emptyNp, hopened genuine_emptyNp⟩

end NpActVerifier

end VitaUtility

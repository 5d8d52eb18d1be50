import Mathlib.Data.List.Basic
import VitaUtility.Lib.Bytes
import VitaUtility.Lib.Memory

/-!
# The certificates of a console

`cert_verify_entry` of `idstorage_verifier`: it reads the certificates from the id storage and has three things checked
of each of the six `ids_cert_psp2`: its CMAC, its private key, and its signature. What the checks find is printed.
-/

namespace VitaUtility.IdstorageVerifier

/-- `sizeof(ids_cert_psp2)` -/
def certSize : Nat := 0xE8

/-- `psp2` in `SceIdStoragePsp2Certificates` -/
def psp2Offset : Nat := 2 * 6 * 0xB8

/-! The parts of `ids_cert_psp2`. -/

def pubKey : Nat := 0x10
def signatureR : Nat := 0x48
def signatureS : Nat := 0x64
def constantPubKey : Nat := 0x80
def encPrivKey : Nat := 0xB8

/-- The bytes of a coordinate. -/
def halfSize : Nat := 0x1C

def gx224 : List UInt8 :=
  [0x7E, 0x06, 0x09, 0x82, 0x47, 0xE6, 0xB5, 0x9F, 0x31, 0x10, 0xBC, 0xBB, 0x3A, 0xB6, 0xC2, 0x50,
    0xBC, 0x5A, 0xB0, 0x6C, 0x03, 0x2D, 0xAD, 0x43, 0x68, 0x4C, 0x24, 0x8F]

def gy224 : List UInt8 :=
  [0x0B, 0xD9, 0x41, 0x8D, 0xE8, 0xE3, 0xE4, 0x5D, 0x2D, 0x70, 0x1E, 0x02, 0x37, 0xFD, 0x7F, 0x2A,
    0xDE, 0x0D, 0x48, 0xB7, 0x4C, 0xEE, 0xF2, 0xF1, 0xC8, 0xAC, 0x48, 0x4E]

/-- What the services answer for one certificate. -/
structure CertAnswers where
  /-- `gcauthmgr_sm` for the CMAC -/
  cmac : Int32
  /-- `ksceSblDmac5AesCbcDec`, with the bytes it writes -/
  aesCbcDec : Int32 × Mem
  /-- `gcauthmgr_sm` for the public key, with the key -/
  multiply : Int32 × Mem
  /-- `ksceSha224Digest`, with the digest -/
  sha224Digest : Int32 × Mem
  /-- `gcauthmgr_sm` for the signature -/
  signature : Int32

/-- A call of a service, or a line that is printed. -/
inductive CertEvent where
  | aesCbcDec (data key : List UInt8)
  | gcauthmgrSm (command : Nat) (data : List UInt8)
  /-- `idstorage_read_vector 0x%X` -/
  | readFailed (res : Int32)
  /-- `sceSblDmac5AesCbcDec 0x%X` -/
  | decFailed (res : Int32)
  /-- `gcauthmgr_sm 0x%X` -/
  | multiplyFailed (res : Int32)
  /-- `cert pubkey->x does not match (%d)`, with 0 -/
  | xDiffers
  /-- `cert pubkey->y does not match (%d)`, with 0 -/
  | yDiffers
  /-- `cert private key is fine` -/
  | privKeyFine
  /-- `failed verify signature 0x%X` -/
  | signatureFailed (res : Int32)
  /-- `cert signature is valid` -/
  | signatureValid
  /-- `cert signature is invalid` -/
  | signatureInvalid
  /-- `failed cert cmac 0x%X` -/
  | cmacFailed (res : Int32)
  /-- `cert cmac is valid` -/
  | cmacValid
  /-- `cert cmac is invalid` -/
  | cmacInvalid
deriving DecidableEq

/-- The `n` bytes of a certificate from `a` on. -/
def bytesAt (cert : Mem) (a n : Nat) : List UInt8 := fill (fun b => cert (a + b)) n

/-- The end of a check that is one call: the result, and the line. -/
def verdict (res : Int32) (failed : Int32 → CertEvent) (valid invalid : CertEvent) : Int32 × CertEvent :=
  if res < 0 then (res, failed res)
  else if res = 0 then (0, valid)
  else (0, invalid)

section
variable (key : Mem) (k : CertAnswers) (cert : Mem)

/-- `key` is `kirk_0x17_aes_key`. -/
def verifyEcdsaPrivKey : Int32 × List CertEvent × Mem :=
  let dec := [.aesCbcDec (bytesAt cert encPrivKey 0x20) (fill key 0x10)]
  let cert := memcpyAt cert encPrivKey k.aesCbcDec.2 0x20
  if k.aesCbcDec.1 < 0 then (k.aesCbcDec.1, dec ++ [.decFailed k.aesCbcDec.1], cert) else
  let calls := dec ++ [.gcauthmgrSm 0x15 (bytesAt cert encPrivKey halfSize ++ gx224 ++ gy224)]
  if k.multiply.1 < 0 then (k.multiply.1, calls ++ [.multiplyFailed k.multiply.1], cert) else
  let x := if bytesAt cert pubKey halfSize ≠ bytesAt k.multiply.2 0 halfSize then [.xDiffers] else []
  let y := if bytesAt cert (pubKey + halfSize) halfSize ≠ bytesAt k.multiply.2 halfSize halfSize then [.yDiffers] else []
  (0, calls ++ x ++ y ++ [.privKeyFine], cert)

def verifyEcdsaSignature : Int32 × List CertEvent :=
  let r := verdict k.signature .signatureFailed .signatureValid .signatureInvalid
  (r.1, [.gcauthmgrSm 0x18 (bytesAt cert constantPubKey halfSize ++ bytesAt cert (constantPubKey + halfSize) halfSize ++
    bytesAt k.sha224Digest.2 0 halfSize ++ bytesAt cert signatureR halfSize ++ bytesAt cert signatureS halfSize), r.2])

def verifyCertCmac : Int32 × List CertEvent :=
  let r := verdict k.cmac .cmacFailed .cmacValid .cmacInvalid
  (r.1, [.gcauthmgrSm 0x19 (bytesAt cert 0 certSize), r.2])

def verifyPsp2Cert : Int32 × List CertEvent × Mem :=
  let cmac := verifyCertCmac k cert
  let (privKey, cert) :=
    if fill key 0x10 ≠ fill (fun _ => 0) 0x10 then (verifyEcdsaPrivKey key k cert).2 else ([], cert)
  let signature := verifyEcdsaSignature k cert
  (0, cmac.2 ++ privKey ++ signature.2, cert)

end

/-- What `cert_verify_entry` gets from outside. -/
structure EntryAnswers where
  key : Mem
  /-- `ksceIdStorageReadLeaf`, with the bytes it writes -/
  leaf : UInt32 → Int32 × Mem
  cert : Nat → CertAnswers

namespace EntryAnswers
variable (k : EntryAnswers)

/-- The loop of `idstorage_read_vector` over the leaves from the `i`-th on. -/
def readLoop (leafStart : UInt32) : (n i : Nat) → (leafData : Mem) → Int32 × Mem
  | 0, _, leafData => (0, leafData)
  | n + 1, i, leafData =>
    let r := k.leaf (leafStart + UInt32.ofNat i)
    let leafData := memcpyAt leafData (0x200 * i) r.2 0x200
    if r.1 < 0 then (r.1, leafData) else readLoop leafStart n (i + 1) leafData

def idstorageReadVector (leafStart : UInt32) (leafData : Mem) (leafSize : Nat) : Int32 × Mem :=
  k.readLoop leafStart leafSize 0 leafData

/-- `psp2_cert.psp2[i]` -/
def certAt (psp2Cert : Mem) (i : Nat) : Mem := fun b => psp2Cert (psp2Offset + certSize * i + b)

def certLoop : (n i : Nat) → (psp2Cert : Mem) → List CertEvent
  | 0, _, _ => []
  | n + 1, i, psp2Cert =>
    let r := verifyPsp2Cert k.key (k.cert i) (certAt psp2Cert i)
    r.2.1 ++ certLoop n (i + 1) (memcpyAt psp2Cert (psp2Offset + certSize * i) r.2.2 certSize)

def certVerifyEntry : Int32 × List CertEvent :=
  let psp := k.idstorageReadVector 0 (fun _ => 0) 8
  let psp2 := k.idstorageReadVector 0x40 (fun _ => 0) 8
  (0, (if psp.1 < 0 then [.readFailed psp.1] else []) ++ (if psp2.1 < 0 then [.readFailed psp2.1] else []) ++
    k.certLoop 6 0 psp2.2)

end EntryAnswers

/-! ### Verdicts -/

/-- A line that says that something has failed. -/
def CertEvent.isFailure : CertEvent → Bool
  | readFailed _ | decFailed _ | multiplyFailed _ | xDiffers | yDiffers => true
  | signatureFailed _ | signatureInvalid | cmacFailed _ | cmacInvalid => true
  | aesCbcDec _ _ | gcauthmgrSm _ _ | privKeyFine | signatureValid | cmacValid => false

def NoFailure (events : List CertEvent) : Prop := ∀ e ∈ events, e.isFailure = false

namespace CertAnswers
variable (k : CertAnswers) (cert : Mem)

/-- The recomputed public key comes to be compared. -/
def Recomputes : Prop := 0 ≤ k.aesCbcDec.1 ∧ 0 ≤ k.multiply.1

/-- Both halves of the recomputed key are the certificate's. -/
def SameX : Prop := bytesAt cert pubKey halfSize = bytesAt k.multiply.2 0 halfSize
def SameY : Prop := bytesAt cert (pubKey + halfSize) halfSize = bytesAt k.multiply.2 halfSize halfSize

/-- Every check of the certificate succeeds; that of the private key is one if there is a key. -/
structure Passes (key : Mem) : Prop where
  cmac : k.cmac = 0
  privKey : fill key 0x10 ≠ fill (fun _ => 0) 0x10 → k.Recomputes ∧ k.SameX cert ∧ k.SameY cert
  signature : k.signature = 0

/-- What the three checks return and print. -/
structure Reported (key : Mem) : Prop where
  privKey_res : (verifyEcdsaPrivKey key k cert).1 =
    if k.aesCbcDec.1 < 0 then k.aesCbcDec.1 else if k.multiply.1 < 0 then k.multiply.1 else 0
  xDiffers : .xDiffers ∈ (verifyEcdsaPrivKey key k cert).2.1 ↔ k.Recomputes ∧ ¬ k.SameX cert
  yDiffers : .yDiffers ∈ (verifyEcdsaPrivKey key k cert).2.1 ↔ k.Recomputes ∧ ¬ k.SameY cert
  privKeyFine : k.Recomputes → k.SameX cert → k.SameY cert → .privKeyFine ∈ (verifyEcdsaPrivKey key k cert).2.1
  signature_res : (verifyEcdsaSignature k cert).1 = if k.signature < 0 then k.signature else 0
  signatureValid : .signatureValid ∈ (verifyEcdsaSignature k cert).2 ↔ k.signature = 0
  signatureInvalid : .signatureInvalid ∈ (verifyEcdsaSignature k cert).2 ↔ 0 < k.signature
  cmac_res : (verifyCertCmac k cert).1 = if k.cmac < 0 then k.cmac else 0
  cmacValid : .cmacValid ∈ (verifyCertCmac k cert).2 ↔ k.cmac = 0
  cmacInvalid : .cmacInvalid ∈ (verifyCertCmac k cert).2 ↔ 0 < k.cmac

end CertAnswers

section
variable {key cert m m' src : Mem} {k : CertAnswers} {res : Int32} {failed : Int32 → CertEvent} {valid invalid e : CertEvent}
  {es es' : List CertEvent} {a b n : Nat}

theorem pos_of_not {res : Int32} (hneg : ¬ res < 0) (hne : res ≠ 0) : 0 < res := by
  rw [Int32.lt_iff_toInt_lt] at *
  have h0 := mt Int32.toInt_inj.1 hne
  have hz : (0 : Int32).toInt = 0 := rfl
  omega

theorem noFailure_append : NoFailure (es ++ es') ↔ NoFailure es ∧ NoFailure es' := List.forall_mem_append

theorem noFailure_cons : NoFailure (e :: es) ↔ e.isFailure = false ∧ NoFailure es := List.forall_mem_cons

theorem noFailure_nil : NoFailure [] := List.forall_mem_nil _

theorem noFailure_ite {p : Prop} [Decidable p] (he : e.isFailure) : NoFailure (if p then [e] else []) ↔ ¬ p := by
  split_ifs with h
  · exact iff_of_false (fun hno => absurd (hno e (List.mem_singleton_self e)) (by simp [he])) (not_not.2 h)
  · exact iff_of_true noFailure_nil h

theorem verdict_res : (verdict res failed valid invalid).1 = if res < 0 then res else 0 := by
  unfold verdict
  split_ifs <;> rfl

/-- A verdict is the line that its answer calls for, when the three are told apart. -/
theorem verdict_line (hvalid : ∀ r, failed r ≠ valid) (hinvalid : ∀ r, failed r ≠ invalid) (hne : valid ≠ invalid) :
    ((verdict res failed valid invalid).2 = valid ↔ res = 0) ∧
      ((verdict res failed valid invalid).2 = invalid ↔ 0 < res) := by
  unfold verdict
  split_ifs with hneg hzero
  · exact ⟨iff_of_false (hvalid res) fun h => absurd (h ▸ hneg) (by decide),
      iff_of_false (hinvalid res) (Int32.lt_asymm hneg)⟩
  · exact ⟨iff_of_true rfl hzero, iff_of_false hne fun h => absurd (hzero ▸ h) (by decide)⟩
  · exact ⟨iff_of_false hne.symm hzero, iff_of_true rfl (pos_of_not hneg hzero)⟩

theorem bytesAt_memcpyAt (h : a + n ≤ b) {n' : Nat} : bytesAt (memcpyAt m b src n') a n = bytesAt m a n := by
  refine List.map_congr_left fun i hi => ?_
  have hlt := List.mem_range.1 hi
  exact if_neg (by omega)

/-- The private key is decrypted in place, which leaves the public key as it is. -/
theorem x_kept : bytesAt (memcpyAt cert encPrivKey src 0x20) pubKey halfSize = bytesAt cert pubKey halfSize :=
  bytesAt_memcpyAt (by decide)

theorem y_kept : bytesAt (memcpyAt cert encPrivKey src 0x20) (pubKey + halfSize) halfSize =
    bytesAt cert (pubKey + halfSize) halfSize := bytesAt_memcpyAt (by decide)

theorem verdict_noFailure (hvalid : valid.isFailure = false) (hfailed : ∀ r, (failed r).isFailure)
    (hinvalid : invalid.isFailure) : (verdict res failed valid invalid).2.isFailure = false ↔ res = 0 := by
  unfold verdict
  split_ifs with hneg hzero
  · exact iff_of_false (by simp [hfailed]) fun h => absurd (h ▸ hneg) (by decide)
  · exact iff_of_true hvalid hzero
  · exact iff_of_false (by simp [hinvalid]) hzero

theorem reported : k.Reported cert key := by
  have hsig := @verdict_line k.signature .signatureFailed .signatureValid .signatureInvalid
    (by simp) (by simp) (by simp)
  have hcmac := @verdict_line k.cmac .cmacFailed .cmacValid .cmacInvalid (by simp) (by simp) (by simp)
  refine ⟨?_, ?_, ?_, fun h _ _ => ?_, verdict_res, ?_, ?_, verdict_res, ?_, ?_⟩
  · unfold verifyEcdsaPrivKey
    split_ifs <;> rfl
  · unfold verifyEcdsaPrivKey CertAnswers.Recomputes CertAnswers.SameX
    rw [← Int32.not_lt, ← Int32.not_lt]
    split_ifs with hdec hmul <;> simp [x_kept, y_kept, *]
  · unfold verifyEcdsaPrivKey CertAnswers.Recomputes CertAnswers.SameY
    rw [← Int32.not_lt, ← Int32.not_lt]
    split_ifs with hdec hmul <;> simp [x_kept, y_kept, *]
  · unfold verifyEcdsaPrivKey
    rw [if_neg (Int32.not_lt.2 h.1), if_neg (Int32.not_lt.2 h.2)]
    simp
  · simpa [verifyEcdsaSignature, eq_comm] using hsig.1
  · simpa [verifyEcdsaSignature, eq_comm] using hsig.2
  · simpa [verifyCertCmac, eq_comm] using hcmac.1
  · simpa [verifyCertCmac, eq_comm] using hcmac.2

/-- A check that is one call tells of a failure unless the answer is 0. -/
theorem called_noFailure {cmd : Nat} {input : List UInt8} (hvalid : valid.isFailure = false)
    (hfailed : ∀ r, (failed r).isFailure) (hinvalid : invalid.isFailure) :
    NoFailure [.gcauthmgrSm cmd input, (verdict res failed valid invalid).2] ↔ res = 0 := by
  rw [noFailure_cons, noFailure_cons, verdict_noFailure hvalid hfailed hinvalid]
  exact ⟨fun h => h.2.1, fun h => ⟨rfl, h, noFailure_nil⟩⟩

theorem verifyCertCmac_noFailure : NoFailure (verifyCertCmac k cert).2 ↔ k.cmac = 0 := by
  unfold verifyCertCmac
  exact called_noFailure rfl (fun _ => rfl) rfl

theorem verifyEcdsaSignature_noFailure : NoFailure (verifyEcdsaSignature k cert).2 ↔ k.signature = 0 := by
  unfold verifyEcdsaSignature
  exact called_noFailure rfl (fun _ => rfl) rfl

theorem verifyEcdsaPrivKey_noFailure : NoFailure (verifyEcdsaPrivKey key k cert).2.1 ↔
    k.Recomputes ∧ k.SameX cert ∧ k.SameY cert := by
  unfold verifyEcdsaPrivKey CertAnswers.Recomputes CertAnswers.SameX CertAnswers.SameY
  rw [← Int32.not_lt, ← Int32.not_lt]
  dsimp only
  by_cases hdec : k.aesCbcDec.1 < 0
  · rw [if_pos hdec]
    exact iff_of_false (fun h => absurd (h (.decFailed k.aesCbcDec.1) (by simp)) nofun) fun h => h.1.1 hdec
  by_cases hmul : k.multiply.1 < 0
  · rw [if_neg hdec, if_pos hmul]
    exact iff_of_false (fun h => absurd (h (.multiplyFailed k.multiply.1) (by simp)) nofun) fun h => h.1.2 hmul
  rw [if_neg hdec, if_neg hmul, x_kept, y_kept]
  dsimp only
  rw [noFailure_append, noFailure_append, noFailure_append, noFailure_ite rfl, noFailure_ite rfl, not_not, not_not]
  have hcalls : NoFailure [.aesCbcDec (bytesAt cert encPrivKey 0x20) (fill key 0x10), .gcauthmgrSm 0x15
      (bytesAt (memcpyAt cert encPrivKey k.aesCbcDec.2 0x20) encPrivKey halfSize ++ gx224 ++ gy224)] := by
    simp [NoFailure, CertEvent.isFailure]
  have hfine : NoFailure [.privKeyFine] := by simp [NoFailure, CertEvent.isFailure]
  exact ⟨fun h => ⟨⟨hdec, hmul⟩, h.1.1.2, h.1.2⟩, fun h => ⟨⟨⟨hcalls, h.2.1⟩, h.2.2⟩, hfine⟩⟩

theorem verifyPsp2Cert_noFailure : NoFailure (verifyPsp2Cert key k cert).2.1 ↔ k.Passes cert key := by
  unfold verifyPsp2Cert
  dsimp only
  rw [noFailure_append, noFailure_append, verifyCertCmac_noFailure, verifyEcdsaSignature_noFailure]
  split_ifs with hkey
  · rw [verifyEcdsaPrivKey_noFailure]
    exact ⟨fun h => ⟨h.1.1, fun _ => h.1.2, h.2⟩, fun h => ⟨⟨h.cmac, h.privKey hkey⟩, h.signature⟩⟩
  · exact ⟨fun h => ⟨h.1.1, fun hne => absurd hne hkey, h.2⟩, fun h => ⟨⟨h.cmac, noFailure_nil⟩, h.signature⟩⟩

end

namespace EntryAnswers
variable {k : EntryAnswers} {m r : Mem} {i j n : Nat} {leafStart : UInt32}

/-- `psp2_cert` after it is read. -/
def psp2Cert (k : EntryAnswers) : Mem := (k.idstorageReadVector 0x40 (fun _ => 0) 8).2

/-- Every leaf is read. -/
structure Reads (k : EntryAnswers) : Prop where
  psp : ∀ i < 8, 0 ≤ (k.leaf (0 + UInt32.ofNat i)).1
  psp2 : ∀ i < 8, 0 ≤ (k.leaf (0x40 + UInt32.ofNat i)).1

/-- The result is negative when a leaf is not read. -/
theorem readLoop_nonneg : ¬ (k.readLoop leafStart n i m).1 < 0 ↔
    ∀ j, i ≤ j → j < i + n → 0 ≤ (k.leaf (leafStart + UInt32.ofNat j)).1 := by
  induction n generalizing i m with
  | zero => exact iff_of_true (by simp [readLoop]) (fun j h₁ h₂ => by omega)
  | succ n ih =>
    unfold readLoop
    dsimp only
    split
    · next hneg =>
      exact iff_of_false (not_not.2 hneg) fun h => Int32.not_lt.2 (h i (Nat.le_refl _) (by omega)) hneg
    · next hneg =>
      rw [ih]
      constructor
      · intro h j h₁ h₂
        by_cases heq : j = i
        · exact heq ▸ Int32.not_lt.1 hneg
        · exact h j (by omega) (by omega)
      · exact fun h j h₁ h₂ => h j (by omega) (by omega)

/-- A certificate is not changed when one before it is. -/
theorem certAt_memcpyAt (h : i < j) : certAt (memcpyAt m (psp2Offset + certSize * i) r certSize) j = certAt m j := by
  funext b
  refine if_neg fun hb => ?_
  have hij := Nat.mul_le_mul_left certSize h
  rw [Nat.mul_succ] at hij
  omega

/-- Each of the certificates is verified as it is read. -/
theorem certLoop_eq : k.certLoop n i m =
    (List.range' i n).flatMap fun j => (verifyPsp2Cert k.key (k.cert j) (certAt m j)).2.1 := by
  induction n generalizing i m with
  | zero => rfl
  | succ n ih =>
    unfold certLoop
    dsimp only
    rw [ih, List.range'_succ, List.flatMap_cons]
    refine congrArg _ (List.flatMap_congr fun j hj => ?_)
    rw [certAt_memcpyAt (List.mem_range'_1.1 hj).1]

theorem idstorageReadVector_nonneg : ¬ (k.idstorageReadVector leafStart m n).1 < 0 ↔
    ∀ i < n, 0 ≤ (k.leaf (leafStart + UInt32.ofNat i)).1 := by
  unfold idstorageReadVector
  rw [readLoop_nonneg]
  simp

theorem certVerifyEntry_noFailure : NoFailure k.certVerifyEntry.2 ↔
    k.Reads ∧ ∀ i < 6, (k.cert i).Passes (certAt k.psp2Cert i) k.key := by
  unfold certVerifyEntry
  dsimp only
  rw [noFailure_append, noFailure_append, noFailure_ite rfl, noFailure_ite rfl, idstorageReadVector_nonneg, idstorageReadVector_nonneg, certLoop_eq]
  have hcerts : NoFailure ((List.range' 0 6).flatMap fun j =>
      (verifyPsp2Cert k.key (k.cert j) (certAt (k.idstorageReadVector 0x40 (fun _ => 0) 8).2 j)).2.1) ↔
      ∀ i < 6, (k.cert i).Passes (certAt k.psp2Cert i) k.key := by
    constructor
    · intro h i hi
      exact verifyPsp2Cert_noFailure.1 fun e he =>
        h e (List.mem_flatMap.2 ⟨i, List.mem_range'_1.2 ⟨Nat.zero_le _, by omega⟩, he⟩)
    · intro h e he
      obtain ⟨i, hi, hmem⟩ := List.mem_flatMap.1 he
      exact verifyPsp2Cert_noFailure.2 (h i (by have := (List.mem_range'_1.1 hi).2; omega)) e hmem
  rw [hcerts]
  exact ⟨fun ⟨⟨h₁, h₂⟩, h₃⟩ => ⟨⟨h₁, h₂⟩, h₃⟩, fun ⟨⟨h₁, h₂⟩, h₃⟩ => ⟨⟨h₁, h₂⟩, h₃⟩⟩

end EntryAnswers

/-- The verdicts are printed: each check reports what its services answered, every certificate is verified whatever the
others gave, with 0 for a result, and no line tells of a failure exactly when every read and every check has succeeded. -/
theorem verdicts_printed (k : EntryAnswers) : (∀ (key cert : Mem) (a : CertAnswers), a.Reported cert key) ∧
    (∀ (key cert : Mem) (a : CertAnswers), (verifyPsp2Cert key a cert).1 = 0) ∧ k.certVerifyEntry.1 = 0 ∧
    (∀ i < 6, (verifyPsp2Cert k.key (k.cert i) (EntryAnswers.certAt k.psp2Cert i)).2.1 <:+: k.certVerifyEntry.2) ∧
    (NoFailure k.certVerifyEntry.2 ↔ k.Reads ∧ ∀ i < 6, (k.cert i).Passes (EntryAnswers.certAt k.psp2Cert i) k.key) := by
  refine ⟨fun _ _ _ => reported, fun _ _ _ => rfl, rfl, fun i hi => ?_, EntryAnswers.certVerifyEntry_noFailure⟩
  unfold EntryAnswers.certVerifyEntry
  dsimp only
  rw [EntryAnswers.certLoop_eq, List.flatMap]
  refine List.IsInfix.trans (List.infix_of_mem_flatten ?_) (List.suffix_append _ _).isInfix
  exact List.mem_map.2 ⟨i, List.mem_range'_1.2 ⟨Nat.zero_le _, by omega⟩, rfl⟩

/-- What the services answer for a certificate whose CMAC and signature are invalid, and whose public key is another. -/
def invalidCert : CertAnswers := ⟨1, (0, fun _ => 0), (0, fun _ => 1), (0, fun _ => 0), 1⟩

/-- The results are 0 all the same. -/
theorem invalidCert_fail : (verifyEcdsaSignature invalidCert fun _ => 0).1 = 0 ∧
    (verifyCertCmac invalidCert fun _ => 0).1 = 0 ∧ (verifyEcdsaPrivKey (fun _ => 2) invalidCert fun _ => 0).1 = 0 ∧
    (verifyPsp2Cert (fun _ => 2) invalidCert fun _ => 0).1 = 0 ∧ (∀ cert key, ¬ invalidCert.Passes cert key) ∧
    (EntryAnswers.mk (fun _ => 2) (fun _ => (-1, fun _ => 0)) fun _ => invalidCert).certVerifyEntry.1 = 0 := by
  refine ⟨rfl, rfl, rfl, rfl, fun cert key h => absurd h.cmac (by decide), rfl⟩

end VitaUtility.IdstorageVerifier

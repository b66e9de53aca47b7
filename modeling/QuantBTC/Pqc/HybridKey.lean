/-
# Pqc.HybridKey -- signing and verifying with two keys

`pqc::HybridKey` holds an ECDSA key and a post-quantum key pair.  `Sign` takes the format of
the signature from the configuration: the ECDSA signature alone, or its length in one byte,
the ECDSA signature and the post-quantum one.  `Verify` takes the format from the keys it
holds, and finds the algorithm by the size of the public key where `Sign` finds it by the
size of the private key.
-/
import QuantBTC.Pqc.Manager
import QuantBTC.Wallet.Sign

namespace QuantBTC.Pqc

set_option autoImplicit false

open Primitives Script
open QuantBTC.Wallet (CKey PQCConfig PQCSignatureScheme)

structure Settings extends PQCConfig where
  enablePqc : Bool
  signingOverride : Option Bool
deriving DecidableEq, Repr

def Settings.shouldSignPQC (settings : Settings) : Bool :=
  settings.toPQCConfig.shouldSignPQC settings.signingOverride

structure Primitives extends Libraries where
  /-- `CKey::MakeNewKey(true)`, of the bytes the generator of random numbers gives -/
  makeNewKey : Bytes → CKey
  /-- `CKey::Sign` -/
  signEcdsa : CKey → Uint256 → Option Bytes
  getPubKey : CKey → CPubKey
  /-- `CPubKey::Verify` -/
  verifyEcdsa : CPubKey → Uint256 → Bytes → Bool

structure HybridKey where
  mIsValid : Bool := false
  mClassicalKey : CKey := {}
  mPqcPublicKey : Bytes := []
  mPqcPrivateKey : Bytes := []
deriving DecidableEq, Repr

def getAlgoFromPublicKeySize (pubkeySize : Nat) : Option (PQCAlgorithm × Nat) :=
  if pubkeySize = PqcScheme.falcon.publicKeySize then
    some (.falcon, PqcScheme.falcon.signatureSize)
  else if pubkeySize = PqcScheme.falcon1024.publicKeySize then
    some (.falcon1024, PqcScheme.falcon1024.signatureSize)
  else if pubkeySize = PqcScheme.dilithium.publicKeySize then
    some (.dilithium, PqcScheme.dilithium.signatureSize)
  else none

def keygenAlgo : PQCSignatureScheme → PQCAlgorithm
  | .falcon => .falcon
  | .falcon1024 => .falcon1024
  | .dilithium | .sphincsPlus => .dilithium

def algoOfPrivateKeySize (size : Nat) : PQCAlgorithm :=
  if size = privateKeySize .falcon then .falcon
  else if size = privateKeySize .falcon1024 then .falcon1024
  else .dilithium

namespace HybridKey

variable (prims : Primitives) (key : HybridKey)

/-! ## Setting the keys -/

def generate (settings : Settings) (classicalEntropy pqcEntropy : Bytes) : HybridKey × Bool :=
  let key := { key with mClassicalKey := prims.makeNewKey classicalEntropy }
  if settings.enablePqc then
    match prims.generateSignatureKeyPair (keygenAlgo settings.preferredSigScheme) pqcEntropy with
    | none => ({ key with mPqcPublicKey := [], mIsValid := false }, false)
    | some (publicKey, privateKey) =>
      ({ key with mPqcPublicKey := publicKey, mPqcPrivateKey := privateKey, mIsValid := true },
        true)
  else ({ key with mIsValid := true }, true)

def setClassicalKey (settings : Settings) (classical : CKey) : HybridKey × Bool :=
  if classical.isValid then
    ({ key with
        mClassicalKey := classical
        mIsValid := key.mPqcPublicKey != [] || !settings.enablePqc }, true)
  else (key, false)

def setPQCKey (publicKey privateKey : Bytes) : HybridKey × Bool :=
  if publicKey = [] ∨ privateKey = [] then (key, false)
  else
    ({ key with
        mPqcPublicKey := publicKey
        mPqcPrivateKey := privateKey
        mIsValid := key.mClassicalKey.isValid }, true)

/-! ## Signing and verifying -/

def signPQCMessage (message : Bytes) : Option Bytes :=
  if key.mPqcPrivateKey = [] ∨ key.mPqcPublicKey = [] then none
  else prims.sign (algoOfPrivateKeySize key.mPqcPrivateKey.length) message key.mPqcPrivateKey

def sign (settings : Settings) (hash : Uint256) : Option Bytes :=
  if key.mIsValid then do
    let classicalSig ← prims.signEcdsa key.mClassicalKey hash
    if settings.shouldSignPQC then
      if key.mPqcPrivateKey = [] then none
      else
        let pqcSig ← key.signPQCMessage prims (uint256Bytes hash)
        -- the cast to `uint8_t`
        some (UInt8.ofNat classicalSig.length :: (classicalSig ++ pqcSig))
    else some classicalSig
  else none

def verifyPqcOnly (hash : Uint256) (signature : Bytes) : Bool :=
  match getAlgoFromPublicKeySize key.mPqcPublicKey.length with
  | none => false
  | some (algo, expectedSigSize) =>
    signature.length == expectedSigSize &&
      prims.verify algo (uint256Bytes hash) signature key.mPqcPublicKey

def verifyHybrid (hash : Uint256) (signature : Bytes) : Bool :=
  match getAlgoFromPublicKeySize key.mPqcPublicKey.length with
  | none => false
  | some (algo, expectedPqcSigSize) =>
    if signature.length < 2 then false
    else
      let csigLen := (signature.headD 0).toNat
      let expectedHybridSize := 1 + csigLen + expectedPqcSigSize
      if signature.length < expectedHybridSize then false
      else if expectedHybridSize < signature.length then false
      else
        let classicalSig := (signature.drop 1).take csigLen
        let pqcSig := signature.drop (1 + csigLen)
        pqcSig.length == expectedPqcSigSize &&
          prims.verifyEcdsa (prims.getPubKey key.mClassicalKey) hash classicalSig &&
          prims.verify algo (uint256Bytes hash) pqcSig key.mPqcPublicKey

def verify (hash : Uint256) (signature : Bytes) : Option Bool :=
  if key.mIsValid = false then some false
  else if key.mClassicalKey.isValid = false ∧ key.mPqcPublicKey ≠ [] then
    some (key.verifyPqcOnly prims hash signature)
  else if key.mPqcPublicKey = [] then
    if key.mClassicalKey.isValid then
      some (prims.verifyEcdsa (prims.getPubKey key.mClassicalKey) hash signature)
    else none
  else some (key.verifyHybrid prims hash signature)

/-! ## The post-quantum half in the wallet -/

def pqcHalf : Wallet.HybridKey := ⟨key.mPqcPublicKey, key.mPqcPrivateKey⟩

theorem pqcHalf_setPQCKey (publicKey privateKey : Bytes) :
    ((key.setPQCKey publicKey privateKey).1.pqcHalf, (key.setPQCKey publicKey privateKey).2)
      = key.pqcHalf.setPQCKey publicKey privateKey := by
  unfold setPQCKey Wallet.HybridKey.setPQCKey
  split <;> rfl

theorem signPQCMessage_pqcHalf {signer : Wallet.Signer}
    (dilithium : signer.dilithiumSign = fun priv message => prims.schemeSign .dilithium message priv)
    (falcon : signer.falconSign = fun priv message => prims.schemeSign .falcon message priv)
    (falcon1024 : signer.falcon1024Sign =
      fun priv message => prims.schemeSign .falcon1024 message priv) (message : Bytes) :
    Wallet.SignatureCreator.signPQCMessage signer key.pqcHalf message
      = key.signPQCMessage prims message := by
  unfold Wallet.SignatureCreator.signPQCMessage signPQCMessage algoOfPrivateKeySize
  rw [dilithium, falcon, falcon1024]
  refine if_congr Iff.rfl rfl ?_
  grind [pqcHalf, privateKeySize, Libraries.sign, PQCAlgorithm.scheme]

/-! ## Accepted strings -/

structure Splits (hash : Uint256) (signature : Bytes) (parts : Bytes × Bytes) : Prop where
  layout : ∃ csigLen : UInt8, signature = csigLen :: (parts.1 ++ parts.2) ∧
    parts.1.length = csigLen.toNat
  ecdsa : prims.verifyEcdsa (prims.getPubKey key.mClassicalKey) hash parts.1 = true
  pqc : ∃ algo sigSize,
    getAlgoFromPublicKeySize key.mPqcPublicKey.length = some (algo, sigSize) ∧
      parts.2.length = sigSize ∧
      prims.verify algo (uint256Bytes hash) parts.2 key.mPqcPublicKey = true

variable {prims key} {hash : Uint256} {signature : Bytes} {parts parts' : Bytes × Bytes}

theorem Splits.unique (splits : key.Splits prims hash signature parts)
    (splits' : key.Splits prims hash signature parts') : parts = parts' := by
  obtain ⟨csigLen, rfl, size⟩ := splits.layout
  obtain ⟨csigLen', same, size'⟩ := splits'.layout
  grind [List.cons.inj, List.append_inj, Prod.ext]

theorem verifyHybrid_iff :
    key.verifyHybrid prims hash signature = true ↔
      ∃ parts, key.Splits prims hash signature parts := by
  unfold verifyHybrid
  constructor
  · intro accepted
    split at accepted
    · cases accepted
    next algo sigSize known =>
      simp only [Bool.if_false_left, Bool.and_eq_true, Bool.not_eq_true', decide_eq_false_iff_not,
        beq_iff_eq] at accepted
      obtain ⟨twoBytes, notShort, notLong, ⟨pqcSize, ecdsa⟩, pqc⟩ := accepted
      cases signature with
      | nil => exact absurd (by simp) twoBytes
      | cons csigLen behind =>
        simp only [List.headD_cons, List.length_cons, List.drop_succ_cons, List.drop_zero,
          Nat.add_comm 1 csigLen.toNat] at *
        refine ⟨(behind.take csigLen.toNat, behind.drop csigLen.toNat), ?_, ecdsa, ?_⟩
        · refine ⟨csigLen, by simp, ?_⟩
          simp only [List.length_take]
          omega
        · exact ⟨algo, sigSize, known, pqcSize, pqc⟩
  · rintro ⟨⟨classicalSig, pqcSig⟩, ⟨csigLen, rfl, size⟩, ecdsa, algo, sigSize, known, pqcSize, pqc⟩
    simp only at size pqcSize ecdsa pqc
    have large : 666 ≤ sigSize := by
      unfold getAlgoFromPublicKeySize at known
      split_ifs at known <;> cases known <;> decide
    grind

theorem verify_iff (classical : key.mClassicalKey.isValid = true) (pqc : key.mPqcPublicKey ≠ []) :
    key.verify prims hash signature = some true ↔
      key.mIsValid = true ∧ ∃ parts, key.Splits prims hash signature parts := by
  grind [verifyHybrid_iff, verify]

theorem Splits.length_eq (splits : key.Splits prims hash signature parts) :
    ∃ algo sigSize, getAlgoFromPublicKeySize key.mPqcPublicKey.length = some (algo, sigSize) ∧
      signature.length = 1 + (signature.headD 0).toNat + sigSize := by
  obtain ⟨csigLen, rfl, size⟩ := splits.layout
  obtain ⟨algo, sigSize, known, pqcSize, -⟩ := splits.pqc
  grind

theorem Splits.size_spec (splits : key.Splits prims hash signature parts) :
    667 ≤ signature.length ∧ ∀ scheme : PqcScheme, signature.length ≠ scheme.signatureSize := by
  obtain ⟨algo, sigSize, known, size⟩ := splits.length_eq
  have header := (signature.headD 0).toNat_lt
  -- a byte over the signature of one scheme does not reach that of another
  have sizes : sigSize = 666 ∨ sigSize = 1280 ∨ sigSize = 2420 := by
    unfold getAlgoFromPublicKeySize at known
    split_ifs at known <;> cases known <;> decide
  refine ⟨by omega, fun scheme => ?_⟩
  cases scheme <;> simp only [PqcScheme.signatureSize] <;> omega

theorem Splits.eq_of_begins {signature' : Bytes} (splits : key.Splits prims hash signature parts)
    (splits' : key.Splits prims hash signature' parts') (begins : signature <+: signature') :
    signature = signature' := by
  obtain ⟨_, _, known, size⟩ := splits.length_eq
  obtain ⟨_, _, known', size'⟩ := splits'.length_eq
  obtain ⟨_, rfl⟩ : _ ∧ _ := Prod.mk.injEq _ _ _ _ ▸ Option.some.inj (known.symm.trans known')
  obtain ⟨csigLen, rfl, -⟩ := splits.layout
  obtain ⟨csigLen', rfl, -⟩ := splits'.layout
  obtain ⟨rfl, -⟩ := List.cons_prefix_cons.mp begins
  exact begins.eq_of_length (size.trans size'.symm)

end HybridKey

/-! ## Keys made by the setters -/

structure Primitives.Correct (prims : Primitives) : Prop where
  newKey : ∀ entropy, (prims.makeNewKey entropy).isValid = true
  ecdsa : ∀ {key : CKey}, key.isValid = true → ∀ hash, ∃ sig, prims.signEcdsa key hash = some sig ∧
    sig.length ≤ 72 ∧ prims.verifyEcdsa (prims.getPubKey key) hash sig = true
  schemes : prims.toLibraries.Correct

def Primitives.Matching (prims : Primitives) (publicKey privateKey : Bytes) : Prop :=
  ∃ scheme entropy, prims.cryptoSignKeypair scheme entropy = some (publicKey, privateKey)

inductive SetCall where
  | generate (settings : Settings) (classicalEntropy pqcEntropy : Bytes)
  | setClassicalKey (settings : Settings) (classical : CKey)
  | setPQCKey (publicKey privateKey : Bytes)

namespace HybridKey

variable (prims : Primitives)

def set (key : HybridKey) : SetCall → HybridKey
  | .generate settings classicalEntropy pqcEntropy =>
    (key.generate prims settings classicalEntropy pqcEntropy).1
  | .setClassicalKey settings classical => (key.setClassicalKey settings classical).1
  | .setPQCKey publicKey privateKey => (key.setPQCKey publicKey privateKey).1

def build (calls : List SetCall) : HybridKey := calls.foldl (set prims) {}

structure Marked (key : HybridKey) : Prop where
  both : key.mPqcPublicKey ≠ [] → key.mIsValid = key.mClassicalKey.isValid
  one : key.mIsValid = true → key.mClassicalKey.isValid = true ∨ key.mPqcPublicKey ≠ []

variable {prims} {key : HybridKey}

theorem Marked.set (correct : prims.Correct) (marked : key.Marked) (call : SetCall) :
    (key.set prims call).Marked := by
  cases call with
  | generate settings classicalEntropy pqcEntropy =>
    have fresh := correct.newKey classicalEntropy
    simp only [HybridKey.set, generate]
    split
    · split
      · exact ⟨fun has => absurd rfl has, nofun⟩
      · exact ⟨fun _ => fresh.symm, fun _ => .inl fresh⟩
    · exact ⟨fun _ => fresh.symm, fun _ => .inl fresh⟩
  | setClassicalKey settings classical =>
    simp only [HybridKey.set, setClassicalKey]
    split
    next valid =>
      refine ⟨fun has => ?_, fun _ => .inl valid⟩
      simp only at has
      simp [has, valid]
    · exact marked
  | setPQCKey publicKey privateKey =>
    simp only [HybridKey.set, setPQCKey]
    split
    · exact marked
    · exact ⟨fun _ => rfl, .inl⟩

theorem build_marked (correct : prims.Correct) (calls : List SetCall) :
    (build prims calls).Marked := by
  have run : ∀ key : HybridKey, key.Marked → (calls.foldl (HybridKey.set prims) key).Marked := by
    induction calls with
    | nil => exact fun _ marked => marked
    | cons call calls ih => exact fun key marked => ih _ (marked.set correct call)
  exact run {} ⟨fun has => absurd rfl has, nofun⟩

theorem verify_build_ne_none (correct : prims.Correct) (calls : List SetCall) (hash : Uint256)
    (signature : Bytes) : (build prims calls).verify prims hash signature ≠ none := by
  have marked := build_marked correct calls
  unfold verify
  split
  · nofun
  next valid =>
    split
    · nofun
    · split
      next noPqc =>
        rw [if_pos ((marked.one (by simpa using valid)).resolve_right (by simp [noPqc]))]
        nofun
      · nofun

theorem signPQCMessage_verifies {scheme : PqcScheme} {message signature : Bytes}
    (pair : prims.KeyPair scheme key.mPqcPublicKey key.mPqcPrivateKey)
    (signed : key.signPQCMessage prims message = some signature) :
    ∃ algo, getAlgoFromPublicKeySize key.mPqcPublicKey.length = some (algo, signature.length) ∧
      prims.verify algo message signature key.mPqcPublicKey = true := by
  rw [signPQCMessage] at signed
  split at signed
  · cases signed
  · rw [pair.privSize] at signed
    rw [pair.pubSize]
    cases scheme with
    | sphincs =>
      have refused : prims.schemeSign .dilithium message key.mPqcPrivateKey = none := by
        rw [Libraries.schemeSign, if_neg]
        rw [pair.privSize]
        decide
      cases refused.symm.trans signed
    | dilithium =>
      obtain ⟨size, verified⟩ := pair.sign_verify (by decide) signed
      exact ⟨.dilithium, by rw [size]; rfl, verified⟩
    | falcon =>
      obtain ⟨size, verified⟩ := pair.sign_verify (by decide) signed
      exact ⟨.falcon, by rw [size]; rfl, verified⟩
    | falcon1024 =>
      obtain ⟨size, verified⟩ := pair.sign_verify (by decide) signed
      exact ⟨.falcon1024, by rw [size]; rfl, verified⟩

/-! ### A sample key -/

def sampleLibraries : Libraries where
  cryptoSignKeypair scheme _ :=
    some (List.replicate scheme.publicKeySize 1, List.replicate (privateKeySize scheme) 2)
  cryptoSignSignature scheme _ _ _ := some (List.replicate scheme.signatureSize 3)
  cryptoSignVerify scheme _ signature _ _ := signature == List.replicate scheme.signatureSize 3

def sampleEcdsaSig : Bytes := [0x30, 6, 2, 1, 1, 2, 1, 1]

def samplePrimitives : Primitives where
  toLibraries := sampleLibraries
  makeNewKey _ := ⟨List.replicate 32 1, true⟩
  signEcdsa _ _ := some sampleEcdsaSig
  getPubKey _ := ⟨0x02 :: List.replicate 32 7, rfl⟩
  verifyEcdsa _ _ sig := sig == sampleEcdsaSig

theorem samplePrimitives_correct : samplePrimitives.Correct where
  newKey _ := rfl
  ecdsa _ _ := ⟨sampleEcdsaSig, rfl, by decide, beq_self_eq_true sampleEcdsaSig⟩
  schemes := by
    rintro scheme entropy publicKey privateKey ⟨⟩
    exact ⟨List.length_replicate, List.length_replicate, by
      rintro context message signature ⟨⟩
      exact beq_self_eq_true _⟩

def falconCalls (settings : Settings) : List SetCall :=
  [.setClassicalKey settings ⟨List.replicate 32 1, true⟩,
    .setPQCKey (List.replicate 897 1) (List.replicate 1281 2)]

def defaultSettings : Settings where
  enableHybridSignatures := false
  preferredSigScheme := .falcon
  enablePqc := false
  signingOverride := none

def hybridSettings : Settings :=
  { defaultSettings with enableHybridSignatures := true, enablePqc := true }

def falconKey : HybridKey := build samplePrimitives (falconCalls hybridSettings)

def falconHybridSig : Bytes := 8 :: (sampleEcdsaSig ++ List.replicate 666 3)

/-! ## What is accepted, and what is signed -/

/-- **No downgrade**: an accepted string splits in one way, with both parts verifying.  It is
longer than any ECDSA signature and is no post-quantum signature by size, and no other string
that it begins or that begins it is accepted. -/
theorem verify_no_downgrade (prims : Primitives) (key : HybridKey)
    (classical : key.mClassicalKey.isValid = true) (pqc : key.mPqcPublicKey ≠ []) (hash : Uint256)
    (signature : Bytes) (accepted : key.verify prims hash signature = some true) :
    (∃! parts, key.Splits prims hash signature parts) ∧
      72 < signature.length ∧ (∀ scheme : PqcScheme, signature.length ≠ scheme.signatureSize) ∧
      ∀ other, other <+: signature ∨ signature <+: other → other ≠ signature →
        key.verify prims hash other ≠ some true := by
  obtain ⟨-, parts, splits⟩ := (verify_iff classical pqc).mp accepted
  refine ⟨⟨parts, splits, fun parts' splits' => splits'.unique splits⟩, ?_, splits.size_spec.2, ?_⟩
  · have := splits.size_spec.1
    omega
  · intro other related differs alsoAccepted
    obtain ⟨-, parts', splits'⟩ := (verify_iff classical pqc).mp alsoAccepted
    rcases related with begins | continues
    · exact differs (splits'.eq_of_begins splits begins)
    · exact differs (splits.eq_of_begins splits' continues).symm

theorem verify_no_downgrade_falcon :
    falconKey.verify samplePrimitives 7 falconHybridSig = some true ∧
      ∀ other, other <+: falconHybridSig ∨ falconHybridSig <+: other → other ≠ falconHybridSig →
        falconKey.verify samplePrimitives 7 other ≠ some true := by
  have accepted : falconKey.verify samplePrimitives 7 falconHybridSig = some true := by
    decide +kernel
  exact ⟨accepted, (verify_no_downgrade samplePrimitives falconKey (by decide +kernel)
    (by decide +kernel) 7 falconHybridSig accepted).2.2.2⟩

/-- **A key verifies what it signs exactly where post-quantum signing is on**: otherwise
`Sign` returns the ECDSA signature alone, which `Verify` refuses to a key with both halves. -/
theorem sign_verify_iff (prims : Primitives) (correct : prims.Correct) (calls : List SetCall)
    (classical : (build prims calls).mClassicalKey.isValid = true)
    (matching : prims.Matching (build prims calls).mPqcPublicKey (build prims calls).mPqcPrivateKey)
    (settings : Settings) (hash : Uint256) :
    (∀ signature, (build prims calls).sign prims settings hash = some signature →
        (build prims calls).verify prims hash signature = some true) ↔
      settings.shouldSignPQC = true := by
  have marked := build_marked correct calls
  generalize build prims calls = key at *
  obtain ⟨scheme, entropy, generated⟩ := matching
  have pair := correct.schemes _ _ _ _ generated
  have pqc : key.mPqcPublicKey ≠ [] := by
    intro empty
    have size := pair.pubSize
    rw [empty] at size
    cases scheme <;> cases size
  have valid : key.mIsValid = true := (marked.both pqc).trans classical
  obtain ⟨sig, ecdsaSigned, short, ecdsa⟩ := correct.ecdsa classical hash
  constructor
  · intro verifies
    by_contra off
    have signed : key.sign prims settings hash = some sig := by
      simp [sign, valid, ecdsaSigned, off]
    obtain ⟨-, parts, splits⟩ := (verify_iff classical pqc).mp (verifies sig signed)
    have := splits.size_spec.1
    omega
  · intro on signature signed
    simp only [sign, valid, ecdsaSigned, on, if_true, Option.bind_eq_bind, Option.bind_some] at signed
    split at signed
    · cases signed
    · obtain ⟨pqcSig, pqcSigned, isSignature⟩ := Option.bind_eq_some_iff.mp signed
      cases isSignature
      obtain ⟨algo, known, verified⟩ := signPQCMessage_verifies pair pqcSigned
      refine (verify_iff classical pqc).mpr ⟨valid, (sig, pqcSig), ?_, ecdsa, ?_⟩
      all_goals grind [UInt8.toNat_ofNat', Nat.mod_eq_of_lt]

theorem sign_verify_falcon :
    falconKey.sign samplePrimitives hybridSettings 7 = some falconHybridSig ∧
      falconKey.verify samplePrimitives 7 falconHybridSig = some true := by
  have signed : falconKey.sign samplePrimitives hybridSettings 7 = some falconHybridSig := by
    decide +kernel
  exact ⟨signed, (sign_verify_iff samplePrimitives samplePrimitives_correct
    (falconCalls hybridSettings) (by decide +kernel) ⟨.falcon, [], by decide +kernel⟩
    hybridSettings 7).mpr (by decide) _ signed⟩

/-- With the settings a node starts with, the key with both halves signs by ECDSA alone and
rejects that signature itself. -/
theorem signs_what_it_rejects :
    (build samplePrimitives (falconCalls defaultSettings)).mClassicalKey.isValid = true ∧
      samplePrimitives.cryptoSignKeypair .falcon [] =
        some ((build samplePrimitives (falconCalls defaultSettings)).mPqcPublicKey,
          (build samplePrimitives (falconCalls defaultSettings)).mPqcPrivateKey) ∧
      (build samplePrimitives (falconCalls defaultSettings)).sign samplePrimitives
        defaultSettings 7 = some sampleEcdsaSig ∧
      (build samplePrimitives (falconCalls defaultSettings)).verify samplePrimitives 7
        sampleEcdsaSig = some false := by
  decide +kernel

end HybridKey

end QuantBTC.Pqc

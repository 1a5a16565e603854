import Mathlib.Data.Set.Function
import UpdraftContracts.Airdrop.MerkleAirdrop

/-!
# `SignatureVerifier`

Three ways to check who has signed a number. The simple one takes the number for the digest. The
two others hash it, together with the contract that asks, behind a prefix that tells them apart:
EIP-191 with the address of the contract itself, and EIP-712 with the hash of a domain that has the
address in it.

`ecrecover` is a parameter, and returns the zero account when there is no signer, as it always does
for a `v` that is neither 27 nor 28. A signature that recovers to an account for one digest recovers
to others for other digests; that is asked of it on the digests at hand.

The domain has a chain in it, but always the same one. And no check refuses the zero account: who
asks whether it has signed is told that it has, by any signature that has no signer.

## Main results

* `digest_inj` — a digest of EIP-191 or EIP-712 is for one scheme, one contract and one number
* `attested_iff` — what else a signature is good for
-/

namespace UpdraftContracts

open Evm

namespace Airdrop

namespace SignatureVerifier

/-- The precompiled contracts that are called. -/
structure Precompiles where
  keccak256 : List UInt8 → Word
  /-- The zero account if there is no signer. -/
  ecrecover : (hash : Word) → (v : UInt8) → (r s : Word) → Address
  ecrecover_eq_zero : ∀ {v}, v ≠ 27 → v ≠ 28 → ∀ hash r s, ecrecover hash v r s = 0

/-- The components of a signature. -/
structure Signature where
  v : UInt8
  r : Word
  s : Word

/-- The ways in which a call reverts. -/
inductive Error where
  /-- `require` without a message -/
  | require
  deriving DecidableEq

variable (C : Precompiles) (this : Address)

/-! ## Simple signatures -/

/-- The number is the digest. -/
def getSignerSimple (_message : Word) (σ : Signature) : Address :=
  let hashedMessage := _message
  C.ecrecover hashedMessage σ.v σ.r σ.s

/-- `require(actualSigner == _signer)` -/
def verifySignerSimple (_message : Word) (σ : Signature) (_signer : Address) :
    Exec Error Bool := do
  let actualSigner := getSignerSimple C _message σ
  revertIf (actualSigner ≠ _signer) .require
  return true

/-! ## EIP-191 -/

/-- `abi.encodePacked(prefix, eip191Version, intendedValidator, applicationSpecificData)` -/
def encode191 (_message : Word) : List UInt8 :=
  0x19 :: 0x00 :: (encodeBytes 20 this.val ++ encodeWord _message)

/-- The digest of EIP-191. -/
def hash191 (_message : Word) : Word := C.keccak256 (encode191 this _message)

/-- The account that has signed the number for this contract. -/
def getSignerEIP191 (_message : Word) (σ : Signature) : Address :=
  C.ecrecover (hash191 C this _message) σ.v σ.r σ.s

/-- `require(signer == actualSigner)` -/
def verifySigner191 (message : Word) (σ : Signature) (signer : Address) : Exec Error Bool := do
  let actualSigner := getSignerEIP191 C this message σ
  revertIf (signer ≠ actualSigner) .require
  return true

/-! ## EIP-712 -/

/-- Who asks for the signature. -/
structure EIP712Domain where
  name : String
  version : String
  chainId : Word
  verifyingContract : Address
  salt : Word

/-- `encodeType` of the domain. -/
def domainType : String :=
  "EIP712Domain(string name,string version,uint256 chainId,address verifyingContract,bytes32 salt)"

/-- The type hash of the domain. -/
def EIP712DOMAIN_TYPEHASH : Word := C.keccak256 (literal domainType)

/-- Set by the constructor. -/
def eip_712_domain_separator_struct : EIP712Domain := ⟨"SignatureVerifier", "1", 1, this, 0⟩

/-- `abi.encode` of the type hash and the fields, the texts hashed. -/
def encodeDomain (d : EIP712Domain) : List UInt8 :=
  concat (EIP712DOMAIN_TYPEHASH C) (C.keccak256 (literal d.name)) ++
    (concat (C.keccak256 (literal d.version)) d.chainId ++ encodePair d.verifyingContract d.salt)

/-- The hash of the domain, computed by the constructor. -/
def i_domain_separator : Word :=
  C.keccak256 (encodeDomain C (eip_712_domain_separator_struct this))

/-- The type hash of a message. -/
def MESSAGE_TYPEHASH : Word := C.keccak256 (literal "Message(uint256 number)")

/-- `abi.encode(MESSAGE_TYPEHASH, _message)` -/
def encodeMessage (_message : Word) : List UInt8 := concat (MESSAGE_TYPEHASH C) _message

/-- `abi.encodePacked(prefix, eip712Version, hashStructOfDomainSeparator, hashedMessage)` -/
def encode712 (_message : Word) : List UInt8 :=
  0x19 :: 0x01 :: concat (i_domain_separator C this) (C.keccak256 (encodeMessage C _message))

/-- The digest of EIP-712. -/
def digest712 (_message : Word) : Word := C.keccak256 (encode712 C this _message)

/-- The account that has signed the number for the domain. -/
def getSignerEIP712 (_message : Word) (σ : Signature) : Address :=
  C.ecrecover (digest712 C this _message) σ.v σ.r σ.s

/-- `require(signer == actualSigner)`, for the digest of EIP-712. -/
def verifySigner712 (message : Word) (σ : Signature) (signer : Address) : Exec Error Bool := do
  let actualSigner := getSignerEIP712 C this message σ
  revertIf (signer ≠ actualSigner) .require
  return true

/-! ## What a signature says -/

/-- The three ways to check a signature. -/
inductive Scheme where
  | simple
  | eip191
  | eip712
  deriving DecidableEq

/-- A number that is shown to a verifier on some chain. -/
structure Statement where
  scheme : Scheme
  chain : ℕ
  verifier : Address
  message : Word
  deriving DecidableEq

variable {C}

/-- The contract accepts the signature as one of `signer`. -/
def Statement.verify (C : Precompiles) (t : Statement) (σ : Signature) (signer : Address) :
    Exec Error Bool :=
  match t.scheme with
  | .simple => verifySignerSimple C t.message σ signer
  | .eip191 => verifySigner191 C t.verifier t.message σ signer
  | .eip712 => verifySigner712 C t.verifier t.message σ signer

/-- What is signed. -/
def Statement.digest (C : Precompiles) (t : Statement) : Word :=
  match t.scheme with
  | .simple => t.message
  | .eip191 => hash191 C t.verifier t.message
  | .eip712 => digest712 C t.verifier t.message

/-- What is hashed for it. -/
def Statement.hashed (C : Precompiles) (t : Statement) : List (List UInt8) :=
  match t.scheme with
  | .simple => []
  | .eip191 => [encode191 t.verifier t.message]
  | .eip712 => [encode712 C t.verifier t.message,
      encodeDomain C (eip_712_domain_separator_struct t.verifier), encodeMessage C t.message]

/-- A signature is accepted as one of the account that it recovers to, whichever that is. -/
theorem verify_eq_ok {t : Statement} {σ : Signature} {signer : Address} {b : Bool} :
    t.verify C σ signer = .ok b ↔ C.ecrecover (t.digest C) σ.v σ.r σ.s = signer ∧ b = true := by
  have hrequire : ∀ {q : Prop} [Decidable q],
      (do revertIf (¬ q) Error.require; return true : Exec Error Bool) = .ok b ↔ q ∧ b = true := by
    intro q _
    simp only [bind_eq_ok, revertIf_eq_ok, pure_eq_ok, exists_const, not_not]
  unfold Statement.verify Statement.digest
  cases t.scheme with
  | simple => exact hrequire
  | eip191 => exact hrequire.trans (and_congr_left fun _ => eq_comm)
  | eip712 => exact hrequire.trans (and_congr_left fun _ => eq_comm)

/-! ## Digests -/

theorem encodeBytes_address_inj {a b : Address}
    (h : encodeBytes 20 a.val = encodeBytes 20 b.val) : a = b := by
  have hlt : ∀ a : Address, a.val % 256 ^ 20 = a.val := fun a => Nat.mod_eq_of_lt a.isLt
  have hdecode := congrArg decodeBytes h
  rw [decodeBytes_encodeBytes, decodeBytes_encodeBytes, hlt, hlt] at hdecode
  exact Fin.ext hdecode

/-- The first encoding says which verifier and which number. -/
theorem encode191_inj {a b : Address} {m n : Word} (h : encode191 a m = encode191 b n) :
    a = b ∧ m = n := by
  have htail := (List.cons.inj (List.cons.inj h).2).2
  obtain ⟨haddress, hword⟩ := List.append_inj htail
    ((length_encodeBytes 20 a.val).trans (length_encodeBytes 20 b.val).symm)
  exact ⟨encodeBytes_address_inj haddress, encodeWord_inj hword⟩

/-- The domain says which verifier, but not which chain. -/
theorem encodeDomain_inj {a b : Address}
    (h : encodeDomain C (eip_712_domain_separator_struct a)
      = encodeDomain C (eip_712_domain_separator_struct b)) : a = b := by
  have htail := List.append_cancel_left h
  exact (encodePair_inj (List.append_cancel_left htail)).1

theorem encodeMessage_inj {m n : Word} (h : encodeMessage C m = encodeMessage C n) : m = n :=
  (encodeWords_inj h).2

variable {T : Set Statement} {t t' : Statement} {σ : Signature} {signer : Address}

/-- On what is hashed for the statements of `T` there is no collision. -/
def CollisionFreeOn (C : Precompiles) (T : Set Statement) : Prop :=
  Set.InjOn C.keccak256 {bs | ∃ t ∈ T, bs ∈ t.hashed C}

/-- The second byte tells the encodings apart. -/
theorem encode191_ne_encode712 {a b : Address} {m n : Word} :
    encode191 a m ≠ encode712 C b n := by
  intro h
  exact absurd (List.cons.inj (List.cons.inj h).2).1 (by decide)

/-- **A digest is for one statement.** -/
theorem digest_inj (hfree : CollisionFreeOn C T) (ht : t ∈ T) (ht' : t' ∈ T)
    (hscheme : t.scheme ≠ .simple) (hscheme' : t'.scheme ≠ .simple)
    (h : t.digest C = t'.digest C) :
    t.scheme = t'.scheme ∧ t.verifier = t'.verifier ∧ t.message = t'.message := by
  -- two strings hashed for statements of `T` that have the same hash are the same
  have hkeccak : ∀ {x y : List UInt8}, x ∈ t.hashed C → y ∈ t'.hashed C →
      C.keccak256 x = C.keccak256 y → x = y :=
    fun hx hy => hfree ⟨t, ht, hx⟩ ⟨t', ht', hy⟩
  obtain ⟨scheme, chain, a, m⟩ := t
  obtain ⟨scheme', chain', b, n⟩ := t'
  cases scheme with
  | simple => exact absurd rfl hscheme
  | eip191 =>
    have hmem : encode191 a m ∈ Statement.hashed C ⟨.eip191, chain, a, m⟩ := List.mem_cons_self
    cases scheme' with
    | simple => exact absurd rfl hscheme'
    | eip191 =>
      obtain ⟨hverifier, hmessage⟩ := encode191_inj (hkeccak hmem List.mem_cons_self h)
      exact ⟨rfl, hverifier, hmessage⟩
    | eip712 => exact absurd (hkeccak hmem List.mem_cons_self h) encode191_ne_encode712
  | eip712 =>
    have hmem : encode712 C a m ∈ Statement.hashed C ⟨.eip712, chain, a, m⟩ := List.mem_cons_self
    cases scheme' with
    | simple => exact absurd rfl hscheme'
    | eip191 => exact absurd (hkeccak hmem List.mem_cons_self h).symm encode191_ne_encode712
    | eip712 =>
      have houter := hkeccak hmem List.mem_cons_self h
      obtain ⟨hdomain, hstruct⟩ := encodeWords_inj (List.cons.inj (List.cons.inj houter).2).2
      have hverifier := encodeDomain_inj (hkeccak (by simp [Statement.hashed])
        (by simp [Statement.hashed]) hdomain)
      have hmessage := encodeMessage_inj (hkeccak (by simp [Statement.hashed])
        (by simp [Statement.hashed]) hstruct)
      exact ⟨rfl, hverifier, hmessage⟩

/-- A signature that recovers to an account recovers to another for every other digest of
statements of `T`. -/
def BindingOn (C : Precompiles) (T : Set Statement) : Prop :=
  ∀ t ∈ T, ∀ t' ∈ T, ∀ v r s, C.ecrecover (t.digest C) v r s ≠ 0 →
    C.ecrecover (t'.digest C) v r s = C.ecrecover (t.digest C) v r s → t'.digest C = t.digest C

/-- A signature of an account, under EIP-191 or EIP-712, and the statements it is accepted for. -/
theorem verify_iff_of_ne_zero (hfree : CollisionFreeOn C T) (hbinding : BindingOn C T) (ht : t ∈ T)
    (ht' : t' ∈ T) (hscheme : t.scheme ≠ .simple) (hsigner : signer ≠ 0)
    (hverify : t.verify C σ signer = .ok true) :
    t'.verify C σ signer = .ok true ↔
      t'.scheme = t.scheme ∧ t'.verifier = t.verifier ∧ t'.message = t.message ∨
      t'.scheme = .simple ∧ t'.message = t.digest C := by
  obtain ⟨hrecover, -⟩ := verify_eq_ok.mp hverify
  have hiff : t'.verify C σ signer = .ok true ↔ t'.digest C = t.digest C := by
    rw [verify_eq_ok, and_iff_left rfl]
    constructor
    · intro hrecover'
      exact hbinding t ht t' ht' σ.v σ.r σ.s (hrecover ▸ hsigner) (hrecover'.trans hrecover.symm)
    · intro hdigest
      rwa [hdigest]
  rw [hiff]
  by_cases hsimple : t'.scheme = .simple
  · have hdigest : t'.digest C = t'.message := by
      rw [Statement.digest, hsimple]
    rw [hdigest, hsimple]
    have hne : Scheme.simple ≠ t.scheme := hscheme.symm
    simp [hne]
  · refine ⟨fun h => Or.inl (digest_inj hfree ht' ht hsimple hscheme h), ?_⟩
    rintro (⟨hscheme', hverifier, hmessage⟩ | ⟨hsimple', -⟩)
    · rw [Statement.digest, Statement.digest, hscheme', hverifier, hmessage]
    · exact absurd hsimple' hsimple

/-- A malformed signature is accepted for every statement, as one of the zero account. -/
theorem verify_iff_of_malformed (hv : σ.v ≠ 27) (hv' : σ.v ≠ 28) :
    t.verify C σ signer = .ok true ↔ signer = 0 := by
  rw [verify_eq_ok, and_iff_left rfl, C.ecrecover_eq_zero hv hv', eq_comm]

/-- **What else a signature is good for.** Let a signature be accepted under EIP-191 or EIP-712 as
one of an account that is not the zero account. Under these it is accepted for nothing else, but for
the same on every chain where the verifier has the same address. Under the simple scheme it is
accepted, by all verifiers, for exactly one number, which is its digest. The zero account has signed
everything: a signature with a `v` other than 27 and 28 is accepted as one of the zero account, and
of no other, under every scheme, by every verifier and for every number. -/
theorem attested_iff (hfree : CollisionFreeOn C T) (hbinding : BindingOn C T) :
    (∀ t ∈ T, t.scheme ≠ .simple → ∀ σ signer, signer ≠ 0 → t.verify C σ signer = .ok true →
      ∀ t' ∈ T, t'.verify C σ signer = .ok true ↔
        t'.scheme = t.scheme ∧ t'.verifier = t.verifier ∧ t'.message = t.message ∨
        t'.scheme = .simple ∧ t'.message = t.digest C) ∧
    ∀ σ : Signature, σ.v ≠ 27 → σ.v ≠ 28 → ∀ (t : Statement) signer,
      t.verify C σ signer = .ok true ↔ signer = 0 := by
  refine ⟨fun t ht hscheme σ signer hsigner hverify t' ht' => ?_, fun σ hv hv' t signer => ?_⟩
  · exact verify_iff_of_ne_zero hfree hbinding ht ht' hscheme hsigner hverify
  · exact verify_iff_of_malformed hv hv'

/-- A small hash, and a recovery that takes the digest for the signer. -/
def samplePrecompiles : Precompiles where
  keccak256 bs := Word.ofNat (bs.foldl (fun h b => (h * 257 + b.toNat) % 1000003) 7)
  ecrecover hash v _ _ := if v = 27 ∨ v = 28 then Address.ofNat hash.val else 0
  ecrecover_eq_zero hv hv' _ _ _ := if_neg (not_or.mpr ⟨hv, hv'⟩)

/-- The number 42 at the verifier 9, under EIP-712. -/
def sample712 : Statement := ⟨.eip712, 1, 9, 42⟩

/-- The same under EIP-191. -/
def sample191 : Statement := ⟨.eip191, 1, 9, 42⟩

/-- The digest of the first one as a number, at another verifier on another chain. -/
def sampleSimple : Statement := ⟨.simple, 137, 8, sample712.digest samplePrecompiles⟩

/-- All three. -/
def sampleStatements : List Statement := [sample712, sample191, sampleSimple]

theorem sampleStatements_collisionFree :
    CollisionFreeOn samplePrecompiles {t | t ∈ sampleStatements} := by
  have hall : ∀ x ∈ sampleStatements.flatMap (Statement.hashed samplePrecompiles),
      ∀ y ∈ sampleStatements.flatMap (Statement.hashed samplePrecompiles),
        samplePrecompiles.keccak256 x = samplePrecompiles.keccak256 y → x = y := by
    decide +kernel
  rintro x ⟨t, ht, hx⟩ y ⟨t', ht', hy⟩ heq
  exact hall x (List.mem_flatMap.mpr ⟨t, ht, hx⟩) y (List.mem_flatMap.mpr ⟨t', ht', hy⟩) heq

theorem sampleStatements_binding : BindingOn samplePrecompiles {t | t ∈ sampleStatements} := by
  have hall : ∀ t ∈ sampleStatements, ∀ t' ∈ sampleStatements,
      Address.ofNat (t'.digest samplePrecompiles).val
        = Address.ofNat (t.digest samplePrecompiles).val →
      t'.digest samplePrecompiles = t.digest samplePrecompiles := by
    decide +kernel
  intro t ht t' ht' v r s hne heq
  have hv : v = 27 ∨ v = 28 := by
    by_contra hv
    exact hne (if_neg hv)
  have hrecover : ∀ hash, samplePrecompiles.ecrecover hash v r s = Address.ofNat hash.val :=
    fun _ => if_pos hv
  rw [hrecover, hrecover] at heq
  exact hall t ht t' ht' heq

/-- The signature of the first statement is good for the third and not for the second. One with
`v = 0` is good for the second, as one of the zero account. -/
theorem attested_iff_sample :
    let signer := samplePrecompiles.ecrecover (sample712.digest samplePrecompiles) 27 1 1
    sampleSimple.verify samplePrecompiles ⟨27, 1, 1⟩ signer = .ok true ∧
    sample191.verify samplePrecompiles ⟨27, 1, 1⟩ signer ≠ .ok true ∧
    sample191.verify samplePrecompiles ⟨0, 1, 1⟩ 0 = .ok true := by
  intro signer
  obtain ⟨hnonzero, hzero⟩ :=
    attested_iff sampleStatements_collisionFree sampleStatements_binding
  have hverify : sample712.verify samplePrecompiles ⟨27, 1, 1⟩ signer = .ok true :=
    verify_eq_ok.mpr ⟨rfl, rfl⟩
  have hsigner : signer ≠ 0 := by decide +kernel
  have hother := hnonzero sample712 List.mem_cons_self (by decide) ⟨27, 1, 1⟩ signer hsigner hverify
  refine ⟨?_, fun h => ?_, ?_⟩
  · exact (hother sampleSimple (by simp [sampleStatements])).mpr (Or.inr ⟨rfl, rfl⟩)
  · have hcases := (hother sample191 (by simp [sampleStatements])).mp h
    exact absurd hcases (by decide +kernel)
  · exact (hzero ⟨0, 1, 1⟩ (by decide) (by decide) sample191 0).mpr rfl

end SignatureVerifier

end Airdrop

end UpdraftContracts

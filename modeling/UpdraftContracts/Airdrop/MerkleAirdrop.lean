import UpdraftContracts.Evm.Abi
import UpdraftContracts.Evm.Erc20
import UpdraftContracts.Evm.Merkle
import UpdraftContracts.Evm.Reentrancy
import UpdraftContracts.Evm.Text

/-!
# `MerkleAirdrop`

A contract that hands out tokens to the accounts of a list. Of the list it knows a Merkle root. To
claim an amount for an account, anybody can submit a proof that both are on the list, and a
signature of the account.

`keccak256` and `ECDSA.tryRecover` are parameters, and so is the token. `MerkleProof.verify` is the
fold of sorted pairs of `Evm.Merkle`, and the root over a list is built as there, with zero for the
padding.

## Main results

* `claim_eq_ok` — exactly when a claim goes through, and what it does
-/

namespace UpdraftContracts

open Evm

namespace Airdrop

/-- The errors of the airdrop. -/
inductive Error where
  | MerkleAirdrop__InvalidProof
  | MerkleAirdrop__AlreadyClaimed
  | MerkleAirdrop__InvalidSignature
  deriving DecidableEq

/-- `ECDSA.RecoverError` -/
inductive RecoverError where
  | NoError
  | InvalidSignature
  | InvalidSignatureLength
  | InvalidSignatureS
  deriving DecidableEq

/-- Hashing and recovery of signers. -/
structure Crypto where
  keccak256 : List UInt8 → Word
  tryRecover : (digest : Word) → (v : UInt8) → (r s : Word) → Address × RecoverError × Word

/-- What is fixed when the airdrop is deployed. -/
structure Deployment where
  /-- `address(this)` -/
  this : Address
  /-- `_domainSeparatorV4()` -/
  domainSeparator : Word
  i_merkleRoot : Word
  /-- The contract at `s_airdropToken`. -/
  airdropToken : Erc20 Address

/-- The claims made, and the ledger of the token. -/
structure State where
  s_hasClaimed : Address → Bool
  ledger : Ledger Address

/-- The arguments of `claim`. -/
structure Claim where
  account : Address
  amount : Word
  proof : List Word
  v : UInt8
  r : Word
  s : Word

/-- Two `bytes32` one after the other. -/
def concat (a b : Word) : List UInt8 := encodeWord a ++ encodeWord b

namespace MerkleAirdrop

variable (C : Crypto) (D : Deployment)

/-- The hash of the type that is signed. -/
def MESSAGE_TYPEHASH : Word :=
  C.keccak256 (literal "AirdropClaim(address account,uint256 amount)")

/-- `EIP712._hashTypedDataV4` -/
def _hashTypedDataV4 (structHash : Word) : Word :=
  C.keccak256 (0x19 :: 0x01 :: concat D.domainSeparator structHash)

/-- What an account has to sign for an amount. -/
def getMessageHash (account : Address) (amount : Word) : Word :=
  _hashTypedDataV4 C D
    (C.keccak256 (encodeWord (MESSAGE_TYPEHASH C) ++ encodePair account amount))

/-- The error that comes with the signer is not looked at. -/
def _isValidSignature (account : Address) (digest : Word) (v : UInt8) (r s : Word) : Bool :=
  let actualSigner := (C.tryRecover digest v r s).1
  actualSigner = account

/-- The first of the two hashes of an entry. -/
def entryHash (account : Address) (amount : Word) : Word := C.keccak256 (encodePair account amount)

/-- The leaf of an entry. It is hashed twice, so that no inner node is a leaf. -/
def leaf (account : Address) (amount : Word) : Word :=
  C.keccak256 (encodeWord (entryHash C account amount))

/-- The signature is checked before the proof, and the account is marked before the tokens leave. -/
def claim (c : Claim) (s : State) : Exec Error State := do
  revertIf (s.s_hasClaimed c.account = true) .MerkleAirdrop__AlreadyClaimed
  let digest := getMessageHash C D c.account c.amount
  revertIf (_isValidSignature C c.account digest c.v c.r c.s = false)
    .MerkleAirdrop__InvalidSignature
  revertIf
    (¬ Merkle.verify C.keccak256 concat c.proof D.i_merkleRoot (leaf C c.account c.amount))
    .MerkleAirdrop__InvalidProof
  let s := { s with s_hasClaimed := Function.update s.s_hasClaimed c.account true }
  let ledger ← ofCallee (D.airdropToken.safeTransfer s.ledger D.this c.account c.amount.val)
  return { s with ledger := ledger }

variable {C D} {c : Claim} {s s' : State}

theorem isValidSignature_eq_true {account : Address} {digest : Word} {v : UInt8} {r s : Word} :
    _isValidSignature C account digest v r s = true ↔ (C.tryRecover digest v r s).1 = account :=
  decide_eq_true_iff

/-- What a claim needs, and all that it does. -/
theorem claim_eq_ok :
    claim C D c s = .ok s' ↔
      s.s_hasClaimed c.account = false ∧
      (C.tryRecover (getMessageHash C D c.account c.amount) c.v c.r c.s).1 = c.account ∧
      Merkle.verify C.keccak256 concat c.proof D.i_merkleRoot (leaf C c.account c.amount) ∧
      ∃ ledger,
        D.airdropToken.transfer s.ledger D.this c.account c.amount.val = some (true, ledger) ∧
        s' = ⟨Function.update s.s_hasClaimed c.account true, ledger⟩ := by
  simp only [claim, bind_eq_ok, revertIf_eq_ok, ofCallee_eq_ok, pure_eq_ok,
    Erc20.safeTransfer_eq_some, exists_const, not_not, Bool.not_eq_true, Bool.not_eq_false,
    isValidSignature_eq_true]

end MerkleAirdrop

/-! ## Runs -/

/-- The root over a list of accounts and amounts. -/
def merkleRoot (C : Crypto) (entries : List (Address × Word)) : Word :=
  Merkle.root C.keccak256 concat 0 (entries.map fun e => MerkleAirdrop.leaf C e.1 e.2)

/-- Who calls `claim` makes no difference to it. -/
inductive AirdropAction where
  | claim (c : Claim)
  /-- Whatever else happens to the token. -/
  | elsewhere (ledger : Ledger Address)

/-- The token has the last word on a claim. It may call others before it returns, and it may revert
then. -/
def AirdropAction.start (C : Crypto) (D : Deployment) (s : State) :
    AirdropAction → Exec Error (Progress Error State)
  | .claim c => do return .handsOver (← MerkleAirdrop.claim C D c s) (.error .callee)
  | .elsewhere ledger => return .returned { s with ledger := ledger }

/-- A claim that went through, with the tokens that left the airdrop. -/
structure Payment where
  claim : Claim
  left : ℕ

/-- Add a claim to the payments if it goes through. -/
def record (C : Crypto) (D : Deployment) (s : State) (a : AirdropAction) (log : List Payment) :
    List Payment :=
  match a with
  | .claim c =>
    match MerkleAirdrop.claim C D c s with
    | .ok s' => ⟨c, s.ledger.balance D.this - s'.ledger.balance D.this⟩ :: log
    | .error _ => log
  | .elsewhere _ => log

/-- The airdrop with its payments. -/
abbrev History := State × List Payment

/-- The calls of the airdrop, with the payments written along. -/
def History.start (C : Crypto) (D : Deployment) :
    History → AirdropAction → Exec Error (Progress Error History) :=
  recording (AirdropAction.start C D) (record C D)

end Airdrop

end UpdraftContracts

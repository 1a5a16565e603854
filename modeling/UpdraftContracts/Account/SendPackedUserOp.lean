import UpdraftContracts.Account.MinimalAccount
import UpdraftContracts.Evm.Calldata
import UpdraftContracts.Evm.Text

/-!
# `SendPackedUserOp`

The script that makes an operation for a `MinimalAccount`, signs it and sends it to the entry point.
Between the script and the account there are three formats: the data of a call of `execute`, the
signature as `r`, `s` and `v` one after the other, and two limits of 128 bits in a word. What the
script writes has to be what the account reads.

For the nonce of the operation the script takes the transaction count of the account, less one. But
the account is a contract that creates no contracts, so its transaction count is one forever, while
the entry point wants the number of operations so far.

The entry point is a parameter. Of it there is only what it promises about nonces.

## Main results

* `decodeExecute_encodeExecute`, `packUints_val` — the formats
* `script_executes` — an operation of the script does what it was made for
* `script_works_once` — no two operations of the script get past the entry point
-/

namespace UpdraftContracts

open Evm

namespace Account

open MinimalAccount

/-! ## The formats -/

/-- The first four bytes of the data of a call of `execute`. -/
def executeSelector (keccak256 : List UInt8 → Word) : List UInt8 :=
  (encodeWord (keccak256 (literal "execute(address,uint256,bytes)"))).take 4

/-- What the account makes of the data of a call. -/
def decodeExecute (selector data : List UInt8) : Option Execution := do
  let args := data.drop 4
  let dest ← wordAt args 0
  let value ← wordAt args 32
  let offset ← wordAt args 64
  let functionData ← bytesAt args offset
  if data.take 4 = selector ∧ dest < 2 ^ 160 ∧ offset < 2 ^ 64 then
    some (Address.ofNat dest, value, functionData)
  else none

/-- Two limits in a word: `bytes32((uint256(high) << 128) | uint256(low))` -/
def packUints (high low : ℕ) : Word := Word.ofNat (high <<< 128 ||| low)

namespace SendPackedUserOp

/-- The verification gas and the call gas, and the two fees, have the same place in their words. -/
def _generateUnsignedUserOp (callData : List UInt8) (sender : Address) (nonce : ℕ) :
    PackedUserOperation :=
  let verificationGasLimit := 100000
  let callGasLimit := 200000
  let maxPriorityFeePerGas := 10 ^ 9
  let maxFeePerGas := 10 ^ 9
  { sender := sender
    nonce := nonce
    initCode := []
    callData := callData
    accountGasLimits := packUints verificationGasLimit callGasLimit
    preVerificationGas := 21000
    gasFees := packUints maxPriorityFeePerGas maxFeePerGas
    paymasterAndData := []
    signature := [] }

/-- `getNonce` is the transaction count of the account, and `sign` signs for the account of the
network, or for the default account of a local chain. -/
def generateSignedUserOp (E : Environment) (sign : Word → UInt8 × Word × Word) (getNonce : ℕ)
    (callData : List UInt8) (minimalAccount : Address) :
    Exec MinimalAccount.Error PackedUserOperation := do
  let nonce ← checkedSub getNonce 1
  let userOp := _generateUnsignedUserOp callData minimalAccount nonce
  let digest := E.toEthSignedMessageHash (E.getUserOpHash userOp)
  let (v, r, s) := sign digest
  return { userOp with signature := encodePacked r s v }

end SendPackedUserOp

/-! ## What an operation of the script does -/

open SendPackedUserOp

variable {E : Environment} {keccak256 : List UInt8 → Word} {callData : List UInt8}
  {ecrecover : Word → UInt8 → Word → Word → Option Address} {sign : Word → UInt8 × Word × Word}
  {account minimalAccount : Address} {userOp : PackedUserOperation} {missing getNonce : ℕ}

/-- The script fails only for an account without a transaction count. -/
theorem generateSignedUserOp_eq_ok :
    generateSignedUserOp E sign getNonce callData minimalAccount = .ok userOp ↔
      1 ≤ getNonce ∧ userOp =
        let unsigned := _generateUnsignedUserOp callData minimalAccount (getNonce - 1)
        let signed := sign (E.toEthSignedMessageHash (E.getUserOpHash unsigned))
        { unsigned with signature := encodePacked signed.2.1 signed.2.2 signed.1 } := by
  simp only [generateSignedUserOp, bind_eq_ok, checkedSub_eq_ok, pure_eq_ok]
  constructor
  · rintro ⟨_, ⟨hle, rfl⟩, h⟩
    exact ⟨hle, h⟩
  · rintro ⟨hle, h⟩
    exact ⟨_, ⟨hle, rfl⟩, h⟩

/-- Every digest is signed by account 1. -/
def signedByOne (_digest : Word) : UInt8 × Word × Word := (27, 2, 3)

/-- The entry point is account 7, and the one signature there is belongs to account 1. -/
def scriptEnvironment : Environment where
  i_entryPoint := 7
  toEthSignedMessageHash hash := hash
  recover _ signature := if signature = encodePacked 2 3 27 then some 1 else none
  getUserOpHash userOp := Word.ofNat userOp.nonce
  decodeExecute := decodeExecute (executeSelector fun _ => 0)

/-- An entry point, with all that is around it. A nonce is a key of 192 bits and a number of 64
bits, and for each account the numbers under each key are used one after the other. -/
structure EntryPoint (World Other : Type) where
  /-- `nonceSequenceNumber` -/
  nonceSequenceNumber : World → (sender : Address) → (key : ℕ) → ℕ
  /-- `vm.getNonce`, the transaction count of an account. -/
  getNonce : World → Address → ℕ
  /-- `handleOps` with one operation. -/
  handleOps : PackedUserOperation → World → Option World
  /-- Other transactions. -/
  transact : Other → World → World
  /-- An operation has the next number of its key. -/
  next : ∀ {userOp w w'}, handleOps userOp w = some w' →
    nonceSequenceNumber w userOp.sender (userOp.nonce / 2 ^ 64) = userOp.nonce % 2 ^ 64
  /-- The number is used up. -/
  used : ∀ {userOp w w'}, handleOps userOp w = some w' →
    nonceSequenceNumber w userOp.sender (userOp.nonce / 2 ^ 64)
      < nonceSequenceNumber w' userOp.sender (userOp.nonce / 2 ^ 64)
  /-- No number is given back. -/
  handleOps_le : ∀ {userOp w w'}, handleOps userOp w = some w' → ∀ sender key,
    nonceSequenceNumber w sender key ≤ nonceSequenceNumber w' sender key
  /-- Nor is any by other transactions. -/
  transact_le : ∀ b w sender key,
    nonceSequenceNumber w sender key ≤ nonceSequenceNumber (transact b w) sender key

/-- What happens next. -/
inductive Sending (Other : Type) where
  /-- The script makes an operation and sends it. -/
  | byScript (callData : List UInt8)
  /-- An operation is sent by other means. -/
  | byOthers (userOp : PackedUserOperation)
  | other (b : Other)

section

variable {World Other : Type} (E : Environment) (P : EntryPoint World Other)
  (sign : Word → UInt8 × Word × Word) (minimalAccount : Address)

/-- The script sends its operation to the entry point. -/
def sendByScript (callData : List UInt8) (w : World) : Option World :=
  match generateSignedUserOp E sign (P.getNonce w minimalAccount) callData minimalAccount with
  | .ok userOp => P.handleOps userOp w
  | .error _ => none

/-- What does not pass leaves everything as it was. -/
def Sending.step (w : World) : Sending Other → World
  | .byScript callData => (sendByScript E P sign minimalAccount callData w).getD w
  | .byOthers userOp => (P.handleOps userOp w).getD w
  | .other b => P.transact b w

/-- One for an operation of the script that passes. -/
def Sending.passed (w : World) : Sending Other → ℕ
  | .byScript callData => if (sendByScript E P sign minimalAccount callData w).isSome then 1 else 0
  | _ => 0

variable {E P sign minimalAccount}

/-- An operation of the script has the number zero, under the key zero. -/
theorem sendByScript_eq_some {w w' : World} (hcount : P.getNonce w minimalAccount = 1)
    (h : sendByScript E P sign minimalAccount callData w = some w') :
    P.nonceSequenceNumber w minimalAccount 0 = 0 ∧
      0 < P.nonceSequenceNumber w' minimalAccount 0 := by
  unfold sendByScript at h
  rw [hcount] at h
  split at h
  · next userOp hop =>
    obtain ⟨-, hfields⟩ := generateSignedUserOp_eq_ok.mp hop
    have hsender : userOp.sender = minimalAccount := by rw [hfields]; rfl
    have hnonce : userOp.nonce = 0 := by rw [hfields]; rfl
    have hnext := P.next h
    have hused := P.used h
    rw [hsender, hnonce] at hnext hused
    exact ⟨hnext, Nat.zero_lt_of_lt hused⟩
  · contradiction

/-- No step gives a number back. -/
theorem Sending.sequence_le_step (w : World) (a : Sending Other) (sender : Address) (key : ℕ) :
    P.nonceSequenceNumber w sender key
      ≤ P.nonceSequenceNumber (a.step E P sign minimalAccount w) sender key := by
  have hgetD : ∀ {x : Option World}, (∀ w', x = some w' →
      P.nonceSequenceNumber w sender key ≤ P.nonceSequenceNumber w' sender key) →
        P.nonceSequenceNumber w sender key ≤ P.nonceSequenceNumber (x.getD w) sender key := by
    intro x hx
    cases x with
    | none => exact le_rfl
    | some w' => exact hx w' rfl
  cases a with
  | byScript callData =>
    refine hgetD fun w' h => ?_
    unfold sendByScript at h
    split at h
    · exact P.handleOps_le h sender key
    · contradiction
  | byOthers userOp => exact hgetD fun w' h => P.handleOps_le h sender key
  | other b => exact P.transact_le b w sender key

/-- The script gets past the entry point only before any operation under the key zero. -/
theorem Sending.passed_add_le {w : World} {a : Sending Other}
    (hcount : P.getNonce w minimalAccount = 1) :
    a.passed E P sign minimalAccount w
        + (if P.nonceSequenceNumber (a.step E P sign minimalAccount w) minimalAccount 0 = 0
          then 1 else 0)
      ≤ if P.nonceSequenceNumber w minimalAccount 0 = 0 then 1 else 0 := by
  have hle : P.nonceSequenceNumber w minimalAccount 0
      ≤ P.nonceSequenceNumber (a.step E P sign minimalAccount w) minimalAccount 0 :=
    a.sequence_le_step w minimalAccount 0
  by_cases hpassed : a.passed E P sign minimalAccount w = 0
  · rw [hpassed]
    split <;> split <;> omega
  · cases a with
    | byScript callData =>
      cases hsend : sendByScript E P sign minimalAccount callData w with
      | none => exact absurd (by rw [Sending.passed, hsend]; rfl) hpassed
      | some w' =>
        obtain ⟨hzero, hpos⟩ := sendByScript_eq_some hcount hsend
        simp only [Sending.passed, Sending.step, hsend, Option.isSome_some, if_true,
          Option.getD_some, if_neg hpos.ne', if_pos hzero]
        exact le_rfl
    | byOthers | other => exact absurd rfl hpassed

/-- **The script works once.** As long as the account creates no contracts, its transaction count is
one. Then, whatever is sent, at most one operation of the script gets past the entry point, and none
if an operation of the account with the key zero has passed before. -/
theorem script_works_once {w : World} {as : List (Sending Other)}
    (hcount : Along (Sending.step E P sign minimalAccount)
      (fun w _ => P.getNonce w minimalAccount = 1) w as) :
    tally (Sending.step E P sign minimalAccount) (Sending.passed E P sign minimalAccount) w as
      ≤ if P.nonceSequenceNumber w minimalAccount 0 = 0 then 1 else 0 := by
  induction as generalizing w with
  | nil => exact Nat.zero_le _
  | cons a as ih => exact (Nat.add_le_add_left (ih hcount.2) _).trans (a.passed_add_le hcount.1)

end

/-- An entry point that accepts every operation with the next number. -/
def sampleEntryPoint : EntryPoint (Address → ℕ → ℕ) Unit where
  nonceSequenceNumber w := w
  getNonce _ _ := 1
  handleOps userOp w :=
    guardSome (w userOp.sender (userOp.nonce / 2 ^ 64) = userOp.nonce % 2 ^ 64)
      fun sender key => w sender key
        + if sender = userOp.sender ∧ key = userOp.nonce / 2 ^ 64 then 1 else 0
  transact _ w := w
  next h := (guardSome_eq_some.mp h).1
  used h := by
    obtain ⟨-, rfl⟩ := guardSome_eq_some.mp h
    simp
  handleOps_le h sender key := by
    obtain ⟨-, rfl⟩ := guardSome_eq_some.mp h
    exact Nat.le_add_right _ _
  transact_le _ _ _ _ := le_rfl

/-- The script is run twice for account 5. -/
def sampleSendings : List (Sending Unit) := [.byScript [], .byScript []]

/-- Only the first operation passes. -/
theorem script_works_once_sample :
    let passed := tally (Sending.step scriptEnvironment sampleEntryPoint signedByOne 5)
      (Sending.passed scriptEnvironment sampleEntryPoint signedByOne 5)
    passed (fun _ _ => 0) sampleSendings = 1 ∧ passed (fun _ _ => 0) sampleSendings ≤ 1 := by
  have hcount : Along (Sending.step scriptEnvironment sampleEntryPoint signedByOne 5)
      (fun w _ => sampleEntryPoint.getNonce w 5 = 1) (fun _ _ => 0) sampleSendings :=
    ⟨rfl, rfl, trivial⟩
  exact ⟨by decide, script_works_once hcount⟩

end Account

end UpdraftContracts

import UpdraftContracts.Evm.Erc20
import UpdraftContracts.Evm.Reentrancy

/-!
# `ZkMinimalAccount`

An account of zkSync whose owner signs its transactions. The bootloader asks the account to validate
a transaction, to pay for it, and to execute it, in three calls. Anybody can submit a transaction
past the bootloader, with `executeTransactionFromOutside`.

The functions follow the source statement by statement. `sender` is `msg.sender`. What the account
takes from the libraries and system contracts of zkSync is outside the repository. Hashing, recovery
of signers and the balance a transaction requires are parameters. The nonce holder and the payment
of the bootloader are defined as documented: the nonce holder reverts unless it is given the current
nonce, which it then increments, and the payment is `maxFeePerGas * gasLimit`.

Of all ETH the model keeps the balance of the account, which every call of a payable function can
raise. The hash arguments that the functions ignore are left out.
-/

namespace UpdraftContracts

open Evm

namespace Account

/-- `Transaction`. Numbers are words. -/
structure Transaction where
  txType : ℕ
  from_ : ℕ
  to_ : ℕ
  gasLimit : ℕ
  gasPerPubdataByteLimit : ℕ
  maxFeePerGas : ℕ
  maxPriorityFeePerGas : ℕ
  paymaster : ℕ
  nonce : ℕ
  value : ℕ
  reserved : List ℕ
  data : List UInt8
  signature : List UInt8
  factoryDeps : List ℕ
  paymasterInput : List UInt8
  reservedDynamic : List UInt8
  deriving DecidableEq

/-- The errors of the account and of `Ownable`. -/
inductive Error where
  | ZKMinimalAccount__NotEnoughBalance (totalRequiredBalance : ℕ)
  | ZKMinimalAccount__NotFromBootloader
  | ZKMinimalAccount__ExecutionFailed
  | ZKMinimalAccount__NotFromBootloaderOrOwner
  | ZKMinimalAccount__PayForTransactionFailed
  | OwnableUnauthorizedAccount (account : Address)
  | OwnableInvalidOwner (owner : Address)
  deriving DecidableEq

/-- The `bytes4` that validation returns. -/
inductive Magic where
  | ACCOUNT_VALIDATION_SUCCESS_MAGIC
  | zero
  deriving DecidableEq

/-- The owner, the nonce that the nonce holder has for the account, and its ETH. -/
structure State where
  owner : Address
  nonce : ℕ
  /-- `address(this).balance` -/
  balance : ℕ
  deriving DecidableEq

/-- What the account takes from zkSync and from `ECDSA`. `none` is a revert. -/
structure Era where
  BOOTLOADER_FORMAL_ADDRESS : Address
  DEPLOYER_SYSTEM_CONTRACT : Address
  totalRequiredBalance : Transaction → Option ℕ
  encodeHash : Transaction → Option ℕ
  recover : ℕ → List UInt8 → Option Address

/-- `NonceHolder.incrementMinNonceIfEquals` -/
def incrementMinNonceIfEquals (expectedNonce : ℕ) (s : State) : Option State :=
  guardSome (expectedNonce = s.nonce) { s with nonce := s.nonce + 1 }

/-- `maxFeePerGas * gasLimit` -/
def Transaction.fee (tx : Transaction) : ℕ := tx.maxFeePerGas * tx.gasLimit

/-- `MemoryTransactionHelper.payToTheBootloader`, with what it returns. -/
def payToTheBootloader (tx : Transaction) (s : State) : Exec Error (Bool × State) := do
  let amount ← checkedMul tx.maxFeePerGas tx.gasLimit
  return if amount ≤ s.balance then (true, { s with balance := s.balance - amount }) else (false, s)

/-- `Utils.safeCastToU128` and `Utils.safeCastToU32` -/
def safeCast (bits x : ℕ) : Exec Error ℕ := ofCallee (guardSome (x < 2 ^ bits) x)

@[simp] theorem safeCast_eq_ok {bits x y : ℕ} :
    safeCast bits x = .ok y ↔ x < 2 ^ bits ∧ y = x := by
  rw [safeCast, ofCallee_eq_ok, guardSome_eq_some]

namespace ZkMinimalAccount

variable (E : Era)

/-! ## Modifiers -/

/-- The modifier of `validateTransaction`. -/
def requireFromBootloader (sender : Address) : Exec Error Unit :=
  revertIf (sender ≠ E.BOOTLOADER_FORMAL_ADDRESS) .ZKMinimalAccount__NotFromBootloader

/-- The modifier of `executeTransaction`. -/
def requireFromBootloaderOrOwner (sender : Address) (s : State) : Exec Error Unit :=
  revertIf (sender ≠ E.BOOTLOADER_FORMAL_ADDRESS ∧ sender ≠ s.owner)
    .ZKMinimalAccount__NotFromBootloaderOrOwner

/-- The modifier of `Ownable`. -/
def onlyOwner (sender : Address) (s : State) : Exec Error Unit :=
  revertIf (sender ≠ s.owner) (.OwnableUnauthorizedAccount sender)

/-! ## Internal functions -/

/-- The nonce is used up before the balance and the signature are checked. A wrong signature is an
answer, and the nonce stays used. -/
def _validateTransaction (tx : Transaction) (s : State) : Exec Error (Magic × State) := do
  let s ← ofCallee (incrementMinNonceIfEquals tx.nonce s)
  let totalRequiredBalance ← ofCallee (E.totalRequiredBalance tx)
  revertIf (totalRequiredBalance > s.balance)
    (.ZKMinimalAccount__NotEnoughBalance totalRequiredBalance)
  let txHash ← ofCallee (E.encodeHash tx)
  let signer ← ofCallee (E.recover txHash tx.signature)
  return (if signer = s.owner then .ACCOUNT_VALIDATION_SUCCESS_MAGIC else .zero, s)

/-- `address(uint160(_transaction.to))` -/
def target (tx : Transaction) : Address := Address.ofNat tx.to_

/-- `gasleft` is what the code reads as the remaining gas. -/
def _executeTransaction (gasleft : ℕ) (tx : Transaction) (s : State) :
    Exec Error (Progress Error State) := do
  let value ← safeCast 128 tx.value
  if target tx = E.DEPLOYER_SYSTEM_CONTRACT then
    let _ ← safeCast 32 gasleft
    -- the outcome of the system call is not looked at
    return if value ≤ s.balance then .handsOver { s with balance := s.balance - value } (.ok s)
      else .returned s
  else
    -- a call that is to carry more ETH than there is fails at once
    revertIf (s.balance < value) .ZKMinimalAccount__ExecutionFailed
    return .handsOver { s with balance := s.balance - value }
      (.error (.custom .ZKMinimalAccount__ExecutionFailed))

/-! ## External functions -/

/-- The bootloader asks whether the account accepts a transaction. -/
def validateTransaction (sender : Address) (tx : Transaction) (s : State) :
    Exec Error (Magic × State) := do
  requireFromBootloader E sender
  _validateTransaction E tx s

/-- The bootloader, or the owner, has a transaction executed. Nothing is validated here. -/
def executeTransaction (sender : Address) (gasleft : ℕ) (tx : Transaction) (s : State) :
    Exec Error (Progress Error State) := do
  requireFromBootloaderOrOwner E sender s
  _executeTransaction E gasleft tx s

/-- What `_validateTransaction` returns is not looked at. -/
def executeTransactionFromOutside (gasleft : ℕ) (tx : Transaction) (s : State) :
    Exec Error (Progress Error State) := do
  let (_, s) ← _validateTransaction E tx s
  _executeTransaction E gasleft tx s

/-- Anybody may have the account pay the fee of a transaction. There is no modifier. -/
def payForTransaction (tx : Transaction) (s : State) : Exec Error State := do
  let (success, s) ← payToTheBootloader tx s
  revertIf (success = false) .ZKMinimalAccount__PayForTransactionFailed
  return s

/-- The function of `Ownable`. Ownership cannot go to the zero address this way. -/
def transferOwnership (sender newOwner : Address) (s : State) : Exec Error State := do
  onlyOwner sender s
  revertIf (newOwner = 0) (.OwnableInvalidOwner 0)
  return { s with owner := newOwner }

/-- The function of `Ownable`. The account is left without an owner. -/
def renounceOwnership (sender : Address) (s : State) : Exec Error State := do
  onlyOwner sender s
  return { s with owner := 0 }

end ZkMinimalAccount

/-! ## Calls -/

/-- The functions of the account. -/
inductive AccountCall where
  | receive
  | validateTransaction (tx : Transaction)
  | executeTransaction (tx : Transaction)
  | executeTransactionFromOutside (tx : Transaction)
  | payForTransaction (tx : Transaction)
  | prepareForPaymaster (tx : Transaction)
  | transferOwnership (newOwner : Address)
  | renounceOwnership

/-- A call, with who makes it, the ETH it carries and the gas it has. -/
structure AccountAction where
  sender : Address
  value : ℕ
  gasleft : ℕ
  call : AccountCall

/-- The functions of `Ownable` take no ETH. -/
def AccountAction.notPayable (a : AccountAction) : Exec Error Unit :=
  ofCallee (guardSome (a.value = 0) ())

open ZkMinimalAccount in
/-- The ETH that a call carries arrives before the code runs. -/
def AccountAction.start (E : Era) (s : State) (a : AccountAction) :
    Exec Error (Progress Error State) :=
  let s := { s with balance := s.balance + a.value }
  match a.call with
  | .receive => return .returned s
  | .validateTransaction tx => do return .returned (← validateTransaction E a.sender tx s).2
  | .executeTransaction tx => executeTransaction E a.sender a.gasleft tx s
  | .executeTransactionFromOutside tx => executeTransactionFromOutside E a.gasleft tx s
  | .payForTransaction tx => do return .returned (← payForTransaction tx s)
  | .prepareForPaymaster _ => return .returned s
  | .transferOwnership newOwner => do
    a.notPayable
    return .returned (← transferOwnership a.sender newOwner s)
  | .renounceOwnership => do
    a.notPayable
    return .returned (← renounceOwnership a.sender s)

/-! ## What the functions do -/

namespace ZkMinimalAccount

variable {E : Era} {sender : Address} {gasleft : ℕ} {tx : Transaction} {s s' : State}
  {magic : Magic} {p : Progress Error State}

/-- The account that `ECDSA.recover(encodeHash(transaction), signature)` returns, if it does. -/
def signer (E : Era) (tx : Transaction) : Option Address :=
  (E.encodeHash tx).bind fun txHash => E.recover txHash tx.signature

/-- The checks that validation makes by reverting. -/
structure Validates (E : Era) (tx : Transaction) (s : State) : Prop where
  nonce : tx.nonce = s.nonce
  funded : ∃ total, E.totalRequiredBalance tx = some total ∧ total ≤ s.balance
  recovers : (signer E tx).isSome

/-- Validation uses up the nonce whoever signed. Only what it returns tells who did. -/
theorem validateTransaction_eq_ok :
    _validateTransaction E tx s = .ok (magic, s') ↔
      Validates E tx s ∧ s' = { s with nonce := s.nonce + 1 } ∧
        magic = if signer E tx = some s.owner then .ACCOUNT_VALIDATION_SUCCESS_MAGIC
          else .zero := by
  simp only [_validateTransaction, incrementMinNonceIfEquals, bind_eq_ok, ofCallee_eq_ok,
    guardSome_eq_some, revertIf_eq_ok, pure_eq_ok, Prod.mk.injEq, Nat.not_lt]
  constructor
  · rintro ⟨_, ⟨hnonce, rfl⟩, total, htotal, -, hle, txHash, hhash, account, hrec, hmagic, rfl⟩
    have hsigner : signer E tx = some account := by rw [signer, hhash, Option.bind_some, hrec]
    refine ⟨⟨hnonce, ⟨total, htotal, hle⟩, by rw [hsigner]; rfl⟩, rfl, ?_⟩
    simpa only [hsigner, Option.some.injEq] using hmagic
  · rintro ⟨⟨hnonce, ⟨total, htotal, hle⟩, hrecovers⟩, rfl, hmagic⟩
    obtain ⟨account, hsigner⟩ := Option.isSome_iff_exists.mp hrecovers
    obtain ⟨txHash, hhash, hrec⟩ := Option.bind_eq_some_iff.mp hsigner
    refine ⟨_, ⟨hnonce, rfl⟩, total, htotal, (), hle, txHash, hhash, account, hrec, ?_, rfl⟩
    simpa only [hsigner, Option.some.injEq] using hmagic

/-- What `_executeTransaction` checks before it hands over control. -/
def CanExecute (E : Era) (gasleft : ℕ) (tx : Transaction) (s : State) : Prop :=
  tx.value < 2 ^ 128 ∧
    if target tx = E.DEPLOYER_SYSTEM_CONTRACT then gasleft < 2 ^ 32 else tx.value ≤ s.balance

/-- What it does if they pass: it sends the ETH, and it is for the target to return or revert. -/
def execution (E : Era) (tx : Transaction) (s : State) : Progress Error State :=
  if target tx = E.DEPLOYER_SYSTEM_CONTRACT then
    if tx.value ≤ s.balance then .handsOver { s with balance := s.balance - tx.value } (.ok s)
    else .returned s
  else .handsOver { s with balance := s.balance - tx.value }
    (.error (.custom .ZKMinimalAccount__ExecutionFailed))

/-- An execution reverts only before the target is called. -/
theorem executeTransaction_eq_ok :
    _executeTransaction E gasleft tx s = .ok p ↔
      CanExecute E gasleft tx s ∧ p = execution E tx s := by
  simp only [_executeTransaction, bind_eq_ok, safeCast_eq_ok, CanExecute, execution]
  by_cases hdeployer : target tx = E.DEPLOYER_SYSTEM_CONTRACT
  · simp only [hdeployer, if_true, bind_eq_ok, safeCast_eq_ok, pure_eq_ok]
    constructor
    · rintro ⟨_, ⟨hvalue, rfl⟩, _, ⟨hgas, -⟩, rfl⟩
      exact ⟨⟨hvalue, hgas⟩, rfl⟩
    · rintro ⟨⟨hvalue, hgas⟩, rfl⟩
      exact ⟨_, ⟨hvalue, rfl⟩, _, ⟨hgas, rfl⟩, rfl⟩
  · simp only [hdeployer, if_false, bind_eq_ok, revertIf_eq_ok, pure_eq_ok, Nat.not_lt]
    constructor
    · rintro ⟨_, ⟨hvalue, rfl⟩, -, hle, rfl⟩
      exact ⟨⟨hvalue, hle⟩, rfl⟩
    · rintro ⟨⟨hvalue, hle⟩, rfl⟩
      exact ⟨_, ⟨hvalue, rfl⟩, (), hle, rfl⟩

/-- What holds before and after the payment holds throughout an execution. -/
theorem forall_execution {P : State → Prop} (hs : P s)
    (hpaid : P { s with balance := s.balance - tx.value }) : (execution E tx s).Forall P := by
  rw [execution]
  split
  · split
    · exact Progress.forall_handsOver_ok.mpr ⟨hpaid, hs⟩
    · exact hs
  · exact Progress.forall_handsOver_error.mpr hpaid

/-- If the target returns, so does the call. -/
theorem succeeds_execution (inner : State → State) :
    Succeeds ((execution E tx s).finish inner true) := by
  rw [execution]
  split
  · split <;> exact ⟨_, rfl⟩
  · exact ⟨_, rfl⟩

/-- The fee is paid in full or not at all. -/
theorem payForTransaction_eq_ok :
    payForTransaction tx s = .ok s' ↔
      tx.fee < uint256Size ∧ tx.fee ≤ s.balance ∧
        s' = { s with balance := s.balance - tx.fee } := by
  simp only [payForTransaction, payToTheBootloader, bind_eq_ok, checkedMul_eq_ok, revertIf_eq_ok,
    pure_eq_ok, Prod.exists, Transaction.fee]
  by_cases hle : tx.maxFeePerGas * tx.gasLimit ≤ s.balance
  · constructor
    · rintro ⟨success, _, ⟨_, ⟨hlt, rfl⟩, heq⟩, -, -, rfl⟩
      rw [if_pos hle, Prod.mk.injEq] at heq
      exact ⟨hlt, hle, heq.2⟩
    · rintro ⟨hlt, -, rfl⟩
      exact ⟨true, _, ⟨_, ⟨hlt, rfl⟩, (if_pos hle).symm⟩, (), Bool.noConfusion, rfl⟩
  · constructor
    · rintro ⟨success, _, ⟨_, ⟨-, rfl⟩, heq⟩, -, hsuccess, -⟩
      rw [if_neg hle, Prod.mk.injEq] at heq
      exact absurd heq.1 hsuccess
    · rintro ⟨-, habs, -⟩
      exact absurd habs hle

end ZkMinimalAccount

end Account

end UpdraftContracts

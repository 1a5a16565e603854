import Mathlib.Data.Multiset.Basic
import UpdraftContracts.Evm.Abi
import UpdraftContracts.Evm.Erc20
import UpdraftContracts.Evm.Reentrancy

/-!
# `MinimalAccount`

An account of ERC-4337. The entry point asks it to validate an operation, for which the account pays
what the entry point says is missing, and later makes the call that the operation asks for. The
owner can make calls past the entry point.

`validateUserOp` pays whatever the signature is, and pays no attention to whether the payment
succeeds. Its answer is only a number. It does not look at the nonce of the operation either, the
line for this is commented out. So all that keeps operations from being executed without a signature
or twice is that the entry point keeps to its protocol: it hashes what it asks about, uses each
nonce once, and makes a call only for an operation that was accepted, and only once for each.

The hash of a user operation, the digest of it that is signed, the recovery of signers and the ABI
of `execute` are parameters.

## Main results

* `validateUserOp_eq_ok` — what a validation answers and does
* `spending_authorised` — where all ETH of the account went, at every point of a run
-/

namespace UpdraftContracts

open Evm

namespace Account

namespace MinimalAccount

/-- `PackedUserOperation` -/
structure PackedUserOperation where
  sender : Address
  nonce : ℕ
  initCode : List UInt8
  callData : List UInt8
  accountGasLimits : Word
  preVerificationGas : ℕ
  gasFees : Word
  paymasterAndData : List UInt8
  signature : List UInt8

/-- The errors of the account and of `Ownable`. -/
inductive Error where
  | MinimalAccount__NotFromEntryPoint
  | MinimalAccount__NotFromEntryPointOrOwner
  | MinimalAccount__CallFailed
  | OwnableUnauthorizedAccount (account : Address)
  | OwnableInvalidOwner (owner : Address)
  deriving DecidableEq

/-- What surrounds the account. -/
structure Environment where
  i_entryPoint : Address
  /-- `MessageHashUtils.toEthSignedMessageHash` -/
  toEthSignedMessageHash : Word → Word
  /-- `ECDSA.recover`, which reverts for a signature that is not well-formed. -/
  recover : Word → List UInt8 → Option Address
  /-- `getUserOpHash` of the entry point -/
  getUserOpHash : PackedUserOperation → Word
  /-- The arguments of `execute` in the data of a call. -/
  decodeExecute : List UInt8 → Option (Address × ℕ × List UInt8)

/-- The storage of the account, and its ETH. -/
structure State where
  owner : Address
  /-- The ETH of the account. -/
  balance : ℕ
  deriving DecidableEq

/-- `SIG_VALIDATION_SUCCESS` of the core helpers of the entry point -/
def SIG_VALIDATION_SUCCESS : ℕ := 0

/-- `SIG_VALIDATION_FAILED` of the core helpers of the entry point -/
def SIG_VALIDATION_FAILED : ℕ := 1

variable (E : Environment)

/-- The modifier of `validateUserOp`. -/
def requireFromEntryPoint (sender : Address) : Exec Error Unit :=
  revertIf (sender ≠ E.i_entryPoint) .MinimalAccount__NotFromEntryPoint

/-- The modifier of `execute`. -/
def requireFromEntryPointOrOwner (sender : Address) (s : State) : Exec Error Unit :=
  revertIf (sender ≠ E.i_entryPoint ∧ sender ≠ s.owner) .MinimalAccount__NotFromEntryPointOrOwner

/-- The modifier of `Ownable`. -/
def onlyOwner (sender : Address) (s : State) : Exec Error Unit :=
  revertIf (sender ≠ s.owner) (.OwnableUnauthorizedAccount sender)

/-- A call of `dest` without enough ETH fails as one that `dest` reverts. -/
def execute (sender _dest : Address) (value : ℕ) (_functionData : List UInt8) (s : State) :
    Exec Error (Progress Error State) := do
  requireFromEntryPointOrOwner E sender s
  revertIf (s.balance < value) .MinimalAccount__CallFailed
  return .handsOver { s with balance := s.balance - value }
    (.error (.custom .MinimalAccount__CallFailed))

/-- A wrong signature is an answer, a malformed one a revert. -/
def _validateSignature (userOp : PackedUserOperation) (userOpHash : Word) (s : State) :
    Exec Error ℕ := do
  let ethSignedMessageHash := E.toEthSignedMessageHash userOpHash
  let signer ← ofCallee (E.recover ethSignedMessageHash userOp.signature)
  if signer ≠ s.owner then return SIG_VALIDATION_FAILED
  return SIG_VALIDATION_SUCCESS

/-- It does not matter whether the sender takes the ETH. -/
def _payPrefund (missingAccountFunds : ℕ) (s : State) : Progress Error State :=
  if missingAccountFunds ≠ 0 then
    if missingAccountFunds ≤ s.balance then
      .handsOver { s with balance := s.balance - missingAccountFunds } (.ok s)
    else .returned s
  else .returned s

/-- The number that is returned, and what the account has done then. -/
def validateUserOp (sender : Address) (userOp : PackedUserOperation) (userOpHash : Word)
    (missingAccountFunds : ℕ) (s : State) : Exec Error (ℕ × Progress Error State) := do
  requireFromEntryPoint E sender
  let validationData ← _validateSignature E userOp userOpHash s
  return (validationData, _payPrefund missingAccountFunds s)

/-- The function of `Ownable`. Ownership cannot go to the zero address this way. -/
def transferOwnership (sender newOwner : Address) (s : State) : Exec Error State := do
  onlyOwner sender s
  revertIf (newOwner = 0) (.OwnableInvalidOwner 0)
  return { s with owner := newOwner }

/-- The function of `Ownable`. The account is left without an owner. -/
def renounceOwnership (sender : Address) (s : State) : Exec Error State := do
  onlyOwner sender s
  return { s with owner := 0 }

/-! ## Calls -/

/-- The functions of the account. -/
inductive AccountCall where
  | receive
  | execute (dest : Address) (value : ℕ) (functionData : List UInt8)
  | validateUserOp (userOp : PackedUserOperation) (userOpHash : Word) (missingAccountFunds : ℕ)
  | transferOwnership (newOwner : Address)
  | renounceOwnership

/-- A call, with who makes it and the ETH it carries. -/
structure Action where
  sender : Address
  value : ℕ
  call : AccountCall

/-- Only `receive` takes ETH. -/
def Action.notPayable (a : Action) : Exec Error Unit := ofCallee (guardSome (a.value = 0) ())

/-- Begin a call of the account. -/
def Action.start (s : State) (a : Action) : Exec Error (Progress Error State) :=
  match a.call with
  | .receive => return .returned { s with balance := s.balance + a.value }
  | .execute dest value functionData => do
    a.notPayable
    MinimalAccount.execute E a.sender dest value functionData s
  | .validateUserOp userOp userOpHash missingAccountFunds => do
    a.notPayable
    return (← MinimalAccount.validateUserOp E a.sender userOp userOpHash missingAccountFunds s).2
  | .transferOwnership newOwner => do
    a.notPayable
    return .returned (← MinimalAccount.transferOwnership a.sender newOwner s)
  | .renounceOwnership => do
    a.notPayable
    return .returned (← MinimalAccount.renounceOwnership a.sender s)

/-! ## What calls do -/

variable {E} {s s₀ : State} {a : Action} {p : Progress Error State}

/-- The account that signed for an operation under a hash. -/
def signer (E : Environment) (userOp : PackedUserOperation) (userOpHash : Word) : Option Address :=
  E.recover (E.toEthSignedMessageHash userOpHash) userOp.signature

/-- It pays whatever it answers. -/
theorem validateUserOp_eq_ok {sender : Address} {userOp : PackedUserOperation} {userOpHash : Word}
    {missingAccountFunds n : ℕ} :
    validateUserOp E sender userOp userOpHash missingAccountFunds s = .ok (n, p) ↔
      sender = E.i_entryPoint ∧ (∃ account, signer E userOp userOpHash = some account ∧
        n = if account = s.owner then SIG_VALIDATION_SUCCESS else SIG_VALIDATION_FAILED) ∧
      p = _payPrefund missingAccountFunds s := by
  simp only [validateUserOp, requireFromEntryPoint, _validateSignature, bind_eq_ok, revertIf_eq_ok,
    ofCallee_eq_ok, pure_eq_ok, exists_const, not_not, Prod.mk.injEq, signer]
  constructor
  · rintro ⟨hsender, _, ⟨account, haccount, hn⟩, rfl, rfl⟩
    refine ⟨hsender, ⟨account, haccount, ?_⟩, rfl⟩
    split at hn
    · next hne => rw [if_neg hne, pure_eq_ok.mp hn]
    · next heq => rw [if_pos (not_not.mp heq), pure_eq_ok.mp hn]
  · rintro ⟨hsender, ⟨account, haccount, rfl⟩, rfl⟩
    refine ⟨hsender, _, ⟨account, haccount, ?_⟩, rfl, rfl⟩
    by_cases heq : account = s.owner
    · rw [if_neg (not_not.mpr heq), if_pos heq]
      rfl
    · rw [if_pos heq, if_neg heq]
      rfl

/-- All that a call can do. -/
inductive Outcome (E : Environment) (s : State) (a : Action) : Progress Error State → Prop where
  | received (hcall : a.call = .receive) :
      Outcome E s a (.returned { s with balance := s.balance + a.value })
  | executed (dest : Address) (value : ℕ) (functionData : List UInt8)
      (hcall : a.call = .execute dest value functionData)
      (hsender : a.sender = E.i_entryPoint ∨ a.sender = s.owner) (hle : value ≤ s.balance) :
      Outcome E s a (.handsOver { s with balance := s.balance - value }
        (.error (.custom .MinimalAccount__CallFailed)))
  | validated (userOp : PackedUserOperation) (userOpHash : Word) (missingAccountFunds : ℕ)
      (n : ℕ) (hcall : a.call = .validateUserOp userOp userOpHash missingAccountFunds)
      (hval : validateUserOp E a.sender userOp userOpHash missingAccountFunds s
        = .ok (n, _payPrefund missingAccountFunds s)) :
      Outcome E s a (_payPrefund missingAccountFunds s)
  | transferred (newOwner : Address) (hcall : a.call = .transferOwnership newOwner)
      (hsender : a.sender = s.owner) : Outcome E s a (.returned { s with owner := newOwner })
  | renounced (hcall : a.call = .renounceOwnership) (hsender : a.sender = s.owner) :
      Outcome E s a (.returned { s with owner := 0 })

/-- Every call that begins is of one of these kinds. -/
theorem Action.outcome (h : a.start E s = .ok p) : Outcome E s a p := by
  cases hcall : a.call with
  | receive =>
    simp only [Action.start, hcall, pure_eq_ok] at h
    subst h
    exact .received hcall
  | execute dest value functionData =>
    simp only [Action.start, hcall, execute, requireFromEntryPointOrOwner, bind_eq_ok,
      revertIf_eq_ok, pure_eq_ok, exists_const, Nat.not_lt] at h
    obtain ⟨-, -, hsender, hle, rfl⟩ := h
    refine .executed dest value functionData hcall ?_ hle
    by_contra hneither
    exact hsender (not_or.mp hneither)
  | validateUserOp userOp userOpHash missingAccountFunds =>
    simp only [Action.start, hcall, bind_eq_ok, pure_eq_ok] at h
    obtain ⟨-, -, ⟨n, q⟩, hval, rfl⟩ := h
    obtain ⟨-, -, rfl⟩ := validateUserOp_eq_ok.mp hval
    exact .validated userOp userOpHash missingAccountFunds n hcall hval
  | transferOwnership newOwner =>
    simp only [Action.start, hcall, transferOwnership, onlyOwner, bind_eq_ok, revertIf_eq_ok,
      pure_eq_ok, exists_const, not_not] at h
    obtain ⟨-, -, _, ⟨hsender, -, rfl⟩, rfl⟩ := h
    exact .transferred newOwner hcall hsender
  | renounceOwnership =>
    simp only [Action.start, hcall, renounceOwnership, onlyOwner, bind_eq_ok, revertIf_eq_ok,
      pure_eq_ok, exists_const, not_not] at h
    obtain ⟨-, -, _, ⟨hsender, rfl⟩, rfl⟩ := h
    exact .renounced hcall hsender

/-! ## Histories -/

/-- What a run keeps on record. -/
inductive Event where
  | received (amount : ℕ)
  /-- `validateUserOp` returned `SIG_VALIDATION_SUCCESS`. -/
  | accepted (owner : Address) (userOp : PackedUserOperation)
  /-- It returned `SIG_VALIDATION_FAILED`. -/
  | refused (userOp : PackedUserOperation)
  /-- The entry point took what was missing. -/
  | prefunded (amount : ℕ)
  | executed (sender owner dest : Address) (value : ℕ) (functionData : List UInt8)

/-- What a call adds to the record, from the state it was made in and the one it has brought about.
-/
def record (E : Environment) (s : State) (a : Action) (s' : State) (log : List Event) :
    List Event :=
  match a.call with
  | .receive => .received a.value :: log
  | .execute dest value functionData => .executed a.sender s.owner dest value functionData :: log
  | .validateUserOp userOp userOpHash missingAccountFunds =>
    let log := if s'.balance < s.balance then .prefunded missingAccountFunds :: log else log
    match validateUserOp E a.sender userOp userOpHash missingAccountFunds s with
    | .ok (validationData, _) =>
      if validationData = SIG_VALIDATION_SUCCESS then .accepted s.owner userOp :: log
      else .refused userOp :: log
    | .error _ => log
  | _ => log

/-- The account with its history. -/
def History.start (E : Environment) : State × List Event → Action →
    Exec Error (Progress Error (State × List Event)) :=
  tracing (Action.start E) (record E)

/-- The ETH that came in. -/
def received (log : List Event) : ℕ :=
  (log.map fun
    | .received amount => amount
    | _ => 0).sum

/-- The ETH that the entry point took. -/
def prefunds (log : List Event) : ℕ :=
  (log.map fun
    | .prefunded amount => amount
    | _ => 0).sum

/-- The operations that were accepted, with who was the owner then. -/
def accepted (log : List Event) : List (Address × PackedUserOperation) :=
  log.filterMap fun
    | .accepted owner userOp => some (owner, userOp)
    | _ => none

/-- The nonces of all operations that the account was asked about. -/
def nonces (log : List Event) : List ℕ :=
  log.filterMap fun
    | .accepted _ userOp => some userOp.nonce
    | .refused userOp => some userOp.nonce
    | _ => none

/-- A call that the account makes. -/
abbrev Execution := Address × ℕ × List UInt8

/-- The calls that accepted operations ask for. -/
def requested (E : Environment) (log : List Event) : List Execution :=
  (accepted log).filterMap fun e => E.decodeExecute e.2.callData

/-- The calls that the entry point has made the account make. -/
def byEntryPoint (E : Environment) (log : List Event) : List Execution :=
  log.filterMap fun
    | .executed sender _ dest value functionData =>
      if sender = E.i_entryPoint then some (dest, value, functionData) else none
    | _ => none

/-- The calls that others have made it make. -/
def byOthers (E : Environment) (log : List Event) : List Execution :=
  log.filterMap fun
    | .executed sender _ dest value functionData =>
      if sender = E.i_entryPoint then none else some (dest, value, functionData)
    | _ => none

/-- The ETH that goes out with calls. -/
def spent (calls : List Execution) : ℕ := (calls.map fun c => c.2.1).sum

/-- The entry point asks about an operation with its hash, and with a nonce that was not used. It
makes only calls that accepted operations ask for, each as often as it is asked for. -/
def FollowsProtocol (E : Environment) (x : State × List Event) (a : Action) : Prop :=
  a.sender = E.i_entryPoint →
    match a.call with
    | .validateUserOp userOp userOpHash _ =>
      userOpHash = E.getUserOpHash userOp ∧ userOp.nonce ∉ nonces x.2
    | .execute dest value functionData =>
      (byEntryPoint E x.2).count (dest, value, functionData)
        < (requested E x.2).count (dest, value, functionData)
    | _ => True

/-- Where the ETH of the account went, and on whose authority. -/
structure Authorised (E : Environment) (s₀ s : State) (log : List Event) : Prop where
  /-- All ETH is accounted for. -/
  balance : s₀.balance + received log
    = s.balance + prefunds log + spent (byEntryPoint E log) + spent (byOthers E log)
  /-- The entry point has only made calls that accepted operations ask for. -/
  requested : (byEntryPoint E log).Subperm (MinimalAccount.requested E log)
  /-- An operation was accepted on a signature of the owner of that time. -/
  signed : ∀ e ∈ accepted log, signer E e.2 (E.getUserOpHash e.2) = some e.1
  /-- No nonce was used twice. -/
  nonces : (MinimalAccount.nonces log).Nodup
  /-- All other calls were made by the owner of that time. -/
  owner : ∀ sender owner dest value functionData,
    Event.executed sender owner dest value functionData ∈ log →
      sender = E.i_entryPoint ∨ sender = owner

namespace Authorised

variable {log : List Event} {s' : State}

/-- The calls on record are made by those who may, if the new event is no call or such a call. -/
theorem owner_cons {e : Event} (h : Authorised E s₀ s log)
    (he : ∀ sender owner dest value functionData,
      e = .executed sender owner dest value functionData →
        sender = E.i_entryPoint ∨ sender = owner)
    (sender owner dest : Address) (value : ℕ) (functionData : List UInt8)
    (hmem : .executed sender owner dest value functionData ∈ e :: log) :
    sender = E.i_entryPoint ∨ sender = owner := by
  rcases List.mem_cons.mp hmem with heq | hmem
  · exact he _ _ _ _ _ heq.symm
  · exact h.owner _ _ _ _ _ hmem

/-- An event that moves ETH and is no call: it is enough that the ETH adds up. -/
theorem of_balance {e : Event} (h : Authorised E s₀ s log)
    (hentry : byEntryPoint E (e :: log) = byEntryPoint E log)
    (hothers : byOthers E (e :: log) = byOthers E log)
    (haccepted : accepted (e :: log) = accepted log)
    (hnonces : MinimalAccount.nonces (e :: log) = MinimalAccount.nonces log)
    (hexecuted : ∀ sender owner dest value functionData,
      e ≠ .executed sender owner dest value functionData)
    (hbalance : s₀.balance + received (e :: log) = s'.balance + prefunds (e :: log)
      + spent (byEntryPoint E log) + spent (byOthers E log)) :
    Authorised E s₀ s' (e :: log) where
  balance := by rw [hentry, hothers]; exact hbalance
  requested := by
    rw [hentry, MinimalAccount.requested, haccepted]
    exact h.requested
  signed := by rw [haccepted]; exact h.signed
  nonces := by rw [hnonces]; exact h.nonces
  owner := h.owner_cons fun sender owner dest value functionData heq =>
    absurd heq (hexecuted sender owner dest value functionData)

theorem receive (h : Authorised E s₀ s log) (amount : ℕ) :
    Authorised E s₀ { s with balance := s.balance + amount } (.received amount :: log) := by
  refine h.of_balance rfl rfl rfl rfl nofun ?_
  have hbalance := h.balance
  have hreceived : received (.received amount :: log) = amount + received log := List.sum_cons
  have hprefunds : prefunds (.received amount :: log) = 0 + prefunds log := List.sum_cons
  rw [hreceived, hprefunds]
  dsimp only
  omega

/-- The prefund leaves the account, and is written down. -/
theorem prefund (h : Authorised E s₀ s log) {amount : ℕ} (hle : amount ≤ s.balance) :
    Authorised E s₀ { s with balance := s.balance - amount } (.prefunded amount :: log) := by
  refine h.of_balance rfl rfl rfl rfl nofun ?_
  have hbalance := h.balance
  have hreceived : received (.prefunded amount :: log) = 0 + received log := List.sum_cons
  have hprefunds : prefunds (.prefunded amount :: log) = amount + prefunds log := List.sum_cons
  rw [hreceived, hprefunds]
  dsimp only
  omega

/-- An answer to the entry point changes nothing about the ETH. -/
theorem balance_cons {e : Event} (h : Authorised E s₀ s log)
    (hreceived : received (e :: log) = 0 + received log)
    (hprefunds : prefunds (e :: log) = 0 + prefunds log) :
    s₀.balance + received (e :: log)
      = s.balance + prefunds (e :: log) + spent (byEntryPoint E log) + spent (byOthers E log) := by
  have hbalance := h.balance
  rw [hreceived, hprefunds]
  omega

/-- A refused operation moves nothing. -/
theorem refuse (h : Authorised E s₀ s log) {userOp : PackedUserOperation}
    (hnonce : userOp.nonce ∉ MinimalAccount.nonces log) :
    Authorised E s₀ s (.refused userOp :: log) where
  balance := h.balance_cons List.sum_cons List.sum_cons
  requested := h.requested
  signed := h.signed
  nonces := List.nodup_cons.mpr ⟨hnonce, h.nonces⟩
  owner := h.owner_cons fun _ _ _ _ _ heq => by cases heq

/-- An accepted operation may be executed later, once. -/
theorem accept (h : Authorised E s₀ s log) {owner : Address} {userOp : PackedUserOperation}
    (hsigned : signer E userOp (E.getUserOpHash userOp) = some owner)
    (hnonce : userOp.nonce ∉ MinimalAccount.nonces log) :
    Authorised E s₀ s (.accepted owner userOp :: log) where
  balance := h.balance_cons List.sum_cons List.sum_cons
  requested := by
    refine h.requested.trans (List.Sublist.subperm ?_)
    exact (List.sublist_cons_self (owner, userOp) (accepted log)).filterMap _
  signed := List.forall_mem_cons.mpr ⟨hsigned, h.signed⟩
  nonces := List.nodup_cons.mpr ⟨hnonce, h.nonces⟩
  owner := h.owner_cons fun _ _ _ _ _ heq => by cases heq

/-- One more call, which the entry point makes only if it is asked for once more. -/
theorem execute (h : Authorised E s₀ s log) {sender dest : Address} {value : ℕ}
    {functionData : List UInt8} (hsender : sender = E.i_entryPoint ∨ sender = s.owner)
    (hle : value ≤ s.balance)
    (hcount : sender = E.i_entryPoint → (byEntryPoint E log).count (dest, value, functionData)
      < (MinimalAccount.requested E log).count (dest, value, functionData)) :
    Authorised E s₀ { s with balance := s.balance - value }
      (.executed sender s.owner dest value functionData :: log) := by
  have hbalance := h.balance
  have howner : ∀ sender' owner' dest' value' functionData',
      Event.executed sender' owner' dest' value' functionData' ∈
        Event.executed sender s.owner dest value functionData :: log →
      sender' = E.i_entryPoint ∨ sender' = owner' := by
    refine h.owner_cons fun _ _ _ _ _ heq => ?_
    cases heq
    exact hsender
  have hreceived : received (.executed sender s.owner dest value functionData :: log)
      = 0 + received log := List.sum_cons
  have hprefunds : prefunds (.executed sender s.owner dest value functionData :: log)
      = 0 + prefunds log := List.sum_cons
  by_cases hentry : sender = E.i_entryPoint
  · have hby : byEntryPoint E (.executed sender s.owner dest value functionData :: log)
        = (dest, value, functionData) :: byEntryPoint E log :=
      List.filterMap_cons_some (if_pos hentry)
    have hothers : byOthers E (.executed sender s.owner dest value functionData :: log)
        = byOthers E log := List.filterMap_cons_none (if_pos hentry)
    have hspent : spent ((dest, value, functionData) :: byEntryPoint E log)
        = value + spent (byEntryPoint E log) := List.sum_cons
    refine ⟨?_, ?_, h.signed, h.nonces, howner⟩
    · rw [hreceived, hprefunds, hby, hothers, hspent]
      dsimp only
      omega
    · rw [hby]
      refine List.subperm_ext_iff.mpr fun c _ => ?_
      have hold := h.requested.count_le c
      rw [List.count_cons]
      split
      · next heq =>
        obtain rfl := eq_of_beq heq
        exact hcount hentry
      · exact hold
  · have hby : byEntryPoint E (.executed sender s.owner dest value functionData :: log)
        = byEntryPoint E log := List.filterMap_cons_none (if_neg hentry)
    have hothers : byOthers E (.executed sender s.owner dest value functionData :: log)
        = (dest, value, functionData) :: byOthers E log :=
      List.filterMap_cons_some (if_neg hentry)
    have hspent : spent ((dest, value, functionData) :: byOthers E log)
        = value + spent (byOthers E log) := List.sum_cons
    refine ⟨?_, ?_, h.signed, h.nonces, howner⟩
    · rw [hreceived, hprefunds, hby, hothers, hspent]
      dsimp only
      omega
    · rw [hby]
      exact h.requested

/-- A change of the owner. -/
theorem of_balance_eq (h : Authorised E s₀ s log) (hbalance : s'.balance = s.balance) :
    Authorised E s₀ s' log :=
  { h with balance := by rw [hbalance]; exact h.balance }

/-- The answer to the entry point. -/
theorem validate (h : Authorised E s₀ s' log) {sender : Address} {userOp : PackedUserOperation}
    {missingAccountFunds n : ℕ} (hnonce : userOp.nonce ∉ MinimalAccount.nonces log)
    (hval : validateUserOp E sender userOp (E.getUserOpHash userOp) missingAccountFunds s
      = .ok (n, p)) :
    Authorised E s₀ s' (if n = SIG_VALIDATION_SUCCESS then .accepted s.owner userOp :: log
      else .refused userOp :: log) := by
  obtain ⟨-, ⟨account, haccount, rfl⟩, -⟩ := validateUserOp_eq_ok.mp hval
  by_cases howner : account = s.owner
  · rw [if_pos howner, if_pos rfl]
    exact h.accept (howner ▸ haccount) hnonce
  · rw [if_neg howner, if_neg (by decide)]
    exact h.refuse hnonce

end Authorised

/-- Every call, with whatever is nested in it, keeps the spending authorised. -/
theorem preserves_authorised :
    Preserves (History.start E) (FollowsProtocol E) fun x => Authorised E s₀ x.1 x.2 := by
  refine preserves_tracing fun s log a p hok (h : Authorised E s₀ s log) hstart => ?_
  cases Action.outcome hstart with
  | received hcall =>
    simp only [Progress.Forall, record, hcall]
    exact h.receive a.value
  | executed dest value functionData hcall hsender hle =>
    rw [Progress.forall_handsOver_error]
    simp only [record, hcall]
    refine h.execute hsender hle fun hentry => ?_
    have := hok hentry
    rwa [hcall] at this
  | validated userOp userOpHash missingAccountFunds n hcall hval =>
    have hprotocol := hok (validateUserOp_eq_ok.mp hval).1
    rw [hcall] at hprotocol
    obtain ⟨rfl, hnonce⟩ := hprotocol
    have hpaid : missingAccountFunds ≠ 0 → missingAccountFunds ≤ s.balance → Authorised E s₀
        { s with balance := s.balance - missingAccountFunds }
        (record E s a { s with balance := s.balance - missingAccountFunds } log) := by
      intro hne hle
      simp only [record, hcall, hval,
        if_pos (show s.balance - missingAccountFunds < s.balance by omega)]
      exact (h.prefund hle).validate hnonce hval
    have hunpaid : Authorised E s₀ s (record E s a s log) := by
      simp only [record, hcall, hval, lt_irrefl, if_false]
      exact h.validate hnonce hval
    rw [_payPrefund]
    split
    · next hne =>
      split
      · next hle => exact Progress.forall_handsOver_ok.mpr ⟨hpaid hne hle, hunpaid⟩
      · exact hunpaid
    · exact hunpaid
  | transferred newOwner hcall hsender =>
    simp only [Progress.Forall, record, hcall]
    exact h.of_balance_eq rfl
  | renounced hcall hsender =>
    simp only [Progress.Forall, record, hcall]
    exact h.of_balance_eq rfl

/-- **Where the ETH goes.** Whatever calls are made, by whom and from inside which others, if the
entry point follows its protocol, then at every point all ETH that has left the account was taken by
the entry point for validations, was sent by calls of the owner, or was sent by calls that the owner
signed for, each signature used once. -/
theorem spending_authorised (calls : Calls Action)
    (hprotocol : calls.Along (History.start E) (FollowsProtocol E) (s₀, [])) :
    ∀ x ∈ calls.points (History.start E) (s₀, []), Authorised E s₀ x.1 x.2 :=
  preserves_authorised.points calls hprotocol
    ⟨rfl, List.Subperm.refl [], nofun, List.nodup_nil, nofun⟩

/-! ### An operation that is signed and executed -/

/-- The hash of an operation is its nonce, a signature is the signer's number, and the data of a
call are its target and its value. -/
def sampleEnvironment : Environment where
  i_entryPoint := 7
  toEthSignedMessageHash hash := hash
  recover _ signature := signature.head?.map fun b => Address.ofNat b.toNat
  getUserOpHash userOp := Word.ofNat userOp.nonce
  decodeExecute
    | [dest, value] => some (Address.ofNat dest.toNat, value.toNat, [])
    | _ => none

/-- Account 1 is the owner and signs a payment of 30 to account 9. -/
def sampleOperation : PackedUserOperation where
  sender := 5
  nonce := 0
  initCode := []
  callData := [9, 30]
  accountGasLimits := 0
  preVerificationGas := 0
  gasFees := 0
  paymasterAndData := []
  signature := [1]

/-- The entry point takes 5 for the validation, and account 9 gives back 2 of the 30. -/
def sampleCalls : Calls Action :=
  .call ⟨7, 0, .validateUserOp sampleOperation 0 5⟩ .done true <|
    .call ⟨7, 0, .execute 9 30 []⟩ (.call ⟨9, 2, .receive⟩ .done true .done) true .done

/-- The account after those calls, with its history. -/
def sampleEnd : State × List Event :=
  sampleCalls.exec (History.start sampleEnvironment) (⟨1, 100⟩, [])

theorem spending_authorised_sample :
    (sampleEnd.1 = ⟨1, 67⟩ ∧ byEntryPoint sampleEnvironment sampleEnd.2 = [(9, 30, [])]) ∧
    Authorised sampleEnvironment ⟨1, 100⟩ sampleEnd.1 sampleEnd.2 := by
  refine ⟨by decide, spending_authorised sampleCalls ?_ _ (Calls.exec_mem_points _ _ _)⟩
  refine ⟨fun _ => ⟨by decide, by decide⟩, fun _ _ => trivial, fun _ => ?_, fun _ _ => ?_, trivial⟩
  · show List.count _ _ < List.count _ _
    decide
  · exact ⟨fun hentry => absurd hentry (by decide), fun _ _ => trivial, trivial⟩

end MinimalAccount

end Account

end UpdraftContracts

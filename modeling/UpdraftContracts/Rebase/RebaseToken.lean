import UpdraftContracts.Evm.Erc20
import UpdraftContracts.Evm.Run

/-!
# `RebaseToken`

The token whose balances grow with time. The base contract keeps a principal for every account;
the token adds a rate and a time stamp, and computes the balance from the three. Every operation
first mints the interest that an account has accrued, which makes the principal catch up with the
balance.

The functions follow the source statement by statement. `sender` is `msg.sender`. Calls of the base
contract (`super.transfer`, `_mint`, …) go to the parameter `B`. Besides the functions the token
defines, the ones it inherits from `Ownable` and `AccessControl` are here, since they decide who
holds the role. Events are not modelled.
-/

namespace UpdraftContracts

open Evm

namespace Rebase

/-- The roles in use. `DEFAULT_ADMIN_ROLE` administers both. -/
inductive Role where
  | DEFAULT_ADMIN_ROLE
  | MINT_AND_BURN_ROLE
  deriving DecidableEq

/-- The errors of `RebaseToken` and of the contracts it inherits from. -/
inductive Error where
  | RebaseToken__InterestRateCanOnlyDecrease (interestRate newInterestRate : ℕ)
  | OwnableUnauthorizedAccount (account : Address)
  | OwnableInvalidOwner (owner : Address)
  | AccessControlUnauthorizedAccount (account : Address) (neededRole : Role)
  | AccessControlBadConfirmation
  deriving DecidableEq

/-- The storage of the token, and the clock it reads. -/
structure Token where
  /-- `block.timestamp` -/
  timestamp : ℕ
  /-- The storage of the base contract. Its balances are the principals. -/
  ledger : Ledger Address
  owner : Address
  hasRole : Role → Address → Bool
  s_interestRate : ℕ
  s_userInterestRates : Address → ℕ
  s_userLastUpdatedTimestamp : Address → ℕ

namespace Token

variable (s : Token)

/-- Write the storage of the base contract. -/
def setLedger (L : Ledger Address) : Token := { s with ledger := L }

/-- Write `s_userInterestRates[user]`. -/
def setRate (user : Address) (rate : ℕ) : Token :=
  { s with s_userInterestRates := Function.update s.s_userInterestRates user rate }

/-- Write `s_userLastUpdatedTimestamp[user]`. -/
def setLastUpdated (user : Address) (time : ℕ) : Token :=
  { s with s_userLastUpdatedTimestamp := Function.update s.s_userLastUpdatedTimestamp user time }

/-- Grant a role, or take it back. -/
def setRole (role : Role) (account : Address) (granted : Bool) : Token :=
  { s with
    hasRole := Function.update s.hasRole role (Function.update (s.hasRole role) account granted) }

end Token

namespace RebaseToken

/-- One, with eighteen decimals. -/
def PRECISION_FACTOR : ℕ := 10 ^ 18

/-- The storage after the constructor, called by `deployer`. -/
def constructor (deployer : Address) (timestamp : ℕ) : Token where
  timestamp := timestamp
  ledger := Ledger.empty
  owner := deployer
  hasRole _ _ := false
  s_interestRate := 5 * PRECISION_FACTOR / 10 ^ 8
  s_userInterestRates _ := 0
  s_userLastUpdatedTimestamp _ := 0

/-! ## Modifiers -/

/-- The modifier of `Ownable`. -/
def onlyOwner (sender : Address) (s : Token) : Exec Error Unit :=
  revertIf (sender ≠ s.owner) (.OwnableUnauthorizedAccount sender)

/-- The modifier of `AccessControl`. -/
def onlyRole (role : Role) (sender : Address) (s : Token) : Exec Error Unit :=
  revertIf (s.hasRole role sender = false) (.AccessControlUnauthorizedAccount sender role)

/-! ## Balances -/

/-- The factor by which a principal has grown, with eighteen decimals. For an account that was never
updated it is zero, not one. -/
def _calculateUserAccumulatedInterestSinceLastUpdate (user : Address) (s : Token) :
    Exec Error ℕ := do
  let lastUpdatedTimestamp := s.s_userLastUpdatedTimestamp user
  if lastUpdatedTimestamp = 0 then return 0
  else
    let timeElapsed ← checkedSub s.timestamp lastUpdatedTimestamp
    let growth ← checkedMul (s.s_userInterestRates user) timeElapsed
    checkedAdd PRECISION_FACTOR growth

/-- The principal with the interest since the last update. -/
def balanceOf (user : Address) (s : Token) : Exec Error ℕ := do
  let currentPrincipalBalance := s.ledger.balance user
  if currentPrincipalBalance = 0 then return 0
  else
    let interest ← _calculateUserAccumulatedInterestSinceLastUpdate user s
    let scaled ← checkedMul currentPrincipalBalance interest
    return scaled / PRECISION_FACTOR

/-- The rate at which the principal of an account grows. -/
def getUserInterestRate (user : Address) (s : Token) : ℕ := s.s_userInterestRates user

/-- The rate for new deposits. -/
def getInterestRate (s : Token) : ℕ := s.s_interestRate

variable (B : OpenZeppelinErc20 Address)

/-- Turn the interest of an account into principal. -/
def _mintAccruedInterest (user : Address) (s : Token) : Exec Error Token := do
  let principleBalance := s.ledger.balance user
  let currentBalance ← balanceOf user s
  let tokensToMint ← checkedSub currentBalance principleBalance
  let s := s.setLastUpdated user s.timestamp
  let L ← ofCallee (B._mint s.ledger user tokensToMint)
  return s.setLedger L

/-! ## External functions -/

/-- The rate of the account becomes the given one, for the old principal as well. -/
def mint (sender dst : Address) (amount userInterestRate : ℕ) (s : Token) : Exec Error Token := do
  onlyRole .MINT_AND_BURN_ROLE sender s
  let s ← _mintAccruedInterest B dst s
  let s := s.setRate dst userInterestRate
  let L ← ofCallee (B._mint s.ledger dst amount)
  return s.setLedger L

/-- `if (_amount == type(uint256).max) _amount = balanceOf(account);` -/
def resolveAmount (account : Address) (amount : ℕ) (s : Token) : Exec Error ℕ :=
  if amount = uint256Max then balanceOf account s else return amount

/-- The amount is resolved before the interest is minted. -/
def burn (sender src : Address) (amount : ℕ) (s : Token) : Exec Error Token := do
  onlyRole .MINT_AND_BURN_ROLE sender s
  let amount ← resolveAmount src amount s
  let s ← _mintAccruedInterest B src s
  let L ← ofCallee (B._burn s.ledger src amount)
  return s.setLedger L

/-- The rate only falls. An equal one is refused, too. -/
def setInterestRate (sender : Address) (newInterestRate : ℕ) (s : Token) : Exec Error Token := do
  onlyOwner sender s
  revertIf (newInterestRate ≥ s.s_interestRate)
    (.RebaseToken__InterestRateCanOnlyDecrease s.s_interestRate newInterestRate)
  return { s with s_interestRate := newInterestRate }

/-- The owner grants the role, without being its admin. -/
def grantMintAndBurnRole (sender account : Address) (s : Token) : Exec Error Token := do
  onlyOwner sender s
  return s.setRole .MINT_AND_BURN_ROLE account true

/-- What `transfer` and `transferFrom` do before they call the base contract. The amount is resolved
after the interest is minted. -/
def beforeTransfer (src recipient : Address) (amount : ℕ) (s : Token) : Exec Error (ℕ × Token) := do
  let s ← _mintAccruedInterest B src s
  let s ← _mintAccruedInterest B recipient s
  let amount ← resolveAmount src amount s
  let recipientBalance ← balanceOf recipient s
  let s := if recipientBalance = 0 then s.setRate recipient (s.s_userInterestRates src) else s
  return (amount, s)

/-- Move tokens of the sender. -/
def transfer (sender recipient : Address) (amount : ℕ) (s : Token) : Exec Error (Bool × Token) := do
  let (amount, s) ← beforeTransfer B sender recipient amount s
  let (success, L) ← ofCallee (B.transfer s.ledger sender recipient amount)
  return (success, s.setLedger L)

/-- Move tokens of an account that approved it. The interest is minted before the allowance is
checked. -/
def transferFrom (sender src recipient : Address) (amount : ℕ) (s : Token) :
    Exec Error (Bool × Token) := do
  let (amount, s) ← beforeTransfer B src recipient amount s
  let (success, L) ← ofCallee (B.transferFrom s.ledger sender src recipient amount)
  return (success, s.setLedger L)

/-! ## Inherited functions -/

/-- The function of the base contract. -/
def approve (sender spender : Address) (value : ℕ) (s : Token) : Exec Error (Bool × Token) := do
  let (success, L) ← ofCallee (B.approve s.ledger sender spender value)
  return (success, s.setLedger L)

/-- The function of `Ownable`. Ownership cannot go to the zero address this way. -/
def transferOwnership (sender newOwner : Address) (s : Token) : Exec Error Token := do
  onlyOwner sender s
  revertIf (newOwner = 0) (.OwnableInvalidOwner 0)
  return { s with owner := newOwner }

/-- The function of `Ownable`. The token is left without an owner. -/
def renounceOwnership (sender : Address) (s : Token) : Exec Error Token := do
  onlyOwner sender s
  return { s with owner := 0 }

/-- The function of `AccessControl`. Nobody has the role that it asks for. -/
def grantRole (sender : Address) (role : Role) (account : Address) (s : Token) :
    Exec Error Token := do
  onlyRole .DEFAULT_ADMIN_ROLE sender s
  return s.setRole role account true

/-- The function of `AccessControl`. Nobody has the role that it asks for. -/
def revokeRole (sender : Address) (role : Role) (account : Address) (s : Token) :
    Exec Error Token := do
  onlyRole .DEFAULT_ADMIN_ROLE sender s
  return s.setRole role account false

/-- The function of `AccessControl`, by which an account gives up a role of its own. -/
def renounceRole (sender : Address) (role : Role) (callerConfirmation : Address) (s : Token) :
    Exec Error Token := do
  revertIf (callerConfirmation ≠ sender) .AccessControlBadConfirmation
  return s.setRole role callerConfirmation false

end RebaseToken

/-! ## Runs -/

/-- The state-changing public functions. -/
inductive TokenCall where
  | mint (dst : Address) (amount userInterestRate : ℕ)
  | burn (src : Address) (amount : ℕ)
  | setInterestRate (newInterestRate : ℕ)
  | grantMintAndBurnRole (account : Address)
  | transfer (recipient : Address) (amount : ℕ)
  | transferFrom (src recipient : Address) (amount : ℕ)
  | approve (spender : Address) (value : ℕ)
  | transferOwnership (newOwner : Address)
  | renounceOwnership
  | grantRole (role : Role) (account : Address)
  | revokeRole (role : Role) (account : Address)
  | renounceRole (role : Role) (callerConfirmation : Address)

/-- Run a call of the token. -/
def TokenCall.exec (B : OpenZeppelinErc20 Address) (sender : Address) :
    TokenCall → Token → Exec Error Token
  | mint dst a r => RebaseToken.mint B sender dst a r
  | burn src a => RebaseToken.burn B sender src a
  | setInterestRate r => RebaseToken.setInterestRate sender r
  | grantMintAndBurnRole account => RebaseToken.grantMintAndBurnRole sender account
  | transfer dst a => fun s => do return (← RebaseToken.transfer B sender dst a s).2
  | transferFrom src dst a => fun s => do return (← RebaseToken.transferFrom B sender src dst a s).2
  | approve spender v => fun s => do return (← RebaseToken.approve B sender spender v s).2
  | transferOwnership o => RebaseToken.transferOwnership sender o
  | renounceOwnership => RebaseToken.renounceOwnership sender
  | grantRole role account => RebaseToken.grantRole sender role account
  | revokeRole role account => RebaseToken.revokeRole sender role account
  | renounceRole role account => RebaseToken.renounceRole sender role account

/-- Time passes. -/
def Token.elapse (s : Token) (seconds : ℕ) : Token := { s with timestamp := s.timestamp + seconds }

/-- What can happen next. -/
inductive TokenAction where
  | call (sender : Address) (c : TokenCall)
  | elapse (seconds : ℕ)

/-- The state after an action. -/
def TokenAction.step (B : OpenZeppelinErc20 Address) (s : Token) : TokenAction → Token
  | call sender c => settle s (c.exec B sender s)
  | elapse seconds => s.elapse seconds

/-- The states of all runs of a token deployed at a positive time. -/
def TokenReachable (B : OpenZeppelinErc20 Address) (s : Token) : Prop :=
  ∃ deployer timestamp as, 0 < timestamp ∧
    s = run (TokenAction.step B) (RebaseToken.constructor deployer timestamp) as

end Rebase

end UpdraftContracts

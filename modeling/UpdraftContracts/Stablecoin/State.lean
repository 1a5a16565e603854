import Mathlib.Data.BitVec
import UpdraftContracts.Evm.Erc20

/-!
# The state of the stablecoin system

One record holds everything the calls of `DSCEngine` and `DecentralizedStableCoin` read or write:
the storage of the engine, the ledger of every token, the owner of the coin, and what the price
feeds report. The ledger of the coin sits in the same map as the ledgers of the collateral
tokens, because nothing in the engine's constructor keeps the coin itself out of the collateral
list.

What does not change after deployment is in `Deployment`: the two addresses and the code of the
tokens. The code of the coin is the OpenZeppelin base contract. Nothing is known about the code of
the other tokens; results that need an exact or a standard token say so.
-/

namespace UpdraftContracts

open Evm

namespace Stablecoin

/-- The errors declared by `DSCEngine`, `DecentralizedStableCoin` and `OracleLib`, and those of
the modifiers they inherit. -/
inductive Error where
  | DSCEngine__NeedsBeMoreThanZero
  | DSCEngine__TokenAddressAndPriceFeedAddressLengthMismatch
  | DSCEngine__NotAllowedToken
  | DSCEngine__TransferFailed
  | DSCEngine__HealthFactorIsBroken (healthFactor : ℕ)
  | DSCEngine__MintFailed
  | DSCEngine__HealthFactorIsGood (healthFactor : ℕ)
  | DSCEngine__HealthFactorNotImproved (healthFactor : ℕ)
  | DecentralizedStableCoin__MustBeMoreThanZero
  | DecentralizedStableCoin__BurnAmountExceedsBalance
  | DecentralizedStableCoin__NotZeroAddress
  | OracleLib__StalePrice
  | OwnableUnauthorizedAccount (account : Address)
  | OwnableInvalidOwner (owner : Address)
  | ReentrancyGuardReentrantCall
  deriving DecidableEq

/-- What `latestRoundData` of an aggregator returns. The answer is an `int256`. -/
structure RoundData where
  roundId : BitVec 80
  answer : BitVec 256
  startedAt : ℕ
  updatedAt : ℕ
  answeredInRound : BitVec 80

/-- The parts of the system that are fixed at deployment. -/
structure Deployment where
  /-- The address of the engine. -/
  engine : Address
  /-- The address of the coin, an immutable of the engine. -/
  i_DSC : Address
  /-- The base contract of the coin. -/
  dsc : OpenZeppelinErc20 Address
  /-- The code at every other token address. -/
  token : Address → Erc20 Address
  /-- No contract lives at the zero address. -/
  engine_ne_zero : engine ≠ 0

/-- The code a call to `IERC20(t)` runs. -/
def Deployment.erc20 (D : Deployment) (t : Address) : Erc20 Address :=
  if t = D.i_DSC then D.dsc.toErc20 else D.token t

@[simp] theorem Deployment.erc20_dsc (D : Deployment) : D.erc20 D.i_DSC = D.dsc.toErc20 :=
  if_pos rfl

theorem Deployment.erc20_dsc_exact (D : Deployment) : (D.erc20 D.i_DSC).Exact := by
  rw [D.erc20_dsc]
  exact D.dsc.standard.toExact

theorem Deployment.erc20_standard {D : Deployment} (h : ∀ t, (D.token t).Standard) (t : Address) :
    (D.erc20 t).Standard := by
  rw [Deployment.erc20]
  split
  · exact D.dsc.standard
  · exact h t

/-- The state the contracts read and write. -/
structure World where
  /-- `block.timestamp` -/
  timestamp : ℕ
  /-- The latest round of the aggregator at an address, if one answers there. -/
  latestRound : Address → Option RoundData
  /-- The ledger of the token at an address. -/
  ledgers : Address → Ledger Address
  /-- The owner of the coin. -/
  owner : Address
  s_priceFeeds : Address → Address
  /-- `s_collateralDeposited user token` -/
  s_collateralDeposited : Address → Address → ℕ
  s_DSCMinted : Address → ℕ
  s_collateralTokens : List Address
  /-- The reentrancy lock of the engine. -/
  entered : Bool

namespace World

variable (w : World)

/-- Write the ledger of one token. -/
def setLedger (t : Address) (L : Ledger Address) : World :=
  { w with ledgers := Function.update w.ledgers t L }

/-- Write `s_collateralDeposited[user][token]`. -/
def setDeposited (user token : Address) (amount : ℕ) : World :=
  { w with
    s_collateralDeposited := Function.update w.s_collateralDeposited user
      (Function.update (w.s_collateralDeposited user) token amount) }

/-- Write `s_DSCMinted[user]`. -/
def setMinted (user : Address) (amount : ℕ) : World :=
  { w with s_DSCMinted := Function.update w.s_DSCMinted user amount }

/-- Take or release the reentrancy lock. -/
def setEntered (b : Bool) : World := { w with entered := b }

/-! ### Reading after writing -/

variable {w} {t u v : Address} {L : Ledger Address} {n : ℕ} {b : Bool}

@[simp] theorem timestamp_setLedger : (w.setLedger t L).timestamp = w.timestamp := rfl
@[simp] theorem latestRound_setLedger : (w.setLedger t L).latestRound = w.latestRound := rfl
@[simp] theorem owner_setLedger : (w.setLedger t L).owner = w.owner := rfl
@[simp] theorem priceFeeds_setLedger : (w.setLedger t L).s_priceFeeds = w.s_priceFeeds := rfl
@[simp] theorem deposited_setLedger :
    (w.setLedger t L).s_collateralDeposited = w.s_collateralDeposited := rfl
@[simp] theorem minted_setLedger : (w.setLedger t L).s_DSCMinted = w.s_DSCMinted := rfl
@[simp] theorem tokens_setLedger :
    (w.setLedger t L).s_collateralTokens = w.s_collateralTokens := rfl
@[simp] theorem entered_setLedger : (w.setLedger t L).entered = w.entered := rfl

@[simp] theorem timestamp_setDeposited : (w.setDeposited u t n).timestamp = w.timestamp := rfl
@[simp] theorem latestRound_setDeposited :
    (w.setDeposited u t n).latestRound = w.latestRound := rfl
@[simp] theorem ledgers_setDeposited : (w.setDeposited u t n).ledgers = w.ledgers := rfl
@[simp] theorem owner_setDeposited : (w.setDeposited u t n).owner = w.owner := rfl
@[simp] theorem priceFeeds_setDeposited :
    (w.setDeposited u t n).s_priceFeeds = w.s_priceFeeds := rfl
@[simp] theorem minted_setDeposited : (w.setDeposited u t n).s_DSCMinted = w.s_DSCMinted := rfl
@[simp] theorem tokens_setDeposited :
    (w.setDeposited u t n).s_collateralTokens = w.s_collateralTokens := rfl
@[simp] theorem entered_setDeposited : (w.setDeposited u t n).entered = w.entered := rfl

@[simp] theorem timestamp_setMinted : (w.setMinted u n).timestamp = w.timestamp := rfl
@[simp] theorem latestRound_setMinted : (w.setMinted u n).latestRound = w.latestRound := rfl
@[simp] theorem ledgers_setMinted : (w.setMinted u n).ledgers = w.ledgers := rfl
@[simp] theorem owner_setMinted : (w.setMinted u n).owner = w.owner := rfl
@[simp] theorem priceFeeds_setMinted : (w.setMinted u n).s_priceFeeds = w.s_priceFeeds := rfl
@[simp] theorem deposited_setMinted :
    (w.setMinted u n).s_collateralDeposited = w.s_collateralDeposited := rfl
@[simp] theorem tokens_setMinted :
    (w.setMinted u n).s_collateralTokens = w.s_collateralTokens := rfl
@[simp] theorem entered_setMinted : (w.setMinted u n).entered = w.entered := rfl

@[simp] theorem timestamp_setEntered : (w.setEntered b).timestamp = w.timestamp := rfl
@[simp] theorem latestRound_setEntered : (w.setEntered b).latestRound = w.latestRound := rfl
@[simp] theorem ledgers_setEntered : (w.setEntered b).ledgers = w.ledgers := rfl
@[simp] theorem owner_setEntered : (w.setEntered b).owner = w.owner := rfl
@[simp] theorem priceFeeds_setEntered : (w.setEntered b).s_priceFeeds = w.s_priceFeeds := rfl
@[simp] theorem deposited_setEntered :
    (w.setEntered b).s_collateralDeposited = w.s_collateralDeposited := rfl
@[simp] theorem minted_setEntered : (w.setEntered b).s_DSCMinted = w.s_DSCMinted := rfl
@[simp] theorem tokens_setEntered :
    (w.setEntered b).s_collateralTokens = w.s_collateralTokens := rfl
@[simp] theorem entered_setEntered : (w.setEntered b).entered = b := rfl

@[simp] theorem ledgers_setLedger_self : (w.setLedger t L).ledgers t = L := by simp [setLedger]

theorem ledgers_setLedger (t' : Address) :
    (w.setLedger t L).ledgers t' = if t' = t then L else w.ledgers t' := by
  simp [setLedger, Function.update_apply]

theorem minted_setMinted (u' : Address) :
    (w.setMinted u n).s_DSCMinted u' = if u' = u then n else w.s_DSCMinted u' := by
  simp [setMinted, Function.update_apply]

theorem deposited_setDeposited (u' t' : Address) :
    (w.setDeposited u t n).s_collateralDeposited u' t'
      = if u' = u ∧ t' = t then n else w.s_collateralDeposited u' t' := by
  rcases eq_or_ne u' u with rfl | hu
  · rcases eq_or_ne t' t with rfl | ht
    · simp [setDeposited]
    · simp [setDeposited, ht]
  · simp [setDeposited, hu]

end World

end Stablecoin

end UpdraftContracts

import UpdraftContracts.Stablecoin.DecentralizedStableCoin

/-!
# `OracleLib` and `DSCEngine`

The two contracts, function by function and in the order of their statements. `sender` is
`msg.sender`; the state is passed explicitly, so a `do` block reads top to bottom like the
function body it models. Events are not modelled: nothing reads them.

The modifiers of a function run in the order the source lists them. That order decides which
error a call with several faults reports.
-/

namespace UpdraftContracts

open Evm

namespace Stablecoin

/-! ## `OracleLib` -/

namespace OracleLib

/-- `3 hours` -/
def TIMEOUT : ℕ := 3 * 60 * 60

/-- `priceFeed.latestRoundData()`. There is no contract at the zero address. -/
def latestRoundData (priceFeed : Address) (w : World) : Exec Error RoundData :=
  ofCallee (if priceFeed = 0 then none else w.latestRound priceFeed)

/-- A round older than `TIMEOUT` is refused. The other fields of the round are not looked at. -/
def staleCheckLatestRoundData (priceFeed : Address) (w : World) : Exec Error RoundData := do
  let round ← latestRoundData priceFeed w
  let secondsSince ← checkedSub w.timestamp round.updatedAt
  revertIf (secondsSince > TIMEOUT) .OracleLib__StalePrice
  return round

end OracleLib

/-! ## `DSCEngine` -/

namespace DSCEngine

/-- Feeds have eight decimals, amounts eighteen. -/
def ADDITIONAL_FEED_PRECISION : ℕ := 10 ^ 10
/-- One, with eighteen decimals. -/
def PRECISION : ℕ := 10 ^ 18
/-- The part of the collateral that counts, in percent. -/
def LIQUIDATION_THRESHOLD : ℕ := 50
/-- A hundred percent. -/
def LIQUIDATION_PRECISION : ℕ := 100
/-- One, with eighteen decimals. -/
def MIN_HEALTH_FACTOR : ℕ := 10 ^ 18
/-- What a liquidator gets on top, in percent. -/
def LIQUIDATION_BONUS : ℕ := 10

variable (D : Deployment)

/-! ### Modifiers -/

/-- The modifier for amounts. -/
def moreThanZero (amount : ℕ) : Exec Error Unit :=
  revertIf (amount = 0) .DSCEngine__NeedsBeMoreThanZero

/-- The modifier for tokens. A token is allowed when it has a feed. -/
def isAllowedToken (token : Address) (w : World) : Exec Error Unit :=
  revertIf (w.s_priceFeeds token = 0) .DSCEngine__NotAllowedToken

/-- The modifier of `ReentrancyGuard` around a function body. -/
def nonReentrant (body : World → Exec Error World) (w : World) : Exec Error World := do
  revertIf (w.entered = true) .ReentrancyGuardReentrantCall
  let w ← body (w.setEntered true)
  return w.setEntered false

/-! ### Construction -/

/-- The loop of the constructor over the two lists. -/
def registerTokens : List (Address × Address) → World → World
  | [], w => w
  | (token, priceFeed) :: rest, w =>
    registerTokens rest
      { w with
        s_priceFeeds := Function.update w.s_priceFeeds token priceFeed
        s_collateralTokens := w.s_collateralTokens ++ [token] }

/-- The lists have the same length. A token is not checked against the others, nor a feed for being
one. -/
def constructor (tokenAddresses priceFeedAddress : List Address) (w : World) :
    Exec Error World := do
  revertIf (tokenAddresses.length ≠ priceFeedAddress.length)
    .DSCEngine__TokenAddressAndPriceFeedAddressLengthMismatch
  return registerTokens (tokenAddresses.zip priceFeedAddress) w

/-! ### Views -/

/-- `uint256(price)` of a negative answer wraps around; the multiplication by
`ADDITIONAL_FEED_PRECISION` comes first and is checked. -/
def getUSDValue (token : Address) (amount : ℕ) (w : World) : Exec Error ℕ := do
  let round ← OracleLib.staleCheckLatestRoundData (w.s_priceFeeds token) w
  let price ← checkedMul round.answer.toNat ADDITIONAL_FEED_PRECISION
  let value ← checkedMul price amount
  return value / PRECISION

/-- The amount of a token that is worth so many dollars, rounded down. -/
def getTokenAmountFromUSD (token : Address) (usdAmountInWei : ℕ) (w : World) : Exec Error ℕ := do
  let round ← OracleLib.staleCheckLatestRoundData (w.s_priceFeeds token) w
  let amount ← checkedMul usdAmountInWei PRECISION
  let price ← checkedMul round.answer.toNat ADDITIONAL_FEED_PRECISION
  checkedDiv amount price

/-- The loop of `getAccountCollateralValue`, from the running total. -/
def sumCollateralValue (user : Address) (w : World) : List Address → ℕ → Exec Error ℕ
  | [], totalCollateralValue => return totalCollateralValue
  | token :: rest, totalCollateralValue => do
    let amount := w.s_collateralDeposited user token
    let value ← getUSDValue token amount w
    let totalCollateralValue ← checkedAdd totalCollateralValue value
    sumCollateralValue user w rest totalCollateralValue

/-- What all collateral of an account is worth in dollars. -/
def getAccountCollateralValue (user : Address) (w : World) : Exec Error ℕ :=
  sumCollateralValue user w w.s_collateralTokens 0

/-- The debt of an account, and what its collateral is worth. -/
def _getAccountInformation (user : Address) (w : World) : Exec Error (ℕ × ℕ) := do
  let totalDSCMinted := w.s_DSCMinted user
  let collateralValueInUSD ← getAccountCollateralValue user w
  return (totalDSCMinted, collateralValueInUSD)

/-- Without a debt the factor is as large as it can be, and nothing is multiplied. -/
def _calculateHealthFactor (totalDSCMinted collateralValueInUSD : ℕ) : Exec Error ℕ :=
  if totalDSCMinted = 0 then return uint256Max
  else do
    let scaled ← checkedMul collateralValueInUSD LIQUIDATION_THRESHOLD
    let collateralAdjustedForThreshold := scaled / LIQUIDATION_PRECISION
    let adjusted ← checkedMul collateralAdjustedForThreshold PRECISION
    checkedDiv adjusted totalDSCMinted

/-- The health factor of an account, from the current prices. -/
def _healthFactor (user : Address) (w : World) : Exec Error ℕ := do
  let (totalDSCMinted, collateralValueInUSD) ← _getAccountInformation user w
  _calculateHealthFactor totalDSCMinted collateralValueInUSD

/-- The public view. -/
def getAccountInformation (user : Address) (w : World) : Exec Error (ℕ × ℕ) :=
  _getAccountInformation user w

/-- The public view. -/
def getHealthFactor (user : Address) (w : World) : Exec Error ℕ :=
  _healthFactor user w

/-- A factor of exactly `MIN_HEALTH_FACTOR` is good. -/
def _revertIfHealthFactorIsBroken (user : Address) (w : World) : Exec Error Unit := do
  let userHealthFactor ← _healthFactor user w
  revertIf (userHealthFactor < MIN_HEALTH_FACTOR)
    (.DSCEngine__HealthFactorIsBroken userHealthFactor)

/-! ### Internal effects -/

/-- The deposit of `src` is written down before the token is called. -/
def _redeemCollateral (src dst tokenCollateralAddress : Address) (amountCollateral : ℕ)
    (w : World) : Exec Error World := do
  let deposited ← checkedSub (w.s_collateralDeposited src tokenCollateralAddress) amountCollateral
  let w := w.setDeposited src tokenCollateralAddress deposited
  let (success, w) ← ierc20Transfer D tokenCollateralAddress D.engine dst amountCollateral w
  revertIf (success = false) .DSCEngine__TransferFailed
  return w

/-- The coins go from `dscFrom` to the engine, which burns them. -/
def _burnDSC (onBehalfOf dscFrom : Address) (amountDSCToBurn : ℕ) (w : World) :
    Exec Error World := do
  let minted ← checkedSub (w.s_DSCMinted onBehalfOf) amountDSCToBurn
  let w := w.setMinted onBehalfOf minted
  let (success, w) ← ierc20TransferFrom D D.i_DSC D.engine dscFrom D.engine amountDSCToBurn w
  revertIf (success = false) .DSCEngine__TransferFailed
  DecentralizedStableCoin.burn D D.engine amountDSCToBurn w

/-! ### Entry points -/

/-- The deposit is written down before the token is called. -/
def depositCollateral (sender tokenCollateralAddress : Address) (amountCollateral : ℕ)
    (w : World) : Exec Error World := do
  moreThanZero amountCollateral
  isAllowedToken tokenCollateralAddress w
  nonReentrant (fun w => do
    let deposited ←
      checkedAdd (w.s_collateralDeposited sender tokenCollateralAddress) amountCollateral
    let w := w.setDeposited sender tokenCollateralAddress deposited
    let (success, w) ←
      ierc20TransferFrom D tokenCollateralAddress D.engine sender D.engine amountCollateral w
    revertIf (success = false) .DSCEngine__TransferFailed
    return w) w

/-- The health factor is checked with the new debt. -/
def mintDSC (sender : Address) (amountDSCToMint : ℕ) (w : World) : Exec Error World := do
  moreThanZero amountDSCToMint
  nonReentrant (fun w => do
    let totalMinted ← checkedAdd (w.s_DSCMinted sender) amountDSCToMint
    let w := w.setMinted sender totalMinted
    _revertIfHealthFactorIsBroken sender w
    let (minted, w) ← DecentralizedStableCoin.mint D D.engine sender amountDSCToMint w
    revertIf (minted = false) .DSCEngine__MintFailed
    return w) w

/-- The two are entered one after the other, each under its own lock. -/
def depositCollateralAndMintDSC (sender tokenCollateralAddress : Address)
    (amountCollateral amountDSCToMint : ℕ) (w : World) : Exec Error World := do
  let w ← depositCollateral D sender tokenCollateralAddress amountCollateral w
  mintDSC D sender amountDSCToMint w

/-- The lock is taken before the token is checked, other than in a deposit. -/
def redeemCollateral (sender tokenCollateralAddress : Address) (amountCollateral : ℕ)
    (w : World) : Exec Error World := do
  moreThanZero amountCollateral
  nonReentrant (fun w => do
    isAllowedToken tokenCollateralAddress w
    let w ← _redeemCollateral D sender sender tokenCollateralAddress amountCollateral w
    _revertIfHealthFactorIsBroken sender w
    return w) w

/-- The health factor is checked here, too, although it cannot have become worse. -/
def burnDSC (sender : Address) (amountDSCToBurn : ℕ) (w : World) : Exec Error World := do
  moreThanZero amountDSCToBurn
  nonReentrant (fun w => do
    let w ← _burnDSC D sender sender amountDSCToBurn w
    _revertIfHealthFactorIsBroken sender w
    return w) w

/-- The coins are burned before the collateral is redeemed. The health factor is checked in both,
and a third time in the end. -/
def redeemCollateralForDSC (sender tokenCollateralAddress : Address)
    (amountCollateral amountDSCToBurn : ℕ) (w : World) : Exec Error World := do
  moreThanZero amountCollateral
  isAllowedToken tokenCollateralAddress w
  let w ← burnDSC D sender amountDSCToBurn w
  let w ← redeemCollateral D sender tokenCollateralAddress amountCollateral w
  _revertIfHealthFactorIsBroken sender w
  return w

/-- A factor of exactly `MIN_HEALTH_FACTOR` is too good at the start, but not good enough in the
end. -/
def liquidate (sender collateral user : Address) (debtToCover : ℕ) (w : World) :
    Exec Error World := do
  isAllowedToken collateral w
  moreThanZero debtToCover
  nonReentrant (fun w => do
    let startingUserHealthFactor ← _healthFactor user w
    revertIf (startingUserHealthFactor ≥ MIN_HEALTH_FACTOR)
      (.DSCEngine__HealthFactorIsGood startingUserHealthFactor)
    let tokenAmountFromDebtCovered ← getTokenAmountFromUSD collateral debtToCover w
    let bonus ← checkedMul tokenAmountFromDebtCovered LIQUIDATION_BONUS
    let bonusCollateral := bonus / LIQUIDATION_PRECISION
    let totalCollateralToRedeem ← checkedAdd tokenAmountFromDebtCovered bonusCollateral
    let w ← _redeemCollateral D user sender collateral totalCollateralToRedeem w
    let w ← _burnDSC D user sender debtToCover w
    let endingUserHealthFactor ← _healthFactor user w
    revertIf (endingUserHealthFactor ≤ MIN_HEALTH_FACTOR)
      (.DSCEngine__HealthFactorNotImproved endingUserHealthFactor)
    _revertIfHealthFactorIsBroken user w
    return w) w

end DSCEngine

end Stablecoin

end UpdraftContracts

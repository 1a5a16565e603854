import UpdraftContracts.Stablecoin.State

/-!
# `DecentralizedStableCoin` and calls to tokens

The coin overrides `burn` and adds `mint`, both for its owner only. Everything else it inherits:
`transfer`, `approve` and `transferFrom` from the base contract, `burnFrom` from `ERC20Burnable`,
and the two functions of `Ownable` that hand the ownership over or drop it.

Calls through `IERC20` go to whatever contract is at the address, the coin included.
-/

namespace UpdraftContracts

open Evm

namespace Stablecoin

variable (D : Deployment)

/-! ## Calls through `IERC20` -/

/-- `IERC20(t).transfer(dst, amount)` called by `sender`. -/
def ierc20Transfer (t sender dst : Address) (amount : ℕ) (w : World) :
    Exec Error (Bool × World) := do
  let (success, L) ← ofCallee ((D.erc20 t).transfer (w.ledgers t) sender dst amount)
  return (success, w.setLedger t L)

/-- `IERC20(t).approve(spender, amount)` called by `sender`. -/
def ierc20Approve (t sender spender : Address) (amount : ℕ) (w : World) :
    Exec Error (Bool × World) := do
  let (success, L) ← ofCallee ((D.erc20 t).approve (w.ledgers t) sender spender amount)
  return (success, w.setLedger t L)

/-- `IERC20(t).transferFrom(src, dst, amount)` called by `sender`. -/
def ierc20TransferFrom (t sender src dst : Address) (amount : ℕ) (w : World) :
    Exec Error (Bool × World) := do
  let (success, L) ← ofCallee ((D.erc20 t).transferFrom (w.ledgers t) sender src dst amount)
  return (success, w.setLedger t L)

namespace DecentralizedStableCoin

/-- The modifier of `Ownable`. -/
def onlyOwner (sender : Address) (w : World) : Exec Error Unit :=
  revertIf (sender ≠ w.owner) (.OwnableUnauthorizedAccount sender)

/-- `burn(amount)`. The first check compares a `uint256` with zero and never fires. -/
def burn (sender : Address) (amount : ℕ) (w : World) : Exec Error World := do
  onlyOwner sender w
  let balance := (w.ledgers D.i_DSC).balance sender
  revertIf (amount < 0) .DecentralizedStableCoin__MustBeMoreThanZero
  revertIf (balance < amount) .DecentralizedStableCoin__BurnAmountExceedsBalance
  -- `super.burn` is `_burn(_msgSender(), amount)`
  let L ← ofCallee (D.dsc._burn (w.ledgers D.i_DSC) sender amount)
  return w.setLedger D.i_DSC L

/-- `mint(dst, amount)`. -/
def mint (sender dst : Address) (amount : ℕ) (w : World) : Exec Error (Bool × World) := do
  onlyOwner sender w
  revertIf (dst = 0) .DecentralizedStableCoin__NotZeroAddress
  revertIf (amount < 0) .DecentralizedStableCoin__MustBeMoreThanZero
  let L ← ofCallee (D.dsc._mint (w.ledgers D.i_DSC) dst amount)
  return (true, w.setLedger D.i_DSC L)

/-- `burnFrom(account, value)`, inherited from `ERC20Burnable` and not overridden. -/
def burnFrom (sender account : Address) (value : ℕ) (w : World) : Exec Error World := do
  let L ← ofCallee (D.dsc._spendAllowance (w.ledgers D.i_DSC) account sender value)
  let L ← ofCallee (D.dsc._burn L account value)
  return w.setLedger D.i_DSC L

/-- `transferOwnership(newOwner)`, inherited from `Ownable`. -/
def transferOwnership (sender newOwner : Address) (w : World) : Exec Error World := do
  onlyOwner sender w
  revertIf (newOwner = 0) (.OwnableInvalidOwner 0)
  return { w with owner := newOwner }

/-- `renounceOwnership()`, inherited from `Ownable`. -/
def renounceOwnership (sender : Address) (w : World) : Exec Error World := do
  onlyOwner sender w
  return { w with owner := 0 }

end DecentralizedStableCoin

end Stablecoin

end UpdraftContracts

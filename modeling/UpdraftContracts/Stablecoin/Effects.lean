import UpdraftContracts.Stablecoin.Valuation

/-!
# What a successful call did

One lemma per function of the engine. Each says exactly when the function returns and which state
it returns, in terms of the state before; callers never unfold a function again.

The reentrancy lock is taken and released inside each entry point, so it appears here only as the
condition that it was free.

## Main results

* `depositCollateral_eq_ok`, `mintDSC_eq_ok`, `redeemCollateral_eq_ok`, `burnDSC_eq_ok`,
  `liquidate_eq_ok` — the entry points
-/

namespace UpdraftContracts

open Evm

namespace Stablecoin

/-! ## Writes -/

namespace World

variable {w : World} {t u : Address} {L L' : Ledger Address} {n : ℕ} {b : Bool}

@[simp] theorem setLedger_setLedger : (w.setLedger t L).setLedger t L' = w.setLedger t L' := by
  simp [setLedger, Function.update_idem]

/-- Taking and releasing a free lock leaves it free. -/
theorem release (h : w.entered = false) : (w.setEntered true).setEntered false = w := by
  rw [setEntered, setEntered, ← h]

@[simp] theorem setLedger_setEntered :
    (w.setEntered b).setLedger t L = (w.setLedger t L).setEntered b := rfl

@[simp] theorem setMinted_setEntered :
    (w.setEntered b).setMinted u n = (w.setMinted u n).setEntered b := rfl

@[simp] theorem setDeposited_setEntered :
    (w.setEntered b).setDeposited u t n = (w.setDeposited u t n).setEntered b := rfl

@[simp] theorem collateralValue_setLedger :
    (w.setLedger t L).collateralValue = w.collateralValue := rfl

@[simp] theorem collateralValue_setEntered :
    (w.setEntered b).collateralValue = w.collateralValue := rfl

@[simp] theorem collateralValue_setMinted :
    (w.setMinted u n).collateralValue = w.collateralValue := rfl

@[simp] theorem healthFactor_setLedger : (w.setLedger t L).healthFactor = w.healthFactor := rfl

@[simp] theorem healthFactor_setEntered : (w.setEntered b).healthFactor = w.healthFactor := rfl

end World

namespace DSCEngine

variable {D : Deployment} {w w' : World} {u t sender src dst : Address} {a b : ℕ}

/-- The position of `u` can be valued and is worth at least twice its debt. -/
def Solvent (w : World) (u : Address) : Prop :=
  Valuable w u ∧ 2 * w.s_DSCMinted u ≤ w.collateralValue u

@[simp] theorem valuable_setLedger {L : Ledger Address} :
    Valuable (w.setLedger t L) u ↔ Valuable w u := Iff.rfl

@[simp] theorem valuable_setEntered {x : Bool} : Valuable (w.setEntered x) u ↔ Valuable w u :=
  Iff.rfl

@[simp] theorem solvent_setLedger {L : Ledger Address} :
    Solvent (w.setLedger t L) u ↔ Solvent w u := Iff.rfl

@[simp] theorem solvent_setEntered {x : Bool} : Solvent (w.setEntered x) u ↔ Solvent w u := Iff.rfl

/-! ## Modifiers -/

@[simp] theorem moreThanZero_eq_ok {x : Unit} : moreThanZero a = .ok x ↔ 0 < a := by
  rw [moreThanZero, revertIf_eq_ok]
  omega

@[simp] theorem isAllowedToken_eq_ok {x : Unit} :
    isAllowedToken t w = .ok x ↔ w.s_priceFeeds t ≠ 0 := by
  rw [isAllowedToken, revertIf_eq_ok]

/-- A function under the lock is entered from outside only. -/
theorem nonReentrant_eq_ok {body : World → Exec Error World} :
    nonReentrant body w = .ok w' ↔
      w.entered = false ∧ ∃ w₁, body (w.setEntered true) = .ok w₁ ∧ w' = w₁.setEntered false := by
  simp only [nonReentrant, bind_eq_ok, revertIf_eq_ok, pure_eq_ok, exists_and_left, exists_const,
    Bool.not_eq_true]

/-! ## Calls to tokens -/

/-- A token replies, and its ledger changes. -/
theorem tokenReply_eq_ok {x : Bool} {reply : Option (Bool × Ledger Address)} :
    (do
      let (success, L) ← ofCallee reply
      return (success, w.setLedger t L) : Exec Error (Bool × World)) = .ok (x, w') ↔
      ∃ L, reply = some (x, L) ∧ w' = w.setLedger t L := by
  simp only [bind_eq_ok, ofCallee_eq_ok, pure_eq_ok, Prod.exists, Prod.mk.injEq]
  constructor
  · rintro ⟨y, L, h, rfl, rfl⟩
    exact ⟨L, h, rfl⟩
  · rintro ⟨L, h, rfl⟩
    exact ⟨x, L, h, rfl, rfl⟩

theorem ierc20Transfer_eq_ok {x : Bool} :
    ierc20Transfer D t sender dst a w = .ok (x, w') ↔
      ∃ L, (D.erc20 t).transfer (w.ledgers t) sender dst a = some (x, L) ∧
        w' = w.setLedger t L :=
  tokenReply_eq_ok

theorem ierc20Approve_eq_ok {x : Bool} :
    ierc20Approve D t sender dst a w = .ok (x, w') ↔
      ∃ L, (D.erc20 t).approve (w.ledgers t) sender dst a = some (x, L) ∧
        w' = w.setLedger t L :=
  tokenReply_eq_ok

theorem ierc20TransferFrom_eq_ok {x : Bool} :
    ierc20TransferFrom D t sender src dst a w = .ok (x, w') ↔
      ∃ L, (D.erc20 t).transferFrom (w.ledgers t) sender src dst a = some (x, L) ∧
        w' = w.setLedger t L :=
  tokenReply_eq_ok

theorem onlyOwner_eq_ok {x : Unit} :
    DecentralizedStableCoin.onlyOwner sender w = .ok x ↔ sender = w.owner := by
  rw [DecentralizedStableCoin.onlyOwner, revertIf_eq_ok, not_not]

theorem mint_eq_ok {x : Bool} :
    DecentralizedStableCoin.mint D sender dst a w = .ok (x, w') ↔
      x = true ∧ sender = w.owner ∧ dst ≠ 0 ∧ (w.ledgers D.i_DSC).totalSupply + a < uint256Size ∧
        w' = w.setLedger D.i_DSC ((w.ledgers D.i_DSC).mint dst a) := by
  simp only [DecentralizedStableCoin.mint, onlyOwner_eq_ok, bind_eq_ok, revertIf_eq_ok,
    ofCallee_eq_ok, pure_eq_ok, D.dsc.mint_eq_some, Prod.mk.injEq, Nat.not_lt_zero]
  constructor
  · rintro ⟨-, ho, -, -, -, -, L, ⟨hd, hs, rfl⟩, rfl, rfl⟩
    exact ⟨rfl, ho, hd, hs, rfl⟩
  · rintro ⟨rfl, ho, hd, hs, rfl⟩
    exact ⟨(), ho, (), hd, (), not_false, _, ⟨hd, hs, rfl⟩, rfl, rfl⟩

theorem burn_eq_ok :
    DecentralizedStableCoin.burn D sender a w = .ok w' ↔
      sender = w.owner ∧ sender ≠ 0 ∧ a ≤ (w.ledgers D.i_DSC).balance sender ∧
        w' = w.setLedger D.i_DSC ((w.ledgers D.i_DSC).burn sender a) := by
  simp only [DecentralizedStableCoin.burn, onlyOwner_eq_ok, bind_eq_ok, revertIf_eq_ok,
    ofCallee_eq_ok, pure_eq_ok, D.dsc.burn_eq_some, Nat.not_lt_zero]
  constructor
  · rintro ⟨-, ho, -, -, -, -, L, ⟨hs, ha, rfl⟩, rfl⟩
    exact ⟨ho, hs, ha, rfl⟩
  · rintro ⟨ho, hs, ha, rfl⟩
    exact ⟨(), ho, (), not_false, (), not_lt.mpr ha, _, ⟨hs, ha, rfl⟩, rfl⟩

theorem burnFrom_cases {account : Address}
    (h : DecentralizedStableCoin.burnFrom D sender account a w = .ok w') :
    account ≠ 0 ∧ a ≤ (w.ledgers D.i_DSC).allowance account sender ∧
      a ≤ (w.ledgers D.i_DSC).balance account ∧
      w' = w.setLedger D.i_DSC (((w.ledgers D.i_DSC).spend account sender a).burn account a) := by
  simp only [DecentralizedStableCoin.burnFrom, bind_eq_ok, ofCallee_eq_ok, pure_eq_ok,
    D.dsc.burn_eq_some] at h
  obtain ⟨L₁, hL₁, L, ⟨hne, hbal, rfl⟩, rfl⟩ := h
  obtain ⟨hallow, rfl⟩ := D.dsc.spendAllowance_some hL₁
  rw [Ledger.balance_spend] at hbal
  exact ⟨hne, hallow, hbal, rfl⟩

/-! ## Internal effects -/

/-- What the internal redemption needs, and all that it does. -/
theorem redeemCollateral_internal_eq_ok :
    _redeemCollateral D src dst t a w = .ok w' ↔
      a ≤ w.s_collateralDeposited src t ∧
      ∃ L, (D.erc20 t).transfer (w.ledgers t) D.engine dst a = some (true, L) ∧
        w' = (w.setDeposited src t (w.s_collateralDeposited src t - a)).setLedger t L := by
  simp only [_redeemCollateral, bind_eq_ok, checkedSub_eq_ok, Prod.exists, ierc20Transfer_eq_ok,
    revertIf_eq_ok, pure_eq_ok, Bool.not_eq_false, World.ledgers_setDeposited]
  constructor
  · rintro ⟨-, ⟨ha, rfl⟩, x, w₁, ⟨L, hL, rfl⟩, -, rfl, rfl⟩
    exact ⟨ha, L, hL, rfl⟩
  · rintro ⟨ha, L, hL, rfl⟩
    exact ⟨_, ⟨ha, rfl⟩, true, _, ⟨L, hL, rfl⟩, (), rfl, rfl⟩

/-- `_burnDSC` pulls the coins into the engine and burns them there; together that burns them at
their holder. -/
theorem burnDSC_internal_eq_ok :
    _burnDSC D u src b w = .ok w' ↔
      b ≤ w.s_DSCMinted u ∧ w.owner = D.engine ∧ src ≠ 0 ∧
      b ≤ (w.ledgers D.i_DSC).allowance src D.engine ∧ b ≤ (w.ledgers D.i_DSC).balance src ∧
      w' = (w.setMinted u (w.s_DSCMinted u - b)).setLedger D.i_DSC
        (((w.ledgers D.i_DSC).spend src D.engine b).burn src b) := by
  have hstd := D.dsc.standard
  have hne := D.engine_ne_zero
  simp only [_burnDSC, bind_eq_ok, checkedSub_eq_ok, Prod.exists, ierc20TransferFrom_eq_ok,
    revertIf_eq_ok, Bool.not_eq_false, World.ledgers_setMinted, Deployment.erc20_dsc, burn_eq_ok]
  constructor
  · rintro ⟨-, ⟨hb, rfl⟩, x, w₁, ⟨L, hL, rfl⟩, -, rfl, ho, -, -, rfl⟩
    obtain ⟨hallow, hbal, rfl⟩ := hstd.transferFrom_eq hne hL
    refine ⟨hb, ho.symm, (hstd.transferFrom_allowed hL).1, hallow, hbal, ?_⟩
    rw [World.ledgers_setLedger_self, World.setLedger_setLedger,
      Ledger.burn_move (by rwa [Ledger.balance_spend])]
  · rintro ⟨hb, ho, hsrc, hallow, hbal, rfl⟩
    refine ⟨_, ⟨hb, rfl⟩, true, _, ⟨_, hstd.transferFrom_ok hne hsrc hne hallow hbal, rfl⟩, (), rfl,
      ho.symm, hne, ?_, ?_⟩
    · rw [World.ledgers_setLedger_self, Ledger.balance_move (by rwa [Ledger.balance_spend]),
        if_pos (rfl : D.engine = D.engine)]
      exact Nat.le_add_left _ _
    · rw [World.ledgers_setLedger_self, World.setLedger_setLedger,
        Ledger.burn_move (by rwa [Ledger.balance_spend])]

theorem redeemCollateral_internal_setEntered {x : Bool} :
    _redeemCollateral D src dst t a (w.setEntered x) = .ok w' ↔
      ∃ w₁, _redeemCollateral D src dst t a w = .ok w₁ ∧ w' = w₁.setEntered x := by
  simp only [redeemCollateral_internal_eq_ok, World.deposited_setEntered, World.ledgers_setEntered,
    World.setDeposited_setEntered, World.setLedger_setEntered]
  constructor
  · rintro ⟨ha, L, hL, rfl⟩
    exact ⟨_, ⟨ha, L, hL, rfl⟩, rfl⟩
  · rintro ⟨-, ⟨ha, L, hL, rfl⟩, rfl⟩
    exact ⟨ha, L, hL, rfl⟩

theorem burnDSC_internal_setEntered {x : Bool} :
    _burnDSC D u src b (w.setEntered x) = .ok w' ↔
      ∃ w₁, _burnDSC D u src b w = .ok w₁ ∧ w' = w₁.setEntered x := by
  simp only [burnDSC_internal_eq_ok, World.minted_setEntered, World.ledgers_setEntered,
    World.owner_setEntered, World.setMinted_setEntered, World.setLedger_setEntered]
  constructor
  · rintro ⟨hb, ho, hsrc, hallow, hbal, rfl⟩
    exact ⟨_, ⟨hb, ho, hsrc, hallow, hbal, rfl⟩, rfl⟩
  · rintro ⟨-, ⟨hb, ho, hsrc, hallow, hbal, rfl⟩, rfl⟩
    exact ⟨hb, ho, hsrc, hallow, hbal, rfl⟩

/-! ## Entry points -/

/-- What a deposit needs, and all that it does. -/
theorem depositCollateral_eq_ok :
    depositCollateral D sender t a w = .ok w' ↔
      0 < a ∧ w.s_priceFeeds t ≠ 0 ∧ w.entered = false ∧
      w.s_collateralDeposited sender t + a < uint256Size ∧
      ∃ L, (D.erc20 t).transferFrom (w.ledgers t) D.engine sender D.engine a = some (true, L) ∧
        w' = (w.setDeposited sender t (w.s_collateralDeposited sender t + a)).setLedger t L := by
  simp only [depositCollateral, bind_eq_ok, moreThanZero_eq_ok, isAllowedToken_eq_ok,
    nonReentrant_eq_ok, checkedAdd_eq_ok, Prod.exists, ierc20TransferFrom_eq_ok, revertIf_eq_ok,
    pure_eq_ok, Bool.not_eq_false, World.deposited_setEntered, World.setDeposited_setEntered,
    World.ledgers_setEntered, World.ledgers_setDeposited, World.setLedger_setEntered]
  constructor
  · rintro ⟨-, ha, -, ht, he, -, ⟨-, ⟨hfit, rfl⟩, x, -, ⟨L, hL, rfl⟩, -, rfl, rfl⟩, rfl⟩
    exact ⟨ha, ht, he, hfit, L, hL, World.release he⟩
  · rintro ⟨ha, ht, he, hfit, L, hL, rfl⟩
    refine ⟨(), ha, (), ht, he, _, ⟨_, ⟨hfit, rfl⟩, true, _, ⟨L, hL, rfl⟩, (), rfl, rfl⟩, ?_⟩
    symm
    exact World.release he

/-- What minting needs, and all that it does. -/
theorem mintDSC_eq_ok :
    mintDSC D sender a w = .ok w' ↔
      0 < a ∧ w.entered = false ∧ w.s_DSCMinted sender + a < uint256Size ∧
      Solvent (w.setMinted sender (w.s_DSCMinted sender + a)) sender ∧
      w.owner = D.engine ∧ sender ≠ 0 ∧ (w.ledgers D.i_DSC).totalSupply + a < uint256Size ∧
      w' = (w.setMinted sender (w.s_DSCMinted sender + a)).setLedger D.i_DSC
        ((w.ledgers D.i_DSC).mint sender a) := by
  simp only [mintDSC, bind_eq_ok, moreThanZero_eq_ok, nonReentrant_eq_ok, checkedAdd_eq_ok,
    Prod.exists, revertIfHealthFactorIsBroken_eq_ok, mint_eq_ok, revertIf_eq_ok, pure_eq_ok,
    Bool.not_eq_false, World.minted_setEntered, World.setMinted_setEntered, World.owner_setEntered,
    World.owner_setMinted, World.ledgers_setEntered, World.ledgers_setMinted,
    World.setLedger_setEntered]
  constructor
  · rintro ⟨-, ha, he, -, ⟨-, ⟨hfit, rfl⟩, -, hsol, x, -, ⟨-, ho, hne, hs, rfl⟩, -, -, rfl⟩, rfl⟩
    exact ⟨ha, he, hfit, hsol, ho.symm, hne, hs, World.release he⟩
  · rintro ⟨ha, he, hfit, hsol, ho, hne, hs, rfl⟩
    refine ⟨(), ha, he, _, ⟨_, ⟨hfit, rfl⟩, (), hsol, true, _, ⟨rfl, ho.symm, hne, hs, rfl⟩, (),
      rfl, rfl⟩, ?_⟩
    symm
    exact World.release he

/-- What a redemption needs, and all that it does. -/
theorem redeemCollateral_eq_ok :
    redeemCollateral D sender t a w = .ok w' ↔
      0 < a ∧ w.entered = false ∧ w.s_priceFeeds t ≠ 0 ∧ a ≤ w.s_collateralDeposited sender t ∧
      Solvent (w.setDeposited sender t (w.s_collateralDeposited sender t - a)) sender ∧
      ∃ L, (D.erc20 t).transfer (w.ledgers t) D.engine sender a = some (true, L) ∧
        w' = (w.setDeposited sender t (w.s_collateralDeposited sender t - a)).setLedger t L := by
  simp only [redeemCollateral, bind_eq_ok, moreThanZero_eq_ok, isAllowedToken_eq_ok,
    nonReentrant_eq_ok, redeemCollateral_internal_eq_ok, revertIfHealthFactorIsBroken_eq_ok,
    pure_eq_ok, World.priceFeeds_setEntered, World.deposited_setEntered,
    World.setDeposited_setEntered, World.ledgers_setEntered, World.setLedger_setEntered]
  constructor
  · rintro ⟨-, ha, he, -, ⟨-, ht, -, ⟨hle, L, hL, rfl⟩, -, hsol, rfl⟩, rfl⟩
    exact ⟨ha, he, ht, hle, hsol, L, hL, World.release he⟩
  · rintro ⟨ha, he, ht, hle, hsol, L, hL, rfl⟩
    refine ⟨(), ha, he, _, ⟨(), ht, _, ⟨hle, L, hL, rfl⟩, (), hsol, rfl⟩, ?_⟩
    symm
    exact World.release he

/-- What burning needs, and all that it does. -/
theorem burnDSC_eq_ok :
    burnDSC D sender b w = .ok w' ↔
      0 < b ∧ w.entered = false ∧ b ≤ w.s_DSCMinted sender ∧ w.owner = D.engine ∧ sender ≠ 0 ∧
      b ≤ (w.ledgers D.i_DSC).allowance sender D.engine ∧
      b ≤ (w.ledgers D.i_DSC).balance sender ∧
      Solvent (w.setMinted sender (w.s_DSCMinted sender - b)) sender ∧
      w' = (w.setMinted sender (w.s_DSCMinted sender - b)).setLedger D.i_DSC
        (((w.ledgers D.i_DSC).spend sender D.engine b).burn sender b) := by
  simp only [burnDSC, bind_eq_ok, moreThanZero_eq_ok, nonReentrant_eq_ok, burnDSC_internal_eq_ok,
    revertIfHealthFactorIsBroken_eq_ok, pure_eq_ok, World.minted_setEntered, World.owner_setEntered,
    World.setMinted_setEntered, World.ledgers_setEntered, World.setLedger_setEntered]
  constructor
  · rintro ⟨-, hb, he, -, ⟨-, ⟨hle, ho, hne, hallow, hbal, rfl⟩, -, hsol, rfl⟩, rfl⟩
    exact ⟨hb, he, hle, ho, hne, hallow, hbal, hsol, World.release he⟩
  · rintro ⟨hb, he, hle, ho, hne, hallow, hbal, hsol, rfl⟩
    refine ⟨(), hb, he, _, ⟨_, ⟨hle, ho, hne, hallow, hbal, rfl⟩, (), hsol, rfl⟩, ?_⟩
    symm
    exact World.release he

/-- The same, with the internal function kept whole. -/
theorem redeemCollateral_iff_internal :
    redeemCollateral D sender t a w = .ok w' ↔
      0 < a ∧ w.entered = false ∧ w.s_priceFeeds t ≠ 0 ∧
      _redeemCollateral D sender sender t a w = .ok w' ∧ Solvent w' sender := by
  rw [redeemCollateral_eq_ok, redeemCollateral_internal_eq_ok]
  constructor
  · rintro ⟨ha, he, ht, hle, hsol, L, hL, rfl⟩
    exact ⟨ha, he, ht, ⟨hle, L, hL, rfl⟩, hsol⟩
  · rintro ⟨ha, he, ht, ⟨hle, L, hL, rfl⟩, hsol⟩
    exact ⟨ha, he, ht, hle, hsol, L, hL, rfl⟩

theorem burnDSC_iff_internal :
    burnDSC D sender b w = .ok w' ↔
      0 < b ∧ w.entered = false ∧ _burnDSC D sender sender b w = .ok w' ∧ Solvent w' sender := by
  rw [burnDSC_eq_ok, burnDSC_internal_eq_ok]
  constructor
  · rintro ⟨hb, he, hle, ho, hne, hallow, hbal, hsol, rfl⟩
    exact ⟨hb, he, ⟨hle, ho, hne, hallow, hbal, rfl⟩, hsol⟩
  · rintro ⟨hb, he, ⟨hle, ho, hne, hallow, hbal, rfl⟩, hsol⟩
    exact ⟨hb, he, hle, ho, hne, hallow, hbal, hsol, rfl⟩

theorem depositCollateralAndMintDSC_eq_ok {m : ℕ} :
    depositCollateralAndMintDSC D sender t a m w = .ok w' ↔
      ∃ w₁, depositCollateral D sender t a w = .ok w₁ ∧ mintDSC D sender m w₁ = .ok w' :=
  bind_eq_ok

/-- The third health check repeats the one `redeemCollateral` made. -/
theorem redeemCollateralForDSC_eq_ok :
    redeemCollateralForDSC D sender t a b w = .ok w' ↔
      0 < a ∧ w.s_priceFeeds t ≠ 0 ∧
      ∃ w₁, burnDSC D sender b w = .ok w₁ ∧ redeemCollateral D sender t a w₁ = .ok w' := by
  simp only [redeemCollateralForDSC, bind_eq_ok, moreThanZero_eq_ok, isAllowedToken_eq_ok,
    revertIfHealthFactorIsBroken_eq_ok, pure_eq_ok]
  constructor
  · rintro ⟨-, ha, -, ht, w₁, hburn, w₂, hredeem, -, -, rfl⟩
    exact ⟨ha, ht, w₁, hburn, hredeem⟩
  · rintro ⟨ha, ht, w₁, hburn, hredeem⟩
    obtain ⟨-, -, -, -, hsol, L, -, rfl⟩ := redeemCollateral_eq_ok.mp hredeem
    exact ⟨(), ha, (), ht, w₁, hburn, _, hredeem, (), hsol, rfl⟩

/-- What the liquidator takes for debt worth `tokens` of the collateral, bonus included. -/
def seized (tokens : ℕ) : ℕ := tokens + tokens * LIQUIDATION_BONUS / LIQUIDATION_PRECISION

/-- The last health check is implied by the strict one before it. -/
theorem liquidate_eq_ok {d : ℕ} :
    liquidate D sender t u d w = .ok w' ↔
      w.s_priceFeeds t ≠ 0 ∧ 0 < d ∧ w.entered = false ∧
      Valuable w u ∧ w.collateralValue u < 2 * w.s_DSCMinted u ∧
      ∃ tokens, getTokenAmountFromUSD t d w = .ok tokens ∧
        tokens * LIQUIDATION_BONUS < uint256Size ∧ seized tokens < uint256Size ∧
        ∃ w₁, _redeemCollateral D u sender t (seized tokens) w = .ok w₁ ∧
          _burnDSC D u sender d w₁ = .ok w' ∧
          Valuable w' u ∧ MIN_HEALTH_FACTOR < w'.healthFactor u := by
  have hview : getTokenAmountFromUSD t d (w.setEntered true) = getTokenAmountFromUSD t d w := rfl
  simp only [liquidate, bind_eq_ok, moreThanZero_eq_ok, isAllowedToken_eq_ok, nonReentrant_eq_ok,
    healthFactor_eq_ok, revertIf_eq_ok, hview, checkedMul_eq_ok, checkedAdd_eq_ok,
    redeemCollateral_internal_setEntered, revertIfHealthFactorIsBroken_eq_ok, pure_eq_ok,
    valuable_setEntered, World.healthFactor_setEntered, not_le, seized]
  constructor
  · rintro ⟨-, ht, -, hd, he, w₂, ⟨-, ⟨hval, rfl⟩, -, hlow, tokens, htok, -, ⟨hmul, rfl⟩, -,
      ⟨hadd, rfl⟩, -, ⟨w₁, hredeem, rfl⟩, _, hburn, -, ⟨hval', rfl⟩, -, hgood, -, -, rfl⟩, rfl⟩
    obtain ⟨w₃, hburn', rfl⟩ := burnDSC_internal_setEntered.mp hburn
    have hw₃ : w₃.entered = false := by
      obtain ⟨-, L, -, rfl⟩ := redeemCollateral_internal_eq_ok.mp hredeem
      obtain ⟨-, -, -, -, -, rfl⟩ := burnDSC_internal_eq_ok.mp hburn'
      exact he
    refine ⟨ht, hd, he, hval, ?_, tokens, htok, hmul, hadd, w₁, hredeem, ?_, hval', hgood⟩
    · exact not_le.mp (mt minHealthFactor_le_iff.mpr (not_le.mpr hlow))
    · rw [World.release hw₃]
      exact hburn'
  · rintro ⟨ht, hd, he, hval, hlow, tokens, htok, hmul, hadd, w₁, hredeem, hburn, hval', hgood⟩
    have hw' : w'.entered = false := by
      obtain ⟨-, L, -, rfl⟩ := redeemCollateral_internal_eq_ok.mp hredeem
      obtain ⟨-, -, -, -, -, rfl⟩ := burnDSC_internal_eq_ok.mp hburn
      exact he
    refine ⟨(), ht, (), hd, he, _, ⟨_, ⟨hval, rfl⟩, (), ?_, tokens, htok, _, ⟨hmul, rfl⟩, _,
      ⟨hadd, rfl⟩, _, ⟨w₁, hredeem, rfl⟩, w'.setEntered true,
      burnDSC_internal_setEntered.mpr ⟨w', hburn, rfl⟩, _, ⟨hval', rfl⟩, (), hgood, (), ⟨hval', ?_⟩,
      rfl⟩, (World.release hw').symm⟩
    · exact not_le.mp (mt minHealthFactor_le_iff.mp (not_le.mpr hlow))
    · exact minHealthFactor_le_iff.mp hgood.le

end DSCEngine

end Stablecoin

end UpdraftContracts

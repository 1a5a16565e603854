import UpdraftContracts.Stablecoin.Exit

/-!
# Repaying and redeeming

Both `burnDSC` and `redeemCollateral` end with a health check of the caller. After a repayment the
check can fail: it does not compare the position with what it was before, so an unhealthy user who
repays too little is refused. Before a redemption the check is redundant: collateral that is taken
out afterwards only lowers the health factor, so a position that passes the last check has passed
the earlier ones.

## Main results

* `burnDSC_repays_iff` — which repayments go through
* `redeemCollateralForDSC_iff_fused` — the last of the three checks decides
-/

namespace UpdraftContracts

open Evm

namespace Stablecoin

open DSCEngine

variable {D : Deployment} {w w' w₁ : World} {u t sender : Address} {a b : ℕ}

/-! ## Repaying part of the debt -/

/-- The check at the end of `burnDSC` compares what is still owed with the value of the
collateral. -/
theorem solvent_repaid_iff (hval : Valuable w u) :
    Solvent (w.setMinted u (w.s_DSCMinted u - b)) u ↔
      2 * (w.s_DSCMinted u - b) ≤ w.collateralValue u := by
  have hdebt : (w.setMinted u (w.s_DSCMinted u - b)).s_DSCMinted u = w.s_DSCMinted u - b := by
    rw [World.minted_setMinted, if_pos rfl]
  constructor
  · intro hsol
    rw [← hdebt]
    exact hsol.2
  · intro hle
    refine ⟨valuable_setMinted hval (Nat.sub_le _ _), ?_⟩
    rw [hdebt]
    exact hle

/-- **Repayment.** In a reachable state let the position of `u` be one that can be valued, and let
`u` hold and have approved `b` coins, no more than they owe. Then `burnDSC` lowers the debt and the
supply by `b` exactly when twice the rest of the debt is covered by the collateral. -/
theorem burnDSC_repays_iff (hreach : Reachable D w) {healthFactor : ℕ}
    (hhealth : _healthFactor u w = .ok healthFactor) (hu₀ : u ≠ 0) (hb : 0 < b)
    (hdebt : b ≤ w.s_DSCMinted u) (hallow : b ≤ (w.ledgers D.i_DSC).allowance u D.engine)
    (hbal : b ≤ (w.ledgers D.i_DSC).balance u) :
    (∃ w', burnDSC D u b w = .ok w' ∧ w'.s_DSCMinted u = w.s_DSCMinted u - b ∧
      (w'.ledgers D.i_DSC).totalSupply = (w.ledgers D.i_DSC).totalSupply - b) ↔
      2 * (w.s_DSCMinted u - b) ≤ w.collateralValue u := by
  have hinv := hreach.invariant
  obtain ⟨hval, -⟩ := healthFactor_eq_ok.mp hhealth
  rw [← solvent_repaid_iff hval]
  constructor
  · rintro ⟨w', hburn, -, -⟩
    obtain ⟨-, -, -, -, -, -, -, hsol, -⟩ := burnDSC_eq_ok.mp hburn
    exact hsol
  · intro hsol
    refine ⟨_, burnDSC_eq_ok.mpr ⟨hb, hinv.unlocked, hdebt, hinv.owner, hu₀, hallow, hbal, hsol,
      rfl⟩, ?_, ?_⟩
    · rw [World.minted_setLedger, World.minted_setMinted, if_pos rfl]
    · rw [World.ledgers_setLedger_self, Ledger.totalSupply_burn (by rwa [Ledger.balance_spend]),
        Ledger.totalSupply_spend]

/-- Account `10` borrows fifty coins against sixty units and approves the engine. Then the price
falls from two dollars to one and a half. -/
def dipRun : List Action :=
  [.call 10 (.engine (.depositCollateralAndMintDSC 3 60 50)), .call 10 (.token 2 (.approve 1 50)),
    .report 4 (sampleRound (15 * 10 ^ 7))]

/-- What that leaves. -/
def dipWorld : World := run (step sampleDeployment) sampleWorld dipRun

theorem dipWorld_reachable : Reachable sampleDeployment dipWorld := by
  refine ⟨[3], [4], sampleWorld, dipRun, sampleWorld_deployed, ?_, rfl⟩
  exact ⟨⟨by decide, by decide⟩, ⟨by decide, by decide⟩, trivial, trivial⟩

/-- The collateral is worth 90, so five coins are enough. -/
theorem burnDSC_repays_dip :
    ∃ w', burnDSC sampleDeployment 10 5 dipWorld = .ok w' ∧ w'.s_DSCMinted 10 = 45 ∧
      (w'.ledgers 2).totalSupply = 45 := by
  have hhealth : _healthFactor 10 dipWorld = .ok (9 * 10 ^ 17) := by decide
  exact (burnDSC_repays_iff dipWorld_reachable hhealth (by decide) (by decide) (by decide)
    (by decide) (by decide)).mpr (by decide)

/-- **A repayment that is refused.** Four coins are not enough, and the trailing check says so. -/
theorem burnDSC_refused_dip :
    Reachable sampleDeployment dipWorld ∧ dipWorld.GoodFeed 3 ∧
    _healthFactor 10 dipWorld = .ok (9 * 10 ^ 17) ∧ dipWorld.s_DSCMinted 10 = 50 ∧
    (dipWorld.ledgers 2).balance 10 = 50 ∧ (dipWorld.ledgers 2).allowance 10 1 = 50 ∧
    burnDSC sampleDeployment 10 4 dipWorld
      = .error (.custom (.DSCEngine__HealthFactorIsBroken 978260869565217391)) :=
  ⟨dipWorld_reachable, ⟨_, rfl, ⟨by decide, by decide⟩, by decide⟩, by decide, by decide, by decide,
    by decide, by rfl⟩

/-! ## One health check instead of three -/

/-- Burn, redeem, and check the health of the caller once at the end. -/
def burnAndRedeem (D : Deployment) (sender tokenCollateralAddress : Address)
    (amountCollateral amountDSCToBurn : ℕ) : World → Exec Error World :=
  nonReentrant fun w => do
    let w ← _burnDSC D sender sender amountDSCToBurn w
    let w ← _redeemCollateral D sender sender tokenCollateralAddress amountCollateral w
    _revertIfHealthFactorIsBroken sender w
    return w

theorem entered_burnDSC_internal (h : _burnDSC D u sender b w = .ok w') :
    w'.entered = w.entered := by
  obtain ⟨-, -, -, -, -, rfl⟩ := burnDSC_internal_eq_ok.mp h
  rfl

theorem entered_redeemCollateral_internal (h : _redeemCollateral D u sender t a w = .ok w') :
    w'.entered = w.entered := by
  obtain ⟨-, L, -, rfl⟩ := redeemCollateral_internal_eq_ok.mp h
  rfl

theorem burnAndRedeem_eq_ok :
    burnAndRedeem D sender t a b w = .ok w' ↔
      w.entered = false ∧ ∃ w₁, _burnDSC D sender sender b w = .ok w₁ ∧
        _redeemCollateral D sender sender t a w₁ = .ok w' ∧ Solvent w' sender := by
  simp only [burnAndRedeem, nonReentrant_eq_ok, bind_eq_ok, burnDSC_internal_setEntered,
    revertIfHealthFactorIsBroken_eq_ok, pure_eq_ok]
  constructor
  · rintro ⟨he, _, ⟨_, ⟨w₁, hburn, rfl⟩, _, hguarded, -, hsol, rfl⟩, rfl⟩
    obtain ⟨w₂, hredeem, rfl⟩ := redeemCollateral_internal_setEntered.mp hguarded
    have hw₂ : w₂.entered = false := by
      rw [entered_redeemCollateral_internal hredeem, entered_burnDSC_internal hburn, he]
    refine ⟨he, w₁, hburn, ?_⟩
    rw [World.release hw₂]
    exact ⟨hredeem, hsol⟩
  · rintro ⟨he, w₁, hburn, hredeem, hsol⟩
    have hw' : w'.entered = false := by
      rw [entered_redeemCollateral_internal hredeem, entered_burnDSC_internal hburn, he]
    exact ⟨he, _, ⟨_, ⟨w₁, hburn, rfl⟩, w'.setEntered true,
      redeemCollateral_internal_setEntered.mpr ⟨w', hredeem, rfl⟩, (), hsol, rfl⟩,
      (World.release hw').symm⟩

/-- A redemption lowers the value of the collateral and leaves the debt alone. -/
theorem solvent_of_redeemed (h : _redeemCollateral D sender sender t a w = .ok w')
    (hval : Valuable w sender) (hsol : Solvent w' sender) : Solvent w sender := by
  obtain ⟨-, L, -, rfl⟩ := redeemCollateral_internal_eq_ok.mp h
  refine ⟨hval, le_trans hsol.2 ?_⟩
  rw [World.collateralValue_setLedger]
  conv_rhs => rw [← setDeposited_self (w := w) (u := sender) (t := t)]
  exact collateralValue_setDeposited_mono (Nat.sub_le _ _)

/-- **Redundant checks.** Where the position of the caller can be valued, `redeemCollateralForDSC`
is the operation with a single health check, for amounts that are not zero. -/
theorem redeemCollateralForDSC_iff_fused (hval : Valuable w sender) (ht : w.s_priceFeeds t ≠ 0) :
    redeemCollateralForDSC D sender t a b w = .ok w' ↔
      0 < a ∧ 0 < b ∧ burnAndRedeem D sender t a b w = .ok w' := by
  rw [redeemCollateralForDSC_eq_ok, burnAndRedeem_eq_ok]
  constructor
  · rintro ⟨ha, -, w₁, hburn, hredeem⟩
    obtain ⟨hb, he, hburn, -⟩ := burnDSC_iff_internal.mp hburn
    obtain ⟨-, -, -, hredeem, hsol⟩ := redeemCollateral_iff_internal.mp hredeem
    exact ⟨ha, hb, he, w₁, hburn, hredeem, hsol⟩
  · rintro ⟨ha, hb, he, w₁, hburn, hredeem, hsol⟩
    have he₁ : w₁.entered = false := by rw [entered_burnDSC_internal hburn, he]
    obtain ⟨ht₁, hval₁⟩ : w₁.s_priceFeeds t ≠ 0 ∧ Valuable w₁ sender := by
      obtain ⟨-, -, -, -, -, rfl⟩ := burnDSC_internal_eq_ok.mp hburn
      exact ⟨ht, valuable_setMinted hval (Nat.sub_le _ _)⟩
    exact ⟨ha, ht, w₁,
      burnDSC_iff_internal.mpr ⟨hb, he, hburn, solvent_of_redeemed hredeem hval₁ hsol⟩,
      redeemCollateral_iff_internal.mpr ⟨ha, he₁, ht₁, hredeem, hsol⟩⟩

/-- Ten coins bring the position to 40 owed against 90, which leaves 6 units to spare. -/
theorem redeemCollateralForDSC_iff_fused_dip :
    ∃ w', redeemCollateralForDSC sampleDeployment 10 3 6 10 dipWorld = .ok w' ∧
      burnAndRedeem sampleDeployment 10 3 6 10 dipWorld = .ok w' := by
  have hhealth : _healthFactor 10 dipWorld = .ok (9 * 10 ^ 17) := by decide
  obtain ⟨hval, -⟩ := healthFactor_eq_ok.mp hhealth
  obtain ⟨w', hw'⟩ : Succeeds (burnAndRedeem sampleDeployment 10 3 6 10 dipWorld) := by decide
  exact ⟨w', (redeemCollateralForDSC_iff_fused hval (by decide)).mpr
    ⟨by decide, by decide, hw'⟩, hw'⟩

end Stablecoin

end UpdraftContracts

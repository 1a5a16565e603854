import UpdraftContracts.Stablecoin.Liquidation

/-!
# How much can be borrowed and taken out

The health check of the engine divides twice, and the value it checks is a sum of quotients. None of
this makes a difference to what a user may borrow: it is half of the value of the collateral,
rounded down. What a user may take out can be read off from `getTokenAmountFromUSD`. The remaining
deposit is valued with a rounding of its own, but that never costs more than what was taken out is
worth, rounded up.

## Main results

* `mintDSC_limit` — exactly how much can be borrowed
* `redeemCollateral_limit` — how much can be taken out, and how much cannot
-/

namespace UpdraftContracts

open Evm

namespace Stablecoin

open DSCEngine

variable {D : Deployment} {w w' : World} {u t : Address} {a m n : ℕ}

/-! ## Borrowing -/

/-- **Exact mint limit.** In a reachable state let the collateral of `u` be worth `V`, and let
neither the health factor nor the supply overflow. Then `u` can mint `m` coins if and only if `m` is
not zero and the new debt is at most half of `V`, rounded down. The test of the engine, which rounds
twice, is `2 * debt ≤ value`. -/
theorem mintDSC_limit (hreach : Reachable D w) (hu₀ : u ≠ 0) {V : ℕ}
    (hvalue : getAccountCollateralValue u w = .ok V)
    (hfits : Succeeds (_calculateHealthFactor (w.s_DSCMinted u + m) V))
    (hsupply : (w.ledgers D.i_DSC).totalSupply + m < uint256Size) :
    (Succeeds (mintDSC D u m w) ↔ 1 ≤ m ∧ w.s_DSCMinted u + m ≤ V / 2) ∧
    ∀ debt value healthFactor, _calculateHealthFactor debt value = .ok healthFactor →
      (MIN_HEALTH_FACTOR ≤ healthFactor ↔ 2 * debt ≤ value) := by
  have hw := hreach.invariant
  obtain ⟨hfeeds, hlt, rfl⟩ := getAccountCollateralValue_eq_ok.mp hvalue
  obtain ⟨healthFactor, hhealth⟩ := hfits
  have hdebt : (w.setMinted u (w.s_DSCMinted u + m)).s_DSCMinted u = w.s_DSCMinted u + m := by
    rw [World.minted_setMinted, if_pos rfl]
  refine ⟨⟨?_, ?_⟩, ?_⟩
  · rintro ⟨w', hmint⟩
    obtain ⟨hm, -, -, ⟨-, hsolvent⟩, -⟩ := mintDSC_eq_ok.mp hmint
    rw [hdebt, World.collateralValue_setMinted] at hsolvent
    exact ⟨hm, by omega⟩
  · rintro ⟨hm, hhalf⟩
    have hsolvent : Solvent (w.setMinted u (w.s_DSCMinted u + m)) u := by
      refine ⟨⟨hfeeds, hlt, ?_⟩, ?_⟩
      · rw [hdebt]
        exact (calculateHealthFactor_eq_ok.mp hhealth).1
      · rw [hdebt, World.collateralValue_setMinted]
        omega
    exact ⟨_, mintDSC_eq_ok.mpr ⟨hm, hw.unlocked, by omega, hsolvent, hw.owner, hu₀, hsupply, rfl⟩⟩
  · intro debt value healthFactor hhealth
    obtain ⟨-, rfl⟩ := calculateHealthFactor_eq_ok.mp hhealth
    exact minHealthFactor_le_iff

/-- Account `10` borrows fifty coins against sixty units, which are worth two dollars each. -/
def borrowRun : List Action := [.call 10 (.engine (.depositCollateralAndMintDSC 3 60 50))]

/-- What that leaves. -/
def borrowWorld : World := run (step sampleDeployment) sampleWorld borrowRun

theorem borrowWorld_reachable : Reachable sampleDeployment borrowWorld := by
  refine ⟨[3], [4], sampleWorld, borrowRun, sampleWorld_deployed, ?_, rfl⟩
  exact ⟨⟨by decide, by decide⟩, trivial⟩

/-- Ten more coins can be borrowed, but not eleven. -/
theorem mintDSC_limit_borrow :
    Succeeds (mintDSC sampleDeployment 10 10 borrowWorld) ∧
    ¬ Succeeds (mintDSC sampleDeployment 10 11 borrowWorld) := by
  have hvalue : getAccountCollateralValue 10 borrowWorld = .ok 120 := by decide
  have hten := (mintDSC_limit borrowWorld_reachable (by decide) hvalue (m := 10) (by decide)
    (by decide)).1
  have heleven := (mintDSC_limit borrowWorld_reachable (by decide) hvalue (m := 11) (by decide)
    (by decide)).1
  exact ⟨hten.mpr (by decide), mt heleven.mp (by decide)⟩

/-! ## Taking collateral out -/

/-- What a deposit adds to the value of a position, if the tokens are distinct. -/
theorem collateralValue_setDeposited_add (hnodup : w.s_collateralTokens.Nodup)
    (ht : t ∈ w.s_collateralTokens) :
    (w.setDeposited u t n).collateralValue u + w.usdValue t (w.s_collateralDeposited u t)
      = w.collateralValue u + w.usdValue t n := by
  have hothers : ((w.s_collateralTokens.erase t).map fun t' =>
        w.usdValue t' (if t' = t then n else w.s_collateralDeposited u t'))
      = (w.s_collateralTokens.erase t).map fun t' =>
          w.usdValue t' (w.s_collateralDeposited u t') := by
    refine List.map_congr_left fun t' ht' => ?_
    rw [if_neg (hnodup.mem_erase_iff.mp ht').1]
  rw [collateralValue_setDeposited, World.collateralValue, ← List.sum_map_erase _ ht,
    ← List.sum_map_erase _ ht, hothers, if_pos rfl]
  omega

/-- Taking out what is worth at most `k` dollars costs the position at most `k`. -/
theorem usdValue_le_sub_add {k : ℕ}
    (h : w.price t * ADDITIONAL_FEED_PRECISION * a ≤ k * PRECISION) :
    w.usdValue t n ≤ w.usdValue t (n - a) + k := by
  rw [World.usdValue, World.usdValue, Nat.mul_sub]
  exact div_le_sub_div_add (by decide) h

/-- Taking out what is worth at least `k` dollars costs it at least `k`. -/
theorem usdValue_sub_add_le {k : ℕ} (ha : a ≤ n)
    (h : k * PRECISION ≤ w.price t * ADDITIONAL_FEED_PRECISION * a) :
    w.usdValue t (n - a) + k ≤ w.usdValue t n := by
  rw [World.usdValue, World.usdValue, Nat.mul_sub]
  exact sub_div_add_le (by decide) h (Nat.mul_le_mul_left _ ha)

theorem nonReentrant_error {body : World → Exec Error World} {e : Revert Error}
    (he : w.entered = false) (h : body (w.setEntered true) = .error e) :
    nonReentrant body w = .error e := by
  have hfree : revertIf (w.entered = true) Error.ReentrancyGuardReentrantCall = .ok () :=
    revertIf_eq_ok.mpr (by rw [he]; exact Bool.false_ne_true)
  rw [nonReentrant, hfree, ok_bind, h, error_bind]

theorem revertIfHealthFactorIsBroken_of_lt (hval : Valuable w u)
    (hlow : w.collateralValue u < 2 * w.s_DSCMinted u) :
    _revertIfHealthFactorIsBroken u w
      = .error (.custom (.DSCEngine__HealthFactorIsBroken (w.healthFactor u))) := by
  have hhealth : _healthFactor u w = .ok (w.healthFactor u) := healthFactor_eq_ok.mpr ⟨hval, rfl⟩
  have hmin : w.healthFactor u < MIN_HEALTH_FACTOR :=
    not_le.mp (mt minHealthFactor_le_healthFactor.mp (not_le.mpr hlow))
  rw [_revertIfHealthFactorIsBroken, hhealth, ok_bind]
  exact if_pos hmin

/-- A redemption that is paid out and then fails the health check. -/
theorem redeemCollateral_broken {L : Ledger Address} (ha : 0 < a) (he : w.entered = false)
    (ht : w.s_priceFeeds t ≠ 0) (hdeposited : a ≤ w.s_collateralDeposited u t)
    (hpay : (D.erc20 t).transfer (w.ledgers t) D.engine u a = some (true, L))
    (hval : Valuable (w.setDeposited u t (w.s_collateralDeposited u t - a)) u)
    (hlow : (w.setDeposited u t (w.s_collateralDeposited u t - a)).collateralValue u
      < 2 * w.s_DSCMinted u) :
    redeemCollateral D u t a w = .error (.custom (.DSCEngine__HealthFactorIsBroken
      ((w.setDeposited u t (w.s_collateralDeposited u t - a)).healthFactor u))) := by
  have hpositive : moreThanZero a = .ok () := moreThanZero_eq_ok.mpr ha
  have hallowed : isAllowedToken t (w.setEntered true) = .ok () := isAllowedToken_eq_ok.mpr ht
  have hredeem : _redeemCollateral D u u t a (w.setEntered true) = .ok
      (((w.setEntered true).setDeposited u t (w.s_collateralDeposited u t - a)).setLedger t L) :=
    redeemCollateral_internal_eq_ok.mpr ⟨hdeposited, L, hpay, rfl⟩
  -- neither the lock nor the ledgers of the tokens matter to the check
  have hbroken : _revertIfHealthFactorIsBroken u
      (((w.setEntered true).setDeposited u t (w.s_collateralDeposited u t - a)).setLedger t L)
      = .error (.custom (.DSCEngine__HealthFactorIsBroken
        ((w.setDeposited u t (w.s_collateralDeposited u t - a)).healthFactor u))) :=
    revertIfHealthFactorIsBroken_of_lt hval hlow
  rw [redeemCollateral, hpositive, ok_bind]
  refine nonReentrant_error he ?_
  rw [hallowed, ok_bind, hredeem, ok_bind, hbroken, error_bind]

/-- **Safe redemptions.** In a reachable state with distinct tokens let the collateral of `u` be
worth `V`. A redemption succeeds if it is of at most as many tokens as `getTokenAmountFromUSD` says
are worth what `V` exceeds twice the debt by. If what is taken out is worth a whole dollar unit more
than that, the redemption is refused by the health check. -/
theorem redeemCollateral_limit (hreach : Reachable D w) (hnodup : w.s_collateralTokens.Nodup)
    (hstd : (D.erc20 t).Standard) (ht : w.s_priceFeeds t ≠ 0) (hu₀ : u ≠ 0) {V : ℕ}
    (hvalue : getAccountCollateralValue u w = .ok V) (hhealth : Succeeds (_healthFactor u w))
    (ha : 0 < a) (hdeposited : a ≤ w.s_collateralDeposited u t) :
    (∀ limit, getTokenAmountFromUSD t (V - 2 * w.s_DSCMinted u) w = .ok limit → a ≤ limit →
      Succeeds (redeemCollateral D u t a w)) ∧
    ((V - 2 * w.s_DSCMinted u + 1) * 10 ^ 18 ≤ w.price t * 10 ^ 10 * a →
      redeemCollateral D u t a w = .error (.custom (.DSCEngine__HealthFactorIsBroken
        ((w.setDeposited u t (w.s_collateralDeposited u t - a)).healthFactor u)))) := by
  have hw := hreach.invariant
  obtain ⟨-, -, rfl⟩ := getAccountCollateralValue_eq_ok.mp hvalue
  obtain ⟨healthFactor, hhealth⟩ := hhealth
  have hval : Valuable (w.setDeposited u t (w.s_collateralDeposited u t - a)) u :=
    valuable_setDeposited (healthFactor_eq_ok.mp hhealth).1 (Nat.sub_le _ _)
  have hpay := hw.transfer_ok hstd hu₀ hdeposited
  have hchange := collateralValue_setDeposited_add (u := u) (n := w.s_collateralDeposited u t - a)
    hnodup (hw.listed t ht)
  refine ⟨fun limit hlimit hle => ?_, fun hworth => ?_⟩
  · obtain ⟨-, -, hprice, rfl⟩ := getTokenAmountFromUSD_eq_ok.mp hlimit
    have hP : 0 < w.price t * ADDITIONAL_FEED_PRECISION :=
      Nat.mul_pos (Nat.pos_of_ne_zero hprice) (by decide)
    have hworth : w.price t * ADDITIONAL_FEED_PRECISION * a
        ≤ (w.collateralValue u - 2 * w.s_DSCMinted u) * PRECISION := by
      rw [Nat.mul_comm]
      exact (Nat.le_div_iff_mul_le hP).mp hle
    have hexcess : 2 * w.s_DSCMinted u < w.collateralValue u := by
      by_contra hle
      rw [Nat.sub_eq_zero_of_le (not_lt.mp hle), Nat.zero_mul] at hworth
      exact absurd hworth (not_le.mpr (Nat.mul_pos hP ha))
    have hcost := usdValue_le_sub_add (n := w.s_collateralDeposited u t) hworth
    have hsolvent : Solvent (w.setDeposited u t (w.s_collateralDeposited u t - a)) u := by
      refine ⟨hval, ?_⟩
      rw [World.minted_setDeposited]
      omega
    exact ⟨_, redeemCollateral_eq_ok.mpr ⟨ha, hw.unlocked, ht, hdeposited, hsolvent, _, hpay, rfl⟩⟩
  · have hcost := usdValue_sub_add_le hdeposited hworth
    have hlow : (w.setDeposited u t (w.s_collateralDeposited u t - a)).collateralValue u
        < 2 * w.s_DSCMinted u := by
      omega
    exact redeemCollateral_broken ha hw.unlocked ht hdeposited hpay hval hlow

/-- Of the sixty units ten can be taken out, but not eleven. -/
theorem redeemCollateral_limit_borrow :
    Succeeds (redeemCollateral sampleDeployment 10 3 10 borrowWorld) ∧
    redeemCollateral sampleDeployment 10 3 11 borrowWorld
      = .error (.custom (.DSCEngine__HealthFactorIsBroken 980000000000000000)) := by
  have hvalue : getAccountCollateralValue 10 borrowWorld = .ok 120 := by decide
  have hten := (redeemCollateral_limit borrowWorld_reachable (by decide)
    (sampleDeployment_standard 3) (by decide) (by decide) hvalue (by decide) (a := 10) (by decide)
    (by decide)).1
  have heleven := (redeemCollateral_limit borrowWorld_reachable (by decide)
    (sampleDeployment_standard 3) (by decide) (by decide) hvalue (by decide) (a := 11) (by decide)
    (by decide)).2
  have hhealth : (borrowWorld.setDeposited 10 3 (borrowWorld.s_collateralDeposited 10 3 - 11)
      ).healthFactor 10 = 980000000000000000 := by
    decide
  rw [hhealth] at heleven
  exact ⟨hten 10 (by decide) (by decide), heleven (by decide)⟩

end Stablecoin

end UpdraftContracts

import UpdraftContracts.Stablecoin.Limits

/-!
# The views do not overflow

Every engine call that checks a health factor goes through the same checked products and the same
loop. An overflow there would lock the account. Deposits are covered by tokens the engine holds, so
they are at most the supply of their token, and with realistic supplies and prices everything fits.

## Main results

* `views_complete` — within these bounds the three views of an account return, in every state of
  every run
-/

namespace UpdraftContracts

open Evm

namespace Stablecoin

open DSCEngine

variable {D : Deployment} {w : World} {u t : Address}

/-- The feed of the token is fresh, and its answer is between `1` and `2 ^ 96`. -/
def RealisticFeed (w : World) (t : Address) : Prop :=
  ∃ r, w.round t = some r ∧ w.Fresh r ∧ 1 ≤ r.answer.toInt ∧ r.answer.toInt ≤ 2 ^ 96

theorem RealisticFeed.price_le (h : RealisticFeed w t) : w.price t ≤ 2 ^ 96 := by
  obtain ⟨r, hr, -, -, hle⟩ := h
  rw [World.price_of_round hr]
  omega

/-- Answers of a realistic size can be scaled. -/
theorem RealisticFeed.readable (h : RealisticFeed w t) : ReadableFeed w t := by
  have hprice := h.price_le
  obtain ⟨r, hr, hfresh, hpos, -⟩ := h
  refine readableFeed_of_good ⟨r, hr, hfresh, hpos⟩ ?_
  simp only [ADDITIONAL_FEED_PRECISION, uint256Size]
  omega

/-- No deposit exceeds the supply of its token. -/
theorem Reachable.deposited_le_supply (h : Reachable D w) (hexact : (D.erc20 t).Exact) :
    w.s_collateralDeposited u t ≤ (w.ledgers t).totalSupply :=
  (h.invariant.deposited_le u hexact).trans (Ledger.balance_le _ _)

theorem scaled_le (h : RealisticFeed w t) {a : ℕ} (ha : a ≤ 2 ^ 112) :
    w.price t * ADDITIONAL_FEED_PRECISION * a ≤ 2 ^ 96 * 10 ^ 10 * 2 ^ 112 :=
  Nat.mul_le_mul (Nat.mul_le_mul_right _ h.price_le) ha

/-- A thousand deposits of this size are worth at most `2 ^ 193`. -/
theorem collateralValue_le (hlength : w.s_collateralTokens.length ≤ 2 ^ 10)
    (hfeeds : ∀ t ∈ w.s_collateralTokens, RealisticFeed w t)
    (hdeposits : ∀ t ∈ w.s_collateralTokens, w.s_collateralDeposited u t ≤ 2 ^ 112) :
    w.collateralValue u ≤ 2 ^ 193 := by
  have hsum : w.collateralValue u ≤ w.s_collateralTokens.length • 2 ^ 183 := by
    rw [World.collateralValue, ← List.length_map]
    refine List.sum_le_card_nsmul _ _ fun value hvalue => ?_
    obtain ⟨t, ht, rfl⟩ := List.mem_map.mp hvalue
    exact (Nat.div_le_div_right (scaled_le (hfeeds t ht) (hdeposits t ht))).trans (by decide)
  calc w.collateralValue u ≤ w.s_collateralTokens.length * 2 ^ 183 := hsum
    _ ≤ 2 ^ 10 * 2 ^ 183 := Nat.mul_le_mul_right _ hlength
    _ = 2 ^ 193 := by rw [← pow_add]

theorem healthFactorFits_of_le {debt value : ℕ} (h : value ≤ 2 ^ 193) :
    HealthFactorFits debt value := by
  refine fun _ => ⟨?_, ?_⟩
  · simp only [LIQUIDATION_THRESHOLD, uint256Size]
    omega
  · rw [threshold_eq]
    simp only [PRECISION, uint256Size]
    omega

/-- **The views return.** Let there be at most `2 ^ 10` collateral tokens, of which at most
`2 ^ 112` units exist each, and let every feed be fresh with an answer between `1` and `2 ^ 96`.
Then in every reachable state the value, the information and the health factor of every account are
computed without an overflow and without a division by zero. -/
theorem views_complete (hreach : Reachable D w) (hlength : w.s_collateralTokens.length ≤ 2 ^ 10)
    (hexact : ∀ t ∈ w.s_collateralTokens, (D.erc20 t).Exact)
    (hsupply : ∀ t ∈ w.s_collateralTokens, (w.ledgers t).totalSupply ≤ 2 ^ 112)
    (hfeeds : ∀ t ∈ w.s_collateralTokens, RealisticFeed w t) (u : Address) :
    Succeeds (getAccountCollateralValue u w) ∧ Succeeds (getAccountInformation u w) ∧
      Succeeds (getHealthFactor u w) := by
  have hdeposits : ∀ t ∈ w.s_collateralTokens, w.s_collateralDeposited u t ≤ 2 ^ 112 :=
    fun t ht => (hreach.deposited_le_supply (hexact t ht)).trans (hsupply t ht)
  have hfits : ∀ t ∈ w.s_collateralTokens, ReadableFeed w t ∧
      w.price t * ADDITIONAL_FEED_PRECISION * w.s_collateralDeposited u t < uint256Size :=
    fun t ht => ⟨(hfeeds t ht).readable,
      (scaled_le (hfeeds t ht) (hdeposits t ht)).trans_lt (by decide)⟩
  have hle := collateralValue_le hlength hfeeds hdeposits
  have htotal : w.collateralValue u < uint256Size := hle.trans_lt (by decide)
  have hvalue : getAccountCollateralValue u w = .ok (w.collateralValue u) :=
    getAccountCollateralValue_eq_ok.mpr ⟨hfits, htotal, rfl⟩
  refine ⟨⟨_, hvalue⟩, ⟨(w.s_DSCMinted u, w.collateralValue u), ?_⟩, ⟨w.healthFactor u, ?_⟩⟩
  · rw [getAccountInformation, _getAccountInformation, hvalue]
    rfl
  · exact healthFactor_eq_ok.mpr ⟨⟨hfits, htotal, healthFactorFits_of_le hle⟩, rfl⟩

theorem views_complete_borrow : Succeeds (getHealthFactor 10 borrowWorld) := by
  have htokens : ∀ t ∈ borrowWorld.s_collateralTokens, t = 3 := fun t ht => List.mem_singleton.mp ht
  refine (views_complete borrowWorld_reachable (by decide) (fun t _ => ?_) (fun t ht => ?_)
    (fun t ht => ?_) 10).2.2
  · exact (sampleDeployment_standard t).toExact
  · obtain rfl := htokens t ht
    decide
  · obtain rfl := htokens t ht
    exact ⟨_, rfl, ⟨by decide, by decide⟩, by decide, by decide⟩

end Stablecoin

end UpdraftContracts

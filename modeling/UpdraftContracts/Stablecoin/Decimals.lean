import UpdraftContracts.Stablecoin.Liquidation

/-!
# Tokens and feeds with their own decimals

The engine scales every price by `10 ^ 10` and every amount by `10 ^ 18`. It never asks a token or a
feed for its decimals. With a token of `18` and a feed of `8` decimals the dollar amounts it
computes are right. Here is for which other decimals they are.

## Main results

* `unitCorrect_iff` — the conversions and the liquidation are in the right unit exactly if the
  decimals of token and feed add up to `26`
-/

namespace UpdraftContracts

open Evm

namespace Stablecoin

open DSCEngine

/-- The engine is right about a token with `tokenDecimals` decimals whose feed has `feedDecimals`.
Dollars have `18` decimals, so `a` units of the token are worth
`price * a * 10 ^ 18 / 10 ^ (tokenDecimals + feedDecimals)`. -/
structure UnitCorrect (tokenDecimals feedDecimals : ℕ) : Prop where
  /-- The value of an amount, rounded down. -/
  usd : ∀ (w : World) (t : Address) (a : ℕ), w.GoodFeed t →
    w.price t * 10 ^ 10 < uint256Size → w.price t * 10 ^ 10 * a < uint256Size →
    getUSDValue t a w = .ok (w.price t * a * 10 ^ 18 / 10 ^ (tokenDecimals + feedDecimals))
  /-- The amount for a value, rounded down. -/
  amount : ∀ (w : World) (t : Address) (value : ℕ), w.GoodFeed t →
    w.price t * 10 ^ 10 < uint256Size → value * 10 ^ 18 < uint256Size →
    getTokenAmountFromUSD t value w
      = .ok (value * 10 ^ (tokenDecimals + feedDecimals) / (w.price t * 10 ^ 18))
  /-- What a liquidation seizes is worth at most a tenth more than the debt it covers. -/
  payout : ∀ (D : Deployment) (sender t u : Address) (d : ℕ) (w w' : World),
    liquidate D sender t u d w = .ok w' →
    10 * (w.price t * (w.s_collateralDeposited u t - w'.s_collateralDeposited u t) * 10 ^ 18)
      ≤ 11 * d * 10 ^ (tokenDecimals + feedDecimals)

/-- The scale that the constants amount to. -/
theorem usdValue_eq (w : World) (t : Address) (a : ℕ) :
    w.usdValue t a = w.price t * a * 10 ^ 18 / 10 ^ 26 := by
  have hleft : w.price t * ADDITIONAL_FEED_PRECISION * a = w.price t * a * 10 ^ 10 := by
    simp only [ADDITIONAL_FEED_PRECISION]
    ring
  calc w.usdValue t a = w.price t * a * 10 ^ 10 / (10 ^ 8 * 10 ^ 10) := by
        rw [World.usdValue, hleft]
        rfl
    _ = w.price t * a / 10 ^ 8 := Nat.mul_div_mul_right _ _ (by decide)
    _ = w.price t * a * 10 ^ 18 / (10 ^ 8 * 10 ^ 18) :=
        (Nat.mul_div_mul_right _ _ (by decide)).symm
    _ = w.price t * a * 10 ^ 18 / 10 ^ 26 := by rw [← pow_add]

theorem tokenAmount_eq (price value : ℕ) :
    value * PRECISION / (price * ADDITIONAL_FEED_PRECISION)
      = value * 10 ^ 26 / (price * 10 ^ 18) := by
  rw [← Nat.mul_div_mul_right _ _ (by decide : 0 < 10 ^ 8)]
  simp only [PRECISION, ADDITIONAL_FEED_PRECISION, mul_assoc, ← pow_add]

/-- What is seized, valued at the price the engine reads. -/
theorem seizure_payout (w : World) (t : Address) (d : ℕ) :
    10 * (w.price t * w.seizure t d * 10 ^ 18) ≤ 11 * d * 10 ^ 26 := by
  have hworth : 10 * (w.price t * ADDITIONAL_FEED_PRECISION * w.seizure t d)
      ≤ 11 * d * PRECISION :=
    seized_worth_le (Nat.div_mul_le_self _ _)
  simp only [ADDITIONAL_FEED_PRECISION, PRECISION] at hworth
  calc 10 * (w.price t * w.seizure t d * 10 ^ 18)
      = 10 * (w.price t * 10 ^ 10 * w.seizure t d) * 10 ^ 8 := by ring
    _ ≤ 11 * d * 10 ^ 18 * 10 ^ 8 := Nat.mul_le_mul_right _ hworth
    _ = 11 * d * 10 ^ 26 := by ring

theorem scale_eq {n : ℕ} (h : 2 * 10 ^ 8 * 1 * 10 ^ 18 / 10 ^ n = 2) : n = 26 := by
  have hpos : 0 < 10 ^ n := Nat.pow_pos (by decide)
  have hle := Nat.div_mul_le_self (2 * 10 ^ 8 * 1 * 10 ^ 18) (10 ^ n)
  rw [h] at hle
  have hlt : 2 * 10 ^ 8 * 1 * 10 ^ 18 < 3 * 10 ^ n :=
    (Nat.div_lt_iff_lt_mul hpos).mp (by rw [h]; decide)
  rcases lt_trichotomy n 26 with hn | rfl | hn
  · have hsmall : 10 ^ n ≤ 10 ^ 25 := Nat.pow_le_pow_right (by decide) (by omega)
    omega
  · rfl
  · have hlarge : 10 ^ 27 ≤ 10 ^ n := Nat.pow_le_pow_right (by decide) (by omega)
    omega

/-- **The decimals the engine is built for.** Its conversions, and with them what a liquidation pays
out, are right for a token and its feed if and only if their decimals add up to `26`. -/
theorem unitCorrect_iff (tokenDecimals feedDecimals : ℕ) :
    UnitCorrect tokenDecimals feedDecimals ↔ tokenDecimals + feedDecimals = 26 := by
  constructor
  · intro h
    -- one unit at two dollars tells the scale
    have hunit := h.usd sampleWorld 3 1 ⟨_, rfl, ⟨by decide, by decide⟩, by decide⟩ (by decide)
      (by decide)
    have hprice : sampleWorld.price 3 = 2 * 10 ^ 8 := by decide
    have hval : getUSDValue 3 1 sampleWorld = .ok 2 := by decide
    rw [hval, hprice] at hunit
    exact scale_eq (Except.ok.inj hunit).symm
  · intro h
    refine ⟨fun w t a hgood hprice hfits => ?_, fun w t value hgood hprice hfits => ?_,
      fun D sender t u d w w' hliquidate => ?_⟩
    · rw [h, ← usdValue_eq]
      exact getUSDValue_eq_ok.mpr ⟨readableFeed_of_good hgood hprice, hfits, rfl⟩
    · rw [h, ← tokenAmount_eq]
      exact getTokenAmountFromUSD_eq_ok.mpr
        ⟨readableFeed_of_good hgood hprice, hfits, price_ne_zero hgood, rfl⟩
    · obtain ⟨hle, hleft⟩ := liquidate_seizes hliquidate
      rw [h, hleft, Nat.sub_sub_self hle]
      exact seizure_payout w t d

/-- The token trades at sixty thousand dollars, read from a feed with eight decimals. -/
def bitcoinWorld : World :=
  run (step sampleDeployment) sampleWorld [.report 4 (sampleRound (60000 * 10 ^ 8))]

/-- With eight decimals a whole token is `10 ^ 8` units, and its sixty thousand dollars are
`6 * 10 ^ 22`. The engine values it at `6 * 10 ^ 12` and asks for `10 ^ 18` units in exchange for
these dollars. A liquidation that burns `50` hands out `36` units, worth `5.4 * 10 ^ 11`. -/
theorem eight_decimals_misvalued :
    Reachable sampleDeployment bitcoinWorld ∧
    60000 * 10 ^ 8 * 10 ^ 8 * 10 ^ 18 / 10 ^ (8 + 8) = 6 * 10 ^ 22 ∧
    getUSDValue 3 (10 ^ 8) bitcoinWorld = .ok (6 * 10 ^ 12) ∧
    getTokenAmountFromUSD 3 (6 * 10 ^ 22) bitcoinWorld = .ok (10 ^ 18) ∧
    Reachable sampleDeployment underwaterWorld ∧ underwaterWorld.price 3 = 15 * 10 ^ 7 ∧
    (∃ w', liquidate sampleDeployment 11 3 10 50 underwaterWorld = .ok w' ∧
      underwaterWorld.s_collateralDeposited 10 3 - w'.s_collateralDeposited 10 3 = 36) ∧
    11 * 50 * 10 ^ (8 + 8) < 10 * (15 * 10 ^ 7 * 36 * 10 ^ 18) := by
  have hbitcoin : Reachable sampleDeployment bitcoinWorld :=
    ⟨[3], [4], sampleWorld, [.report 4 (sampleRound (60000 * 10 ^ 8))], sampleWorld_deployed,
      ⟨trivial, trivial⟩, rfl⟩
  have hcall : Succeeds (liquidate sampleDeployment 11 3 10 50 underwaterWorld) := by decide
  refine ⟨hbitcoin, by decide, by decide, by decide, underwaterWorld_reachable, by decide,
    ⟨_, hcall.eq_ok_settle underwaterWorld, by decide⟩, by decide⟩

end Stablecoin

end UpdraftContracts

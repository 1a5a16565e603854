import UpdraftContracts.Evm.Conversion
import UpdraftContracts.Stablecoin.Liquidation

/-!
# Dollars and tokens, there and back

`getUSDValue` and `getTokenAmountFromUSD` convert in opposite directions, and both round down. What
one of them returns never overflows in the other. A round trip never gains. It loses less than a
unit on the way back, and on the way out less than a unit of the other side: for a token below a
dollar that is worth more than a unit of the token, for one above a dollar it is worth less.

## Main results

* `conversions_round_trip` — what is lost by converting an amount of a token into dollars and back,
  and dollars into a token and back
-/

namespace UpdraftContracts

open Evm

namespace Stablecoin

open DSCEngine

variable {w : World} {t : Address} {P a u : ℕ}

/-- The engine converts between dollars and the token `t` at the price `P`, which is in units of
`1 / PRECISION`. -/
structure PricedAt (w : World) (t : Address) (P : ℕ) : Prop where
  pos : 0 < P
  usd : ∀ a, P * a < uint256Size → getUSDValue t a w = .ok (converted P PRECISION a)
  amount : ∀ u, u * PRECISION < uint256Size →
    getTokenAmountFromUSD t u w = .ok (converted PRECISION P u)

theorem pricedAt_of_good (hgood : w.GoodFeed t) (hP : P = w.price t * ADDITIONAL_FEED_PRECISION)
    (hfits : P < uint256Size) : PricedAt w t P := by
  subst hP
  have hfeed := readableFeed_of_good hgood hfits
  have hprice := price_ne_zero hgood
  refine ⟨Nat.mul_pos (Nat.pos_of_ne_zero hprice) (by decide), ?_, ?_⟩
  · intro a ha
    refine getUSDValue_eq_ok.mpr ⟨hfeed, ha, ?_⟩
    rw [World.usdValue, converted, Nat.mul_comm]
  · intro u hu
    exact getTokenAmountFromUSD_eq_ok.mpr ⟨hfeed, hu, hprice, rfl⟩

/-- The dollars that an amount is worth can be converted back. -/
theorem PricedAt.amount_usd (h : PricedAt w t P) (ha : P * a < uint256Size) :
    getTokenAmountFromUSD t (converted P PRECISION a) w = .ok (roundTrip P PRECISION a) := by
  refine h.amount _ (lt_of_le_of_lt (converted_mul_le P PRECISION a) ?_)
  rwa [Nat.mul_comm]

/-- And so can the amount that dollars pay for. -/
theorem PricedAt.usd_amount (h : PricedAt w t P) (hu : u * PRECISION < uint256Size) :
    getUSDValue t (converted PRECISION P u) w = .ok (roundTrip PRECISION P u) := by
  refine h.usd _ (lt_of_le_of_lt ?_ hu)
  rw [Nat.mul_comm]
  exact converted_mul_le PRECISION P u

/-- **Round trips.** Let the feed of `t` be fresh and its answer positive, and let `P` be the scaled
price. An amount `a` of the token, valued in dollars and converted back, comes back in the interval
`(a - 10 ^ 18 / P - 1, a]`; if the token is worth at least a dollar, as `a` or `a - 1`. Dollars `u`,
converted into the token and valued again, come back in `(u - P / 10 ^ 18 - 1, u]`, and the amount
in between is the largest one whose exact value is not above `u`. None of the calls reverts as long
as the products of the first one fit. -/
theorem conversions_round_trip (w : World) (t : Address) (P : ℕ) (hgood : w.GoodFeed t)
    (hP : P = w.price t * 10 ^ 10) (hfits : P < uint256Size) :
    (∀ a, P * a < uint256Size →
      ∃ value back, getUSDValue t a w = .ok value ∧ getTokenAmountFromUSD t value w = .ok back ∧
        (back : ℚ) ∈ Set.Ioc (a - 10 ^ 18 / P - 1 : ℚ) a ∧
        (10 ^ 18 ≤ P → back = a ∨ back + 1 = a)) ∧
    ∀ u, u * 10 ^ 18 < uint256Size →
      ∃ amount back, getTokenAmountFromUSD t u w = .ok amount ∧
        getUSDValue t amount w = .ok back ∧
        (back : ℚ) ∈ Set.Ioc (u - P / 10 ^ 18 - 1 : ℚ) u ∧
        IsGreatest {n | P * n ≤ u * 10 ^ 18} amount := by
  have hpriced := pricedAt_of_good hgood hP hfits
  have hscale : ((PRECISION : ℕ) : ℚ) = 10 ^ 18 := by norm_num [PRECISION]
  have hpos : 0 < PRECISION := by decide
  constructor
  · intro a ha
    refine ⟨_, _, hpriced.usd a ha, hpriced.amount_usd ha, ?_, ?_⟩
    · rw [← hscale]
      exact roundTrip_mem_Ioc hpriced.pos hpos a
    · intro hdollar
      exact roundTrip_eq_or hpos hdollar a
  · intro u hu
    refine ⟨_, _, hpriced.amount u hu, hpriced.usd_amount hu, ?_, ?_⟩
    · rw [← hscale]
      exact roundTrip_mem_Ioc hpos hpriced.pos u
    · simp only [Nat.mul_comm P]
      exact isGreatest_converted hpriced.pos u

-- At a dollar and a half one unit is worth one, and that one pays for none.
example : getUSDValue 3 1 underwaterWorld = .ok 1 ∧
    getTokenAmountFromUSD 3 1 underwaterWorld = .ok 0 := by decide

/-- The feed reports an answer of three, `3 * 10 ^ (-8)` dollars for a token. -/
def dustWorld : World := run (step sampleDeployment) sampleWorld [.report 4 (sampleRound 3)]

/-- A hundred million units of the token are worth three units of a dollar. One unit less is worth
only two, for which two thirds of it come back. Five units of a dollar come back as four. -/
theorem conversions_round_trip_dust :
    (getUSDValue 3 99999999 dustWorld = .ok 2 ∧
      getTokenAmountFromUSD 3 2 dustWorld = .ok 66666666 ∧
      (66666666 : ℚ) ∈ Set.Ioc (99999999 - 10 ^ 18 / (3 * 10 ^ 10) - 1 : ℚ) 99999999) ∧
    getTokenAmountFromUSD 3 5 dustWorld = .ok 166666666 ∧
      getUSDValue 3 166666666 dustWorld = .ok 4 ∧
      (4 : ℚ) ∈ Set.Ioc (5 - 3 * 10 ^ 10 / 10 ^ 18 - 1 : ℚ) 5 ∧
      IsGreatest {n | 3 * 10 ^ 10 * n ≤ 5 * 10 ^ 18} 166666666 := by
  obtain ⟨htokens, hdollars⟩ := conversions_round_trip dustWorld 3 (3 * 10 ^ 10)
    ⟨_, rfl, ⟨by decide, by decide⟩, by decide⟩ (by decide) (by decide)
  obtain ⟨value, back, hvalue, hback, htrip, -⟩ := htokens 99999999 (by decide)
  obtain rfl : value = 2 := Except.ok.inj (hvalue.symm.trans (by decide))
  obtain rfl : back = 66666666 := Except.ok.inj (hback.symm.trans (by decide))
  obtain ⟨amount, left, hamount, hleft, htrip', hgreatest⟩ := hdollars 5 (by decide)
  obtain rfl : amount = 166666666 := Except.ok.inj (hamount.symm.trans (by decide))
  obtain rfl : left = 4 := Except.ok.inj (hleft.symm.trans (by decide))
  exact ⟨⟨hvalue, hback, by exact_mod_cast htrip⟩, hamount, hleft, by exact_mod_cast htrip',
    hgreatest⟩

end Stablecoin

end UpdraftContracts

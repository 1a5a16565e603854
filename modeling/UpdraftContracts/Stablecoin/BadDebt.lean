import UpdraftContracts.Stablecoin.Limits
import UpdraftContracts.Stablecoin.Liquidation

/-!
# Bad debt

The bonus of a liquidation is paid from the collateral of the position. Once a position is worth
less than its debt and the bonus, nobody can liquidate it, not even in part: each covered dollar
takes more than a dollar from the position, so what is left is no better than what was there, and
`liquidate` demands that it be healthy.

Such a position gets out of this state only by a price that rises or by what its owner does. As
long as neither happens the debt stays where it is, and so do the coins that nothing backs.

## Main results

* `BadDebt.not_succeeds_liquidate` — no liquidation of bad debt
* `bad_debt_stays` — bad debt along runs
-/

namespace UpdraftContracts

open Evm

namespace Stablecoin

open DSCEngine

variable {D : Deployment} {w w₀ w' : World} {sender u t : Address} {d n : ℕ}

/-- The position is worth less than its debt and the bonus, up to rounding: one dollar of the value
and two units of whichever token is taken. -/
def World.BadDebt (w : World) (u : Address) : Prop :=
  ∀ t ∈ w.s_collateralTokens,
    10 * (w.collateralValue u + 1) * PRECISION + 20 * (w.price t * ADDITIONAL_FEED_PRECISION)
      ≤ 11 * w.s_DSCMinted u * PRECISION

/-! ## One liquidation -/

/-- What is seized is worth the covered debt and the bonus, up to two units of the token. -/
theorem lt_value_seizure (hprice : w.price t ≠ 0) :
    11 * d * PRECISION
      < 10 * (w.price t * ADDITIONAL_FEED_PRECISION * w.seizure t d)
        + 20 * (w.price t * ADDITIONAL_FEED_PRECISION) := by
  rw [World.seizure]
  have hP : 0 < w.price t * ADDITIONAL_FEED_PRECISION :=
    Nat.mul_pos (Nat.pos_of_ne_zero hprice) (by decide)
  generalize w.price t * ADDITIONAL_FEED_PRECISION = P at *
  have hdiv : d * PRECISION < P * (d * PRECISION / P + 1) := Nat.lt_mul_div_succ _ hP
  generalize d * PRECISION / P = tokens at *
  have hseized : 11 * tokens ≤ 10 * seized tokens + 9 := by
    simp only [seized, LIQUIDATION_BONUS, LIQUIDATION_PRECISION]
    omega
  calc 11 * d * PRECISION = 11 * (d * PRECISION) := by ring
    _ < 11 * (P * (tokens + 1)) := by omega
    _ = P * (11 * tokens) + 11 * P := by ring
    _ ≤ P * (10 * seized tokens + 9) + 11 * P :=
        Nat.add_le_add_right (Nat.mul_le_mul_left _ hseized) _
    _ = 10 * (P * seized tokens) + 20 * P := by ring

/-- What is taken out of a deposit is no longer part of the value, however often the token is
listed. -/
theorem collateralValue_setDeposited_sub (ht : t ∈ w.s_collateralTokens)
    (hn : n ≤ w.s_collateralDeposited u t) :
    (w.setDeposited u t (w.s_collateralDeposited u t - n)).collateralValue u + w.usdValue t n
      ≤ w.collateralValue u := by
  have hothers : ((w.s_collateralTokens.erase t).map fun t' => w.usdValue t'
        (if t' = t then w.s_collateralDeposited u t - n else w.s_collateralDeposited u t')).sum
      ≤ ((w.s_collateralTokens.erase t).map fun t' =>
          w.usdValue t' (w.s_collateralDeposited u t')).sum := by
    refine List.sum_le_sum fun t' _ => World.usdValue_mono ?_
    split
    · next heq => exact heq ▸ Nat.sub_le _ _
    · exact le_rfl
  have htaken : w.usdValue t (w.s_collateralDeposited u t - n) + w.usdValue t n
      ≤ w.usdValue t (w.s_collateralDeposited u t) :=
    usdValue_sub_add_le hn (Nat.div_mul_le_self _ _)
  rw [collateralValue_setDeposited, World.collateralValue, ← List.sum_map_erase _ ht,
    ← List.sum_map_erase _ ht, if_pos rfl]
  omega

/-- **Bad debt cannot be liquidated**, whole or in part, whatever token is taken. -/
theorem World.BadDebt.not_succeeds_liquidate (hbad : w.BadDebt u) (hw : Invariant D w) :
    ¬ Succeeds (liquidate D sender t u d w) := by
  rintro ⟨w', h⟩
  obtain ⟨hfeed, hdebt, hcover, hgood⟩ := liquidate_needs h
  obtain ⟨-, -, -, -, -, tokens, htok, -⟩ := liquidate_eq_ok.mp h
  obtain ⟨-, -, hprice, -⟩ := getTokenAmountFromUSD_eq_ok.mp htok
  have ht := hw.listed t hfeed
  have hseized := lt_value_seizure (d := d) hprice
  have hvalue := collateralValue_setDeposited_sub ht hcover
  have hround : w.price t * ADDITIONAL_FEED_PRECISION * w.seizure t d
      < PRECISION * (w.usdValue t (w.seizure t d) + 1) :=
    Nat.lt_mul_div_succ _ (by decide)
  have hrest : (w.afterLiquidation u t d).collateralValue u
      = (w.setDeposited u t (w.s_collateralDeposited u t - w.seizure t d)).collateralValue u := rfl
  have hleft : (w.afterLiquidation u t d).s_DSCMinted u = w.s_DSCMinted u - d := by
    rw [World.afterLiquidation, World.minted_setMinted, if_pos rfl]
  have hshort := hbad t ht
  rw [World.healthFactor, minHealthFactor_lt_iff, hrest, hleft] at hgood
  simp only [MIN_HEALTH_FACTOR, PRECISION] at *
  -- either the whole debt is covered, which costs more than there is, or what is left is unhealthy
  omega

/-! ## Runs -/

/-- The action is no call of the engine by `u`. -/
def Action.NotBy (u : Address) : Action → Prop
  | .call sender (.engine _) => sender ≠ u
  | _ => True

/-- The position of `u` is as it was, and no price is higher. -/
structure Unmoved (w₀ : World) (u : Address) (w : World) : Prop where
  tokens : w.s_collateralTokens = w₀.s_collateralTokens
  deposited : w.s_collateralDeposited u = w₀.s_collateralDeposited u
  minted : w.s_DSCMinted u = w₀.s_DSCMinted u
  price : ∀ t, w.price t ≤ w₀.price t

theorem Unmoved.badDebt (h : Unmoved w₀ u w) (hbad : w₀.BadDebt u) : w.BadDebt u := by
  have hvalue : w.collateralValue u ≤ w₀.collateralValue u := by
    rw [World.collateralValue, World.collateralValue, h.tokens, h.deposited]
    refine List.sum_le_sum fun t _ => Nat.div_le_div_right ?_
    exact Nat.mul_le_mul_right _ (Nat.mul_le_mul_right _ (h.price t))
  intro t ht
  rw [h.tokens] at ht
  rw [h.minted]
  refine le_trans (Nat.add_le_add ?_ ?_) (hbad t ht)
  · exact Nat.mul_le_mul_right _ (Nat.mul_le_mul_left _ (Nat.succ_le_succ hvalue))
  · exact Nat.mul_le_mul_left _ (Nat.mul_le_mul_right _ (h.price t))

/-- Only a liquidation could touch the position, and there is none. -/
theorem Unmoved.step {a : Action} (h : Unmoved w₀ u w) (hbad : w₀.BadDebt u) (hw : Invariant D w)
    (ha : a.FromOutside D) (hother : a.NotBy u)
    (hprice : ∀ t, (step D w a).price t ≤ w₀.price t) : Unmoved w₀ u (step D w a) := by
  have hsame : (Stablecoin.step D w a).s_collateralDeposited u = w.s_collateralDeposited u ∧
      (Stablecoin.step D w a).s_DSCMinted u = w.s_DSCMinted u := by
    cases a with
    | elapse n => exact ⟨rfl, rfl⟩
    | report f r => exact ⟨rfl, rfl⟩
    | call sender c =>
      refine settle_induction (P := fun x : World => x.s_collateralDeposited u = _ ∧
        x.s_DSCMinted u = _) ⟨rfl, rfl⟩ fun w' hcall => ?_
      cases c with
      | engine c =>
        have htarget : u ≠ c.target sender := by
          intro heq
          cases c with
          | liquidate t v d =>
            obtain rfl : u = v := heq
            exact (h.badDebt hbad).not_succeeds_liquidate hw ⟨w', hcall⟩
          | _ => exact hother heq.symm
        have hposition := EngineCall.samePosition hcall htarget
        exact ⟨hposition.deposited, hposition.minted⟩
      | coin c =>
        obtain ⟨L, rfl, -⟩ := CoinCall.exec_outside ha.1 hw.toSane hcall
        exact ⟨rfl, rfl⟩
      | token t c =>
        obtain ⟨L, rfl, -⟩ := TokenCall.exec_outside ha.1 hw.toSane hcall
        exact ⟨rfl, rfl⟩
  exact ⟨(config_step ha hw.toSane).2.trans h.tokens, hsame.1.trans h.deposited,
    hsame.2.trans h.minted, hprice⟩

/-- **Bad debt stays.** From a reachable state in which the debt of `u` is bad, let anything happen
but calls of the engine by `u` and prices above those at the start. Then `u` has the same deposits
and the same debt as before, and still nobody can liquidate any part of it. -/
theorem bad_debt_stays {as : List Action} (hreach : Reachable D w) (hbad : w.BadDebt u)
    (halong : Along (step D) (fun x a => a.FromOutside D ∧ a.NotBy u ∧
      ∀ t, (step D x a).price t ≤ w.price t) w as) :
    (run (step D) w as).s_collateralDeposited u = w.s_collateralDeposited u ∧
    (run (step D) w as).s_DSCMinted u = w.s_DSCMinted u ∧
    ∀ sender t d, ¬ Succeeds (liquidate D sender t u d (run (step D) w as)) := by
  obtain ⟨hinv, hsame⟩ := run_invariant (P := fun x : World => Invariant D x ∧ Unmoved w u x)
    (fun x a ha hx => ⟨invariant_step ha.1 hx.1, hx.2.step hbad hx.1 ha.1 ha.2.1 ha.2.2⟩)
    halong ⟨hreach.invariant, ⟨rfl, rfl, rfl, fun _ => le_rfl⟩⟩
  exact ⟨hsame.deposited, hsame.minted,
    fun _ _ _ => (hsame.badDebt hbad).not_succeeds_liquidate hinv⟩

/-- The price falls from two dollars to fifty cents. -/
def insolventRun : List Action :=
  [.call 10 (.engine (.depositCollateralAndMintDSC 3 60 50)), .report 4 (sampleRound (5 * 10 ^ 7))]

/-- What that leaves. -/
def insolventWorld : World := run (step sampleDeployment) sampleWorld insolventRun

theorem price_insolventWorld {w : World} (hfeeds : w.s_priceFeeds = insolventWorld.s_priceFeeds)
    (hthree : w.price 3 ≤ insolventWorld.price 3) (t : Address) :
    w.price t ≤ insolventWorld.price t := by
  rcases eq_or_ne t 3 with rfl | hne
  · exact hthree
  · have hnone : insolventWorld.s_priceFeeds t = 0 := Function.update_of_ne hne _ _
    rw [World.price, World.round, hfeeds, if_pos hnone]
    exact Nat.zero_le _

/-- Somebody tries, the price goes down further, and time passes. -/
def insolventRest : List Action :=
  [.call 11 (.engine (.liquidate 3 10 50)), .report 4 (sampleRound (4 * 10 ^ 7)), .elapse 60]

theorem bad_debt_stays_crash :
    insolventWorld.s_DSCMinted 10 = 50 ∧
    ∀ d, ¬ Succeeds (liquidate sampleDeployment 11 3 10 d
      (run (step sampleDeployment) insolventWorld insolventRest)) := by
  have hreach : Reachable sampleDeployment insolventWorld :=
    ⟨[3], [4], sampleWorld, insolventRun, sampleWorld_deployed,
      ⟨⟨by decide, by decide⟩, trivial, trivial⟩, rfl⟩
  have hbad : insolventWorld.BadDebt 10 := by
    intro t ht
    obtain rfl : t = 3 := List.mem_singleton.mp ht
    decide
  have halong : Along (step sampleDeployment) (fun x a => a.FromOutside sampleDeployment ∧
      a.NotBy 10 ∧ ∀ t, (step sampleDeployment x a).price t ≤ insolventWorld.price t)
      insolventWorld insolventRest :=
    ⟨⟨⟨by decide, by decide⟩, show (11 : Address) ≠ 10 by decide,
        price_insolventWorld rfl (by decide)⟩,
      ⟨trivial, trivial, price_insolventWorld rfl (by decide)⟩,
      ⟨trivial, trivial, price_insolventWorld rfl (by decide)⟩, trivial⟩
  exact ⟨by decide, fun d => (bad_debt_stays hreach hbad halong).2.2 11 3 d⟩

end Stablecoin

end UpdraftContracts

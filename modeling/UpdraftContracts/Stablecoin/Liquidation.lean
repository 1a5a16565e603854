import Mathlib.Algebra.Order.Field.Rat
import Mathlib.Tactic.Linarith
import UpdraftContracts.Stablecoin.Backing

/-!
# Which positions can be liquidated

`liquidate` takes collateral of one kind only, and demands that what is left of the position be
debt free or strictly above the minimum health factor. A position spread over several tokens may
be worth more than its debt and the bonus, and still no call may liquidate it.

No arithmetic stands in the way. A debt was once half of what a health check could scale, so it
can be scaled itself, and all amounts a liquidation computes are smaller.

## Main results

* `Reachable.debtsFit` — debts are small
* `liquidate_succeeds_iff` — exactly when a liquidation goes through
* `liquidatable` — one token worth the debt and the bonus is enough
* `liquidation_payout` — the liquidator gets 110% of the covered debt, rounded down a little
* `spread_position_stuck` — the same value spread over two tokens is not
-/

namespace UpdraftContracts

open Evm

namespace Stablecoin

open DSCEngine

variable {D : Deployment} {w w' : World} {sender u t : Address} {d n m : ℕ}

/-! ## Debts are small -/

/-- Every debt can be scaled by `PRECISION`. -/
def DebtsFit (w : World) : Prop := ∀ u, w.s_DSCMinted u * PRECISION < uint256Size

theorem mintDSC_debt_fits (h : mintDSC D sender m w = .ok w') :
    w'.s_DSCMinted sender * PRECISION < uint256Size := by
  obtain ⟨hm, -, -, ⟨⟨-, -, hfits⟩, hdebt⟩, -, -, -, rfl⟩ := mintDSC_eq_ok.mp h
  set w₁ := w.setMinted sender (w.s_DSCMinted sender + m) with hw₁
  have hne : w₁.s_DSCMinted sender ≠ 0 := by
    rw [hw₁, World.minted_setMinted, if_pos rfl]
    omega
  have hvalue := (hfits hne).2
  rw [threshold_eq] at hvalue
  calc w₁.s_DSCMinted sender * PRECISION
      ≤ w₁.collateralValue sender / 2 * PRECISION := Nat.mul_le_mul_right _ (by omega)
    _ < uint256Size := hvalue

theorem burnDSC_internal_debt_le {src : Address} {b : ℕ} (h : _burnDSC D u src b w = .ok w') :
    w'.s_DSCMinted u ≤ w.s_DSCMinted u := by
  obtain ⟨-, -, -, -, -, rfl⟩ := burnDSC_internal_eq_ok.mp h
  rw [World.minted_setLedger, World.minted_setMinted, if_pos rfl]
  exact Nat.sub_le _ _

theorem redeemCollateral_internal_debt {src dst : Address} {a : ℕ}
    (h : _redeemCollateral D src dst t a w = .ok w') : w'.s_DSCMinted = w.s_DSCMinted := by
  obtain ⟨-, L, -, rfl⟩ := redeemCollateral_internal_eq_ok.mp h
  rfl

/-- A call that raises a debt leaves one that fits. -/
theorem EngineCall.debt_le_or_fits {c : EngineCall} (h : c.exec D sender w = .ok w')
    (v : Address) :
    w'.s_DSCMinted v ≤ w.s_DSCMinted v ∨ w'.s_DSCMinted v * PRECISION < uint256Size := by
  rcases eq_or_ne v (c.target sender) with rfl | hv
  · cases c with
    | depositCollateralAndMintDSC t a m =>
      obtain ⟨w₁, -, hmint⟩ := depositCollateralAndMintDSC_eq_ok.mp h
      exact Or.inr (mintDSC_debt_fits hmint)
    | depositCollateral t a =>
      obtain ⟨-, -, -, -, L, -, rfl⟩ := depositCollateral_eq_ok.mp h
      exact Or.inl le_rfl
    | redeemCollateralForDSC t a b =>
      obtain ⟨-, -, w₁, hburn, hredeem⟩ := redeemCollateralForDSC_eq_ok.mp h
      rw [redeemCollateral_internal_debt (redeemCollateral_iff_internal.mp hredeem).2.2.2.1]
      exact Or.inl (burnDSC_internal_debt_le (burnDSC_iff_internal.mp hburn).2.2.1)
    | redeemCollateral t a =>
      rw [redeemCollateral_internal_debt (redeemCollateral_iff_internal.mp h).2.2.2.1]
      exact Or.inl le_rfl
    | mintDSC m => exact Or.inr (mintDSC_debt_fits h)
    | burnDSC b => exact Or.inl (burnDSC_internal_debt_le (burnDSC_iff_internal.mp h).2.2.1)
    | liquidate t u d =>
      obtain ⟨-, -, -, -, -, T, -, -, -, w₁, hredeem, hburn, -, -⟩ := liquidate_eq_ok.mp h
      have hle := burnDSC_internal_debt_le hburn
      rw [redeemCollateral_internal_debt hredeem] at hle
      exact Or.inl hle
  · exact Or.inl (EngineCall.samePosition h hv).minted.le

/-- Every step keeps debts that can be scaled. -/
theorem debtsFit_step {a : Action} (ha : a.FromOutside D) (hw : Sane D w) (hfit : DebtsFit w) :
    DebtsFit (step D w a) := by
  cases a with
  | elapse n => exact hfit
  | report f r => exact hfit
  | call sender c =>
    refine settle_induction hfit fun w' h => ?_
    cases c with
    | engine c =>
      intro v
      rcases EngineCall.debt_le_or_fits h v with hle | hlt
      · exact lt_of_le_of_lt (Nat.mul_le_mul_right _ hle) (hfit v)
      · exact hlt
    | coin c =>
      obtain ⟨L, rfl, -⟩ := CoinCall.exec_outside ha.1 hw h
      exact hfit
    | token t c =>
      obtain ⟨L, rfl, -⟩ := TokenCall.exec_outside ha.1 hw h
      exact hfit

theorem Reachable.debtsFit (h : Reachable D w) : DebtsFit w := by
  obtain ⟨tokens, feeds, w₀, as, hdep, halong, rfl⟩ := h
  obtain ⟨-, -, -, -, -, hdebts⟩ := hdep.inv
  have hstart : DebtsFit w₀ := fun u => by
    rw [hdebts, Nat.zero_mul]
    decide
  exact (run_invariant (P := fun w : World => Invariant D w ∧ DebtsFit w)
    (fun w a ha hw => ⟨invariant_step ha hw.1, debtsFit_step ha hw.1.toSane hw.2⟩)
    halong ⟨hdep.invariant, hstart⟩).2

/-! ## What a liquidation takes and leaves -/

/-- The collateral of kind `t` that goes to whoever covers `d` of a debt. -/
def World.seizure (w : World) (t : Address) (d : ℕ) : ℕ :=
  seized (d * PRECISION / (w.price t * ADDITIONAL_FEED_PRECISION))

/-- The position of `u` after that. -/
def World.afterLiquidation (w : World) (u t : Address) (d : ℕ) : World :=
  (w.setDeposited u t (w.s_collateralDeposited u t - w.seizure t d)).setMinted u
    (w.s_DSCMinted u - d)

theorem price_ne_zero (h : w.GoodFeed t) : w.price t ≠ 0 := by
  obtain ⟨r, hr, -, hpos⟩ := h
  rw [World.price_of_round hr]
  omega

theorem readableFeed_of_good (h : w.GoodFeed t)
    (hfits : w.price t * ADDITIONAL_FEED_PRECISION < uint256Size) : ReadableFeed w t := by
  obtain ⟨r, hr, hfresh, hpos⟩ := h
  rw [World.price_of_round hr, toNat_toInt_of_nonneg hpos.le] at hfits
  exact ⟨r, hr, hfresh, hfits⟩

/-- A liquidation takes the amount with its bonus from one deposit. -/
theorem liquidate_seizes (h : liquidate D sender t u d w = .ok w') :
    w.seizure t d ≤ w.s_collateralDeposited u t ∧
      w'.s_collateralDeposited u t = w.s_collateralDeposited u t - w.seizure t d := by
  obtain ⟨-, -, -, -, -, tokens, htok, -, -, w₁, hredeem, hburn, -, -⟩ := liquidate_eq_ok.mp h
  obtain ⟨-, -, -, rfl⟩ := getTokenAmountFromUSD_eq_ok.mp htok
  obtain ⟨hcover, L, -, rfl⟩ := redeemCollateral_internal_eq_ok.mp hredeem
  obtain ⟨-, -, -, -, -, rfl⟩ := burnDSC_internal_eq_ok.mp hburn
  refine ⟨hcover, ?_⟩
  simp [World.deposited_setDeposited, World.seizure]

/-- The amounts a liquidation computes fit if the covered debt can be scaled. -/
theorem seized_fits (hprice : w.price t ≠ 0) (hd : d * PRECISION < uint256Size) :
    d * PRECISION / (w.price t * ADDITIONAL_FEED_PRECISION) * LIQUIDATION_BONUS < uint256Size ∧
      w.seizure t d < uint256Size := by
  have hle : d * PRECISION / (w.price t * ADDITIONAL_FEED_PRECISION) * ADDITIONAL_FEED_PRECISION
      ≤ d * PRECISION := by
    calc d * PRECISION / (w.price t * ADDITIONAL_FEED_PRECISION) * ADDITIONAL_FEED_PRECISION
        ≤ d * PRECISION / (w.price t * ADDITIONAL_FEED_PRECISION)
            * (w.price t * ADDITIONAL_FEED_PRECISION) :=
          Nat.mul_le_mul_left _ (Nat.le_mul_of_pos_left _ (Nat.pos_of_ne_zero hprice))
      _ ≤ d * PRECISION := Nat.div_mul_le_self _ _
  rw [World.seizure, seized]
  generalize d * PRECISION / (w.price t * ADDITIONAL_FEED_PRECISION) = tokens at *
  simp only [ADDITIONAL_FEED_PRECISION, LIQUIDATION_BONUS, LIQUIDATION_PRECISION] at *
  omega

/-- A deposit worth the debt and the bonus covers what a full liquidation takes. -/
theorem seizure_le_of_value (hprice : w.price t ≠ 0) (h : 11 * d ≤ 10 * w.usdValue t n) :
    w.seizure t d ≤ n := by
  rw [World.usdValue] at h
  rw [World.seizure, seized]
  have hP : 0 < w.price t * ADDITIONAL_FEED_PRECISION :=
    Nat.mul_pos (Nat.pos_of_ne_zero hprice) (by decide)
  generalize w.price t * ADDITIONAL_FEED_PRECISION = P at *
  have hvalue : P * n / PRECISION * PRECISION ≤ P * n := Nat.div_mul_le_self _ _
  have htokens : d * PRECISION / P * P ≤ d * PRECISION := Nat.div_mul_le_self _ _
  generalize d * PRECISION / P = tokens at *
  have hmul : P * (11 * tokens) ≤ P * (10 * n) :=
    calc P * (11 * tokens) = 11 * (tokens * P) := by ring
      _ ≤ 11 * (d * PRECISION) := Nat.mul_le_mul_left _ htokens
      _ = 11 * d * PRECISION := by ring
      _ ≤ 10 * (P * n / PRECISION) * PRECISION := Nat.mul_le_mul_right _ h
      _ = 10 * (P * n / PRECISION * PRECISION) := by ring
      _ ≤ 10 * (P * n) := Nat.mul_le_mul_left _ hvalue
      _ = P * (10 * n) := by ring
  have hle := Nat.le_of_mul_le_mul_left hmul hP
  simp only [LIQUIDATION_BONUS, LIQUIDATION_PRECISION]
  omega

theorem healthFactorFits_mono {debt debt' value value' : ℕ} (h : HealthFactorFits debt value)
    (hdebt : debt' ≤ debt) (hvalue : value' ≤ value) : HealthFactorFits debt' value' := by
  intro hne
  obtain ⟨h₁, h₂⟩ := h (by omega)
  rw [threshold_eq] at h₂ ⊢
  exact ⟨lt_of_le_of_lt (Nat.mul_le_mul_right _ hvalue) h₁,
    lt_of_le_of_lt (Nat.mul_le_mul_right _ (Nat.div_le_div_right hvalue)) h₂⟩

/-- A position that can be valued still can when a deposit shrinks. -/
theorem valuable_setDeposited (h : Valuable w u) (hn : n ≤ w.s_collateralDeposited u t) :
    Valuable (w.setDeposited u t n) u := by
  have hdeposited : ∀ t', (w.setDeposited u t n).s_collateralDeposited u t'
      ≤ w.s_collateralDeposited u t' := fun t' => by
    conv_rhs => rw [← setDeposited_self (w := w) (u := u) (t := t)]
    exact deposited_setDeposited_mono hn t'
  have hvalue : (w.setDeposited u t n).collateralValue u ≤ w.collateralValue u := by
    conv_rhs => rw [← setDeposited_self (w := w) (u := u) (t := t)]
    exact collateralValue_setDeposited_mono hn
  obtain ⟨hfeeds, hlt, hfits⟩ := h
  refine ⟨fun t' ht' => ⟨(hfeeds t' ht').1, ?_⟩, lt_of_le_of_lt hvalue hlt,
    healthFactorFits_mono hfits le_rfl hvalue⟩
  exact lt_of_le_of_lt (Nat.mul_le_mul_left _ (hdeposited t')) (hfeeds t' ht').2

/-- Nor does a smaller debt get in the way. -/
theorem valuable_setMinted (h : Valuable w u) (hm : m ≤ w.s_DSCMinted u) :
    Valuable (w.setMinted u m) u := by
  refine ⟨h.1, h.2.1, healthFactorFits_mono h.2.2 ?_ le_rfl⟩
  rw [World.minted_setMinted, if_pos rfl]
  exact hm

/-- What a liquidation that goes through has shown about the position. -/
theorem liquidate_needs (h : liquidate D sender t u d w = .ok w') :
    w.s_priceFeeds t ≠ 0 ∧ d ≤ w.s_DSCMinted u ∧
      w.seizure t d ≤ w.s_collateralDeposited u t ∧
      MIN_HEALTH_FACTOR < (w.afterLiquidation u t d).healthFactor u := by
  obtain ⟨ht, -, -, -, -, tokens, htok, -, -, w₁, hredeem, hburn, -, hgood⟩ := liquidate_eq_ok.mp h
  obtain ⟨-, -, -, rfl⟩ := getTokenAmountFromUSD_eq_ok.mp htok
  obtain ⟨hcover, L, -, rfl⟩ := redeemCollateral_internal_eq_ok.mp hredeem
  obtain ⟨hdebt, -, -, -, -, rfl⟩ := burnDSC_internal_eq_ok.mp hburn
  exact ⟨ht, hdebt, hcover, hgood⟩

/-- **When a liquidation goes through.** The seized collateral is covered by the deposit of that
one token, and what is left of the position is strictly above the minimum. -/
theorem liquidate_succeeds_iff (hw : Invariant D w) (hfit : DebtsFit w)
    (hstd : (D.erc20 t).Standard) (hs : sender ≠ D.engine) (hs₀ : sender ≠ 0)
    (hval : Valuable w u) (hlow : w.collateralValue u < 2 * w.s_DSCMinted u)
    (ht : w.s_priceFeeds t ≠ 0) (hprice : w.price t ≠ 0) (hd : 0 < d)
    (hdebt : d ≤ w.s_DSCMinted u)
    (hallow : d ≤ (w.ledgers D.i_DSC).allowance sender D.engine)
    (hbal : d ≤ (w.ledgers D.i_DSC).balance sender) :
    Succeeds (liquidate D sender t u d w) ↔
      w.seizure t d ≤ w.s_collateralDeposited u t ∧
        MIN_HEALTH_FACTOR < (w.afterLiquidation u t d).healthFactor u := by
  constructor
  · rintro ⟨w', h⟩
    exact (liquidate_needs h).2.2
  · rintro ⟨hcover, hgood⟩
    have hscale : d * PRECISION < uint256Size :=
      lt_of_le_of_lt (Nat.mul_le_mul_right _ hdebt) (hfit u)
    obtain ⟨hbonus, hseized⟩ := seized_fits hprice hscale
    have hread := (hval.1 t (hw.listed t ht)).1
    have hpay := hw.transfer_ok hstd hs₀ hcover
    have hredeem : _redeemCollateral D u sender t (w.seizure t d) w = .ok _ :=
      redeemCollateral_internal_eq_ok.mpr ⟨hcover, _, hpay, rfl⟩
    have hburn : ∃ w', _burnDSC D u sender d ((w.setDeposited u t
        (w.s_collateralDeposited u t - w.seizure t d)).setLedger t
          ((w.ledgers t).move D.engine sender (w.seizure t d))) = .ok w' := by
      refine ⟨_, burnDSC_internal_eq_ok.mpr ⟨hdebt, hw.owner, hs₀, ?_, ?_, rfl⟩⟩
      · rw [World.ledgers_setLedger]
        split
        · next heq => rwa [Ledger.allowance_move, ← heq]
        · exact hallow
      · rw [World.ledgers_setLedger]
        split
        · next heq =>
          rw [Ledger.balance_move (hstd.transfer_true hpay).1, if_neg hs, Nat.sub_zero, ← heq]
          exact hbal.trans (Nat.le_add_right _ _)
        · exact hbal
    obtain ⟨w', hburn⟩ := hburn
    have hw' := (burnDSC_internal_eq_ok.mp hburn).2.2.2.2.2
    refine ⟨w', liquidate_eq_ok.mpr ⟨ht, hd, hw.unlocked, hval, hlow, _,
      getTokenAmountFromUSD_eq_ok.mpr ⟨hread, hscale, hprice, rfl⟩, hbonus, hseized, _, hredeem,
      hburn, ?_, ?_⟩⟩
    · rw [hw']
      exact valuable_setMinted (valuable_setDeposited hval (Nat.sub_le _ _)) (Nat.sub_le _ d)
    · rw [hw']
      exact hgood

/-- After a full liquidation there is no debt. -/
theorem healthFactor_afterLiquidation_full :
    (w.afterLiquidation u t (w.s_DSCMinted u)).healthFactor u = uint256Max := by
  rw [World.healthFactor, World.afterLiquidation, World.minted_setMinted, if_pos rfl, Nat.sub_self,
    healthFactorOf, if_pos rfl]

/-- **Liquidation.** In a reachable state with fresh positive prices let `u` be below the minimum
health factor, and let `sender` hold and have approved as many coins as `u` owes. A liquidation of
part or all of the debt goes through exactly when the deposit of the one token covers what is
seized and what is left of the position is strictly above the minimum. In particular, if one token
of the position alone is worth the debt and a tenth more, the whole debt can be liquidated. -/
theorem liquidatable (hreach : Reachable D w)
    (hstd : ∀ t, w.s_priceFeeds t ≠ 0 → (D.erc20 t).Standard)
    (hfeeds : ∀ t ∈ w.s_collateralTokens, w.GoodFeed t) {healthFactor : ℕ}
    (hhealth : _healthFactor u w = .ok healthFactor) (hlow : healthFactor < MIN_HEALTH_FACTOR)
    (hs : sender ≠ D.engine) (hs₀ : sender ≠ 0)
    (hallow : w.s_DSCMinted u ≤ (w.ledgers D.i_DSC).allowance sender D.engine)
    (hbal : w.s_DSCMinted u ≤ (w.ledgers D.i_DSC).balance sender) :
    (∀ t d, w.s_priceFeeds t ≠ 0 → 0 < d → d ≤ w.s_DSCMinted u →
      (Succeeds (liquidate D sender t u d w) ↔
        w.seizure t d ≤ w.s_collateralDeposited u t ∧
          MIN_HEALTH_FACTOR < (w.afterLiquidation u t d).healthFactor u)) ∧
    ∀ t, w.s_priceFeeds t ≠ 0 →
      11 * w.s_DSCMinted u ≤ 10 * w.usdValue t (w.s_collateralDeposited u t) →
      0 < w.s_DSCMinted u ∧ Succeeds (liquidate D sender t u (w.s_DSCMinted u) w) := by
  have hinv := hreach.invariant
  obtain ⟨hval, rfl⟩ := healthFactor_eq_ok.mp hhealth
  have hvalue : w.collateralValue u < 2 * w.s_DSCMinted u :=
    not_le.mp (mt minHealthFactor_le_healthFactor.mpr (not_le.mpr hlow))
  have hiff : ∀ t d, w.s_priceFeeds t ≠ 0 → 0 < d → d ≤ w.s_DSCMinted u →
      (Succeeds (liquidate D sender t u d w) ↔
        w.seizure t d ≤ w.s_collateralDeposited u t ∧
          MIN_HEALTH_FACTOR < (w.afterLiquidation u t d).healthFactor u) :=
    fun t d ht hd hdebt => liquidate_succeeds_iff hinv hreach.debtsFit (hstd t ht) hs hs₀ hval
      hvalue ht (price_ne_zero (hfeeds t (hinv.listed t ht))) hd hdebt (hdebt.trans hallow)
      (hdebt.trans hbal)
  have hpos : 0 < w.s_DSCMinted u := by omega
  refine ⟨hiff, fun t ht hworth => ⟨hpos, (hiff t _ ht hpos le_rfl).mpr ⟨?_, ?_⟩⟩⟩
  · exact seizure_le_of_value (price_ne_zero (hfeeds t (hinv.listed t ht))) hworth
  · rw [healthFactor_afterLiquidation_full]
    decide

theorem liquidatable_underwater :
    0 < underwaterWorld.s_DSCMinted 10 ∧
    Succeeds (liquidate sampleDeployment 11 3 10 (underwaterWorld.s_DSCMinted 10)
      underwaterWorld) := by
  have hfeeds : ∀ t ∈ underwaterWorld.s_collateralTokens, underwaterWorld.GoodFeed t := by
    intro t ht
    obtain rfl : t = 3 := List.mem_singleton.mp ht
    exact ⟨_, rfl, ⟨by decide, by decide⟩, by decide⟩
  have hhealth : _healthFactor 10 underwaterWorld = .ok (9 * 10 ^ 17) := by decide
  exact (liquidatable underwaterWorld_reachable (fun t _ => sampleDeployment_standard t) hfeeds
    hhealth (by decide) (by decide) (by decide) (by decide) (by decide)).2 3 (by decide) (by decide)

/-! ## What the liquidator gets

A debt is turned into tokens, the bonus is added, and to value the result it is turned back into
dollars. All three divisions round down. -/

section Payout

variable {P d tokens value : ℕ}

/-- Ten times the seizure is eleven times the tokens, but for at most nine. -/
theorem seized_bounds (tokens : ℕ) :
    10 * seized tokens ≤ 11 * tokens ∧ 11 * tokens ≤ 10 * seized tokens + 9 := by
  simp only [seized, LIQUIDATION_BONUS, LIQUIDATION_PRECISION]
  omega

/-- What is seized is worth at most the debt with a tenth on top. -/
theorem seized_worth_le (htokens : tokens * P ≤ d * PRECISION) :
    10 * (P * seized tokens) ≤ 11 * d * PRECISION := by
  calc 10 * (P * seized tokens) = P * (10 * seized tokens) := by ring
    _ ≤ P * (11 * tokens) := Nat.mul_le_mul_left _ (seized_bounds tokens).1
    _ = 11 * (tokens * P) := by ring
    _ ≤ 11 * (d * PRECISION) := Nat.mul_le_mul_left _ htokens
    _ = 11 * d * PRECISION := by ring

theorem payout_le (htokens : tokens * P ≤ d * PRECISION)
    (hvalue : value * PRECISION ≤ P * seized tokens) : 10 * value ≤ 11 * d := by
  refine Nat.le_of_mul_le_mul_right ?_ (by decide : 0 < PRECISION)
  calc 10 * value * PRECISION = 10 * (value * PRECISION) := by ring
    _ ≤ 10 * (P * seized tokens) := Nat.mul_le_mul_left _ hvalue
    _ ≤ 11 * d * PRECISION := seized_worth_le htokens

theorem lt_payout (htokens : d * PRECISION < (tokens + 1) * P)
    (hvalue : P * seized tokens < (value + 1) * PRECISION) :
    11 * d * PRECISION < 10 * (value + 1) * PRECISION + 20 * P := by
  calc 11 * d * PRECISION = 11 * (d * PRECISION) := by ring
    _ < 11 * ((tokens + 1) * P) := by omega
    _ = P * (11 * tokens + 11) := by ring
    _ ≤ P * (10 * seized tokens + 20) := by
        have hseized := (seized_bounds tokens).2
        exact Nat.mul_le_mul_left _ (by omega)
    _ = 10 * (P * seized tokens) + 20 * P := by ring
    _ ≤ 10 * ((value + 1) * PRECISION) + 20 * P := by omega
    _ = 10 * (value + 1) * PRECISION + 20 * P := by ring

end Payout

/-- **Payout arithmetic.** Let `tokens` be worth a debt `d` at a price `P` with eighteen decimals.
What `liquidate` seizes for it is worth at most `11 * d / 10`, and more than
`11 * d / 10 - 2 * P / 10 ^ 18 - 1`. A deposit worth `11 * d / 10` covers it. -/
theorem liquidation_payout {tokens value deposit worth : ℕ}
    (htokens : getTokenAmountFromUSD t d w = .ok tokens)
    (hvalue : getUSDValue t (seized tokens) w = .ok value)
    (hworth : getUSDValue t deposit w = .ok worth) :
    value ≤ 11 * d / 10 ∧
    (11 * d / 10 - 2 * (w.price t * 10 ^ 10) / 10 ^ 18 - 1 : ℚ) < value ∧
    ((11 * d / 10 : ℚ) ≤ worth → seized tokens ≤ deposit) ∧
    ∀ D sender u w', liquidate D sender t u d w = .ok w' →
      seized tokens ≤ w.s_collateralDeposited u t ∧
      w'.s_collateralDeposited u t = w.s_collateralDeposited u t - seized tokens := by
  obtain ⟨-, -, hprice, rfl⟩ := getTokenAmountFromUSD_eq_ok.mp htokens
  obtain ⟨-, -, rfl⟩ := getUSDValue_eq_ok.mp hvalue
  obtain ⟨-, -, rfl⟩ := getUSDValue_eq_ok.mp hworth
  refine ⟨?_, ?_, fun hcovers => ?_, fun D sender u w' hliquidate => ?_⟩
  · have hle : 10 * w.usdValue t (seized _) ≤ 11 * d :=
      payout_le (Nat.div_mul_le_self _ _) (Nat.div_mul_le_self _ _)
    omega
  · have hP : 0 < w.price t * ADDITIONAL_FEED_PRECISION :=
      Nat.mul_pos (Nat.pos_of_ne_zero hprice) (by decide)
    have hlt : 11 * d * PRECISION < 10 * (w.usdValue t (seized _) + 1) * PRECISION +
        20 * (w.price t * ADDITIONAL_FEED_PRECISION) :=
      lt_payout ((Nat.div_lt_iff_lt_mul hP).mp (Nat.lt_succ_self _))
        ((Nat.div_lt_iff_lt_mul (by decide)).mp (Nat.lt_succ_self _))
    have hcast := Nat.cast_lt (α := ℚ) |>.mpr hlt
    simp only [PRECISION, ADDITIONAL_FEED_PRECISION] at hcast ⊢
    push_cast at hcast
    linarith
  · refine seizure_le_of_value hprice ?_
    have hcast : (11 * d : ℚ) ≤ 10 * w.usdValue t deposit := by linarith
    exact_mod_cast hcast
  · exact liquidate_seizes hliquidate

/-- At a price of 1.5 dollars a debt of 50 buys 33 tokens. With the bonus 36 are seized, which are
worth 54; a deposit of 60 covers them. -/
theorem liquidation_payout_underwater :
    54 ≤ 11 * 50 / 10 ∧
    (11 * 50 / 10 - 2 * (underwaterWorld.price 3 * 10 ^ 10) / 10 ^ 18 - 1 : ℚ) < (54 : ℕ) ∧
    seized 33 ≤ 60 := by
  have htokens : getTokenAmountFromUSD 3 50 underwaterWorld = .ok 33 := by decide
  have hvalue : getUSDValue 3 (seized 33) underwaterWorld = .ok 54 := by decide
  have hworth : getUSDValue 3 60 underwaterWorld = .ok 90 := by decide
  obtain ⟨hle, hlt, hcovers, -⟩ := liquidation_payout htokens hvalue hworth
  exact ⟨hle, by exact_mod_cast hlt, hcovers (by norm_num)⟩

/-! ## A position that no call can liquidate -/

/-- Two collateral tokens, both worth two dollars. -/
def twoTokenWorld : World :=
  registerTokens [(3, 4), (5, 6)]
    (sampleGenesis (fun t => if t = 3 ∨ t = 5 then sampleLedger else Ledger.empty)
      (fun f => if f = 4 ∨ f = 6 then some (sampleRound (2 * 10 ^ 8)) else none))

theorem twoTokenWorld_deployed : Deployed sampleDeployment [3, 5] [4, 6] twoTokenWorld :=
  ⟨_, sampleGenesis_genesis fun _ s => sampleLedgers_allowance s, rfl⟩

/-- Account `10` deposits sixty units of each, borrows a hundred coins and hands them to account
`11`. Then both prices fall to one dollar. -/
def spreadRun : List Action :=
  [.call 10 (.engine (.depositCollateral 3 60)),
    .call 10 (.engine (.depositCollateralAndMintDSC 5 60 100)),
    .call 10 (.token 2 (.transfer 11 100)), .call 11 (.token 2 (.approve 1 100)),
    .report 4 (sampleRound (10 ^ 8)), .report 6 (sampleRound (10 ^ 8))]

/-- What that leaves. -/
def spreadWorld : World := run (step sampleDeployment) twoTokenWorld spreadRun

theorem spreadWorld_reachable : Reachable sampleDeployment spreadWorld := by
  refine ⟨[3, 5], [4, 6], twoTokenWorld, spreadRun, twoTokenWorld_deployed, ?_, rfl⟩
  exact ⟨⟨by decide, by decide⟩, ⟨by decide, by decide⟩, ⟨by decide, by decide⟩,
    ⟨by decide, by decide⟩, trivial, trivial, trivial⟩

theorem spreadWorld_seizure (ht : t = 3 ∨ t = 5) : spreadWorld.seizure t d = d + d / 10 := by
  have hprice : spreadWorld.price t = 10 ^ 8 := by
    rcases ht with rfl | rfl <;> decide
  have htokens : d * PRECISION / (10 ^ 8 * ADDITIONAL_FEED_PRECISION) = d :=
    Nat.mul_div_cancel d (by decide)
  rw [World.seizure, hprice, htokens, seized, LIQUIDATION_BONUS, LIQUIDATION_PRECISION]
  omega

theorem spreadWorld_usdValue (ht : t = 3 ∨ t = 5) : spreadWorld.usdValue t n = n := by
  have hprice : spreadWorld.price t = 10 ^ 8 := by
    rcases ht with rfl | rfl <;> decide
  rw [World.usdValue, hprice]
  exact Nat.mul_div_cancel_left n (by decide)

theorem spreadWorld_tokens : spreadWorld.s_collateralTokens = [3, 5] := by decide

theorem spreadWorld_deposited (ht : t = 3 ∨ t = 5) :
    spreadWorld.s_collateralDeposited 10 t = 60 := by
  rcases ht with rfl | rfl <;> decide

theorem spreadWorld_collateralValue (ht : t = 3 ∨ t = 5) :
    (spreadWorld.afterLiquidation 10 t d).collateralValue 10
      = 60 - spreadWorld.seizure t d + 60 := by
  rw [World.afterLiquidation, World.collateralValue_setMinted, collateralValue_setDeposited,
    spreadWorld_tokens, spreadWorld_deposited ht]
  simp only [List.map_cons, List.map_nil, List.sum_cons, List.sum_nil, Nat.add_zero,
    spreadWorld_usdValue (Or.inl rfl), spreadWorld_usdValue (Or.inr rfl),
    spreadWorld_deposited (Or.inl rfl), spreadWorld_deposited (Or.inr rfl)]
  have hne : (3 : Address) ≠ 5 := by decide
  rcases ht with rfl | rfl
  · rw [if_pos rfl, if_neg hne.symm]
  · rw [if_pos rfl, if_neg hne]
    omega

/-- The position is worth a hundred and twenty dollars against a debt of a hundred, and no call
liquidates it, whatever its token and amount. -/
theorem spread_position_stuck :
    Reachable sampleDeployment spreadWorld ∧
    (∀ t ∈ spreadWorld.s_collateralTokens, spreadWorld.GoodFeed t) ∧
    spreadWorld.s_DSCMinted 10 = 100 ∧
    _healthFactor 10 spreadWorld = .ok (6 * 10 ^ 17) ∧
    getAccountCollateralValue 10 spreadWorld = .ok 120 ∧
    (spreadWorld.ledgers 2).balance 11 = 100 ∧
    (spreadWorld.ledgers 2).allowance 11 1 = 100 ∧
    ¬ ∃ t d, Succeeds (liquidate sampleDeployment 11 t 10 d spreadWorld) := by
  refine ⟨spreadWorld_reachable, ?_, by decide, by decide, by decide, by decide, by decide, ?_⟩
  · intro t ht
    rw [spreadWorld_tokens] at ht
    rcases List.mem_pair.mp ht with rfl | rfl
    · exact ⟨_, rfl, ⟨by decide, by decide⟩, by decide⟩
    · exact ⟨_, rfl, ⟨by decide, by decide⟩, by decide⟩
  · rintro ⟨t, d, w', h⟩
    obtain ⟨hfeed, hdebt, hcover, hgood⟩ := liquidate_needs h
    have hlisted := spreadWorld_reachable.invariant.listed t hfeed
    rw [spreadWorld_tokens] at hlisted
    have ht : t = 3 ∨ t = 5 := List.mem_pair.mp hlisted
    have hminted : spreadWorld.s_DSCMinted 10 = 100 := by decide
    rw [World.healthFactor, spreadWorld_collateralValue ht, minHealthFactor_lt_iff,
      World.afterLiquidation, World.minted_setMinted, if_pos rfl, hminted] at hgood
    rw [spreadWorld_deposited ht] at hcover
    rw [hminted] at hdebt
    rw [spreadWorld_seizure ht] at hcover hgood
    simp only [MIN_HEALTH_FACTOR, PRECISION] at hgood
    omega

end Stablecoin

end UpdraftContracts

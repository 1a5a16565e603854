import Mathlib.Algebra.BigOperators.Ring.Finset
import UpdraftContracts.Evm.Rounding
import UpdraftContracts.Stablecoin.Custody
import UpdraftContracts.Stablecoin.Positions

/-!
# Backing, debt and custody along runs

The results about whole runs that rest on the agreement of the three ledgers.

While no positive answer of a feed falls, every position stays worth at least twice its debt:
calls keep it so and prices only help. Summed over all users, deposits are covered by what the
engine holds and debts cover the coins in existence, so the system as a whole is backed twice over.
The values of single positions are rounded down one by one; the value of the total is rounded
once, which only helps.

## Main results

* `backed_twice` — two dollars of collateral for every coin, in every state of such a run
* `supply_eq_debt_iff` — coins and debt agree exactly when nobody used `burnFrom`
* `engine_balance_eq` — what the engine holds, to the unit
-/

namespace UpdraftContracts

open Evm

namespace Stablecoin

open DSCEngine

variable {D : Deployment} {w w' w₀ : World} {tokens feeds : List Address} {as : List Action}

/-! ## Prices that do not fall -/

/-- The action does not lower a positive answer. -/
def Action.PriceKept (w : World) : Action → Prop
  | .report feed round => ∀ r, w.latestRound feed = some r → 0 < r.answer.toInt →
      r.answer.toInt ≤ round.answer.toInt
  | _ => True

theorem price_le_report {feed t : Address} {r : RoundData}
    (h : (Action.report feed r).PriceKept w) : w.price t ≤ (step D w (.report feed r)).price t := by
  cases hr : w.round t with
  | none => simp [World.price, hr]
  | some r₀ =>
    obtain ⟨hfeed, hr₀⟩ : w.s_priceFeeds t ≠ 0 ∧ w.latestRound (w.s_priceFeeds t) = some r₀ := by
      simpa [World.round] using hr
    rcases eq_or_ne (w.s_priceFeeds t) feed with rfl | hne
    · have hnew : (step D w (.report (w.s_priceFeeds t) r)).round t = some r := by
        simp [World.round, step, hfeed]
      have := h r₀ hr₀
      rw [World.price_of_round hr, World.price_of_round hnew]
      omega
    · have hsame : (step D w (.report feed r)).round t = some r₀ := by
        simpa [World.round, step, Function.update_of_ne hne] using ⟨hfeed, hr₀⟩
      rw [World.price_of_round hr, World.price_of_round hsame]

/-- Collateral is worth no less when no price falls. -/
theorem collateralValue_le_of_price_le {u : Address}
    (htok : w'.s_collateralTokens = w.s_collateralTokens)
    (hdep : w'.s_collateralDeposited = w.s_collateralDeposited) (hp : ∀ t, w.price t ≤ w'.price t) :
    w.collateralValue u ≤ w'.collateralValue u := by
  rw [World.collateralValue, World.collateralValue, htok, hdep]
  refine List.sum_le_sum fun t _ => Nat.div_le_div_right ?_
  exact Nat.mul_le_mul_right _ (Nat.mul_le_mul_right _ (hp t))

/-- Every position is worth at least twice its debt. -/
def AllHealthy (w : World) : Prop := ∀ u, MIN_HEALTH_FACTOR ≤ w.healthFactor u

/-- Every step keeps all positions healthy, if no price falls. -/
theorem allHealthy_step {a : Action} (ha : a.FromOutside D) (hp : a.PriceKept w) (hw : Sane D w)
    (hgood : AllHealthy w) : AllHealthy (step D w a) := by
  cases a with
  | elapse n => exact hgood
  | report f r =>
    intro u
    have h := minHealthFactor_le_healthFactor.mp (hgood u)
    exact minHealthFactor_le_healthFactor.mpr
      (h.trans (collateralValue_le_of_price_le rfl rfl fun t => price_le_report hp))
  | call sender c =>
    refine settle_induction hgood fun w' h => ?_
    cases c with
    | engine c => exact fun u => EngineCall.healthy h (hgood u)
    | coin c =>
      obtain ⟨L, rfl, -⟩ := CoinCall.exec_outside ha.1 hw h
      exact hgood
    | token t c =>
      obtain ⟨L, rfl, -⟩ := TokenCall.exec_outside ha.1 hw h
      exact hgood

/-! ## Summing over users -/

/-- What all users deposited is worth at most what the engine holds. -/
theorem sum_collateralValue_le (hw : Invariant D w) (hnodup : w.s_collateralTokens.Nodup)
    (hexact : ∀ t ∈ w.s_collateralTokens, (D.erc20 t).Exact) :
    ∑ u, w.collateralValue u
      ≤ ∑ t ∈ w.s_collateralTokens.toFinset, w.usdValue t ((w.ledgers t).balance D.engine) := by
  calc ∑ u, w.collateralValue u
      = ∑ u, ∑ t ∈ w.s_collateralTokens.toFinset, w.usdValue t (w.s_collateralDeposited u t) := by
        refine Finset.sum_congr rfl fun u _ => ?_
        rw [World.collateralValue, List.sum_toFinset _ hnodup]
    _ = ∑ t ∈ w.s_collateralTokens.toFinset, ∑ u, w.usdValue t (w.s_collateralDeposited u t) :=
        Finset.sum_comm
    _ ≤ ∑ t ∈ w.s_collateralTokens.toFinset, w.usdValue t (∑ u, w.s_collateralDeposited u t) := by
        refine Finset.sum_le_sum fun t _ => ?_
        rw [World.usdValue, Finset.mul_sum]
        exact sum_div_le_div_sum _ _ _
    _ ≤ ∑ t ∈ w.s_collateralTokens.toFinset, w.usdValue t ((w.ledgers t).balance D.engine) :=
        Finset.sum_le_sum fun t ht => World.usdValue_mono
          (hw.sum_deposited_le (hexact t (List.mem_toFinset.mp ht)))

/-- **Backed twice over.** Take any deployment with distinct, exact collateral tokens and any run
of calls by anyone in which no positive answer falls. At its end the collateral the engine holds
is worth at least two dollars for every coin in existence. -/
theorem backed_twice (hdep : Deployed D tokens feeds w₀) (hnodup : tokens.Nodup)
    (hexact : ∀ t ∈ tokens, (D.erc20 t).Exact)
    (h : Along (step D) (fun w a => a.FromOutside D ∧ a.PriceKept w) w₀ as) :
    2 * ((run (step D) w₀ as).ledgers D.i_DSC).totalSupply
      ≤ ∑ t ∈ tokens.toFinset, (run (step D) w₀ as).usdValue t
          (((run (step D) w₀ as).ledgers t).balance D.engine) := by
  obtain ⟨-, -, -, htokens, -, hdebts⟩ := hdep.inv
  have hstart : AllHealthy w₀ := fun u => by
    rw [minHealthFactor_le_healthFactor, hdebts]
    exact Nat.zero_le _
  obtain ⟨hinv, hgood, hlist⟩ := run_invariant
    (P := fun w : World => Invariant D w ∧ AllHealthy w ∧ w.s_collateralTokens = tokens)
    (fun w a ha hw => ⟨invariant_step ha.1 hw.1, allHealthy_step ha.1 ha.2 hw.1.toSane hw.2.1,
      (config_step ha.1 hw.1.toSane).2.trans hw.2.2⟩)
    h ⟨hdep.invariant, hstart, htokens⟩
  generalize run (step D) w₀ as = w at *
  have hcovered : (w.ledgers D.i_DSC).totalSupply ≤ ∑ u, w.s_DSCMinted u := by
    have := hinv.covered
    simp only [gap] at this
    omega
  calc 2 * (w.ledgers D.i_DSC).totalSupply
      ≤ 2 * ∑ u, w.s_DSCMinted u := Nat.mul_le_mul_left 2 hcovered
    _ = ∑ u, 2 * w.s_DSCMinted u := Finset.mul_sum _ _ _
    _ ≤ ∑ u, w.collateralValue u :=
        Finset.sum_le_sum fun u _ => minHealthFactor_le_healthFactor.mp (hgood u)
    _ ≤ ∑ t ∈ tokens.toFinset, w.usdValue t ((w.ledgers t).balance D.engine) := by
        rw [← hlist]
        exact sum_collateralValue_le hinv (hlist ▸ hnodup) (hlist ▸ hexact)

/-- A deposit, a mint, a rise of the price and a second mint. -/
def sampleRun : List Action :=
  [.call 10 (.engine (.depositCollateral 3 60)), .call 10 (.engine (.mintDSC 50)),
    .report 4 (sampleRound (3 * 10 ^ 8)), .call 10 (.engine (.mintDSC 40))]

theorem backed_twice_sample :
    ((run (step sampleDeployment) sampleWorld sampleRun).ledgers 2).totalSupply = 90 ∧
    2 * ((run (step sampleDeployment) sampleWorld sampleRun).ledgers 2).totalSupply
      ≤ ∑ t ∈ [(3 : Address)].toFinset,
        (run (step sampleDeployment) sampleWorld sampleRun).usdValue t
          (((run (step sampleDeployment) sampleWorld sampleRun).ledgers t).balance 1) := by
  refine ⟨by decide, backed_twice sampleWorld_deployed (by simp)
    (fun t _ => (sampleDeployment_standard t).toExact) ?_⟩
  refine ⟨⟨⟨by decide, by decide⟩, trivial⟩, ⟨⟨by decide, by decide⟩, trivial⟩,
    ⟨trivial, fun r hr _ => ?_⟩, ⟨⟨by decide, by decide⟩, trivial⟩, trivial⟩
  obtain rfl : sampleRound (2 * 10 ^ 8) = r := Option.some.inj hr
  decide

/-! ## Coins and debt

`burn` of the coin is for its owner, the engine, which reduces a debt by the same amount. The
inherited `burnFrom` is open to everybody, and with an allowance to oneself it burns one's own
coins. The debt behind them stays. -/

/-- The action is a `burnFrom` of a positive amount that balance and allowance cover. -/
def BurnsOutside (D : Deployment) (w : World) : Action → Prop
  | .call sender (.coin (.burnFrom account v)) =>
    0 < v ∧ account ≠ 0 ∧ v ≤ (w.ledgers D.i_DSC).allowance account sender ∧
      v ≤ (w.ledgers D.i_DSC).balance account
  | _ => False

theorem burnFrom_succeeds_iff {sender : Address} (account : Address) (v : ℕ) (hs : sender ≠ 0) :
    Succeeds (DecentralizedStableCoin.burnFrom D sender account v w) ↔
      account ≠ 0 ∧ v ≤ (w.ledgers D.i_DSC).allowance account sender ∧
        v ≤ (w.ledgers D.i_DSC).balance account := by
  constructor
  · rintro ⟨w', hburn⟩
    obtain ⟨hne, hallow, hbal, -⟩ := burnFrom_cases hburn
    exact ⟨hne, hallow, hbal⟩
  · rintro ⟨hne, hallow, hbal⟩
    simp only [Succeeds, DecentralizedStableCoin.burnFrom, bind_eq_ok, ofCallee_eq_ok, pure_eq_ok,
      D.dsc.burn_eq_some]
    exact ⟨_, _, D.dsc.spendAllowance_ok hne hs hallow, _,
      ⟨hne, by rwa [Ledger.balance_spend], rfl⟩, rfl⟩

theorem burnedOutside_eq_zero_iff {a : Action} (ha : a.FromOutside D) :
    burnedOutside D w a = 0 ↔ ¬ BurnsOutside D w a := by
  cases a with
  | elapse n => exact iff_of_true rfl id
  | report f r => exact iff_of_true rfl id
  | call sender c =>
    cases c with
    | engine c => exact iff_of_true rfl id
    | token t c => exact iff_of_true rfl id
    | coin c =>
      cases c with
      | burnFrom account v =>
        have hiff := burnFrom_succeeds_iff (D := D) (w := w) account v ha.2
        simp only [burnedOutside, CoinCall.burned, BurnsOutside, ← hiff]
        cases DecentralizedStableCoin.burnFrom D sender account v w with
        | ok w' => simp
        | error e => simp
      | _ => exact iff_of_true rfl id

/-- **Coins and debt.** At the end of a run from a deployment there are as many coins as debt
exactly when no step of the run burned coins through `burnFrom`. -/
theorem supply_eq_debt_iff (hdep : Deployed D tokens feeds w₀)
    (h : Along (step D) (fun _ a => a.FromOutside D) w₀ as) :
    ((run (step D) w₀ as).ledgers D.i_DSC).totalSupply
        = ∑ u, (run (step D) w₀ as).s_DSCMinted u ↔
      Along (step D) (fun w a => ¬ BurnsOutside D w a) w₀ as := by
  obtain ⟨hsane, hgap, -⟩ := hdep.inv
  have hrun := gap_run h hsane
  rw [hgap, Int.zero_add] at hrun
  calc _ ↔ gap D (run (step D) w₀ as) = 0 := by
        rw [gap]
        omega
    _ ↔ tally (step D) (burnedOutside D) w₀ as = 0 := by
        rw [hrun]
        exact Int.natCast_eq_zero
    _ ↔ _ := tally_eq_zero_iff.trans (along_congr h fun w a ha => burnedOutside_eq_zero_iff ha)

/-- Without coins burned by their holders, supply and debt are the same. -/
theorem supply_eq_debt_sample :
    ((run (step sampleDeployment) sampleWorld sampleRun).ledgers 2).totalSupply
      = ∑ u, (run (step sampleDeployment) sampleWorld sampleRun).s_DSCMinted u := by
  refine (supply_eq_debt_iff sampleWorld_deployed ?_).mpr ⟨id, id, id, id, trivial⟩
  exact ⟨⟨by decide, by decide⟩, ⟨by decide, by decide⟩, trivial, ⟨by decide, by decide⟩, trivial⟩

/-- Account `10` borrows fifty coins, approves itself and burns five of them. -/
def burnFromRun : List Action :=
  [.call 10 (.engine (.depositCollateral 3 60)), .call 10 (.engine (.mintDSC 50)),
    .call 10 (.token 2 (.approve 10 5)), .call 10 (.coin (.burnFrom 10 5))]

theorem supply_ne_debt_after_burnFrom :
    Deployed sampleDeployment [3] [4] sampleWorld ∧
    Along (step sampleDeployment) (fun _ a => a.FromOutside sampleDeployment) sampleWorld
      burnFromRun ∧
    ((run (step sampleDeployment) sampleWorld burnFromRun).ledgers 2).totalSupply = 45 ∧
    ∑ u, (run (step sampleDeployment) sampleWorld burnFromRun).s_DSCMinted u = 50 := by
  have halong : Along (step sampleDeployment) (fun _ a => a.FromOutside sampleDeployment)
      sampleWorld burnFromRun :=
    ⟨⟨by decide, by decide⟩, ⟨by decide, by decide⟩, ⟨by decide, by decide⟩,
      ⟨by decide, by decide⟩, trivial⟩
  have hsupply :
      ((run (step sampleDeployment) sampleWorld burnFromRun).ledgers 2).totalSupply = 45 := by
    decide
  have hburned : tally (step sampleDeployment) (burnedOutside sampleDeployment) sampleWorld
      burnFromRun = 5 := by decide
  refine ⟨sampleWorld_deployed, halong, hsupply, ?_⟩
  obtain ⟨hsane, hgap, -⟩ := sampleWorld_deployed.inv
  have hrun := gap_run halong hsane
  rw [hgap, hburned, gap] at hrun
  change _ - (((run (step sampleDeployment) sampleWorld burnFromRun).ledgers 2).totalSupply : ℤ) = _
    at hrun
  rw [hsupply] at hrun
  omega

/-! ## What the engine holds

The engine never runs short of a standard token: what it is asked to pay out was deposited, and what
was deposited is there. To say that no call fails for want of it, compare a state with another in
which the engine holds any other amounts. -/

/-- The engine can pay out what a user deposited. -/
theorem Invariant.transfer_ok (hw : Invariant D w) {t src dst : Address} {a : ℕ}
    (hstd : (D.erc20 t).Standard) (hdst : dst ≠ 0) (ha : a ≤ w.s_collateralDeposited src t) :
    (D.erc20 t).transfer (w.ledgers t) D.engine dst a
      = some (true, (w.ledgers t).move D.engine dst a) :=
  hstd.transfer_ok D.engine_ne_zero hdst (ha.trans (hw.deposited_le src hstd.toExact))

/-- The two states differ at most in token ledgers, and there at most in what the engine holds. -/
def SameButHoldings (D : Deployment) (w w' : World) : Prop :=
  ∃ ledgers : Address → Ledger Address, w' = { w with ledgers := ledgers } ∧
    ∀ t, (ledgers t).allowance = (w.ledgers t).allowance ∧
      ∀ a ≠ D.engine, (ledgers t).balance a = (w.ledgers t).balance a

theorem SameButHoldings.setLedger {t : Address} {L L' : Ledger Address}
    (h : SameButHoldings D w w') (hallow : L'.allowance = L.allowance)
    (hbal : ∀ a ≠ D.engine, L'.balance a = L.balance a) :
    SameButHoldings D (w.setLedger t L) (w'.setLedger t L') := by
  obtain ⟨ledgers, rfl, hledgers⟩ := h
  refine ⟨Function.update ledgers t L', rfl, fun t' => ?_⟩
  rw [World.ledgers_setLedger, Function.update_apply]
  split
  · exact ⟨hallow, hbal⟩
  · exact hledgers t'

theorem SameButHoldings.setDeposited {u t : Address} {n : ℕ} (h : SameButHoldings D w w') :
    SameButHoldings D (w.setDeposited u t n) (w'.setDeposited u t n) := by
  obtain ⟨ledgers, rfl, hledgers⟩ := h
  exact ⟨ledgers, rfl, hledgers⟩

theorem SameButHoldings.setMinted {u : Address} {n : ℕ} (h : SameButHoldings D w w') :
    SameButHoldings D (w.setMinted u n) (w'.setMinted u n) := by
  obtain ⟨ledgers, rfl, hledgers⟩ := h
  exact ⟨ledgers, rfl, hledgers⟩

theorem SameButHoldings.valuable_iff {u : Address} (h : SameButHoldings D w w') :
    Valuable w' u ↔ Valuable w u := by
  obtain ⟨ledgers, rfl, -⟩ := h
  exact Iff.rfl

theorem SameButHoldings.healthFactor {u : Address} (h : SameButHoldings D w w') :
    w'.healthFactor u = w.healthFactor u := by
  obtain ⟨ledgers, rfl, -⟩ := h
  rfl

theorem SameButHoldings.solvent_iff {u : Address} (h : SameButHoldings D w w') :
    Solvent w' u ↔ Solvent w u := by
  obtain ⟨ledgers, rfl, -⟩ := h
  exact Iff.rfl

/-- Paying back debt does not depend on what the engine holds. -/
theorem SameButHoldings.burnDSC_internal {u src : Address} {b : ℕ} {x : World}
    (hw : SameButHoldings D w w') (hsrc : src ≠ D.engine) (h : _burnDSC D u src b w' = .ok x) :
    ∃ y, _burnDSC D u src b w = .ok y ∧ SameButHoldings D y x := by
  obtain ⟨hb, howner, hne, hallow, hbal, rfl⟩ := burnDSC_internal_eq_ok.mp h
  obtain ⟨ledgers, hw', hledgers⟩ := hw
  have hsame : SameButHoldings D w w' := ⟨ledgers, hw', hledgers⟩
  obtain ⟨hallowance, hbalance⟩ := hledgers D.i_DSC
  subst hw'
  rw [hallowance] at hallow
  rw [hbalance src hsrc] at hbal
  refine ⟨_, burnDSC_internal_eq_ok.mpr ⟨hb, howner, hne, hallow, hbal, rfl⟩, ?_⟩
  refine hsame.setMinted.setLedger ?_ fun a ha => ?_
  · simp only [Ledger.allowance_burn, Ledger.spend, hallowance]
    split
    · exact hallowance
    · simp only [Ledger.approve, hallowance]
  · rw [Ledger.balance_burn (by rwa [Ledger.balance_spend, hbalance src hsrc]),
      Ledger.balance_burn (by rwa [Ledger.balance_spend]), Ledger.balance_spend,
      Ledger.balance_spend, hbalance a ha]

/-- What the engine pays out with other holdings it pays out with its own, since it has all
deposits. -/
theorem SameButHoldings.redeemCollateral_internal {src dst t : Address} {a : ℕ} {x : World}
    (hw : SameButHoldings D w w') (hinv : Invariant D w) (hstd : (D.erc20 t).Standard)
    (hdst : dst ≠ 0) (h : _redeemCollateral D src dst t a w' = .ok x) :
    ∃ y, _redeemCollateral D src dst t a w = .ok y ∧ SameButHoldings D y x := by
  obtain ⟨ha, L, hL, rfl⟩ := redeemCollateral_internal_eq_ok.mp h
  obtain ⟨hbal', rfl⟩ := hstd.transfer_true hL
  obtain ⟨ledgers, hw', hledgers⟩ := hw
  have hsame : SameButHoldings D w w' := ⟨ledgers, hw', hledgers⟩
  obtain ⟨hallowance, hbalance⟩ := hledgers t
  subst hw'
  have hpay := hinv.transfer_ok hstd hdst ha
  refine ⟨_, redeemCollateral_internal_eq_ok.mpr ⟨ha, _, hpay, rfl⟩, ?_⟩
  refine hsame.setDeposited.setLedger ?_ fun b hb => ?_
  · rw [Ledger.allowance_move, Ledger.allowance_move]
    exact hallowance
  · rw [Ledger.balance_move hbal', Ledger.balance_move (hstd.transfer_true hpay).1,
      hbalance b hb]

/-- The token a call takes out of the engine. -/
def EngineCall.payout : EngineCall → Option Address
  | .redeemCollateral t _ => some t
  | .redeemCollateralForDSC t _ _ => some t
  | .liquidate t _ _ => some t
  | _ => none

theorem SameButHoldings.burnDSC {sender : Address} {b : ℕ} {x : World}
    (hw : SameButHoldings D w w') (hs : sender ≠ D.engine) (h : burnDSC D sender b w' = .ok x) :
    ∃ y, burnDSC D sender b w = .ok y ∧ SameButHoldings D y x := by
  obtain ⟨hb, he, hburn, hsol⟩ := burnDSC_iff_internal.mp h
  obtain ⟨y, hy, hyx⟩ := hw.burnDSC_internal hs hburn
  obtain ⟨ledgers, rfl, -⟩ := hw
  exact ⟨y, burnDSC_iff_internal.mpr ⟨hb, he, hy, hyx.solvent_iff.mp hsol⟩, hyx⟩

theorem SameButHoldings.redeemCollateral {sender t : Address} {a : ℕ} {x : World}
    (hw : SameButHoldings D w w') (hinv : Invariant D w) (hstd : (D.erc20 t).Standard)
    (hs : sender ≠ 0) (h : redeemCollateral D sender t a w' = .ok x) :
    ∃ y, redeemCollateral D sender t a w = .ok y ∧ SameButHoldings D y x := by
  obtain ⟨ha, he, ht, hredeem, hsol⟩ := redeemCollateral_iff_internal.mp h
  obtain ⟨y, hy, hyx⟩ := hw.redeemCollateral_internal hinv hstd hs hredeem
  obtain ⟨ledgers, rfl, -⟩ := hw
  exact ⟨y, redeemCollateral_iff_internal.mpr ⟨ha, he, ht, hy, hyx.solvent_iff.mp hsol⟩, hyx⟩

/-- A payout that succeeds with some holdings of the engine succeeds with those it has. -/
theorem EngineCall.payout_succeeds {c : EngineCall} {sender t : Address} (hinv : Invariant D w)
    (hstd : (D.erc20 t).Standard) (hs : sender ≠ D.engine) (hs₀ : sender ≠ 0)
    (hc : c.payout = some t) (hw : SameButHoldings D w w')
    (h : Succeeds (c.exec D sender w')) : Succeeds (c.exec D sender w) := by
  obtain ⟨x, h⟩ := h
  cases c with
  | redeemCollateral t' a =>
    obtain rfl : t' = t := Option.some.inj hc
    obtain ⟨y, hy, -⟩ := hw.redeemCollateral hinv hstd hs₀ h
    exact ⟨y, hy⟩
  | redeemCollateralForDSC t' a b =>
    obtain rfl : t' = t := Option.some.inj hc
    obtain ⟨ha, ht, x₁, hburn, hredeem⟩ := redeemCollateralForDSC_eq_ok.mp h
    obtain ⟨y₁, hy₁, hyx₁⟩ := hw.burnDSC hs hburn
    have hinv₁ := (burnDSC_move hs hy₁).invariant hinv
    obtain ⟨y, hy, -⟩ := hyx₁.redeemCollateral hinv₁ hstd hs₀ hredeem
    obtain ⟨ledgers, rfl, -⟩ := hw
    exact ⟨y, redeemCollateralForDSC_eq_ok.mpr ⟨ha, ht, y₁, hy₁, hy⟩⟩
  | liquidate t' u d =>
    obtain rfl : t' = t := Option.some.inj hc
    obtain ⟨ht, hd, he, hval, hlow, tokens, htok, hmul, hadd, x₁, hredeem, hburn, hval', hgood⟩ :=
      liquidate_eq_ok.mp h
    obtain ⟨y₁, hy₁, hyx₁⟩ := hw.redeemCollateral_internal hinv hstd hs₀ hredeem
    obtain ⟨y, hy, hyx⟩ := hyx₁.burnDSC_internal hs hburn
    rw [hyx.valuable_iff] at hval'
    rw [hyx.healthFactor] at hgood
    obtain ⟨ledgers, rfl, -⟩ := hw
    exact ⟨y, liquidate_eq_ok.mpr
      ⟨ht, hd, he, hval, hlow, tokens, htok, hmul, hadd, y₁, hy₁, hy, hval', hgood⟩⟩
  | _ => exact absurd hc nofun

/-- **Custody.** At the end of every run the engine holds of an exact token what its users
deposited, what it held before it was constructed and what it was sent directly. So for a standard
token no redemption and no liquidation fails for want of it: one that succeeds with any other
holdings of the engine succeeds. -/
theorem engine_balance_eq {t : Address} (hdep : Deployed D tokens feeds w₀)
    (h : Along (step D) (fun _ a => a.FromOutside D) w₀ as) (hstd : (D.erc20 t).Standard) :
    ((run (step D) w₀ as).ledgers t).balance D.engine
      = ∑ u, (run (step D) w₀ as).s_collateralDeposited u t
        + ((w₀.ledgers t).balance D.engine + tally (step D) (directReceipt D t) w₀ as) ∧
    ∀ (sender : Address) (c : EngineCall) (w' : World), sender ≠ D.engine → sender ≠ 0 →
      c.payout = some t → SameButHoldings D (run (step D) w₀ as) w' →
      Succeeds (c.exec D sender w') → Succeeds (c.exec D sender (run (step D) w₀ as)) := by
  obtain ⟨hsane, -, hsurplus, -⟩ := hdep.inv
  have hinv : Invariant D (run (step D) w₀ as) :=
    run_invariant (fun _ _ ha hw => invariant_step ha hw) h hdep.invariant
  refine ⟨?_, fun sender c w' hs hs₀ hc hw => EngineCall.payout_succeeds hinv hstd hs hs₀ hc hw⟩
  have hrun := surplus_run h hsane hstd.toExact
  rw [hsurplus, surplus] at hrun
  omega

/-- Account `10` deposits sixty units, sends the engine seven more and redeems twenty. -/
def custodyRun : List Action :=
  [.call 10 (.engine (.depositCollateral 3 60)), .call 10 (.token 3 (.transfer 1 7)),
    .call 10 (.engine (.redeemCollateral 3 20))]

theorem engine_balance_sample :
    ((run (step sampleDeployment) sampleWorld custodyRun).ledgers 3).balance 1
      = ∑ u, (run (step sampleDeployment) sampleWorld custodyRun).s_collateralDeposited u 3
        + (0 + 7) ∧
    Succeeds (EngineCall.exec sampleDeployment 10 (.redeemCollateral 3 40)
      (run (step sampleDeployment) sampleWorld custodyRun)) := by
  have halong : Along (step sampleDeployment) (fun _ a => a.FromOutside sampleDeployment)
      sampleWorld custodyRun :=
    ⟨⟨by decide, by decide⟩, ⟨by decide, by decide⟩, ⟨by decide, by decide⟩, trivial⟩
  have hcustody := engine_balance_eq sampleWorld_deployed halong (sampleDeployment_standard 3)
  -- compare with an engine that holds a thousand units more
  have hricher : SameButHoldings sampleDeployment
      (run (step sampleDeployment) sampleWorld custodyRun)
      ((run (step sampleDeployment) sampleWorld custodyRun).setLedger 3
        (((run (step sampleDeployment) sampleWorld custodyRun).ledgers 3).mint 1 1000)) := by
    refine ⟨_, rfl, fun t => ?_⟩
    rw [Function.update_apply]
    split
    · next ht =>
      subst ht
      refine ⟨Ledger.allowance_mint, fun a ha => ?_⟩
      rw [Ledger.balance_mint (by decide), if_neg (show a ≠ 1 from ha), Nat.add_zero]
    · exact ⟨rfl, fun a _ => rfl⟩
  refine ⟨hcustody.1.trans (congrArg _ (by decide)), ?_⟩
  exact hcustody.2 10 _ _ (by decide) (by decide) rfl hricher (by decide)

end Stablecoin

end UpdraftContracts

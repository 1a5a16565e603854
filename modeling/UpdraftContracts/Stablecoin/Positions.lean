import UpdraftContracts.Stablecoin.System

/-!
# Positions and the calls that touch them

A user's position is what the engine recorded as deposited and owed. A call touches the position
of its sender, and `liquidate` that of its argument; everybody else's stays as it was, and so does
its value. What a call leaves behind for the position it touched is healthy if it was healthy
before, and for a liquidated one strictly healthy.

The second half is about feeds. Every call but `depositCollateral` values a position and so
reads every listed feed. A single bad one stops them all.

## Main results

* `call_keeps_health` — only prices make a position unhealthy
* `bad_feed_freezes` — a bad feed stops every call but `depositCollateral`
-/

namespace UpdraftContracts

open Evm

namespace Stablecoin

open DSCEngine

variable {D : Deployment} {w w' w'' : World} {sender u v t : Address} {n m : ℕ}

/-! ## Positions -/

/-- The position of `u`, and what it is worth, is the same in both states. -/
structure SamePosition (w w' : World) (u : Address) : Prop where
  deposited : w'.s_collateralDeposited u = w.s_collateralDeposited u
  minted : w'.s_DSCMinted u = w.s_DSCMinted u
  value : w'.collateralValue u = w.collateralValue u

theorem SamePosition.trans (h : SamePosition w w' u) (h' : SamePosition w' w'' u) :
    SamePosition w w'' u :=
  ⟨h'.deposited.trans h.deposited, h'.minted.trans h.minted, h'.value.trans h.value⟩

theorem SamePosition.healthFactor (h : SamePosition w w' u) :
    w'.healthFactor u = w.healthFactor u := by
  rw [World.healthFactor, h.minted, h.value, World.healthFactor]

theorem deposited_setDeposited_of_ne (h : u ≠ v) :
    (w.setDeposited v t n).s_collateralDeposited u = w.s_collateralDeposited u :=
  funext fun t' => by rw [World.deposited_setDeposited, if_neg fun hc => h hc.1]

theorem collateralValue_setDeposited_of_ne (h : u ≠ v) :
    (w.setDeposited v t n).collateralValue u = w.collateralValue u := by
  simp only [World.collateralValue, deposited_setDeposited_of_ne h]
  rfl

theorem samePosition_setDeposited (h : u ≠ v) (L : Ledger Address) :
    SamePosition w ((w.setDeposited v t n).setLedger t L) u :=
  ⟨deposited_setDeposited_of_ne h, rfl,
    by rw [World.collateralValue_setLedger, collateralValue_setDeposited_of_ne h]⟩

theorem samePosition_setMinted (h : u ≠ v) (L : Ledger Address) :
    SamePosition w ((w.setMinted v n).setLedger t L) u :=
  ⟨rfl, by simp [World.minted_setMinted, h], rfl⟩

theorem setDeposited_self : w.setDeposited u t (w.s_collateralDeposited u t) = w := by
  simp [World.setDeposited]

theorem deposited_setDeposited_mono (h : n ≤ m) (t' : Address) :
    (w.setDeposited u t n).s_collateralDeposited u t'
      ≤ (w.setDeposited u t m).s_collateralDeposited u t' := by
  rw [World.deposited_setDeposited, World.deposited_setDeposited]
  split
  · exact h
  · exact le_rfl

theorem collateralValue_setDeposited :
    (w.setDeposited u t n).collateralValue u
      = (w.s_collateralTokens.map fun t' =>
          w.usdValue t' (if t' = t then n else w.s_collateralDeposited u t')).sum := by
  simp only [World.collateralValue, World.deposited_setDeposited, true_and]
  rfl

/-- A larger deposit is worth at least as much. -/
theorem collateralValue_setDeposited_mono (h : n ≤ m) :
    (w.setDeposited u t n).collateralValue u ≤ (w.setDeposited u t m).collateralValue u := by
  rw [collateralValue_setDeposited, collateralValue_setDeposited]
  refine List.sum_le_sum fun t' _ => World.usdValue_mono ?_
  split
  · exact h
  · exact le_rfl

/-- A health factor of one is a collateral of twice the debt. -/
theorem minHealthFactor_le_healthFactor :
    MIN_HEALTH_FACTOR ≤ w.healthFactor u ↔ 2 * w.s_DSCMinted u ≤ w.collateralValue u :=
  minHealthFactor_le_iff

/-! ## What each entry point does to positions -/

/-- A deposit makes no position worse. -/
theorem depositCollateral_position {a : ℕ} (h : depositCollateral D sender t a w = .ok w') :
    (∀ v ≠ sender, SamePosition w w' v) ∧
      (MIN_HEALTH_FACTOR ≤ w.healthFactor sender →
        MIN_HEALTH_FACTOR ≤ w'.healthFactor sender) := by
  obtain ⟨-, -, -, -, L, -, rfl⟩ := depositCollateral_eq_ok.mp h
  refine ⟨fun v hv => samePosition_setDeposited hv L, fun hgood => ?_⟩
  rw [minHealthFactor_le_healthFactor] at hgood ⊢
  refine hgood.trans ?_
  calc w.collateralValue sender
      = (w.setDeposited sender t (w.s_collateralDeposited sender t)).collateralValue sender := by
        rw [setDeposited_self]
    _ ≤ (w.setDeposited sender t (w.s_collateralDeposited sender t + a)).collateralValue sender :=
        collateralValue_setDeposited_mono (Nat.le_add_right _ a)

theorem mintDSC_position {m : ℕ} (h : mintDSC D sender m w = .ok w') :
    (∀ v ≠ sender, SamePosition w w' v) ∧ MIN_HEALTH_FACTOR ≤ w'.healthFactor sender := by
  obtain ⟨-, -, -, hsol, -, -, -, rfl⟩ := mintDSC_eq_ok.mp h
  exact ⟨fun v hv => samePosition_setMinted hv _, minHealthFactor_le_healthFactor.mpr hsol.2⟩

theorem redeemCollateral_position {a : ℕ} (h : redeemCollateral D sender t a w = .ok w') :
    (∀ v ≠ sender, SamePosition w w' v) ∧ MIN_HEALTH_FACTOR ≤ w'.healthFactor sender := by
  obtain ⟨-, -, -, -, hsol, L, -, rfl⟩ := redeemCollateral_eq_ok.mp h
  exact ⟨fun v hv => samePosition_setDeposited hv L, minHealthFactor_le_healthFactor.mpr hsol.2⟩

theorem burnDSC_position {b : ℕ} (h : burnDSC D sender b w = .ok w') :
    (∀ v ≠ sender, SamePosition w w' v) ∧ MIN_HEALTH_FACTOR ≤ w'.healthFactor sender := by
  obtain ⟨-, -, -, -, -, -, -, hsol, rfl⟩ := burnDSC_eq_ok.mp h
  exact ⟨fun v hv => samePosition_setMinted hv _, minHealthFactor_le_healthFactor.mpr hsol.2⟩

/-- A liquidation leaves the position healthier than it has to be. -/
theorem liquidate_position {d : ℕ} (h : liquidate D sender t u d w = .ok w') :
    (∀ v ≠ u, SamePosition w w' v) ∧ w.healthFactor u < MIN_HEALTH_FACTOR ∧
      MIN_HEALTH_FACTOR < w'.healthFactor u := by
  obtain ⟨-, -, -, -, hlow, T, -, -, -, w₁, hredeem, hburn, -, hgood⟩ := liquidate_eq_ok.mp h
  obtain ⟨-, L, -, rfl⟩ := redeemCollateral_internal_eq_ok.mp hredeem
  obtain ⟨-, -, -, -, -, rfl⟩ := burnDSC_internal_eq_ok.mp hburn
  refine ⟨fun v hv => (samePosition_setDeposited hv L).trans (samePosition_setMinted hv _), ?_,
    hgood⟩
  exact not_le.mp (mt minHealthFactor_le_healthFactor.mp (not_le.mpr hlow))

/-- The account whose position a call may change. -/
def EngineCall.target (sender : Address) : EngineCall → Address
  | .liquidate _ u _ => u
  | _ => sender

/-- Everybody but the target keeps their position. -/
theorem EngineCall.samePosition {c : EngineCall} (h : c.exec D sender w = .ok w')
    (hv : v ≠ c.target sender) : SamePosition w w' v := by
  cases c with
  | depositCollateralAndMintDSC t a m =>
    obtain ⟨w₁, hdep, hmint⟩ := depositCollateralAndMintDSC_eq_ok.mp h
    exact ((depositCollateral_position hdep).1 v hv).trans ((mintDSC_position hmint).1 v hv)
  | depositCollateral t a => exact (depositCollateral_position h).1 v hv
  | redeemCollateralForDSC t a b =>
    obtain ⟨-, -, w₁, hburn, hredeem⟩ := redeemCollateralForDSC_eq_ok.mp h
    exact ((burnDSC_position hburn).1 v hv).trans ((redeemCollateral_position hredeem).1 v hv)
  | redeemCollateral t a => exact (redeemCollateral_position h).1 v hv
  | mintDSC m => exact (mintDSC_position h).1 v hv
  | burnDSC b => exact (burnDSC_position h).1 v hv
  | liquidate t u d => exact (liquidate_position h).1 v hv

/-- The target of a call is healthy afterwards if it was before. -/
theorem EngineCall.target_healthy {c : EngineCall} (h : c.exec D sender w = .ok w')
    (hgood : MIN_HEALTH_FACTOR ≤ w.healthFactor (c.target sender)) :
    MIN_HEALTH_FACTOR ≤ w'.healthFactor (c.target sender) := by
  cases c with
  | depositCollateralAndMintDSC t a m =>
    obtain ⟨w₁, hdep, hmint⟩ := depositCollateralAndMintDSC_eq_ok.mp h
    exact (mintDSC_position hmint).2
  | depositCollateral t a => exact (depositCollateral_position h).2 hgood
  | redeemCollateralForDSC t a b =>
    obtain ⟨-, -, w₁, hburn, hredeem⟩ := redeemCollateralForDSC_eq_ok.mp h
    exact (redeemCollateral_position hredeem).2
  | redeemCollateral t a => exact (redeemCollateral_position h).2
  | mintDSC m => exact (mintDSC_position h).2
  | burnDSC b => exact (burnDSC_position h).2
  | liquidate t u d => exact (liquidate_position h).2.2.le

/-- **Healthy stays healthy.** No call makes a healthy position unhealthy. -/
theorem EngineCall.healthy {c : EngineCall} (h : c.exec D sender w = .ok w')
    (hgood : MIN_HEALTH_FACTOR ≤ w.healthFactor v) : MIN_HEALTH_FACTOR ≤ w'.healthFactor v := by
  rcases eq_or_ne v (c.target sender) with rfl | hv
  · exact EngineCall.target_healthy h hgood
  · rw [(EngineCall.samePosition h hv).healthFactor]
    exact hgood

/-- **Only a price move makes a position unhealthy.** A call that returns keeps every healthy
position healthy. It changes the position of its sender only, except that `liquidate` changes
that of a user who was unhealthy and leaves them strictly healthy. -/
theorem call_keeps_health {c : EngineCall} (h : c.exec D sender w = .ok w') :
    (∀ v, MIN_HEALTH_FACTOR ≤ w.healthFactor v → MIN_HEALTH_FACTOR ≤ w'.healthFactor v) ∧
    (∀ v, w'.s_collateralDeposited v ≠ w.s_collateralDeposited v ∨
        w'.s_DSCMinted v ≠ w.s_DSCMinted v →
      v = sender ∨ ∃ t d, c = .liquidate t v d ∧ w.healthFactor v < MIN_HEALTH_FACTOR) ∧
    (∀ t v d, c = .liquidate t v d → MIN_HEALTH_FACTOR < w'.healthFactor v) := by
  refine ⟨fun v => EngineCall.healthy h, fun v hchange => ?_, ?_⟩
  · have htarget : v = c.target sender := by
      by_contra hne
      have hsame := EngineCall.samePosition h hne
      exact hchange.elim (fun hd => hd hsame.deposited) fun hm => hm hsame.minted
    cases c with
    | liquidate t u d =>
      obtain rfl : v = u := htarget
      exact Or.inr ⟨t, d, rfl, (liquidate_position h).2.1⟩
    | _ => exact Or.inl htarget
  · rintro t v d rfl
    exact (liquidate_position h).2.2

/-- Account `10` borrows fifty coins against sixty units and hands them to account `11`, which
approves the engine. Then the price falls from two dollars to one and a half. -/
def underwaterRun : List Action :=
  [.call 10 (.engine (.depositCollateralAndMintDSC 3 60 50)), .call 10 (.token 2 (.transfer 11 50)),
    .call 11 (.token 2 (.approve 1 50)), .report 4 (sampleRound (15 * 10 ^ 7))]

/-- What that leaves. -/
def underwaterWorld : World := run (step sampleDeployment) sampleWorld underwaterRun

theorem underwaterWorld_reachable : Reachable sampleDeployment underwaterWorld := by
  refine ⟨[3], [4], sampleWorld, underwaterRun, sampleWorld_deployed, ?_, rfl⟩
  exact ⟨⟨by decide, by decide⟩, ⟨by decide, by decide⟩, ⟨by decide, by decide⟩, trivial, trivial⟩

theorem call_keeps_health_liquidate :
    underwaterWorld.healthFactor 10 < MIN_HEALTH_FACTOR ∧
    MIN_HEALTH_FACTOR < (step sampleDeployment underwaterWorld
      (.call 11 (.engine (.liquidate 3 10 50)))).healthFactor 10 := by
  have hcall : Succeeds
      (EngineCall.exec sampleDeployment 11 (.liquidate 3 10 50) underwaterWorld) := by decide
  exact ⟨by decide, (call_keeps_health (hcall.eq_ok_settle underwaterWorld)).2.2 3 10 50 rfl⟩

/-! ## Bad feeds -/

/-- A feed no call may settle on: stale, dated in the future, or negative. -/
def BadRound (w : World) (r : RoundData) : Prop :=
  r.updatedAt + OracleLib.TIMEOUT < w.timestamp ∨ w.timestamp < r.updatedAt ∨ r.answer.toInt < 0

/-- Such a feed cannot be read. -/
theorem not_readableFeed {r : RoundData} (hr : w.round t = some r) (hbad : BadRound w r) :
    ¬ ReadableFeed w t := by
  rintro ⟨r', hr', ⟨hpast, hrecent⟩, hfits⟩
  obtain rfl : r = r' := Option.some.inj (hr.symm.trans hr')
  rcases hbad with hstale | hfuture | hneg
  · omega
  · omega
  · exact absurd hfits (not_lt.mpr (uint256Size_le_of_neg hneg))

/-- Every call but `depositCollateral` values somebody's position at the feeds of the state it
started in. -/
theorem EngineCall.reads_feeds {c : EngineCall} (hc : ∀ t a, c ≠ .depositCollateral t a)
    (h : c.exec D sender w = .ok w') (ht : t ∈ w.s_collateralTokens) : ReadableFeed w t := by
  cases c with
  | depositCollateralAndMintDSC t' a m =>
    obtain ⟨w₁, hdep, hmint⟩ := depositCollateralAndMintDSC_eq_ok.mp h
    obtain ⟨-, -, -, -, L, -, rfl⟩ := depositCollateral_eq_ok.mp hdep
    obtain ⟨-, -, -, hsol, -⟩ := mintDSC_eq_ok.mp hmint
    exact (hsol.1.1 t ht).1
  | depositCollateral t' a => exact absurd rfl (hc t' a)
  | redeemCollateralForDSC t' a b =>
    obtain ⟨-, -, w₁, hburn, -⟩ := redeemCollateralForDSC_eq_ok.mp h
    obtain ⟨-, -, -, -, -, -, -, hsol, -⟩ := burnDSC_eq_ok.mp hburn
    exact (hsol.1.1 t ht).1
  | redeemCollateral t' a =>
    obtain ⟨-, -, -, -, hsol, -⟩ := redeemCollateral_eq_ok.mp h
    exact (hsol.1.1 t ht).1
  | mintDSC m =>
    obtain ⟨-, -, -, hsol, -⟩ := mintDSC_eq_ok.mp h
    exact (hsol.1.1 t ht).1
  | burnDSC b =>
    obtain ⟨-, -, -, -, -, -, -, hsol, -⟩ := burnDSC_eq_ok.mp h
    exact (hsol.1.1 t ht).1
  | liquidate t' u d =>
    obtain ⟨-, -, -, hval, -⟩ := liquidate_eq_ok.mp h
    exact (hval.1 t ht).1

/-- **Freeze on a bad feed.** If one listed token has a bad feed, every call but
`depositCollateral` reverts, whoever makes it and whatever its arguments, and the state stays as
it was. A deposit still goes through: all it needs is the sender's tokens and their approval. -/
theorem bad_feed_freezes {r : RoundData} (ht : t ∈ w.s_collateralTokens) (hr : w.round t = some r)
    (hbad : BadRound w r) :
    (∀ (sender : Address) (c : EngineCall), (∀ t a, c ≠ .depositCollateral t a) →
      ¬ Succeeds (c.exec D sender w) ∧ step D w (.call sender (.engine c)) = w) ∧
    (∀ (sender t' : Address) (a : ℕ), (D.erc20 t').Standard → sender ≠ 0 → 0 < a →
      w.s_priceFeeds t' ≠ 0 → w.entered = false →
      w.s_collateralDeposited sender t' + a < uint256Size →
      a ≤ (w.ledgers t').allowance sender D.engine → a ≤ (w.ledgers t').balance sender →
      Succeeds (depositCollateral D sender t' a w)) := by
  constructor
  · intro sender c hc
    have hfail : ¬ Succeeds (c.exec D sender w) := fun ⟨w', h⟩ =>
      not_readableFeed hr hbad (EngineCall.reads_feeds hc h ht)
    exact ⟨hfail, settle_of_not_succeeds hfail⟩
  · intro sender t' a hstd hs ha hfeed hlock hfit hallow hbal
    have hpull := hstd.transferFrom_ok D.engine_ne_zero hs D.engine_ne_zero hallow hbal
    exact ⟨_, depositCollateral_eq_ok.mpr ⟨ha, hfeed, hlock, hfit, _, hpull, rfl⟩⟩

/-- Three hours and a second after the only round of the feed. -/
def staleWorld : World := run (step sampleDeployment) sampleWorld [.elapse (3 * 60 * 60 + 1)]

theorem bad_feed_freezes_stale :
    ¬ Succeeds (mintDSC sampleDeployment 10 1 staleWorld) ∧
    Succeeds (depositCollateral sampleDeployment 10 3 60 staleWorld) := by
  have hfreeze := bad_feed_freezes (D := sampleDeployment) (w := staleWorld) (t := 3)
    (r := sampleRound (2 * 10 ^ 8)) (by decide) rfl (Or.inl (by decide))
  refine ⟨(hfreeze.1 10 (.mintDSC 1) nofun).1, ?_⟩
  exact hfreeze.2 10 3 60 (sampleDeployment_standard 3) (by decide) (by decide) (by decide)
    (by decide) (by decide) (by decide) (by decide)

end Stablecoin

end UpdraftContracts

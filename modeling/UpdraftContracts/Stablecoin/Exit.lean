import UpdraftContracts.Stablecoin.Liquidation

/-!
# Leaving the system

A user who can pay the debt can always leave with everything they deposited, however far prices
have fallen. Paying the debt in full passes the health check of `burnDSC` whatever the position is
worth, since a position without debt is healthy; for the same reason none of the withdrawals after
it can fail. They can be made in any order.

## Main results

* `exit_pays_out` — repay, withdraw token by token, and nothing is left behind
-/

namespace UpdraftContracts

open Evm

namespace Stablecoin

open DSCEngine

variable {D : Deployment} {w w' : World} {u t : Address} {ts : List Address}

/-- Repay the whole debt, if there is one. -/
def repayAll (D : Deployment) (u : Address) (w : World) : Exec Error World :=
  if w.s_DSCMinted u = 0 then .ok w else burnDSC D u (w.s_DSCMinted u) w

/-- Redeem all that is recorded of each token of a list, one call after the other. -/
def redeemAll (D : Deployment) (u : Address) : List Address → World → Exec Error World
  | [], w => .ok w
  | t :: ts, w => do
    let w ← redeemCollateral D u t (w.s_collateralDeposited u t) w
    redeemAll D u ts w

/-- A position without debt that can be valued, in a state between calls. -/
structure DebtFree (D : Deployment) (w : World) (u : Address) : Prop extends Invariant D w where
  debt : w.s_DSCMinted u = 0
  valuable : Valuable w u

theorem valuable_of_value (h : Succeeds (getAccountCollateralValue u w))
    (hdebt : w.s_DSCMinted u = 0) : Valuable w u := by
  obtain ⟨V, hV⟩ := h
  obtain ⟨hfeeds, hlt, rfl⟩ := getAccountCollateralValue_eq_ok.mp hV
  exact ⟨hfeeds, hlt, fun hne => absurd hdebt hne⟩

theorem succeeds_value_setMinted {n : ℕ} (h : Succeeds (getAccountCollateralValue u w)) :
    Succeeds (getAccountCollateralValue u (w.setMinted u n)) := by
  obtain ⟨V, hV⟩ := h
  obtain ⟨hfeeds, hlt, rfl⟩ := getAccountCollateralValue_eq_ok.mp hV
  exact ⟨_, getAccountCollateralValue_eq_ok.mpr ⟨hfeeds, hlt, rfl⟩⟩

/-- **Repaying.** The whole debt can be repaid at any health factor. -/
theorem repayAll_ok (hw : Invariant D w) (hvalue : Succeeds (getAccountCollateralValue u w))
    (hu : u ≠ D.engine) (hu₀ : u ≠ 0)
    (hallow : w.s_DSCMinted u ≤ (w.ledgers D.i_DSC).allowance u D.engine)
    (hbal : w.s_DSCMinted u ≤ (w.ledgers D.i_DSC).balance u) :
    ∃ w', repayAll D u w = .ok w' ∧ DebtFree D w' u ∧ w'.s_priceFeeds = w.s_priceFeeds ∧
      w'.s_collateralDeposited = w.s_collateralDeposited ∧
      ∀ t, (w'.ledgers t).balance u
        = (w.ledgers t).balance u - if t = D.i_DSC then w.s_DSCMinted u else 0 := by
  by_cases hdebt : w.s_DSCMinted u = 0
  · refine ⟨w, if_pos hdebt, ⟨hw, hdebt, valuable_of_value hvalue hdebt⟩, rfl, rfl, fun t => ?_⟩
    rw [hdebt, ite_self, Nat.sub_zero]
  · have hzero : (w.setMinted u (w.s_DSCMinted u - w.s_DSCMinted u)).s_DSCMinted u = 0 := by
      rw [World.minted_setMinted, if_pos rfl, Nat.sub_self]
    have hvaluable : Valuable (w.setMinted u (w.s_DSCMinted u - w.s_DSCMinted u)) u :=
      valuable_of_value (succeeds_value_setMinted hvalue) hzero
    have hsol : Solvent (w.setMinted u (w.s_DSCMinted u - w.s_DSCMinted u)) u :=
      ⟨hvaluable, by rw [hzero]; exact Nat.zero_le _⟩
    have hburn := burnDSC_eq_ok.mpr ⟨Nat.pos_of_ne_zero hdebt, hw.unlocked, le_rfl, hw.owner, hu₀,
      hallow, hbal, hsol, rfl⟩
    refine ⟨_, (if_neg hdebt).trans hburn, ⟨(burnDSC_move hu hburn).invariant hw, hzero, hvaluable⟩,
      rfl, rfl, fun t => ?_⟩
    rw [World.ledgers_setLedger]
    split
    · next heq =>
      rw [Ledger.balance_burn (by rwa [Ledger.balance_spend]), if_pos rfl, Ledger.balance_spend,
        heq]
    · rfl

/-- **One withdrawal.** -/
theorem DebtFree.redeem (hw : DebtFree D w u) (hstd : (D.erc20 t).Standard) (hu : u ≠ D.engine)
    (hu₀ : u ≠ 0) (ht : w.s_collateralDeposited u t ≠ 0) :
    ∃ w', redeemCollateral D u t (w.s_collateralDeposited u t) w = .ok w' ∧ DebtFree D w' u ∧
      w'.s_priceFeeds = w.s_priceFeeds ∧
      (∀ t', w'.s_collateralDeposited u t' = if t' = t then 0 else w.s_collateralDeposited u t') ∧
      ∀ t', (w'.ledgers t').balance u
        = (w.ledgers t').balance u + if t' = t then w.s_collateralDeposited u t else 0 := by
  have hvaluable : Valuable (w.setDeposited u t (w.s_collateralDeposited u t
      - w.s_collateralDeposited u t)) u :=
    valuable_setDeposited hw.valuable (Nat.sub_le _ _)
  have hpay := hw.transfer_ok hstd hu₀ (le_refl (w.s_collateralDeposited u t))
  have hredeem := redeemCollateral_eq_ok.mpr ⟨Nat.pos_of_ne_zero ht, hw.unlocked, hw.allowed u t ht,
    le_rfl, ⟨hvaluable, by rw [World.minted_setDeposited, hw.debt]; exact Nat.zero_le _⟩,
    _, hpay, rfl⟩
  refine ⟨_, hredeem,
    ⟨(redeemCollateral_move hu hredeem).invariant hw.toInvariant, hw.debt, hvaluable⟩,
    rfl, fun t' => ?_, fun t' => ?_⟩
  · rw [World.deposited_setLedger, World.deposited_setDeposited, Nat.sub_self]
    simp
  · rw [World.ledgers_setLedger]
    split
    · next heq =>
      rw [Ledger.balance_move (hstd.transfer_true hpay).1, if_neg hu, if_pos rfl, heq, Nat.sub_zero]
    · rfl

/-- **All withdrawals.** In any order, each of them succeeds. -/
theorem DebtFree.redeemAll (hw : DebtFree D w u)
    (hstd : ∀ t, w.s_priceFeeds t ≠ 0 → (D.erc20 t).Standard) (hu : u ≠ D.engine) (hu₀ : u ≠ 0)
    (hnodup : ts.Nodup) (hts : ∀ t ∈ ts, w.s_collateralDeposited u t ≠ 0) :
    ∃ w', redeemAll D u ts w = .ok w' ∧ w'.s_DSCMinted u = 0 ∧
      (∀ t, w'.s_collateralDeposited u t = if t ∈ ts then 0 else w.s_collateralDeposited u t) ∧
      ∀ t, (w'.ledgers t).balance u
        = (w.ledgers t).balance u + if t ∈ ts then w.s_collateralDeposited u t else 0 := by
  induction ts generalizing w with
  | nil => exact ⟨w, rfl, hw.debt, by simp, by simp⟩
  | cons t ts ih =>
    obtain ⟨hnotin, hnodup⟩ := List.nodup_cons.mp hnodup
    have ht := hts t List.mem_cons_self
    obtain ⟨w₁, hredeem, hw₁, hfeeds, hdep, hbal⟩ :=
      hw.redeem (hstd t (hw.allowed u t ht)) hu hu₀ ht
    obtain ⟨w₂, hrest, hdebt, hdep₂, hbal₂⟩ := ih hw₁ (by rwa [hfeeds]) hnodup fun t' ht' => by
      rw [hdep, if_neg fun heq : t' = t => hnotin (heq ▸ ht')]
      exact hts t' (List.mem_cons_of_mem t ht')
    refine ⟨w₂, bind_eq_ok.mpr ⟨w₁, hredeem, hrest⟩, hdebt, fun t' => ?_, fun t' => ?_⟩
    · rw [hdep₂, hdep]
      rcases eq_or_ne t' t with rfl | hne
      · simp
      · simp [hne]
    · rw [hbal₂, hbal, hdep]
      rcases eq_or_ne t' t with rfl | hne
      · simp [hnotin]
      · simp [hne]

/-- **No deposit is locked.** In a reachable state in which the position of `u` can be valued, let
`u` hold and have approved as many coins as they owe. Then repaying the debt and redeeming every
deposit, token by token and in any order, succeeds call by call. It pays out the recorded deposits
and leaves no debt and no deposit. -/
theorem exit_pays_out (hreach : Reachable D w)
    (hstd : ∀ t, w.s_priceFeeds t ≠ 0 → (D.erc20 t).Standard)
    (hvalue : Succeeds (getAccountCollateralValue u w)) (hu : u ≠ D.engine) (hu₀ : u ≠ 0)
    (hallow : w.s_DSCMinted u ≤ (w.ledgers D.i_DSC).allowance u D.engine)
    (hbal : w.s_DSCMinted u ≤ (w.ledgers D.i_DSC).balance u) (hnodup : ts.Nodup)
    (hts : ∀ t, t ∈ ts ↔ w.s_collateralDeposited u t ≠ 0) :
    ∃ w₁ w₂, repayAll D u w = .ok w₁ ∧ redeemAll D u ts w₁ = .ok w₂ ∧
      w₂.s_DSCMinted u = 0 ∧ (∀ t, w₂.s_collateralDeposited u t = 0) ∧
      ∀ t, (w₂.ledgers t).balance u
        = (w.ledgers t).balance u - (if t = D.i_DSC then w.s_DSCMinted u else 0)
          + w.s_collateralDeposited u t := by
  obtain ⟨w₁, hrepay, hw₁, hfeeds, hdep₁, hbal₁⟩ :=
    repayAll_ok hreach.invariant hvalue hu hu₀ hallow hbal
  obtain ⟨w₂, hredeem, hdebt, hdep₂, hbal₂⟩ := hw₁.redeemAll (by rwa [hfeeds]) hu hu₀ hnodup
    fun t ht => by rw [hdep₁]; exact (hts t).mp ht
  refine ⟨w₁, w₂, hrepay, hredeem, hdebt, fun t => ?_, fun t => ?_⟩
  · rw [hdep₂, hdep₁]
    split
    · rfl
    · next hnot => exact not_not.mp (mt (hts t).mpr hnot)
  · rw [hbal₂, hbal₁, hdep₁]
    congr 1
    split
    · rfl
    · next hnot => exact (not_not.mp (mt (hts t).mpr hnot)).symm

/-- Account `10` borrows fifty coins against sixty units and approves the engine. Then the price
falls to a cent. -/
def crashRun : List Action :=
  [.call 10 (.engine (.depositCollateralAndMintDSC 3 60 50)), .call 10 (.token 2 (.approve 1 50)),
    .report 4 (sampleRound (10 ^ 6))]

/-- What that leaves. -/
def crashWorld : World := run (step sampleDeployment) sampleWorld crashRun

theorem crashWorld_reachable : Reachable sampleDeployment crashWorld := by
  refine ⟨[3], [4], sampleWorld, crashRun, sampleWorld_deployed, ?_, rfl⟩
  exact ⟨⟨by decide, by decide⟩, ⟨by decide, by decide⟩, trivial, trivial⟩

theorem crashWorld_deposited (t : Address) :
    t ∈ [(3 : Address)] ↔ crashWorld.s_collateralDeposited 10 t ≠ 0 := by
  constructor
  · intro ht
    obtain rfl := List.mem_singleton.mp ht
    decide
  · intro ht
    have hlisted := crashWorld_reachable.invariant.listed t
      (crashWorld_reachable.invariant.allowed 10 t ht)
    exact hlisted

theorem exit_pays_out_crash :
    crashWorld.healthFactor 10 < MIN_HEALTH_FACTOR ∧
    ∃ w₁ w₂, repayAll sampleDeployment 10 crashWorld = .ok w₁ ∧
      redeemAll sampleDeployment 10 [3] w₁ = .ok w₂ ∧
      w₂.s_DSCMinted 10 = 0 ∧ (∀ t, w₂.s_collateralDeposited 10 t = 0) ∧
      ∀ t, (w₂.ledgers t).balance 10
        = (crashWorld.ledgers t).balance 10
          - (if t = sampleDeployment.i_DSC then crashWorld.s_DSCMinted 10 else 0)
          + crashWorld.s_collateralDeposited 10 t :=
  ⟨by decide, exit_pays_out crashWorld_reachable (fun t _ => sampleDeployment_standard t)
    (by decide) (by decide) (by decide) (by decide) (by decide) (List.nodup_singleton 3)
    crashWorld_deposited⟩

end Stablecoin

end UpdraftContracts

import UpdraftContracts.Stablecoin.Limits
import UpdraftContracts.Stablecoin.Redemption

/-!
# Taking back a loan

`redeemCollateralForDSC` is the way back from `depositCollateralAndMintDSC`: it burns the coins and
returns the collateral. Called with the same amounts it leaves nothing of the loan, in no ledger and
in no record, whatever else the user has deposited and owes. Only the allowances are used up.

The way back is not always open, however. The last health check is made on the position from before
the loan. A user who was not healthy can add collateral and borrow against it, but cannot take both
back.

The coin itself may be the collateral. Then one ledger sees all of it: the deposit, the mint, the
burn and the withdrawal.

## Main results

* `undo_restores` — the way back is open to users who were healthy before, and leads there exactly
-/

namespace UpdraftContracts

open Evm

namespace Stablecoin

open DSCEngine

variable {D : Deployment} {w w₁ w₂ w₃ : World} {u t t' src dst x : Address} {a m n v : ℕ}
  {L : Ledger Address}

/-! ## One ledger among all -/

theorem balance_setLedger_move (hL : L.balance = (w.ledgers t).balance)
    (hv : v ≤ (w.ledgers t).balance src) :
    ((w.setLedger t (L.move src dst v)).ledgers t').balance x
      = (w.ledgers t').balance x - (if t' = t ∧ x = src then v else 0)
        + if t' = t ∧ x = dst then v else 0 := by
  rw [← hL] at hv
  rcases eq_or_ne t' t with rfl | hne
  · rw [World.ledgers_setLedger_self, Ledger.balance_move hv, hL]
    simp
  · rw [World.ledgers_setLedger, if_neg hne]
    simp [hne]

theorem balance_setLedger_mint (hv : (w.ledgers t).totalSupply + v < uint256Size) :
    ((w.setLedger t ((w.ledgers t).mint dst v)).ledgers t').balance x
      = (w.ledgers t').balance x + if t' = t ∧ x = dst then v else 0 := by
  rcases eq_or_ne t' t with rfl | hne
  · rw [World.ledgers_setLedger_self, Ledger.balance_mint hv]
    simp
  · rw [World.ledgers_setLedger, if_neg hne]
    simp [hne]

theorem balance_setLedger_burn (hL : L.balance = (w.ledgers t).balance)
    (hv : v ≤ (w.ledgers t).balance src) :
    ((w.setLedger t (L.burn src v)).ledgers t').balance x
      = (w.ledgers t').balance x - if t' = t ∧ x = src then v else 0 := by
  rw [← hL] at hv
  rcases eq_or_ne t' t with rfl | hne
  · rw [World.ledgers_setLedger_self, Ledger.balance_burn hv, hL]
    simp
  · rw [World.ledgers_setLedger, if_neg hne]
    simp [hne]

/-! ## The way in -/

/-- The loan is on record, and its coins are where it put them. Of the ledgers this says what
everybody has, and who may spend it, but for the allowance that the user gave the engine. -/
structure Lent (D : Deployment) (u t : Address) (a m : ℕ) (w w₁ : World) : Prop where
  world : w₁ = { (w.setDeposited u t (w.s_collateralDeposited u t + a)).setMinted u
    (w.s_DSCMinted u + m) with ledgers := w₁.ledgers }
  balance : ∀ t' x, (w₁.ledgers t').balance x
    = (w.ledgers t').balance x - (if t' = t ∧ x = u then a else 0)
      + (if t' = t ∧ x = D.engine then a else 0) + if t' = D.i_DSC ∧ x = u then m else 0
  allowance : ∀ t' x y, ¬ (x = u ∧ y = D.engine) →
    (w₁.ledgers t').allowance x y = (w.ledgers t').allowance x y

theorem allowance_setLedger {y : Address} (hL : L.allowance x y = (w.ledgers t).allowance x y) :
    ((w.setLedger t L).ledgers t').allowance x y = (w.ledgers t').allowance x y := by
  rw [World.ledgers_setLedger]
  split
  · next heq => rw [hL, heq]
  · rfl

theorem allowance_spend_of_not {y s : Address} (h : ¬ (x = u ∧ y = s)) :
    (L.spend u s v).allowance x y = L.allowance x y := by
  rw [Ledger.allowance_spend, if_neg fun hc => h ⟨hc.1, hc.2.1⟩]

/-- What a loan that went through has shown. -/
theorem lent_of_ok (hstd : (D.erc20 t).Standard)
    (h : depositCollateralAndMintDSC D u t a m w = .ok w₁) :
    Lent D u t a m w w₁ ∧ Solvent w₁ u ∧ 0 < a ∧ 0 < m ∧ w.s_priceFeeds t ≠ 0 ∧
      w.entered = false ∧ w.owner = D.engine ∧ u ≠ 0 ∧ a ≤ (w.ledgers t).balance u := by
  obtain ⟨w₀, hdeposit, hmint⟩ := depositCollateralAndMintDSC_eq_ok.mp h
  obtain ⟨ha, ht, he, -, L, hL, rfl⟩ := depositCollateral_eq_ok.mp hdeposit
  obtain ⟨-, hbal, rfl⟩ := hstd.transferFrom_eq D.engine_ne_zero hL
  obtain ⟨hm, -, -, hsol, ho, hu₀, hsupply, rfl⟩ := mintDSC_eq_ok.mp hmint
  refine ⟨⟨rfl, fun t' x => ?_, fun t' x y hne => ?_⟩, hsol, ha, hm, ht, he, ho, hu₀, hbal⟩
  · refine (balance_setLedger_mint (w := _) hsupply).trans ?_
    congr 1
    exact balance_setLedger_move Ledger.balance_spend hbal
  · refine (allowance_setLedger (w := _) ?_).trans (allowance_setLedger (w := w) ?_)
    · rw [Ledger.allowance_mint]
      rfl
    · rw [Ledger.allowance_move]
      exact allowance_spend_of_not hne

/-- The approval does not touch the loan. -/
theorem Lent.approve (h : Lent D u t a m w w₁) (hu₀ : u ≠ 0)
    (happrove : (TokenCall.approve D.engine n).exec D u D.i_DSC w₁ = .ok w₂) :
    Lent D u t a m w w₂ ∧ (w₂.ledgers D.i_DSC).allowance u D.engine = n := by
  obtain ⟨⟨b, w'⟩, hw', hpure⟩ := bind_eq_ok.mp happrove
  obtain rfl := pure_eq_ok.mp hpure
  obtain ⟨L, hL, rfl⟩ := ierc20Approve_eq_ok.mp hw'
  rw [D.erc20_dsc, D.dsc.standard.approve_ok hu₀ D.engine_ne_zero] at hL
  obtain ⟨-, rfl⟩ := Prod.mk.inj (Option.some.inj hL)
  refine ⟨⟨?_, fun t' x => ?_, fun t' x y hne => ?_⟩, ?_⟩
  · conv_lhs => rw [h.world]
    rfl
  · rw [← h.balance, World.ledgers_setLedger]
    split
    · next heq => rw [Ledger.balance_approve, heq]
    · rfl
  · rw [← h.allowance t' x y hne]
    refine allowance_setLedger ?_
    rw [Ledger.allowance_approve, if_neg hne]
  · rw [World.ledgers_setLedger_self, Ledger.allowance_approve, if_pos ⟨rfl, rfl⟩]

/-! ## The way back -/

/-- Nothing but the allowance that the user gave the engine is different. -/
structure Restored (D : Deployment) (u : Address) (w w₃ : World) : Prop where
  world : w₃ = { w with ledgers := w₃.ledgers }
  balance : ∀ t' x, (w₃.ledgers t').balance x = (w.ledgers t').balance x
  totalSupply : ∀ t', (w₃.ledgers t').totalSupply = (w.ledgers t').totalSupply
  allowance : ∀ t' x y, ¬ (x = u ∧ y = D.engine) →
    (w₃.ledgers t').allowance x y = (w.ledgers t').allowance x y

/-- The position is the one from before. -/
theorem Restored.solvent_iff (h : Restored D u w w₃) : Solvent w₃ u ↔ Solvent w u := by
  rw [h.world]
  exact Iff.rfl

theorem Lent.deposited (h : Lent D u t a m w w₂) :
    w₂.s_collateralDeposited u t = w.s_collateralDeposited u t + a := by
  rw [h.world]
  exact (World.deposited_setDeposited u t).trans (if_pos ⟨rfl, rfl⟩)

theorem Lent.minted (h : Lent D u t a m w w₂) : w₂.s_DSCMinted u = w.s_DSCMinted u + m := by
  rw [h.world]
  exact (World.minted_setMinted u).trans (if_pos rfl)

/-- Where the coins of a loan are: with the user, and with the engine. -/
theorem Lent.le_balance (h : Lent D u t a m w w₂) :
    m ≤ (w₂.ledgers D.i_DSC).balance u := by
  rw [h.balance, if_pos (⟨rfl, rfl⟩ : D.i_DSC = D.i_DSC ∧ u = u)]
  exact Nat.le_add_left _ _

/-- The state after `_burnDSC`. -/
def World.repaid (D : Deployment) (u : Address) (m : ℕ) (w : World) : World :=
  (w.setMinted u (w.s_DSCMinted u - m)).setLedger D.i_DSC
    (((w.ledgers D.i_DSC).spend u D.engine m).burn u m)

/-- The state after `_redeemCollateral`, for a token that pays. -/
def World.withdrawn (D : Deployment) (u t : Address) (a : ℕ) (w : World) : World :=
  (w.setDeposited u t (w.s_collateralDeposited u t - a)).setLedger t
    ((w.ledgers t).move D.engine u a)

theorem balance_repaid (hm : m ≤ (w.ledgers D.i_DSC).balance u) :
    ((w.repaid D u m).ledgers t').balance x
      = (w.ledgers t').balance x - if t' = D.i_DSC ∧ x = u then m else 0 :=
  balance_setLedger_burn (w := w.setMinted u (w.s_DSCMinted u - m)) Ledger.balance_spend hm

theorem balance_withdrawn (ha : a ≤ (w.ledgers t).balance D.engine) :
    ((w.withdrawn D u t a).ledgers t').balance x
      = (w.ledgers t').balance x - (if t' = t ∧ x = D.engine then a else 0)
        + if t' = t ∧ x = u then a else 0 :=
  balance_setLedger_move (w := w.setDeposited u t (w.s_collateralDeposited u t - a)) rfl ha

theorem allowance_withdrawn_repaid {y : Address} (h : ¬ (x = u ∧ y = D.engine)) :
    (((w.repaid D u m).withdrawn D u t a).ledgers t').allowance x y
      = (w.ledgers t').allowance x y := by
  refine (allowance_setLedger (w := (w.repaid D u m).setDeposited u t _) ?_).trans
    (allowance_setLedger (w := w.setMinted u _) ?_)
  · rw [Ledger.allowance_move]
    rfl
  · rw [Ledger.allowance_burn]
    exact allowance_spend_of_not h

namespace Lent

variable (h : Lent D u t a m w w₂)
include h

/-- The engine can pay. -/
theorem engine_pays (hu : u ≠ D.engine) : a ≤ ((w₂.repaid D u m).ledgers t).balance D.engine := by
  rw [balance_repaid h.le_balance, h.balance]
  simp [hu.symm]

/-- Debt and deposit are written back. -/
theorem records (ledgers : Address → Ledger Address) :
    { (w₂.repaid D u m).withdrawn D u t a with ledgers := ledgers }
      = { w with ledgers := ledgers } := by
  have hminted : w₂.s_DSCMinted u - m = w.s_DSCMinted u := by rw [h.minted, Nat.add_sub_cancel]
  have hdeposited : (w₂.repaid D u m).s_collateralDeposited u t - a
      = w.s_collateralDeposited u t :=
    (congrArg (· - a) h.deposited).trans (Nat.add_sub_cancel ..)
  rw [World.withdrawn, hdeposited, World.repaid, hminted, h.world]
  simp [World.setDeposited, World.setMinted, World.setLedger]

/-- And so is every balance. -/
theorem restored (hu : u ≠ D.engine) (ha : a ≤ (w.ledgers t).balance u) :
    Restored D u w ((w₂.repaid D u m).withdrawn D u t a) := by
  have hbalance : ∀ t' x, (((w₂.repaid D u m).withdrawn D u t a).ledgers t').balance x
      = (w.ledgers t').balance x := by
    intro t' x
    rw [balance_withdrawn (h.engine_pays hu), balance_repaid h.le_balance, h.balance]
    have hdebit : (if t' = t ∧ x = u then a else 0) ≤ (w.ledgers t').balance x := by
      split
      · next heq =>
        obtain ⟨rfl, rfl⟩ := heq
        exact ha
      · exact Nat.zero_le _
    rw [Nat.add_sub_cancel, Nat.add_sub_cancel]
    exact Nat.sub_add_cancel hdebit
  refine ⟨?_, hbalance, fun t' => ?_, fun t' x y hne => ?_⟩
  · exact h.records _
  · rw [← Ledger.sum_balance, ← Ledger.sum_balance]
    exact Finset.sum_congr rfl fun x _ => hbalance t' x
  · rw [allowance_withdrawn_repaid hne, h.allowance t' x y hne]

/-- Burning and redeeming go through. What is left is the health check. -/
theorem undo_ok (hstd : (D.erc20 t).Standard) (hu : u ≠ D.engine) (hu₀ : u ≠ 0)
    (ho : w.owner = D.engine) (hallow : m ≤ (w₂.ledgers D.i_DSC).allowance u D.engine) :
    _burnDSC D u u m w₂ = .ok (w₂.repaid D u m) ∧
      _redeemCollateral D u u t a (w₂.repaid D u m)
        = .ok ((w₂.repaid D u m).withdrawn D u t a) := by
  have howner : w₂.owner = D.engine := by
    rw [h.world]
    exact ho
  have hdeposited : a ≤ (w₂.repaid D u m).s_collateralDeposited u t :=
    h.deposited ▸ Nat.le_add_left a _
  exact ⟨burnDSC_internal_eq_ok.mpr
      ⟨h.minted ▸ Nat.le_add_left m _, howner, hu₀, hallow, h.le_balance, rfl⟩,
    redeemCollateral_internal_eq_ok.mpr
      ⟨hdeposited, _, hstd.transfer_ok D.engine_ne_zero hu₀ (h.engine_pays hu), rfl⟩⟩

theorem valuable_iff : Valuable w₂ u ↔
    Valuable ((w.setDeposited u t (w.s_collateralDeposited u t + a)).setMinted u
      (w.s_DSCMinted u + m)) u := by
  rw [h.world]
  exact Iff.rfl

end Lent

/-- **The way back.** Let `u` deposit, borrow and approve the repayment. Then redeeming for the same
amounts goes through exactly if the position from before passes the health check, and if it does,
the system is as it was: every record of the engine, every balance, every supply, and every
allowance but the one that `u` gave the engine. -/
theorem undo_restores (hstd : (D.erc20 t).Standard) (hu : u ≠ D.engine)
    (hopen : depositCollateralAndMintDSC D u t a m w = .ok w₁)
    (happrove : (TokenCall.approve D.engine n).exec D u D.i_DSC w₁ = .ok w₂) (hn : m ≤ n) :
    (Succeeds (redeemCollateralForDSC D u t a m w₂)
      ↔ Succeeds (_revertIfHealthFactorIsBroken u w)) ∧
    ∀ w₃, redeemCollateralForDSC D u t a m w₂ = .ok w₃ → Restored D u w w₃ := by
  obtain ⟨hlent₁, hsol, ha, hm, ht, he, ho, hu₀, hbal⟩ := lent_of_ok hstd hopen
  obtain ⟨hlent, hallow⟩ := hlent₁.approve hu₀ happrove
  obtain ⟨hburn, hredeem⟩ := hlent.undo_ok hstd hu hu₀ ho (hallow ▸ hn)
  have hrestored := hlent.restored hu hbal
  have hval : Valuable w₂ u := hlent.valuable_iff.mpr (hlent₁.valuable_iff.mp hsol.1)
  have ht₂ : w₂.s_priceFeeds t ≠ 0 := by
    rw [hlent.world]
    exact ht
  have he₂ : w₂.entered = false := by
    rw [hlent.world]
    exact he
  have hundo : ∀ w₃, redeemCollateralForDSC D u t a m w₂ = .ok w₃ ↔
      w₃ = (w₂.repaid D u m).withdrawn D u t a ∧ Solvent w u := by
    intro w₃
    rw [redeemCollateralForDSC_iff_fused hval ht₂, burnAndRedeem_eq_ok]
    constructor
    · rintro ⟨-, -, -, w', hburn', hredeem', hsol'⟩
      obtain rfl := Except.ok.inj (hburn.symm.trans hburn')
      obtain rfl := Except.ok.inj (hredeem.symm.trans hredeem')
      exact ⟨rfl, hrestored.solvent_iff.mp hsol'⟩
    · rintro ⟨rfl, hsol'⟩
      exact ⟨ha, hm, he₂, _, hburn, hredeem, hrestored.solvent_iff.mpr hsol'⟩
  refine ⟨⟨?_, ?_⟩, ?_⟩
  · rintro ⟨w₃, hw₃⟩
    exact ⟨(), revertIfHealthFactorIsBroken_eq_ok.mpr ((hundo w₃).mp hw₃).2⟩
  · rintro ⟨_, hcheck⟩
    exact ⟨_, (hundo _).mpr ⟨rfl, revertIfHealthFactorIsBroken_eq_ok.mp hcheck⟩⟩
  · intro w₃ hw₃
    obtain ⟨rfl, -⟩ := (hundo w₃).mp hw₃
    exact hrestored

/-- Account `10` deposits forty units more, borrows one more coin, and approves its repayment. -/
def sampleLent (w : World) : World :=
  settle w (depositCollateralAndMintDSC sampleDeployment 10 3 40 1 w)

/-- What all of that leaves. -/
def sampleApproved (w : World) : World :=
  settle (sampleLent w) ((TokenCall.approve 1 1).exec sampleDeployment 10 2 (sampleLent w))

/-- With enough collateral from before, it can take that back. After the price has fallen, the
forty units are enough for the coin, but there is no way back. -/
theorem undo_restores_sample :
    (Succeeds (redeemCollateralForDSC sampleDeployment 10 3 40 1 (sampleApproved borrowWorld)) ∧
      Restored sampleDeployment 10 borrowWorld (settle borrowWorld
        (redeemCollateralForDSC sampleDeployment 10 3 40 1 (sampleApproved borrowWorld)))) ∧
    ¬ Succeeds (redeemCollateralForDSC sampleDeployment 10 3 40 1 (sampleApproved dipWorld)) := by
  have hstd := sampleDeployment_standard 3
  obtain ⟨hiff, hrestored⟩ := undo_restores (w := borrowWorld) (u := 10) (a := 40) hstd (by decide)
    (Succeeds.eq_ok_settle (by decide) borrowWorld) (Succeeds.eq_ok_settle (by decide) _)
    (Nat.le_refl 1)
  obtain ⟨hdip, -⟩ := undo_restores (w := dipWorld) (u := 10) (a := 40) hstd (by decide)
    (Succeeds.eq_ok_settle (by decide) dipWorld) (Succeeds.eq_ok_settle (by decide) _)
    (Nat.le_refl 1)
  have hhealthy : Succeeds (_revertIfHealthFactorIsBroken 10 borrowWorld) := by decide
  have hok := hiff.mpr hhealthy
  exact ⟨⟨hok, hrestored _ (hok.eq_ok_settle _)⟩, mt hdip.mp (by decide)⟩

end Stablecoin

end UpdraftContracts

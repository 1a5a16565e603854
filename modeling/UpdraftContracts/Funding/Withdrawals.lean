import UpdraftContracts.Funding.Books

/-!
# The two withdrawals of `FundMe`

`withdraw` reads the length of the list before each round of its loop, `cheaperWithdraw` reads it
once. Nothing else is different. Both visit the list only, and this clears the whole mapping because
the books balance.

## Main results

* `withdrawals_agree` — in every reachable state both do the same, and what they do
-/

namespace UpdraftContracts

open Evm

namespace Funding

variable {D : Deployment} {sender : Address} {s s' : State}

/-- Everything is cleared, and the owner has the balance. -/
structure PaidOut (D : Deployment) (s s' : State) : Prop where
  amounts : ∀ a, s'.s_addressToAmountFunded a = 0
  funders : s'.s_funders = []
  feed : s'.latestAnswer = s.latestAnswer
  balance : s'.eth D.this = 0
  owner : s'.eth D.i_owner = s.eth D.i_owner + s.eth D.this
  others : ∀ a, a ≠ D.this → a ≠ D.i_owner → s'.eth a = s.eth a

theorem withdraw_eq_cheaperWithdraw :
    FundMe.withdraw D sender s = FundMe.cheaperWithdraw D sender s := by
  simp only [FundMe.withdraw, FundMe.cheaperWithdraw, FundMe.withdraw_loop,
    FundMe.cheaperWithdraw_loop]

/-- A withdrawal during which the owner does nothing else. -/
theorem withdraw_finish_eq_ok {returns : Bool} :
    FundMe.withdraw D sender s >>= Progress.finish id returns = .ok s' ↔
      sender = D.i_owner ∧ returns = true ∧ s' = FundMe.withdrawn D s := by
  rw [bind_eq_ok]
  constructor
  · rintro ⟨p, hp, hfinish⟩
    obtain ⟨rfl, rfl⟩ := FundMe.withdraw_eq_ok.mp hp
    cases returns with
    | false => cases hfinish
    | true => exact ⟨rfl, rfl, (Except.ok.inj hfinish).symm⟩
  · rintro ⟨rfl, rfl, rfl⟩
    exact ⟨_, FundMe.withdraw_eq_ok.mpr ⟨rfl, rfl⟩, rfl⟩

/-- A withdrawal pays everything out, and forgets all contributions. -/
theorem Balanced.paidOut {forced : ℕ} (h : Balanced D s forced) (howner : D.i_owner ≠ D.this) :
    PaidOut D s (FundMe.withdrawn D s) where
  amounts := h.withdrawn_amount
  funders := rfl
  feed := rfl
  balance := withdrawn_balance howner
  owner := Ether.move_dst howner.symm
  others a hthis howner' := by
    simp [FundMe.withdrawn, Ether.move, hthis, howner']

/-- **The withdrawals agree.** At every point of every run, and with any list of funders, `withdraw`
and `cheaperWithdraw` do the same. If the caller is not the owner or does not accept the ETH, both
revert and nothing has changed. Otherwise both end in the same state, in which no amount is on
record, the list is empty and the owner has got the whole balance. -/
theorem withdrawals_agree {calls : Calls Action} {latestAnswer : Option (BitVec 256)}
    {eth : Address → ℕ}
    (hcalls : calls.Along (History.start D) (fun x a => a.FromOutside D x.1)
      (State.deployed latestAnswer eth, eth D.this)) (hsender : sender ≠ D.this) (returns : Bool) :
    ∀ x ∈ calls.points (History.start D) (State.deployed latestAnswer eth, eth D.this),
      FundMe.withdraw D sender x.1 >>= Progress.finish id returns
        = FundMe.cheaperWithdraw D sender x.1 >>= Progress.finish id returns ∧
      (¬ (sender = D.i_owner ∧ returns = true) →
        ¬ Succeeds (FundMe.withdraw D sender x.1 >>= Progress.finish id returns) ∧
        Calls.complete (Action.start D) (.withdraw sender) id returns x.1 = x.1 ∧
        Calls.complete (Action.start D) (.cheaperWithdraw sender) id returns x.1 = x.1) ∧
      (sender = D.i_owner ∧ returns = true →
        ∃ s', FundMe.withdraw D sender x.1 >>= Progress.finish id returns = .ok s' ∧
          PaidOut D x.1 s') := by
  intro x hx
  have hsame : FundMe.withdraw D sender x.1 >>= Progress.finish id returns
      = FundMe.cheaperWithdraw D sender x.1 >>= Progress.finish id returns := by
    rw [withdraw_eq_cheaperWithdraw]
  refine ⟨hsame, fun hnot => ?_, ?_⟩
  · have hfails : ¬ Succeeds (FundMe.withdraw D sender x.1 >>= Progress.finish id returns) := by
      rintro ⟨s', hs'⟩
      obtain ⟨howner, hreturns, -⟩ := withdraw_finish_eq_ok.mp hs'
      exact hnot ⟨howner, hreturns⟩
    exact ⟨hfails, settle_of_not_succeeds hfails, settle_of_not_succeeds (hsame ▸ hfails)⟩
  · rintro ⟨rfl, rfl⟩
    have hpaid := (points_balanced hcalls hx).paidOut hsender
    exact ⟨_, withdraw_finish_eq_ok.mpr ⟨rfl, rfl, rfl⟩, hpaid⟩

/-- The owner withdraws what it contributed while it was paid the first time. -/
theorem withdrawals_agree_sample :
    sampleEnd.1.eth 1 = 5 * 10 ^ 15 ∧
    ∃ s', FundMe.withdraw sampleDeployment 2 sampleEnd.1 >>= Progress.finish id true = .ok s' ∧
      FundMe.cheaperWithdraw sampleDeployment 2 sampleEnd.1 >>= Progress.finish id true = .ok s' ∧
      PaidOut sampleDeployment sampleEnd.1 s' := by
  obtain ⟨hsame, -, hpaid⟩ := withdrawals_agree sampleCalls_along (by decide : (2 : Address) ≠ 1)
    true sampleEnd (Calls.exec_mem_points ..)
  obtain ⟨s', hs', hpaid⟩ := hpaid ⟨rfl, rfl⟩
  exact ⟨by decide, s', hs', hsame ▸ hs', hpaid⟩

end Funding

end UpdraftContracts

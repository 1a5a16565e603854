import UpdraftContracts.Evm.Ledger
import UpdraftContracts.Funding.FundMe

/-!
# The books of `FundMe`

The mapping, the list and the balance are three views of the same contributions. A contribution
changes all of them. A withdrawal clears the mapping entry by entry, along the list, and this misses
nobody because everybody with a contribution is on the list. All is cleared when the owner gets the
ETH, so contributions that the owner makes at that moment are the first of the next round.

A run is observed together with the ETH that was forced on the contract since the last withdrawal.

## Main results

* `books_balance` — what holds at all points of every run
-/

namespace UpdraftContracts

open Evm

namespace Funding

variable {D : Deployment} {s : State} {forced : ℕ}

/-- What was forced on the contract since the last withdrawal. -/
def record (D : Deployment) (s : State) (a : Action) (forced : ℕ) : ℕ :=
  match a with
  | .fund _ _ | .receive _ _ | .fallback _ _ | .report _ => forced
  | .withdraw _ | .cheaperWithdraw _ => 0
  | .elsewhere eth => forced + (eth D.this - s.eth D.this)

/-- The contract, with what was forced on it. -/
def History.start (D : Deployment) : State × ℕ → Action → Exec Error (Progress Error (State × ℕ)) :=
  recording (Action.start D) (record D)

/-- The three views agree. -/
structure Balanced (D : Deployment) (s : State) (forced : ℕ) : Prop where
  balance : s.eth D.this = ∑ a, s.s_addressToAmountFunded a + forced
  funders : ∀ a, s.s_addressToAmountFunded a ≠ 0 ↔ a ∈ s.s_funders

/-- A contribution is written down and arrives. -/
theorem Balanced.funded {sender : Address} {value : ℕ} (h : Balanced D s forced)
    (hsender : sender ≠ D.this) (hpos : 0 < value) :
    Balanced D { s with
      s_addressToAmountFunded := Function.update s.s_addressToAmountFunded sender
        (s.s_addressToAmountFunded sender + value)
      s_funders := s.s_funders ++ [sender]
      eth := Ether.move s.eth sender D.this value } forced := by
  refine ⟨?_, fun a => ?_⟩
  · have hsum := Ledger.sum_update_add s.s_addressToAmountFunded sender
      (s.s_addressToAmountFunded sender + value)
    have hbalance := h.balance
    dsimp only
    rw [Ether.move_dst hsender]
    omega
  · dsimp only
    rw [List.mem_append, List.mem_singleton, ← h.funders, Function.update_apply]
    split
    · next heq => exact iff_of_true (by omega) (.inr heq)
    · next hne => rw [or_iff_left hne]

/-- Whoever has an amount on record is on the list, so the loop clears all of them. -/
theorem Balanced.withdrawn_amount (h : Balanced D s forced) (a : Address) :
    (FundMe.withdrawn D s).s_addressToAmountFunded a = 0 := by
  by_cases ha : a ∈ s.s_funders
  · exact if_pos ha
  · exact (if_neg ha).trans (not_not.mp (mt (h.funders a).mp ha))

/-- A withdrawal leaves nothing. -/
theorem withdrawn_balance (howner : D.i_owner ≠ D.this) :
    (FundMe.withdrawn D s).eth D.this = 0 :=
  (Ether.move_src howner.symm).trans (Nat.sub_self _)

/-- Nothing is left. -/
theorem Balanced.withdrawn (h : Balanced D s forced) (howner : D.i_owner ≠ D.this) :
    Balanced D (FundMe.withdrawn D s) 0 := by
  refine ⟨?_, fun a => iff_of_false (not_not.mpr (h.withdrawn_amount a)) List.not_mem_nil⟩
  rw [Finset.sum_eq_zero fun a _ => h.withdrawn_amount a]
  exact withdrawn_balance howner

/-- Every call, with whatever the owner does when it is paid, keeps the books balanced. -/
theorem preserves_balanced :
    Preserves (History.start D) (fun x a => a.FromOutside D x.1) fun x => Balanced D x.1 x.2 := by
  refine preserves_recording fun s forced a p hok (h : Balanced D s forced) hstart => ?_
  cases Action.outcome hstart with
  | funded ha hvalue hpos =>
    obtain rfl | rfl | rfl := ha
    · exact h.funded hok hpos
    · exact h.funded hok hpos
    · exact h.funded hok hpos
  | withdrawn ha =>
    obtain rfl | rfl := ha
    · exact Progress.forall_handsOver_error.mpr (h.withdrawn hok)
    · exact Progress.forall_handsOver_error.mpr (h.withdrawn hok)
  | reported => exact ⟨h.balance, h.funders⟩
  | @elsewhere eth =>
    refine ⟨?_, h.funders⟩
    have hbalance := h.balance
    have hforced : s.eth D.this ≤ eth D.this := hok
    simp only [record]
    omega

/-- So they balance at every point of every run. -/
theorem points_balanced {calls : Calls Action} {latestAnswer : Option (BitVec 256)}
    {eth : Address → ℕ}
    (hcalls : calls.Along (History.start D) (fun x a => a.FromOutside D x.1)
      (State.deployed latestAnswer eth, eth D.this)) {x : State × ℕ}
    (hx : x ∈ calls.points (History.start D) (State.deployed latestAnswer eth, eth D.this)) :
    Balanced D x.1 x.2 := by
  have hstart : Balanced D (State.deployed latestAnswer eth) (eth D.this) := by
    refine ⟨?_, fun a => iff_of_false (not_not.mpr rfl) List.not_mem_nil⟩
    rw [State.deployed, Finset.sum_const_zero, Nat.zero_add]
  exact preserves_balanced.points calls hcalls hstart x hx

/-- **The books balance.** At every point of every run, whatever the feed reports and whatever the
owner does when it is paid, the ETH of the contract is the sum of all recorded amounts and what was
forced on it since the last withdrawal, and an account has an amount on record if and only if it is
on the list. -/
theorem books_balance {calls : Calls Action} {latestAnswer : Option (BitVec 256)}
    {eth : Address → ℕ}
    (hcalls : calls.Along (History.start D) (fun x a => a.FromOutside D x.1)
      (State.deployed latestAnswer eth, eth D.this)) :
    ∀ x ∈ calls.points (History.start D) (State.deployed latestAnswer eth, eth D.this),
      x.1.eth D.this = ∑ a, x.1.s_addressToAmountFunded a + x.2 ∧
      ∀ a, x.1.s_addressToAmountFunded a ≠ 0 ↔ a ∈ x.1.s_funders := by
  intro x hx
  have h := points_balanced hcalls hx
  exact ⟨h.balance, h.funders⟩

/-! ### A withdrawal with a contribution inside -/

/-- The contract is at address 1, and 2 is its owner. -/
def sampleDeployment : Deployment := ⟨1, 2⟩

/-- The feed reports two thousand dollars, and everybody has one ETH. -/
def sampleState : State :=
  .deployed (some (BitVec.ofNat 256 (2000 * 10 ^ 8))) fun a => if a = 1 then 0 else 10 ^ 18

/-- Accounts `10` and `11` contribute, the first of them twice. The owner withdraws and, when it is
paid, contributes itself. -/
def sampleCalls : Calls Action :=
  .call (.fund 10 (3 * 10 ^ 15)) .done true <| .call (.receive 11 (4 * 10 ^ 15)) .done true <|
    .call (.fallback 10 (3 * 10 ^ 15)) .done true <|
    .call (.withdraw 2) (.call (.fund 2 (5 * 10 ^ 15)) .done true .done) true .done

/-- The contract after those calls, with what was withdrawn. -/
def sampleEnd : State × ℕ := sampleCalls.exec (History.start sampleDeployment) (sampleState, 0)

theorem sampleCalls_along : sampleCalls.Along (History.start sampleDeployment)
    (fun x a => a.FromOutside sampleDeployment x.1) (sampleState, 0) := by
  have hne : (2 : Address) ≠ 1 ∧ (10 : Address) ≠ 1 ∧ (11 : Address) ≠ 1 := by decide
  exact ⟨hne.2.1, fun _ _ => trivial, hne.2.2, fun _ _ => trivial, hne.2.1, fun _ _ => trivial,
    hne.1, fun _ _ => ⟨hne.1, fun _ _ => trivial, trivial⟩, trivial⟩

/-- In the end the contract has what the owner contributed, and nothing else. -/
theorem books_balance_sample :
    sampleEnd.1.s_funders = [2] ∧ sampleEnd.1.eth 1 = 5 * 10 ^ 15 ∧
    sampleEnd.1.eth 2 = 10 ^ 18 + 5 * 10 ^ 15 ∧
    sampleEnd.1.eth 1 = ∑ a, sampleEnd.1.s_addressToAmountFunded a + sampleEnd.2 := by
  obtain ⟨hbalance, -⟩ := books_balance sampleCalls_along sampleEnd (Calls.exec_mem_points ..)
  exact ⟨by decide, by decide, by decide, hbalance⟩

end Funding

end UpdraftContracts

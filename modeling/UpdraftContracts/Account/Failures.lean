import UpdraftContracts.Account.Authorisation

/-!
# Failed calls of `ZkMinimalAccount`

A transaction is executed by one outgoing call. An ordinary call is looked at, and if it failed the
account reverts. A call of the deployer goes through `SystemContractsCaller.systemCall`, which tells
in its return value whether it failed, and the account does not look at it.

## Main results

* `reportsFailure_iff` — failures are reported exactly for the transactions that do not get to call
  the deployer
-/

namespace UpdraftContracts

open Evm

namespace Account

open ZkMinimalAccount

variable {E : Era} {gasleft : ℕ} {tx : Transaction} {s : State} {a : AccountAction}
  {inner : State → State} {returns : Bool}

/-- The outgoing call of a transaction fails: it would carry more ETH than there is, or its target
reverts. -/
def CallFails (tx : Transaction) (s : State) (returns : Bool) : Prop :=
  ¬ (tx.value ≤ s.balance ∧ returns = true)

/-- If the outgoing call fails, then so do `_executeTransaction` and the functions that call it, and
nothing has changed. -/
structure ReportsFailure (E : Era) (gasleft : ℕ) (tx : Transaction) : Prop where
  internal : ∀ s inner returns, CallFails tx s returns →
    ¬ Succeeds (_executeTransaction E gasleft tx s >>= Progress.finish inner returns)
  external : ∀ (a : AccountAction) s inner returns, a.gasleft = gasleft →
    a.call = .executeTransaction tx ∨ a.call = .executeTransactionFromOutside tx →
    CallFails tx (s.receives a.value) returns →
    ¬ Succeeds (a.start E s >>= Progress.finish inner returns) ∧
      Calls.complete (AccountAction.start E) a inner returns s = s

/-- An ordinary call is looked at. -/
theorem not_succeeds_of_callFails
    (h : ¬ (target tx = E.DEPLOYER_SYSTEM_CONTRACT ∧ tx.value < 2 ^ 128 ∧ gasleft < 2 ^ 32))
    (hfails : CallFails tx s returns) :
    ¬ Succeeds (_executeTransaction E gasleft tx s >>= Progress.finish inner returns) := by
  rintro ⟨s', hs'⟩
  obtain ⟨p, hp, hfinish⟩ := bind_eq_ok.mp hs'
  obtain ⟨⟨hvalue, hcan⟩, rfl⟩ := executeTransaction_eq_ok.mp hp
  by_cases hdeployer : target tx = E.DEPLOYER_SYSTEM_CONTRACT
  · rw [if_pos hdeployer] at hcan
    exact h ⟨hdeployer, hvalue, hcan⟩
  · rw [if_neg hdeployer] at hcan
    rw [execution, if_neg hdeployer] at hfinish
    cases returns with
    | false => cases hfinish
    | true => exact hfails ⟨hcan, rfl⟩

/-- Away from the deployer, a call that fails makes the whole transaction fail. -/
theorem start_not_succeeds
    (h : ¬ (target tx = E.DEPLOYER_SYSTEM_CONTRACT ∧ tx.value < 2 ^ 128 ∧ a.gasleft < 2 ^ 32))
    (hcall : a.call = .executeTransaction tx ∨ a.call = .executeTransactionFromOutside tx)
    (hfails : CallFails tx (s.receives a.value) returns) :
    ¬ Succeeds (a.start E s >>= Progress.finish inner returns) := by
  rintro ⟨s', hs'⟩
  obtain ⟨p, hp, hfinish⟩ := bind_eq_ok.mp hs'
  rcases hcall with hcall | hcall
  · simp only [AccountAction.start, hcall, executeTransaction] at hp
    obtain ⟨-, -, hexec⟩ := bind_eq_ok.mp hp
    exact not_succeeds_of_callFails h hfails ⟨s', bind_eq_ok.mpr ⟨p, hexec, hfinish⟩⟩
  · simp only [AccountAction.start, hcall, executeTransactionFromOutside] at hp
    obtain ⟨⟨magic, s₁⟩, hvalidate, hexec⟩ := bind_eq_ok.mp hp
    obtain ⟨-, rfl, -⟩ := validateTransaction_eq_ok.mp hvalidate
    -- validation has used up the nonce, and left the balance as it was
    have hfails' : CallFails tx { s.receives a.value with nonce := s.nonce + 1 } returns := hfails
    exact not_succeeds_of_callFails h hfails' ⟨s', bind_eq_ok.mpr ⟨p, hexec, hfinish⟩⟩

/-- **Failures are reported, but not those of the deployer.** Whatever the target does, a failed
call makes the execution of a transaction revert without a trace, if and only if the transaction
does not get to call the deployer: its target is another one, or one of the two casts reverts. -/
theorem reportsFailure_iff (E : Era) (gasleft : ℕ) (tx : Transaction) :
    ReportsFailure E gasleft tx ↔
      ¬ (target tx = E.DEPLOYER_SYSTEM_CONTRACT ∧ tx.value < 2 ^ 128 ∧ gasleft < 2 ^ 32) := by
  constructor
  · rintro h ⟨hdeployer, hvalue, hgas⟩
    -- an account that can pay, and a deployer that reverts
    refine h.internal ⟨0, 0, tx.value⟩ id false (fun habs => Bool.false_ne_true habs.2) ?_
    have hcan : CanExecute E gasleft tx ⟨0, 0, tx.value⟩ :=
      ⟨hvalue, by rwa [if_pos hdeployer]⟩
    refine ⟨⟨0, 0, tx.value⟩, bind_eq_ok.mpr ⟨_, executeTransaction_eq_ok.mpr ⟨hcan, rfl⟩, ?_⟩⟩
    rw [execution, if_pos hdeployer, if_pos (Nat.le_refl _)]
    rfl
  · intro h
    refine ⟨fun s inner returns => not_succeeds_of_callFails h, ?_⟩
    rintro a s inner returns rfl hcall hfails
    have hreverts : ¬ Succeeds (a.start E s >>= Progress.finish inner returns) :=
      start_not_succeeds h hcall hfails
    exact ⟨hreverts, settle_of_not_succeeds hreverts⟩

/-- The owner has a contract deployed, and the deployer reverts. The transaction goes through, the
nonce is used up, and nothing tells that there is no new contract. -/
theorem deployer_failure_hidden :
    target (sampleTransaction 0 0x8006 0 0 1) = sampleEra.DEPLOYER_SYSTEM_CONTRACT ∧
    CallFails (sampleTransaction 0 0x8006 0 0 1) sampleAccount false ∧
    _executeTransaction sampleEra (10 ^ 6) (sampleTransaction 0 0x8006 0 0 1) sampleAccount
      >>= Progress.finish id false = .ok sampleAccount ∧
    Calls.complete (AccountAction.start sampleEra) (sampleSubmit (sampleTransaction 0 0x8006 0 0 1))
      id false sampleAccount = ⟨1, 1, 100⟩ := by
  exact ⟨by decide, fun habs => Bool.false_ne_true habs.2, by decide, by decide⟩

end Account

end UpdraftContracts

import UpdraftContracts.Evm.Ledger

/-!
# ERC-20 contracts

A token contract as its callers see it: three functions on a ledger, each of which returns a flag
and the new ledger, or reverts. The code behind them is not fixed. What callers may rely on is
stated in three layers.

* `Erc20.Exact` — a call moves exactly the stated amount, with the right to do so, or fails.
* `Erc20.Standard` — moreover it does not fail when balance and allowance suffice.
* `OpenZeppelinErc20` — the base contract of version 5 of the library, with the internal functions
  `_mint`, `_burn` and `_spendAllowance` that derived contracts use.

The zero account is special: coins are never sent to it, and no call comes from it.

## Main results

* `Erc20.Exact.transfer_closed`, `Erc20.Exact.transferFrom_closed` — an account that approves nobody
  never loses coins to calls by others
* `Erc20.Standard.transferFrom_eq` — a successful `transferFrom` is determined by its arguments
* `openZeppelin` — the layers are inhabited
-/

namespace Evm

variable {α : Type} [Fintype α] [DecidableEq α]

/-- A deployed token contract. `none` is a revert. -/
structure Erc20 (α : Type) [Fintype α] where
  transfer : Ledger α → (sender dst : α) → ℕ → Option (Bool × Ledger α)
  approve : Ledger α → (sender spender : α) → ℕ → Option (Bool × Ledger α)
  transferFrom : Ledger α → (sender src dst : α) → ℕ → Option (Bool × Ledger α)

/-- Transfers move exactly the stated amount or fail, a call that reports failure changes nothing,
and nobody moves coins of another account beyond its allowance. -/
structure Erc20.Exact (T : Erc20 α) : Prop where
  transfer_true {L L' : Ledger α} {sender dst : α} {v : ℕ} :
    T.transfer L sender dst v = some (true, L') → v ≤ L.balance sender ∧ L' = L.move sender dst v
  transfer_false {L L' : Ledger α} {sender dst : α} {v : ℕ} :
    T.transfer L sender dst v = some (false, L') → L' = L
  approve_some {L L' : Ledger α} {sender spender : α} {v : ℕ} {b : Bool} :
    T.approve L sender spender v = some (b, L') → L' = L ∨ L' = L.approve sender spender v
  transferFrom_true {L L' : Ledger α} {sender src dst : α} {v : ℕ} :
    T.transferFrom L sender src dst v = some (true, L') →
      v ≤ L.balance src ∧ (sender = src ∨ v ≤ L.allowance src sender) ∧
        ∃ k ≤ L.allowance src sender, L' = (L.approve src sender k).move src dst v
  transferFrom_false {L L' : Ledger α} {sender src dst : α} {v : ℕ} :
    T.transferFrom L sender src dst v = some (false, L') → L' = L

/-- `SafeERC20.safeTransfer`, which reverts also if the token reports failure. -/
def Erc20.safeTransfer (T : Erc20 α) (L : Ledger α) (sender dst : α) (v : ℕ) : Option (Ledger α) :=
  match T.transfer L sender dst v with
  | some (true, L') => some L'
  | _ => none

omit [DecidableEq α] in
/-- The wrapper makes a revert of an answer that is false. -/
theorem Erc20.safeTransfer_eq_some {T : Erc20 α} {L L' : Ledger α} {sender dst : α} {v : ℕ} :
    T.safeTransfer L sender dst v = some L' ↔ T.transfer L sender dst v = some (true, L') := by
  rw [Erc20.safeTransfer]
  split
  case h_1 L₁ heq => simp [heq]
  case h_2 hne => exact ⟨nofun, fun h => absurd h (hne L')⟩

/-! ## Accounts that approve nobody

Calls by others can give to such an account but not take from it. -/

/-- Burning against an allowance takes nothing from it either. -/
theorem Ledger.burn_spend_closed {L : Ledger α} {a account sender : α} {v : ℕ}
    (hclosed : ∀ s, L.allowance a s = 0) (hallow : v ≤ L.allowance account sender)
    (hv : v ≤ L.balance account) :
    (∀ s, ((L.spend account sender v).burn account v).allowance a s = 0) ∧
      ((L.spend account sender v).burn account v).totalSupply + v = L.totalSupply ∧
      ((L.spend account sender v).burn account v).balance a = L.balance a := by
  have hv' : v ≤ (L.spend account sender v).balance account := by rwa [balance_spend]
  obtain ⟨k, hk, hspend⟩ := L.spend_eq_approve (v := v) account sender
  have hzero : account = a → v = 0 ∧ k = 0 := by
    rintro rfl
    have := hclosed sender
    omega
  refine ⟨fun s => ?_, ?_, ?_⟩
  · rw [allowance_burn, hspend, allowance_approve]
    split
    · next heq => exact (hzero heq.1.symm).2
    · exact hclosed s
  · have hle := L.balance_le account
    rw [totalSupply_burn hv', totalSupply_spend]
    omega
  · rw [balance_burn hv', balance_spend]
    by_cases hacc : a = account
    · simp [(hzero hacc.symm).1]
    · rw [if_neg hacc, Nat.sub_zero]

namespace Erc20.Exact

variable {T : Erc20 α} {L L' : Ledger α} {a sender src dst spender : α} {v : ℕ} {b : Bool}

/-- An account that allows nothing only gains when others transfer. -/
theorem transfer_closed (hT : T.Exact) (hclosed : ∀ s, L.allowance a s = 0) (hs : sender ≠ a)
    (h : T.transfer L sender dst v = some (b, L')) :
    (∀ s, L'.allowance a s = 0) ∧ L'.totalSupply = L.totalSupply ∧
      L'.balance a = L.balance a + if b = true ∧ dst = a then v else 0 := by
  cases b with
  | false =>
    obtain rfl := hT.transfer_false h
    exact ⟨hclosed, rfl, by simp⟩
  | true =>
    obtain ⟨hv, rfl⟩ := hT.transfer_true h
    refine ⟨fun s => ?_, Ledger.totalSupply_move, ?_⟩
    · rw [Ledger.allowance_move]
      exact hclosed s
    · rw [Ledger.balance_move hv, if_neg hs.symm]
      simp [eq_comm]

theorem approve_closed (hT : T.Exact) (hclosed : ∀ s, L.allowance a s = 0) (hs : sender ≠ a)
    (h : T.approve L sender spender v = some (b, L')) :
    (∀ s, L'.allowance a s = 0) ∧ L'.totalSupply = L.totalSupply ∧
      L'.balance a = L.balance a := by
  rcases hT.approve_some h with rfl | rfl
  · exact ⟨hclosed, rfl, rfl⟩
  · refine ⟨fun s => ?_, rfl, rfl⟩
    rw [Ledger.allowance_approve_of_ne hs.symm]
    exact hclosed s

/-- An account that allows nothing cannot be the source of a transfer by others. -/
theorem transferFrom_closed (hT : T.Exact) (hclosed : ∀ s, L.allowance a s = 0) (hs : sender ≠ a)
    (h : T.transferFrom L sender src dst v = some (b, L')) :
    (∀ s, L'.allowance a s = 0) ∧ L'.totalSupply = L.totalSupply ∧
      L'.balance a = L.balance a + if b = true ∧ dst = a then v else 0 := by
  cases b with
  | false =>
    obtain rfl := hT.transferFrom_false h
    exact ⟨hclosed, rfl, by simp⟩
  | true =>
    obtain ⟨hv, hauth, k, hk, rfl⟩ := hT.transferFrom_true h
    -- whoever moves coins of the account moves none
    have hzero : src = a → v = 0 ∧ k = 0 := by
      rintro rfl
      have hsender := hclosed sender
      rcases hauth with rfl | hauth
      · exact absurd rfl hs
      · omega
    refine ⟨fun s => ?_, by rw [Ledger.totalSupply_move, Ledger.totalSupply_approve], ?_⟩
    · rw [Ledger.allowance_move, Ledger.allowance_approve]
      split
      · next heq => exact (hzero heq.1.symm).2
      · exact hclosed s
    · rw [Ledger.balance_move (by exact hv), Ledger.balance_approve]
      by_cases hsrc : a = src
      · simp [(hzero hsrc.symm).1]
      · rw [if_neg hsrc]
        simp [eq_comm]

end Erc20.Exact

variable [Zero α]

/-- The token also serves every call whose balance and allowance suffice. -/
structure Erc20.Standard (T : Erc20 α) : Prop extends T.Exact where
  transfer_ok {L : Ledger α} {sender dst : α} {v : ℕ} :
    sender ≠ 0 → dst ≠ 0 → v ≤ L.balance sender →
      T.transfer L sender dst v = some (true, L.move sender dst v)
  transferFrom_ok {L : Ledger α} {sender src dst : α} {v : ℕ} :
    sender ≠ 0 → src ≠ 0 → dst ≠ 0 → v ≤ L.allowance src sender → v ≤ L.balance src →
      T.transferFrom L sender src dst v = some (true, (L.spend src sender v).move src dst v)
  transferFrom_allowed {L L' : Ledger α} {sender src dst : α} {v : ℕ} :
    T.transferFrom L sender src dst v = some (true, L') →
      src ≠ 0 ∧ dst ≠ 0 ∧ v ≤ L.allowance src sender
  approve_ok {L : Ledger α} {sender spender : α} {v : ℕ} :
    sender ≠ 0 → spender ≠ 0 →
      T.approve L sender spender v = some (true, L.approve sender spender v)

/-- The base contract of OpenZeppelin's ERC-20, version 5, with its documented behaviour. -/
structure OpenZeppelinErc20 (α : Type) [Fintype α] [DecidableEq α] [Zero α] extends Erc20 α where
  _mint : Ledger α → α → ℕ → Option (Ledger α)
  _burn : Ledger α → α → ℕ → Option (Ledger α)
  _spendAllowance : Ledger α → (owner spender : α) → ℕ → Option (Ledger α)
  standard : toErc20.Standard
  /-- A transfer that fails reverts. -/
  transfer_returns {L L' : Ledger α} {sender dst : α} {v : ℕ} {b : Bool} :
    transfer L sender dst v = some (b, L') → b = true
  transferFrom_returns {L L' : Ledger α} {sender src dst : α} {v : ℕ} {b : Bool} :
    transferFrom L sender src dst v = some (b, L') → b = true
  mint_eq_some {L L' : Ledger α} {dst : α} {v : ℕ} :
    _mint L dst v = some L' ↔ dst ≠ 0 ∧ L.totalSupply + v < uint256Size ∧ L' = L.mint dst v
  burn_eq_some {L L' : Ledger α} {src : α} {v : ℕ} :
    _burn L src v = some L' ↔ src ≠ 0 ∧ v ≤ L.balance src ∧ L' = L.burn src v
  spendAllowance_some {L L' : Ledger α} {owner spender : α} {v : ℕ} :
    _spendAllowance L owner spender v = some L' →
      v ≤ L.allowance owner spender ∧ L' = L.spend owner spender v
  spendAllowance_ok {L : Ledger α} {owner spender : α} {v : ℕ} :
    owner ≠ 0 → spender ≠ 0 → v ≤ L.allowance owner spender →
      _spendAllowance L owner spender v = some (L.spend owner spender v)

namespace Erc20

variable {T : Erc20 α} {L L' : Ledger α} {sender src dst : α} {v : ℕ}

/-- A standard `transferFrom` that succeeds does what its arguments say. -/
theorem Standard.transferFrom_eq (hT : T.Standard) (hs : sender ≠ 0)
    (h : T.transferFrom L sender src dst v = some (true, L')) :
    v ≤ L.allowance src sender ∧ v ≤ L.balance src ∧
      L' = (L.spend src sender v).move src dst v := by
  obtain ⟨hsrc, hdst, hallow⟩ := hT.transferFrom_allowed h
  have hbal := (hT.transferFrom_true h).1
  rw [hT.transferFrom_ok hs hsrc hdst hallow hbal] at h
  simp only [Option.some.injEq, Prod.mk.injEq, true_and] at h
  exact ⟨hallow, hbal, h.symm⟩

end Erc20

/-! ## A reference implementation -/

/-- Serve a call exactly when its condition holds. -/
def guardSome {β : Type} (c : Prop) [Decidable c] (x : β) : Option β := if c then some x else none

@[simp] theorem guardSome_eq_some {β : Type} {c : Prop} [Decidable c] {x y : β} :
    guardSome c x = some y ↔ c ∧ y = x := by
  by_cases h : c <;> simp [guardSome, h, eq_comm]

/-- The three public functions, computed on the ledger. -/
def referenceErc20 : Erc20 α where
  transfer L sender dst v :=
    guardSome (sender ≠ 0 ∧ dst ≠ 0 ∧ v ≤ L.balance sender) (true, L.move sender dst v)
  approve L sender spender v :=
    guardSome (sender ≠ 0 ∧ spender ≠ 0) (true, L.approve sender spender v)
  transferFrom L sender src dst v :=
    guardSome (sender ≠ 0 ∧ src ≠ 0 ∧ dst ≠ 0 ∧ v ≤ L.allowance src sender ∧ v ≤ L.balance src)
      (true, (L.spend src sender v).move src dst v)

/-- There is a token as the interface describes it. -/
theorem referenceErc20_standard : (referenceErc20 : Erc20 α).Standard where
  transfer_true h := by
    simp only [referenceErc20, guardSome_eq_some, Prod.mk.injEq, true_and] at h
    exact ⟨h.1.2.2, h.2⟩
  transfer_false h := by simp [referenceErc20] at h
  approve_some h := by
    simp only [referenceErc20, guardSome_eq_some, Prod.mk.injEq] at h
    exact Or.inr h.2.2
  transferFrom_true {L L' sender src dst v} h := by
    simp only [referenceErc20, guardSome_eq_some, Prod.mk.injEq, true_and] at h
    obtain ⟨⟨-, -, -, hallow, hbal⟩, rfl⟩ := h
    obtain ⟨k, hk, hspend⟩ := L.spend_eq_approve (v := v) src sender
    exact ⟨hbal, Or.inr hallow, k, hk, by rw [hspend]⟩
  transferFrom_false h := by simp [referenceErc20] at h
  transfer_ok hs hd hv := by simp [referenceErc20, hs, hd, hv]
  transferFrom_ok hs hsrc hdst ha hb := by simp [referenceErc20, hs, hsrc, hdst, ha, hb]
  transferFrom_allowed h := by
    simp only [referenceErc20, guardSome_eq_some] at h
    exact ⟨h.1.2.1, h.1.2.2.1, h.1.2.2.2.1⟩
  approve_ok hs hsp := by simp [referenceErc20, hs, hsp]

/-- The base contract, computed on the ledger. -/
def openZeppelin : OpenZeppelinErc20 α where
  toErc20 := referenceErc20
  _mint L dst v := guardSome (dst ≠ 0 ∧ L.totalSupply + v < uint256Size) (L.mint dst v)
  _burn L src v := guardSome (src ≠ 0 ∧ v ≤ L.balance src) (L.burn src v)
  _spendAllowance L owner spender v :=
    guardSome (owner ≠ 0 ∧ spender ≠ 0 ∧ v ≤ L.allowance owner spender) (L.spend owner spender v)
  standard := referenceErc20_standard
  transfer_returns h := by
    simp only [referenceErc20, guardSome_eq_some, Prod.mk.injEq] at h
    exact h.2.1
  transferFrom_returns h := by
    simp only [referenceErc20, guardSome_eq_some, Prod.mk.injEq] at h
    exact h.2.1
  mint_eq_some := by simp [and_assoc]
  burn_eq_some := by simp [and_assoc]
  spendAllowance_some h := by
    simp only [guardSome_eq_some] at h
    exact ⟨h.1.2.2, h.2⟩
  spendAllowance_ok ho hs hv := by simp [ho, hs, hv]

end Evm

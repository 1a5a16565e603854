import UpdraftContracts.Evm.Ledger

/-!
# Accounts that trade with a hub

Many accounts keep coins with one account, the hub. On behalf of an account the hub pulls coins
in, pushes coins out, issues new ones or retires old ones. Each of the four is described by what
every account gains and loses; two of them on behalf of different accounts commute, since sums do
not depend on their order.

## Main results

* `HubOp.balance_apply`, `HubOp.totalSupply_apply` — what an operation changes
* `HubOp.balance_apply_of_ne`, `HubOp.allowance_apply_of_ne` — other accounts are left alone
* `HubOp.apply_comm` — operations for different accounts commute
-/

namespace Evm

/-- What the hub does on behalf of an account. -/
inductive HubOp where
  /-- Take coins from the account, within its allowance. -/
  | pull (v : ℕ)
  /-- Hand coins out to the account. -/
  | push (v : ℕ)
  /-- Create coins for the account. -/
  | issue (v : ℕ)
  /-- Destroy coins of the account, within its allowance. -/
  | retire (v : ℕ)

namespace HubOp

variable {α : Type} [DecidableEq α]

/-- The part of the allowance an operation uses. -/
def spent : HubOp → ℕ
  | pull v => v
  | push _ => 0
  | issue _ => 0
  | retire v => v

/-- What an operation adds to the supply. -/
def issued : HubOp → ℕ
  | issue v => v
  | _ => 0

/-- What an operation takes from the supply. -/
def retired : HubOp → ℕ
  | retire v => v
  | _ => 0

/-- What `a` gains from an operation on behalf of `u`. -/
def gain (hub u a : α) : HubOp → ℕ
  | pull v => if a = hub then v else 0
  | push v => if a = u then v else 0
  | issue v => if a = u then v else 0
  | retire _ => 0

/-- What `a` loses. -/
def loss (hub u a : α) : HubOp → ℕ
  | pull v => if a = u then v else 0
  | push v => if a = hub then v else 0
  | issue _ => 0
  | retire v => if a = u then v else 0

/-- Nobody but the account and the hub is touched. -/
theorem gain_of_ne {hub u a : α} (o : HubOp) (hu : a ≠ u) (hhub : a ≠ hub) :
    o.gain hub u a = 0 := by
  cases o <;> simp [gain, hu, hhub]

theorem loss_of_ne {hub u a : α} (o : HubOp) (hu : a ≠ u) (hhub : a ≠ hub) :
    o.loss hub u a = 0 := by
  cases o <;> simp [loss, hu, hhub]

variable [Fintype α]

/-- The ledger after an operation. -/
def apply (hub u : α) : HubOp → Ledger α → Ledger α
  | pull v, L => (L.spend u hub v).move u hub v
  | push v, L => L.move hub u v
  | issue v, L => L.mint u v
  | retire v, L => (L.spend u hub v).burn u v

/-- The operation can be carried out. -/
def Ready (hub u : α) : HubOp → Ledger α → Prop
  | pull v, L => v ≤ L.allowance u hub ∧ v ≤ L.balance u
  | push v, L => v ≤ L.balance hub
  | issue v, L => L.totalSupply + v < uint256Size
  | retire v, L => v ≤ L.allowance u hub ∧ v ≤ L.balance u

variable {hub u v : α} {L : Ledger α} {o o' : HubOp}

/-- What an operation does to all balances at once. -/
theorem balance_apply (h : o.Ready hub u L) (a : α) :
    (o.apply hub u L).balance a + o.loss hub u a = L.balance a + o.gain hub u a := by
  cases o with
  | pull n =>
    have hn : n ≤ (L.spend u hub n).balance u := by
      rw [Ledger.balance_spend]
      exact h.2
    simp only [apply, gain, loss, Ledger.balance_move hn, Ledger.balance_spend]
    have := h.2
    rcases eq_or_ne a u with rfl | hu
    · rw [if_pos rfl]
      omega
    · rw [if_neg hu]
      omega
  | push n =>
    simp only [apply, gain, loss, Ledger.balance_move h]
    rcases eq_or_ne a hub with rfl | hhub
    · have : n ≤ L.balance a := h
      rw [if_pos rfl]
      omega
    · rw [if_neg hhub]
      omega
  | issue n =>
    simp only [apply, gain, loss, Ledger.balance_mint h]
    omega
  | retire n =>
    have hn : n ≤ (L.spend u hub n).balance u := by
      rw [Ledger.balance_spend]
      exact h.2
    simp only [apply, gain, loss, Ledger.balance_burn hn, Ledger.balance_spend]
    have := h.2
    rcases eq_or_ne a u with rfl | hu
    · rw [if_pos rfl]
      omega
    · rw [if_neg hu]
      omega

/-- Issuing and retiring are all that changes the supply. -/
theorem totalSupply_apply (h : o.Ready hub u L) :
    (o.apply hub u L).totalSupply + o.retired = L.totalSupply + o.issued := by
  cases o with
  | pull n => simp [apply, issued, retired]
  | push n => simp [apply, issued, retired]
  | issue n =>
    simp only [apply, issued, retired, Ledger.totalSupply_mint h]
    omega
  | retire n =>
    have hn : n ≤ (L.spend u hub n).balance u := by
      rw [Ledger.balance_spend]
      exact h.2
    have hle := (L.spend u hub n).balance_le u
    rw [Ledger.totalSupply_spend] at hle
    simp only [apply, issued, retired, Ledger.totalSupply_burn hn, Ledger.totalSupply_spend]
    omega

/-- All that an operation does to allowances is to spend. -/
theorem allowance_apply :
    (o.apply hub u L).allowance = (L.spend u hub o.spent).allowance := by
  cases o with
  | pull n => simp [apply, spent]
  | push n => simp [apply, spent, Ledger.spend_zero]
  | issue n => simp [apply, spent, Ledger.spend_zero]
  | retire n => simp [apply, spent]

/-- An operation leaves the allowance of every other account alone. -/
theorem allowance_apply_of_ne (huv : u ≠ v) (b : α) :
    (o.apply hub v L).allowance u b = L.allowance u b := by
  rw [allowance_apply, Ledger.allowance_spend, if_neg fun h => huv h.1]

/-- An operation of one user leaves the balances of the others alone. -/
theorem balance_apply_of_ne (h : o.Ready hub v L) (huv : u ≠ v) (hhub : u ≠ hub) :
    (o.apply hub v L).balance u = L.balance u := by
  have := balance_apply h u
  rw [gain_of_ne o huv hhub, loss_of_ne o huv hhub] at this
  exact this

/-- **Commutation.** -/
theorem apply_comm (huv : u ≠ v) (hu : o.Ready hub u L) (hv : o'.Ready hub v (o.apply hub u L))
    (hv' : o'.Ready hub v L) (hu' : o.Ready hub u (o'.apply hub v L)) :
    o'.apply hub v (o.apply hub u L) = o.apply hub u (o'.apply hub v L) := by
  ext a b
  · have h₁ := balance_apply hu a
    have h₂ := balance_apply hv a
    have h₃ := balance_apply hv' a
    have h₄ := balance_apply hu' a
    omega
  · rw [allowance_apply, allowance_apply, Ledger.allowance_spend, Ledger.allowance_spend,
      allowance_apply_of_ne huv.symm, allowance_apply_of_ne huv, allowance_apply, allowance_apply,
      Ledger.allowance_spend, Ledger.allowance_spend]
    by_cases hau : a = u
    · simp [hau, huv]
    · simp [hau]
  · have h₁ := totalSupply_apply hu
    have h₂ := totalSupply_apply hv
    have h₃ := totalSupply_apply hv'
    have h₄ := totalSupply_apply hu'
    omega

end HubOp

end Evm

import Mathlib.Algebra.BigOperators.Group.Finset.Piecewise
import Mathlib.Algebra.Order.BigOperators.Group.Finset
import Mathlib.Data.Fintype.BigOperators
import UpdraftContracts.Evm.Basic

/-!
# Token ledgers

The state of a fungible token: what every account holds, who may spend it, and how much there is.
That the balances add up to the supply, and that the supply is a word, are fields of the structure,
so a ledger whose balances could overflow cannot be built. In particular crediting an account
during a transfer never leaves the word range, which is why implementations may leave that addition
unchecked.

`move`, `mint` and `burn` are total. Outside their domain they return the ledger unchanged; the
side condition is a hypothesis of the lemmas, not an argument of the operation.

## Main results

* `balance_move`, `balance_mint`, `balance_burn` — each operation, pointwise
* `sum_debit_credit`, `sum_credit`, `sum_debit` — what an entry contributes to a sum of balances
* `sum_weighted_debit_credit` — and to a sum of weighted balances
* `burn_move` — handing coins over and burning them there is burning them at their owner
-/

namespace Evm

/-- Balances, allowances and supply of a token whose holders are `α`. -/
@[ext] structure Ledger (α : Type) [Fintype α] where
  /-- What an account holds. -/
  balance : α → ℕ
  /-- `allowance owner spender` is what `spender` may still move on behalf of `owner`. -/
  allowance : α → α → ℕ
  /-- The number of coins in existence. -/
  totalSupply : ℕ
  /-- Every coin is held by someone. -/
  sum_balance : ∑ a, balance a = totalSupply
  /-- The supply is a word. -/
  totalSupply_lt : totalSupply < uint256Size

namespace Ledger

variable {α : Type} [Fintype α]

/-- The ledger before any coin exists and before any approval. -/
def empty : Ledger α where
  balance _ := 0
  allowance _ _ := 0
  totalSupply := 0
  sum_balance := by simp
  totalSupply_lt := by decide

/-- No balance exceeds the supply. -/
theorem balance_le (L : Ledger α) (a : α) : L.balance a ≤ L.totalSupply := by
  rw [← L.sum_balance]
  exact Finset.single_le_sum (fun _ _ => Nat.zero_le _) (Finset.mem_univ a)

variable [DecidableEq α]

/-! ## Moving coins -/

/-- Adding `v` at one place and removing it at another leaves the sum as it was. -/
theorem sum_debit_credit (f : α → ℕ) {src : α} (dst : α) {v : ℕ} (h : v ≤ f src) :
    ∑ a, (f a - (if a = src then v else 0) + if a = dst then v else 0) = ∑ a, f a := by
  have hdebit : ∑ a, (f a - if a = src then v else 0) + v = ∑ a, f a := by
    have hv : v = ∑ a, if a = src then v else 0 := by simp
    conv_lhs => rw [hv]
    rw [← Finset.sum_add_distrib]
    refine Finset.sum_congr rfl fun a _ => ?_
    rcases eq_or_ne a src with rfl | ha
    · simpa using Nat.sub_add_cancel h
    · simp [ha]
  rw [Finset.sum_add_distrib, ← hdebit]
  simp

theorem sum_credit (f : α → ℕ) (dst : α) (v : ℕ) :
    ∑ a, (f a + if a = dst then v else 0) = ∑ a, f a + v := by
  simp [Finset.sum_add_distrib]

theorem sum_debit (f : α → ℕ) {src : α} {v : ℕ} (h : v ≤ f src) :
    ∑ a, (f a - if a = src then v else 0) + v = ∑ a, f a := by
  rw [← sum_credit _ src v]
  exact sum_debit_credit f src h

/-- Moving `v` between accounts of different weight. Weights may change on the way, but not where
there is something to weigh. -/
theorem sum_weighted_debit_credit (f : α → ℕ) {w w' : α → ℕ} {src : α} (dst : α) {v : ℕ}
    (hv : v ≤ f src) (hw : ∀ a, f a ≠ 0 → w' a = w a) :
    ∑ a, (f a - (if a = src then v else 0) + if a = dst then v else 0) * w' a + v * w src
      = ∑ a, f a * w a + v * w' dst := by
  have hkept : ∀ a, f a * w' a = f a * w a := fun a => by
    rcases Nat.eq_zero_or_pos (f a) with hzero | hpos
    · rw [hzero, Nat.zero_mul, Nat.zero_mul]
    · rw [hw a hpos.ne']
  have hsrc : v * w' src = v * w src := by
    rcases Nat.eq_zero_or_pos (f src) with hzero | hpos
    · have hnone : v = 0 := by omega
      rw [hnone, Nat.zero_mul, Nat.zero_mul]
    · rw [hw src hpos.ne']
  have hentry : ∀ a, (f a - (if a = src then v else 0) + if a = dst then v else 0) * w' a
        + (if a = src then v * w src else 0)
      = f a * w a + if a = dst then v * w' dst else 0 := by
    intro a
    have hdst : (if a = dst then v else 0) * w' a = if a = dst then v * w' dst else 0 := by
      split
      · next heq => rw [heq]
      · exact Nat.zero_mul _
    rw [Nat.add_mul, hdst, ← hkept]
    rcases eq_or_ne a src with rfl | hne
    · have hmul := Nat.mul_le_mul_right (w' a) hv
      rw [if_pos rfl, if_pos rfl, ← hsrc, Nat.sub_mul]
      omega
    · rw [if_neg hne, if_neg hne, Nat.sub_zero, Nat.add_zero]
  have hsum := Finset.sum_congr rfl fun a (_ : a ∈ Finset.univ) => hentry a
  simpa only [Finset.sum_add_distrib, Finset.sum_ite_eq', Finset.mem_univ, if_true] using hsum

/-- Overwriting one entry changes the sum by the difference. -/
theorem sum_update_add (f : α → ℕ) (a : α) (n : ℕ) :
    ∑ x, Function.update f a n x + f a = ∑ x, f x + n := by
  rw [Finset.sum_update_of_mem (Finset.mem_univ a),
    Finset.sum_eq_add_sum_sdiff_singleton_of_mem (Finset.mem_univ a) f]
  omega

/-- Move `v` coins from `src` to `dst`. -/
def move (L : Ledger α) (src dst : α) (v : ℕ) : Ledger α :=
  if h : v ≤ L.balance src then
    { L with
      balance := fun a => L.balance a - (if a = src then v else 0) + if a = dst then v else 0
      sum_balance := (sum_debit_credit L.balance dst h).trans L.sum_balance }
  else L

/-- Create `v` coins at `dst`. -/
def mint (L : Ledger α) (dst : α) (v : ℕ) : Ledger α :=
  if h : L.totalSupply + v < uint256Size then
    { L with
      balance := fun a => L.balance a + if a = dst then v else 0
      totalSupply := L.totalSupply + v
      sum_balance := by rw [sum_credit, L.sum_balance]
      totalSupply_lt := h }
  else L

/-- Destroy `v` coins of `src`. -/
def burn (L : Ledger α) (src : α) (v : ℕ) : Ledger α :=
  if h : v ≤ L.balance src then
    { L with
      balance := fun a => L.balance a - if a = src then v else 0
      totalSupply := L.totalSupply - v
      sum_balance := by rw [← L.sum_balance, ← sum_debit L.balance h, Nat.add_sub_cancel]
      totalSupply_lt := lt_of_le_of_lt (Nat.sub_le _ _) L.totalSupply_lt }
  else L

/-- Let `spender` move up to `v` coins of `owner`. -/
def approve (L : Ledger α) (owner spender : α) (v : ℕ) : Ledger α :=
  { L with
    allowance := Function.update L.allowance owner (Function.update (L.allowance owner) spender v) }

/-- Use up `v` of an allowance. An allowance of `type(uint256).max` is unlimited and stays. -/
def spend (L : Ledger α) (owner spender : α) (v : ℕ) : Ledger α :=
  if L.allowance owner spender = uint256Max then L
  else L.approve owner spender (L.allowance owner spender - v)

variable {L : Ledger α} {src dst : α} {v : ℕ}

/-- The debit comes first, so that a transfer to oneself changes nothing. -/
theorem balance_move (h : v ≤ L.balance src) (a : α) :
    (L.move src dst v).balance a
      = L.balance a - (if a = src then v else 0) + if a = dst then v else 0 := by
  rw [move, dif_pos h]

@[simp] theorem totalSupply_move : (L.move src dst v).totalSupply = L.totalSupply := by
  by_cases h : v ≤ L.balance src <;> simp [move, h]

@[simp] theorem allowance_move : (L.move src dst v).allowance = L.allowance := by
  by_cases h : v ≤ L.balance src <;> simp [move, h]

theorem balance_mint (h : L.totalSupply + v < uint256Size) (a : α) :
    (L.mint dst v).balance a = L.balance a + if a = dst then v else 0 := by
  rw [mint, dif_pos h]

theorem totalSupply_mint (h : L.totalSupply + v < uint256Size) :
    (L.mint dst v).totalSupply = L.totalSupply + v := by
  rw [mint, dif_pos h]

@[simp] theorem allowance_mint : (L.mint dst v).allowance = L.allowance := by
  by_cases h : L.totalSupply + v < uint256Size <;> simp [mint, h]

theorem balance_burn (h : v ≤ L.balance src) (a : α) :
    (L.burn src v).balance a = L.balance a - if a = src then v else 0 := by
  rw [burn, dif_pos h]

theorem totalSupply_burn (h : v ≤ L.balance src) :
    (L.burn src v).totalSupply = L.totalSupply - v := by
  rw [burn, dif_pos h]

@[simp] theorem allowance_burn : (L.burn src v).allowance = L.allowance := by
  by_cases h : v ≤ L.balance src <;> simp [burn, h]

@[simp] theorem balance_approve {o s : α} : (L.approve o s v).balance = L.balance := rfl

@[simp] theorem totalSupply_approve {o s : α} : (L.approve o s v).totalSupply = L.totalSupply := rfl

theorem allowance_approve (o s a b : α) :
    (L.approve o s v).allowance a b = if a = o ∧ b = s then v else L.allowance a b := by
  rcases eq_or_ne a o with rfl | ha
  · rcases eq_or_ne b s with rfl | hb
    · simp [approve]
    · simp [approve, hb]
  · simp [approve, ha]

theorem allowance_approve_of_ne {o s a b : α} (h : a ≠ o) :
    (L.approve o s v).allowance a b = L.allowance a b := by
  rw [allowance_approve, if_neg fun hc => h hc.1]

@[simp] theorem balance_spend {o s : α} : (L.spend o s v).balance = L.balance := by
  by_cases h : L.allowance o s = uint256Max <;> simp [spend, h]

@[simp] theorem totalSupply_spend {o s : α} : (L.spend o s v).totalSupply = L.totalSupply := by
  by_cases h : L.allowance o s = uint256Max <;> simp [spend, h]

/-- An infinite allowance is not used up. -/
theorem allowance_spend (o s a b : α) :
    (L.spend o s v).allowance a b
      = if a = o ∧ b = s ∧ L.allowance o s ≠ uint256Max then L.allowance o s - v
        else L.allowance a b := by
  by_cases h : L.allowance o s = uint256Max
  · rw [spend, if_pos h]
    simp [h]
  · rw [spend, if_neg h, allowance_approve]
    simp [h]

theorem allowance_spend_of_ne {o s a b : α} (h : a ≠ o) :
    (L.spend o s v).allowance a b = L.allowance a b := by
  rw [allowance_spend, if_neg fun hc => h hc.1]

/-- Spending nothing changes nothing. -/
theorem spend_zero {o s : α} : L.spend o s 0 = L := by
  by_cases h : L.allowance o s = uint256Max
  · rw [spend, if_pos h]
  · rw [spend, if_neg h, Nat.sub_zero]
    simp [approve]

/-- Spending only ever lowers one entry. -/
theorem spend_eq_approve (o s : α) : ∃ k ≤ L.allowance o s, L.spend o s v = L.approve o s k := by
  by_cases h : L.allowance o s = uint256Max
  · refine ⟨L.allowance o s, le_rfl, ?_⟩
    rw [spend, if_pos h]
    simp [approve]
  · exact ⟨L.allowance o s - v, Nat.sub_le _ _, if_neg h⟩

/-- Handing coins to `dst` and burning them there is burning them at their owner. -/
theorem burn_move (h : v ≤ L.balance src) : (L.move src dst v).burn dst v = L.burn src v := by
  have hdst : v ≤ (L.move src dst v).balance dst := by
    rw [balance_move h, if_pos rfl]
    exact Nat.le_add_left _ _
  ext a
  · rw [balance_burn hdst, balance_move h, balance_burn h, Nat.add_sub_cancel]
  · rw [allowance_burn, allowance_move, allowance_burn]
  · rw [totalSupply_burn hdst, totalSupply_move, totalSupply_burn h]

end Ledger

end Evm

import UpdraftContracts.Evm.Basic

/-!
# Native balances

The ETH of all accounts. A call may carry some of the sender's; if the sender does not have it, the
call fails before it reaches the contract. ETH can also be forced on a contract. Then no code of it
runs.

## Main results

* `pay_eq_ok` — exactly when a call that carries ETH reaches the contract
-/

namespace Evm

namespace Ether

variable {α ε : Type} [DecidableEq α] {eth eth' : α → ℕ} {src dst a : α} {v : ℕ}

/-- `v` goes from `src` to `dst`. -/
def move (eth : α → ℕ) (src dst : α) (v : ℕ) (a : α) : ℕ :=
  eth a - (if a = src then v else 0) + if a = dst then v else 0

/-- The ETH that comes with a call. -/
def pay (eth : α → ℕ) (src dst : α) (v : ℕ) : Exec ε (α → ℕ) :=
  if v ≤ eth src then .ok (move eth src dst v) else .error .callee

@[simp] theorem pay_eq_ok :
    (pay eth src dst v : Exec ε (α → ℕ)) = .ok eth' ↔ v ≤ eth src ∧ eth' = move eth src dst v := by
  by_cases h : v ≤ eth src <;> simp [pay, h, eq_comm]

theorem move_src (h : src ≠ dst) : move eth src dst v src = eth src - v := by
  rw [move, if_pos rfl, if_neg h, Nat.add_zero]

theorem move_dst (h : src ≠ dst) : move eth src dst v dst = eth dst + v := by
  rw [move, if_neg h.symm, if_pos rfl, Nat.sub_zero]

end Ether

end Evm

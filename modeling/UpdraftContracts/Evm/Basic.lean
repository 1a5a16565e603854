import Mathlib.Algebra.Group.Nat.Defs
import Mathlib.Data.Fintype.Card
import Mathlib.Tactic.Common

/-!
# Words, addresses and reverting computations

A call of a contract either returns or reverts. `Exec ε α` is the type of such calls: `ε` lists
the custom errors the contract declares, and `Revert ε` adds the two other ways a call can end
early, a panic inserted by the compiler and a revert bubbled up from a called contract.

Words are natural numbers and every operation the compiler checks is checked here. Nothing is
reduced modulo `2 ^ 256`: a checked operation that would leave the word range panics instead.

## Main results

* `bind_eq_ok`, `revertIf_eq_ok`, `ofCallee_eq_ok` — inversion of a successful computation
* `checkedAdd_eq_ok`, `checkedSub_eq_ok`, `checkedMul_eq_ok`, `checkedDiv_eq_ok` — a checked
  operation returns exactly when the exact result is in range, and then it is that result
-/

namespace Evm

/-- One more than the largest `uint256`. -/
def uint256Size : ℕ := 2 ^ 256

/-- `type(uint256).max`. -/
def uint256Max : ℕ := uint256Size - 1

/-- An account or a contract. -/
def Address : Type := Fin (2 ^ 160)

namespace Address

instance : DecidableEq Address := inferInstanceAs (DecidableEq (Fin (2 ^ 160)))

/-- Never unfolded: there are too many addresses to enumerate. -/
@[irreducible] instance fintype : Fintype Address := inferInstanceAs (Fintype (Fin (2 ^ 160)))

instance (n : ℕ) : OfNat Address n := ⟨Fin.ofNat (2 ^ 160) n⟩

instance : Zero Address := ⟨0⟩

/-- `address(uint160(n))` -/
def ofNat (n : ℕ) : Address := ⟨n % 2 ^ 160, Nat.mod_lt n (by decide)⟩

end Address

/-- The compiler-inserted panics: codes `0x11`, `0x12` and `0x32`. -/
inductive Panic where
  | arithmetic
  | divisionByZero
  | indexOutOfBounds
  deriving DecidableEq, Repr

/-- Why a call ended without returning. -/
inductive Revert (ε : Type) where
  /-- A check inserted by the compiler failed. -/
  | panic (p : Panic)
  /-- The contract reverted with one of its own errors. -/
  | custom (e : ε)
  /-- A contract it called reverted, or there was none at the address it called. -/
  | callee
  deriving DecidableEq, Repr

/-- A computation that returns or reverts. -/
abbrev Exec (ε α : Type) : Type := Except (Revert ε) α

variable {ε α β : Type}

/-- The call returned. -/
def Succeeds (x : Exec ε α) : Prop := ∃ a, x = .ok a

instance (x : Exec ε α) : Decidable (Succeeds x) :=
  match x with
  | .ok a => isTrue ⟨a, rfl⟩
  | .error _ => isFalse fun ⟨_, h⟩ => nomatch h

@[simp] theorem succeeds_ok (a : α) : Succeeds (.ok a : Exec ε α) := ⟨a, rfl⟩

@[simp] theorem not_succeeds_error (e : Revert ε) : ¬ Succeeds (.error e : Exec ε α) :=
  fun ⟨_, h⟩ => nomatch h

/-- A sequence goes through when both parts do. -/
theorem bind_eq_ok {x : Exec ε α} {f : α → Exec ε β} {b : β} :
    (x >>= f) = .ok b ↔ ∃ a, x = .ok a ∧ f a = .ok b := by
  cases x <;> simp [bind, Except.bind]

/-- A call that went through goes on. -/
theorem ok_bind (a : α) (f : α → Exec ε β) : ((.ok a : Exec ε α) >>= f) = f a := rfl

/-- A revert ends everything. -/
theorem error_bind (e : Revert ε) (f : α → Exec ε β) :
    ((.error e : Exec ε α) >>= f) = .error e := rfl

theorem pure_eq_ok {a b : α} : (pure a : Exec ε α) = .ok b ↔ b = a := by
  simp [pure, Except.pure, eq_comm]

theorem map_eq_ok {f : α → β} {x : Exec ε α} {b : β} :
    f <$> x = .ok b ↔ ∃ a, x = .ok a ∧ b = f a := by
  cases x <;> simp [Functor.map, Except.map, eq_comm]

/-! ## Leaving early -/

/-- `if (c) revert e();` -/
def revertIf (c : Prop) [Decidable c] (e : ε) : Exec ε Unit :=
  if c then .error (.custom e) else .ok ()

@[simp] theorem revertIf_eq_ok {c : Prop} [Decidable c] {e : ε} {u : Unit} :
    revertIf c e = .ok u ↔ ¬ c := by
  by_cases h : c <;> simp [revertIf, h]

/-- The outcome of a call to another contract, `none` standing for a revert there. -/
def ofCallee : Option α → Exec ε α
  | some a => .ok a
  | none => .error .callee

/-- Whatever the callee says, its revert is ours. -/
@[simp] theorem ofCallee_eq_ok {x : Option α} {a : α} :
    (ofCallee x : Exec ε α) = .ok a ↔ x = some a := by
  cases x <;> simp [ofCallee]

/-- A call to a contract with errors of its own. Its revert is bubbled up. -/
def bubble {ε' : Type} : Exec ε' α → Exec ε α
  | .ok a => .ok a
  | .error _ => .error .callee

@[simp] theorem bubble_eq_ok {ε' : Type} {x : Exec ε' α} {a : α} :
    (bubble x : Exec ε α) = .ok a ↔ x = .ok a := by
  cases x <;> simp [bubble]

/-! ## Checked arithmetic -/

/-- `a + b`, panicking on overflow. -/
def checkedAdd (a b : ℕ) : Exec ε ℕ :=
  if a + b < uint256Size then .ok (a + b) else .error (.panic .arithmetic)

/-- `a - b`, panicking on underflow. -/
def checkedSub (a b : ℕ) : Exec ε ℕ :=
  if b ≤ a then .ok (a - b) else .error (.panic .arithmetic)

/-- `a * b`, panicking on overflow. -/
def checkedMul (a b : ℕ) : Exec ε ℕ :=
  if a * b < uint256Size then .ok (a * b) else .error (.panic .arithmetic)

/-- `a / b`, panicking when `b` is zero. -/
def checkedDiv (a b : ℕ) : Exec ε ℕ :=
  if b = 0 then .error (.panic .divisionByZero) else .ok (a / b)

/-- `a % b`, panicking when `b` is zero. -/
def checkedMod (a b : ℕ) : Exec ε ℕ :=
  if b = 0 then .error (.panic .divisionByZero) else .ok (a % b)

/-- `xs[i]`, panicking when `i` is not an index of `xs`. -/
def checkedIndex (xs : List α) (i : ℕ) : Exec ε α :=
  match xs[i]? with
  | some x => .ok x
  | none => .error (.panic .indexOutOfBounds)

/-- Checked arithmetic returns the exact result or reverts. -/
@[simp] theorem checkedAdd_eq_ok {a b c : ℕ} :
    (checkedAdd a b : Exec ε ℕ) = .ok c ↔ a + b < uint256Size ∧ c = a + b := by
  by_cases h : a + b < uint256Size <;> simp [checkedAdd, h, eq_comm]

@[simp] theorem checkedSub_eq_ok {a b c : ℕ} :
    (checkedSub a b : Exec ε ℕ) = .ok c ↔ b ≤ a ∧ c = a - b := by
  by_cases h : b ≤ a <;> simp [checkedSub, h, eq_comm]

@[simp] theorem checkedMul_eq_ok {a b c : ℕ} :
    (checkedMul a b : Exec ε ℕ) = .ok c ↔ a * b < uint256Size ∧ c = a * b := by
  by_cases h : a * b < uint256Size <;> simp [checkedMul, h, eq_comm]

@[simp] theorem checkedDiv_eq_ok {a b c : ℕ} :
    (checkedDiv a b : Exec ε ℕ) = .ok c ↔ b ≠ 0 ∧ c = a / b := by
  by_cases h : b = 0 <;> simp [checkedDiv, h, eq_comm]

@[simp] theorem checkedMod_eq_ok {a b c : ℕ} :
    (checkedMod a b : Exec ε ℕ) = .ok c ↔ b ≠ 0 ∧ c = a % b := by
  by_cases h : b = 0 <;> simp [checkedMod, h, eq_comm]

@[simp] theorem checkedIndex_eq_ok {xs : List α} {i : ℕ} {x : α} :
    (checkedIndex xs i : Exec ε α) = .ok x ↔ xs[i]? = some x := by
  rw [checkedIndex]
  cases xs[i]? <;> simp

end Evm

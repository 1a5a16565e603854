import Mathlib.Algebra.Group.Int.Defs
import Mathlib.Tactic.Abel
import UpdraftContracts.Evm.Basic

/-!
# Runs

A contract system takes one action after another. `step` is total: a transaction that reverts
leaves the state as it was (`settle`), so every sequence of actions is a run and every state a
run ends in is reachable.

`Along ok s as` says that each action of the run is admissible at the state it is taken in.
Admissibility depends on the state because conditions such as "the price does not fall" do.

## Main results

* `run_invariant` — what every admissible step preserves holds at the end of every run
* `run_tally` — a quantity that every step changes by `f` ends changed by the tally of `f`
* `tally_eq_zero_iff` — a tally is zero exactly when every step of the run adds nothing
-/

namespace Evm

variable {σ ι ε : Type}

/-- The state after a transaction: the new one if it returned, the old one if it reverted. -/
def settle (s : σ) : Exec ε σ → σ
  | .ok s' => s'
  | .error _ => s

@[simp] theorem settle_ok (s s' : σ) : settle s (.ok s' : Exec ε σ) = s' := rfl

@[simp] theorem settle_error (s : σ) (e : Revert ε) : settle s (.error e : Exec ε σ) = s := rfl

theorem settle_of_not_succeeds {s : σ} {x : Exec ε σ} (h : ¬ Succeeds x) : settle s x = s := by
  cases x with
  | ok s' => exact absurd (succeeds_ok s') h
  | error e => rfl

/-- If there is an outcome, it is what is settled for. -/
theorem Succeeds.eq_ok_settle {x : Exec ε σ} (h : Succeeds x) (s : σ) : x = .ok (settle s x) := by
  obtain ⟨s', rfl⟩ := h
  rfl

/-- What holds before a transaction, and after it whenever it returns, holds after it. -/
theorem settle_induction {P : σ → Prop} {s : σ} {x : Exec ε σ} (hs : P s)
    (hx : ∀ s', x = .ok s' → P s') : P (settle s x) := by
  cases x with
  | ok s' => exact hx s' rfl
  | error e => exact hs

variable (step : σ → ι → σ)

/-- The state after a sequence of actions. -/
def run (s : σ) (as : List ι) : σ := as.foldl step s

@[simp] theorem run_nil (s : σ) : run step s [] = s := rfl

@[simp] theorem run_cons (s : σ) (a : ι) (as : List ι) :
    run step s (a :: as) = run step (step s a) as := rfl

/-- Every action of the run is admissible at the state it is taken in. -/
def Along (ok : σ → ι → Prop) : σ → List ι → Prop
  | _, [] => True
  | s, a :: as => ok s a ∧ Along ok (step s a) as

/-- The sum of `f` over the steps of a run. -/
def tally (f : σ → ι → ℕ) : σ → List ι → ℕ
  | _, [] => 0
  | s, a :: as => f s a + tally f (step s a) as

variable {step} {ok : σ → ι → Prop} {s : σ} {as : List ι}

/-- A condition that every action meets is met along every run. -/
theorem along_of_forall (h : ∀ s a, ok s a) : Along step ok s as := by
  induction as generalizing s with
  | nil => exact trivial
  | cons a as ih => exact ⟨h s a, ih⟩

theorem Along.imp {p q : σ → ι → Prop} (himp : ∀ s a, p s a → q s a) (h : Along step p s as) :
    Along step q s as := by
  induction as generalizing s with
  | nil => exact trivial
  | cons a as ih => exact ⟨himp s a h.1, ih h.2⟩

theorem along_and {p q : σ → ι → Prop} (hp : Along step p s as) (hq : Along step q s as) :
    Along step (fun s a => p s a ∧ q s a) s as := by
  induction as generalizing s with
  | nil => exact trivial
  | cons a as ih => exact ⟨⟨hp.1, hq.1⟩, ih hp.2 hq.2⟩

/-- What follows from admissibility and an invariant holds all along an admissible run. -/
theorem along_of_invariant {P : σ → Prop} (hstep : ∀ s a, ok s a → P s → P (step s a))
    {p : σ → ι → Prop} (hp : ∀ s a, ok s a → P s → p s a) (h : Along step ok s as) (hs : P s) :
    Along step p s as := by
  induction as generalizing s with
  | nil => exact trivial
  | cons a as ih => exact ⟨hp s a h.1 hs, ih h.2 (hstep s a h.1 hs)⟩

/-- Two conditions that agree on admissible actions agree along admissible runs. -/
theorem along_congr {p q : σ → ι → Prop} (h : Along step ok s as)
    (hiff : ∀ s a, ok s a → (p s a ↔ q s a)) : Along step p s as ↔ Along step q s as := by
  induction as generalizing s with
  | nil => exact Iff.rfl
  | cons a as ih => exact and_congr (hiff s a h.1) (ih h.2)

theorem tally_eq_zero_iff {f : σ → ι → ℕ} :
    tally step f s as = 0 ↔ Along step (fun s a => f s a = 0) s as := by
  induction as generalizing s with
  | nil => exact iff_of_true rfl trivial
  | cons a as ih =>
    rw [tally, Nat.add_eq_zero_iff, ih]
    rfl

/-- **Invariants.** -/
theorem run_invariant {P : σ → Prop} (hstep : ∀ s a, ok s a → P s → P (step s a))
    (h : Along step ok s as) (hs : P s) : P (run step s as) := by
  induction as generalizing s with
  | nil => exact hs
  | cons a as ih => exact ih h.2 (hstep s a h.1 hs)

/-- **Quantities.** If every admissible step from a state satisfying `P` changes `m` by `f`, then
the run changes it by the tally. -/
theorem run_tally {P : σ → Prop} (hstep : ∀ s a, ok s a → P s → P (step s a)) {m : σ → ℤ}
    {f : σ → ι → ℕ} (hm : ∀ s a, ok s a → P s → m (step s a) = m s + f s a)
    (h : Along step ok s as) (hs : P s) : m (run step s as) = m s + tally step f s as := by
  induction as generalizing s with
  | nil => simp [tally]
  | cons a as ih =>
    rw [run_cons, ih h.2 (hstep s a h.1 hs), hm s a h.1 hs, tally]
    rw [Nat.cast_add]
    abel

end Evm

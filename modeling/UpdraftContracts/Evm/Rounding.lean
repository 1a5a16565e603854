import Mathlib.Algebra.BigOperators.Group.Finset.Basic
import Mathlib.Algebra.Order.BigOperators.Group.Finset
import Mathlib.Data.Nat.ModEq
import Mathlib.Tactic.Ring

/-!
# Rounding down

Fixed-point contracts multiply first and divide last, and the division rounds down. These are the
facts about sums and differences of rounded values that comparisons of such amounts rest on.

The second part compares growth that is folded into the amount now and then, with growth computed
once at the end. Each folding loses less than one unit by rounding, and from then on what was folded
in grows as well.

## Main results

* `div_le_sub_div_add`, `sub_div_add_le` — what a rounded value loses when something is taken away
* `FoldedAtLeast.grown_le` — folding `j` times loses at most `j` units
* `FoldedAtMost.le_grown` — folding `j` times gains at most `j` units, as long as what was folded in
  earns at most one unit at a time
-/

namespace Evm

/-- Rounding each part loses at least as much as rounding the whole. -/
theorem sum_div_le_div_sum {ι : Type} (s : Finset ι) (f : ι → ℕ) (c : ℕ) :
    ∑ i ∈ s, f i / c ≤ (∑ i ∈ s, f i) / c := by
  classical
  induction s using Finset.induction_on with
  | empty => simp
  | insert i s hi ih =>
    rw [Finset.sum_insert hi, Finset.sum_insert hi]
    exact (Nat.add_le_add_left ih _).trans Nat.div_add_div_le_add_div

section Difference

variable {c k x y : ℕ}

/-- Taking away at most `k` units lowers the rounded value by at most `k`. -/
theorem div_le_sub_div_add (hc : 0 < c) (h : y ≤ k * c) : x / c ≤ (x - y) / c + k := by
  rw [← Nat.add_mul_div_right _ _ hc]
  exact Nat.div_le_div_right (by omega)

/-- Taking away at least `k` units lowers it by at least `k`. -/
theorem sub_div_add_le (hc : 0 < c) (h : k * c ≤ y) (hy : y ≤ x) : (x - y) / c + k ≤ x / c := by
  rw [← Nat.add_mul_div_right _ _ hc]
  exact Nat.div_le_div_right (by omega)

end Difference

/-! ## Folding growth into the amount -/

/-- The amount `k` after a time `d` at rate `r`, which is in units of `1 / P`. -/
def grown (P r d k : ℕ) : ℕ := k * (P + r * d) / P

variable {P r d e j k p : ℕ}

/-- Interest is never negative. -/
theorem le_grown (hP : 0 < P) : k ≤ grown P r d k := by
  rw [grown, Nat.le_div_iff_mul_le hP]
  exact Nat.mul_le_mul_left _ (Nat.le_add_right _ _)

theorem mul_grown_le : P * grown P r d k ≤ k * (P + r * d) := Nat.mul_div_le _ _

theorem le_mul_grown (hP : 0 < P) : k * (P + r * d) ≤ P * grown P r d k + (P - 1) := by
  have hmod : k * (P + r * d) % P ≤ P - 1 := Nat.le_sub_one_of_lt (Nat.mod_lt _ hP)
  have hdiv : P * grown P r d k + k * (P + r * d) % P = k * (P + r * d) := Nat.div_add_mod _ _
  omega

/-- `k` is at least what `p` has become in a time `e`, folded `j` times. -/
structure FoldedAtLeast (P r p j e k : ℕ) : Prop where
  le : p ≤ k
  lower : p * (P + r * e) ≤ P * k + j * (P - 1)

theorem FoldedAtLeast.refl : FoldedAtLeast P r p 0 0 p :=
  ⟨le_rfl, by simp [Nat.mul_comm]⟩

theorem FoldedAtLeast.mono (h : FoldedAtLeast P r p j e k) : FoldedAtLeast P r p (j + 1) e k :=
  ⟨h.le, h.lower.trans (Nat.add_le_add_left (Nat.mul_le_mul_right _ (Nat.le_succ j)) _)⟩

/-- More can be added at any time. -/
theorem FoldedAtLeast.add {k' : ℕ} (h : FoldedAtLeast P r p j e k) (hk : k ≤ k') :
    FoldedAtLeast P r p j e k' :=
  ⟨h.le.trans hk, h.lower.trans (Nat.add_le_add_right (Nat.mul_le_mul_left _ hk) _)⟩

/-- Each time the interest is added, less than one unit is lost to rounding. -/
theorem FoldedAtLeast.fold (hP : 0 < P) (h : FoldedAtLeast P r p j e k) (d : ℕ) :
    FoldedAtLeast P r p (j + 1) (e + d) (grown P r d k) := by
  refine ⟨h.le.trans (le_grown hP), ?_⟩
  calc p * (P + r * (e + d)) = p * (P + r * e) + p * (r * d) := by ring
    _ ≤ P * k + j * (P - 1) + k * (r * d) :=
        Nat.add_le_add h.lower (Nat.mul_le_mul_right _ h.le)
    _ = k * (P + r * d) + j * (P - 1) := by ring
    _ ≤ P * grown P r d k + (P - 1) + j * (P - 1) := Nat.add_le_add_right (le_mul_grown hP) _
    _ = P * grown P r d k + (j + 1) * (P - 1) := by ring

/-- **What rounding loses.** -/
theorem FoldedAtLeast.grown_le (hP : 0 < P) (h : FoldedAtLeast P r p j e k) (d : ℕ) :
    grown P r (e + d) p ≤ grown P r d k + j := by
  have hlower := (h.fold hP d).lower
  have hless : (j + 1) * (P - 1) < (j + 1) * P :=
    Nat.mul_lt_mul_of_pos_left (Nat.sub_lt hP Nat.one_pos) (Nat.succ_pos j)
  refine Nat.le_of_lt_succ (Nat.div_lt_of_lt_mul ?_)
  calc p * (P + r * (e + d)) ≤ P * grown P r d k + (j + 1) * (P - 1) := hlower
    _ < P * grown P r d k + (j + 1) * P := Nat.add_lt_add_left hless _
    _ = P * (grown P r d k + j + 1) := by ring

/-- `k` is at most what `p` has become in a time `e`, folded `j` times. The first folding gains
nothing. -/
structure FoldedAtMost (P r p j e k : ℕ) : Prop where
  fresh : j = 0 → k = p
  upper : P * k ≤ p * (P + r * e) + (j - 1) * P

theorem FoldedAtMost.refl : FoldedAtMost P r p 0 0 p :=
  ⟨fun _ => rfl, by simp [Nat.mul_comm]⟩

theorem FoldedAtMost.mono (h : FoldedAtMost P r p j e k) : FoldedAtMost P r p (j + 1) e k :=
  ⟨fun habs => absurd habs (Nat.succ_ne_zero j),
    h.upper.trans (Nat.add_le_add_left (Nat.mul_le_mul_right _ (Nat.sub_le j 1)) _)⟩

theorem FoldedAtMost.mul_grown_le (hle : p ≤ k) (h : FoldedAtMost P r p j e k)
    (hgain : (k - p) * r * d ≤ P) :
    P * grown P r d k ≤ p * (P + r * (e + d)) + j * P := by
  obtain ⟨x, rfl⟩ := Nat.exists_eq_add_of_le hle
  have hx : p + x - p = x := Nat.add_sub_cancel_left p x
  rw [hx] at hgain
  have hupper := h.upper
  have hexpand : (p + x) * (P + r * d) = P * (p + x) + p * (r * d) + x * r * d := by ring
  have hlinear : p * (P + r * (e + d)) = p * (P + r * e) + p * (r * d) := by ring
  have hgrown : P * grown P r d (p + x) ≤ (p + x) * (P + r * d) := Evm.mul_grown_le
  rcases Nat.eq_zero_or_pos j with rfl | hj
  · -- nothing has been folded in yet
    obtain rfl : x = 0 := Nat.add_eq_left.mp (h.fresh rfl)
    simp only [Nat.zero_mul, Nat.zero_sub, Nat.add_zero] at *
    omega
  · have hsucc : (j - 1) * P + P = j * P := by
      rw [← Nat.succ_mul, Nat.succ_eq_add_one, Nat.sub_add_cancel hj]
    omega

/-- Each time the interest is added, at most one unit comes on top of simple interest. -/
theorem FoldedAtMost.fold (hle : p ≤ k) (h : FoldedAtMost P r p j e k)
    (hgain : (k - p) * r * d ≤ P) : FoldedAtMost P r p (j + 1) (e + d) (grown P r d k) :=
  ⟨fun habs => absurd habs (Nat.succ_ne_zero j), h.mul_grown_le hle hgain⟩

/-- **What folding gains.** -/
theorem FoldedAtMost.le_grown (hP : 0 < P) (hle : p ≤ k) (h : FoldedAtMost P r p j e k)
    (hgain : (k - p) * r * d ≤ P) : grown P r d k ≤ grown P r (e + d) p + j := by
  have hupper := h.mul_grown_le hle hgain
  have hdiv : (p * (P + r * (e + d)) + j * P) / P = grown P r (e + d) p + j :=
    Nat.add_mul_div_right _ _ hP
  rw [← hdiv, Nat.le_div_iff_mul_le hP, Nat.mul_comm]
  exact hupper

end Evm

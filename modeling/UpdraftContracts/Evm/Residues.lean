import Mathlib.Algebra.BigOperators.Group.Finset.Basic
import Mathlib.Algebra.Order.BigOperators.Group.Finset
import Mathlib.Data.Int.CardIntervalMod

/-!
# Choosing by a remainder

A number below `m` is reduced modulo `n` to choose one of `n` entries. Not all entries are chosen by
equally many numbers, unless `n` divides `m`. Here they are counted.

## Main results

* `card_residue` — by how many numbers an entry is chosen
* `card_chosen_bounds` — by how many numbers an element of a list is chosen
-/

namespace Evm

open Finset

variable {m n i : ℕ}

theorem card_filter_val (p : ℕ → Prop) [DecidablePred p] : #{x : Fin m | p x} = m.count p := by
  rw [Nat.count_eq_card_filter_range, ← card_map Fin.valEmbedding]
  congr 1
  ext x
  simp only [mem_map, mem_filter, mem_univ, true_and, Fin.valEmbedding_apply, mem_range]
  constructor
  · rintro ⟨x, hx, rfl⟩
    exact ⟨x.isLt, hx⟩
  · rintro ⟨hlt, hx⟩
    exact ⟨⟨x, hlt⟩, hx, rfl⟩

/-- The first `m % n` remainders occur once more than the others. -/
theorem card_residue (hi : i < n) :
    #{x : Fin m | x.val % n = i} = m / n + if i < m % n then 1 else 0 := by
  have hmod : (fun x => x % n = i) = (· ≡ i [MOD n]) := by
    funext x
    rw [Nat.ModEq, Nat.mod_eq_of_lt hi]
  rw [card_filter_val (fun x => x % n = i)]
  simp only [hmod]
  rw [Nat.count_modEq_card _ (Nat.zero_lt_of_lt hi), Nat.mod_eq_of_lt hi]

/-- Residues are as even as they can be. -/
theorem card_residue_bounds (hi : i < n) :
    m / n ≤ #{x : Fin m | x.val % n = i} ∧ #{x : Fin m | x.val % n = i} ≤ (m + n - 1) / n := by
  have hn : 0 < n := Nat.zero_lt_of_lt hi
  rw [card_residue hi]
  refine ⟨Nat.le_add_right _ _, ?_⟩
  split
  case isTrue hlt =>
    -- the division leaves a remainder, so rounding up gives one more
    have hdiv := Nat.div_add_mod' m n
    rw [Nat.le_div_iff_mul_le hn, Nat.add_mul]
    omega
  case isFalse hge => exact Nat.div_le_div_right (by omega)

theorem sum_card_residue (hn : 0 < n) : ∑ i ∈ range n, #{x : Fin m | x.val % n = i} = m := by
  have hfibres := card_eq_sum_card_fiberwise (s := univ) (t := range n)
    (f := fun x : Fin m => x.val % n) fun x _ => mem_coe.mpr (mem_range.mpr (Nat.mod_lt _ hn))
  rw [← hfibres, card_univ, Fintype.card_fin]

variable {α : Type} [DecidableEq α]

theorem card_filter_getElem (xs : List α) (a : α) :
    #{i ∈ range xs.length | xs[i]? = some a} = xs.count a := by
  induction xs using List.reverseRecOn with
  | nil => rfl
  | append_singleton xs x ih =>
    have hinit : {i ∈ range xs.length | (xs ++ [x])[i]? = some a}
        = {i ∈ range xs.length | xs[i]? = some a} := by
      refine filter_congr fun i hi => ?_
      rw [List.getElem?_append_left (mem_range.mp hi)]
    rw [List.length_append, List.length_singleton, range_add_one, filter_insert, hinit,
      List.count_append, List.count_singleton, ← ih]
    by_cases hx : x = a
    · simp [hx]
    · simp [hx]

/-- An element that stands at several places is chosen by the numbers of all of them. -/
theorem card_chosen (xs : List α) (hxs : xs ≠ []) (a : α) :
    #{x : Fin m | xs[x.val % xs.length]? = some a}
      = ∑ i ∈ range xs.length with xs[i]? = some a, #{x : Fin m | x.val % xs.length = i} := by
  have hn : 0 < xs.length := List.length_pos_iff.mpr hxs
  rw [card_eq_sum_card_fiberwise (t := {i ∈ range xs.length | xs[i]? = some a})
    (f := fun x : Fin m => x.val % xs.length)]
  · refine sum_congr rfl fun i hi => congrArg card ?_
    ext x
    simp only [mem_filter, mem_univ, true_and]
    refine and_iff_right_of_imp fun hx => ?_
    rw [hx]
    exact (mem_filter.mp hi).2
  · intro x hx
    exact mem_coe.mpr (mem_filter.mpr ⟨mem_range.mpr (Nat.mod_lt _ hn), (mem_filter.mp hx).2⟩)

/-- **How often an element is chosen.** -/
theorem card_chosen_bounds (xs : List α) (hxs : xs ≠ []) (a : α) :
    xs.count a * (m / xs.length) ≤ #{x : Fin m | xs[x.val % xs.length]? = some a} ∧
    #{x : Fin m | xs[x.val % xs.length]? = some a}
      ≤ xs.count a * ((m + xs.length - 1) / xs.length) := by
  have hbounds : ∀ i ∈ ({i ∈ range xs.length | xs[i]? = some a} : Finset ℕ), _ := fun i hi =>
    card_residue_bounds (m := m) (mem_range.mp (mem_filter.mp hi).1)
  rw [card_chosen xs hxs a, ← card_filter_getElem xs a]
  constructor
  · exact card_nsmul_le_sum _ _ _ fun i hi => (hbounds i hi).1
  · exact sum_le_card_nsmul _ _ _ fun i hi => (hbounds i hi).2

end Evm

import Mathlib.Algebra.Order.Field.Rat
import Mathlib.Data.Nat.Cast.Order.Field
import Mathlib.Order.GaloisConnection.Basic
import Mathlib.Order.Interval.Set.Defs
import Mathlib.Tactic.FieldSimp
import Mathlib.Tactic.Linarith

/-!
# Converting at a price

A contract that keeps a price `p` in units of `1 / s` converts an amount by a multiplication with
`p` and a division by `s`, which rounds down. The way back swaps the two numbers and rounds down
once more. Each conversion loses less than one unit of what it converts into; the unit lost on the
way out is worth `s / p` on the way back.

## Main results

* `isGreatest_converted` — the result is the largest amount that is not worth more
* `roundTrip_mem_Ioc` — there and back loses less than `s / p + 1`, and never gains
* `roundTrip_eq_or` — at a price of at least one this is at most one unit
-/

namespace Evm

/-- The amount `a` at the price `p`, which is in units of `1 / s`. -/
def converted (p s a : ℕ) : ℕ := a * p / s

/-- The amount `a`, converted and converted back. -/
def roundTrip (p s a : ℕ) : ℕ := converted s p (converted p s a)

section Conversion

variable {p s : ℕ}

/-- The result is the most that does not exceed the exact one. -/
theorem isGreatest_converted (hs : 0 < s) (a : ℕ) :
    IsGreatest {b | b * s ≤ a * p} (converted p s a) :=
  (Nat.galoisConnection_mul_div hs).isGreatest_u

/-- What a conversion returns can be converted back without a larger product. -/
theorem converted_mul_le (p s a : ℕ) : converted p s a * s ≤ a * p := Nat.div_mul_le_self _ _

variable {K : Type*} [Field K] [LinearOrder K] [IsStrictOrderedRing K]

/-- **One conversion.** It returns the exact value but for less than one unit. -/
theorem converted_mem_Ioc (hs : 0 < s) (a : ℕ) :
    (converted p s a : K) ∈ Set.Ioc (a * p / s - 1 : K) (a * p / s) := by
  have hs' : (0 : K) < s := Nat.cast_pos.mpr hs
  constructor
  · have hlt : a * p < (converted p s a + 1) * s := Nat.lt_mul_of_div_lt (Nat.lt_succ_self _) hs
    have hcast : (a * p : K) < (converted p s a + 1) * s := by exact_mod_cast hlt
    rw [sub_lt_iff_lt_add, div_lt_iff₀ hs']
    exact hcast
  · have hcast : (converted p s a * s : K) ≤ a * p := by exact_mod_cast converted_mul_le p s a
    rw [le_div_iff₀ hs']
    exact hcast

/-- **There and back.** -/
theorem roundTrip_mem_Ioc (hp : 0 < p) (hs : 0 < s) (a : ℕ) :
    (roundTrip p s a : K) ∈ Set.Ioc (a - s / p - 1 : K) a := by
  have hp' : (0 : K) < p := Nat.cast_pos.mpr hp
  have hs' : (0 : K) < s := Nat.cast_pos.mpr hs
  have hrate : (0 : K) < s / p := div_pos hs' hp'
  have hexact : (a * p / s : K) * s / p = a := by field_simp
  obtain ⟨hthere, hthere'⟩ := converted_mem_Ioc (p := p) (K := K) hs a
  obtain ⟨hback, hback'⟩ := converted_mem_Ioc (p := s) (K := K) hp (converted p s a)
  constructor
  · calc (a - s / p - 1 : K) = (a * p / s - 1) * s / p - 1 := by
          rw [sub_mul, sub_div, hexact, one_mul]
      _ < converted p s a * s / p - 1 := by gcongr
      _ < roundTrip p s a := hback
  · calc (roundTrip p s a : K) ≤ converted p s a * s / p := hback'
      _ ≤ a * p / s * s / p := by gcongr
      _ = a := hexact

/-- At a price of at least one, what is lost on the way out is worth at most one unit. -/
theorem roundTrip_eq_or (hs : 0 < s) (h : s ≤ p) (a : ℕ) :
    roundTrip p s a = a ∨ roundTrip p s a + 1 = a := by
  have hp : 0 < p := hs.trans_le h
  obtain ⟨hlt, hle⟩ := roundTrip_mem_Ioc (K := ℚ) hp hs a
  have hrate : (s / p : ℚ) ≤ 1 := (div_le_one (Nat.cast_pos.mpr hp)).mpr (Nat.cast_le.mpr h)
  have hlt' : (a : ℚ) < roundTrip p s a + 2 := by linarith
  have hupper : a < roundTrip p s a + 2 := by exact_mod_cast hlt'
  have hlower : roundTrip p s a ≤ a := by exact_mod_cast hle
  omega

end Conversion

end Evm

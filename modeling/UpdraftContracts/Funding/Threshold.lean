import Mathlib.Tactic.Ring
import UpdraftContracts.Funding.Books

/-!
# What `FundMe` takes for five dollars

The feed reports a signed number. It is scaled by a checked multiplication, cast to `uint256` and
multiplied with the contribution. A negative number becomes a very large one by the cast. Times two
wei or more it overflows, but a single wei does pass for five dollars then.

## Main results

* `fund_threshold_iff` — a contribution is accepted exactly if it is worth five dollars at a
  positive price, but for a single wei at a negative answer
-/

namespace UpdraftContracts

open Evm

namespace Funding

namespace PriceConverter

variable {a : ℤ} {answer : BitVec 256} {v rate : ℕ}

theorem checkedMulInt256_eq_ok {b c : ℤ} :
    checkedMulInt256 a b = .ok c ↔ (-2 ^ 255 ≤ a * b ∧ a * b < 2 ^ 255) ∧ c = a * b := by
  by_cases h : -2 ^ 255 ≤ a * b ∧ a * b < 2 ^ 255
  · rw [checkedMulInt256, if_pos h, Except.ok.injEq, and_iff_right h, eq_comm]
  · rw [checkedMulInt256, if_neg h]
    exact iff_of_false (fun habs => by cases habs) fun habs => h habs.1

/-- An answer that is not negative keeps its value. -/
theorem toUint256_of_nonneg (h : 0 ≤ a) (hlt : a < 2 ^ 255) : (toUint256 a : ℤ) = a := by
  rw [toUint256, BitVec.toNat_ofInt]
  omega

/-- The cast wraps around. -/
theorem toUint256_of_neg (h : a < 0) (hle : -2 ^ 255 ≤ a) : (toUint256 a : ℤ) = 2 ^ 256 + a := by
  rw [toUint256, BitVec.toNat_ofInt]
  omega

/-- When the conversion returns, and what. -/
theorem getConversionRate_eq_ok :
    getConversionRate v (some answer) = .ok rate ↔
      (-2 ^ 255 ≤ answer.toInt * 10 ^ 10 ∧ answer.toInt * 10 ^ 10 < 2 ^ 255) ∧
      toUint256 (answer.toInt * 10 ^ 10) * v < uint256Size ∧
      rate = toUint256 (answer.toInt * 10 ^ 10) * v / 10 ^ 18 := by
  simp only [getConversionRate, getPrice, bind_eq_ok, ofCallee_eq_ok, checkedMulInt256_eq_ok,
    checkedMul_eq_ok, pure_eq_ok]
  constructor
  · rintro ⟨-, ⟨x, hx, -, ⟨hfits, rfl⟩, rfl⟩, -, ⟨hproduct, rfl⟩, rfl⟩
    obtain rfl := Option.some.inj hx
    exact ⟨hfits, hproduct, rfl⟩
  · rintro ⟨hfits, hproduct, rfl⟩
    exact ⟨_, ⟨answer, rfl, _, ⟨hfits, rfl⟩, rfl⟩, _, ⟨hproduct, rfl⟩, rfl⟩

end PriceConverter

/-- The contribution `v` is worth five dollars at the price that the feed reports, and neither
multiplication overflows. -/
def WorthFiveDollars (answer : BitVec 256) (v : ℕ) : Prop :=
  0 < answer.toInt ∧ answer.toInt * 10 ^ 10 < 2 ^ 255 ∧ answer.toInt * 10 ^ 10 * v < 2 ^ 256 ∧
    5 * 10 ^ 36 ≤ v * answer.toInt * 10 ^ 10

/-- What `fund` asks of the answer and the contribution, with the cast in it. -/
def AcceptedAt (answer : BitVec 256) (v : ℕ) : Prop :=
  (-2 ^ 255 ≤ answer.toInt * 10 ^ 10 ∧ answer.toInt * 10 ^ 10 < 2 ^ 255) ∧
  PriceConverter.toUint256 (answer.toInt * 10 ^ 10) * v < uint256Size ∧
  5 * 10 ^ 36 ≤ PriceConverter.toUint256 (answer.toInt * 10 ^ 10) * v

section Threshold

open PriceConverter

variable {D : Deployment} {sender : Address} {s : State} {answer : BitVec 256} {v : ℕ}

/-- A call of `fund` that can be paid and recorded depends on the price only. -/
theorem fund_succeeds_iff (hfeed : s.latestAnswer = some answer) (hpays : v ≤ s.eth sender)
    (hfits : s.s_addressToAmountFunded sender + v < uint256Size) :
    Succeeds (FundMe.fund D sender v s) ↔ AcceptedAt answer v := by
  have hmin : ∀ product, FundMe.MINIMUM_USD ≤ product / 10 ^ 18 ↔ 5 * 10 ^ 36 ≤ product :=
    fun product => Nat.le_div_iff_mul_le (by decide)
  constructor
  · rintro ⟨s', hs'⟩
    obtain ⟨-, ⟨rate, hrate, hrate'⟩, -, -⟩ := FundMe.fund_eq_ok.mp hs'
    rw [hfeed] at hrate
    obtain ⟨hprice, hproduct, rfl⟩ := getConversionRate_eq_ok.mp hrate
    exact ⟨hprice, hproduct, (hmin _).mp hrate'⟩
  · rintro ⟨hprice, hproduct, hworth⟩
    refine ⟨_, FundMe.fund_eq_ok.mpr ⟨hpays, ⟨_, ?_, (hmin _).mpr hworth⟩, hfits, rfl⟩⟩
    rw [hfeed]
    exact getConversionRate_eq_ok.mpr ⟨hprice, hproduct, rfl⟩

/-- Where the answer is not negative, the check is what it should be. -/
theorem acceptedAt_of_nonneg (hanswer : 0 ≤ answer.toInt) :
    AcceptedAt answer v ↔ WorthFiveDollars answer v := by
  have hproduct (hlt : answer.toInt * 10 ^ 10 < 2 ^ 255) :
      ((toUint256 (answer.toInt * 10 ^ 10) * v : ℕ) : ℤ) = answer.toInt * 10 ^ 10 * v := by
    rw [Nat.cast_mul, toUint256_of_nonneg (by omega) hlt]
  have hcomm : v * answer.toInt * 10 ^ 10 = answer.toInt * 10 ^ 10 * v := by ring
  rw [AcceptedAt, WorthFiveDollars, hcomm]
  constructor
  · rintro ⟨⟨-, hlt⟩, hfits, hworth⟩
    have hproduct := hproduct hlt
    simp only [uint256Size] at hfits
    refine ⟨lt_of_le_of_ne hanswer fun hzero => ?_, hlt, by omega, by omega⟩
    have hworthless : answer.toInt * 10 ^ 10 * v = 0 := by
      rw [← hzero, Int.zero_mul, Int.zero_mul]
    omega
  · rintro ⟨hpos, hlt, hfits, hworth⟩
    have hproduct := hproduct hlt
    simp only [uint256Size]
    exact ⟨⟨by omega, hlt⟩, by omega, by omega⟩

/-- At a negative answer a single wei is accepted, and nothing else. -/
theorem acceptedAt_of_neg (hanswer : answer.toInt < 0) :
    AcceptedAt answer v ↔ -2 ^ 255 ≤ answer.toInt * 10 ^ 10 ∧ v = 1 := by
  constructor
  · rintro ⟨⟨hle, -⟩, hproduct, hworth⟩
    have hcast := toUint256_of_neg (by omega) hle
    generalize toUint256 (answer.toInt * 10 ^ 10) = price at hproduct hworth hcast
    have hlarge : 2 ^ 255 ≤ price := by omega
    refine ⟨hle, ?_⟩
    by_contra hv
    rcases Nat.eq_zero_or_pos v with rfl | hpos
    · omega
    · have htwo : 2 ^ 255 * 2 ≤ price * v := Nat.mul_le_mul hlarge (by omega)
      simp only [uint256Size] at hproduct
      omega
  · rintro ⟨hle, rfl⟩
    have hcast := toUint256_of_neg (by omega) hle
    simp only [AcceptedAt, uint256Size]
    omega

/-- **The threshold.** Let the feed report `answer`, and let the sender have `v` wei. That the
contribution is accepted exactly if it is worth five dollars at a positive price is true of all but
a single wei at a negative answer whose multiple by `10 ^ 10` fits. -/
theorem fund_threshold_iff (hfeed : s.latestAnswer = some answer) (hpays : v ≤ s.eth sender)
    (hfits : s.s_addressToAmountFunded sender + v < uint256Size) :
    (Succeeds (FundMe.fund D sender v s) ↔ WorthFiveDollars answer v) ↔
      ¬ (answer.toInt < 0 ∧ -2 ^ 255 ≤ answer.toInt * 10 ^ 10 ∧ v = 1) := by
  rw [fund_succeeds_iff hfeed hpays hfits]
  rcases le_or_gt 0 answer.toInt with hanswer | hanswer
  · exact iff_of_true (acceptedAt_of_nonneg hanswer) fun h => absurd h.1 (not_lt.mpr hanswer)
  · have hnot : ¬ WorthFiveDollars answer v := fun h => absurd h.1 (not_lt.mpr hanswer.le)
    rw [acceptedAt_of_neg hanswer, iff_false_right hnot, and_iff_right hanswer]

/-- At two thousand dollars a contribution of three finney is worth six. -/
theorem fund_threshold_sample :
    Succeeds (FundMe.fund sampleDeployment 10 (3 * 10 ^ 15) sampleState) :=
  ((fund_threshold_iff (s := sampleState) rfl (by decide) (by decide)).mpr
    fun h => absurd h.1 (by decide)).mpr ⟨by decide, by decide, by decide, by decide⟩

/-- The feed reports `-1`, and a single wei is accepted. -/
theorem single_wei_accepted :
    Succeeds (FundMe.fund sampleDeployment 10 1
      { sampleState with latestAnswer := some (BitVec.ofInt 256 (-1)) }) ∧
    (BitVec.ofInt 256 (-1)).toInt = -1 ∧ ¬ WorthFiveDollars (BitVec.ofInt 256 (-1)) 1 := by
  have hanswer : (BitVec.ofInt 256 (-1)).toInt = -1 := by decide
  refine ⟨by decide, hanswer, fun h => ?_⟩
  have hpos := h.1
  omega

end Threshold

end Funding

end UpdraftContracts

import Mathlib.Algebra.BigOperators.Group.List.Basic
import Mathlib.Algebra.Order.BigOperators.Group.List
import Mathlib.Tactic.Ring
import UpdraftContracts.Stablecoin.DSCEngine

/-!
# Values and health factors in exact arithmetic

The views of the engine can revert: a feed may be stale, a product may overflow. Here are the
numbers they compute when they do not, as total functions on the state, together with the exact
conditions under which each view returns.

## Main results

* `getUSDValue_eq_ok`, `getAccountCollateralValue_eq_ok` — a view that returns, returns the exact
  value, and every feed it read was fresh
* `healthFactor_eq_ok` — so does the health factor
* `minHealthFactor_le_iff` — the doubly rounded test of the engine is `2 * debt ≤ value`
-/

namespace UpdraftContracts

open Evm

namespace Stablecoin

/-! ## Prices -/

/-- The latest round of the feed registered for a token. -/
def World.round (w : World) (t : Address) : Option RoundData :=
  if w.s_priceFeeds t = 0 then none else w.latestRound (w.s_priceFeeds t)

/-- The answer of the feed of a token, zero if it has none or the answer is negative. -/
def World.price (w : World) (t : Address) : ℕ :=
  match w.round t with
  | some r => r.answer.toInt.toNat
  | none => 0

/-- The feed answered within the last three hours, and not in the future. -/
def World.Fresh (w : World) (r : RoundData) : Prop :=
  r.updatedAt ≤ w.timestamp ∧ w.timestamp - r.updatedAt ≤ OracleLib.TIMEOUT

/-- The feed of the token is fresh and its answer is positive. -/
def World.GoodFeed (w : World) (t : Address) : Prop :=
  ∃ r, w.round t = some r ∧ w.Fresh r ∧ 0 < r.answer.toInt

theorem World.price_of_round {w : World} {t : Address} {r : RoundData} (h : w.round t = some r) :
    w.price t = r.answer.toInt.toNat := by
  rw [World.price, h]

/-- A non-negative answer survives the cast to `uint256`. -/
theorem toNat_toInt_of_nonneg {x : BitVec 256} (h : 0 ≤ x.toInt) : x.toInt.toNat = x.toNat := by
  rw [BitVec.toInt_eq_toNat_cond] at h ⊢
  split at h
  · rw [if_pos ‹_›]; rfl
  · have := x.isLt
    omega

/-- A negative answer becomes so large a word that scaling it overflows. -/
theorem uint256Size_le_of_neg {x : BitVec 256} (h : x.toInt < 0) :
    uint256Size ≤ x.toNat * DSCEngine.ADDITIONAL_FEED_PRECISION := by
  rw [BitVec.toInt_eq_toNat_cond] at h
  split at h
  · omega
  · simp only [uint256Size, DSCEngine.ADDITIONAL_FEED_PRECISION]
    omega

theorem toNat_toInt_of_fits {x : BitVec 256}
    (h : x.toNat * DSCEngine.ADDITIONAL_FEED_PRECISION < uint256Size) : x.toInt.toNat = x.toNat :=
  toNat_toInt_of_nonneg (by
    by_contra hneg
    exact absurd (uint256Size_le_of_neg (not_le.mp hneg)) (not_le.mpr h))

theorem staleCheckLatestRoundData_eq_ok {t : Address} {w : World} {r : RoundData} :
    OracleLib.staleCheckLatestRoundData (w.s_priceFeeds t) w = .ok r ↔
      w.round t = some r ∧ w.Fresh r := by
  simp only [OracleLib.staleCheckLatestRoundData, OracleLib.latestRoundData, bind_eq_ok,
    ofCallee_eq_ok, checkedSub_eq_ok, revertIf_eq_ok, pure_eq_ok, World.round, World.Fresh]
  constructor
  · rintro ⟨r', hr, n, ⟨hle, rfl⟩, -, hn, rfl⟩
    exact ⟨hr, hle, not_lt.mp hn⟩
  · rintro ⟨hr, hle, hn⟩
    exact ⟨r, hr, _, ⟨hle, rfl⟩, (), not_lt.mpr hn, rfl⟩

/-! ## Dollar values -/

/-- What `getUSDValue` computes. -/
def World.usdValue (w : World) (t : Address) (amount : ℕ) : ℕ :=
  w.price t * DSCEngine.ADDITIONAL_FEED_PRECISION * amount / DSCEngine.PRECISION

/-- What `getAccountCollateralValue` computes. -/
def World.collateralValue (w : World) (u : Address) : ℕ :=
  (w.s_collateralTokens.map fun t => w.usdValue t (w.s_collateralDeposited u t)).sum

theorem World.usdValue_mono {w : World} {t : Address} {a b : ℕ} (h : a ≤ b) :
    w.usdValue t a ≤ w.usdValue t b :=
  Nat.div_le_div_right (Nat.mul_le_mul_left _ h)

namespace DSCEngine

/-- The feed of the token answers, is fresh, and its answer does not overflow when scaled. A
negative answer always does. -/
def ReadableFeed (w : World) (t : Address) : Prop :=
  ∃ r, w.round t = some r ∧ w.Fresh r ∧ r.answer.toNat * ADDITIONAL_FEED_PRECISION < uint256Size

/-- A value is returned exactly, or not at all. -/
theorem getUSDValue_eq_ok {t : Address} {a v : ℕ} {w : World} :
    getUSDValue t a w = .ok v ↔
      ReadableFeed w t ∧
      w.price t * ADDITIONAL_FEED_PRECISION * a < uint256Size ∧ v = w.usdValue t a := by
  simp only [getUSDValue, bind_eq_ok, staleCheckLatestRoundData_eq_ok, checkedMul_eq_ok,
    pure_eq_ok, World.usdValue]
  constructor
  · rintro ⟨r, ⟨hr, hfresh⟩, -, ⟨hp, rfl⟩, -, ⟨hv, rfl⟩, rfl⟩
    rw [World.price_of_round hr, toNat_toInt_of_fits hp]
    exact ⟨⟨r, hr, hfresh, hp⟩, hv, rfl⟩
  · rintro ⟨⟨r, hr, hfresh, hp⟩, hv, rfl⟩
    rw [World.price_of_round hr, toNat_toInt_of_fits hp] at hv ⊢
    exact ⟨r, ⟨hr, hfresh⟩, _, ⟨hp, rfl⟩, _, ⟨hv, rfl⟩, rfl⟩

theorem getTokenAmountFromUSD_eq_ok {t : Address} {usd v : ℕ} {w : World} :
    getTokenAmountFromUSD t usd w = .ok v ↔
      ReadableFeed w t ∧
      usd * PRECISION < uint256Size ∧ w.price t ≠ 0 ∧
      v = usd * PRECISION / (w.price t * ADDITIONAL_FEED_PRECISION) := by
  simp only [getTokenAmountFromUSD, bind_eq_ok, staleCheckLatestRoundData_eq_ok, checkedMul_eq_ok,
    checkedDiv_eq_ok]
  have hprec : ADDITIONAL_FEED_PRECISION ≠ 0 := by decide
  constructor
  · rintro ⟨r, ⟨hr, hfresh⟩, -, ⟨hu, rfl⟩, -, ⟨hp, rfl⟩, hne, rfl⟩
    rw [World.price_of_round hr, toNat_toInt_of_fits hp]
    exact ⟨⟨r, hr, hfresh, hp⟩, hu, left_ne_zero_of_mul hne, rfl⟩
  · rintro ⟨⟨r, hr, hfresh, hp⟩, hu, hne, rfl⟩
    rw [World.price_of_round hr, toNat_toInt_of_fits hp] at hne ⊢
    exact ⟨r, ⟨hr, hfresh⟩, _, ⟨hu, rfl⟩, _, ⟨hp, rfl⟩, mul_ne_zero hne hprec, rfl⟩

/-- The loop adds up the values. The induction is on the tokens, with the running total. -/
theorem sumCollateralValue_eq_ok {u : Address} {w : World} {ts : List Address} {acc V : ℕ} :
    sumCollateralValue u w ts acc = .ok V ↔
      (∀ t ∈ ts, ReadableFeed w t ∧
        w.price t * ADDITIONAL_FEED_PRECISION * w.s_collateralDeposited u t < uint256Size) ∧
      (ts ≠ [] → V < uint256Size) ∧
      V = acc + (ts.map fun t => w.usdValue t (w.s_collateralDeposited u t)).sum := by
  induction ts generalizing acc with
  | nil => simp [sumCollateralValue, pure_eq_ok]
  | cons t ts ih =>
    simp only [sumCollateralValue, bind_eq_ok, getUSDValue_eq_ok, checkedAdd_eq_ok, ih,
      List.forall_mem_cons, List.map_cons, List.sum_cons]
    constructor
    · rintro ⟨-, ⟨hr, hfit, rfl⟩, -, ⟨hacc, rfl⟩, hrest, hlt, rfl⟩
      refine ⟨⟨⟨hr, hfit⟩, hrest⟩, fun _ => ?_, by ring⟩
      rcases ts.eq_nil_or_concat with rfl | ⟨ts', t', rfl⟩
      · simpa using hacc
      · exact hlt (by simp)
    · rintro ⟨⟨⟨hr, hfit⟩, hrest⟩, hlt, rfl⟩
      have hlt := hlt (by simp)
      refine ⟨_, ⟨hr, hfit, rfl⟩, _, ⟨?_, rfl⟩, hrest, fun _ => hlt, by ring⟩
      omega

/-- **The valuation loop.** It returns exactly when every listed feed can be read and nothing
overflows, and then it returns the exact sum. -/
theorem getAccountCollateralValue_eq_ok {u : Address} {V : ℕ} {w : World} :
    getAccountCollateralValue u w = .ok V ↔
      (∀ t ∈ w.s_collateralTokens, ReadableFeed w t ∧
        w.price t * ADDITIONAL_FEED_PRECISION * w.s_collateralDeposited u t < uint256Size) ∧
      V < uint256Size ∧ V = w.collateralValue u := by
  rw [getAccountCollateralValue, sumCollateralValue_eq_ok, Nat.zero_add, World.collateralValue]
  refine and_congr_right fun _ => ?_
  constructor
  · rintro ⟨hlt, rfl⟩
    refine ⟨?_, rfl⟩
    rcases hts : w.s_collateralTokens with - | ⟨t, ts⟩
    · exact (by decide : 0 < uint256Size)
    · rw [← hts]
      exact hlt (by simp [hts])
  · rintro ⟨hlt, rfl⟩
    exact ⟨fun _ => hlt, rfl⟩

/-! ## Health factors -/

/-- What `_calculateHealthFactor` computes. -/
def healthFactorOf (debt value : ℕ) : ℕ :=
  if debt = 0 then uint256Max
  else value * LIQUIDATION_THRESHOLD / LIQUIDATION_PRECISION * PRECISION / debt

/-- No product of `_calculateHealthFactor` overflows. -/
def HealthFactorFits (debt value : ℕ) : Prop :=
  debt ≠ 0 → value * LIQUIDATION_THRESHOLD < uint256Size ∧
    value * LIQUIDATION_THRESHOLD / LIQUIDATION_PRECISION * PRECISION < uint256Size

/-- The factor is returned exactly, or not at all. -/
theorem calculateHealthFactor_eq_ok {debt value h : ℕ} :
    _calculateHealthFactor debt value = .ok h ↔
      HealthFactorFits debt value ∧ h = healthFactorOf debt value := by
  by_cases hd : debt = 0
  · simp [_calculateHealthFactor, HealthFactorFits, healthFactorOf, hd, pure_eq_ok]
  · simp only [_calculateHealthFactor, HealthFactorFits, healthFactorOf, if_neg hd, bind_eq_ok,
      checkedMul_eq_ok, checkedDiv_eq_ok]
    constructor
    · rintro ⟨-, ⟨h₁, rfl⟩, -, ⟨h₂, rfl⟩, -, rfl⟩
      exact ⟨fun _ => ⟨h₁, h₂⟩, rfl⟩
    · rintro ⟨hfit, rfl⟩
      exact ⟨_, ⟨(hfit hd).1, rfl⟩, _, ⟨(hfit hd).2, rfl⟩, hd, rfl⟩

/-- Half of the value, rounded down: what the threshold leaves. -/
theorem threshold_eq (value : ℕ) :
    value * LIQUIDATION_THRESHOLD / LIQUIDATION_PRECISION = value / 2 := by
  simp only [LIQUIDATION_THRESHOLD, LIQUIDATION_PRECISION]
  omega

/-- **No rounding gap.** The test `healthFactor ≥ MIN_HEALTH_FACTOR` is `2 * debt ≤ value`. -/
theorem minHealthFactor_le_iff {debt value : ℕ} :
    MIN_HEALTH_FACTOR ≤ healthFactorOf debt value ↔ 2 * debt ≤ value := by
  by_cases hd : debt = 0
  · subst hd
    rw [healthFactorOf, if_pos rfl]
    exact iff_of_true (by decide) (Nat.zero_le _)
  · rw [healthFactorOf, if_neg hd, threshold_eq, Nat.le_div_iff_mul_le (Nat.pos_of_ne_zero hd)]
    simp only [MIN_HEALTH_FACTOR, PRECISION]
    omega

/-- The strict test after a liquidation. -/
theorem minHealthFactor_lt_iff {debt value : ℕ} :
    MIN_HEALTH_FACTOR < healthFactorOf debt value ↔
      debt = 0 ∨ (MIN_HEALTH_FACTOR + 1) * debt ≤ value / 2 * PRECISION := by
  by_cases hd : debt = 0
  · rw [healthFactorOf, if_pos hd]
    exact iff_of_true (by decide) (Or.inl hd)
  · rw [healthFactorOf, if_neg hd, threshold_eq, ← Nat.succ_le_iff,
      Nat.le_div_iff_mul_le (Nat.pos_of_ne_zero hd)]
    simp [hd]

end DSCEngine

/-- The health factor of a user in exact arithmetic. -/
def World.healthFactor (w : World) (u : Address) : ℕ :=
  DSCEngine.healthFactorOf (w.s_DSCMinted u) (w.collateralValue u)

namespace DSCEngine

/-- The position of `u` can be valued: `_healthFactor` returns. -/
def Valuable (w : World) (u : Address) : Prop :=
  (∀ t ∈ w.s_collateralTokens, ReadableFeed w t ∧
    w.price t * ADDITIONAL_FEED_PRECISION * w.s_collateralDeposited u t < uint256Size) ∧
  w.collateralValue u < uint256Size ∧
  HealthFactorFits (w.s_DSCMinted u) (w.collateralValue u)

theorem healthFactor_eq_ok {u : Address} {h : ℕ} {w : World} :
    _healthFactor u w = .ok h ↔ Valuable w u ∧ h = w.healthFactor u := by
  simp only [_healthFactor, _getAccountInformation, bind_eq_ok, pure_eq_ok,
    getAccountCollateralValue_eq_ok, Valuable, World.healthFactor]
  constructor
  · rintro ⟨-, ⟨-, ⟨hr, hlt, rfl⟩, rfl⟩, hh⟩
    obtain ⟨hfit, rfl⟩ := calculateHealthFactor_eq_ok.mp hh
    exact ⟨⟨hr, hlt, hfit⟩, rfl⟩
  · rintro ⟨⟨hr, hlt, hfit⟩, rfl⟩
    exact ⟨_, ⟨_, ⟨hr, hlt, rfl⟩, rfl⟩, calculateHealthFactor_eq_ok.mpr ⟨hfit, rfl⟩⟩

/-- The check passes when the collateral is worth twice the debt, and all of it can be valued. -/
theorem revertIfHealthFactorIsBroken_eq_ok {u : Address} {w : World} {x : Unit} :
    _revertIfHealthFactorIsBroken u w = .ok x ↔
      Valuable w u ∧ 2 * w.s_DSCMinted u ≤ w.collateralValue u := by
  simp only [_revertIfHealthFactorIsBroken, bind_eq_ok, healthFactor_eq_ok, revertIf_eq_ok, not_lt]
  constructor
  · rintro ⟨-, ⟨hv, rfl⟩, hmin⟩
    exact ⟨hv, minHealthFactor_le_iff.mp hmin⟩
  · rintro ⟨hv, hmin⟩
    exact ⟨_, ⟨hv, rfl⟩, minHealthFactor_le_iff.mpr hmin⟩

end DSCEngine

end Stablecoin

end UpdraftContracts

import UpdraftContracts.Stablecoin.Liquidation

/-!
# Which configurations are valued correctly

The constructor of the engine accepts any two lists of equal length. For each pair it writes the
feed into a map and appends the token to a list. Deposits are admitted by the map, but the valuation
of an account walks the list. A token that is listed twice is counted twice, and a token whose feed
is the zero address makes every valuation revert.

## Main results

* `valuesEachTokenOnce_iff` — the account value is the sum over the allowed tokens, in every run,
  exactly for the configurations with distinct tokens and without a zero feed
-/

namespace UpdraftContracts

open Evm

namespace Stablecoin

open DSCEngine

variable {D : Deployment} {w : World} {u t : Address} {n : ℕ} {tokens feeds : List Address}

/-! ## What the constructor writes -/

theorem registerTokens_feed_of_notMem {ps : List (Address × Address)}
    (ht : t ∉ ps.map Prod.fst) : (registerTokens ps w).s_priceFeeds t = w.s_priceFeeds t := by
  induction ps generalizing w with
  | nil => rfl
  | cons p ps ih =>
    rw [List.map_cons, List.mem_cons, not_or] at ht
    rw [registerTokens, ih ht.2]
    exact Function.update_of_ne ht.1 _ _

/-- The feed of a listed token is a listed feed. -/
theorem registerTokens_feed_mem {ps : List (Address × Address)} (ht : t ∈ ps.map Prod.fst) :
    (registerTokens ps w).s_priceFeeds t ∈ ps.map Prod.snd := by
  induction ps generalizing w with
  | nil => exact absurd ht List.not_mem_nil
  | cons p ps ih =>
    rw [registerTokens]
    by_cases hrest : t ∈ ps.map Prod.fst
    · exact List.mem_cons_of_mem _ (ih hrest)
    · obtain rfl : t = p.1 := (List.mem_cons.mp ht).resolve_right hrest
      rw [registerTokens_feed_of_notMem hrest]
      exact List.mem_cons.mpr (Or.inl (Function.update_self _ _ _))

/-- No later pair overwrites the feed of a token that is listed once. -/
theorem registerTokens_feed_of_nodup {ps : List (Address × Address)} {f : Address}
    (hnodup : (ps.map Prod.fst).Nodup) (hp : (t, f) ∈ ps) :
    (registerTokens ps w).s_priceFeeds t = f := by
  induction ps generalizing w with
  | nil => exact absurd hp List.not_mem_nil
  | cons p ps ih =>
    rw [List.map_cons, List.nodup_cons] at hnodup
    rw [registerTokens]
    rcases List.mem_cons.mp hp with rfl | hrest
    · rw [registerTokens_feed_of_notMem hnodup.1]
      exact Function.update_self _ _ _
    · exact ih hnodup.2 hrest

/-! ## Each token once -/

/-- Nothing but the configuration can disturb a valuation of `u`. Every feed that is not zero is
fresh and positive, each deposit has the given value and the total does not overflow. -/
structure Undisturbed (w : World) (u : Address) (value : Address → ℕ) : Prop where
  good : ∀ t, w.s_priceFeeds t ≠ 0 → w.GoodFeed t
  each : ∀ t, w.s_priceFeeds t ≠ 0 → getUSDValue t (w.s_collateralDeposited u t) w = .ok (value t)
  total : w.collateralValue u < uint256Size

/-- In every run from a deployment with the two lists, the value of an account is the sum of the
values of its deposits in the allowed tokens. -/
def ValuesEachTokenOnce (tokens feeds : List Address) : Prop :=
  ∀ D w₀ as u value, Deployed D tokens feeds w₀ →
    Along (step D) (fun _ a => a.FromOutside D) w₀ as →
    Undisturbed (run (step D) w₀ as) u value →
    getAccountCollateralValue u (run (step D) w₀ as)
      = .ok (∑ t with (run (step D) w₀ as).s_priceFeeds t ≠ 0, value t)

/-- If the list has every allowed token once and no other, the walk along it is the sum. -/
theorem Undisturbed.value_eq {value : Address → ℕ} (h : Undisturbed w u value)
    (hnodup : w.s_collateralTokens.Nodup)
    (hlisted : ∀ t, t ∈ w.s_collateralTokens ↔ w.s_priceFeeds t ≠ 0) :
    getAccountCollateralValue u w = .ok (∑ t with w.s_priceFeeds t ≠ 0, value t) := by
  have hread : ∀ t ∈ w.s_collateralTokens, ReadableFeed w t ∧
      w.price t * ADDITIONAL_FEED_PRECISION * w.s_collateralDeposited u t < uint256Size ∧
      value t = w.usdValue t (w.s_collateralDeposited u t) := fun t ht =>
    getUSDValue_eq_ok.mp (h.each t ((hlisted t).mp ht))
  have hset : ({t | w.s_priceFeeds t ≠ 0} : Finset Address) = w.s_collateralTokens.toFinset := by
    ext t
    rw [Finset.mem_filter_univ, List.mem_toFinset, hlisted]
  have hsum : ∑ t with w.s_priceFeeds t ≠ 0, value t = w.collateralValue u := by
    rw [hset, List.sum_toFinset _ hnodup]
    exact congrArg List.sum (List.map_congr_left fun t ht => (hread t ht).2.2)
  rw [hsum]
  exact getAccountCollateralValue_eq_ok.mpr
    ⟨fun t ht => ⟨(hread t ht).1, (hread t ht).2.1⟩, h.total, rfl⟩

/-- Distinct tokens with feeds count once each. -/
theorem valuesEachTokenOnce_of_distinct (hnodup : tokens.Nodup) (hzero : 0 ∉ feeds) :
    ValuesEachTokenOnce tokens feeds := by
  intro D w₀ as u value hdep halong hval
  have hinv := hdep.invariant
  obtain ⟨-, -, -, htokens, -, -⟩ := hdep.inv
  obtain ⟨w, -, hcons⟩ := hdep
  obtain ⟨hlen, rfl⟩ := constructor_eq_ok.mp hcons
  obtain ⟨hfeeds, hlist⟩ := config_run halong hinv.toSane
  have hlisted : ∀ t, t ∈ tokens ↔ (registerTokens (tokens.zip feeds) w).s_priceFeeds t ≠ 0 := by
    refine fun t => ⟨fun ht h => hzero ?_, fun ht => htokens ▸ hinv.listed t ht⟩
    have hfst : t ∈ (tokens.zip feeds).map Prod.fst := by rwa [List.map_fst_zip hlen.le]
    have hmem := registerTokens_feed_mem (w := w) hfst
    rwa [h, List.map_snd_zip hlen.ge] at hmem
  refine hval.value_eq ?_ ?_
  · rwa [hlist, htokens]
  · rwa [hlist, htokens, hfeeds]

/-! ## Configurations that are accepted but not valued correctly -/

/-- The sample deployment with the coin at another address. -/
def probeDeployment (coin : Address) : Deployment := { sampleDeployment with i_DSC := coin }

/-- Account `10` holds every token but the coin, and every feed quotes one dollar. -/
def probeGenesis (coin : Address) : World :=
  { sampleGenesis (fun _ => sampleLedger) (fun _ => some (sampleRound (10 ^ 8))) with
    ledgers := Function.update (fun _ => sampleLedger) coin Ledger.empty }

theorem probeGenesis_genesis (coin : Address) :
    Genesis (probeDeployment coin) (probeGenesis coin) where
  coin := by simp [probeGenesis, probeDeployment]
  owner := rfl
  no_allowance t _ s := by
    rcases eq_or_ne t coin with rfl | ht
    · simp [probeGenesis, Ledger.empty]
    · simpa [probeGenesis, probeDeployment, sampleDeployment, Function.update_of_ne ht] using
        sampleLedger_allowance s
  no_feeds := rfl
  no_deposits := rfl
  no_debts := rfl
  no_tokens := rfl
  unlocked := rfl

/-- An engine of those tokens and feeds, before any call. -/
def probeWorld (coin : Address) (tokens feeds : List Address) : World :=
  registerTokens (tokens.zip feeds) (probeGenesis coin)

theorem probeDeployment_standard (coin t : Address) :
    ((probeDeployment coin).erc20 t).Standard :=
  Deployment.erc20_standard (fun _ => referenceErc20_standard) t

theorem probeWorld_deployed (coin : Address) (hlen : tokens.length = feeds.length) :
    Deployed (probeDeployment coin) tokens feeds (probeWorld coin tokens feeds) :=
  ⟨_, probeGenesis_genesis coin, constructor_eq_ok.mpr ⟨hlen, rfl⟩⟩

/-- Every feed quotes one dollar. -/
structure Quoted (w : World) : Prop where
  now : w.timestamp = 100
  dollar : w.latestRound = fun _ => some (sampleRound (10 ^ 8))

namespace Quoted

variable (h : Quoted w)

include h

theorem fresh : w.Fresh (sampleRound (10 ^ 8)) := by
  rw [World.Fresh, h.now]
  decide

variable (ht : w.s_priceFeeds t ≠ 0)

include ht

theorem round : w.round t = some (sampleRound (10 ^ 8)) := by
  rw [World.round, if_neg ht, h.dollar]

theorem goodFeed : w.GoodFeed t := ⟨_, h.round ht, h.fresh, by decide⟩

theorem price : w.price t = 10 ^ 8 := by
  rw [World.price_of_round (h.round ht)]
  decide

/-- A unit is worth a unit. -/
theorem usdValue : w.usdValue t n = n := by
  rw [World.usdValue, h.price ht]
  exact Nat.mul_div_cancel_left n (by decide)

theorem getUSDValue (hn : n ≤ 1) : getUSDValue t n w = .ok n := by
  refine getUSDValue_eq_ok.mpr ⟨⟨_, h.round ht, h.fresh, by decide⟩, ?_, (h.usdValue ht).symm⟩
  rw [h.price ht]
  exact (Nat.mul_le_mul_left _ hn).trans_lt (by decide)

end Quoted

theorem undisturbed_of_quoted (h : Quoted w) (hdeposit : ∀ t, w.s_collateralDeposited u t ≤ 1)
    (htotal : w.collateralValue u < uint256Size) :
    Undisturbed w u (w.s_collateralDeposited u) :=
  ⟨fun _ ht => h.goodFeed ht, fun t ht => h.getUSDValue ht (hdeposit t), htotal⟩

theorem probeGenesis_ledger {coin : Address} (ht : t ≠ coin) :
    (probeGenesis coin).ledgers t = sampleLedger := by
  simp [probeGenesis, Function.update_of_ne ht]

theorem probeWorld_spec (coin : Address) (tokens feeds : List Address) :
    Quoted (probeWorld coin tokens feeds) ∧
    (∀ u t, (probeWorld coin tokens feeds).s_collateralDeposited u t = 0) ∧
    (∀ t, t ≠ coin → (probeWorld coin tokens feeds).ledgers t = sampleLedger) ∧
    (probeWorld coin tokens feeds).entered = false := by
  obtain ⟨fs, heq, -⟩ := registerTokens_eq (tokens.zip feeds) (probeGenesis coin)
  rw [probeWorld, heq]
  exact ⟨⟨rfl, rfl⟩, fun _ _ => rfl, fun t ht => probeGenesis_ledger ht, rfl⟩

/-- Account `10` deposits one unit. -/
theorem probeWorld_deposit {coin : Address} (ht : (probeWorld coin tokens feeds).s_priceFeeds t ≠ 0)
    (hcoin : t ≠ coin) :
    ∃ w, depositCollateral (probeDeployment coin) 10 t 1 (probeWorld coin tokens feeds) = .ok w ∧
      Quoted w ∧ ∀ t', w.s_collateralDeposited 10 t' = if t' = t then 1 else 0 := by
  obtain ⟨hquoted, hnone, hledger, hunlocked⟩ := probeWorld_spec coin tokens feeds
  obtain ⟨L, hpay⟩ : ∃ L, ((probeDeployment coin).erc20 t).transferFrom
      ((probeWorld coin tokens feeds).ledgers t) 1 10 1 1 = some (true, L) := by
    rw [hledger t hcoin]
    exact ⟨_, (probeDeployment_standard coin t).transferFrom_ok (by decide) (by decide) (by decide)
      (by decide) (by decide)⟩
  refine ⟨_, depositCollateral_eq_ok.mpr ⟨by decide, ht, hunlocked, ?_, L, hpay, rfl⟩, ?_, ?_⟩
  · rw [hnone]
    decide
  · exact ⟨hquoted.now, hquoted.dollar⟩
  · intro t'
    rw [World.deposited_setLedger, World.deposited_setDeposited, hnone, hnone]
    simp

/-- A listed token without a feed makes the first valuation revert. -/
theorem ValuesEachTokenOnce.feed_ne_zero (h : ValuesEachTokenOnce tokens feeds)
    (hlen : tokens.length = feeds.length) (coin : Address) (ht : t ∈ tokens) :
    (probeWorld coin tokens feeds).s_priceFeeds t ≠ 0 := by
  obtain ⟨hquoted, hnone, -, -⟩ := probeWorld_spec coin tokens feeds
  have hdep := probeWorld_deployed coin hlen
  obtain ⟨-, -, -, htokens, -, -⟩ := hdep.inv
  have hworth : (probeWorld coin tokens feeds).collateralValue 10 = 0 := by
    simp [World.collateralValue, World.usdValue, hnone]
  have hvalue := h _ _ [] 10 _ hdep trivial
    (undisturbed_of_quoted hquoted (fun t => (hnone 10 t).le.trans (by decide))
      (hworth ▸ (by decide)))
  obtain ⟨hread, -, -⟩ := getAccountCollateralValue_eq_ok.mp hvalue
  obtain ⟨⟨r, hr, -, -⟩, -⟩ := hread t (by rwa [run_nil, htokens])
  intro hzero
  simp [World.round, hzero] at hr

/-- If every listed token has a feed, one deposited unit counts as often as its token is listed. -/
theorem ValuesEachTokenOnce.count_le_one (h : ValuesEachTokenOnce tokens feeds)
    (hlen : tokens.length = feeds.length) (hlength : tokens.length < uint256Size)
    (ht : t ∈ tokens) : tokens.count t ≤ 1 := by
  -- the coin is put where it is not the token in question
  have hplaces : Nontrivial Address := ⟨0, 1, by decide⟩
  obtain ⟨coin, hcoin⟩ := exists_ne t
  have hdep := probeWorld_deployed coin hlen
  obtain ⟨hsane, -, -, htokens, -, -⟩ := hdep.inv
  have hfeed := fun t' (ht' : t' ∈ tokens) => h.feed_ne_zero hlen coin ht'
  obtain ⟨w, hw, hquoted, hdeposited⟩ := probeWorld_deposit (hfeed t ht) hcoin.symm
  have hrun : run (step (probeDeployment coin)) (probeWorld coin tokens feeds)
      [.call 10 (.engine (.depositCollateral t 1))] = w :=
    congrArg (settle _) hw
  have halong : Along (step (probeDeployment coin))
      (fun _ a => a.FromOutside (probeDeployment coin)) (probeWorld coin tokens feeds)
      [.call 10 (.engine (.depositCollateral t 1))] :=
    ⟨⟨(by decide : (10 : Address) ≠ 1), (by decide : (10 : Address) ≠ 0)⟩, trivial⟩
  obtain ⟨hfeeds, hlist⟩ := config_run halong hsane
  rw [hrun] at hfeeds hlist
  have hcount : w.collateralValue 10 = tokens.count t := by
    have hunits : (tokens.map fun t' => w.usdValue t' (w.s_collateralDeposited 10 t'))
        = tokens.map fun t' => if t' = t then 1 else 0 := by
      refine List.map_congr_left fun t' ht' => ?_
      rw [hquoted.usdValue (hfeeds ▸ hfeed t' ht'), hdeposited]
    rw [World.collateralValue, hlist, htokens, hunits, Finset.sum_list_map_count]
    simp [ht]
  have hone : ∑ t' with w.s_priceFeeds t' ≠ 0, w.s_collateralDeposited 10 t' = 1 := by
    rw [Finset.sum_congr rfl fun t' _ => hdeposited t', Finset.sum_ite_eq', if_pos]
    rw [Finset.mem_filter_univ, hfeeds]
    exact hfeed t ht
  have hvalue := h _ _ _ 10 _ hdep halong (hrun.symm ▸ undisturbed_of_quoted hquoted
    (fun t' => by rw [hdeposited]; split <;> decide)
    (hcount ▸ (List.count_le_length.trans_lt hlength)))
  rw [hrun, hone] at hvalue
  rw [← hcount, ← (getAccountCollateralValue_eq_ok.mp hvalue).2.2]

/-- **Each token once.** Whatever equally long lists the engine is constructed with, in every run
the value of every account is the sum over the allowed tokens if and only if the tokens are distinct
and no feed is the zero address. -/
theorem valuesEachTokenOnce_iff (hlen : tokens.length = feeds.length)
    (hlength : tokens.length < uint256Size) :
    ValuesEachTokenOnce tokens feeds ↔ tokens.Nodup ∧ 0 ∉ feeds := by
  refine ⟨fun h => ?_, fun ⟨hnodup, hzero⟩ => valuesEachTokenOnce_of_distinct hnodup hzero⟩
  have hnodup : tokens.Nodup := by
    refine List.nodup_iff_count_le_one.mpr fun t => ?_
    by_cases ht : t ∈ tokens
    · exact h.count_le_one hlen hlength ht
    · rw [List.count_eq_zero_of_not_mem ht]
      exact Nat.zero_le 1
  refine ⟨hnodup, fun hzero => ?_⟩
  rw [← List.map_snd_zip hlen.ge] at hzero
  obtain ⟨⟨t, f⟩, hpair, rfl⟩ := List.mem_map.mp hzero
  have ht : t ∈ tokens := (List.of_mem_zip hpair).1
  refine h.feed_ne_zero hlen 0 ht (registerTokens_feed_of_nodup ?_ hpair)
  rwa [List.map_fst_zip hlen.le]

theorem valuesEachTokenOnce_two : ValuesEachTokenOnce [3, 5] [4, 6] :=
  (valuesEachTokenOnce_iff (by decide) (by decide)).mpr ⟨by decide, by decide⟩

/-- The system with its one token listed twice. -/
def doubledWorld : World :=
  DSCEngine.registerTokens [(3, 4), (3, 4)]
    (sampleGenesis (fun t => if t = 3 then sampleLedger else Ledger.empty)
      (fun f => if f = 4 then some (sampleRound (2 * 10 ^ 8)) else none))

/-- The system with a second token that has no feed. -/
def feedlessWorld : World :=
  DSCEngine.registerTokens [(3, 4), (5, 0)]
    (sampleGenesis (fun t => if t = 3 then sampleLedger else Ledger.empty)
      (fun f => if f = 4 then some (sampleRound (2 * 10 ^ 8)) else none))

/-- Sixty units at two dollars each, listed twice, are valued at `240`. With another token that has
no feed they cannot be valued. -/
theorem configuration_miscounts :
    Deployed sampleDeployment [3, 3] [4, 4] doubledWorld ∧
    (∀ t, doubledWorld.s_priceFeeds t ≠ 0 ↔ t = 3) ∧
    (let w := run (step sampleDeployment) doubledWorld
      [.call 10 (.engine (.depositCollateral 3 60))]
    getUSDValue 3 (w.s_collateralDeposited 10 3) w = .ok 120 ∧
    getAccountCollateralValue 10 w = .ok 240) ∧
    Deployed sampleDeployment [3, 5] [4, 0] feedlessWorld ∧
    (∀ t, feedlessWorld.s_priceFeeds t ≠ 0 ↔ t = 3) ∧
    (let w := run (step sampleDeployment) feedlessWorld
      [.call 10 (.engine (.depositCollateral 3 60))]
    getUSDValue 3 (w.s_collateralDeposited 10 3) w = .ok 120 ∧
    ¬ Succeeds (getAccountCollateralValue 10 w)) := by
  refine ⟨⟨_, sampleGenesis_genesis fun _ s => sampleLedgers_allowance s, rfl⟩, fun t => ?_,
    ⟨by decide, by decide⟩, ⟨_, sampleGenesis_genesis fun _ s => sampleLedgers_allowance s, rfl⟩,
    fun t => ?_, ⟨by decide, by decide⟩⟩
  · refine ⟨fun ht => ?_, fun ht => ht ▸ by decide⟩
    by_contra hne
    exact ht (registerTokens_feed_of_notMem (by simpa using hne))
  · refine ⟨fun ht => ?_, fun ht => ht ▸ by decide⟩
    by_contra hne
    refine ht ?_
    simp [feedlessWorld, registerTokens, sampleGenesis, Function.update_apply, hne]

end Stablecoin

end UpdraftContracts

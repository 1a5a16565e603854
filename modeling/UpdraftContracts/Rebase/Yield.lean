import UpdraftContracts.Evm.Rounding
import UpdraftContracts.Rebase.Rates
import UpdraftContracts.Rebase.Refinement

/-!
# What accounts earn

The rate belongs to the account, not to the tokens. Tokens that arrive at an account with tokens
earn the rate of that account from then on, so a transfer changes what all accounts together earn by
the amount times the difference of the two rates.

Interest is minted whenever an account takes part in a transfer, also in a transfer of nothing, and
what is minted earns interest itself. So an account that is touched does not grow linearly. It falls
behind by at most a wei per touch, and runs ahead by what the minted interest has earned.

## Main results

* `representation` — principals have a clock, and the supply is no larger than the sum of balances
* `transfer_yield` — how a transfer changes what all accounts earn, and when it does not raise it
* `touched_balance` — how far touches bring a balance away from linear growth
-/

namespace UpdraftContracts

open Evm

namespace Rebase

open RebaseToken Token

variable {B : OpenZeppelinErc20 Address} {s s' : Token} {u src dst : Address} {a : ℕ}

/-! ## Principals and balances -/

/-- **The representation.** In every reachable state an account with a principal has a clock that
does not run ahead. So the subtractions of `balanceOf` and `_mintAccruedInterest` never underflow
and a balance is no smaller than the principal. The supply is the sum of the principals, and no
larger than the sum of the balances if these can be computed. -/
theorem representation (h : TokenReachable B s) :
    (∀ u, s.ledger.balance u ≠ 0 →
      0 < s.s_userLastUpdatedTimestamp u ∧ s.s_userLastUpdatedTimestamp u ≤ s.timestamp) ∧
    (∀ u, Succeeds (checkedSub s.timestamp (s.s_userLastUpdatedTimestamp u) : Exec Error ℕ)) ∧
    (∀ u b, balanceOf u s = .ok b → s.ledger.balance u ≤ b ∧
      Succeeds (checkedSub b (s.ledger.balance u) : Exec Error ℕ)) ∧
    s.ledger.totalSupply = ∑ u, s.ledger.balance u ∧
    ((∀ u, s.Fits u) → ∃ balances : Address → ℕ,
      (∀ u, balanceOf u s = .ok (balances u)) ∧ s.ledger.totalSupply ≤ ∑ u, balances u) := by
  have hs := h.wellFormed
  refine ⟨fun u hu => ⟨hs.updated_pos u hu, hs.updated_le u⟩, fun u => ?_, fun u b hb => ?_,
    s.ledger.sum_balance.symm, fun hfits => ?_⟩
  · exact ⟨_, checkedSub_eq_ok.mpr ⟨hs.updated_le u, rfl⟩⟩
  · obtain ⟨-, rfl⟩ := (balanceOf_eq_ok hs).mp hb
    have hle := s.principal_le_balance u
    exact ⟨hle, _, checkedSub_eq_ok.mpr ⟨hle, rfl⟩⟩
  · refine ⟨s.balance, fun u => (balanceOf_eq_ok hs).mpr ⟨hfits u, rfl⟩, ?_⟩
    rw [← s.ledger.sum_balance]
    exact Finset.sum_le_sum fun u _ => s.principal_le_balance u

/-- A hundred coins minted a million seconds ago are worth 105. -/
theorem representation_sample :
    TokenReachable openZeppelin sampleToken ∧ sampleToken.ledger.balance 10 = 100 ∧
      0 < sampleToken.s_userLastUpdatedTimestamp 10 ∧ balanceOf 10 sampleToken = .ok 105 ∧
      ∃ balances : Address → ℕ, (∀ u, balanceOf u sampleToken = .ok (balances u)) ∧
        sampleToken.ledger.totalSupply ≤ ∑ u, balances u := by
  obtain ⟨hclock, -, -, -, hsum⟩ := representation sampleToken_reachable
  exact ⟨sampleToken_reachable, by decide, (hclock 10 (by decide)).1, by decide,
    hsum sampleToken_noOverflow.fits⟩

/-! ## Transfers -/

/-- A `transfer`, or a `transferFrom` by anyone, that moved `a` from `src` to `dst`. -/
def Moves (B : OpenZeppelinErc20 Address) (s : Token) (src dst : Address) (a : ℕ) (s' : Token) :
    Prop :=
  (∃ ok, transfer B src dst a s = .ok (ok, s')) ∨
    ∃ sender ok, transferFrom B sender src dst a s = .ok (ok, s')

namespace Moves

theorem spec (hs : s.WellFormed) (h : Moves B s src dst a s') :
    s.CanPrepare src dst ∧ s.amount src a ≤ s.balance src ∧
      ∃ L : Ledger Address, L.balance = (s.prepared src dst).ledger.balance ∧
        s' = (s.prepared src dst).setLedger (L.move src dst (s.amount src a)) := by
  rcases h with ⟨ok, h⟩ | ⟨sender, ok, h⟩
  · obtain ⟨-, hprep, hle, rfl⟩ := transfer_cases hs h
    exact ⟨hprep, hle, _, rfl, rfl⟩
  · obtain ⟨-, hprep, hle, k, rfl⟩ := transferFrom_cases hs h
    exact ⟨hprep, hle, _, Ledger.balance_approve, rfl⟩

/-- Tokens change hands, interest does not. -/
theorem becomes (hs : s.WellFormed) (h : Moves B s src dst a s') :
    s.Becomes s' fun u => s.balance u - (if u = src then s.amount src a else 0)
      + if u = dst then s.amount src a else 0 := by
  obtain ⟨hprep, hle, L, hL, rfl⟩ := h.spec hs
  exact becomes_prepared hs hprep hL hle

/-- The only rate that changes is that of a receiver without tokens. -/
theorem rate (hs : s.WellFormed) (h : Moves B s src dst a s') (u : Address) :
    s'.s_userInterestRates u
      = if s.balance dst = 0 ∧ u = dst then s.s_userInterestRates src
        else s.s_userInterestRates u := by
  obtain ⟨-, -, L, -, rfl⟩ := h.spec hs
  change (s.prepared src dst).s_userInterestRates u = _
  refine prepared_cases (P := fun t => t.s_userInterestRates u
    = if s.balance dst = 0 ∧ u = dst then s.s_userInterestRates src
      else s.s_userInterestRates u) (fun hzero => ?_) fun hne => ?_
  · simp only [hzero, true_and]
    exact Function.update_apply ..
  · rw [if_neg fun hc => hne hc.1]
    rfl

end Moves

/-- What all accounts together earn per second, in units of `1 / PRECISION_FACTOR`. -/
def Token.yield (s : Token) : ℕ := ∑ u, s.balance u * s.s_userInterestRates u

/-- A transfer takes the amount out at the rate of the sender and puts it in at the rate that the
recipient has afterwards. -/
theorem Moves.yield (hs : s.WellFormed) (h : Moves B s src dst a s') :
    s'.yield + s.amount src a * s.s_userInterestRates src
      = s.yield + s.amount src a * s'.s_userInterestRates dst := by
  obtain ⟨-, hle, -⟩ := h.spec hs
  -- only an account without tokens gets a new rate
  have hkept : ∀ u, s.balance u ≠ 0 → s'.s_userInterestRates u = s.s_userInterestRates u := by
    intro u hu
    rw [h.rate hs]
    split
    · next hc => exact absurd (hc.2 ▸ hc.1) hu
    · rfl
  have hsum := Ledger.sum_weighted_debit_credit s.balance dst hle hkept
  rw [Token.yield, Finset.sum_congr rfl fun u _ => by rw [(h.becomes hs).balance]]
  exact hsum

/-- **Transfers and rates.** A transfer of `v` changes what all accounts together earn by `v` times
the difference between the rate the recipient has afterwards and the rate of the sender. It does not
raise it exactly if nothing is moved, or the recipient had no tokens, or no higher rate. -/
theorem transfer_yield (hs : TokenReachable B s) (h : Moves B s src dst a s') :
    s'.timestamp = s.timestamp ∧
    s'.yield + s.amount src a * s.s_userInterestRates src
      = s.yield + s.amount src a * s'.s_userInterestRates dst ∧
    (s'.yield ≤ s.yield ↔ s.amount src a = 0 ∨ s.balance dst = 0 ∨
      s.s_userInterestRates dst ≤ s.s_userInterestRates src) := by
  have hwf := hs.wellFormed
  have hyield := h.yield hwf
  refine ⟨(h.becomes hwf).timestamp, hyield, ?_⟩
  have hmul : s'.yield ≤ s.yield ↔
      s.amount src a * s'.s_userInterestRates dst ≤ s.amount src a * s.s_userInterestRates src := by
    omega
  rw [hmul]
  rcases Nat.eq_zero_or_pos (s.amount src a) with hv | hv
  · simp [hv]
  · rw [Nat.mul_le_mul_left_iff hv, h.rate hwf]
    by_cases hzero : s.balance dst = 0
    · simp [hzero]
    · simp [hzero, hv.ne']

/-- Account 10 got one coin at the first rate. The rate was lowered, and account 11 got a hundred at
the new one. -/
def sampleHolders : Token :=
  run (TokenAction.step openZeppelin) (RebaseToken.constructor 1 1)
    [.call 1 (.grantMintAndBurnRole 2), .call 2 (.mint 10 1 (5 * 10 ^ 10)),
      .call 1 (.setInterestRate (4 * 10 ^ 10)), .call 2 (.mint 11 100 (4 * 10 ^ 10))]

theorem sampleHolders_reachable : TokenReachable openZeppelin sampleHolders :=
  ⟨1, 1, _, Nat.one_pos, rfl⟩

/-- Account 11 sends everything to an account without tokens, which earns no more with it. -/
theorem transfer_yield_sample :
    TokenReachable openZeppelin sampleHolders ∧ sampleHolders.balance 12 = 0 ∧
      ∃ s', Moves openZeppelin sampleHolders 11 12 100 s' ∧ s'.yield ≤ sampleHolders.yield := by
  have hempty : sampleHolders.balance 12 = 0 := by decide
  obtain ⟨⟨ok, s'⟩, h⟩ : Succeeds (transfer openZeppelin 11 12 100 sampleHolders) := by decide
  have hmoves : Moves openZeppelin sampleHolders 11 12 100 s' := Or.inl ⟨ok, h⟩
  obtain ⟨-, -, hiff⟩ := transfer_yield sampleHolders_reachable hmoves
  exact ⟨sampleHolders_reachable, hempty, s', hmoves, hiff.mpr (Or.inr (Or.inl hempty))⟩

/-- Account 11 sends its hundred coins to account 10, and they earn `5 * 10 ^ 10` from then on
instead of `4 * 10 ^ 10`. -/
theorem transfer_raises_yield :
    TokenReachable openZeppelin sampleHolders ∧
      (sampleHolders.balance 10 = 1 ∧ sampleHolders.balance 11 = 100) ∧
      (sampleHolders.s_userInterestRates 10 = 5 * 10 ^ 10 ∧
        sampleHolders.s_userInterestRates 11 = 4 * 10 ^ 10 ∧
        sampleHolders.s_interestRate = 4 * 10 ^ 10) ∧
      ∃ s', transfer openZeppelin 11 10 100 sampleHolders = .ok (true, s') ∧
        s'.s_userInterestRates 10 = 5 * 10 ^ 10 ∧ s'.balance 10 = 101 ∧
        sampleHolders.yield + 10 ^ 12 = s'.yield := by
  have hwf := sampleHolders_reachable.wellFormed
  have hamount : sampleHolders.amount 11 100 = 100 := by decide
  have hrates : sampleHolders.s_userInterestRates 10 = 5 * 10 ^ 10 ∧
      sampleHolders.s_userInterestRates 11 = 4 * 10 ^ 10 := by decide
  have hbal : sampleHolders.balance 10 = 1 := by decide
  obtain ⟨⟨ok, s'⟩, h⟩ : Succeeds (transfer openZeppelin 11 10 100 sampleHolders) := by decide
  have hmoves : Moves openZeppelin sampleHolders 11 10 100 s' := Or.inl ⟨ok, h⟩
  have hrate : s'.s_userInterestRates 10 = 5 * 10 ^ 10 := by
    rw [hmoves.rate hwf, if_neg (by decide), hrates.1]
  have hyield := hmoves.yield hwf
  rw [hamount, hrates.2, hrate] at hyield
  obtain ⟨rfl, -⟩ := transfer_cases hwf h
  have hdiff : ∀ x y : ℕ, y + 100 * (4 * 10 ^ 10) = x + 100 * (5 * 10 ^ 10) → x + 10 ^ 12 = y := by
    intro x y hxy
    omega
  refine ⟨sampleHolders_reachable, by decide, ⟨hrates.1, hrates.2, by decide⟩, s', h, hrate, ?_,
    hdiff _ _ hyield⟩
  rw [(hmoves.becomes hwf).balance, hamount, hbal]
  decide

/-! ## Touches -/

/-- The account sits still: time passes, or somebody transfers nothing. -/
def TokenAction.Idle : TokenAction → Prop
  | .call _ (.transfer _ a) => a = 0
  | .call _ (.transferFrom _ _ a) => a = 0
  | .call _ _ => False
  | .elapse _ => True

/-- The action is a call. -/
def TokenAction.isCall : TokenAction → Bool
  | .call _ _ => true
  | .elapse _ => false

/-- The number of calls of a schedule. -/
def touches (as : List TokenAction) : ℕ := as.countP TokenAction.isCall

/-- The interest that has been minted since the principal was `p` earned at most one wei since the
last update. -/
def Token.EarnsAtMostOne (s : Token) (u : Address) (p : ℕ) : Prop :=
  (s.ledger.balance u - p) * s.s_userInterestRates u
    * (s.timestamp - s.s_userLastUpdatedTimestamp u) ≤ PRECISION_FACTOR

/-- A balance is the grown principal. -/
theorem Token.balance_eq_grown (s : Token) (u : Address) :
    s.balance u = grown PRECISION_FACTOR (s.s_userInterestRates u)
      (s.timestamp - s.s_userLastUpdatedTimestamp u) (s.ledger.balance u) := rfl

/-- Accounts that take no part in a transfer are not settled by it. -/
theorem Token.CanPrepare.of_ne (h : s.CanPrepare src dst) (hsrc : u ≠ src) (hdst : u ≠ dst) :
    (s.prepared src dst).ledger.balance u = s.ledger.balance u ∧
      (s.prepared src dst).s_userLastUpdatedTimestamp u = s.s_userLastUpdatedTimestamp u := by
  have hboth : ((s.accrue src).accrue dst).ledger.balance u = s.ledger.balance u ∧
      ((s.accrue src).accrue dst).s_userLastUpdatedTimestamp u
        = s.s_userLastUpdatedTimestamp u := by
    refine ⟨?_, ?_⟩
    · rw [h.recipient.principal, if_neg hdst, h.sender.principal, if_neg hsrc, Nat.add_zero]
    · simp [accrue, setLastUpdated, setLedger, Function.update_of_ne hsrc,
        Function.update_of_ne hdst]
  exact prepared_cases (P := fun t => t.ledger.balance u = s.ledger.balance u ∧
    t.s_userLastUpdatedTimestamp u = s.s_userLastUpdatedTimestamp u) (fun _ => hboth) fun _ => hboth

/-- A transfer of nothing leaves an account alone or mints its interest. -/
theorem Moves.zero (hs : s.WellFormed) (h : Moves B s src dst 0 s') (u : Address) :
    (s'.ledger.balance u = s.ledger.balance u ∧
        s'.s_userLastUpdatedTimestamp u = s.s_userLastUpdatedTimestamp u) ∨
      s'.ledger.balance u = s.balance u ∧ s'.s_userLastUpdatedTimestamp u = s.timestamp := by
  obtain ⟨hprep, -, L, hL, rfl⟩ := h.spec hs
  have hnone : s.amount src 0 = 0 := if_neg (by decide)
  have hledger : (L.move src dst 0).balance u = (s.prepared src dst).ledger.balance u := by
    rw [Ledger.balance_move (Nat.zero_le _), hL]
    simp
  have hbec := hprep.becomes hs
  have hsettled : (s.prepared src dst).Settled u →
      (s.prepared src dst).ledger.balance u = s.balance u ∧
        (s.prepared src dst).s_userLastUpdatedTimestamp u = s.timestamp := fun hset =>
    ⟨by rw [← hset.balance, hbec.balance], by rw [hset, hbec.timestamp]⟩
  rw [hnone]
  change
    ((L.move src dst 0).balance u = _ ∧ (s.prepared src dst).s_userLastUpdatedTimestamp u = _) ∨
      (L.move src dst 0).balance u = _ ∧ (s.prepared src dst).s_userLastUpdatedTimestamp u = _
  rw [hledger]
  by_cases hsrc : u = src
  · exact Or.inr (hsettled (hsrc ▸ CanPrepare.settled.1))
  by_cases hdst : u = dst
  · exact Or.inr (hsettled (hdst ▸ CanPrepare.settled.2))
  · exact Or.inl (hprep.of_ne hsrc hdst)

variable {as : List TokenAction} {act : TokenAction} {j p r t₀ : ℕ}

theorem TokenAction.Idle.moves {sender : Address} {c : TokenCall}
    (h : TokenAction.Idle (.call sender c)) (hexec : c.exec B sender s = .ok s') :
    ∃ src dst, Moves B s src dst 0 s' := by
  cases c with
  | transfer dst a =>
    obtain rfl : a = 0 := h
    obtain ⟨⟨ok, _⟩, hok, rfl⟩ := exec_snd_eq_ok.mp hexec
    exact ⟨sender, dst, Or.inl ⟨ok, hok⟩⟩
  | transferFrom src dst a =>
    obtain rfl : a = 0 := h
    obtain ⟨⟨ok, _⟩, hok, rfl⟩ := exec_snd_eq_ok.mp hexec
    exact ⟨src, dst, Or.inr ⟨sender, ok, hok⟩⟩
  | _ => exact h.elim

/-- The account keeps its rate and its entries, unless a call minted its interest. -/
def Token.Sits (s : Token) (u : Address) (called : Bool) (s' : Token) : Prop :=
  s'.WellFormed ∧ s'.s_userInterestRates u = s.s_userInterestRates u ∧
    ((s'.ledger.balance u = s.ledger.balance u ∧
        s'.s_userLastUpdatedTimestamp u = s.s_userLastUpdatedTimestamp u) ∨
      called = true ∧ s'.ledger.balance u = s.balance u ∧
        s'.s_userLastUpdatedTimestamp u = s.timestamp)

/-- **One idle step.** -/
theorem idle_step (hs : s.WellFormed) (hu : s.balance u ≠ 0) (hact : act.Idle) :
    s.Sits u act.isCall (act.step B s) := by
  cases act with
  | call sender c =>
    have hsame : s.Sits u true s := ⟨hs, rfl, Or.inl ⟨rfl, rfl⟩⟩
    refine settle_induction hsame fun s' hexec => ?_
    obtain ⟨src, dst, hmoves⟩ := hact.moves hexec
    have hne : ¬ (s.balance dst = 0 ∧ u = dst) := fun hc => hu (hc.2 ▸ hc.1)
    refine ⟨(hmoves.becomes hs).wellFormed, ?_, (hmoves.zero hs u).imp_right fun h => ⟨rfl, h⟩⟩
    rw [hmoves.rate hs, if_neg hne]
  | elapse seconds => exact ⟨wellFormed_elapse hs seconds, rfl, Or.inl ⟨rfl, rfl⟩⟩

/-- An account without tokens gets none from idle steps. -/
theorem idle_step_empty (hs : s.WellFormed) (hu : s.ledger.balance u = 0) (hact : act.Idle) :
    (act.step B s).ledger.balance u = 0 := by
  have hzero : s.balance u = 0 := by rw [Token.balance, hu, Nat.zero_mul, Nat.zero_div]
  cases act with
  | call sender c =>
    refine settle_induction (P := fun s' : Token => s'.ledger.balance u = 0) hu fun s' hexec => ?_
    obtain ⟨src, dst, hmoves⟩ := hact.moves hexec
    rcases hmoves.zero hs u with h | h
    · rw [h.1, hu]
    · rw [h.1, hzero]
  | elapse seconds => exact hu

/-- The account had the principal `p` at `t₀`, and has been touched at most `j` times since. -/
structure Touched (u : Address) (p r t₀ j : ℕ) (s : Token) : Prop where
  wellFormed : s.WellFormed
  rate : s.s_userInterestRates u = r
  started : t₀ ≤ s.s_userLastUpdatedTimestamp u
  folded : FoldedAtLeast PRECISION_FACTOR r p j (s.s_userLastUpdatedTimestamp u - t₀)
    (s.ledger.balance u)

namespace Touched

variable (h : Touched u p r t₀ j s)
include h

theorem balance_ne_zero (hp : p ≠ 0) : s.balance u ≠ 0 := by
  have hle := h.folded.le.trans (s.principal_le_balance u)
  omega

/-- The time since `t₀` is the time until the last update and the time since. -/
theorem elapsed :
    s.s_userLastUpdatedTimestamp u - t₀ + (s.timestamp - s.s_userLastUpdatedTimestamp u)
      = s.timestamp - t₀ := by
  have hle := h.wellFormed.updated_le u
  have hstart := h.started
  omega

theorem balance_eq : s.balance u
    = grown PRECISION_FACTOR r (s.timestamp - s.s_userLastUpdatedTimestamp u)
      (s.ledger.balance u) := by
  rw [s.balance_eq_grown, h.rate]

/-- A call that touches the account counts, time does not. -/
theorem step (hp : p ≠ 0) (hact : act.Idle) :
    Touched u p r t₀ (j + act.isCall.toNat) (act.step B s) := by
  obtain ⟨hwf, hrate, ⟨hbal, hlast⟩ | ⟨hcall, hbal, hlast⟩⟩ :=
    idle_step (B := B) h.wellFormed (h.balance_ne_zero hp) hact
  · refine ⟨hwf, hrate.trans h.rate, hlast ▸ h.started, ?_⟩
    rw [hbal, hlast]
    cases act.isCall with
    | false => exact h.folded
    | true => exact h.folded.mono
  · refine ⟨hwf, hrate.trans h.rate, ?_, ?_⟩
    · rw [hlast]
      exact h.started.trans (h.wellFormed.updated_le u)
    · rw [hbal, hlast, hcall, h.balance_eq, ← h.elapsed]
      exact h.folded.fold (by decide) _

/-- A step in a state where the minted interest earns at most a wei also keeps the upper bound. -/
theorem step_atMost (hp : p ≠ 0) (hact : act.Idle)
    (hmost : FoldedAtMost PRECISION_FACTOR r p j (s.s_userLastUpdatedTimestamp u - t₀)
      (s.ledger.balance u))
    (hone : act.isCall = true → s.EarnsAtMostOne u p) :
    FoldedAtMost PRECISION_FACTOR r p (j + act.isCall.toNat)
      ((act.step B s).s_userLastUpdatedTimestamp u - t₀) ((act.step B s).ledger.balance u) := by
  obtain ⟨-, -, ⟨hbal, hlast⟩ | ⟨hcall, hbal, hlast⟩⟩ :=
    idle_step (B := B) h.wellFormed (h.balance_ne_zero hp) hact
  · rw [hbal, hlast]
    cases act.isCall with
    | false => exact hmost
    | true => exact hmost.mono
  · have hgain := hone hcall
    rw [Token.EarnsAtMostOne, h.rate] at hgain
    rw [hbal, hlast, hcall, h.balance_eq, ← h.elapsed]
    exact hmost.fold h.folded.le hgain

omit h in
/-- **Whole schedules.** -/
theorem run (h : Touched u p r t₀ j s) (hp : p ≠ 0) (has : ∀ a ∈ as, a.Idle) :
    Touched u p r t₀ (j + touches as) (Evm.run (TokenAction.step B) s as) ∧
      (FoldedAtMost PRECISION_FACTOR r p j (s.s_userLastUpdatedTimestamp u - t₀)
          (s.ledger.balance u) →
        Along (TokenAction.step B) (fun s a => a.isCall = true → s.EarnsAtMostOne u p) s as →
        FoldedAtMost PRECISION_FACTOR r p (j + touches as)
          ((Evm.run (TokenAction.step B) s as).s_userLastUpdatedTimestamp u - t₀)
          ((Evm.run (TokenAction.step B) s as).ledger.balance u)) := by
  induction as generalizing s j with
  | nil => exact ⟨h, fun hmost _ => hmost⟩
  | cons act as ih =>
    have hact := has act (List.mem_cons_self ..)
    have hcount : j + touches (act :: as) = j + act.isCall.toNat + touches as := by
      rw [touches, List.countP_cons, touches, Nat.add_assoc, Nat.add_comm act.isCall.toNat]
      cases act.isCall <;> rfl
    obtain ⟨htouched, hmost⟩ := ih (h.step (B := B) hp hact)
      fun a ha => has a (List.mem_cons_of_mem _ ha)
    rw [hcount]
    exact ⟨htouched, fun hm hone => hmost (h.step_atMost hp hact hm hone.1) hone.2⟩

end Touched

/-- An account without tokens stays so. -/
theorem idle_run_empty (hs : s.WellFormed) (hu : s.ledger.balance u = 0)
    (has : ∀ a ∈ as, a.Idle) : (run (TokenAction.step B) s as).ledger.balance u = 0 := by
  induction as generalizing s with
  | nil => exact hu
  | cons act as ih =>
    have hact := has act (List.mem_cons_self ..)
    refine ih ?_ (idle_step_empty hs hu hact) fun a ha => has a (List.mem_cons_of_mem _ ha)
    cases act with
    | call sender c => exact settle_induction hs fun s' h => c.wellFormed_exec hs h
    | elapse seconds => exact wellFormed_elapse hs seconds

/-- **Touches and linear growth.** Take any account, with principal `p` and rate `r`, last updated
at `t₀`, and any schedule of transfers of nothing. At the end its balance is at most a wei per call
below `p * (10 ^ 18 + r * (T - t₀)) / 10 ^ 18`. It is at most a wei per call above that if at every
call, and at the end, the interest minted since `t₀` has earned at most one wei since the last
update. -/
theorem touched_balance {b : ℕ} (hs : TokenReachable B s) (has : ∀ a ∈ as, a.Idle)
    (hb : balanceOf u (run (TokenAction.step B) s as) = .ok b) :
    let linear := s.ledger.balance u * (10 ^ 18 + s.s_userInterestRates u
      * ((run (TokenAction.step B) s as).timestamp - s.s_userLastUpdatedTimestamp u)) / 10 ^ 18
    linear ≤ b + touches as ∧
      (Along (TokenAction.step B)
          (fun s' a => a.isCall = true → s'.EarnsAtMostOne u (s.ledger.balance u)) s as →
        (run (TokenAction.step B) s as).EarnsAtMostOne u (s.ledger.balance u) →
        b ≤ linear + touches as) := by
  have hwf := hs.wellFormed
  rcases Nat.eq_zero_or_pos (s.ledger.balance u) with hzero | hpos
  · have hbal : balanceOf u (run (TokenAction.step B) s as) = .ok 0 := by
      simp [balanceOf, idle_run_empty hwf hzero has, pure, Except.pure]
    obtain rfl : 0 = b := Except.ok.inj (hbal.symm.trans hb)
    exact ⟨by simp [hzero], fun _ _ => Nat.zero_le _⟩
  · have hstart : Touched u (s.ledger.balance u) (s.s_userInterestRates u)
        (s.s_userLastUpdatedTimestamp u) 0 s :=
      ⟨hwf, rfl, le_rfl, by rw [Nat.sub_self]; exact FoldedAtLeast.refl⟩
    obtain ⟨hend, hmost⟩ := hstart.run (B := B) hpos.ne' has
    rw [Nat.zero_add] at hend hmost
    obtain ⟨-, rfl⟩ := (balanceOf_eq_ok hend.wellFormed).mp hb
    rw [hend.balance_eq]
    refine ⟨?_, fun halong hone => ?_⟩
    · have hle := hend.folded.grown_le (by decide)
        ((run (TokenAction.step B) s as).timestamp
          - (run (TokenAction.step B) s as).s_userLastUpdatedTimestamp u)
      rwa [hend.elapsed] at hle
    · have hfresh := hmost (by rw [Nat.sub_self]; exact FoldedAtMost.refl) halong
      rw [Token.EarnsAtMostOne, hend.rate] at hone
      have hle := hfresh.le_grown (by decide) hend.folded.le hone
      rwa [hend.elapsed] at hle

/-- Account 11, which has nothing, touches account 10. A day later the balance is still within a wei
of the linear value. -/
def sampleTouch : List TokenAction := [.call 11 (.transfer 10 0), .elapse (10 ^ 5)]

theorem touched_balance_sample :
    TokenReachable openZeppelin sampleToken ∧ touches sampleTouch = 1 ∧
      balanceOf 10 (run (TokenAction.step openZeppelin) sampleToken sampleTouch) = .ok 105 ∧
      100 * (10 ^ 18 + 5 * 10 ^ 10 * (11 * 10 ^ 5)) / 10 ^ 18 ≤ 105 + touches sampleTouch ∧
      105 ≤ 100 * (10 ^ 18 + 5 * 10 ^ 10 * (11 * 10 ^ 5)) / 10 ^ 18 + touches sampleTouch := by
  have hidle : ∀ a ∈ sampleTouch, a.Idle := by
    intro a ha
    simp only [sampleTouch, List.mem_cons, List.not_mem_nil, or_false] at ha
    obtain rfl | rfl := ha
    · exact rfl
    · exact trivial
  have hb :
      balanceOf 10 (run (TokenAction.step openZeppelin) sampleToken sampleTouch) = .ok 105 := by
    decide
  have hbefore : sampleToken.EarnsAtMostOne 10 (sampleToken.ledger.balance 10) := by
    rw [Token.EarnsAtMostOne]
    decide
  have hafter : (run (TokenAction.step openZeppelin) sampleToken sampleTouch).EarnsAtMostOne 10
      (sampleToken.ledger.balance 10) := by
    rw [Token.EarnsAtMostOne]
    decide
  obtain ⟨hlower, hupper⟩ := touched_balance sampleToken_reachable hidle hb
  refine ⟨sampleToken_reachable, by decide, hb, hlower, hupper ⟨fun _ => hbefore, ?_⟩ hafter⟩
  exact ⟨fun habs => absurd habs Bool.false_ne_true, trivial⟩

/-- Account 11 touches account 10 once, `2 * 10 ^ 7` seconds after the coins were minted, and as
much time passes again. -/
def sampleCompounded : Token :=
  run (TokenAction.step openZeppelin) sampleToken
    [.elapse (19 * 10 ^ 6), .call 11 (.transfer 10 0), .elapse (2 * 10 ^ 7)]

/-- A hundred coins at `5 * 10 ^ 10` double in `2 * 10 ^ 7` seconds. After one touch they double
once more in the same time, and are 400 instead of 300. -/
theorem touch_compounds :
    TokenReachable openZeppelin sampleToken ∧
      (sampleToken.ledger.balance 10 = 100 ∧ sampleToken.s_userInterestRates 10 = 5 * 10 ^ 10 ∧
        sampleToken.s_userLastUpdatedTimestamp 10 = 1) ∧
      (sampleCompounded.timestamp = 4 * 10 ^ 7 + 1 ∧ balanceOf 10 sampleCompounded = .ok 400) ∧
      100 * (10 ^ 18 + 5 * 10 ^ 10 * (4 * 10 ^ 7 + 1 - 1)) / 10 ^ 18 = 300 :=
  ⟨sampleToken_reachable, by decide, by decide, by decide⟩

end Rebase

end UpdraftContracts

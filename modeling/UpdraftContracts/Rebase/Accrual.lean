import UpdraftContracts.Rebase.RebaseToken

/-!
# Accrued interest

The balance of an account in exact arithmetic, and what the functions of the token do to it.
Minting the accrued interest of an account leaves its balance as it was: the principal takes the
value of the balance and the clock of the account starts again. An account whose clock has just
been started is settled. Its balance is its principal, whatever its rate, and every function moves
principal between settled accounts only.

## Main results

* `RebaseToken.balanceOf_eq_ok` — `balanceOf` returns the exact balance or overflows
* `Token.balance_accrue` — minting interest changes no balance
* `Token.becomes_setLedger` — principal moved between settled accounts shows one to one
* `Token.CanPrepare.becomes` — so does nothing that a transfer does before it moves coins
-/

namespace UpdraftContracts

open Evm

namespace Rebase

open RebaseToken

variable {B : OpenZeppelinErc20 Address} {s s' : Token} {u v sender src dst : Address}
  {L : Ledger Address} {a b r : ℕ}

/-! ## Exact balances -/

namespace Token

/-- The factor an account has grown by since its last update, scaled by `PRECISION_FACTOR`. -/
def growth (s : Token) (u : Address) : ℕ :=
  PRECISION_FACTOR + s.s_userInterestRates u * (s.timestamp - s.s_userLastUpdatedTimestamp u)

/-- What `balanceOf` computes. -/
def balance (s : Token) (u : Address) : ℕ := s.ledger.balance u * s.growth u / PRECISION_FACTOR

/-- The product in `balanceOf` does not overflow. -/
def Fits (s : Token) (u : Address) : Prop := s.ledger.balance u * s.growth u < uint256Size

/-- The interest that has accrued and is not minted yet. -/
def interest (s : Token) (u : Address) : ℕ := s.balance u - s.ledger.balance u

/-- Accounts with a principal have a clock, and clocks do not run ahead. -/
structure WellFormed (s : Token) : Prop where
  timestamp_pos : 0 < s.timestamp
  updated_pos : ∀ u, s.ledger.balance u ≠ 0 → 0 < s.s_userLastUpdatedTimestamp u
  updated_le : ∀ u, s.s_userLastUpdatedTimestamp u ≤ s.timestamp

/-- The clock of the account has just been started. -/
def Settled (s : Token) (u : Address) : Prop := s.s_userLastUpdatedTimestamp u = s.timestamp

/-- Interest is never negative. -/
theorem principal_le_balance (s : Token) (u : Address) : s.ledger.balance u ≤ s.balance u := by
  have hpos : 0 < PRECISION_FACTOR := by decide
  rw [balance, Nat.le_div_iff_mul_le hpos]
  exact Nat.mul_le_mul_left _ (Nat.le_add_right _ _)

theorem principal_add_interest (s : Token) (u : Address) :
    s.ledger.balance u + s.interest u = s.balance u :=
  Nat.add_sub_cancel' (s.principal_le_balance u)

theorem Settled.growth (h : s.Settled u) : s.growth u = PRECISION_FACTOR := by
  rw [Token.growth, h, Nat.sub_self, Nat.mul_zero, Nat.add_zero]

/-- The balance of a settled account is its principal. -/
theorem Settled.balance (h : s.Settled u) : s.balance u = s.ledger.balance u := by
  rw [Token.balance, h.growth]
  exact Nat.mul_div_cancel _ (by decide)

theorem Settled.interest (h : s.Settled u) : s.interest u = 0 := by
  rw [Token.interest, h.balance, Nat.sub_self]

/-- The product of a settled account is its balance scaled up. -/
theorem Settled.fits_iff (h : s.Settled u) :
    s.Fits u ↔ s.balance u * PRECISION_FACTOR < uint256Size := by
  rw [Fits, h.growth, h.balance]

/-- What an account has now can be multiplied without an overflow. -/
theorem Fits.balance_mul_lt (h : s.Fits u) : s.balance u * PRECISION_FACTOR < uint256Size :=
  lt_of_le_of_lt (Nat.div_mul_le_self _ _) h

/-- An account that gains no principal can still be read. -/
theorem Fits.setLedger (h : s.Fits u) (hle : L.balance u ≤ s.ledger.balance u) :
    (s.setLedger L).Fits u :=
  lt_of_le_of_lt (Nat.mul_le_mul_right _ hle) h

/-- A balance depends on the entries of the account only. -/
theorem balance_congr (hledger : s'.ledger.balance u = s.ledger.balance u)
    (hgrowth : s'.growth u = s.growth u) : s'.balance u = s.balance u := by
  rw [balance, hledger, hgrowth, balance]

/-- Principal added to a settled account, or taken from it, shows in its balance one to one. -/
theorem balance_setLedger (h : s.Settled u ∨ L.balance u = s.ledger.balance u) :
    (s.setLedger L).balance u = s.interest u + L.balance u := by
  rcases h with h | h
  · rw [Settled.balance (s := s.setLedger L) h, h.interest, Nat.zero_add]
    rfl
  · have hsame : (s.setLedger L).balance u = s.balance u := balance_congr h rfl
    rw [hsame, h, Nat.add_comm, principal_add_interest]

/-- A new rate changes no balance of a settled account. -/
theorem balance_setRate (h : s.Settled u) (v : Address) :
    (s.setRate u r).balance v = s.balance v := by
  rcases eq_or_ne v u with rfl | hv
  · rw [Settled.balance (s := s.setRate v r) h, h.balance]
    rfl
  · refine balance_congr rfl ?_
    simp [growth, setRate, Function.update_of_ne hv]

/-- Nor does it make an account unreadable. -/
theorem Fits.setRate (h : s.Fits v) (hu : s.Settled u) : (s.setRate u r).Fits v := by
  rcases eq_or_ne v u with rfl | hv
  · rw [Settled.fits_iff (s := s.setRate v r) hu, balance_setRate hu]
    exact h.balance_mul_lt
  · simpa [Fits, growth, Token.setRate, Function.update_of_ne hv] using h

/-- Time never lowers a balance. -/
theorem balance_le_elapse (s : Token) (seconds : ℕ) (u : Address) :
    s.balance u ≤ (s.elapse seconds).balance u := by
  refine Nat.div_le_div_right (Nat.mul_le_mul_left _ (Nat.add_le_add_left ?_ _))
  refine Nat.mul_le_mul_left _ ?_
  exact Nat.sub_le_sub_right (Nat.le_add_right _ _) _

end Token

/-! ## Reading a balance -/

open Token in
/-- The view returns the exact balance, or reverts because a product does not fit. -/
theorem RebaseToken.balanceOf_eq_ok (hs : s.WellFormed) :
    balanceOf u s = .ok b ↔ s.Fits u ∧ b = s.balance u := by
  by_cases hp : s.ledger.balance u = 0
  · simp [balanceOf, hp, Fits, Token.balance, pure_eq_ok, (by decide : 0 < uint256Size)]
  · have hlast := hs.updated_pos u hp
    have hle := hs.updated_le u
    simp only [balanceOf, if_neg hp, _calculateUserAccumulatedInterestSinceLastUpdate,
      if_neg hlast.ne', bind_eq_ok, checkedSub_eq_ok, checkedMul_eq_ok, checkedAdd_eq_ok,
      pure_eq_ok, Fits, Token.balance, growth]
    constructor
    · rintro ⟨-, ⟨-, ⟨-, rfl⟩, -, ⟨-, rfl⟩, -, rfl⟩, -, ⟨hfit, rfl⟩, rfl⟩
      exact ⟨hfit, rfl⟩
    · rintro ⟨hfit, rfl⟩
      -- the principal is at least one, so the factors are no larger than the product
      have hgrowth : PRECISION_FACTOR + s.s_userInterestRates u
          * (s.timestamp - s.s_userLastUpdatedTimestamp u) < uint256Size :=
        lt_of_le_of_lt (Nat.le_mul_of_pos_left _ (Nat.pos_of_ne_zero hp)) hfit
      exact ⟨_, ⟨_, ⟨hle, rfl⟩, _, ⟨by omega, rfl⟩, hgrowth, rfl⟩, _, ⟨hfit, rfl⟩, rfl⟩

/-! ## Minting interest -/

namespace Token

/-- The interest of the account can be minted. -/
structure CanAccrue (s : Token) (u : Address) : Prop where
  ne_zero : u ≠ 0
  fits : s.Fits u
  room : s.ledger.totalSupply + s.interest u < uint256Size

/-- The state after minting the interest of an account. -/
def accrue (s : Token) (u : Address) : Token :=
  (s.setLastUpdated u s.timestamp).setLedger (s.ledger.mint u (s.interest u))

theorem settled_accrue : (s.accrue u).Settled u := by
  simp [Settled, accrue, setLastUpdated, setLedger]

theorem Settled.accrue (h : s.Settled v) : (s.accrue u).Settled v := by
  rcases eq_or_ne v u with rfl | hv
  · exact settled_accrue
  · simpa [Settled, Token.accrue, setLastUpdated, setLedger, Function.update_of_ne hv] using h

theorem growth_accrue_of_ne (hv : v ≠ u) : (s.accrue u).growth v = s.growth v := by
  simp [growth, accrue, setLastUpdated, setLedger, Function.update_of_ne hv]

/-- Interest becomes principal for its account only. -/
theorem CanAccrue.principal (h : s.CanAccrue u) (v : Address) :
    (s.accrue u).ledger.balance v = s.ledger.balance v + if v = u then s.interest u else 0 :=
  Ledger.balance_mint h.room v

/-- **Minting interest changes no balance.** -/
theorem balance_accrue (h : s.CanAccrue u) (v : Address) :
    (s.accrue u).balance v = s.balance v := by
  rcases eq_or_ne v u with rfl | hv
  · rw [settled_accrue.balance, h.principal, if_pos rfl, principal_add_interest]
  · refine balance_congr ?_ (growth_accrue_of_ne hv)
    rw [h.principal, if_neg hv, Nat.add_zero]

/-- Minting interest makes no account unreadable. -/
theorem fits_accrue (h : s.CanAccrue u) (hv : s.Fits v) : (s.accrue u).Fits v := by
  rcases eq_or_ne v u with rfl | hne
  · rw [settled_accrue.fits_iff, balance_accrue h]
    exact hv.balance_mul_lt
  · rw [Fits, h.principal, if_neg hne, Nat.add_zero, growth_accrue_of_ne hne]
    exact hv

theorem wellFormed_accrue (hs : s.WellFormed) (h : s.CanAccrue u) : (s.accrue u).WellFormed := by
  have hupdated : ∀ v, (s.accrue u).s_userLastUpdatedTimestamp v
      = if v = u then s.timestamp else s.s_userLastUpdatedTimestamp v := fun v => by
    simp [accrue, setLastUpdated, setLedger, Function.update_apply]
  refine ⟨hs.timestamp_pos, fun v hv => ?_, fun v => ?_⟩
  · rw [hupdated]
    split
    · exact hs.timestamp_pos
    · next hne =>
      rw [h.principal, if_neg hne, Nat.add_zero] at hv
      exact hs.updated_pos v hv
  · rw [hupdated]
    split
    · exact le_rfl
    · exact hs.updated_le v

/-- Writing the ledger keeps the form if only settled accounts gain. -/
theorem WellFormed.setLedger (hs : s.WellFormed)
    (h : ∀ u, s.Settled u ∨ L.balance u ≤ s.ledger.balance u) : (s.setLedger L).WellFormed := by
  refine ⟨hs.timestamp_pos, fun u hu => ?_, hs.updated_le⟩
  change L.balance u ≠ 0 at hu
  change 0 < s.s_userLastUpdatedTimestamp u
  rcases h u with hset | hle
  · rw [hset]
    exact hs.timestamp_pos
  · exact hs.updated_pos u (by omega)

theorem WellFormed.setRate (hs : s.WellFormed) : (s.setRate u r).WellFormed :=
  ⟨hs.timestamp_pos, hs.updated_pos, hs.updated_le⟩

end Token

open Token in
/-- Interest can be minted when there is an account, a balance that fits, and room in the supply. -/
theorem RebaseToken.mintAccruedInterest_eq_ok (hs : s.WellFormed) :
    _mintAccruedInterest B u s = .ok s' ↔ s.CanAccrue u ∧ s' = s.accrue u := by
  simp only [_mintAccruedInterest, bind_eq_ok, balanceOf_eq_ok hs, checkedSub_eq_ok, ofCallee_eq_ok,
    B.mint_eq_some, pure_eq_ok]
  constructor
  · rintro ⟨-, ⟨hfit, rfl⟩, -, ⟨-, rfl⟩, -, ⟨hne, hroom, rfl⟩, rfl⟩
    exact ⟨⟨hne, hfit, hroom⟩, rfl⟩
  · rintro ⟨⟨hne, hfit, hroom⟩, rfl⟩
    exact ⟨_, ⟨hfit, rfl⟩, _, ⟨s.principal_le_balance u, rfl⟩, _, ⟨hne, hroom, rfl⟩, rfl⟩

/-! ## Moving principal between settled accounts -/

namespace Token

/-- The state `s'` is well formed, at the time of `s`, and its balances are `f`. -/
structure Becomes (s s' : Token) (f : Address → ℕ) : Prop where
  wellFormed : s'.WellFormed
  timestamp : s'.timestamp = s.timestamp
  balance : ∀ u, s'.balance u = f u

theorem Becomes.congr {s₁ : Token} {f g : Address → ℕ} (h : s₁.Becomes s' f)
    (htime : s₁.timestamp = s.timestamp) (hfg : ∀ u, f u = g u) : s.Becomes s' g :=
  ⟨h.wellFormed, h.timestamp.trans htime, fun u => (h.balance u).trans (hfg u)⟩

/-- A ledger that changes the principals of settled accounts only. -/
theorem becomes_setLedger (hs : s.WellFormed)
    (h : ∀ u, s.Settled u ∨ L.balance u = s.ledger.balance u) :
    s.Becomes (s.setLedger L) fun u => s.interest u + L.balance u :=
  ⟨hs.setLedger fun u => (h u).imp_right Eq.le, rfl, fun u => balance_setLedger (h u)⟩

/-- What is minted for a settled account is on top of its balance. -/
theorem becomes_mint (hs : s.WellFormed) (hdst : s.Settled dst)
    (hroom : s.ledger.totalSupply + a < uint256Size) :
    s.Becomes (s.setLedger (s.ledger.mint dst a))
      fun u => s.balance u + if u = dst then a else 0 := by
  have hcase : ∀ u, s.Settled u ∨ (s.ledger.mint dst a).balance u = s.ledger.balance u := by
    intro u
    rcases eq_or_ne u dst with rfl | hu
    · exact Or.inl hdst
    · exact Or.inr (by rw [Ledger.balance_mint hroom, if_neg hu, Nat.add_zero])
  refine (becomes_setLedger hs hcase).congr rfl fun u => ?_
  rw [Ledger.balance_mint hroom, ← principal_add_interest]
  omega

/-- What is burned from a settled account comes off its balance. -/
theorem becomes_burn (hs : s.WellFormed) (hsrc : s.Settled src) (ha : a ≤ s.ledger.balance src) :
    s.Becomes (s.setLedger (s.ledger.burn src a))
      fun u => s.balance u - if u = src then a else 0 := by
  have hcase : ∀ u, s.Settled u ∨ (s.ledger.burn src a).balance u = s.ledger.balance u := by
    intro u
    rcases eq_or_ne u src with rfl | hu
    · exact Or.inl hsrc
    · exact Or.inr (by rw [Ledger.balance_burn ha, if_neg hu, Nat.sub_zero])
  refine (becomes_setLedger hs hcase).congr rfl fun u => ?_
  rw [Ledger.balance_burn ha, ← principal_add_interest]
  rcases eq_or_ne u src with rfl | hu
  · rw [if_pos rfl]
    omega
  · rw [if_neg hu]
    omega

/-- The allowances of the ledger that is moved in do not matter. -/
theorem becomes_move (hs : s.WellFormed) (hsrc : s.Settled src) (hdst : s.Settled dst)
    (hL : L.balance = s.ledger.balance) (ha : a ≤ s.ledger.balance src) :
    s.Becomes (s.setLedger (L.move src dst a))
      fun u => s.balance u - (if u = src then a else 0) + if u = dst then a else 0 := by
  have hmove : ∀ u, (L.move src dst a).balance u
      = s.ledger.balance u - (if u = src then a else 0) + if u = dst then a else 0 := fun u => by
    rw [Ledger.balance_move (hL ▸ ha), hL]
  have hcase : ∀ u, s.Settled u ∨ (L.move src dst a).balance u = s.ledger.balance u := by
    intro u
    rcases eq_or_ne u src with rfl | hu
    · exact Or.inl hsrc
    · rcases eq_or_ne u dst with rfl | hu'
      · exact Or.inl hdst
      · exact Or.inr (by rw [hmove, if_neg hu, if_neg hu', Nat.sub_zero, Nat.add_zero])
  refine (becomes_setLedger hs hcase).congr rfl fun u => ?_
  rw [hmove, ← principal_add_interest]
  rcases eq_or_ne u src with rfl | hu
  · rw [if_pos rfl]
    omega
  · rw [if_neg hu]
    omega

/-- What an amount stands for: the largest word means the whole balance. -/
def amount (s : Token) (src : Address) (a : ℕ) : ℕ :=
  if a = uint256Max then s.balance src else a

/-- The state in which `transfer` and `transferFrom` call the base contract. -/
def prepared (s : Token) (src dst : Address) : Token :=
  if s.balance dst = 0 then
    ((s.accrue src).accrue dst).setRate dst (s.s_userInterestRates src)
  else (s.accrue src).accrue dst

/-- The interest of both is minted, and the rate is written if the recipient has no tokens. -/
theorem prepared_cases {P : Token → Prop} {s : Token} {src dst : Address}
    (hrate : s.balance dst = 0 →
      P (((s.accrue src).accrue dst).setRate dst (s.s_userInterestRates src)))
    (hsame : s.balance dst ≠ 0 → P ((s.accrue src).accrue dst)) : P (s.prepared src dst) := by
  by_cases hzero : s.balance dst = 0
  · rw [prepared, if_pos hzero]
    exact hrate hzero
  · rw [prepared, if_neg hzero]
    exact hsame hzero

/-- The interest of both parties can be minted. -/
structure CanPrepare (s : Token) (src dst : Address) : Prop where
  sender : s.CanAccrue src
  recipient : (s.accrue src).CanAccrue dst

namespace CanPrepare

variable (h : s.CanPrepare src dst)
include h

theorem balance_accrue (u : Address) :
    ((s.accrue src).accrue dst).balance u = s.balance u := by
  rw [Token.balance_accrue h.recipient, Token.balance_accrue h.sender]

/-- The preparation changes no balance. -/
theorem becomes (hs : s.WellFormed) : s.Becomes (s.prepared src dst) s.balance := by
  have hwf := wellFormed_accrue (wellFormed_accrue hs h.sender) h.recipient
  refine prepared_cases (P := fun t => s.Becomes t s.balance) (fun _ => ?_) fun _ => ?_
  · exact ⟨hwf.setRate, rfl, fun u => (balance_setRate settled_accrue u).trans (h.balance_accrue u)⟩
  · exact ⟨hwf, rfl, h.balance_accrue⟩

theorem fits (hu : s.Fits u) : (s.prepared src dst).Fits u := by
  have hboth : ((s.accrue src).accrue dst).Fits u :=
    fits_accrue h.recipient (fits_accrue h.sender hu)
  exact prepared_cases (P := fun t => t.Fits u) (fun _ => hboth.setRate settled_accrue)
    fun _ => hboth

omit h in
theorem settled : (s.prepared src dst).Settled src ∧ (s.prepared src dst).Settled dst := by
  have hboth : ((s.accrue src).accrue dst).Settled src ∧ ((s.accrue src).accrue dst).Settled dst :=
    ⟨settled_accrue.accrue, settled_accrue⟩
  exact prepared_cases (P := fun t => t.Settled src ∧ t.Settled dst) (fun _ => hboth) fun _ => hboth

omit h in
theorem allowance : (s.prepared src dst).ledger.allowance = s.ledger.allowance := by
  have hboth : ((s.accrue src).accrue dst).ledger.allowance = s.ledger.allowance := by
    simp [accrue, setLedger, setLastUpdated]
  exact prepared_cases (P := fun t => t.ledger.allowance = s.ledger.allowance) (fun _ => hboth)
    fun _ => hboth

/-- Before the base contract is called, the principal of the sender is its whole balance. -/
theorem principal (hs : s.WellFormed) :
    (s.prepared src dst).ledger.balance src = s.balance src := by
  rw [← settled.1.balance, (h.becomes hs).balance]

end CanPrepare

end Token

end Rebase

end UpdraftContracts

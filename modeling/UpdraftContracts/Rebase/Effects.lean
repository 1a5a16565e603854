import UpdraftContracts.Rebase.Accrual

/-!
# What the functions of the token do

One exact lemma for every function that touches balances: when it returns, and in which state. The
effect on the balances follows from the previous module, since each function first settles the
accounts it then changes.

## Main results

* `RebaseToken.mint_eq_ok`, `RebaseToken.burn_eq_ok`, `RebaseToken.transfer_eq_ok`,
  `RebaseToken.transferFrom_eq_ok` — when a call returns, and in which state
* `RebaseToken.mint_becomes`, `RebaseToken.burn_becomes`, `RebaseToken.transfer_becomes`,
  `RebaseToken.transferFrom_becomes` — the balances after a call that returned
* `TokenReachable.wellFormed` — accounts with a principal have a clock, in every reachable state
-/

namespace UpdraftContracts

open Evm

namespace Rebase

open RebaseToken Token

variable {B : OpenZeppelinErc20 Address} {s s' : Token} {u sender src dst : Address}
  {L : Ledger Address} {a v r : ℕ} {ok : Bool}

namespace RebaseToken

theorem onlyRole_eq_ok {role : Role} {x : Unit} :
    onlyRole role sender s = .ok x ↔ s.hasRole role sender = true := by
  simp [onlyRole]

/-- The largest amount stands for the whole balance. -/
theorem resolveAmount_eq_ok (hs : s.WellFormed) :
    resolveAmount u a s = .ok v ↔ (a = uint256Max → s.Fits u) ∧ v = s.amount u a := by
  by_cases ha : a = uint256Max
  · simp [resolveAmount, amount, ha, balanceOf_eq_ok hs]
  · simp [resolveAmount, amount, ha, pure_eq_ok]

/-! ## Minting and burning -/

/-- What a mint needs, and all that it does. -/
theorem mint_eq_ok (hs : s.WellFormed) :
    mint B sender dst a r s = .ok s' ↔
      s.hasRole .MINT_AND_BURN_ROLE sender = true ∧ s.CanAccrue dst ∧
        (s.accrue dst).ledger.totalSupply + a < uint256Size ∧
        s' = ((s.accrue dst).setRate dst r).setLedger ((s.accrue dst).ledger.mint dst a) := by
  simp only [mint, bind_eq_ok, onlyRole_eq_ok, mintAccruedInterest_eq_ok hs, ofCallee_eq_ok,
    B.mint_eq_some, pure_eq_ok]
  constructor
  · rintro ⟨-, hrole, -, ⟨hacc, rfl⟩, -, ⟨-, hroom, rfl⟩, rfl⟩
    exact ⟨hrole, hacc, hroom, rfl⟩
  · rintro ⟨hrole, hacc, hroom, rfl⟩
    exact ⟨(), hrole, _, ⟨hacc, rfl⟩, _, ⟨hacc.ne_zero, hroom, rfl⟩, rfl⟩

/-- What a burn needs, and all that it does. -/
theorem burn_eq_ok (hs : s.WellFormed) :
    burn B sender src a s = .ok s' ↔
      s.hasRole .MINT_AND_BURN_ROLE sender = true ∧ s.CanAccrue src ∧
        s.amount src a ≤ s.balance src ∧
        s' = (s.accrue src).setLedger ((s.accrue src).ledger.burn src (s.amount src a)) := by
  have hprincipal : s.CanAccrue src → (s.accrue src).ledger.balance src = s.balance src :=
    fun h => by rw [← settled_accrue.balance, balance_accrue h]
  simp only [burn, bind_eq_ok, onlyRole_eq_ok, resolveAmount_eq_ok hs, mintAccruedInterest_eq_ok hs,
    ofCallee_eq_ok, B.burn_eq_some, pure_eq_ok]
  constructor
  · rintro ⟨-, hrole, -, ⟨-, rfl⟩, -, ⟨hacc, rfl⟩, -, ⟨-, hle, rfl⟩, rfl⟩
    exact ⟨hrole, hacc, hprincipal hacc ▸ hle, rfl⟩
  · rintro ⟨hrole, hacc, hle, rfl⟩
    exact ⟨(), hrole, _, ⟨fun _ => hacc.fits, rfl⟩, _, ⟨hacc, rfl⟩, _,
      ⟨hacc.ne_zero, (hprincipal hacc).symm ▸ hle, rfl⟩, rfl⟩

/-- **Minting.** The new rate counts from now on only. -/
theorem mint_becomes (hs : s.WellFormed) (h : mint B sender dst a r s = .ok s') :
    s.Becomes s' fun u => s.balance u + if u = dst then a else 0 := by
  obtain ⟨-, hacc, hroom, rfl⟩ := (mint_eq_ok hs).mp h
  have hset : ((s.accrue dst).setRate dst r).Settled dst := settled_accrue (s := s)
  have hmint := becomes_mint (wellFormed_accrue hs hacc).setRate hset hroom
  refine hmint.congr rfl fun u => ?_
  rw [balance_setRate settled_accrue, balance_accrue hacc]

/-- **Burning.** -/
theorem burn_becomes (hs : s.WellFormed) (h : burn B sender src a s = .ok s') :
    s.amount src a ≤ s.balance src ∧
      s.Becomes s' fun u => s.balance u - if u = src then s.amount src a else 0 := by
  obtain ⟨-, hacc, hle, rfl⟩ := (burn_eq_ok hs).mp h
  have hle' : s.amount src a ≤ (s.accrue src).ledger.balance src := by
    rwa [← settled_accrue.balance, balance_accrue hacc]
  have hburn := becomes_burn (wellFormed_accrue hs hacc) settled_accrue hle'
  refine ⟨hle, hburn.congr rfl fun u => ?_⟩
  rw [balance_accrue hacc]

/-! ## Transfers -/

/-- What both transfers do first never fails for lack of tokens. -/
theorem beforeTransfer_eq_ok (hs : s.WellFormed) :
    beforeTransfer B src dst a s = .ok (v, s') ↔
      s.CanPrepare src dst ∧ v = s.amount src a ∧ s' = s.prepared src dst := by
  have hwf := fun h : s.CanAccrue src => wellFormed_accrue hs h
  have hwf' := fun h : s.CanPrepare src dst => wellFormed_accrue (hwf h.sender) h.recipient
  -- after both accounts are settled, balances read what they read before
  have hamount : s.CanPrepare src dst →
      ((s.accrue src).accrue dst).amount src a = s.amount src a := fun h => by
    rw [amount, h.balance_accrue, amount]
  have hrate : ((s.accrue src).accrue dst).s_userInterestRates src = s.s_userInterestRates src :=
    rfl
  simp only [beforeTransfer, bind_eq_ok, mintAccruedInterest_eq_ok hs, pure_eq_ok, Prod.mk.injEq]
  constructor
  · rintro ⟨-, ⟨hsrc, rfl⟩, s₂, hmint, v, hv, b, hb, rfl, rfl⟩
    obtain ⟨hdst, rfl⟩ := (mintAccruedInterest_eq_ok (hwf hsrc)).mp hmint
    have h : s.CanPrepare src dst := ⟨hsrc, hdst⟩
    obtain ⟨-, rfl⟩ := (resolveAmount_eq_ok (hwf' h)).mp hv
    obtain ⟨-, rfl⟩ := (balanceOf_eq_ok (hwf' h)).mp hb
    exact ⟨h, hamount h, by rw [h.balance_accrue, hrate, prepared]⟩
  · rintro ⟨h, rfl, rfl⟩
    have hfit := fun u hu => fits_accrue (v := u) h.recipient hu
    refine ⟨_, ⟨h.sender, rfl⟩,
      _, (mintAccruedInterest_eq_ok (hwf h.sender)).mpr ⟨h.recipient, rfl⟩,
      _, (resolveAmount_eq_ok (hwf' h)).mpr ⟨fun _ => hfit _ ?_, rfl⟩,
      _, (balanceOf_eq_ok (hwf' h)).mpr ⟨hfit _ h.recipient.fits, rfl⟩, (hamount h).symm, ?_⟩
    · exact fits_accrue h.sender h.sender.fits
    · rw [h.balance_accrue, hrate, prepared]

/-- A transfer that goes through is one of the base contract, on the prepared token. -/
theorem transfer_eq_ok (hs : s.WellFormed) :
    transfer B sender dst a s = .ok (ok, s') ↔
      s.CanPrepare sender dst ∧ ∃ L,
        B.transfer (s.prepared sender dst).ledger sender dst (s.amount sender a) = some (ok, L) ∧
        s' = (s.prepared sender dst).setLedger L := by
  simp only [transfer, bind_eq_ok, ofCallee_eq_ok, pure_eq_ok, Prod.mk.injEq, Prod.exists,
    beforeTransfer_eq_ok hs]
  constructor
  · rintro ⟨-, -, ⟨h, rfl, rfl⟩, ok, L, hcall, rfl, rfl⟩
    exact ⟨h, L, hcall, rfl⟩
  · rintro ⟨h, L, hcall, rfl⟩
    exact ⟨_, _, ⟨h, rfl, rfl⟩, ok, L, hcall, rfl, rfl⟩

/-- So is a transfer by somebody else. -/
theorem transferFrom_eq_ok (hs : s.WellFormed) :
    transferFrom B sender src dst a s = .ok (ok, s') ↔
      s.CanPrepare src dst ∧ ∃ L,
        B.transferFrom (s.prepared src dst).ledger sender src dst (s.amount src a) = some (ok, L) ∧
        s' = (s.prepared src dst).setLedger L := by
  simp only [transferFrom, bind_eq_ok, ofCallee_eq_ok, pure_eq_ok, Prod.mk.injEq, Prod.exists,
    beforeTransfer_eq_ok hs]
  constructor
  · rintro ⟨-, -, ⟨h, rfl, rfl⟩, ok, L, hcall, rfl, rfl⟩
    exact ⟨h, L, hcall, rfl⟩
  · rintro ⟨h, L, hcall, rfl⟩
    exact ⟨_, _, ⟨h, rfl, rfl⟩, ok, L, hcall, rfl, rfl⟩

/-- Moving coins in the prepared state, whatever happens to allowances on the way. -/
theorem becomes_prepared (hs : s.WellFormed) (h : s.CanPrepare src dst)
    (hL : L.balance = (s.prepared src dst).ledger.balance) (hle : v ≤ s.balance src) :
    s.Becomes ((s.prepared src dst).setLedger (L.move src dst v))
      fun u => s.balance u - (if u = src then v else 0) + if u = dst then v else 0 := by
  have hprep := h.becomes hs
  have hmove := becomes_move hprep.wellFormed CanPrepare.settled.1 CanPrepare.settled.2 hL
    ((h.principal hs).symm ▸ hle)
  refine hmove.congr hprep.timestamp fun u => ?_
  rw [hprep.balance]

/-- What a transfer that returns has done: it settled both accounts and moved the coins. -/
theorem transfer_cases (hs : s.WellFormed) (h : transfer B sender dst a s = .ok (ok, s')) :
    ok = true ∧ s.CanPrepare sender dst ∧ s.amount sender a ≤ s.balance sender ∧
      s' = (s.prepared sender dst).setLedger
        ((s.prepared sender dst).ledger.move sender dst (s.amount sender a)) := by
  obtain ⟨hprep, L, hcall, rfl⟩ := (transfer_eq_ok hs).mp h
  obtain rfl := B.transfer_returns hcall
  obtain ⟨hle, rfl⟩ := B.standard.transfer_true hcall
  rw [hprep.principal hs] at hle
  exact ⟨rfl, hprep, hle, rfl⟩

/-- On behalf of another account it may have written an allowance before. -/
theorem transferFrom_cases (hs : s.WellFormed)
    (h : transferFrom B sender src dst a s = .ok (ok, s')) :
    ok = true ∧ s.CanPrepare src dst ∧ s.amount src a ≤ s.balance src ∧
      ∃ k, s' = (s.prepared src dst).setLedger
        (((s.prepared src dst).ledger.approve src sender k).move src dst (s.amount src a)) := by
  obtain ⟨hprep, L, hcall, rfl⟩ := (transferFrom_eq_ok hs).mp h
  obtain rfl := B.transferFrom_returns hcall
  obtain ⟨hle, -, k, -, rfl⟩ := B.standard.transferFrom_true hcall
  rw [hprep.principal hs] at hle
  exact ⟨rfl, hprep, hle, k, rfl⟩

/-- **Transferring.** The recipient's new rate counts from now on only. -/
theorem transfer_becomes (hs : s.WellFormed) (h : transfer B sender dst a s = .ok (ok, s')) :
    s.amount sender a ≤ s.balance sender ∧
      s.Becomes s' fun u => s.balance u - (if u = sender then s.amount sender a else 0)
        + if u = dst then s.amount sender a else 0 := by
  obtain ⟨-, hprep, hle, rfl⟩ := transfer_cases hs h
  exact ⟨hle, becomes_prepared hs hprep rfl hle⟩

/-- **Transferring on behalf of another account.** -/
theorem transferFrom_becomes (hs : s.WellFormed)
    (h : transferFrom B sender src dst a s = .ok (ok, s')) :
    s.amount src a ≤ s.balance src ∧
      s.Becomes s' fun u => s.balance u - (if u = src then s.amount src a else 0)
        + if u = dst then s.amount src a else 0 := by
  obtain ⟨-, hprep, hle, k, rfl⟩ := transferFrom_cases hs h
  exact ⟨hle, becomes_prepared hs hprep Ledger.balance_approve hle⟩

/-! ## Functions that leave balances alone -/

/-- A call that writes neither principals nor rates nor clocks leaves every balance as it was. -/
theorem becomes_of_eq (hs : s.WellFormed) (htime : s'.timestamp = s.timestamp)
    (hledger : s'.ledger.balance = s.ledger.balance)
    (hrate : s'.s_userInterestRates = s.s_userInterestRates)
    (hlast : s'.s_userLastUpdatedTimestamp = s.s_userLastUpdatedTimestamp) :
    s.Becomes s' s.balance := by
  refine ⟨⟨htime ▸ hs.timestamp_pos, ?_, ?_⟩, htime, fun u => ?_⟩
  · rw [hledger, hlast]
    exact hs.updated_pos
  · rw [hlast, htime]
    exact hs.updated_le
  · exact balance_congr (by rw [hledger]) (by rw [growth, hrate, hlast, htime, growth])

theorem approve_cases {spender : Address} (h : approve B sender spender a s = .ok (ok, s')) :
    ∃ L : Ledger Address, s' = s.setLedger L ∧
      (L = s.ledger ∨ L = s.ledger.approve sender spender a) := by
  simp only [approve, bind_eq_ok, ofCallee_eq_ok, pure_eq_ok, Prod.exists, Prod.mk.injEq] at h
  obtain ⟨_, L, hcall, -, rfl⟩ := h
  exact ⟨L, rfl, B.standard.approve_some hcall⟩

/-- An approval changes no balance. -/
theorem approve_becomes {spender : Address} (hs : s.WellFormed)
    (h : approve B sender spender a s = .ok (ok, s')) : s.Becomes s' s.balance := by
  obtain ⟨L, rfl, hL⟩ := approve_cases h
  refine becomes_of_eq hs rfl ?_ rfl rfl
  rcases hL with rfl | rfl <;> rfl

end RebaseToken

/-! ## Runs -/

theorem exec_snd_eq_ok {x : Exec Error (Bool × Token)} :
    (do return (← x).2 : Exec Error Token) = .ok s' ↔ ∃ p, x = .ok p ∧ s' = p.2 := by
  simp only [bind_eq_ok, pure_eq_ok]

/-- The calls about rates to come, roles and ownership. -/
def TokenCall.administrative : TokenCall → Bool
  | setInterestRate _ | grantMintAndBurnRole _ | transferOwnership _ | renounceOwnership
  | grantRole _ _ | revokeRole _ _ | renounceRole _ _ => true
  | _ => false

/-- What administration can do: lower the global rate, hand over the token, give the role, or, for
an administrator of the roles or the holder of one, change roles. -/
theorem TokenCall.administrative_cases {c : TokenCall} (hc : c.administrative = true)
    (h : c.exec B sender s = .ok s') :
    (∃ r < s.s_interestRate, s' = { s with s_interestRate := r }) ∨
      (∃ newOwner, s' = { s with owner := newOwner }) ∨
      (∃ account, c = .grantMintAndBurnRole account ∧
        s' = s.setRole .MINT_AND_BURN_ROLE account true) ∨
      (∃ role account granted, s.hasRole .DEFAULT_ADMIN_ROLE sender = true ∧
        s' = s.setRole role account granted) ∨
      ∃ role account, s' = s.setRole role account false := by
  cases c with
  | mint | burn | transfer | transferFrom | approve => exact absurd hc Bool.false_ne_true
  | setInterestRate r =>
    simp only [exec, RebaseToken.setInterestRate, bind_eq_ok, revertIf_eq_ok, pure_eq_ok] at h
    obtain ⟨-, -, -, hlt, rfl⟩ := h
    exact .inl ⟨r, Nat.lt_of_not_ge hlt, rfl⟩
  | grantMintAndBurnRole account =>
    simp only [exec, RebaseToken.grantMintAndBurnRole, bind_eq_ok, pure_eq_ok] at h
    obtain ⟨-, -, rfl⟩ := h
    exact .inr (.inr (.inl ⟨account, rfl, rfl⟩))
  | transferOwnership newOwner =>
    simp only [exec, RebaseToken.transferOwnership, bind_eq_ok, pure_eq_ok] at h
    obtain ⟨-, -, -, -, rfl⟩ := h
    exact .inr (.inl ⟨newOwner, rfl⟩)
  | renounceOwnership =>
    simp only [exec, RebaseToken.renounceOwnership, bind_eq_ok, pure_eq_ok] at h
    obtain ⟨-, -, rfl⟩ := h
    exact .inr (.inl ⟨0, rfl⟩)
  | grantRole role account =>
    simp only [exec, RebaseToken.grantRole, bind_eq_ok, onlyRole_eq_ok, pure_eq_ok] at h
    obtain ⟨-, hadmin, rfl⟩ := h
    exact .inr (.inr (.inr (.inl ⟨role, account, true, hadmin, rfl⟩)))
  | revokeRole role account =>
    simp only [exec, RebaseToken.revokeRole, bind_eq_ok, onlyRole_eq_ok, pure_eq_ok] at h
    obtain ⟨-, hadmin, rfl⟩ := h
    exact .inr (.inr (.inr (.inl ⟨role, account, false, hadmin, rfl⟩)))
  | renounceRole role account =>
    simp only [exec, RebaseToken.renounceRole, bind_eq_ok, pure_eq_ok] at h
    obtain ⟨-, -, rfl⟩ := h
    exact .inr (.inr (.inr (.inr ⟨role, account, rfl⟩)))

/-- Administration touches no account. -/
theorem TokenCall.exec_administrative {c : TokenCall} (hc : c.administrative = true)
    (h : c.exec B sender s = .ok s') :
    s'.timestamp = s.timestamp ∧ s'.ledger = s.ledger ∧
      s'.s_userInterestRates = s.s_userInterestRates ∧
      s'.s_userLastUpdatedTimestamp = s.s_userLastUpdatedTimestamp := by
  obtain ⟨r, -, rfl⟩ | ⟨_, rfl⟩ | ⟨_, -, rfl⟩ | ⟨_, _, _, -, rfl⟩ | ⟨_, _, rfl⟩ :=
    administrative_cases hc h
  all_goals exact ⟨rfl, rfl, rfl, rfl⟩

/-- Administration changes no balance. -/
theorem TokenCall.becomes_of_administrative {c : TokenCall} (hc : c.administrative = true)
    (hs : s.WellFormed) (h : c.exec B sender s = .ok s') : s.Becomes s' s.balance := by
  obtain ⟨htime, hledger, hrate, hlast⟩ := exec_administrative hc h
  exact becomes_of_eq hs htime (by rw [hledger]) hrate hlast

/-- No call of the token breaks the form of its state. -/
theorem TokenCall.wellFormed_exec (hs : s.WellFormed) (c : TokenCall)
    (h : c.exec B sender s = .ok s') : s'.WellFormed := by
  by_cases hc : c.administrative = true
  · exact (becomes_of_administrative hc hs h).wellFormed
  · cases c with
    | mint dst a r => exact (mint_becomes hs h).wellFormed
    | burn src a => exact (burn_becomes hs h).2.wellFormed
    | transfer dst a =>
      obtain ⟨⟨ok, _⟩, h, rfl⟩ := exec_snd_eq_ok.mp h
      exact (transfer_becomes hs h).2.wellFormed
    | transferFrom src dst a =>
      obtain ⟨⟨ok, _⟩, h, rfl⟩ := exec_snd_eq_ok.mp h
      exact (transferFrom_becomes hs h).2.wellFormed
    | approve spender value =>
      obtain ⟨⟨ok, _⟩, h, rfl⟩ := exec_snd_eq_ok.mp h
      exact (approve_becomes hs h).wellFormed
    | _ => exact absurd rfl hc

theorem wellFormed_elapse (hs : s.WellFormed) (seconds : ℕ) : (s.elapse seconds).WellFormed :=
  ⟨Nat.add_pos_left hs.timestamp_pos _, hs.updated_pos,
    fun u => (hs.updated_le u).trans (Nat.le_add_right _ _)⟩

theorem wellFormed_constructor {deployer : Address} {timestamp : ℕ} (h : 0 < timestamp) :
    (RebaseToken.constructor deployer timestamp).WellFormed :=
  ⟨h, fun _ hu => absurd rfl hu, fun _ => Nat.zero_le _⟩

/-- **The form of reachable states.** -/
theorem TokenReachable.wellFormed (h : TokenReachable B s) : s.WellFormed := by
  obtain ⟨deployer, timestamp, as, hpos, rfl⟩ := h
  have hstep : ∀ s a, True → s.WellFormed → (TokenAction.step B s a).WellFormed := by
    intro s a _ hs
    cases a with
    | call sender c => exact settle_induction hs fun s' h => c.wellFormed_exec hs h
    | elapse seconds => exact wellFormed_elapse hs seconds
  exact run_invariant hstep (along_of_forall fun _ _ => trivial) (wellFormed_constructor hpos)

end Rebase

end UpdraftContracts

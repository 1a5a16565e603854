import UpdraftContracts.Rebase.Solvency
import UpdraftContracts.Rebase.Yield

/-!
# What a depositor can rely on

A user has tokens, allows nobody to move them, and does nothing. Others go on: they deposit, redeem,
send tokens around, and may be called back by the vault while they do. Some of that reaches the
user. Tokens can be sent to them, and anybody can make a transfer of nothing from their account.
Both mint the interest so far and start their clock again, and the rounding of `balanceOf` then
happens once more.

Nothing else reaches them. So their rate stays, and their balance grows at least as fast as it would
have by itself, up to a wei for each of those calls. When they come back, one call redeems all of
it, if the vault has the ETH.

## Main results

* `TokenCall.leaves_exec` — what calls of others do to an account
* `TokenCall.role_exec` — nobody takes the role from the vault
* `savings_grow` — the balance of a user who does nothing, at all points of every run
-/

namespace UpdraftContracts

open Evm

namespace Rebase

open RebaseToken Token

variable {B : OpenZeppelinErc20 Address} {s s' : Token} {u vault sender src dst : Address}
  {a r p t₀ j : ℕ} {ok : Bool} {c : TokenCall}

/-! ## One call -/

/-- A call by somebody else: the account keeps its rate, and nobody gets an allowance. Its entries
stay as they are, unless its interest was minted on the way, and then it may also have got more. -/
structure Token.Leaves (s : Token) (u : Address) (touched : Bool) (s' : Token) : Prop where
  rate : s'.s_userInterestRates u = s.s_userInterestRates u
  closed : ∀ x, s'.ledger.allowance u x = 0
  entries : (s'.ledger.balance u = s.ledger.balance u ∧
      s'.s_userLastUpdatedTimestamp u = s.s_userLastUpdatedTimestamp u) ∨
    touched = true ∧ s.balance u ≤ s'.ledger.balance u ∧
      s'.s_userLastUpdatedTimestamp u = s.timestamp

namespace RebaseToken

/-- A mint for another account leaves this one alone. -/
theorem mint_leaves (hs : s.WellFormed) (hclosed : ∀ x, s.ledger.allowance u x = 0)
    (hu : u ≠ dst) (h : mint B sender dst a r s = .ok s') : s.Leaves u false s' := by
  obtain ⟨-, hacc, hroom, rfl⟩ := (mint_eq_ok hs).mp h
  refine ⟨Function.update_of_ne hu .., fun x => ?_, .inl ⟨?_, Function.update_of_ne hu ..⟩⟩
  · simpa [setLedger, setRate, accrue, setLastUpdated] using hclosed x
  · change ((s.accrue dst).ledger.mint dst a).balance u = _
    rw [Ledger.balance_mint hroom, if_neg hu, hacc.principal, if_neg hu]
    rfl

theorem burn_leaves (hs : s.WellFormed) (hclosed : ∀ x, s.ledger.allowance u x = 0)
    (hu : u ≠ src) (h : burn B sender src a s = .ok s') : s.Leaves u false s' := by
  obtain ⟨-, hacc, hle, rfl⟩ := (burn_eq_ok hs).mp h
  have hprincipal : s.amount src a ≤ (s.accrue src).ledger.balance src := by
    rwa [← settled_accrue.balance, balance_accrue hacc]
  refine ⟨rfl, fun x => ?_, .inl ⟨?_, Function.update_of_ne hu ..⟩⟩
  · simpa [setLedger, accrue, setLastUpdated] using hclosed x
  · change ((s.accrue src).ledger.burn src (s.amount src a)).balance u = _
    rw [Ledger.balance_burn hprincipal, if_neg hu, hacc.principal, if_neg hu]
    rfl

theorem approve_leaves {spender : Address} (hclosed : ∀ x, s.ledger.allowance u x = 0)
    (hu : u ≠ sender) (h : approve B sender spender a s = .ok (ok, s')) :
    s.Leaves u false s' := by
  obtain ⟨L, rfl, hL⟩ := approve_cases h
  refine ⟨rfl, fun x => ?_, .inl ⟨?_, rfl⟩⟩
  · rcases hL with rfl | rfl
    · exact hclosed x
    · exact (Ledger.allowance_approve_of_ne hu).trans (hclosed x)
  · rcases hL with rfl | rfl <;> rfl

/-- The parties of a transfer are settled. Only a recipient without tokens gets another rate. -/
theorem leaves_prepared {L : Ledger Address} {extra : ℕ} (hs : s.WellFormed)
    (hprep : s.CanPrepare src dst) (hbal : s.balance u ≠ 0) (hclosed : ∀ x, L.allowance u x = 0)
    (hL : L.balance u = (s.prepared src dst).ledger.balance u + extra)
    (hextra : u ≠ dst → extra = 0) :
    s.Leaves u (decide (src = u ∨ dst = u)) ((s.prepared src dst).setLedger L) := by
  have hbec := hprep.becomes hs
  refine ⟨?_, hclosed, ?_⟩
  · change (s.prepared src dst).s_userInterestRates u = _
    refine prepared_cases (P := fun t => t.s_userInterestRates u = s.s_userInterestRates u)
      (fun hzero => ?_) fun _ => rfl
    have hne : u ≠ dst := fun heq => hbal (heq ▸ hzero)
    exact Function.update_of_ne hne ..
  · by_cases hparty : src = u ∨ dst = u
    · have hsettled : (s.prepared src dst).Settled u := by
        rcases hparty with rfl | rfl
        · exact CanPrepare.settled.1
        · exact CanPrepare.settled.2
      refine .inr ⟨decide_eq_true hparty, ?_, ?_⟩
      · change s.balance u ≤ L.balance u
        rw [hL, ← hsettled.balance, hbec.balance]
        exact Nat.le_add_right _ _
      · exact Eq.trans hsettled hbec.timestamp
    · obtain ⟨hsrc, hdst⟩ := not_or.mp hparty
      obtain ⟨hprincipal, hlast⟩ := hprep.of_ne (Ne.symm hsrc) (Ne.symm hdst)
      refine .inl ⟨?_, hlast⟩
      change L.balance u = _
      rw [hL, hextra (Ne.symm hdst), hprincipal, Nat.add_zero]

/-- A transfer of another account may touch this one, and takes nothing from it. -/
theorem transfer_leaves (hs : s.WellFormed) (hclosed : ∀ x, s.ledger.allowance u x = 0)
    (hbal : s.balance u ≠ 0) (hu : sender ≠ u) (h : transfer B sender dst a s = .ok (ok, s')) :
    s.Leaves u (decide (sender = u ∨ dst = u)) s' := by
  obtain ⟨hprep, L, hL, rfl⟩ := (transfer_eq_ok hs).mp h
  obtain ⟨hclosed', -, hadd⟩ := B.standard.toExact.transfer_closed
    (fun x => CanPrepare.allowance (s := s) ▸ hclosed x) hu hL
  exact leaves_prepared hs hprep hbal hclosed' hadd fun hne => if_neg fun hc => hne hc.2.symm

/-- Without an allowance nobody moves more than nothing. -/
theorem transferFrom_leaves (hs : s.WellFormed) (hclosed : ∀ x, s.ledger.allowance u x = 0)
    (hbal : s.balance u ≠ 0) (hu : sender ≠ u)
    (h : transferFrom B sender src dst a s = .ok (ok, s')) :
    s.Leaves u (decide (src = u ∨ dst = u)) s' := by
  obtain ⟨hprep, L, hL, rfl⟩ := (transferFrom_eq_ok hs).mp h
  obtain ⟨hclosed', -, hadd⟩ := B.standard.toExact.transferFrom_closed
    (fun x => CanPrepare.allowance (s := s) ▸ hclosed x) hu hL
  exact leaves_prepared hs hprep hbal hclosed' hadd fun hne => if_neg fun hc => hne hc.2.symm

end RebaseToken

/-- The calls that others can make to mint the interest of the account. -/
def TokenCall.touches (u sender : Address) : TokenCall → Bool
  | transfer dst _ => decide (sender = u ∨ dst = u)
  | transferFrom src dst _ => decide (src = u ∨ dst = u)
  | _ => false

/-- **One call of the token.** -/
theorem TokenCall.leaves_exec (hs : s.WellFormed) (hclosed : ∀ x, s.ledger.allowance u x = 0)
    (hbal : s.balance u ≠ 0) (hu : sender ≠ u) (hc : c.ordinary = true)
    (h : c.exec B sender s = .ok s') : s.Leaves u (c.touches u sender) s' := by
  by_cases hadmin : c.administrative = true
  · obtain ⟨-, hledger, hrate, hlast⟩ := exec_administrative hadmin h
    refine ⟨congrFun hrate u, fun x => ?_, .inl ⟨by rw [hledger], congrFun hlast u⟩⟩
    rw [hledger]
    exact hclosed x
  · cases c with
    | mint | burn => exact absurd hc Bool.false_ne_true
    | transfer dst a =>
      obtain ⟨⟨ok, _⟩, h, rfl⟩ := exec_snd_eq_ok.mp h
      exact transfer_leaves hs hclosed hbal hu h
    | transferFrom src dst a =>
      obtain ⟨⟨ok, _⟩, h, rfl⟩ := exec_snd_eq_ok.mp h
      exact transferFrom_leaves hs hclosed hbal hu h
    | approve spender value =>
      obtain ⟨⟨ok, _⟩, h, rfl⟩ := exec_snd_eq_ok.mp h
      exact approve_leaves hclosed hu.symm h
    | _ => exact absurd rfl hadmin

/-- Nobody takes the role from a holder. Only an administrator of the roles could, and there is
none, or the holder itself. -/
theorem TokenCall.role_exec (hs : s.WellFormed) {holder : Address → Prop}
    (hguard : s.Guarded holder) (hne : sender ≠ vault)
    (hrole : s.hasRole .MINT_AND_BURN_ROLE vault = true) (h : c.exec B sender s = .ok s') :
    s'.hasRole .MINT_AND_BURN_ROLE vault = true := by
  have hnone : s.hasRole .DEFAULT_ADMIN_ROLE sender ≠ true := by
    rw [hguard.no_admin]
    exact Bool.false_ne_true
  by_cases hc : c.administrative = true
  swap
  · rw [(sameTerms_exec hs hc h).hasRole]
    exact hrole
  cases c with
  | mint | burn | transfer | transferFrom | approve => exact absurd hc Bool.false_ne_true
  | setInterestRate r =>
    simp only [exec, RebaseToken.setInterestRate, bind_eq_ok, revertIf_eq_ok, pure_eq_ok] at h
    obtain ⟨-, -, -, -, rfl⟩ := h
    exact hrole
  | grantMintAndBurnRole account =>
    simp only [exec, RebaseToken.grantMintAndBurnRole, bind_eq_ok, pure_eq_ok] at h
    obtain ⟨-, -, rfl⟩ := h
    rw [hasRole_setRole]
    split
    · rfl
    · exact hrole
  | transferOwnership newOwner =>
    simp only [exec, RebaseToken.transferOwnership, bind_eq_ok, pure_eq_ok] at h
    obtain ⟨-, -, -, -, rfl⟩ := h
    exact hrole
  | renounceOwnership =>
    simp only [exec, RebaseToken.renounceOwnership, bind_eq_ok, pure_eq_ok] at h
    obtain ⟨-, -, rfl⟩ := h
    exact hrole
  | grantRole role account =>
    simp only [exec, RebaseToken.grantRole, bind_eq_ok, onlyRole_eq_ok, pure_eq_ok] at h
    obtain ⟨-, hadmin, -⟩ := h
    exact absurd hadmin hnone
  | revokeRole role account =>
    simp only [exec, RebaseToken.revokeRole, bind_eq_ok, onlyRole_eq_ok, pure_eq_ok] at h
    obtain ⟨-, hadmin, -⟩ := h
    exact absurd hadmin hnone
  | renounceRole role account =>
    simp only [exec, RebaseToken.renounceRole, bind_eq_ok, revertIf_eq_ok, pure_eq_ok] at h
    obtain ⟨-, hself, rfl⟩ := h
    rw [hasRole_setRole, if_neg fun hc => hne ((not_not.mp hself).symm.trans hc.2.symm)]
    exact hrole

/-! ## Whole runs -/

/-- What a call by somebody else leaves to the account is still the growth of `p`, folded once more
if its interest was minted. -/
theorem Touched.leaves {touched : Bool} (h : Touched u p r t₀ j s) (hs' : s'.WellFormed)
    (hl : s.Leaves u touched s') : Touched u p r t₀ (j + touched.toNat) s' := by
  rcases hl.entries with ⟨hbal, hlast⟩ | ⟨rfl, hbal, hlast⟩
  · refine ⟨hs', hl.rate.trans h.rate, hlast ▸ h.started, ?_⟩
    rw [hbal, hlast]
    cases touched with
    | false => exact h.folded
    | true => exact h.folded.mono
  · refine ⟨hs', hl.rate.trans h.rate, ?_, ?_⟩
    · rw [hlast]
      exact h.started.trans (h.wellFormed.updated_le u)
    · rw [hlast, ← h.elapsed]
      exact (h.folded.fold (by decide) _).add (h.balance_eq ▸ hbal)

/-- An action of others, or time. -/
def VaultAction.NotBy (u : Address) : VaultAction → Prop
  | .vault sender _ => sender ≠ u
  | .token (.call sender _) => sender ≠ u
  | .token (.elapse _) => True

/-- Counts the calls that may mint the interest of the account. -/
def recordTouches (u : Address) (_ : VaultState) (act : VaultAction) (j : ℕ) : ℕ :=
  match act with
  | .token (.call sender c) => j + (c.touches u sender).toNat
  | _ => j

/-- The savings of an account that allows nobody to move them, in a vault that can still burn. -/
structure Saved (vault u : Address) (p r t₀ : ℕ) (v : VaultState) (j : ℕ) : Prop where
  touched : Touched u p r t₀ j v.token
  closed : ∀ x, v.token.ledger.allowance u x = 0
  guarded : v.token.Guarded fun account => account = vault
  role : v.token.hasRole .MINT_AND_BURN_ROLE vault = true

namespace Saved

variable {v : VaultState} (h : Saved vault u p r t₀ v j)
include h

/-- A call of the vault that changes the token by a mint or a burn for somebody else. -/
theorem of_leaves {v' : VaultState} (hwf : v'.token.WellFormed)
    (hl : v.token.Leaves u false v'.token) (hterms : v.token.SameTerms v'.token) :
    Saved vault u p r t₀ v' j :=
  ⟨h.touched.leaves hwf hl, hl.closed, h.guarded.of_sameTerms hterms, hterms.hasRole ▸ h.role⟩

/-- **One action of others.** -/
theorem step (hp : p ≠ 0) {act : VaultAction} {q : Progress VaultError VaultState}
    (hact : act.Admissible vault) (hu : act.NotBy u) (hq : act.start B vault v = .ok q) :
    q.Forall fun v' => Saved vault u p r t₀ v' (recordTouches u v act j) := by
  have hwf := h.touched.wellFormed
  cases act with
  | vault sender call =>
    cases VaultCall.outcome hq with
    | received => exact ⟨h.touched, h.closed, h.guarded, h.role⟩
    | deposited hmint =>
      exact h.of_leaves (mint_becomes hwf hmint).wellFormed
        (mint_leaves hwf h.closed (Ne.symm hu) hmint) (mint_sameTerms hwf hmint)
    | redeemed hresolve hburn hle =>
      exact Progress.forall_handsOver_error.mpr <|
        h.of_leaves (burn_becomes hwf hburn).2.wellFormed
          (burn_leaves hwf h.closed (Ne.symm hu) hburn) (burn_sameTerms hwf hburn)
  | token act =>
    obtain rfl := pure_eq_ok.mp hq
    cases act with
    | call sender c =>
      -- a call that reverts is counted as well
      have hsame : Saved vault u p r t₀ v (j + (c.touches u sender).toNat) :=
        ⟨h.touched.leaves hwf ⟨rfl, h.closed, .inl ⟨rfl, rfl⟩⟩, h.closed, h.guarded, h.role⟩
      refine settle_induction (P := fun t => Saved vault u p r t₀ { v with token := t }
        (j + (c.touches u sender).toNat)) hsame fun s' hexec => ?_
      have hord := TokenCall.ordinary_of_admissible hwf h.guarded hact hexec
      have hl := TokenCall.leaves_exec hwf h.closed (h.touched.balance_ne_zero hp) hu hord hexec
      exact ⟨h.touched.leaves (c.wellFormed_exec hwf hexec) hl, hl.closed,
        TokenCall.guarded_exec hwf h.guarded hact hexec,
        TokenCall.role_exec hwf h.guarded hact.1 h.role hexec⟩
    | elapse seconds =>
      exact ⟨⟨wellFormed_elapse hwf seconds, h.touched.rate, h.touched.started, h.touched.folded⟩,
        h.closed, ⟨h.guarded.holds, h.guarded.no_admin⟩, h.role⟩

/-- What the account has is simple interest but for one wei for each touch. -/
theorem balance_ge :
    grown PRECISION_FACTOR r (v.token.timestamp - t₀) p ≤ v.token.balance u + j := by
  rw [h.touched.balance_eq, ← h.touched.elapsed]
  exact h.touched.folded.grown_le (by decide) _

/-- The largest word redeems everything. -/
theorem redeem_all (hacc : v.token.CanAccrue u) (heth : v.token.balance u ≤ v.balance) :
    ∃ token, Vault.redeem B vault u uint256Max v
        = .ok (.handsOver { token := token, balance := v.balance - v.token.balance u }
          (.error (.custom .Vault_RedeemFailed))) ∧ token.balance u = 0 := by
  have hwf := h.touched.wellFormed
  have hall : v.token.amount u uint256Max = v.token.balance u := if_pos rfl
  have hresolve : resolveAmount u uint256Max v.token = .ok (v.token.balance u) :=
    (resolveAmount_eq_ok hwf).mpr ⟨fun _ => hacc.fits, hall.symm⟩
  have hamount := amount_resolved hwf hresolve
  have hburn := (burn_eq_ok (B := B) hwf).mpr ⟨h.role, hacc, hamount.le, rfl⟩
  refine ⟨_, Vault.redeem_eq_ok.mpr ⟨_, _, hresolve, hburn, heth, rfl⟩, ?_⟩
  rw [(burn_becomes hwf hburn).2.balance, if_pos rfl, hamount, Nat.sub_self]

end Saved

/-- In any admissible run the books balance, so the token is well formed and only the vault has the
role. -/
theorem preserves_balanced :
    Preserves (VaultAction.start B vault) (fun _ => VaultAction.Admissible vault)
      fun v => ∃ k, Balanced vault v k := by
  rintro v act q hact ⟨k, hk⟩ hq
  exact (hk.step hact hq).imp fun v' hv' => ⟨_, hv'⟩

/-- Every call of others, with whatever is nested in it, keeps the savings. -/
theorem preserves_saved (hp : p ≠ 0) :
    Preserves (recording (VaultAction.start B vault) (recordTouches u))
      (fun _ act => act.Admissible vault ∧ act.NotBy u)
      fun x => Saved vault u p r t₀ x.1 x.2 :=
  preserves_recording fun _ _ _ _ hact h hq => h.step hp hact.1 hact.2 hq

/-- **Savings grow.** After any run a user has a principal `p`, and nobody may move their tokens.
Whatever others do from then on, at all points, also while a redeemer has control, the user has
their rate and their principal, and the balance is at least what `p` alone has grown to, up to a wei
for each call that may have minted their interest. They can redeem all of it in one call, if the
interest can be minted and the vault has the ETH. -/
theorem savings_grow {deployer : Address} {timestamp : ℕ} (htime : 0 < timestamp)
    {before others : Calls VaultAction} {v : VaultState}
    (hbefore : before.Along (VaultAction.start B vault) (fun _ => VaultAction.Admissible vault)
      (VaultState.deployed deployer timestamp))
    (hv : v = before.exec (VaultAction.start B vault) (VaultState.deployed deployer timestamp))
    (hrole : v.token.hasRole .MINT_AND_BURN_ROLE vault = true)
    (hp : v.token.ledger.balance u ≠ 0) (hclosed : ∀ x, v.token.ledger.allowance u x = 0)
    (hothers : others.Along (recording (VaultAction.start B vault) (recordTouches u))
      (fun _ act => act.Admissible vault ∧ act.NotBy u) (v, 0)) :
    ∀ x ∈ others.points (recording (VaultAction.start B vault) (recordTouches u)) (v, 0),
      x.1.token.s_userInterestRates u = v.token.s_userInterestRates u ∧
      v.token.ledger.balance u ≤ x.1.token.ledger.balance u ∧
      grown PRECISION_FACTOR (v.token.s_userInterestRates u)
          (x.1.token.timestamp - v.token.s_userLastUpdatedTimestamp u) (v.token.ledger.balance u)
        ≤ x.1.token.balance u + x.2 ∧
      (x.1.token.CanAccrue u → x.1.token.balance u ≤ x.1.balance →
        ∃ token, Vault.redeem B vault u uint256Max x.1
            = .ok (.handsOver { token := token, balance := x.1.balance - x.1.token.balance u }
              (.error (.custom .Vault_RedeemFailed))) ∧
          token.balance u = 0) := by
  obtain ⟨k, hwf, hguard, -⟩ : ∃ k, Balanced vault v k := by
    rw [hv]
    exact preserves_balanced.exec before hbefore
      ⟨⟨0, 0⟩, wellFormed_constructor htime, guarded_constructor, rfl⟩
  have hstart : Saved vault u (v.token.ledger.balance u) (v.token.s_userInterestRates u)
      (v.token.s_userLastUpdatedTimestamp u) v 0 := by
    refine ⟨⟨hwf, rfl, le_rfl, ?_⟩, hclosed, hguard, hrole⟩
    rw [Nat.sub_self]
    exact .refl
  intro x hx
  have hsaved := (preserves_saved hp).points others hothers hstart x hx
  exact ⟨hsaved.touched.rate, hsaved.touched.folded.le, hsaved.balance_ge,
    fun hacc heth => hsaved.redeem_all hacc heth⟩

/-- Account 10 deposits a hundred wei. -/
def sampleDeposit : Calls VaultAction :=
  .ofList [.token (.call 1 (.grantMintAndBurnRole 2)), .vault 10 (.deposit 100)]

/-- The vault after the deposit. -/
def sampleSaver : VaultState :=
  sampleDeposit.exec (VaultAction.start openZeppelin 2) (VaultState.deployed 1 1)

/-- Account 12 makes a transfer of nothing from account 10. Later it redeems, and sends tokens to
account 10 while it has control. -/
def sampleOthers : Calls VaultAction :=
  .call (.vault 12 (.deposit 50)) .done true <|
  .call (.token (.elapse (10 ^ 6))) .done true <|
  .call (.token (.call 12 (.transferFrom 10 12 0))) .done true <|
  .call (.token (.elapse (10 ^ 6))) .done true <|
  .call (.vault 12 (.redeem 20)) (.call (.token (.call 12 (.transfer 10 5))) .done true .done)
    true .done

/-- A hundred wei have become 110 by then. Account 10 has five more, and can redeem all of it. -/
theorem savings_grow_sample :
    let x := sampleOthers.exec (recording (VaultAction.start openZeppelin 2) (recordTouches 10))
      (sampleSaver, 0)
    (x.1.balance = 130 ∧ x.2 = 2 ∧ x.1.token.balance 10 = 115) ∧
      grown PRECISION_FACTOR (5 * 10 ^ 10) (2 * 10 ^ 6) 100 = 110 ∧
      x.1.token.s_userInterestRates 10 = 5 * 10 ^ 10 ∧
      ∃ token, Vault.redeem openZeppelin 2 10 uint256Max x.1
          = .ok (.handsOver { token := token, balance := x.1.balance - x.1.token.balance 10 }
            (.error (.custom .Vault_RedeemFailed))) ∧
        token.balance 10 = 0 := by
  intro x
  have hgrant : VaultAction.Admissible 2 (.token (.call 1 (.grantMintAndBurnRole 2))) :=
    ⟨by decide, by rintro _ ⟨⟩; rfl⟩
  have htransferFrom : VaultAction.Admissible 2 (.token (.call 12 (.transferFrom 10 12 0))) :=
    ⟨by decide, by rintro _ ⟨⟩⟩
  have htransfer : VaultAction.Admissible 2 (.token (.call 12 (.transfer 10 5))) :=
    ⟨by decide, by rintro _ ⟨⟩⟩
  have hne : (12 : Address) ≠ 10 := by decide
  have hbefore : sampleDeposit.Along (VaultAction.start openZeppelin 2)
      (fun _ => VaultAction.Admissible 2) (VaultState.deployed 1 1) :=
    ⟨hgrant, fun _ _ => trivial, trivial, fun _ _ => trivial, trivial⟩
  have hothers : sampleOthers.Along (recording (VaultAction.start openZeppelin 2)
      (recordTouches 10)) (fun _ act => act.Admissible 2 ∧ act.NotBy 10) (sampleSaver, 0) := by
    refine ⟨⟨trivial, hne⟩, fun _ _ => trivial, ⟨trivial, trivial⟩, fun _ _ => trivial,
      ⟨htransferFrom, hne⟩, fun _ _ => trivial, ⟨trivial, trivial⟩, fun _ _ => trivial,
      ⟨trivial, hne⟩, fun _ _ => ?_, trivial⟩
    exact ⟨⟨htransfer, hne⟩, fun _ _ => trivial, trivial⟩
  have hnumbers : x.1.balance = 130 ∧ x.2 = 2 ∧ x.1.token.balance 10 = 115 := by decide
  have hfits : x.1.token.Fits 10 := by
    rw [Token.Fits]
    decide
  have hacc : x.1.token.CanAccrue 10 := ⟨by decide, hfits, by decide⟩
  obtain ⟨hrate, -, -, hredeem⟩ := savings_grow Nat.one_pos hbefore rfl (by decide) (by decide)
    (fun _ => rfl) hothers x (Calls.exec_mem_points _ _ _)
  exact ⟨hnumbers, by decide, hrate.trans (by decide), hredeem hacc (by decide)⟩

end Rebase

end UpdraftContracts

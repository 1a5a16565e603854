import UpdraftContracts.Rebase.Roles

/-!
# The books of the vault

Deposits bring in as much ETH as they mint tokens, redemptions pay out as much as they burn. What
makes the two sides differ is interest, which is minted without ETH, and ETH that comes outside of
deposits. With both on record the books balance, also while a redeemer has control: by then the
tokens are burned and the ETH is gone.

So the vault is short of ETH only to the extent that nobody has paid for the interest.

## Main results

* `mint_supply`, `burn_supply`, `TokenCall.supply_exec` — how calls change the supply
* `vault_accounting` — the books balance at every point of every run
-/

namespace UpdraftContracts

open Evm

namespace Rebase

open RebaseToken Token

variable {B : OpenZeppelinErc20 Address} {s s' : Token} {u vault sender src dst : Address}
  {a r : ℕ} {ok : Bool} {c : TokenCall}

/-! ## The interest that a call mints -/

/-- What `_mintAccruedInterest(user)` adds to the supply. -/
def RebaseToken.interestMinted (B : OpenZeppelinErc20 Address) (user : Address) (s : Token) : ℕ :=
  (settle s (_mintAccruedInterest B user s)).ledger.totalSupply - s.ledger.totalSupply

/-- What it adds for several accounts, one after another. -/
def RebaseToken.interestMintedFor (B : OpenZeppelinErc20 Address) : List Address → Token → ℕ
  | [], _ => 0
  | user :: users, s => interestMinted B user s
      + interestMintedFor B users (settle s (_mintAccruedInterest B user s))

/-- The accounts that a call passes to `_mintAccruedInterest`, in order. -/
def TokenCall.settles (sender : Address) : TokenCall → List Address
  | mint dst _ _ => [dst]
  | burn src _ => [src]
  | transfer recipient _ => [sender, recipient]
  | transferFrom src recipient _ => [src, recipient]
  | _ => []

/-- The interest that a call mints. One that reverts mints none. -/
def TokenCall.interestMinted (B : OpenZeppelinErc20 Address) (sender : Address) (c : TokenCall)
    (s : Token) : ℕ :=
  if Succeeds (c.exec B sender s) then interestMintedFor B (c.settles sender) s else 0

theorem RebaseToken.settle_mintAccruedInterest (hs : s.WellFormed) (h : s.CanAccrue u) :
    settle s (_mintAccruedInterest B u s) = s.accrue u := by
  rw [(mintAccruedInterest_eq_ok hs).mpr ⟨h, rfl⟩, settle_ok]

theorem Token.CanAccrue.supply (h : s.CanAccrue u) :
    (s.accrue u).ledger.totalSupply = s.ledger.totalSupply + s.interest u :=
  Ledger.totalSupply_mint h.room

theorem RebaseToken.interestMinted_eq (hs : s.WellFormed) (h : s.CanAccrue u) :
    interestMinted B u s = s.interest u := by
  rw [interestMinted, settle_mintAccruedInterest hs h, h.supply, Nat.add_sub_cancel_left]

/-! ## The supply -/

namespace RebaseToken

/-- A mint adds the interest and the amount to the supply. -/
theorem mint_supply (hs : s.WellFormed) (h : mint B sender dst a r s = .ok s') :
    s'.ledger.totalSupply = s.ledger.totalSupply + interestMinted B dst s + a := by
  obtain ⟨-, hacc, hroom, rfl⟩ := (mint_eq_ok hs).mp h
  rw [interestMinted_eq hs hacc, ← hacc.supply]
  exact Ledger.totalSupply_mint hroom

/-- A burn adds the interest before it takes the amount. -/
theorem burn_supply (hs : s.WellFormed) (h : burn B sender src a s = .ok s') :
    s'.ledger.totalSupply + s.amount src a = s.ledger.totalSupply + interestMinted B src s := by
  obtain ⟨-, hacc, hle, rfl⟩ := (burn_eq_ok hs).mp h
  have hprincipal : s.amount src a ≤ (s.accrue src).ledger.balance src := by
    rwa [← settled_accrue.balance, balance_accrue hacc]
  have hsupply := hprincipal.trans ((s.accrue src).ledger.balance_le src)
  rw [interestMinted_eq hs hacc, ← hacc.supply]
  change ((s.accrue src).ledger.burn src (s.amount src a)).totalSupply + _ = _
  rw [Ledger.totalSupply_burn hprincipal, Nat.sub_add_cancel hsupply]

/-- The second interest is minted after the first one. This matters if both are for the same
account. -/
theorem prepared_supply (hs : s.WellFormed) (h : s.CanPrepare src dst) :
    (s.prepared src dst).ledger.totalSupply
      = s.ledger.totalSupply + interestMintedFor B [src, dst] s := by
  have hboth : ((s.accrue src).accrue dst).ledger.totalSupply
      = s.ledger.totalSupply + interestMintedFor B [src, dst] s := by
    rw [interestMintedFor, interestMintedFor, interestMintedFor, interestMinted_eq hs h.sender,
      settle_mintAccruedInterest hs h.sender,
      interestMinted_eq (wellFormed_accrue hs h.sender) h.recipient, h.recipient.supply,
      h.sender.supply]
    omega
  exact prepared_cases (P := fun t => t.ledger.totalSupply
    = s.ledger.totalSupply + interestMintedFor B [src, dst] s) (fun _ => hboth) fun _ => hboth

theorem transfer_supply (hs : s.WellFormed) (h : transfer B sender dst a s = .ok (ok, s')) :
    s'.ledger.totalSupply = s.ledger.totalSupply + interestMintedFor B [sender, dst] s := by
  obtain ⟨-, hprep, -, rfl⟩ := transfer_cases hs h
  rw [← prepared_supply hs hprep]
  exact Ledger.totalSupply_move

theorem transferFrom_supply (hs : s.WellFormed)
    (h : transferFrom B sender src dst a s = .ok (ok, s')) :
    s'.ledger.totalSupply = s.ledger.totalSupply + interestMintedFor B [src, dst] s := by
  obtain ⟨-, hprep, -, k, rfl⟩ := transferFrom_cases hs h
  rw [← prepared_supply hs hprep]
  exact Ledger.totalSupply_move

end RebaseToken

/-- A call that neither mints nor burns adds the interest to the supply, and nothing else. -/
theorem TokenCall.supply_exec (hs : s.WellFormed) (hc : c.ordinary = true)
    (h : c.exec B sender s = .ok s') :
    s'.ledger.totalSupply = s.ledger.totalSupply + c.interestMinted B sender s := by
  rw [interestMinted, if_pos ⟨s', h⟩]
  by_cases hadmin : c.administrative = true
  · have hnone : c.settles sender = [] := by
      cases c with
      | mint | burn | transfer | transferFrom | approve => exact absurd hadmin Bool.false_ne_true
      | _ => rfl
    rw [hnone, (exec_administrative hadmin h).2.1]
    rfl
  · cases c with
    | mint | burn => exact absurd hc Bool.false_ne_true
    | transfer dst a =>
      obtain ⟨⟨ok, _⟩, h, rfl⟩ := exec_snd_eq_ok.mp h
      exact transfer_supply hs h
    | transferFrom src dst a =>
      obtain ⟨⟨ok, _⟩, h, rfl⟩ := exec_snd_eq_ok.mp h
      exact transferFrom_supply hs h
    | approve spender value =>
      obtain ⟨⟨ok, _⟩, h, rfl⟩ := exec_snd_eq_ok.mp h
      obtain ⟨L, rfl, rfl | rfl⟩ := approve_cases h
      · rfl
      · rfl
    | _ => exact absurd rfl hadmin

/-! ## Redemptions -/

/-- What the vault pays is what the token burns. The largest word is read twice, by the vault and by
the token, but no balance is that large. -/
theorem RebaseToken.amount_resolved (hs : s.WellFormed) {v : ℕ}
    (h : resolveAmount u a s = .ok v) : s.amount u v = v := by
  obtain ⟨hfits, rfl⟩ := (resolveAmount_eq_ok hs).mp h
  refine if_neg ?_
  rw [amount]
  split
  · next hmax => exact (hfits hmax).balance_lt.ne
  · next hmax => exact hmax

/-- `redeem` gives up before the payout only if the vault has less ETH than it would have to pay. -/
theorem Vault.redeem_eq_failed {amount : ℕ} {v : VaultState}
    (h : Vault.redeem B vault sender amount v = .error (.custom .Vault_RedeemFailed)) :
    ∃ a token, resolveAmount sender amount v.token = .ok a ∧
      burn B vault sender a v.token = .ok token ∧ v.balance < a := by
  cases hresolve : resolveAmount sender amount v.token with
  | error e =>
    rw [Vault.redeem, hresolve] at h
    exact absurd h (by simp [bubble, bind, Except.bind])
  | ok a =>
    cases hburn : burn B vault sender a v.token with
    | error e =>
      rw [Vault.redeem, hresolve] at h
      exact absurd h (by simp [bubble, bind, Except.bind, hburn])
    | ok token =>
      refine ⟨a, token, rfl, hburn, Nat.lt_of_not_le fun hle => ?_⟩
      have hok := Vault.redeem_eq_ok.mpr ⟨a, token, hresolve, hburn, hle, rfl⟩
      rw [hok] at h
      cases h

/-! ## The books -/

/-- What is on record besides tokens and ETH. -/
structure Books where
  /-- What `_mintAccruedInterest` has minted so far. -/
  interest : ℕ
  /-- The ETH that has come other than with a deposit. -/
  outside : ℕ
  deriving DecidableEq

/-- Write down what a call adds to the books. -/
def recordBooks (B : OpenZeppelinErc20 Address) (s : VaultState) (a : VaultAction) (k : Books) :
    Books :=
  match a with
  | .vault _ (.receive value) => { k with outside := k.outside + value }
  | .vault sender (.deposit _) =>
    { k with interest := k.interest + interestMinted B sender s.token }
  | .vault sender (.redeem _) =>
    { k with interest := k.interest + interestMinted B sender s.token }
  | .token (.call sender c) =>
    { k with interest := k.interest + c.interestMinted B sender s.token }
  | .token (.elapse _) => k

/-- The vault is the only holder of the role, and calls the token only from its own functions. -/
def VaultAction.Admissible (vault : Address) : VaultAction → Prop
  | .token (.call sender c) => c.Admissible (fun account => account = vault) sender
  | _ => True

/-- The books balance. -/
structure Balanced (vault : Address) (s : VaultState) (k : Books) : Prop where
  wellFormed : s.token.WellFormed
  guarded : s.token.Guarded fun account => account = vault
  equation : s.balance + k.interest = s.token.ledger.totalSupply + k.outside

namespace Balanced

variable {v : VaultState} {k : Books} (h : Balanced vault v k)
include h

/-- Every call keeps the books, at the point where control is handed over as well. -/
theorem step {act : VaultAction} {p : Progress VaultError VaultState} (hact : act.Admissible vault)
    (hp : act.start B vault v = .ok p) :
    p.Forall fun v' => Balanced vault v' (recordBooks B v act k) := by
  obtain ⟨hwf, hguard, hbooks⟩ := h
  cases act with
  | vault sender call =>
    cases VaultCall.outcome hp with
    | @received value =>
      refine ⟨hwf, hguard, ?_⟩
      change v.balance + value + k.interest = v.token.ledger.totalSupply + (k.outside + value)
      omega
    | @deposited value token hmint =>
      have hsupply := mint_supply hwf hmint
      refine ⟨(mint_becomes hwf hmint).wellFormed, hguard.of_sameTerms (mint_sameTerms hwf hmint),
        ?_⟩
      change v.balance + value + (k.interest + interestMinted B sender v.token)
        = token.ledger.totalSupply + k.outside
      omega
    | @redeemed amount a token hresolve hburn hle =>
      have hsupply := burn_supply hwf hburn
      rw [amount_resolved hwf hresolve] at hsupply
      refine Progress.forall_handsOver_error.mpr ⟨(burn_becomes hwf hburn).2.wellFormed,
        hguard.of_sameTerms (burn_sameTerms hwf hburn), ?_⟩
      change v.balance - a + (k.interest + interestMinted B sender v.token)
        = token.ledger.totalSupply + k.outside
      omega
  | token act =>
    obtain rfl := pure_eq_ok.mp hp
    cases act with
    | call sender c =>
      -- a call that reverts mints no interest
      by_cases hok : Succeeds (c.exec B sender v.token)
      · obtain ⟨s', hexec⟩ := hok
        have hsupply := TokenCall.supply_exec hwf
          (TokenCall.ordinary_of_admissible hwf hguard hact hexec) hexec
        have hstep : (TokenAction.call sender c).step B v.token = s' := by
          rw [TokenAction.step, hexec, settle_ok]
        rw [hstep]
        refine ⟨c.wellFormed_exec hwf hexec, TokenCall.guarded_exec hwf hguard hact hexec, ?_⟩
        change v.balance + (k.interest + c.interestMinted B sender v.token)
          = s'.ledger.totalSupply + k.outside
        omega
      · have hstep : (TokenAction.call sender c).step B v.token = v.token :=
          settle_of_not_succeeds hok
        have hnone : c.interestMinted B sender v.token = 0 := if_neg hok
        rw [hstep]
        refine ⟨hwf, hguard, ?_⟩
        change v.balance + (k.interest + c.interestMinted B sender v.token) = _
        rw [hnone]
        exact hbooks
    | elapse seconds =>
      exact ⟨wellFormed_elapse hwf seconds, ⟨hguard.holds, hguard.no_admin⟩, hbooks⟩

/-- A redemption that the vault cannot pay: there is unpaid interest, with that of the redeemer. -/
theorem unpaid_interest {amount : ℕ}
    (hfail : Vault.redeem B vault sender amount v = .error (.custom .Vault_RedeemFailed)) :
    k.outside < k.interest + interestMinted B sender v.token := by
  obtain ⟨a, token, hresolve, hburn, hlt⟩ := Vault.redeem_eq_failed hfail
  have hsupply := burn_supply h.wellFormed hburn
  rw [amount_resolved h.wellFormed hresolve] at hsupply
  have hbooks := h.equation
  omega

end Balanced

/-- A vault with a token that has just been deployed. -/
def VaultState.deployed (deployer : Address) (timestamp : ℕ) : VaultState where
  token := RebaseToken.constructor deployer timestamp
  balance := 0

/-- **Vault accounting.** At every point of every run, between calls and whenever a redeemer has
control, the ETH of the vault and the interest minted so far are together the supply and the ETH
that came outside of deposits. A redemption fails for lack of ETH only if that ETH is less than the
interest minted so far and that of the redeemer in this call. -/
theorem vault_accounting {deployer : Address} {timestamp : ℕ} (htime : 0 < timestamp)
    {calls : Calls VaultAction}
    (hcalls : calls.Along (recording (VaultAction.start B vault) (recordBooks B))
      (fun _ => VaultAction.Admissible vault) (VaultState.deployed deployer timestamp, ⟨0, 0⟩)) :
    ∀ x ∈ calls.points (recording (VaultAction.start B vault) (recordBooks B))
        (VaultState.deployed deployer timestamp, ⟨0, 0⟩),
      x.1.balance + x.2.interest = x.1.token.ledger.totalSupply + x.2.outside ∧
      ∀ sender amount,
        Vault.redeem B vault sender amount x.1 = .error (.custom .Vault_RedeemFailed) →
        x.2.outside < x.2.interest + interestMinted B sender x.1.token := by
  have hstart : Balanced vault (VaultState.deployed deployer timestamp) ⟨0, 0⟩ :=
    ⟨wellFormed_constructor htime, guarded_constructor, rfl⟩
  have hpres : Preserves (recording (VaultAction.start B vault) (recordBooks B))
      (fun _ => VaultAction.Admissible vault) fun x => Balanced vault x.1 x.2 :=
    preserves_recording fun v k act p hact h hp => h.step hact hp
  intro x hx
  have hbal := hpres.points calls hcalls hstart x hx
  exact ⟨hbal.equation, fun sender amount hfail => hbal.unpaid_interest hfail⟩

/-- Account 10 deposits a hundred wei, waits, and redeems forty. With the payout it has seven wei
sent to the vault and redeems ten more. -/
def sampleReentry : Calls VaultAction :=
  .call (.token (.call 1 (.grantMintAndBurnRole 2))) .done true <|
  .call (.vault 10 (.deposit 100)) .done true <|
  .call (.token (.elapse (10 ^ 6))) .done true <|
  .call (.vault 10 (.redeem 40))
    (.call (.vault 12 (.receive 7)) .done true <| .call (.vault 10 (.redeem 10)) .done true .done)
    true .done

theorem sampleReentry_admissible :
    sampleReentry.Along (recording (VaultAction.start openZeppelin 2) (recordBooks openZeppelin))
      (fun _ => VaultAction.Admissible 2) (VaultState.deployed 1 1, ⟨0, 0⟩) := by
  refine ⟨⟨by decide, by rintro _ ⟨⟩; rfl⟩, fun _ _ => trivial, trivial, fun _ _ => trivial,
    trivial, fun _ _ => trivial, trivial, fun _ _ => ?_, trivial⟩
  exact ⟨trivial, fun _ _ => trivial, trivial, fun _ _ => trivial, trivial⟩

/-- The vault after those calls, with its books. -/
def sampleBooks : VaultState × Books :=
  sampleReentry.exec (recording (VaultAction.start openZeppelin 2) (recordBooks openZeppelin))
    (VaultState.deployed 1 1, ⟨0, 0⟩)

/-- Five of interest, and in the end 57 wei for 55 tokens. -/
theorem vault_accounting_sample :
    (sampleBooks.1.balance = 57 ∧ sampleBooks.1.token.ledger.totalSupply = 55 ∧
      sampleBooks.2 = ⟨5, 7⟩) ∧
    ∀ x ∈ sampleReentry.points
        (recording (VaultAction.start openZeppelin 2) (recordBooks openZeppelin))
        (VaultState.deployed 1 1, ⟨0, 0⟩),
      x.1.balance + x.2.interest = x.1.token.ledger.totalSupply + x.2.outside := by
  refine ⟨by decide, fun x hx => ?_⟩
  exact (vault_accounting Nat.one_pos sampleReentry_admissible x hx).1

end Rebase

end UpdraftContracts

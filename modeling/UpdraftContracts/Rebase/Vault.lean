import UpdraftContracts.Evm.Reentrancy
import UpdraftContracts.Rebase.RebaseTokenPool

/-!
# `Vault`

The vault of a chain mints a token for every wei that is deposited, at the global rate of the
moment, and burns tokens against wei. It keeps nothing in storage. Its state is its ETH and the
token it was deployed for.

`redeem` pays by a call of the redeemer, who may do anything before it returns. That call is the
last thing `redeem` does except for looking at its outcome, so the function fits `Progress`. Events
are not modelled.

Two systems are built from the vault. `VaultAction` is a token whose vault is the only other
contract. `ChainAction` is a network of chains, some of which have a vault.
-/

namespace UpdraftContracts

open Evm

namespace Rebase

/-- The error of the vault. -/
inductive VaultError where
  | Vault_RedeemFailed
  deriving DecidableEq

/-- The vault and its token. -/
structure VaultState where
  token : Token
  /-- `address(this).balance` -/
  balance : ℕ

namespace Vault

variable (B : OpenZeppelinErc20 Address) (self sender : Address)

/-- ETH that comes without a call of a function. -/
def receive (value : ℕ) (s : VaultState) : VaultState := { s with balance := s.balance + value }

/-- The ETH sent along arrives before the code runs. -/
def deposit (value : ℕ) (s : VaultState) : Exec VaultError VaultState := do
  let s := { s with balance := s.balance + value }
  let interestRate := RebaseToken.getInterestRate s.token
  let token ← bubble (RebaseToken.mint B self sender value interestRate s.token)
  return { s with token := token }

/-- The tokens are burned before the ETH is sent. -/
def redeem (amount : ℕ) (s : VaultState) : Exec VaultError (Progress VaultError VaultState) := do
  let amount ← bubble (RebaseToken.resolveAmount sender amount s.token)
  let token ← bubble (RebaseToken.burn B self sender amount s.token)
  -- a call that is to carry more ETH than there is fails at once
  revertIf (s.balance < amount) .Vault_RedeemFailed
  return .handsOver { token := token, balance := s.balance - amount }
    (.error (.custom .Vault_RedeemFailed))

variable {B self sender} {amount value : ℕ} {s s' : VaultState}
  {p : Progress VaultError VaultState}

/-- A deposit mints at the current rate. -/
theorem deposit_eq_ok :
    deposit B self sender value s = .ok s' ↔
      ∃ token, RebaseToken.mint B self sender value s.token.s_interestRate s.token = .ok token ∧
        s' = { token := token, balance := s.balance + value } := by
  simp only [deposit, bind_eq_ok, bubble_eq_ok, pure_eq_ok, RebaseToken.getInterestRate]

/-- A redemption burns what it pays. -/
theorem redeem_eq_ok :
    redeem B self sender amount s = .ok p ↔
      ∃ a token, RebaseToken.resolveAmount sender amount s.token = .ok a ∧
        RebaseToken.burn B self sender a s.token = .ok token ∧ a ≤ s.balance ∧
        p = .handsOver { token := token, balance := s.balance - a }
          (.error (.custom .Vault_RedeemFailed)) := by
  simp only [redeem, bind_eq_ok, bubble_eq_ok, revertIf_eq_ok, pure_eq_ok, Nat.not_lt]
  constructor
  · rintro ⟨a, ha, token, hburn, -, hle, rfl⟩
    exact ⟨a, token, ha, hburn, hle, rfl⟩
  · rintro ⟨a, token, ha, hburn, hle, rfl⟩
    exact ⟨a, ha, token, hburn, (), hle, rfl⟩

end Vault

/-- The functions of the vault. -/
inductive VaultCall where
  | receive (value : ℕ)
  | deposit (value : ℕ)
  | redeem (amount : ℕ)

/-- Begin a call of the vault. -/
def VaultCall.start (B : OpenZeppelinErc20 Address) (self sender : Address) (s : VaultState) :
    VaultCall → Exec VaultError (Progress VaultError VaultState)
  | receive value => return .returned (Vault.receive value s)
  | deposit value => do return .returned (← Vault.deposit B self sender value s)
  | redeem amount => Vault.redeem B self sender amount s

/-- What a call of the vault that goes through does to the token and the ETH. -/
inductive VaultCall.Outcome (B : OpenZeppelinErc20 Address) (self sender : Address)
    (s : VaultState) : VaultCall → Progress VaultError VaultState → Prop where
  | received {value : ℕ} :
      Outcome B self sender s (receive value)
        (.returned { token := s.token, balance := s.balance + value })
  | deposited {value : ℕ} {token : Token}
      (hmint : RebaseToken.mint B self sender value s.token.s_interestRate s.token = .ok token) :
      Outcome B self sender s (deposit value)
        (.returned { token := token, balance := s.balance + value })
  | redeemed {amount a : ℕ} {token : Token}
      (hresolve : RebaseToken.resolveAmount sender amount s.token = .ok a)
      (hburn : RebaseToken.burn B self sender a s.token = .ok token) (hle : a ≤ s.balance) :
      Outcome B self sender s (redeem amount)
        (.handsOver { token := token, balance := s.balance - a }
          (.error (.custom .Vault_RedeemFailed)))

/-- Every call that begins is of one of these kinds. -/
theorem VaultCall.outcome {B : OpenZeppelinErc20 Address} {self sender : Address} {s : VaultState}
    {c : VaultCall} {p : Progress VaultError VaultState} (h : c.start B self sender s = .ok p) :
    c.Outcome B self sender s p := by
  cases c with
  | receive value =>
    obtain rfl := pure_eq_ok.mp h
    exact .received
  | deposit value =>
    obtain ⟨s', hdeposit, hp⟩ := bind_eq_ok.mp h
    obtain rfl := pure_eq_ok.mp hp
    obtain ⟨token, hmint, rfl⟩ := Vault.deposit_eq_ok.mp hdeposit
    exact .deposited hmint
  | redeem amount =>
    obtain ⟨a, token, hresolve, hburn, hle, rfl⟩ := Vault.redeem_eq_ok.mp h
    exact .redeemed hresolve hburn hle

/-! ## A token and its vault -/

/-- What can happen next. -/
inductive VaultAction where
  | vault (sender : Address) (c : VaultCall)
  | token (a : TokenAction)

/-- Begin an action. -/
def VaultAction.start (B : OpenZeppelinErc20 Address) (self : Address) (s : VaultState) :
    VaultAction → Exec VaultError (Progress VaultError VaultState)
  | vault sender c => c.start B self sender s
  | token a => return .returned { s with token := a.step B s.token }

/-! ## Chains with vaults -/

/-- A network in which some chains have a vault. -/
structure Deployment (ι : Type) extends Lanes ι where
  vault : ι → Option Address

/-- The state of all chains, with the ETH of their vaults. -/
structure Chains (ι : Type) extends Network ι where
  eth : ι → ℕ

variable {ι : Type} [DecidableEq ι]

/-- The vault of a chain, with the token there. -/
def Chains.vaultState (w : Chains ι) (i : ι) : VaultState :=
  { token := w.token i, balance := w.eth i }

/-- Write the vault of a chain, with the token there. -/
def Chains.setVaultState (w : Chains ι) (i : ι) (s : VaultState) : Chains ι :=
  { w.toNetwork.setToken i s.token with eth := Function.update w.eth i s.balance }

/-- What can happen next, on any chain. -/
inductive ChainAction (ι : Type) where
  | vault (i : ι) (sender : Address) (c : VaultCall)
  | network (a : NetworkAction ι)

/-- Begin an action. A vault can be called where there is one. -/
def Deployment.start (D : Deployment ι) (w : Chains ι) :
    ChainAction ι → Exec VaultError (Progress VaultError (Chains ι))
  | .vault i sender c => do
    let self ← ofCallee (D.vault i)
    let p ← c.start D.base self sender (w.vaultState i)
    return p.map (w.setVaultState i)
  | .network a => return .returned { w with toNetwork := D.step w.toNetwork a }

theorem Deployment.start_vault_eq_ok {D : Deployment ι} {w : Chains ι} {i : ι} {sender : Address}
    {c : VaultCall} {p : Progress VaultError (Chains ι)} :
    D.start w (.vault i sender c) = .ok p ↔
      ∃ self q, D.vault i = some self ∧ c.start D.base self sender (w.vaultState i) = .ok q ∧
        p = q.map (w.setVaultState i) := by
  simp only [Deployment.start, bind_eq_ok, ofCallee_eq_ok, pure_eq_ok]
  constructor
  · rintro ⟨self, hself, q, hq, rfl⟩
    exact ⟨self, q, hself, hq, rfl⟩
  · rintro ⟨self, q, hself, hq, rfl⟩
    exact ⟨self, hself, q, hq, rfl⟩

/-- All tokens have just been deployed, at a positive time. -/
def Chains.Deployed (w : Chains ι) : Prop :=
  w.inFlight = [] ∧ ∀ i, ∃ deployer timestamp, 0 < timestamp ∧
    w.token i = RebaseToken.constructor deployer timestamp

/-! ## Who may mint -/

/-- Calls by others than the holders of the role, who give it to nobody else. -/
def TokenCall.Admissible (holder : Address → Prop) (sender : Address) (c : TokenCall) : Prop :=
  ¬ holder sender ∧ ∀ account, c = .grantMintAndBurnRole account → holder account

/-- The contracts of a chain that may hold the role: its vault and its pool. Their code calls the
token only from the functions modelled here. -/
def Deployment.holder (D : Deployment ι) (i : ι) (account : Address) : Prop :=
  D.vault i = some account ∨ (D.pool i).self = account

instance (D : Deployment ι) (i : ι) (account : Address) : Decidable (D.holder i account) :=
  inferInstanceAs (Decidable (_ ∨ _))

/-- The role stays with vaults and pools. -/
def Deployment.Admissible (D : Deployment ι) : ChainAction ι → Prop
  | .network (.call i sender c) => c.Admissible (D.holder i) sender
  | _ => True

end Rebase

end UpdraftContracts

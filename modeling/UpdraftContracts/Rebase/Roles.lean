import UpdraftContracts.Rebase.Bridge
import UpdraftContracts.Rebase.Vault

/-!
# Roles and the global rate

Who may mint and burn, and at which rate deposits are made, is decided by the owner alone. Calls
that move tokens do not touch either. The constructor makes nobody the administrator of the roles,
so the role only ever comes from `grantMintAndBurnRole`, and while the owner gives it to certain
contracts only, mints and burns come from them only.

## Main results

* `TokenCall.guarded_exec` — the role stays with its holders
* `TokenCall.ordinary_of_admissible` — nobody else mints or burns
* `TokenCall.interestRate_exec` — the global rate never rises
-/

namespace UpdraftContracts

open Evm

namespace Rebase

open RebaseToken Token

variable {B : OpenZeppelinErc20 Address} {s s' s'' : Token} {u sender src dst : Address} {a r : ℕ}
  {ok : Bool} {holder : Address → Prop} {c : TokenCall}

/-! ## Calls that move tokens -/

/-- The same roles and the same global rate. -/
structure Token.SameTerms (s s' : Token) : Prop where
  hasRole : s'.hasRole = s.hasRole
  interestRate : s'.s_interestRate = s.s_interestRate

theorem Token.SameTerms.trans (h : s.SameTerms s') (h' : s'.SameTerms s'') : s.SameTerms s'' :=
  ⟨h'.hasRole.trans h.hasRole, h'.interestRate.trans h.interestRate⟩

theorem Token.sameTerms_setLedger (s : Token) (L : Ledger Address) :
    s.SameTerms (s.setLedger L) := ⟨rfl, rfl⟩

theorem Token.sameTerms_setRate (s : Token) (u : Address) (r : ℕ) :
    s.SameTerms (s.setRate u r) := ⟨rfl, rfl⟩

theorem Token.sameTerms_accrue (s : Token) (u : Address) : s.SameTerms (s.accrue u) := ⟨rfl, rfl⟩

theorem Token.sameTerms_prepared (s : Token) (src dst : Address) :
    s.SameTerms (s.prepared src dst) := by
  have haccrued : s.SameTerms ((s.accrue src).accrue dst) :=
    (s.sameTerms_accrue src).trans (sameTerms_accrue _ dst)
  exact prepared_cases (fun _ => haccrued.trans (sameTerms_setRate _ dst _)) fun _ => haccrued

namespace RebaseToken

theorem mint_sameTerms (hs : s.WellFormed) (h : mint B sender dst a r s = .ok s') :
    s.SameTerms s' := by
  obtain ⟨-, -, -, rfl⟩ := (mint_eq_ok hs).mp h
  have hrate := (s.sameTerms_accrue dst).trans (sameTerms_setRate _ dst r)
  exact hrate.trans (sameTerms_setLedger _ _)

theorem burn_sameTerms (hs : s.WellFormed) (h : burn B sender src a s = .ok s') :
    s.SameTerms s' := by
  obtain ⟨-, -, -, rfl⟩ := (burn_eq_ok hs).mp h
  exact (s.sameTerms_accrue src).trans (sameTerms_setLedger _ _)

theorem transfer_sameTerms (hs : s.WellFormed) (h : transfer B sender dst a s = .ok (ok, s')) :
    s.SameTerms s' := by
  obtain ⟨-, L, -, rfl⟩ := (transfer_eq_ok hs).mp h
  exact (s.sameTerms_prepared sender dst).trans (sameTerms_setLedger _ L)

theorem transferFrom_sameTerms (hs : s.WellFormed)
    (h : transferFrom B sender src dst a s = .ok (ok, s')) : s.SameTerms s' := by
  obtain ⟨-, L, -, rfl⟩ := (transferFrom_eq_ok hs).mp h
  exact (s.sameTerms_prepared src dst).trans (sameTerms_setLedger _ L)

end RebaseToken

/-- Only administration changes the roles or the rate for deposits. -/
theorem TokenCall.sameTerms_exec (hs : s.WellFormed) (hc : ¬ c.administrative = true)
    (h : c.exec B sender s = .ok s') : s.SameTerms s' := by
  cases c with
  | mint dst a r => exact mint_sameTerms hs h
  | burn src a => exact burn_sameTerms hs h
  | transfer dst a =>
    obtain ⟨⟨ok, _⟩, h, rfl⟩ := exec_snd_eq_ok.mp h
    exact transfer_sameTerms hs h
  | transferFrom src dst a =>
    obtain ⟨⟨ok, _⟩, h, rfl⟩ := exec_snd_eq_ok.mp h
    exact transferFrom_sameTerms hs h
  | approve spender value =>
    obtain ⟨⟨ok, _⟩, h, rfl⟩ := exec_snd_eq_ok.mp h
    obtain ⟨L, rfl, -⟩ := approve_cases h
    exact sameTerms_setLedger s L
  | _ => exact absurd rfl hc

/-! ## Administration -/

theorem Token.hasRole_setRole (s : Token) (role role' : Role) (account u : Address) (b : Bool) :
    (s.setRole role account b).hasRole role' u
      = if role' = role ∧ u = account then b else s.hasRole role' u := by
  rcases eq_or_ne role' role with rfl | hrole
  · rcases eq_or_ne u account with rfl | hu
    · simp [setRole]
    · simp [setRole, hu]
  · simp [setRole, hrole]

/-- Only holders have the role, and nobody administers it. -/
structure Token.Guarded (holder : Address → Prop) (s : Token) : Prop where
  holds : ∀ u, s.hasRole .MINT_AND_BURN_ROLE u = true → holder u
  no_admin : ∀ u, s.hasRole .DEFAULT_ADMIN_ROLE u = false

theorem Token.guarded_constructor {deployer : Address} {timestamp : ℕ} :
    (RebaseToken.constructor deployer timestamp).Guarded holder :=
  ⟨fun _ h => absurd h Bool.false_ne_true, fun _ => rfl⟩

theorem Token.Guarded.of_sameTerms (hs : s.Guarded holder) (h : s.SameTerms s') :
    s'.Guarded holder :=
  ⟨h.hasRole ▸ hs.holds, h.hasRole ▸ hs.no_admin⟩

theorem Token.Guarded.setRole (hs : s.Guarded holder) {b : Bool} (hu : b = true → holder u) :
    (s.setRole .MINT_AND_BURN_ROLE u b).Guarded holder := by
  refine ⟨fun v hv => ?_, fun v => ?_⟩
  · rw [hasRole_setRole] at hv
    split at hv
    · next heq => exact heq.2 ▸ hu hv
    · exact hs.holds v hv
  · rw [hasRole_setRole, if_neg fun heq => nomatch heq.1]
    exact hs.no_admin v

/-- Taking any role from an account does no harm. -/
theorem Token.Guarded.unsetRole (hs : s.Guarded holder) (role : Role) :
    (s.setRole role u false).Guarded holder := by
  refine ⟨fun v hv => ?_, fun v => ?_⟩
  · rw [hasRole_setRole] at hv
    split at hv
    · exact absurd hv Bool.false_ne_true
    · exact hs.holds v hv
  · rw [hasRole_setRole]
    split
    · rfl
    · exact hs.no_admin v

/-- **The role stays with its holders.** -/
theorem TokenCall.guarded_exec (hs : s.WellFormed) (hguard : s.Guarded holder)
    (hc : c.Admissible holder sender) (h : c.exec B sender s = .ok s') : s'.Guarded holder := by
  by_cases hadmin : c.administrative = true
  · obtain ⟨r, -, rfl⟩ | ⟨_, rfl⟩ | ⟨account, heq, rfl⟩ | ⟨_, _, _, habs, rfl⟩ | ⟨role, _, rfl⟩ :=
      administrative_cases hadmin h
    · exact ⟨hguard.holds, hguard.no_admin⟩
    · exact ⟨hguard.holds, hguard.no_admin⟩
    · exact hguard.setRole fun _ => hc.2 account heq
    · rw [hguard.no_admin] at habs
      exact absurd habs Bool.false_ne_true
    · exact hguard.unsetRole role
  · exact hguard.of_sameTerms (sameTerms_exec hs hadmin h)

/-- Whoever is not a holder can neither mint nor burn. -/
theorem TokenCall.ordinary_of_admissible (hs : s.WellFormed) (hguard : s.Guarded holder)
    (hc : c.Admissible holder sender) (h : c.exec B sender s = .ok s') : c.ordinary = true := by
  cases c with
  | mint dst a r =>
    obtain ⟨hrole, -⟩ := (mint_eq_ok hs).mp h
    exact absurd (hguard.holds sender hrole) hc.1
  | burn src a =>
    obtain ⟨hrole, -⟩ := (burn_eq_ok hs).mp h
    exact absurd (hguard.holds sender hrole) hc.1
  | _ => rfl

/-- **The global rate never rises.** -/
theorem TokenCall.interestRate_exec (hs : s.WellFormed) (h : c.exec B sender s = .ok s') :
    s'.s_interestRate ≤ s.s_interestRate := by
  by_cases hadmin : c.administrative = true
  · obtain ⟨r, hlt, rfl⟩ | ⟨_, rfl⟩ | ⟨_, -, rfl⟩ | ⟨_, _, _, -, rfl⟩ | ⟨_, _, rfl⟩ :=
      administrative_cases hadmin h
    · exact hlt.le
    all_goals exact le_rfl
  · exact (sameTerms_exec hs hadmin h).interestRate.le

end Rebase

end UpdraftContracts

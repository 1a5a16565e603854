import UpdraftContracts.Evm.Hub
import UpdraftContracts.Stablecoin.Backing

/-!
# Calls of different users are independent

Apart from `liquidate`, every call is made of four operations of its sender with the engine. Each
writes the sender's own entries in the engine and one token ledger. What it asks for concerns the
sender's own entries, balance and allowance, with two exceptions: a redemption needs the engine to
hold enough, which custody guarantees in any order, and a mint needs room below `2 ^ 256`.

So two operations of different users can be swapped, and a sequence of one user's operations can be
moved past a sequence of another's, one swap at a time.

## Main results

* `UserOp.exec_eq_ok` — when an operation goes through, and its effect as a function of the state
* `UserOp.swap` — two operations of different users commute
* `calls_commute` — so do two calls
-/

namespace UpdraftContracts

open Evm

namespace Stablecoin

open DSCEngine

variable {D : Deployment} {w w' w₁ w₂ : World} {u v : Address}

/-! ## Operations of a user -/

/-- The four entry points that calls are made of. -/
inductive UserOp where
  | depositCollateral (t : Address) (a : ℕ)
  | mintDSC (m : ℕ)
  | redeemCollateral (t : Address) (a : ℕ)
  | burnDSC (b : ℕ)

namespace UserOp

/-- Run an operation of a user. -/
def exec (D : Deployment) (u : Address) : UserOp → World → Exec Error World
  | depositCollateral t a => DSCEngine.depositCollateral D u t a
  | mintDSC m => DSCEngine.mintDSC D u m
  | redeemCollateral t a => DSCEngine.redeemCollateral D u t a
  | burnDSC b => DSCEngine.burnDSC D u b

/-- The token whose ledger an operation writes. -/
def token (D : Deployment) : UserOp → Address
  | depositCollateral t _ => t
  | mintDSC _ => D.i_DSC
  | redeemCollateral t _ => t
  | burnDSC _ => D.i_DSC

/-- What it does to that ledger, with the engine as the hub. -/
def hub : UserOp → HubOp
  | depositCollateral _ a => .pull a
  | mintDSC m => .issue m
  | redeemCollateral _ a => .push a
  | burnDSC b => .retire b

/-- The deposits of the user afterwards. -/
def deposits : UserOp → (Address → ℕ) → Address → ℕ
  | depositCollateral t a, deposited => Function.update deposited t (deposited t + a)
  | redeemCollateral t a, deposited => Function.update deposited t (deposited t - a)
  | _, deposited => deposited

/-- The debt of the user afterwards. -/
def debt : UserOp → ℕ → ℕ
  | mintDSC m, minted => minted + m
  | burnDSC b, minted => minted - b
  | _, minted => minted

/-- The state after an operation. -/
def apply (D : Deployment) (u : Address) (o : UserOp) (w : World) : World :=
  { w with
    ledgers := Function.update w.ledgers (o.token D)
      (o.hub.apply D.engine u (w.ledgers (o.token D)))
    s_collateralDeposited := Function.update w.s_collateralDeposited u
      (o.deposits (w.s_collateralDeposited u))
    s_DSCMinted := Function.update w.s_DSCMinted u (o.debt (w.s_DSCMinted u)) }

/-- What an operation asks of the entries of its user. -/
def Guard (w : World) (u : Address) : UserOp → Prop
  | depositCollateral t a =>
    0 < a ∧ w.s_priceFeeds t ≠ 0 ∧ w.s_collateralDeposited u t + a < uint256Size
  | mintDSC m => 0 < m ∧ w.s_DSCMinted u + m < uint256Size
  | redeemCollateral t a => 0 < a ∧ w.s_priceFeeds t ≠ 0 ∧ a ≤ w.s_collateralDeposited u t
  | burnDSC b => 0 < b ∧ b ≤ w.s_DSCMinted u

/-- All but `depositCollateral` check the health of the user at the end. -/
def checksHealth : UserOp → Bool
  | depositCollateral _ _ => false
  | _ => true

/-- What an operation asks for, apart from a lock that is free between calls. -/
structure Pre (D : Deployment) (w : World) (u : Address) (o : UserOp) : Prop where
  guard : o.Guard w u
  health : o.checksHealth = true → Solvent (o.apply D u w) u
  ready : o.hub.Ready D.engine u (w.ledgers (o.token D))

variable {o x y : UserOp} {t : Address} {a m b : ℕ}

theorem apply_depositCollateral : (depositCollateral t a).apply D u w
    = (w.setDeposited u t (w.s_collateralDeposited u t + a)).setLedger t
        (((w.ledgers t).spend u D.engine a).move u D.engine a) := by
  simp [apply, token, hub, deposits, debt, HubOp.apply, World.setDeposited, World.setLedger]

theorem apply_mintDSC : (mintDSC m).apply D u w
    = (w.setMinted u (w.s_DSCMinted u + m)).setLedger D.i_DSC ((w.ledgers D.i_DSC).mint u m) := by
  simp [apply, token, hub, deposits, debt, HubOp.apply, World.setMinted, World.setLedger]

theorem apply_redeemCollateral : (redeemCollateral t a).apply D u w
    = (w.setDeposited u t (w.s_collateralDeposited u t - a)).setLedger t
        ((w.ledgers t).move D.engine u a) := by
  simp [apply, token, hub, deposits, debt, HubOp.apply, World.setDeposited, World.setLedger]

theorem apply_burnDSC : (burnDSC b).apply D u w
    = (w.setMinted u (w.s_DSCMinted u - b)).setLedger D.i_DSC
        (((w.ledgers D.i_DSC).spend u D.engine b).burn u b) := by
  simp [apply, token, hub, deposits, debt, HubOp.apply, World.setMinted, World.setLedger]

/-- **An operation as a function of the state.** -/
theorem exec_eq_ok (hw : Sane D w) (hstd : ∀ t, w.s_priceFeeds t ≠ 0 → (D.erc20 t).Standard)
    (hu : u ≠ 0) :
    o.exec D u w = .ok w' ↔ o.Pre D w u ∧ w' = o.apply D u w := by
  cases o with
  | depositCollateral t a =>
    rw [exec, depositCollateral_eq_ok]
    constructor
    · rintro ⟨ha, ht, -, hfit, L, hL, rfl⟩
      obtain ⟨hallow, hbal, rfl⟩ := (hstd t ht).transferFrom_eq D.engine_ne_zero hL
      exact ⟨⟨⟨ha, ht, hfit⟩, nofun, hallow, hbal⟩, apply_depositCollateral.symm⟩
    · rintro ⟨⟨⟨ha, ht, hfit⟩, -, hallow, hbal⟩, rfl⟩
      exact ⟨ha, ht, hw.unlocked, hfit, _, (hstd t ht).transferFrom_ok D.engine_ne_zero hu
        D.engine_ne_zero hallow hbal, apply_depositCollateral⟩
  | mintDSC m =>
    rw [exec, mintDSC_eq_ok]
    constructor
    · rintro ⟨hm, -, hfit, hsol, -, -, hsupply, rfl⟩
      refine ⟨⟨⟨hm, hfit⟩, fun _ => ?_, hsupply⟩, apply_mintDSC.symm⟩
      rwa [apply_mintDSC, solvent_setLedger]
    · rintro ⟨⟨⟨hm, hfit⟩, hsol, hsupply⟩, rfl⟩
      have hsol := hsol rfl
      rw [apply_mintDSC, solvent_setLedger] at hsol
      exact ⟨hm, hw.unlocked, hfit, hsol, hw.owner, hu, hsupply, apply_mintDSC⟩
  | redeemCollateral t a =>
    rw [exec, redeemCollateral_eq_ok]
    constructor
    · rintro ⟨ha, -, ht, hle, hsol, L, hL, rfl⟩
      obtain ⟨hbal, rfl⟩ := (hstd t ht).transfer_true hL
      refine ⟨⟨⟨ha, ht, hle⟩, fun _ => ?_, hbal⟩, apply_redeemCollateral.symm⟩
      rwa [apply_redeemCollateral, solvent_setLedger]
    · rintro ⟨⟨⟨ha, ht, hle⟩, hsol, hbal⟩, rfl⟩
      have hsol := hsol rfl
      rw [apply_redeemCollateral, solvent_setLedger] at hsol
      exact ⟨ha, hw.unlocked, ht, hle, hsol, _,
        (hstd t ht).transfer_ok D.engine_ne_zero hu hbal, apply_redeemCollateral⟩
  | burnDSC b =>
    rw [exec, burnDSC_eq_ok]
    constructor
    · rintro ⟨hb, -, hle, -, -, hallow, hbal, hsol, rfl⟩
      refine ⟨⟨⟨hb, hle⟩, fun _ => ?_, hallow, hbal⟩, apply_burnDSC.symm⟩
      rwa [apply_burnDSC, solvent_setLedger]
    · rintro ⟨⟨⟨hb, hle⟩, hsol, hallow, hbal⟩, rfl⟩
      have hsol := hsol rfl
      rw [apply_burnDSC, solvent_setLedger] at hsol
      exact ⟨hb, hw.unlocked, hle, hw.owner, hu, hallow, hbal, hsol, apply_burnDSC⟩

theorem exec_invariant (hw : Invariant D w) (hu : u ≠ D.engine) (h : o.exec D u w = .ok w') :
    Invariant D w' := by
  cases o with
  | depositCollateral t a => exact (depositCollateral_move hu h).invariant hw
  | mintDSC m => exact (mintDSC_move hu h).invariant hw
  | redeemCollateral t a => exact (redeemCollateral_move hu h).invariant hw
  | burnDSC b => exact (burnDSC_move hu h).invariant hw

/-! ## Operations of another user -/

theorem balance_apply_of_ne (h : o.Pre D w v) (huv : u ≠ v) (hu : u ≠ D.engine) (t : Address) :
    ((o.apply D v w).ledgers t).balance u = (w.ledgers t).balance u := by
  simp only [apply, Function.update_apply]
  split
  · next ht => rw [HubOp.balance_apply_of_ne h.ready huv hu, ht]
  · rfl

theorem allowance_apply_of_ne (huv : u ≠ v) (t s : Address) :
    ((o.apply D v w).ledgers t).allowance u s = (w.ledgers t).allowance u s := by
  simp only [apply, Function.update_apply]
  split
  · next ht => rw [HubOp.allowance_apply_of_ne huv, ht]
  · rfl

theorem supply_apply (h : o.Pre D w u) :
    ((o.apply D u w).ledgers D.i_DSC).totalSupply + o.hub.retired
      = (w.ledgers D.i_DSC).totalSupply + o.hub.issued := by
  simp only [apply, Function.update_apply]
  split
  · next ht => rw [HubOp.totalSupply_apply h.ready, ht]
  · next ht =>
    cases o with
    | depositCollateral t a => rfl
    | redeemCollateral t a => rfl
    | mintDSC m => exact absurd rfl ht
    | burnDSC b => exact absurd rfl ht

theorem deposited_apply_of_ne (huv : u ≠ v) :
    (o.apply D v w).s_collateralDeposited u = w.s_collateralDeposited u :=
  Function.update_of_ne huv _ _

theorem minted_apply_of_ne (huv : u ≠ v) : (o.apply D v w).s_DSCMinted u = w.s_DSCMinted u :=
  Function.update_of_ne huv _ _

/-- What an operation asks for is not in the hands of another user. -/
theorem guard_apply_iff (huv : u ≠ v) : o.Guard (x.apply D v w) u ↔ o.Guard w u := by
  cases o <;> simp only [Guard, deposited_apply_of_ne huv, minted_apply_of_ne huv] <;> exact Iff.rfl

/-- Solvency is a matter of the user's own entries and of prices. -/
theorem solvent_congr {ledgers : Address → Ledger Address} {deposited : Address → Address → ℕ}
    {minted : Address → ℕ} (hdep : deposited u = w.s_collateralDeposited u)
    (hmint : minted u = w.s_DSCMinted u) :
    Solvent { w with
      ledgers := ledgers
      s_collateralDeposited := deposited
      s_DSCMinted := minted } u ↔ Solvent w u := by
  simp only [Solvent, Valuable, World.collateralValue, hdep, hmint]
  exact Iff.rfl

/-- Nor is its health factor. -/
theorem solvent_apply_iff (huv : u ≠ v) :
    Solvent (o.apply D u (x.apply D v w)) u ↔ Solvent (o.apply D u w) u := by
  refine solvent_congr (w := o.apply D u w) ?_ ?_
  · simp only [apply, Function.update_self, Function.update_of_ne huv]
  · simp only [apply, Function.update_self, Function.update_of_ne huv]

/-- What the user must have of the token, the engine has or the user still has. -/
theorem ready_of_ready (hw' : Invariant D w')
    (hstd : ∀ t, w'.s_priceFeeds t ≠ 0 → (D.erc20 t).Standard) (hguard : o.Guard w' u)
    (hready : o.hub.Ready D.engine u (w.ledgers (o.token D)))
    (hbal : ∀ t, (w'.ledgers t).balance u = (w.ledgers t).balance u)
    (hallow : ∀ t, (w'.ledgers t).allowance u D.engine = (w.ledgers t).allowance u D.engine)
    (hsupply : (w'.ledgers D.i_DSC).totalSupply + o.hub.issued < uint256Size) :
    o.hub.Ready D.engine u (w'.ledgers (o.token D)) := by
  cases o with
  | depositCollateral t a => exact ⟨(hallow t).symm ▸ hready.1, (hbal t).symm ▸ hready.2⟩
  | mintDSC m => exact hsupply
  | redeemCollateral t a =>
    exact hguard.2.2.trans (hw'.deposited_le u (hstd t hguard.2.1).toExact)
  | burnDSC b => exact ⟨(hallow _).symm ▸ hready.1, (hbal _).symm ▸ hready.2⟩

/-- Operations of two users have the same effect in either order. -/
theorem apply_comm (huv : u ≠ v) (hx : x.Pre D w u) (hy : y.Pre D (x.apply D u w) v)
    (hy' : y.Pre D w v) (hx' : x.Pre D (y.apply D v w) u) :
    y.apply D v (x.apply D u w) = x.apply D u (y.apply D v w) := by
  have hledgers :
      (y.apply D v (x.apply D u w)).ledgers = (x.apply D u (y.apply D v w)).ledgers := by
    have hy := hy.ready
    have hx' := hx'.ready
    simp only [apply] at hy hx' ⊢
    rcases eq_or_ne (x.token D) (y.token D) with ht | ht
    · rw [ht] at hy hx' ⊢
      rw [Function.update_self] at hy hx' ⊢
      rw [Function.update_self, Function.update_idem, Function.update_idem]
      rw [HubOp.apply_comm huv (ht ▸ hx.ready) hy hy'.ready hx']
    · rw [Function.update_of_ne ht.symm, Function.update_of_ne ht, Function.update_comm ht]
  have hdep : (y.apply D v (x.apply D u w)).s_collateralDeposited
      = (x.apply D u (y.apply D v w)).s_collateralDeposited := by
    simp only [apply, Function.update_of_ne huv, Function.update_of_ne huv.symm]
    exact Function.update_comm huv _ _ _
  have hmint : (y.apply D v (x.apply D u w)).s_DSCMinted
      = (x.apply D u (y.apply D v w)).s_DSCMinted := by
    simp only [apply, Function.update_of_ne huv, Function.update_of_ne huv.symm]
    exact Function.update_comm huv _ _ _
  simp only [apply] at hledgers hdep hmint ⊢
  rw [hledgers, hdep, hmint]

/-! ## Swapping -/

end UserOp

/-- A state between calls of a system all of whose collateral tokens are standard. -/
structure Regular (D : Deployment) (w : World) : Prop extends Invariant D w where
  standard : ∀ t, w.s_priceFeeds t ≠ 0 → (D.erc20 t).Standard

namespace UserOp

variable {o x y : UserOp} {os xs ys : List UserOp}

section Swap

variable (hu : u ≠ D.engine) (hu₀ : u ≠ 0) (hv : v ≠ D.engine) (hv₀ : v ≠ 0)

include hu hu₀ in
theorem exec_regular (hw : Regular D w) (h : o.exec D u w = .ok w') : Regular D w' := by
  refine ⟨exec_invariant hw.toInvariant hu h, ?_⟩
  obtain ⟨-, rfl⟩ := (exec_eq_ok hw.toSane hw.standard hu₀).mp h
  exact hw.standard

include hu₀ in
theorem supply_exec (hw : Regular D w) (h : o.exec D u w = .ok w') :
    (w'.ledgers D.i_DSC).totalSupply + o.hub.retired
      = (w.ledgers D.i_DSC).totalSupply + o.hub.issued := by
  obtain ⟨hpre, rfl⟩ := (exec_eq_ok hw.toSane hw.standard hu₀).mp h
  exact supply_apply hpre

include hu₀ in
/-- There is room for what an operation issues. -/
theorem room_of_exec (hw : Regular D w) (h : o.exec D u w = .ok w') :
    (w.ledgers D.i_DSC).totalSupply + o.hub.issued < uint256Size := by
  obtain ⟨hpre, -⟩ := (exec_eq_ok hw.toSane hw.standard hu₀).mp h
  cases o with
  | mintDSC m => exact hpre.ready
  | _ => exact (w.ledgers D.i_DSC).totalSupply_lt

include hu hu₀ hv hv₀ in
/-- **Two operations.** If `x` by `u` and then `y` by `v` go through, so do `y` and then `x`, with
the same result, as long as there is room for what `y` issues. -/
theorem swap (hw : Regular D w) (huv : u ≠ v) (hx : x.exec D u w = .ok w₁)
    (hy : y.exec D v w₁ = .ok w₂)
    (hroom : (w.ledgers D.i_DSC).totalSupply + y.hub.issued < uint256Size) :
    ∃ w', y.exec D v w = .ok w' ∧ x.exec D u w' = .ok w₂ := by
  have hw₁ := exec_regular hu hu₀ hw hx
  have hroom₁ := room_of_exec hv₀ hw₁ hy
  have hsupply₁ := supply_exec hu₀ hw hx
  have hroomx := room_of_exec hu₀ hw hx
  obtain ⟨hprex, rfl⟩ := (exec_eq_ok hw.toSane hw.standard hu₀).mp hx
  obtain ⟨hprey, rfl⟩ := (exec_eq_ok hw₁.toSane hw₁.standard hv₀).mp hy
  -- `y` goes through first
  have hprey' : y.Pre D w v := by
    have hguard := (guard_apply_iff huv.symm).mp hprey.guard
    exact ⟨hguard, fun h => (solvent_apply_iff huv.symm).mp (hprey.health h),
      ready_of_ready hw.toInvariant hw.standard hguard hprey.ready
        (fun t => (balance_apply_of_ne hprex huv.symm hv t).symm)
        (fun t => (allowance_apply_of_ne huv.symm t _).symm) hroom⟩
  have hy' := (exec_eq_ok hw.toSane hw.standard hv₀).mpr ⟨hprey', rfl⟩
  have hw' := exec_regular hv hv₀ hw hy'
  -- and `x` after it
  have hprex' : x.Pre D (y.apply D v w) u := by
    have hguard : x.Guard (y.apply D v w) u := (guard_apply_iff huv).mpr hprex.guard
    refine ⟨hguard, fun h => (solvent_apply_iff huv).mpr (hprex.health h),
      ready_of_ready hw'.toInvariant hw'.standard hguard hprex.ready
        (balance_apply_of_ne hprey' huv hu) (fun t => allowance_apply_of_ne huv t _) ?_⟩
    have hsupply := supply_apply hprey'
    cases x with
    | mintDSC m =>
      simp only [hub, HubOp.issued, HubOp.retired] at hsupply₁ hroomx ⊢
      cases y with
      | mintDSC n =>
        simp only [hub, HubOp.issued, HubOp.retired] at hsupply hroom₁
        omega
      | _ =>
        simp only [hub, HubOp.issued, HubOp.retired] at hsupply
        omega
    | _ => exact ((y.apply D v w).ledgers D.i_DSC).totalSupply_lt
  refine ⟨_, hy', (exec_eq_ok hw'.toSane hw'.standard hu₀).mpr ⟨hprex', ?_⟩⟩
  exact apply_comm huv hprex hprey hprey' hprex'

/-! ## Sequences of operations -/

/-- One operation after the other. -/
def execAll (D : Deployment) (u : Address) : List UserOp → World → Exec Error World
  | [], w => .ok w
  | o :: os, w => do
    let w ← o.exec D u w
    execAll D u os w

theorem execAll_nil : execAll D u [] w = .ok w' ↔ w = w' := by
  rw [execAll, Except.ok.injEq]

theorem execAll_cons :
    execAll D u (o :: os) w = .ok w' ↔
      ∃ w₁, o.exec D u w = .ok w₁ ∧ execAll D u os w₁ = .ok w' :=
  bind_eq_ok

/-- What a sequence issues. -/
def issuedAll (os : List UserOp) : ℕ := (os.map fun o => o.hub.issued).sum

/-- What a sequence retires. -/
def retiredAll (os : List UserOp) : ℕ := (os.map fun o => o.hub.retired).sum

theorem issuedAll_cons : issuedAll (o :: os) = o.hub.issued + issuedAll os := List.sum_cons

theorem retiredAll_cons : retiredAll (o :: os) = o.hub.retired + retiredAll os := List.sum_cons

include hu hu₀ in
theorem execAll_regular (hw : Regular D w) (h : execAll D u os w = .ok w') : Regular D w' := by
  induction os generalizing w with
  | nil =>
    obtain rfl := execAll_nil.mp h
    exact hw
  | cons o os ih =>
    obtain ⟨w₁, ho, hos⟩ := execAll_cons.mp h
    exact ih (exec_regular hu hu₀ hw ho) hos

include hu hu₀ in
theorem supply_execAll (hw : Regular D w) (h : execAll D u os w = .ok w') :
    (w'.ledgers D.i_DSC).totalSupply + retiredAll os
      = (w.ledgers D.i_DSC).totalSupply + issuedAll os := by
  induction os generalizing w with
  | nil =>
    obtain rfl := execAll_nil.mp h
    rfl
  | cons o os ih =>
    obtain ⟨w₁, ho, hos⟩ := execAll_cons.mp h
    have hfirst := supply_exec hu₀ hw ho
    have hrest := ih (exec_regular hu hu₀ hw ho) hos
    rw [retiredAll_cons, issuedAll_cons]
    omega

include hu hu₀ hv hv₀ in
/-- An operation moves past a sequence that does not both issue and retire coins. -/
theorem swap_one (hw : Regular D w) (huv : u ≠ v) (hx : execAll D u xs w = .ok w₁)
    (hy : y.exec D v w₁ = .ok w₂) (hone : issuedAll xs = 0 ∨ retiredAll xs = 0)
    (hroom : (w.ledgers D.i_DSC).totalSupply + y.hub.issued < uint256Size) :
    ∃ w', y.exec D v w = .ok w' ∧ execAll D u xs w' = .ok w₂ := by
  induction xs generalizing w with
  | nil =>
    obtain rfl := execAll_nil.mp hx
    exact ⟨w₂, hy, rfl⟩
  | cons x xs ih =>
    obtain ⟨s, hx, hxs⟩ := execAll_cons.mp hx
    have hs := exec_regular hu hu₀ hw hx
    rw [issuedAll_cons, retiredAll_cons] at hone
    -- between the two ends the supply is largest at one of them
    have hroom_s : (s.ledgers D.i_DSC).totalSupply + y.hub.issued < uint256Size := by
      have hfirst := supply_exec hu₀ hw hx
      have hrest := supply_execAll hu hu₀ hs hxs
      have hend := room_of_exec hv₀ (execAll_regular hu hu₀ hs hxs) hy
      omega
    obtain ⟨s', hy', hxs'⟩ := ih hs hxs (by omega) hroom_s
    obtain ⟨w', hy'', hx'⟩ := swap hu hu₀ hv hv₀ hw huv hx hy' hroom
    exact ⟨w', hy'', execAll_cons.mpr ⟨s', hx', hxs'⟩⟩

include hu hu₀ hv hv₀ in
/-- **Two sequences.** -/
theorem swap_all (hw : Regular D w) (huv : u ≠ v) (hx : execAll D u xs w = .ok w₁)
    (hy : execAll D v ys w₁ = .ok w₂) (hone : issuedAll xs = 0 ∨ retiredAll xs = 0)
    (hroom : (w.ledgers D.i_DSC).totalSupply + issuedAll ys < uint256Size) :
    ∃ w', execAll D v ys w = .ok w' ∧ execAll D u xs w' = .ok w₂ := by
  induction ys generalizing w w₁ with
  | nil =>
    obtain rfl := execAll_nil.mp hy
    exact ⟨w, rfl, hx⟩
  | cons y ys ih =>
    obtain ⟨s, hy, hys⟩ := execAll_cons.mp hy
    rw [issuedAll_cons] at hroom
    obtain ⟨w', hy', hx'⟩ := swap_one hu hu₀ hv hv₀ hw huv hx hy hone (by omega)
    have hsupply := supply_exec hv₀ hw hy'
    obtain ⟨w'', hys', hx''⟩ := ih (exec_regular hv hv₀ hw hy') hx' hys (by omega)
    exact ⟨w'', execAll_cons.mpr ⟨w', hy', hys'⟩, hx''⟩

end Swap

end UserOp

/-! ## Calls -/

/-- The operations a call is made of. -/
def EngineCall.ops : EngineCall → List UserOp
  | .depositCollateralAndMintDSC t a m => [.depositCollateral t a, .mintDSC m]
  | .depositCollateral t a => [.depositCollateral t a]
  | .redeemCollateralForDSC t a b => [.burnDSC b, .redeemCollateral t a]
  | .redeemCollateral t a => [.redeemCollateral t a]
  | .mintDSC m => [.mintDSC m]
  | .burnDSC b => [.burnDSC b]
  | .liquidate _ _ _ => []

/-- A call other than a liquidation is made of its operations. -/
theorem EngineCall.exec_eq_ok_ops {c : EngineCall} (hc : ∀ t x d, c ≠ .liquidate t x d) :
    c.exec D u w = .ok w' ↔ UserOp.execAll D u c.ops w = .ok w' := by
  cases c with
  | depositCollateralAndMintDSC t a m =>
    simp only [ops, UserOp.execAll_cons, UserOp.execAll_nil, exists_eq_right]
    exact depositCollateralAndMintDSC_eq_ok
  | redeemCollateralForDSC t a b =>
    simp only [ops, UserOp.execAll_cons, UserOp.execAll_nil, exists_eq_right]
    rw [EngineCall.exec, redeemCollateralForDSC_eq_ok]
    constructor
    · rintro ⟨-, -, h⟩
      exact h
    · rintro ⟨w₁, hburn, hredeem⟩
      obtain ⟨ha, -, ht, -⟩ := redeemCollateral_iff_internal.mp hredeem
      obtain ⟨-, -, hinternal, -⟩ := burnDSC_iff_internal.mp hburn
      obtain ⟨-, -, -, -, -, rfl⟩ := burnDSC_internal_eq_ok.mp hinternal
      exact ⟨ha, ht, _, hburn, hredeem⟩
  | liquidate t x d => exact absurd rfl (hc t x d)
  | _ =>
    simp only [ops, UserOp.execAll_cons, UserOp.execAll_nil, exists_eq_right]
    exact Iff.rfl

/-- No call both issues and retires coins. -/
theorem EngineCall.one_way (c : EngineCall) :
    UserOp.issuedAll c.ops = 0 ∨ UserOp.retiredAll c.ops = 0 := by
  cases c <;> simp [ops, UserOp.issuedAll, UserOp.retiredAll, UserOp.hub, HubOp.issued,
    HubOp.retired]

/-- The coins a call mints. -/
def EngineCall.minted : EngineCall → ℕ
  | .depositCollateralAndMintDSC _ _ m => m
  | .mintDSC m => m
  | _ => 0

theorem EngineCall.issuedAll_ops (c : EngineCall) : UserOp.issuedAll c.ops = c.minted := by
  cases c <;> simp [ops, minted, UserOp.issuedAll, UserOp.hub, HubOp.issued]

/-- **Calls of different users commute.** In a reachable state let `A` by `u` and then `B` by `v`
go through, both of them calls other than `liquidate`, and let the supply have room for what `B`
mints when it comes first. Then `B` and after it `A` go through, and the state is the same. -/
theorem calls_commute {A B : EngineCall} (hreach : Reachable D w)
    (hstd : ∀ t, w.s_priceFeeds t ≠ 0 → (D.erc20 t).Standard) (huv : u ≠ v)
    (hu : u ≠ D.engine) (hu₀ : u ≠ 0) (hv : v ≠ D.engine) (hv₀ : v ≠ 0)
    (hA : ∀ t x d, A ≠ .liquidate t x d) (hB : ∀ t x d, B ≠ .liquidate t x d)
    (hfirst : A.exec D u w = .ok w₁) (hsecond : B.exec D v w₁ = .ok w₂)
    (hroom : (w.ledgers D.i_DSC).totalSupply + B.minted < uint256Size) :
    ∃ w', B.exec D v w = .ok w' ∧ A.exec D u w' = .ok w₂ := by
  rw [EngineCall.exec_eq_ok_ops hA] at hfirst
  rw [EngineCall.exec_eq_ok_ops hB] at hsecond
  rw [← B.issuedAll_ops] at hroom
  obtain ⟨w', hB', hA'⟩ := UserOp.swap_all hu hu₀ hv hv₀ ⟨hreach.invariant, hstd⟩ huv hfirst hsecond
    A.one_way hroom
  exact ⟨w', (EngineCall.exec_eq_ok_ops hB).mpr hB', (EngineCall.exec_eq_ok_ops hA).mpr hA'⟩

/-- Account `10` hands forty units to account `11`, which approves the engine. -/
def sharedRun : List Action :=
  [.call 10 (.token 3 (.transfer 11 40)), .call 11 (.token 3 (.approve 1 40))]

/-- What that leaves. -/
def sharedWorld : World := run (step sampleDeployment) sampleWorld sharedRun

theorem sharedWorld_reachable : Reachable sampleDeployment sharedWorld := by
  refine ⟨[3], [4], sampleWorld, sharedRun, sampleWorld_deployed, ?_, rfl⟩
  exact ⟨⟨by decide, by decide⟩, ⟨by decide, by decide⟩, trivial⟩

/-- Account `10` deposits and mints first. -/
def sharedFirst : World :=
  step sampleDeployment sharedWorld (.call 10 (.engine (.depositCollateralAndMintDSC 3 60 50)))

theorem calls_commute_shared :
    ∃ w', EngineCall.exec sampleDeployment 11 (.depositCollateralAndMintDSC 3 40 30) sharedWorld
        = .ok w' ∧
      EngineCall.exec sampleDeployment 10 (.depositCollateralAndMintDSC 3 60 50) w'
        = .ok (step sampleDeployment sharedFirst
          (.call 11 (.engine (.depositCollateralAndMintDSC 3 40 30)))) := by
  have hfirst : Succeeds (EngineCall.exec sampleDeployment 10 (.depositCollateralAndMintDSC 3 60 50)
      sharedWorld) := by decide
  have hsecond : Succeeds (EngineCall.exec sampleDeployment 11
      (.depositCollateralAndMintDSC 3 40 30) sharedFirst) := by decide
  exact calls_commute sharedWorld_reachable (fun t _ => sampleDeployment_standard t) (by decide)
    (by decide) (by decide) (by decide) (by decide) nofun nofun (hfirst.eq_ok_settle sharedWorld)
    (hsecond.eq_ok_settle sharedFirst) (by decide)

end Stablecoin

end UpdraftContracts

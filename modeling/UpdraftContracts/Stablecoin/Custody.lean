import UpdraftContracts.Stablecoin.System

/-!
# Three ledgers that agree

The engine keeps what every user deposited and owes; the tokens keep what the engine holds and how
many coins exist. Two quantities compare them.

* `surplus D w t` — what the engine holds of `t` beyond what its users deposited
* `gap D w` — what users owe beyond the coins that exist

No engine call changes either. A direct transfer to the engine raises the surplus, and `burnFrom`
raises the gap; nothing else touches them. Both are therefore known exactly along every run.

## Main results

* `surplus_step`, `gap_step` — the change in one step
* `surplus_run`, `gap_run` — the change along a run
* `Reachable.invariant` — what holds in every reachable state
-/

namespace UpdraftContracts

open Evm Relation

namespace Stablecoin

variable {D : Deployment} {w w' : World} {sender : Address}

/-! ## Sums over all users -/

theorem World.sum_deposited_setDeposited (w : World) (u t : Address) (n : ℕ) :
    ∑ v, (w.setDeposited u t n).s_collateralDeposited v t + w.s_collateralDeposited u t
      = ∑ v, w.s_collateralDeposited v t + n := by
  have hcol : ∀ v, (w.setDeposited u t n).s_collateralDeposited v t
      = Function.update (fun v => w.s_collateralDeposited v t) u n v := by
    intro v
    rw [World.deposited_setDeposited, Function.update_apply]
    simp
  rw [Finset.sum_congr rfl fun v _ => hcol v]
  exact Ledger.sum_update_add (fun v => w.s_collateralDeposited v t) u n

theorem World.sum_deposited_setDeposited_of_ne {u t t' : Address} (h : t' ≠ t) (n : ℕ) :
    ∑ v, (w.setDeposited u t n).s_collateralDeposited v t'
      = ∑ v, w.s_collateralDeposited v t' := by
  refine Finset.sum_congr rfl fun v _ => ?_
  rw [World.deposited_setDeposited, if_neg fun hc => h hc.2]

theorem World.sum_minted_setMinted (w : World) (u : Address) (n : ℕ) :
    ∑ v, (w.setMinted u n).s_DSCMinted v + w.s_DSCMinted u = ∑ v, w.s_DSCMinted v + n := by
  rw [← Ledger.sum_update_add w.s_DSCMinted u n]
  rfl

/-! ## The two quantities -/

/-- What the engine holds of `t` beyond the recorded deposits. -/
def surplus (D : Deployment) (w : World) (t : Address) : ℤ :=
  (w.ledgers t).balance D.engine - ∑ u, w.s_collateralDeposited u t

/-- What users owe beyond the coins in existence. -/
def gap (D : Deployment) (w : World) : ℤ :=
  ∑ u, w.s_DSCMinted u - (w.ledgers D.i_DSC).totalSupply

/-- The engine owns the coin, is not locked between calls, lets nobody spend what it holds of an
exact token, and took deposits in allowed tokens only. -/
structure Sane (D : Deployment) (w : World) : Prop where
  owner : w.owner = D.engine
  unlocked : w.entered = false
  no_allowance : ∀ t, (D.erc20 t).Exact → ∀ s, (w.ledgers t).allowance D.engine s = 0
  allowed : ∀ u t, w.s_collateralDeposited u t ≠ 0 → w.s_priceFeeds t ≠ 0

/-! ## Moves -/

theorem Sane.setLedger {t : Address} {L : Ledger Address} (h : Sane D w)
    (hL : (D.erc20 t).Exact → ∀ s, L.allowance D.engine s = 0) : Sane D (w.setLedger t L) := by
  refine ⟨h.owner, h.unlocked, fun t' ht' s => ?_, h.allowed⟩
  rw [World.ledgers_setLedger]
  split
  · next heq => exact hL (heq ▸ ht') s
  · exact h.no_allowance t' ht' s

theorem Sane.setDeposited {u t : Address} {n : ℕ} (h : Sane D w)
    (hn : n ≠ 0 → w.s_priceFeeds t ≠ 0) : Sane D (w.setDeposited u t n) := by
  refine ⟨h.owner, h.unlocked, h.no_allowance, fun u' t' => ?_⟩
  rw [World.deposited_setDeposited]
  split
  · next heq => rw [heq.2]; exact hn
  · exact h.allowed u' t'

theorem Sane.setMinted {u : Address} {n : ℕ} (h : Sane D w) : Sane D (w.setMinted u n) :=
  ⟨h.owner, h.unlocked, h.no_allowance, h.allowed⟩

/-- A move of the engine keeps what is always true of it. -/
theorem Move.sane (h : Move D w w') (hw : Sane D w) : Sane D w' := by
  cases h with
  | pull hu ht hL =>
    refine (hw.setDeposited fun _ => ht).setLedger fun hexact s => ?_
    obtain ⟨-, -, k, -, rfl⟩ := hexact.transferFrom_true hL
    rw [Ledger.allowance_move, Ledger.allowance_approve_of_ne hu.symm]
    exact hw.no_allowance _ hexact s
  | @push src dst t a L hdst ha hL =>
    refine (hw.setDeposited fun hn => hw.allowed src t (by omega)).setLedger fun hexact s => ?_
    obtain ⟨-, rfl⟩ := hexact.transfer_true hL
    rw [Ledger.allowance_move]
    exact hw.no_allowance _ hexact s
  | issue hu hm =>
    refine hw.setMinted.setLedger fun hexact s => ?_
    rw [Ledger.allowance_mint]
    exact hw.no_allowance _ hexact s
  | retire hsrc hb hbal =>
    refine hw.setMinted.setLedger fun hexact s => ?_
    rw [Ledger.allowance_burn, Ledger.allowance_spend_of_ne hsrc.symm]
    exact hw.no_allowance _ hexact s

/-- Deposits and holdings in one token do not count for another. -/
theorem surplus_setDeposited_of_ne {t t' u : Address} {a : ℕ} {L : Ledger Address} (ht : t ≠ t') :
    surplus D ((w.setDeposited u t' a).setLedger t' L) t = surplus D w t := by
  simp only [Stablecoin.surplus, World.deposited_setLedger]
  rw [World.ledgers_setLedger, if_neg ht, World.sum_deposited_setDeposited_of_ne ht]
  rfl

/-- Nor does debt count for any of them, as long as the engine's own coins stay as they are. -/
theorem surplus_setMinted {t u : Address} {m : ℕ} {L : Ledger Address}
    (hL : L.balance D.engine = (w.ledgers D.i_DSC).balance D.engine) :
    surplus D ((w.setMinted u m).setLedger D.i_DSC L) t = surplus D w t := by
  simp only [Stablecoin.surplus, World.deposited_setLedger, World.deposited_setMinted,
    World.ledgers_setLedger, World.ledgers_setMinted]
  split
  · next ht => rw [hL, ht]
  · rfl

/-- A move shifts deposits and holdings of the engine by the same amount. -/
theorem Move.surplus (h : Move D w w') {t : Address} (hexact : (D.erc20 t).Exact) :
    surplus D w' t = surplus D w t := by
  cases h with
  | @pull u t' a L hu ht' hL =>
    rcases eq_or_ne t t' with rfl | ht
    · obtain ⟨hbal, -, k, -, rfl⟩ := hexact.transferFrom_true hL
      have hsum := w.sum_deposited_setDeposited u t (w.s_collateralDeposited u t + a)
      simp only [Stablecoin.surplus, World.ledgers_setLedger_self, World.deposited_setLedger]
      rw [Ledger.balance_move (by exact hbal), if_neg hu.symm, if_pos rfl, Ledger.balance_approve]
      omega
    · exact surplus_setDeposited_of_ne ht
  | @push src dst t' a L hdst ha hL =>
    rcases eq_or_ne t t' with rfl | ht
    · obtain ⟨hbal, rfl⟩ := hexact.transfer_true hL
      have hsum := w.sum_deposited_setDeposited src t (w.s_collateralDeposited src t - a)
      simp only [Stablecoin.surplus, World.ledgers_setLedger_self, World.deposited_setLedger]
      rw [Ledger.balance_move hbal, if_pos rfl, if_neg hdst.symm]
      omega
    · exact surplus_setDeposited_of_ne ht
  | @issue u m hu hm =>
    refine surplus_setMinted ?_
    rw [Ledger.balance_mint hm, if_neg hu.symm, Nat.add_zero]
  | @retire u src b hsrc hb hbal =>
    refine surplus_setMinted ?_
    rw [Ledger.balance_burn (by rwa [Ledger.balance_spend]), if_neg hsrc.symm, Nat.sub_zero,
      Ledger.balance_spend]

/-- Deposits count neither for debt nor for supply. -/
theorem gap_setDeposited {t u : Address} {a : ℕ} {L : Ledger Address}
    (hL : t = D.i_DSC → L.totalSupply = (w.ledgers D.i_DSC).totalSupply) :
    gap D ((w.setDeposited u t a).setLedger t L) = gap D w := by
  simp only [Stablecoin.gap, World.minted_setLedger, World.minted_setDeposited,
    World.ledgers_setLedger, World.ledgers_setDeposited]
  split
  · next ht => rw [hL ht.symm]
  · rfl

/-- A move shifts debt and supply by the same amount. -/
theorem Move.gap (h : Move D w w') : gap D w' = gap D w := by
  cases h with
  | @pull u t a L hu ht' hL =>
    refine gap_setDeposited ?_
    rintro rfl
    obtain ⟨-, -, k, -, rfl⟩ := D.erc20_dsc_exact.transferFrom_true hL
    rw [Ledger.totalSupply_move, Ledger.totalSupply_approve]
  | @push src dst t a L hdst ha hL =>
    refine gap_setDeposited ?_
    rintro rfl
    obtain ⟨-, rfl⟩ := D.erc20_dsc_exact.transfer_true hL
    rw [Ledger.totalSupply_move]
  | @issue u m hu hm =>
    have hsum := w.sum_minted_setMinted u (w.s_DSCMinted u + m)
    simp only [Stablecoin.gap, World.minted_setLedger, World.ledgers_setLedger_self]
    rw [Ledger.totalSupply_mint hm]
    omega
  | @retire u src b hsrc hb hbal =>
    have hsum := w.sum_minted_setMinted u (w.s_DSCMinted u - b)
    have hsupply := (w.ledgers D.i_DSC).balance_le src
    simp only [Stablecoin.gap, World.minted_setLedger, World.ledgers_setLedger_self]
    rw [Ledger.totalSupply_burn (by rwa [Ledger.balance_spend]), Ledger.totalSupply_spend]
    omega

theorem moves_sane (h : ReflTransGen (Move D) w w') (hw : Sane D w) : Sane D w' := by
  induction h with
  | refl => exact hw
  | tail _ hm ih => exact hm.sane ih

theorem moves_surplus (h : ReflTransGen (Move D) w w') {t : Address}
    (hexact : (D.erc20 t).Exact) : surplus D w' t = surplus D w t := by
  induction h with
  | refl => rfl
  | tail _ hm ih => rw [hm.surplus hexact, ih]

theorem moves_gap (h : ReflTransGen (Move D) w w') : gap D w' = gap D w := by
  induction h with
  | refl => rfl
  | tail _ hm ih => rw [hm.gap, ih]

/-! ## Calls to the tokens

A call from outside can add to what the engine holds of an exact token but not take from it, since
the engine has approved nobody. -/

/-- What the engine receives through a direct call to the token `t`. -/
def TokenCall.receipt (D : Deployment) (sender t : Address) (w : World) : TokenCall → ℕ
  | .transfer dst v =>
    match (D.erc20 t).transfer (w.ledgers t) sender dst v with
    | some (true, _) => if dst = D.engine then v else 0
    | _ => 0
  | .approve _ _ => 0
  | .transferFrom src dst v =>
    match (D.erc20 t).transferFrom (w.ledgers t) sender src dst v with
    | some (true, _) => if dst = D.engine then v else 0
    | _ => 0

theorem TokenCall.receipt_transfer {t dst : Address} {v : ℕ} {b : Bool} {L : Ledger Address}
    (h : (D.erc20 t).transfer (w.ledgers t) sender dst v = some (b, L)) :
    (TokenCall.transfer dst v).receipt D sender t w
      = if b = true ∧ dst = D.engine then v else 0 := by
  cases b <;> simp [TokenCall.receipt, h]

theorem TokenCall.receipt_transferFrom {t src dst : Address} {v : ℕ} {b : Bool}
    {L : Ledger Address}
    (h : (D.erc20 t).transferFrom (w.ledgers t) sender src dst v = some (b, L)) :
    (TokenCall.transferFrom src dst v).receipt D sender t w
      = if b = true ∧ dst = D.engine then v else 0 := by
  cases b <;> simp [TokenCall.receipt, h]

/-- What others do with a token gives nothing of the engine away. -/
theorem TokenCall.exec_outside {c : TokenCall} {t : Address} (hs : sender ≠ D.engine)
    (hw : Sane D w) (h : c.exec D sender t w = .ok w') :
    ∃ L, w' = w.setLedger t L ∧ ((D.erc20 t).Exact → (∀ s, L.allowance D.engine s = 0) ∧
      L.totalSupply = (w.ledgers t).totalSupply ∧
      L.balance D.engine = (w.ledgers t).balance D.engine + c.receipt D sender t w) := by
  cases c with
  | transfer dst v =>
    simp only [TokenCall.exec, bind_eq_ok, pure_eq_ok, Prod.exists,
      DSCEngine.ierc20Transfer_eq_ok] at h
    obtain ⟨b, -, ⟨L, hL, rfl⟩, rfl⟩ := h
    refine ⟨L, rfl, fun hexact => ?_⟩
    rw [TokenCall.receipt_transfer hL]
    exact hexact.transfer_closed (hw.no_allowance t hexact) hs hL
  | approve spender v =>
    simp only [TokenCall.exec, bind_eq_ok, pure_eq_ok, Prod.exists,
      DSCEngine.ierc20Approve_eq_ok] at h
    obtain ⟨b, -, ⟨L, hL, rfl⟩, rfl⟩ := h
    refine ⟨L, rfl, fun hexact => ?_⟩
    exact hexact.approve_closed (hw.no_allowance t hexact) hs hL
  | transferFrom src dst v =>
    simp only [TokenCall.exec, bind_eq_ok, pure_eq_ok, Prod.exists,
      DSCEngine.ierc20TransferFrom_eq_ok] at h
    obtain ⟨b, -, ⟨L, hL, rfl⟩, rfl⟩ := h
    refine ⟨L, rfl, fun hexact => ?_⟩
    rw [TokenCall.receipt_transferFrom hL]
    exact hexact.transferFrom_closed (hw.no_allowance t hexact) hs hL

/-- The coins a call takes out of existence without reducing any debt. -/
def CoinCall.burned (D : Deployment) (sender : Address) (w : World) : CoinCall → ℕ
  | .burnFrom account v =>
    match DecentralizedStableCoin.burnFrom D sender account v w with
    | .ok _ => v
    | .error _ => 0
  | _ => 0

/-- Only `burnFrom` is open to callers other than the owner. -/
theorem CoinCall.exec_outside {c : CoinCall} (hs : sender ≠ D.engine) (hw : Sane D w)
    (h : c.exec D sender w = .ok w') :
    ∃ L, w' = w.setLedger D.i_DSC L ∧ (∀ s, L.allowance D.engine s = 0) ∧
      L.totalSupply + c.burned D sender w = (w.ledgers D.i_DSC).totalSupply ∧
      L.balance D.engine = (w.ledgers D.i_DSC).balance D.engine := by
  have howner : sender ≠ w.owner := fun heq => hs (heq.trans hw.owner)
  cases c with
  | mint dst a =>
    simp only [CoinCall.exec, bind_eq_ok, Prod.exists, DSCEngine.mint_eq_ok] at h
    obtain ⟨-, -, ⟨-, ho, -⟩, -⟩ := h
    exact absurd ho howner
  | burn a => exact absurd (DSCEngine.burn_eq_ok.mp h).1 howner
  | burnFrom account v =>
    have hburned : (CoinCall.burnFrom account v).burned D sender w = v := by
      rw [CoinCall.exec] at h
      simp [CoinCall.burned, h]
    obtain ⟨-, hallow, hbal, rfl⟩ := DSCEngine.burnFrom_cases h
    refine ⟨_, rfl, ?_⟩
    rw [hburned]
    exact Ledger.burn_spend_closed (hw.no_allowance _ D.erc20_dsc_exact) hallow hbal
  | transferOwnership o =>
    obtain ⟨_, ho, -⟩ := bind_eq_ok.mp h
    exact absurd (DSCEngine.onlyOwner_eq_ok.mp ho) howner
  | renounceOwnership =>
    obtain ⟨_, ho, -⟩ := bind_eq_ok.mp h
    exact absurd (DSCEngine.onlyOwner_eq_ok.mp ho) howner

/-! ## Steps and runs -/

/-- What the engine receives of `t` outside `depositCollateral` in one step. -/
def directReceipt (D : Deployment) (t : Address) (w : World) : Action → ℕ
  | .call sender (.token t' c) => if t' = t then c.receipt D sender t' w else 0
  | _ => 0

/-- What `burnFrom` takes out of existence in one step. -/
def burnedOutside (D : Deployment) (w : World) : Action → ℕ
  | .call sender (.coin c) => c.burned D sender w
  | _ => 0

theorem TokenCall.receipt_of_error {c : TokenCall} {t : Address} {e : Revert Error}
    (h : c.exec D sender t w = .error e) : c.receipt D sender t w = 0 := by
  cases c with
  | transfer dst v =>
    rw [TokenCall.receipt]
    split
    · next L hL => simp [TokenCall.exec, ierc20Transfer, hL, ofCallee, bind, Except.bind, pure,
        Except.pure] at h
    · rfl
  | approve spender v => rfl
  | transferFrom src dst v =>
    rw [TokenCall.receipt]
    split
    · next L hL => simp [TokenCall.exec, ierc20TransferFrom, hL, ofCallee, bind, Except.bind, pure,
        Except.pure] at h
    · rfl

theorem CoinCall.burned_of_error {c : CoinCall} {e : Revert Error}
    (h : c.exec D sender w = .error e) : c.burned D sender w = 0 := by
  cases c with
  | burnFrom account v =>
    rw [CoinCall.exec] at h
    rw [CoinCall.burned, h]
  | _ => rfl

theorem sane_step {a : Action} (ha : a.FromOutside D) (hw : Sane D w) : Sane D (step D w a) := by
  cases a with
  | elapse n => exact ⟨hw.owner, hw.unlocked, hw.no_allowance, hw.allowed⟩
  | report f r => exact ⟨hw.owner, hw.unlocked, hw.no_allowance, hw.allowed⟩
  | call sender c =>
    refine settle_induction hw fun w' h => ?_
    cases c with
    | engine c => exact moves_sane (EngineCall.moves ha.1 h) hw
    | coin c =>
      obtain ⟨L, rfl, hL, -⟩ := CoinCall.exec_outside ha.1 hw h
      exact hw.setLedger fun _ => hL
    | token t c =>
      obtain ⟨L, rfl, hL⟩ := TokenCall.exec_outside ha.1 hw h
      exact hw.setLedger fun hexact => (hL hexact).1

/-- **Custody, one step.** -/
theorem surplus_step {a : Action} (ha : a.FromOutside D) (hw : Sane D w) {t : Address}
    (hexact : (D.erc20 t).Exact) :
    surplus D (step D w a) t = surplus D w t + directReceipt D t w a := by
  cases a with
  | elapse n => simp [step, surplus, directReceipt]
  | report f r => simp [step, surplus, directReceipt]
  | call sender c =>
    cases hx : c.exec D sender w with
    | error e =>
      have hzero : directReceipt D t w (.call sender c) = 0 := by
        cases c with
        | engine c => rfl
        | coin c => rfl
        | token t' c =>
          rw [directReceipt]
          split
          · exact TokenCall.receipt_of_error hx
          · rfl
      simp [step, hx, hzero]
    | ok w' =>
      rw [step, hx, settle_ok]
      cases c with
      | engine c =>
        rw [moves_surplus (EngineCall.moves ha.1 hx) hexact]
        simp [directReceipt]
      | coin c =>
        obtain ⟨L, rfl, -, -, hbal⟩ := CoinCall.exec_outside ha.1 hw hx
        simp only [surplus, directReceipt, World.deposited_setLedger, World.ledgers_setLedger]
        split
        · next ht => rw [hbal, ht]; simp
        · simp
      | token t' c =>
        obtain ⟨L, rfl, hL⟩ := TokenCall.exec_outside ha.1 hw hx
        simp only [surplus, directReceipt, World.deposited_setLedger, World.ledgers_setLedger]
        rcases eq_or_ne t t' with rfl | ht
        · rw [if_pos rfl, if_pos rfl, (hL hexact).2.2]
          rw [Nat.cast_add]
          ring
        · rw [if_neg ht, if_neg ht.symm]
          simp

/-- **Debt and supply, one step.** -/
theorem gap_step {a : Action} (ha : a.FromOutside D) (hw : Sane D w) :
    gap D (step D w a) = gap D w + burnedOutside D w a := by
  cases a with
  | elapse n => simp [step, gap, burnedOutside]
  | report f r => simp [step, gap, burnedOutside]
  | call sender c =>
    cases hx : c.exec D sender w with
    | error e =>
      have hzero : burnedOutside D w (.call sender c) = 0 := by
        cases c with
        | engine c => rfl
        | coin c => exact CoinCall.burned_of_error hx
        | token t' c => rfl
      simp [step, hx, hzero]
    | ok w' =>
      rw [step, hx, settle_ok]
      cases c with
      | engine c =>
        rw [moves_gap (EngineCall.moves ha.1 hx)]
        simp [burnedOutside]
      | coin c =>
        obtain ⟨L, rfl, -, hsupply, -⟩ := CoinCall.exec_outside ha.1 hw hx
        simp only [gap, burnedOutside, World.minted_setLedger, World.ledgers_setLedger_self]
        omega
      | token t' c =>
        obtain ⟨L, rfl, hL⟩ := TokenCall.exec_outside ha.1 hw hx
        simp only [gap, burnedOutside, World.minted_setLedger, World.ledgers_setLedger]
        split
        · next ht =>
          subst ht
          rw [(hL D.erc20_dsc_exact).2.1]
          simp
        · simp

/-- Feeds and collateral list never change after construction. -/
theorem Move.config (h : Move D w w') :
    w'.s_priceFeeds = w.s_priceFeeds ∧ w'.s_collateralTokens = w.s_collateralTokens := by
  cases h <;> exact ⟨rfl, rfl⟩

theorem moves_config (h : ReflTransGen (Move D) w w') :
    w'.s_priceFeeds = w.s_priceFeeds ∧ w'.s_collateralTokens = w.s_collateralTokens := by
  induction h with
  | refl => exact ⟨rfl, rfl⟩
  | tail _ hm ih => exact ⟨hm.config.1.trans ih.1, hm.config.2.trans ih.2⟩

/-- Tokens and feeds are fixed by the constructor. -/
theorem config_step {a : Action} (ha : a.FromOutside D) (hw : Sane D w) :
    (step D w a).s_priceFeeds = w.s_priceFeeds ∧
      (step D w a).s_collateralTokens = w.s_collateralTokens := by
  cases a with
  | elapse n => exact ⟨rfl, rfl⟩
  | report f r => exact ⟨rfl, rfl⟩
  | call sender c =>
    refine settle_induction (P := fun w' : World => w'.s_priceFeeds = w.s_priceFeeds ∧
      w'.s_collateralTokens = w.s_collateralTokens) ⟨rfl, rfl⟩ fun w' h => ?_
    cases c with
    | engine c => exact moves_config (EngineCall.moves ha.1 h)
    | coin c =>
      obtain ⟨L, rfl, -⟩ := CoinCall.exec_outside ha.1 hw h
      exact ⟨rfl, rfl⟩
    | token t c =>
      obtain ⟨L, rfl, -⟩ := TokenCall.exec_outside ha.1 hw h
      exact ⟨rfl, rfl⟩

theorem config_run {as : List Action} (h : Along (step D) (fun _ a => a.FromOutside D) w as)
    (hw : Sane D w) :
    (run (step D) w as).s_priceFeeds = w.s_priceFeeds ∧
      (run (step D) w as).s_collateralTokens = w.s_collateralTokens := by
  have hrun := run_invariant (P := fun w' : World => Sane D w' ∧
    w'.s_priceFeeds = w.s_priceFeeds ∧ w'.s_collateralTokens = w.s_collateralTokens)
    (fun w' a ha hw' => ?_) h ⟨hw, rfl, rfl⟩
  · exact hrun.2
  · obtain ⟨hsane, hfeeds, htokens⟩ := hw'
    obtain ⟨hfeeds', htokens'⟩ := config_step ha hsane
    exact ⟨sane_step ha hsane, hfeeds'.trans hfeeds, htokens'.trans htokens⟩

/-- **Custody along a run.** -/
theorem surplus_run {as : List Action} (h : Along (step D) (fun _ a => a.FromOutside D) w as)
    (hw : Sane D w) {t : Address} (hexact : (D.erc20 t).Exact) :
    surplus D (run (step D) w as) t = surplus D w t + tally (step D) (directReceipt D t) w as :=
  run_tally (m := fun w => surplus D w t) (fun _ _ ha hw => sane_step ha hw)
    (fun _ _ ha hw => surplus_step ha hw hexact) h hw

/-- **Debt and supply along a run.** -/
theorem gap_run {as : List Action} (h : Along (step D) (fun _ a => a.FromOutside D) w as)
    (hw : Sane D w) :
    gap D (run (step D) w as) = gap D w + tally (step D) (burnedOutside D) w as :=
  run_tally (fun _ _ ha hw => sane_step ha hw) (fun _ _ ha hw => gap_step ha hw) h hw

/-! ## Deployment -/

theorem constructor_eq_ok {tokens feeds : List Address} :
    DSCEngine.constructor tokens feeds w = .ok w' ↔
      tokens.length = feeds.length ∧
        w' = DSCEngine.registerTokens (tokens.zip feeds) w := by
  simp only [DSCEngine.constructor, bind_eq_ok, revertIf_eq_ok, pure_eq_ok, not_not, exists_const]

theorem registerTokens_eq (ps : List (Address × Address)) (w : World) :
    ∃ feeds, DSCEngine.registerTokens ps w
        = { w with
            s_priceFeeds := feeds
            s_collateralTokens := w.s_collateralTokens ++ ps.map Prod.fst } ∧
      ∀ t, feeds t ≠ 0 → w.s_priceFeeds t ≠ 0 ∨ t ∈ ps.map Prod.fst := by
  induction ps generalizing w with
  | nil => exact ⟨w.s_priceFeeds, by simp [DSCEngine.registerTokens], fun t ht => Or.inl ht⟩
  | cons p ps ih =>
    obtain ⟨token, feed⟩ := p
    obtain ⟨feeds, heq, hfeeds⟩ := ih
      { w with
        s_priceFeeds := Function.update w.s_priceFeeds token feed
        s_collateralTokens := w.s_collateralTokens ++ [token] }
    refine ⟨feeds, by rw [DSCEngine.registerTokens, heq]; simp, fun t ht => ?_⟩
    rcases hfeeds t ht with h | h
    · rcases eq_or_ne t token with rfl | hne
      · exact Or.inr (by simp)
      · exact Or.inl (by simpa [Function.update_of_ne hne] using h)
    · exact Or.inr (by simp [h])

/-- What the constructor leaves behind. -/
theorem Deployed.inv {tokens feeds : List Address} (h : Deployed D tokens feeds w) :
    Sane D w ∧ gap D w = 0 ∧ (∀ t, surplus D w t = (w.ledgers t).balance D.engine) ∧
      w.s_collateralTokens = tokens ∧ (∀ t, w.s_priceFeeds t ≠ 0 → t ∈ tokens) ∧
      w.s_DSCMinted = fun _ => 0 := by
  obtain ⟨w₀, hgen, hcons⟩ := h
  obtain ⟨hlen, hw⟩ := constructor_eq_ok.mp hcons
  obtain ⟨fs, heq, hfs⟩ := registerTokens_eq (tokens.zip feeds) w₀
  rw [heq] at hw
  subst hw
  have hfst : (tokens.zip feeds).map Prod.fst = tokens := by
    rw [List.map_fst_zip]
    omega
  refine ⟨⟨hgen.owner, hgen.unlocked, hgen.no_allowance, ?_⟩, ?_, ?_, ?_, ?_, hgen.no_debts⟩
  · intro u t hne
    simp [hgen.no_deposits] at hne
  · simp [gap, hgen.no_debts, hgen.coin, Ledger.empty]
  · intro t
    simp [surplus, hgen.no_deposits]
  · simp [hgen.no_tokens, hfst]
  · intro t ht
    rcases hfs t ht with h | h
    · exact absurd (congrFun hgen.no_feeds t) h
    · rwa [hfst] at h

/-- What holds between calls in every run. -/
structure Invariant (D : Deployment) (w : World) : Prop extends Sane D w where
  custody : ∀ t, (D.erc20 t).Exact → 0 ≤ surplus D w t
  covered : 0 ≤ gap D w
  listed : ∀ t, w.s_priceFeeds t ≠ 0 → t ∈ w.s_collateralTokens

theorem Deployed.invariant {tokens feeds : List Address} (h : Deployed D tokens feeds w) :
    Invariant D w := by
  obtain ⟨hsane, hgap, hsurplus, htokens, hlisted, -⟩ := h.inv
  refine ⟨hsane, fun t _ => ?_, hgap.ge, fun t ht => ?_⟩
  · rw [hsurplus]
    exact Int.natCast_nonneg _
  · rw [htokens]
    exact hlisted t ht

/-- Every step keeps the invariant. -/
theorem invariant_step {a : Action} (ha : a.FromOutside D) (hw : Invariant D w) :
    Invariant D (step D w a) := by
  refine ⟨sane_step ha hw.toSane, fun t hexact => ?_, ?_, fun t ht => ?_⟩
  · rw [surplus_step ha hw.toSane hexact]
    have := hw.custody t hexact
    omega
  · rw [gap_step ha hw.toSane]
    have := hw.covered
    omega
  · rw [(config_step ha hw.toSane).1] at ht
    rw [(config_step ha hw.toSane).2]
    exact hw.listed t ht

/-- **The invariant of the system.** -/
theorem Reachable.invariant (h : Reachable D w) : Invariant D w := by
  obtain ⟨tokens, feeds, w₀, as, hdep, halong, rfl⟩ := h
  exact run_invariant (fun _ _ ha hw => invariant_step ha hw) halong hdep.invariant

/-- A move keeps the invariant too, so it holds between the parts of a combined call. -/
theorem Move.invariant (h : Move D w w') (hw : Invariant D w) : Invariant D w' := by
  refine ⟨h.sane hw.toSane, fun t hexact => ?_, ?_, fun t ht => ?_⟩
  · rw [h.surplus hexact]
    exact hw.custody t hexact
  · rw [h.gap]
    exact hw.covered
  · rw [h.config.1] at ht
    rw [h.config.2]
    exact hw.listed t ht

/-- The engine has all that was deposited. -/
theorem Invariant.sum_deposited_le (hw : Invariant D w) {t : Address}
    (hexact : (D.erc20 t).Exact) :
    ∑ u, w.s_collateralDeposited u t ≤ (w.ledgers t).balance D.engine := by
  have := hw.custody t hexact
  simp only [surplus] at this
  omega

/-- The engine holds at least what any one user deposited. -/
theorem Invariant.deposited_le (hw : Invariant D w) (u : Address) {t : Address}
    (hexact : (D.erc20 t).Exact) : w.s_collateralDeposited u t ≤ (w.ledgers t).balance D.engine :=
  (Finset.single_le_sum (f := fun v => w.s_collateralDeposited v t)
    (fun _ _ => Nat.zero_le _) (Finset.mem_univ u)).trans (hw.sum_deposited_le hexact)

end Stablecoin

end UpdraftContracts

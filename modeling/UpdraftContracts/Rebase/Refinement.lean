import UpdraftContracts.Rebase.Effects

/-!
# The token refines a plain ledger

Seen through `balanceOf`, the token is an ordinary ledger. Principals, rates and clocks are
rewritten in the middle of every call, but the ledger of balances only sees the amount the call is
about. Between calls time passes, and then every entry of the ledger may grow.

That interest can always be minted needs the ledger itself: its total is a word, and the supply of
principals together with the interest to be minted is no larger.

## Main results

* `Token.canAccrue` — where the balances form a ledger, the interest of every account can be minted
* `refines_plain_ledger` — every call does to the ledger of balances what a plain token would do
-/

namespace UpdraftContracts

open Evm

namespace Rebase

open RebaseToken Token

variable {B : OpenZeppelinErc20 Address} {s s' : Token} {u sender src dst : Address}
  {L L' : Ledger Address} {a v r : ℕ}

/-- The token shows the ledger `L`. No account is unreadable, but one that has just been credited
with more than `balanceOf` can scale up. -/
structure Refines (s : Token) (L : Ledger Address) (credited : Set Address) : Prop where
  balance : ∀ u, s.balance u = L.balance u
  balanceOf : ∀ u, (u ∈ credited → L.balance u * PRECISION_FACTOR < uint256Size) →
    RebaseToken.balanceOf u s = .ok (L.balance u)
  allowance : s.ledger.allowance = L.allowance

/-- What an amount stands for in a plain ledger: the largest word means the whole balance. -/
def resolved (L : Ledger Address) (src : Address) (a : ℕ) : ℕ :=
  if a = uint256Max then L.balance src else a

namespace Refines

/-- If nobody has been credited, every account can be read. -/
theorem fits (h : Refines s L ∅) (hs : s.WellFormed) (u : Address) : s.Fits u :=
  ((balanceOf_eq_ok hs).mp (h.balanceOf u fun hu => hu.elim)).1

/-- A credited account is settled, so its balance tells whether it can be read. -/
theorem of_becomes {credited : Set Address} (h : s.Becomes s' L'.balance)
    (hallow : s'.ledger.allowance = L'.allowance)
    (hfits : ∀ u, u ∉ credited → s'.Fits u) (hset : ∀ u ∈ credited, s'.Settled u) :
    Refines s' L' credited := by
  refine ⟨h.balance, fun u hu => (balanceOf_eq_ok h.wellFormed).mpr ⟨?_, (h.balance u).symm⟩,
    hallow⟩
  by_cases hmem : u ∈ credited
  · rw [(hset u hmem).fits_iff, h.balance]
    exact hu hmem
  · exact hfits u hmem

end Refines

/-- Both levels resolve an amount in the same way. -/
theorem resolved_eq (h : ∀ u, s.balance u = L.balance u) : resolved L src a = s.amount src a := by
  rw [resolved, amount, h]

/-! ## Interest can be minted -/

/-- Principals and the interest of one account are part of the balances. -/
theorem Token.totalSupply_add_interest_le (s : Token) (u : Address) :
    s.ledger.totalSupply + s.interest u ≤ ∑ v, s.balance v := by
  rw [← s.ledger.sum_balance, ← Ledger.sum_credit _ u]
  refine Finset.sum_le_sum fun v _ => ?_
  rcases eq_or_ne v u with rfl | hv
  · rw [if_pos rfl, principal_add_interest]
  · rw [if_neg hv, Nat.add_zero]
    exact s.principal_le_balance v

section

variable (hbal : ∀ u, s.balance u = L.balance u)
include hbal

/-- There is room for the interest of one account. -/
theorem totalSupply_add_interest_le_ledger (u : Address) :
    s.ledger.totalSupply + s.interest u ≤ L.totalSupply := by
  rw [← L.sum_balance, ← Finset.sum_congr rfl fun v _ => hbal v]
  exact s.totalSupply_add_interest_le u

/-- **Interest can be minted** wherever the balances form a ledger. -/
theorem Token.canAccrue (hfits : ∀ u, s.Fits u) (hu : u ≠ 0) : s.CanAccrue u :=
  ⟨hu, hfits u, lt_of_le_of_lt (totalSupply_add_interest_le_ledger hbal u) L.totalSupply_lt⟩

/-- Interest can be minted for both accounts of a transfer, one after the other. -/
theorem Token.canPrepare (hfits : ∀ u, s.Fits u) (hsrc : src ≠ 0) (hdst : dst ≠ 0) :
    s.CanPrepare src dst := by
  have h := canAccrue hbal hfits hsrc
  refine ⟨h, canAccrue (L := L) (fun u => ?_) (fun u => fits_accrue h (hfits u)) hdst⟩
  rw [balance_accrue h, hbal]

end

/-! ## The operations -/

section

variable (hs : s.WellFormed) (h : Refines s L ∅)
include hs h

/-- Tokens minted are on top of the interest. -/
theorem mint_refines (hrole : s.hasRole .MINT_AND_BURN_ROLE sender = true) (hdst : dst ≠ 0)
    (hroom : L.totalSupply + a < uint256Size) :
    ∃ s', mint B sender dst a r s = .ok s' ∧ Refines s' (L.mint dst a) {dst} := by
  have hacc := canAccrue h.balance (h.fits hs) hdst
  have hle := totalSupply_add_interest_le_ledger h.balance dst
  have hsupply : (s.accrue dst).ledger.totalSupply = s.ledger.totalSupply + s.interest dst :=
    Ledger.totalSupply_mint hacc.room
  have hroom' : (s.accrue dst).ledger.totalSupply + a < uint256Size := by omega
  have hmint := (mint_eq_ok (B := B) (r := r) hs).mpr ⟨hrole, hacc, hroom', rfl⟩
  refine ⟨_, hmint, Refines.of_becomes (s := s) ?_ ?_ (fun u hu => ?_) fun u hu => ?_⟩
  · refine (mint_becomes hs hmint).congr rfl fun u => ?_
    rw [Ledger.balance_mint hroom, h.balance]
  · simp [setLedger, setRate, accrue, h.allowance]
  · refine ((fits_accrue hacc (h.fits hs u)).setRate settled_accrue).setLedger ?_
    rw [Ledger.balance_mint hroom', if_neg (Set.notMem_singleton_iff.mp hu)]
    exact le_rfl
  · obtain rfl := hu
    exact settled_accrue (s := s)

/-- A burn goes through when the plain ledger has the tokens. -/
theorem burn_refines (hrole : s.hasRole .MINT_AND_BURN_ROLE sender = true) (hsrc : src ≠ 0) :
    (Succeeds (burn B sender src a s) ↔ resolved L src a ≤ L.balance src) ∧
      ∀ s', burn B sender src a s = .ok s' → Refines s' (L.burn src (resolved L src a)) ∅ := by
  rw [resolved_eq h.balance, ← h.balance]
  refine ⟨⟨fun ⟨s', hok⟩ => (burn_becomes hs hok).1, fun hle => ?_⟩, fun s' hok => ?_⟩
  · exact ⟨_, (burn_eq_ok hs).mpr ⟨hrole, canAccrue h.balance (h.fits hs) hsrc, hle, rfl⟩⟩
  · obtain ⟨hle, hbec⟩ := burn_becomes hs hok
    obtain ⟨-, hacc, -, rfl⟩ := (burn_eq_ok hs).mp hok
    have hprincipal : s.amount src a ≤ (s.accrue src).ledger.balance src := by
      rwa [← settled_accrue.balance, balance_accrue hacc]
    refine Refines.of_becomes (s := s) (hbec.congr rfl fun u => ?_) ?_ (fun u _ => ?_)
      fun u hu => hu.elim
    · rw [Ledger.balance_burn (h.balance src ▸ hle), h.balance]
    · simp [setLedger, setLastUpdated, accrue, h.allowance]
    · refine (fits_accrue hacc (h.fits hs u)).setLedger ?_
      rw [Ledger.balance_burn hprincipal]
      exact Nat.sub_le _ _

/-- Moving coins in the prepared state refines moving them in the plain ledger. The allowances are
those of any ledger `K` with the same balances. -/
theorem move_refines {K : Ledger Address} (hprep : s.CanPrepare src dst)
    (hK : K.balance = (s.prepared src dst).ledger.balance) (hL' : L'.balance = L.balance)
    (hallow : K.allowance = L'.allowance) (hle : v ≤ s.balance src) :
    Refines ((s.prepared src dst).setLedger (K.move src dst v)) (L'.move src dst v) {dst} := by
  have hmove : ∀ u, (K.move src dst v).balance u = (s.prepared src dst).ledger.balance u
      - (if u = src then v else 0) + if u = dst then v else 0 := fun u => by
    rw [Ledger.balance_move (hK ▸ hprep.principal hs ▸ hle), hK]
  have hbec := becomes_prepared hs hprep hK hle
  refine Refines.of_becomes (hbec.congr rfl fun u => ?_) ?_ (fun u hu => ?_) fun u hu => ?_
  · rw [Ledger.balance_move (hL' ▸ h.balance src ▸ hle), hL', h.balance]
  · change (K.move src dst v).allowance = _
    rw [Ledger.allowance_move, Ledger.allowance_move, hallow]
  · refine (hprep.fits (h.fits hs u)).setLedger ?_
    rw [hmove, if_neg (Set.notMem_singleton_iff.mp hu)]
    exact Nat.sub_le _ _
  · obtain rfl := hu
    exact CanPrepare.settled.2

/-- A transfer goes through when the plain ledger has the tokens. -/
theorem transfer_refines (hsender : sender ≠ 0) (hdst : dst ≠ 0) :
    (Succeeds (transfer B sender dst a s) ↔ resolved L sender a ≤ L.balance sender) ∧
      ∀ ok s', transfer B sender dst a s = .ok (ok, s') →
        ok = true ∧ Refines s' (L.move sender dst (resolved L sender a)) {dst} := by
  have hprep := canPrepare h.balance (h.fits hs) hsender hdst
  rw [resolved_eq h.balance, ← h.balance]
  refine ⟨⟨fun ⟨⟨ok, s'⟩, hok⟩ => (transfer_becomes hs hok).1, fun hle => ?_⟩,
    fun ok s' hok => ?_⟩
  · have hcall := B.standard.transfer_ok hsender hdst ((hprep.principal hs).symm ▸ hle)
    exact ⟨_, (transfer_eq_ok hs).mpr ⟨hprep, _, hcall, rfl⟩⟩
  · obtain ⟨rfl, -, hle, rfl⟩ := transfer_cases hs hok
    exact ⟨rfl, move_refines hs h hprep rfl rfl (CanPrepare.allowance.trans h.allowance) hle⟩

/-- A transfer by somebody else needs the allowance, too. -/
theorem transferFrom_refines (hsender : sender ≠ 0) (hsrc : src ≠ 0) (hdst : dst ≠ 0) :
    (Succeeds (transferFrom B sender src dst a s) ↔
        resolved L src a ≤ L.balance src ∧ resolved L src a ≤ L.allowance src sender) ∧
      ∀ ok s', transferFrom B sender src dst a s = .ok (ok, s') → ok = true ∧
        Refines s' ((L.spend src sender (resolved L src a)).move src dst (resolved L src a))
          {dst} := by
  have hprep := canPrepare h.balance (h.fits hs) hsrc hdst
  have hallow : (s.prepared src dst).ledger.allowance = L.allowance :=
    CanPrepare.allowance.trans h.allowance
  rw [resolved_eq h.balance, ← h.balance, ← hallow]
  -- a call of the base contract that returned spent the allowance and moved the coins
  have hinv : ∀ {ok L'}, B.transferFrom (s.prepared src dst).ledger sender src dst (s.amount src a)
      = some (ok, L') → ok = true ∧
        s.amount src a ≤ (s.prepared src dst).ledger.allowance src sender ∧
        L' = ((s.prepared src dst).ledger.spend src sender (s.amount src a)).move src dst
          (s.amount src a) := fun hcall => by
    obtain rfl := B.transferFrom_returns hcall
    obtain ⟨hle, -, heq⟩ := B.standard.transferFrom_eq hsender hcall
    exact ⟨rfl, hle, heq⟩
  refine ⟨⟨fun ⟨⟨ok, s'⟩, hok⟩ => ?_, fun ⟨hle, hle'⟩ => ?_⟩, fun ok s' hok => ?_⟩
  · obtain ⟨-, L', hcall, -⟩ := (transferFrom_eq_ok hs).mp hok
    exact ⟨(transferFrom_becomes hs hok).1, (hinv hcall).2.1⟩
  · have hcall := B.standard.transferFrom_ok hsender hsrc hdst hle'
      ((hprep.principal hs).symm ▸ hle)
    exact ⟨_, (transferFrom_eq_ok hs).mpr ⟨hprep, _, hcall, rfl⟩⟩
  · obtain ⟨hle, -⟩ := transferFrom_becomes hs hok
    obtain ⟨-, L', hcall, rfl⟩ := (transferFrom_eq_ok hs).mp hok
    obtain ⟨rfl, -, rfl⟩ := hinv hcall
    refine ⟨rfl, move_refines hs h hprep Ledger.balance_spend Ledger.balance_spend ?_ hle⟩
    funext o p
    rw [Ledger.allowance_spend, Ledger.allowance_spend, hallow]

/-- The rate in force is not part of any balance. -/
theorem setInterestRate_refines (hok : setInterestRate sender r s = .ok s') : Refines s' L ∅ := by
  simp only [setInterestRate, bind_eq_ok, pure_eq_ok] at hok
  obtain ⟨-, -, -, -, rfl⟩ := hok
  have hbec : s.Becomes { s with s_interestRate := r } s.balance :=
    becomes_of_eq hs rfl rfl rfl rfl
  exact Refines.of_becomes (hbec.congr rfl h.balance) h.allowance (fun u _ => h.fits hs u)
    fun u hu => hu.elim

end

/-! ## The abstraction -/

/-- Every balance can be computed, and so can their sum. -/
structure Token.NoOverflow (s : Token) : Prop where
  fits : ∀ u, s.Fits u
  total : ∑ u, s.balance u < uint256Size

/-- The plain ledger whose balances are those of the token. -/
def Token.view (s : Token) (h : s.NoOverflow) : Ledger Address where
  balance := s.balance
  allowance := s.ledger.allowance
  totalSupply := ∑ u, s.balance u
  sum_balance := rfl
  totalSupply_lt := h.total

theorem Token.NoOverflow.refines_view (h : s.NoOverflow) (hs : s.WellFormed) :
    Refines s (s.view h) ∅ :=
  ⟨fun _ => rfl, fun u _ => (balanceOf_eq_ok hs).mpr ⟨h.fits u, rfl⟩, rfl⟩

/-- Time takes nothing away. -/
theorem balanceOf_le_elapse {b b' seconds : ℕ} (hs : s.WellFormed) (h : balanceOf u s = .ok b)
    (h' : balanceOf u (s.elapse seconds) = .ok b') : b ≤ b' := by
  obtain ⟨-, rfl⟩ := (balanceOf_eq_ok hs).mp h
  obtain ⟨-, rfl⟩ := (balanceOf_eq_ok (wellFormed_elapse hs seconds)).mp h'
  exact s.balance_le_elapse seconds u

/-- **The token refines a plain ledger.** In every reachable state without overflow `balanceOf`
shows the ledger `s.view h`, and each call changes it the way a plain token would: the amount is
minted, burned or moved exactly, `2 ^ 256 - 1` stands for the whole balance, and calls succeed
exactly when balance and allowance suffice. Every account can still be read after the call, the
credited one if its new balance can be scaled up. Setting the rate changes nothing, and time alone
never lowers a balance. -/
theorem refines_plain_ledger (hs : TokenReachable B s) (h : s.NoOverflow) :
    (∀ u, balanceOf u s = .ok ((s.view h).balance u)) ∧
    (∀ sender dst a r, s.hasRole .MINT_AND_BURN_ROLE sender = true → dst ≠ 0 →
      (s.view h).totalSupply + a < uint256Size →
        ∃ s', mint B sender dst a r s = .ok s' ∧ Refines s' ((s.view h).mint dst a) {dst}) ∧
    (∀ sender src a, s.hasRole .MINT_AND_BURN_ROLE sender = true → src ≠ 0 →
      let v := resolved (s.view h) src a
      (Succeeds (burn B sender src a s) ↔ v ≤ (s.view h).balance src) ∧
        ∀ s', burn B sender src a s = .ok s' → Refines s' ((s.view h).burn src v) ∅) ∧
    (∀ sender dst a, sender ≠ 0 → dst ≠ 0 →
      let v := resolved (s.view h) sender a
      (Succeeds (transfer B sender dst a s) ↔ v ≤ (s.view h).balance sender) ∧
        ∀ ok s', transfer B sender dst a s = .ok (ok, s') →
          ok = true ∧ Refines s' ((s.view h).move sender dst v) {dst}) ∧
    (∀ sender src dst a, sender ≠ 0 → src ≠ 0 → dst ≠ 0 →
      let v := resolved (s.view h) src a
      (Succeeds (transferFrom B sender src dst a s) ↔
          v ≤ (s.view h).balance src ∧ v ≤ (s.view h).allowance src sender) ∧
        ∀ ok s', transferFrom B sender src dst a s = .ok (ok, s') →
          ok = true ∧ Refines s' (((s.view h).spend src sender v).move src dst v) {dst}) ∧
    (∀ sender r s', setInterestRate sender r s = .ok s' → Refines s' (s.view h) ∅) ∧
    (∀ seconds u b b',
      balanceOf u s = .ok b → balanceOf u (s.elapse seconds) = .ok b' → b ≤ b') := by
  have hwf := hs.wellFormed
  have href := h.refines_view hwf
  refine ⟨fun u => href.balanceOf u fun hu => hu.elim, ?_, ?_, ?_, ?_, ?_, ?_⟩
  · intro sender dst a r hrole hdst hroom
    exact mint_refines hwf href hrole hdst hroom
  · intro sender src a hrole hsrc
    exact burn_refines hwf href hrole hsrc
  · intro sender dst a hsender hdst
    exact transfer_refines hwf href hsender hdst
  · intro sender src dst a hsender hsrc hdst
    exact transferFrom_refines hwf href hsender hsrc hdst
  · intro sender r s' hok
    exact setInterestRate_refines hwf href hok
  · intro seconds u b b' hb hb'
    exact balanceOf_le_elapse hwf hb hb'

/-- A token on which account 2 minted a hundred coins to account 10, a million seconds ago. -/
def sampleToken : Token :=
  run (TokenAction.step openZeppelin) (RebaseToken.constructor 1 1)
    [.call 1 (.grantMintAndBurnRole 2), .call 2 (.mint 10 100 (5 * 10 ^ 10)), .elapse (10 ^ 6)]

theorem sampleToken_reachable : TokenReachable openZeppelin sampleToken :=
  ⟨1, 1, _, Nat.one_pos, rfl⟩

theorem sampleToken_balance {u : Address} (hu : u ≠ 10) : sampleToken.ledger.balance u = 0 := by
  change 0 + (if u = 10 then _ else 0) + (if u = 10 then _ else 0) = 0
  rw [if_neg hu, if_neg hu]

theorem sampleToken_noOverflow : sampleToken.NoOverflow := by
  have hzero : ∀ u, u ≠ 10 → sampleToken.balance u = 0 := fun u hu => by
    rw [Token.balance, sampleToken_balance hu, Nat.zero_mul, Nat.zero_div]
  constructor
  · intro u
    rcases eq_or_ne u 10 with rfl | hu
    · unfold Fits
      decide
    · rw [Fits, sampleToken_balance hu, Nat.zero_mul]
      decide
  · rw [Finset.sum_eq_single 10 (fun u _ hu => hzero u hu) (absurd (Finset.mem_univ _))]
    decide

/-- Account 10 moves everything it has, interest included, and account 11 then has it. -/
theorem refines_plain_ledger_sample :
    TokenReachable openZeppelin sampleToken ∧ sampleToken.NoOverflow ∧
      balanceOf 10 sampleToken = .ok 105 ∧
      ∃ s' L', transfer openZeppelin 10 11 uint256Max sampleToken = .ok (true, s') ∧
        balanceOf 10 s' = .ok 0 ∧ balanceOf 11 s' = .ok 105 ∧ Refines s' L' {11} := by
  have hbal : sampleToken.balance 10 = 105 ∧ sampleToken.balance 11 = 0 := by decide
  obtain ⟨hshow, -, -, htransfer, -⟩ :=
    refines_plain_ledger sampleToken_reachable sampleToken_noOverflow
  obtain ⟨hiff, hres⟩ := htransfer 10 11 uint256Max (by decide) (by decide)
  have hle : resolved (sampleToken.view sampleToken_noOverflow) 10 uint256Max
      ≤ (sampleToken.view sampleToken_noOverflow).balance 10 := le_rfl
  have hfull : resolved (sampleToken.view sampleToken_noOverflow) 10 uint256Max = 105 := hbal.1
  obtain ⟨⟨ok, s'⟩, hok⟩ := hiff.mpr hle
  obtain ⟨rfl, href⟩ := hres ok s' hok
  have hten := href.balanceOf 10 fun h => absurd h (by decide)
  have heleven := href.balanceOf 11 fun _ => by
    rw [Ledger.balance_move hle, hfull]
    change (sampleToken.balance 11 - 0 + 105) * PRECISION_FACTOR < uint256Size
    rw [hbal.2]
    decide
  rw [Ledger.balance_move hle, hfull] at hten heleven
  change balanceOf 10 s' = .ok (sampleToken.balance 10 - 105 + 0) at hten
  change balanceOf 11 s' = .ok (sampleToken.balance 11 - 0 + 105) at heleven
  rw [hbal.1] at hten
  rw [hbal.2] at heleven
  exact ⟨sampleToken_reachable, sampleToken_noOverflow, hbal.1 ▸ hshow 10, s', _, hok, hten,
    heleven, href⟩

end Rebase

end UpdraftContracts

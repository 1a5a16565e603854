import UpdraftContracts.Rebase.Effects
import UpdraftContracts.Rebase.RebaseTokenPool

/-!
# Bridging

Tokens leave a chain when the pool burns them and enter another when its pool mints them. In between
they are in flight. What all chains hold plus what is in flight is conserved by a send exactly if
the send burns the amount it writes into the message.

The amount of a send is read three times: by `transferFrom`, by `burn` and by the destination. The
first two read `2 ^ 256 - 1` as the whole balance, the third takes it literally. So a send of that
amount, and no other, creates tokens.

## Main results

* `Lanes.send_spec` — what a send burns: the amount of the message, unless that is `2 ^ 256 - 1`
* `Lanes.deliver_spec` — a delivery mints the amount of the message
* `bridging_conserves` — runs without a send of `2 ^ 256 - 1` conserve tokens, and such a send never
  does
-/

namespace UpdraftContracts

open Evm

namespace Rebase

open RebaseToken Token

/-! ## Sums of balances -/

namespace Token

variable {B : OpenZeppelinErc20 Address} {s s' : Token} {u sender src dst : Address} {a r : ℕ}
  {ok : Bool}

/-- The sum of all balances of a chain. -/
def total (s : Token) : ℕ := ∑ u, s.balance u

/-- Where every `balanceOf` returns, it is the sum of what they return. -/
theorem total_eq_sum_balanceOf {f : Address → ℕ} (hs : s.WellFormed)
    (h : ∀ u, balanceOf u s = .ok (f u)) : s.total = ∑ u, f u :=
  Finset.sum_congr rfl fun u _ => ((balanceOf_eq_ok hs).mp (h u)).2.symm

/-- The total follows the balances. -/
theorem Becomes.total {f : Address → ℕ} (h : s.Becomes s' f) : s'.total = ∑ u, f u :=
  Finset.sum_congr rfl fun u _ => h.balance u

theorem total_mint (hs : s.WellFormed) (h : mint B sender dst a r s = .ok s') :
    s'.total = s.total + a := by
  rw [(mint_becomes hs h).total, Ledger.sum_credit, total]

/-- What is burned is the amount, or the whole balance for the largest one. -/
theorem total_burn (hs : s.WellFormed) (h : burn B sender src a s = .ok s') :
    s'.total + s.amount src a = s.total := by
  obtain ⟨hle, hbec⟩ := burn_becomes hs h
  rw [hbec.total, Ledger.sum_debit _ hle, total]

theorem total_transfer (hs : s.WellFormed) (h : transfer B sender dst a s = .ok (ok, s')) :
    s'.total = s.total := by
  obtain ⟨hle, hbec⟩ := transfer_becomes hs h
  rw [hbec.total, Ledger.sum_debit_credit _ _ hle, total]

theorem total_transferFrom (hs : s.WellFormed)
    (h : transferFrom B sender src dst a s = .ok (ok, s')) : s'.total = s.total := by
  obtain ⟨hle, hbec⟩ := transferFrom_becomes hs h
  rw [hbec.total, Ledger.sum_debit_credit _ _ hle, total]

/-- A balance that `balanceOf` can compute is far from the largest word. -/
theorem Fits.balance_lt (h : s.Fits u) : s.balance u < uint256Max := by
  have hmul := h.balance_mul_lt
  unfold PRECISION_FACTOR at hmul
  unfold uint256Max uint256Size at *
  omega

end Token

/-- The calls that neither mint nor burn. -/
def TokenCall.ordinary : TokenCall → Bool
  | mint _ _ _ | burn _ _ => false
  | _ => true

/-- Calls without minting and burning keep the total. -/
theorem TokenCall.total_exec {B : OpenZeppelinErc20 Address} {s s' : Token} {sender : Address}
    {c : TokenCall} (hc : c.ordinary = true) (hs : s.WellFormed)
    (h : c.exec B sender s = .ok s') : s'.total = s.total := by
  by_cases hadmin : c.administrative = true
  · exact (becomes_of_administrative hadmin hs h).total
  · cases c with
    | mint | burn => exact absurd hc Bool.false_ne_true
    | transfer dst a =>
      obtain ⟨⟨ok, _⟩, h, rfl⟩ := exec_snd_eq_ok.mp h
      exact total_transfer hs h
    | transferFrom src dst a =>
      obtain ⟨⟨ok, _⟩, h, rfl⟩ := exec_snd_eq_ok.mp h
      exact total_transferFrom hs h
    | approve spender value =>
      obtain ⟨⟨ok, _⟩, h, rfl⟩ := exec_snd_eq_ok.mp h
      exact (approve_becomes hs h).total
    | _ => exact absurd rfl hadmin

/-! ## One step -/

section Steps

variable {ι : Type} [DecidableEq ι] {N : Lanes ι} {n n' : Network ι} {t : Transfer ι} {k : ℕ}
  {data : List UInt8}

/-- The tokens of all chains are well formed. -/
def Network.WellFormed (n : Network ι) : Prop := ∀ i, (n.token i).WellFormed

theorem Network.WellFormed.setToken (hn : n.WellFormed) {i : ι} {s : Token} (hs : s.WellFormed) :
    (n.setToken i s).WellFormed := by
  intro j
  rcases eq_or_ne j i with rfl | hj
  · simpa [Network.setToken] using hs
  · simpa [Network.setToken, hj] using hn j

/-- What a send does on its chain: it pulls the amount into the pool and burns it there. -/
theorem Lanes.send_cases (h : N.send t n = .ok n') :
    ∃ ok s₁ s₂ m,
      transferFrom N.base (N.router t.source) t.sender (N.pool t.source).self t.amount
        (n.token t.source) = .ok (ok, s₁) ∧
      burn N.base (N.pool t.source).self (N.pool t.source).self t.amount s₁ = .ok s₂ ∧
      m.amount = t.amount ∧ m.sourcePoolData = encodeUint256 (s₁.s_userInterestRates t.sender) ∧
      n' = { n.setToken t.source s₂ with inFlight := n.inFlight ++ [m] } := by
  simp only [send, pullAndBurn, RebaseTokenPool.lockOrBurn, bind_eq_ok, Prod.exists, pure_eq_ok,
    Prod.mk.injEq] at h
  obtain ⟨out, s₂, ⟨ok, s₁, hpull, -, -, -, -, s', hburn, hout, rfl⟩, hn'⟩ := h
  exact ⟨ok, s₁, s₂, _, hpull, hburn, rfl, congrArg LockOrBurnOut.destPoolData hout, hn'⟩

/-- What a delivery does: it mints the amount of the message at the rate of the message. -/
theorem Lanes.deliver_cases (h : N.deliver k data n = .ok n') :
    ∃ m r s, n.inFlight[k]? = some m ∧ decodeUint256 m.sourcePoolData = some r ∧
      mint N.base (N.pool m.destination).self m.receiver m.amount r (n.token m.destination)
        = .ok s ∧
      n' = { n.setToken m.destination s with inFlight := n.inFlight.eraseIdx k } := by
  simp only [deliver, RebaseTokenPool.releaseOrMint, bind_eq_ok, ofCallee_eq_ok, Prod.exists,
    pure_eq_ok, Prod.mk.injEq] at h
  obtain ⟨m, hm, out, s, ⟨-, -, r, hr, s', hmint, -, rfl⟩, rfl⟩ := h
  exact ⟨m, r, s, hm, hr, hmint, rfl⟩

/-- A send burns the amount in the message unless that is the largest word. -/
theorem Lanes.send_spec (hn : n.WellFormed) (h : N.send t n = .ok n') :
    ∃ s m burned, s.WellFormed ∧ m.amount = t.amount ∧
      n' = { n.setToken t.source s with inFlight := n.inFlight ++ [m] } ∧
      s.total + burned = (n.token t.source).total ∧
      (t.amount ≠ uint256Max → burned = t.amount) ∧
      (t.amount = uint256Max → burned < t.amount) := by
  obtain ⟨ok, s₁, s₂, m, hpull, hburn, hamount, -, rfl⟩ := send_cases h
  have hs := hn t.source
  have hs₁ := (transferFrom_becomes hs hpull).2.wellFormed
  refine ⟨s₂, m, s₁.amount (N.pool t.source).self t.amount,
    (burn_becomes hs₁ hburn).2.wellFormed, hamount, rfl, ?_, fun ha => ?_, fun ha => ?_⟩
  · rw [total_burn hs₁ hburn, total_transferFrom hs hpull]
  · rw [amount, if_neg ha]
  · obtain ⟨-, hacc, -⟩ := (burn_eq_ok hs₁).mp hburn
    rw [amount, if_pos ha, ha]
    exact hacc.fits.balance_lt

/-- A delivery changes the token of the destination, and takes one message out. -/
theorem Lanes.deliver_spec (hn : n.WellFormed) (h : N.deliver k data n = .ok n') :
    ∃ s m, s.WellFormed ∧ n.inFlight[k]? = some m ∧
      n' = { n.setToken m.destination s with inFlight := n.inFlight.eraseIdx k } ∧
      s.total = (n.token m.destination).total + m.amount := by
  obtain ⟨m, r, s, hm, -, hmint, rfl⟩ := deliver_cases h
  exact ⟨s, m, (mint_becomes (hn _) hmint).wellFormed, hm, rfl, total_mint (hn _) hmint⟩

/-- Every step keeps all tokens well-formed. -/
theorem Network.wellFormed_step (hn : n.WellFormed) (a : NetworkAction ι) :
    (N.step n a).WellFormed := by
  cases a with
  | send t =>
    refine settle_induction hn fun n' h => ?_
    obtain ⟨s, m, burned, hs, -, rfl, -⟩ := Lanes.send_spec hn h
    exact hn.setToken hs
  | deliver k data =>
    refine settle_induction hn fun n' h => ?_
    obtain ⟨s, m, hs, -, rfl, -⟩ := Lanes.deliver_spec hn h
    exact hn.setToken hs
  | call i sender c =>
    exact hn.setToken (settle_induction (hn i) fun s' h => c.wellFormed_exec (hn i) h)
  | elapse i seconds => exact hn.setToken (wellFormed_elapse (hn i) seconds)

theorem NetworkReachable.wellFormed (h : NetworkReachable N n) : n.WellFormed := by
  obtain ⟨n₀, as, hreach, -, rfl⟩ := h
  exact run_invariant (fun n a _ hn => Network.wellFormed_step hn a)
    (along_of_forall fun _ _ => trivial) fun i => (hreach i).wellFormed

theorem Lanes.step_send (h : N.send t n = .ok n') : N.step n (.send t) = n' := by
  rw [step, h, settle_ok]

/-- **Exactness of a step.** A successful send lowers the sum of its chain by the amount in the
message it leaves, a successful delivery raises it by the amount in the message it uses up. -/
def Exact (N : Lanes ι) (n : Network ι) : NetworkAction ι → Prop
  | .send t => ∀ n', N.send t n = .ok n' → ∃ m, n'.inFlight = n.inFlight ++ [m] ∧
      (n'.token t.source).total + m.amount = (n.token t.source).total
  | .deliver k data => ∀ n', N.deliver k data n = .ok n' → ∃ m, n.inFlight[k]? = some m ∧
      n'.inFlight = n.inFlight.eraseIdx k ∧
      (n'.token m.destination).total = (n.token m.destination).total + m.amount
  | _ => True

/-- The step is a send of `type(uint256).max`. -/
def NetworkAction.SendsMax : NetworkAction ι → Prop
  | .send t => t.amount = uint256Max
  | _ => False

/-- Every other step is exact. -/
theorem exact_of_not_sendsMax (hn : n.WellFormed) {a : NetworkAction ι} (ha : ¬ a.SendsMax) :
    Exact N n a := by
  cases a with
  | send t =>
    intro n' h
    obtain ⟨s, m, burned, -, hamount, rfl, hburned, heq, -⟩ := Lanes.send_spec hn h
    refine ⟨m, rfl, ?_⟩
    rw [hamount, ← heq ha]
    simpa [Network.setToken] using hburned
  | deliver k data =>
    intro n' h
    obtain ⟨s, m, -, hm, rfl, htotal⟩ := Lanes.deliver_spec hn h
    exact ⟨m, hm, rfl, by simpa [Network.setToken] using htotal⟩
  | call => exact trivial
  | elapse => exact trivial

/-- A send of `type(uint256).max` that goes through is not exact: it burns less. -/
theorem not_exact_of_max (hn : n.WellFormed) (hmax : t.amount = uint256Max)
    (h : N.send t n = .ok n') : ¬ Exact N n (.send t) := by
  intro hexact
  obtain ⟨m, hm, htotal⟩ := hexact n' h
  obtain ⟨s, m', burned, -, hamount, rfl, hburned, -, hlt⟩ := Lanes.send_spec hn h
  obtain rfl : m' = m := by simpa using hm
  have hs : s.total + m'.amount = (n.token t.source).total := by
    simpa [Network.setToken] using htotal
  have hless := hlt hmax
  omega

/-! ## Conservation -/

/-- Sends, deliveries, and calls that neither mint nor burn, all at one time. -/
def NetworkAction.Bridging : NetworkAction ι → Prop
  | .send _ | .deliver _ _ => True
  | .call _ _ c => c.ordinary = true
  | .elapse _ _ => False

/-- What is in flight. -/
def Network.carried (n : Network ι) : ℕ := (n.inFlight.map Message.amount).sum

variable [Fintype ι]

/-- What all chains hold. -/
def Network.held (n : Network ι) : ℕ := ∑ i, (n.token i).total

/-- All balances of all chains, and what is in flight between them. -/
def Network.total (n : Network ι) : ℕ := n.held + n.carried

theorem Network.held_setToken (i : ι) (s : Token) :
    (n.setToken i s).held + (n.token i).total = n.held + s.total := by
  have hupdate : ∀ j, ((n.setToken i s).token j).total
      = Function.update (fun j => (n.token j).total) i s.total j := by
    intro j
    rcases eq_or_ne j i with rfl | hj
    · simp [setToken]
    · simp [setToken, hj]
  rw [held, Finset.sum_congr rfl fun j _ => hupdate j]
  exact Ledger.sum_update_add _ i _

/-- A send of the largest amount burns less than the message says. -/
theorem Lanes.total_send (hn : n.WellFormed) (h : N.send t n = .ok n') :
    ∃ burned, n'.total + burned = n.total + t.amount ∧
      (t.amount ≠ uint256Max → burned = t.amount) ∧
      (t.amount = uint256Max → burned < t.amount) := by
  obtain ⟨s, m, burned, -, hamount, rfl, hburned, hspec⟩ := send_spec hn h
  have hheld := Network.held_setToken (n := n) t.source s
  have hcarried : ({ n.setToken t.source s with inFlight := n.inFlight ++ [m] } : Network ι).carried
      = n.carried + t.amount := by
    simp [Network.carried, hamount]
  refine ⟨burned, ?_, hspec⟩
  rw [Network.total, hcarried, Network.total]
  change (n.setToken t.source s).held + _ + _ = _
  omega

/-- What a delivery mints is no longer in flight. -/
theorem Lanes.total_deliver (hn : n.WellFormed) (h : N.deliver k data n = .ok n') :
    n'.total = n.total := by
  obtain ⟨s, m, -, hm, rfl, htotal⟩ := deliver_spec hn h
  have hheld := Network.held_setToken (n := n) m.destination s
  have hcarried : ((n.inFlight.eraseIdx k).map Message.amount).sum + m.amount = n.carried := by
    obtain ⟨hk, rfl⟩ := List.getElem?_eq_some_iff.mp hm
    have hperm := (List.getElem_cons_eraseIdx_perm hk).map Message.amount
    rw [Network.carried, ← hperm.sum_eq, List.map_cons, List.sum_cons, Nat.add_comm]
  change (n.setToken m.destination s).held + ((n.inFlight.eraseIdx k).map Message.amount).sum
    = n.held + n.carried
  omega

theorem Network.total_call (hn : n.WellFormed) {i : ι} {sender : Address} {c : TokenCall}
    (hc : c.ordinary = true) : (N.step n (.call i sender c)).total = n.total := by
  have htotal : (settle (n.token i) (c.exec N.base sender (n.token i))).total
      = (n.token i).total :=
    settle_induction (P := fun s => s.total = (n.token i).total) rfl
      fun s' h => TokenCall.total_exec hc (hn i) h
  have hheld := n.held_setToken i (settle (n.token i) (c.exec N.base sender (n.token i)))
  change (n.setToken i _).held + n.carried = n.held + n.carried
  omega

/-- A send of `type(uint256).max` that goes through creates tokens. -/
theorem Network.total_lt_of_max (hn : n.WellFormed) (hmax : t.amount = uint256Max)
    (h : N.send t n = .ok n') : n.total < n'.total := by
  obtain ⟨burned, htotal, -, hlt⟩ := Lanes.total_send hn h
  have hless := hlt hmax
  omega

/-- **One step.** Every other step of bridging keeps the total. -/
theorem Network.total_step (hn : n.WellFormed) {a : NetworkAction ι} (ha : a.Bridging)
    (hmax : ¬ a.SendsMax) : (N.step n a).total = n.total := by
  cases a with
  | send t =>
    refine settle_induction (P := fun n' : Network ι => n'.total = n.total) rfl fun n' h => ?_
    obtain ⟨burned, htotal, heq, -⟩ := Lanes.total_send hn h
    have hburned := heq hmax
    omega
  | deliver k data =>
    refine settle_induction (P := fun n' : Network ι => n'.total = n.total) rfl fun n' h => ?_
    exact Lanes.total_deliver hn h
  | call i sender c => exact Network.total_call hn ha
  | elapse => exact ha.elim

/-- **Conservation.** A run of such steps keeps the total. -/
theorem Network.total_run (hn : n.WellFormed) {as : List (NetworkAction ι)}
    (h : Along N.step (fun _ a => a.Bridging ∧ ¬ a.SendsMax) n as) :
    (run N.step n as).total = n.total := by
  have hinv := run_invariant (P := fun n' => n'.WellFormed ∧ n'.total = n.total)
    (fun n' a ha hn' => ⟨wellFormed_step hn'.1 a, (total_step hn'.1 ha.1 ha.2).trans hn'.2⟩)
    h ⟨hn, rfl⟩
  exact hinv.2

/-- **Bridging and conservation.** In a reachable network the sum of balances of a chain is the sum
of what `balanceOf` returns. Take any further run without a send of `type(uint256).max`. Every
successful send lowers the sum of balances of its chain by the amount in the message, and every
successful delivery raises it by that amount. While time stands still and nothing else mints or
burns, the total over all chains plus what is in flight stays the same. A send of
`type(uint256).max` that goes through is never exact, and creates tokens. -/
theorem bridging_conserves (hn : NetworkReachable N n) :
    (∀ i (f : Address → ℕ), (∀ u, balanceOf u (n.token i) = .ok (f u)) →
      (n.token i).total = ∑ u, f u) ∧
    (∀ as, Along N.step (fun _ a => ¬ a.SendsMax) n as →
      Along N.step (Exact N) n as ∧
      (Along N.step (fun _ a => a.Bridging) n as → (run N.step n as).total = n.total)) ∧
    ∀ t, t.amount = uint256Max → Succeeds (N.send t n) →
      ¬ Exact N n (.send t) ∧ n.total < (N.step n (.send t)).total := by
  refine ⟨fun i f hf => ?_, fun as hmax => ⟨?_, fun hbridge => ?_⟩, ?_⟩
  · exact total_eq_sum_balanceOf (hn.wellFormed i) hf
  · exact along_of_invariant (fun n a _ hn => Network.wellFormed_step hn a)
      (fun n a ha hn => exact_of_not_sendsMax hn ha) hmax hn.wellFormed
  · exact Network.total_run hn.wellFormed (along_and hbridge hmax)
  · rintro t hmax ⟨n', h⟩
    refine ⟨not_exact_of_max hn.wellFormed hmax h, ?_⟩
    rw [Lanes.step_send h]
    exact Network.total_lt_of_max hn.wellFormed hmax h

end Steps

/-! ## A pair of chains -/

/-- Two chains. The pools are at account 3 and accept everything, the router is account 4. -/
def sampleLanes : Lanes Bool where
  base := openZeppelin
  pool _ :=
    { self := 3
      i_token := 5
      _validateLockOrBurn := fun _ => true
      _validateReleaseOrMint := fun _ => true
      getRemoteToken := fun _ => encodeAddress 5 }
  router _ := 4

/-- On the first chain account 10 has a hundred tokens and lets the router pull them. -/
def sampleNetwork : Network Bool where
  token
    | false =>
      run (TokenAction.step openZeppelin) (RebaseToken.constructor 1 1)
        [.call 1 (.grantMintAndBurnRole 2), .call 1 (.grantMintAndBurnRole 3),
          .call 2 (.mint 10 100 (5 * 10 ^ 10)), .call 10 (.approve 4 uint256Max)]
    | true =>
      run (TokenAction.step openZeppelin) (RebaseToken.constructor 1 1)
        [.call 1 (.grantMintAndBurnRole 3)]
  inFlight := []

theorem sampleNetwork_reachable : NetworkReachable sampleLanes sampleNetwork := by
  refine ⟨sampleNetwork, [], fun i => ?_, rfl, rfl⟩
  cases i with
  | false => exact ⟨1, 1, _, Nat.one_pos, rfl⟩
  | true => exact ⟨1, 1, _, Nat.one_pos, rfl⟩

/-- Account 10 sends an amount to account 11 on the other chain. -/
def sampleTransfer (amount : ℕ) : Transfer Bool :=
  { source := false, destination := true, sender := 10, receiver := 11, amount := amount }

/-- The transfer as a step of the network. -/
def sampleSend (amount : ℕ) : NetworkAction Bool := .send (sampleTransfer amount)

/-- The amount is sent and arrives. -/
def sampleRun (amount : ℕ) : List (NetworkAction Bool) := [sampleSend amount, .deliver 0 []]

theorem sampleRun_bridging (amount : ℕ) :
    Along sampleLanes.step (fun _ a => a.Bridging) sampleNetwork (sampleRun amount) :=
  ⟨trivial, trivial, trivial⟩

/-- Forty of the hundred tokens are bridged, and the total stays. -/
theorem bridging_conserves_sample :
    NetworkReachable sampleLanes sampleNetwork ∧
      (((run sampleLanes.step sampleNetwork (sampleRun 40)).token false).ledger.totalSupply = 60 ∧
        ((run sampleLanes.step sampleNetwork (sampleRun 40)).token true).ledger.totalSupply = 40) ∧
      Along sampleLanes.step (Exact sampleLanes) sampleNetwork (sampleRun 40) ∧
      (run sampleLanes.step sampleNetwork (sampleRun 40)).total = sampleNetwork.total := by
  have hmax : Along sampleLanes.step (fun _ a => ¬ a.SendsMax) sampleNetwork (sampleRun 40) := by
    refine ⟨?_, not_false, trivial⟩
    intro h
    have hne : 40 ≠ uint256Max := by decide
    exact hne h
  obtain ⟨hexact, htotal⟩ := (bridging_conserves sampleNetwork_reachable).2.1 (sampleRun 40) hmax
  exact ⟨sampleNetwork_reachable, by decide, hexact, htotal (sampleRun_bridging 40)⟩

/-- Account 10 has sent `2 ^ 256 - 1`, and the message is in flight. -/
def maxSent : Network Bool := sampleLanes.step sampleNetwork (sampleSend uint256Max)

/-- Account 10 sends `2 ^ 256 - 1`. The first chain loses the hundred tokens it has, the message
says `2 ^ 256 - 1`, and the other chain mints that. -/
theorem max_send_creates_tokens :
    NetworkReachable sampleLanes sampleNetwork ∧
      (sampleNetwork.token false).ledger.totalSupply = 100 ∧
      (maxSent.inFlight.map Message.amount = [uint256Max] ∧
        (maxSent.token false).ledger.totalSupply = 0) ∧
      ((run sampleLanes.step sampleNetwork (sampleRun uint256Max)).token true).ledger.totalSupply
        = uint256Max ∧
      ¬ Along sampleLanes.step (Exact sampleLanes) sampleNetwork (sampleRun uint256Max) ∧
      (run sampleLanes.step sampleNetwork (sampleRun uint256Max)).total ≠ sampleNetwork.total := by
  have hwf := sampleNetwork_reachable.wellFormed
  obtain ⟨n', hsend⟩ : Succeeds (sampleLanes.send (sampleTransfer uint256Max) sampleNetwork) := by
    decide
  refine ⟨sampleNetwork_reachable, by decide, by decide, by decide, fun h => ?_, ?_⟩
  · exact not_exact_of_max hwf rfl hsend h.1
  · have hsent : sampleLanes.step sampleNetwork (sampleSend uint256Max) = n' :=
      Lanes.step_send hsend
    have hwf' : n'.WellFormed := hsent ▸ Network.wellFormed_step hwf _
    have hdelivered : (sampleLanes.step n' (.deliver 0 [])).total = n'.total :=
      Network.total_step hwf' trivial not_false
    rw [sampleRun, run_cons, run_cons, run_nil, hsent, hdelivered]
    exact (Network.total_lt_of_max hwf rfl hsend).ne'

end Rebase

end UpdraftContracts

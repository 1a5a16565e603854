import UpdraftContracts.Rebase.Roles

/-!
# Where rates come from

A rate is written in two places. A transfer to an account without tokens copies the rate of the
sender. `mint` writes the rate it is given, and the two contracts that call it give it the global
rate of the moment, or the rate that a message carries, which another pool read from an account. So
every rate goes back to a deposit, through any number of transfers and messages.

Accounts with tokens keep their rate in a transfer. `mint` does not look whether the account has
tokens, so the delivery of a message overwrites the rate of the receiver.

## Main results

* `rates_from_deposits` — every rate was the global rate at a deposit, and global rates only fall
* `rate_locked` — a step keeps the rate of an account with tokens, unless it is the account's own
  deposit or delivers a message with another rate
-/

namespace UpdraftContracts

open Evm

namespace Rebase

open RebaseToken Token

/-! ## Tokens -/

section Tokens

variable {B : OpenZeppelinErc20 Address} {s s' s'' : Token} {u sender src dst : Address} {a r : ℕ}
  {ok : Bool} {c : TokenCall}

/-- Every account has a rate that some account had before, and accounts with tokens keep theirs. -/
structure Token.Inherits (s s' : Token) : Prop where
  inherited : ∀ u, ∃ v, s'.s_userInterestRates u = s.s_userInterestRates v
  locked : ∀ u, s.balance u ≠ 0 → s'.s_userInterestRates u = s.s_userInterestRates u

theorem Token.inherits_of_eq (h : s'.s_userInterestRates = s.s_userInterestRates) :
    s.Inherits s' :=
  ⟨fun u => ⟨u, congrFun h u⟩, fun u _ => congrFun h u⟩

theorem Token.Inherits.trans_eq (h : s.Inherits s')
    (heq : s''.s_userInterestRates = s'.s_userInterestRates) : s.Inherits s'' := by
  refine ⟨fun u => ?_, fun u hu => ?_⟩
  · rw [heq]
    exact h.inherited u
  · rw [heq]
    exact h.locked u hu

/-- A receiver without tokens inherits the rate of the sender. -/
theorem Token.inherits_prepared (s : Token) (src dst : Address) :
    s.Inherits (s.prepared src dst) := by
  refine prepared_cases (P := fun t => s.Inherits t) (fun hzero => ?_) fun _ => inherits_of_eq rfl
  refine ⟨fun u => ?_, fun u hu => ?_⟩
  · rcases eq_or_ne u dst with rfl | hne
    · exact ⟨src, Function.update_self ..⟩
    · exact ⟨u, Function.update_of_ne hne ..⟩
  · have hne : u ≠ dst := by
      rintro rfl
      exact hu hzero
    exact Function.update_of_ne hne ..

namespace RebaseToken

/-- A mint writes one rate. -/
theorem mint_rates (hs : s.WellFormed) (h : mint B sender dst a r s = .ok s') :
    s'.s_userInterestRates = Function.update s.s_userInterestRates dst r := by
  obtain ⟨-, -, -, rfl⟩ := (mint_eq_ok hs).mp h
  rfl

/-- A burn writes none. -/
theorem burn_rates (hs : s.WellFormed) (h : burn B sender src a s = .ok s') :
    s'.s_userInterestRates = s.s_userInterestRates := by
  obtain ⟨-, -, -, rfl⟩ := (burn_eq_ok hs).mp h
  rfl

theorem transfer_inherits (hs : s.WellFormed) (h : transfer B sender dst a s = .ok (ok, s')) :
    s.Inherits s' := by
  obtain ⟨-, L, -, rfl⟩ := (transfer_eq_ok hs).mp h
  exact (s.inherits_prepared sender dst).trans_eq rfl

theorem transferFrom_inherits (hs : s.WellFormed)
    (h : transferFrom B sender src dst a s = .ok (ok, s')) : s.Inherits s' := by
  obtain ⟨-, L, -, rfl⟩ := (transferFrom_eq_ok hs).mp h
  exact (s.inherits_prepared src dst).trans_eq rfl

end RebaseToken

/-- No call but a mint makes up a rate. -/
theorem TokenCall.inherits_exec (hs : s.WellFormed) (hc : c.ordinary = true)
    (h : c.exec B sender s = .ok s') : s.Inherits s' := by
  by_cases hadmin : c.administrative = true
  · exact inherits_of_eq (exec_administrative hadmin h).2.2.1
  · cases c with
    | mint | burn => exact absurd hc Bool.false_ne_true
    | transfer dst a =>
      obtain ⟨⟨ok, _⟩, h, rfl⟩ := exec_snd_eq_ok.mp h
      exact transfer_inherits hs h
    | transferFrom src dst a =>
      obtain ⟨⟨ok, _⟩, h, rfl⟩ := exec_snd_eq_ok.mp h
      exact transferFrom_inherits hs h
    | approve spender value =>
      obtain ⟨⟨ok, _⟩, h, rfl⟩ := exec_snd_eq_ok.mp h
      obtain ⟨L, rfl, -⟩ := approve_cases h
      exact inherits_of_eq rfl
    | _ => exact absurd rfl hadmin

end Tokens

/-! ## Provenance -/

section Chains

variable {ι : Type} {D : Deployment ι} {n n' : Network ι} {ds : List (ι × ℕ)} {cap : ι → ℕ} {i : ι}
  {s s' : Token} {u sender src dst : Address} {amount r : ℕ} {c : TokenCall}

/-- The rate is zero, or the global rate that a chain with a vault had at a deposit there. -/
def Deposited (D : Deployment ι) (ds : List (ι × ℕ)) (r : ℕ) : Prop :=
  r = 0 ∨ ∃ i, (D.vault i).isSome ∧ (i, r) ∈ ds

theorem Deposited.cons (h : Deposited D ds r) (d : ι × ℕ) : Deposited D (d :: ds) r := by
  rcases h with h | ⟨i, hvault, hmem⟩
  · exact Or.inl h
  · exact Or.inr ⟨i, hvault, List.mem_cons_of_mem _ hmem⟩

/-- The token of a chain, all of whose rates go back to deposits. `cap` bounds its global rate. -/
structure Sourced (D : Deployment ι) (ds : List (ι × ℕ)) (cap : ι → ℕ) (i : ι) (s : Token) :
    Prop where
  wellFormed : s.WellFormed
  guarded : s.Guarded (D.holder i)
  interestRate_le : s.s_interestRate ≤ cap i
  rates : ∀ u, Deposited D ds (s.s_userInterestRates u)

namespace Sourced

theorem of_inherits (h : Sourced D ds cap i s) (hwf : s'.WellFormed)
    (hguard : s'.Guarded (D.holder i)) (hle : s'.s_interestRate ≤ s.s_interestRate)
    (hinh : s.Inherits s') : Sourced D ds cap i s' := by
  refine ⟨hwf, hguard, hle.trans h.interestRate_le, fun u => ?_⟩
  obtain ⟨v, hv⟩ := hinh.inherited u
  exact hv ▸ h.rates v

theorem of_sameTerms (h : Sourced D ds cap i s) (hwf : s'.WellFormed) (hterms : s.SameTerms s')
    (hinh : s.Inherits s') : Sourced D ds cap i s' :=
  h.of_inherits hwf (h.guarded.of_sameTerms hterms) hterms.interestRate.le hinh

/-- A minted rate is that of a deposit. -/
theorem mint (h : Sourced D ds cap i s) (hr : Deposited D ds r)
    (hmint : mint D.base sender dst amount r s = .ok s') : Sourced D ds cap i s' := by
  have hs := h.wellFormed
  have hterms := mint_sameTerms hs hmint
  refine ⟨(mint_becomes hs hmint).wellFormed, h.guarded.of_sameTerms hterms,
    hterms.interestRate.le.trans h.interestRate_le, fun u => ?_⟩
  rw [mint_rates hs hmint, Function.update_apply]
  split
  · exact hr
  · exact h.rates u

theorem burn (h : Sourced D ds cap i s) (hburn : burn D.base sender src amount s = .ok s') :
    Sourced D ds cap i s' :=
  h.of_sameTerms (burn_becomes h.wellFormed hburn).2.wellFormed (burn_sameTerms h.wellFormed hburn)
    (inherits_of_eq (burn_rates h.wellFormed hburn))

/-- Every call of a token keeps its rates sourced. -/
theorem call (h : Sourced D ds cap i s) (hc : c.Admissible (D.holder i) sender)
    (hcall : c.exec D.base sender s = .ok s') : Sourced D ds cap i s' := by
  have hord := TokenCall.ordinary_of_admissible h.wellFormed h.guarded hc hcall
  exact h.of_inherits (c.wellFormed_exec h.wellFormed hcall)
    (TokenCall.guarded_exec h.wellFormed h.guarded hc hcall)
    (TokenCall.interestRate_exec h.wellFormed hcall)
    (TokenCall.inherits_exec h.wellFormed hord hcall)

theorem elapse (h : Sourced D ds cap i s) (seconds : ℕ) :
    Sourced D ds cap i (s.elapse seconds) :=
  ⟨wellFormed_elapse h.wellFormed seconds, ⟨h.guarded.holds, h.guarded.no_admin⟩,
    h.interestRate_le, h.rates⟩

end Sourced

/-- All tokens and all messages, and a history of rates no larger than the initial one. -/
structure Provenance (D : Deployment ι) (ds : List (ι × ℕ)) (cap : ι → ℕ) (n : Network ι) :
    Prop where
  tokens : ∀ i, Sourced D ds cap i (n.token i)
  messages : ∀ m ∈ n.inFlight, ∃ r, decodeUint256 m.sourcePoolData = some r ∧ Deposited D ds r
  deposits : ∀ d ∈ ds, d.2 ≤ 5 * 10 ^ 10
  cap_le : ∀ i, cap i ≤ 5 * 10 ^ 10

namespace Provenance

/-- No deposit was at a larger rate than that of a new token. -/
theorem rate_le (h : Provenance D ds cap n) (hr : Deposited D ds r) : r ≤ 5 * 10 ^ 10 := by
  rcases hr with rfl | ⟨i, -, hmem⟩
  · exact Nat.zero_le _
  · exact h.deposits _ hmem

/-- A deposit enters the history. -/
theorem record (h : Provenance D ds cap n) (i : ι) :
    Provenance D ((i, (n.token i).s_interestRate) :: ds) cap n := by
  refine ⟨fun j => ?_, fun m hm => ?_, fun d hd => ?_, h.cap_le⟩
  · obtain ⟨hwf, hguard, hle, hrates⟩ := h.tokens j
    exact ⟨hwf, hguard, hle, fun u => (hrates u).cons _⟩
  · obtain ⟨r, hr, hdep⟩ := h.messages m hm
    exact ⟨r, hr, hdep.cons _⟩
  · rcases List.mem_cons.mp hd with rfl | hd
    · exact (h.tokens i).interestRate_le.trans (h.cap_le i)
    · exact h.deposits d hd

/-- Global rates can be bounded by what they are. -/
theorem recap (h : Provenance D ds cap n) :
    Provenance D ds (fun i => (n.token i).s_interestRate) n := by
  refine ⟨fun i => ?_, h.messages, h.deposits, fun i => ?_⟩
  · obtain ⟨hwf, hguard, -, hrates⟩ := h.tokens i
    exact ⟨hwf, hguard, le_rfl, hrates⟩
  · exact (h.tokens i).interestRate_le.trans (h.cap_le i)

end Provenance

theorem Chains.Deployed.provenance {w₀ : Chains ι} (h : w₀.Deployed) :
    Provenance D [] (fun _ => 5 * 10 ^ 10) w₀.toNetwork := by
  refine ⟨fun i => ?_, fun m hm => ?_, fun _ hd => absurd hd List.not_mem_nil, fun _ => le_rfl⟩
  · obtain ⟨deployer, timestamp, hpos, heq⟩ := h.2 i
    have hrate : (RebaseToken.constructor deployer timestamp).s_interestRate ≤ 5 * 10 ^ 10 := by
      change 5 * PRECISION_FACTOR / 10 ^ 8 ≤ 5 * 10 ^ 10
      decide
    rw [heq]
    exact ⟨wellFormed_constructor hpos, guarded_constructor, hrate, fun _ => Or.inl rfl⟩
  · rw [h.1] at hm
    exact absurd hm List.not_mem_nil

variable [DecidableEq ι] {w : Chains ι}

theorem Network.forall_setToken {P : ι → Token → Prop} (h : ∀ j, P j (n.token j)) (hs : P i s)
    (j : ι) : P j ((n.setToken i s).token j) := by
  rcases eq_or_ne j i with rfl | hj
  · simpa [Network.setToken] using hs
  · simpa [Network.setToken, hj] using h j

namespace Provenance

theorem setToken (h : Provenance D ds cap n) (hs : Sourced D ds cap i s) :
    Provenance D ds cap (n.setToken i s) :=
  ⟨Network.forall_setToken h.tokens hs, h.messages, h.deposits, h.cap_le⟩

/-- A message carries the rate of an account, which survives encoding. -/
theorem send {t : Transfer ι} (h : Provenance D ds cap n) (hsend : D.send t n = .ok n') :
    Provenance D ds cap n' := by
  obtain ⟨ok, s₁, s₂, m, hpull, hburn, -, hdata, rfl⟩ := Lanes.send_cases hsend
  have hsrc := h.tokens t.source
  have hs₁ : Sourced D ds cap t.source s₁ :=
    hsrc.of_sameTerms (transferFrom_becomes hsrc.wellFormed hpull).2.wellFormed
      (transferFrom_sameTerms hsrc.wellFormed hpull) (transferFrom_inherits hsrc.wellFormed hpull)
  have hrate := hs₁.rates t.sender
  refine ⟨(h.setToken (hs₁.burn hburn)).tokens, fun m' hm' => ?_, h.deposits, h.cap_le⟩
  rcases List.mem_append.mp hm' with hm' | hm'
  · exact h.messages m' hm'
  · obtain rfl := List.mem_singleton.mp hm'
    have hlt : 5 * 10 ^ 10 < uint256Size := by decide
    refine ⟨_, ?_, hrate⟩
    rw [hdata, decodeUint256_encodeUint256 (lt_of_le_of_lt (h.rate_le hrate) hlt)]

/-- A delivery brings a rate that was on another chain. -/
theorem deliver {k : ℕ} {data : List UInt8} (h : Provenance D ds cap n)
    (hdeliver : D.deliver k data n = .ok n') : Provenance D ds cap n' := by
  obtain ⟨m, r, s, hm, hr, hmint, rfl⟩ := Lanes.deliver_cases hdeliver
  obtain ⟨r', hr', hdep⟩ := h.messages m (List.mem_of_getElem? hm)
  obtain rfl : r = r' := Option.some.inj (hr.symm.trans hr')
  exact ⟨(h.setToken ((h.tokens _).mint hdep hmint)).tokens,
    fun m' hm' => h.messages m' (List.mem_of_mem_eraseIdx hm'), h.deposits, h.cap_le⟩

end Provenance

/-- The history of deposits: the chain of each, and the global rate there at the time. -/
def recordDeposit (w : Chains ι) (a : ChainAction ι) (ds : List (ι × ℕ)) : List (ι × ℕ) :=
  match a with
  | .vault i _ (.deposit _) => (i, (w.token i).s_interestRate) :: ds
  | _ => ds

/-- **One step.** The rates that a step writes go back to deposits if those before it did. -/
theorem Provenance.step (h : Provenance D ds cap w.toNetwork) {a : ChainAction ι}
    {p : Progress VaultError (Chains ι)} (ha : D.Admissible a) (hp : D.start w a = .ok p) :
    p.Forall fun w' => Provenance D (recordDeposit w a ds) cap w'.toNetwork := by
  cases a with
  | vault i sender c =>
    obtain ⟨self, q, hself, hq, rfl⟩ := Deployment.start_vault_eq_ok.mp hp
    refine Progress.forall_map.mpr ?_
    cases VaultCall.outcome hq with
    | received => exact h.setToken (h.tokens i)
    | deposited hmint =>
      have hrec := h.record i
      refine hrec.setToken ((hrec.tokens i).mint ?_ hmint)
      exact Or.inr ⟨i, by rw [hself]; rfl, List.mem_cons_self ..⟩
    | redeemed _ hburn _ =>
      exact Progress.forall_handsOver_error.mpr (h.setToken ((h.tokens i).burn hburn))
  | network a =>
    obtain rfl := pure_eq_ok.mp hp
    cases a with
    | send t => exact settle_induction h fun n' hsend => h.send hsend
    | deliver k data => exact settle_induction h fun n' hdeliver => h.deliver hdeliver
    | call i sender c =>
      exact h.setToken (settle_induction (h.tokens i) fun s' hcall => (h.tokens i).call ha hcall)
    | elapse i seconds => exact h.setToken ((h.tokens i).elapse seconds)

/-- **Whole runs.** -/
theorem preserves_provenance (D : Deployment ι) (cap : ι → ℕ) :
    Preserves (recording D.start recordDeposit) (fun _ => D.Admissible)
      fun x => Provenance D x.2 cap x.1.toNetwork :=
  preserves_recording fun _ _ _ _ ha h hp => h.step ha hp

/-- The chains `w` and the history `ds` of a run from deployment, at a point of the run. -/
def Deployment.Reachable (D : Deployment ι) (w : Chains ι) (ds : List (ι × ℕ)) : Prop :=
  ∃ (w₀ : Chains ι) (c : Calls (ChainAction ι)), w₀.Deployed ∧
    c.Along (recording D.start recordDeposit) (fun _ => D.Admissible) (w₀, []) ∧
    (w, ds) ∈ c.points (recording D.start recordDeposit) (w₀, [])

/-- So in every reachable network all rates come from deposits. -/
theorem Deployment.Reachable.provenance (h : D.Reachable w ds) :
    Provenance D ds (fun _ => 5 * 10 ^ 10) w.toNetwork := by
  obtain ⟨w₀, c, hw₀, hc, hmem⟩ := h
  exact (preserves_provenance D _).points c hc hw₀.provenance (w, ds) hmem

/-- **Rates come from deposits.** At every point of every run, with any interleaving of deposits,
redemptions, calls of the tokens, sends and deliveries, the rate of every account and the rate in
every message is zero or was the global rate of a chain with a vault at a deposit there. So none
exceeds the initial global rate. From there on no global rate is ever higher than it is. -/
theorem rates_from_deposits (h : D.Reachable w ds) :
    (∀ i u, Deposited D ds ((w.token i).s_userInterestRates u) ∧
      (w.token i).s_userInterestRates u ≤ 5 * 10 ^ 10) ∧
    (∀ m ∈ w.inFlight, ∃ r, decodeUint256 m.sourcePoolData = some r ∧ Deposited D ds r ∧
      r ≤ 5 * 10 ^ 10) ∧
    ∀ c : Calls (ChainAction ι),
      c.Along (recording D.start recordDeposit) (fun _ => D.Admissible) (w, ds) →
      ∀ x ∈ c.points (recording D.start recordDeposit) (w, ds), ∀ i,
        (x.1.token i).s_interestRate ≤ (w.token i).s_interestRate := by
  have hprov := h.provenance
  refine ⟨fun i u => ?_, fun m hm => ?_, fun c hc x hx i => ?_⟩
  · have hrate := (hprov.tokens i).rates u
    exact ⟨hrate, hprov.rate_le hrate⟩
  · obtain ⟨r, hr, hdep⟩ := hprov.messages m hm
    exact ⟨r, hr, hdep, hprov.rate_le hdep⟩
  · have hlater := (preserves_provenance D _).points c hc hprov.recap x hx
    exact (hlater.tokens i).interestRate_le

/-! ## Locking -/

/-- The account deposits at the vault of the chain. -/
def ChainAction.OwnDeposit (i : ι) (u : Address) : ChainAction ι → Prop
  | .vault j sender (.deposit _) => j = i ∧ sender = u
  | _ => False

/-- The step delivers a message to the account, and the rate in it is not the account's. -/
def Chains.Overwrites (w : Chains ι) (i : ι) (u : Address) : ChainAction ι → Prop
  | .network (.deliver k _) => ∃ m r, w.inFlight[k]? = some m ∧ m.destination = i ∧
      m.receiver = u ∧ decodeUint256 m.sourcePoolData = some r ∧
      r ≠ (w.token i).s_userInterestRates u
  | _ => False

/-- Writing the token of a chain keeps a rate, if on its own chain it does. -/
theorem Network.rate_setToken {j : ι} {s : Token}
    (hs : j = i → s.s_userInterestRates u = (n.token i).s_userInterestRates u) :
    ((n.setToken j s).token i).s_userInterestRates u = (n.token i).s_userInterestRates u :=
  Network.forall_setToken
    (P := fun j s => j = i → s.s_userInterestRates u = (n.token i).s_userInterestRates u)
    (by rintro _ rfl; rfl) hs i rfl

/-- A send keeps the rate of an account with tokens, also of the one that sends them all. -/
theorem Lanes.rate_send {t : Transfer ι} (hn : n.WellFormed) (hsend : D.send t n = .ok n')
    (hu : (n.token i).balance u ≠ 0) :
    (n'.token i).s_userInterestRates u = (n.token i).s_userInterestRates u := by
  obtain ⟨ok, s₁, s₂, m, hpull, hburn, -, -, rfl⟩ := Lanes.send_cases hsend
  have hs₁ := (transferFrom_becomes (hn t.source) hpull).2.wellFormed
  refine Network.rate_setToken ?_
  rintro rfl
  rw [burn_rates hs₁ hburn]
  exact (transferFrom_inherits (hn _) hpull).locked u hu

/-- A delivery writes the rate of the message, whatever the receiver has. -/
theorem Lanes.rate_deliver {k : ℕ} {data : List UInt8} (hn : n.WellFormed)
    (hdeliver : D.deliver k data n = .ok n') :
    ∃ m r, n.inFlight[k]? = some m ∧ decodeUint256 m.sourcePoolData = some r ∧
      ∀ i u, (n'.token i).s_userInterestRates u
        = if m.destination = i ∧ m.receiver = u then r else (n.token i).s_userInterestRates u := by
  obtain ⟨m, r, s, hm, hr, hmint, rfl⟩ := Lanes.deliver_cases hdeliver
  refine ⟨m, r, hm, hr, fun i u => ?_⟩
  change ((n.setToken m.destination s).token i).s_userInterestRates u = _
  rcases eq_or_ne i m.destination with rfl | hi
  · simp [Network.setToken, mint_rates (hn _) hmint, Function.update_apply, eq_comm]
  · simp [Network.setToken, hi, hi.symm]

/-- A call of a vault keeps the rate of everybody who does not deposit with it. -/
theorem rate_vault_step (hprov : Provenance D ds cap w.toNetwork) {j : ι} {sender : Address}
    {c : VaultCall} {p : Progress VaultError (Chains ι)}
    (hown : ¬ (ChainAction.vault j sender c).OwnDeposit i u)
    (hp : D.start w (.vault j sender c) = .ok p) :
    p.Forall fun w' =>
      (w'.token i).s_userInterestRates u = (w.token i).s_userInterestRates u := by
  obtain ⟨self, q, -, hq, rfl⟩ := Deployment.start_vault_eq_ok.mp hp
  have hwf := (hprov.tokens j).wellFormed
  refine Progress.forall_map.mpr ?_
  cases VaultCall.outcome hq with
  | received => exact Network.rate_setToken (by rintro rfl; rfl)
  | deposited hmint =>
    refine Network.rate_setToken ?_
    rintro rfl
    have hne : u ≠ sender := fun heq => hown ⟨rfl, heq.symm⟩
    rw [mint_rates hwf hmint, Function.update_of_ne hne]
  | redeemed _ hburn _ =>
    refine Progress.forall_handsOver_error.mpr (Network.rate_setToken ?_)
    rintro rfl
    rw [burn_rates hwf hburn]

/-- Everything else keeps it, but for a delivery. -/
theorem rate_network_step (hprov : Provenance D ds cap w.toNetwork)
    (hu : (w.token i).balance u ≠ 0) {a : NetworkAction ι} (ha : D.Admissible (.network a))
    (hover : ¬ w.Overwrites i u (.network a)) :
    ((D.step w.toNetwork a).token i).s_userInterestRates u
      = (w.token i).s_userInterestRates u := by
  have hwf := fun j => (hprov.tokens j).wellFormed
  cases a with
  | send t =>
    refine settle_induction (P := fun n' : Network ι => (n'.token i).s_userInterestRates u
      = (w.token i).s_userInterestRates u) rfl fun n' hsend => ?_
    exact Lanes.rate_send hwf hsend hu
  | deliver k data =>
    refine settle_induction (P := fun n' : Network ι => (n'.token i).s_userInterestRates u
      = (w.token i).s_userInterestRates u) rfl fun n' hdeliver => ?_
    obtain ⟨m, r, hm, hr, hrates⟩ := Lanes.rate_deliver hwf hdeliver
    rw [hrates]
    split
    · next hto =>
      by_contra hne
      exact hover ⟨m, r, hm, hto.1, hto.2, hr, hne⟩
    · rfl
  | call j sender c =>
    refine Network.rate_setToken ?_
    rintro rfl
    refine settle_induction (P := fun s' : Token => s'.s_userInterestRates u
      = (w.token j).s_userInterestRates u) rfl fun s' hcall => ?_
    have hord := TokenCall.ordinary_of_admissible (hwf j) (hprov.tokens j).guarded ha hcall
    exact (TokenCall.inherits_exec (hwf j) hord hcall).locked u hu
  | elapse j seconds => exact Network.rate_setToken (by rintro rfl; rfl)

/-- **One step.** -/
theorem rate_step (hprov : Provenance D ds cap w.toNetwork) (hu : (w.token i).balance u ≠ 0)
    {a : ChainAction ι} {p : Progress VaultError (Chains ι)} (ha : D.Admissible a)
    (hown : ¬ a.OwnDeposit i u) (hover : ¬ w.Overwrites i u a) (hp : D.start w a = .ok p) :
    p.Forall fun w' =>
      (w'.token i).s_userInterestRates u = (w.token i).s_userInterestRates u := by
  cases a with
  | vault j sender c => exact rate_vault_step hprov hown hp
  | network a =>
    obtain rfl := pure_eq_ok.mp hp
    exact rate_network_step hprov hu ha hover

/-- **Rate locking.** Take an account with tokens at any point of any run. No step changes its rate,
up to where the step hands over control, except its own deposit at the vault and the delivery of a
message to it with another rate. Such a delivery always does. -/
theorem rate_locked {b : ℕ} (hw : D.Reachable w ds) (hb : balanceOf u (w.token i) = .ok b)
    (hpos : 0 < b) :
    (∀ a p, D.Admissible a → ¬ a.OwnDeposit i u → ¬ w.Overwrites i u a → D.start w a = .ok p →
      p.Forall fun w' =>
        (w'.token i).s_userInterestRates u = (w.token i).s_userInterestRates u) ∧
    ∀ k data n', w.Overwrites i u (.network (.deliver k data)) →
      D.deliver k data w.toNetwork = .ok n' →
      (n'.token i).s_userInterestRates u ≠ (w.token i).s_userInterestRates u := by
  have hprov := hw.provenance
  have hwf := fun j => (hprov.tokens j).wellFormed
  obtain ⟨-, rfl⟩ := (balanceOf_eq_ok (hwf i)).mp hb
  refine ⟨fun a p ha hown hover hp => rate_step hprov hpos.ne' ha hown hover hp, ?_⟩
  rintro k data n' ⟨m, r, hm, hdst, hrec, hr, hne⟩ hdeliver
  obtain ⟨m', r', hm', hr', hrates⟩ := Lanes.rate_deliver hwf hdeliver
  obtain rfl : m = m' := Option.some.inj (hm.symm.trans hm')
  obtain rfl : r = r' := Option.some.inj (hr.symm.trans hr')
  rw [hrates, if_pos ⟨hdst, hrec⟩]
  exact hne

end Chains

/-! ## A message to an account with tokens -/

/-- The pair of chains, each with a vault at account 2. -/
def sampleDeployment : Deployment Bool where
  toLanes := sampleLanes
  vault _ := some 2

/-- The tokens as account 1 deploys them. -/
def sampleChains : Chains Bool where
  token _ := RebaseToken.constructor 1 1
  inFlight := []
  eth _ := 0

/-- Account 11 deposits a hundred wei on the second chain. On the first chain the rate is lowered to
one, account 12 deposits one wei, and bridges it to account 11. -/
def sampleBridging : List (ChainAction Bool) :=
  [.network (.call false 1 (.grantMintAndBurnRole 2)),
    .network (.call false 1 (.grantMintAndBurnRole 3)),
    .network (.call true 1 (.grantMintAndBurnRole 2)),
    .network (.call true 1 (.grantMintAndBurnRole 3)),
    .vault true 11 (.deposit 100),
    .network (.call false 1 (.setInterestRate 1)),
    .vault false 12 (.deposit 1),
    .network (.call false 12 (.approve 4 1)),
    .network (.send
      { source := false, destination := true, sender := 12, receiver := 11, amount := 1 })]

theorem sampleBridging_admissible : ∀ a ∈ sampleBridging, sampleDeployment.Admissible a := by
  intro a ha
  simp only [sampleBridging, List.mem_cons, List.not_mem_nil, or_false] at ha
  obtain rfl | rfl | rfl | rfl | rfl | rfl | rfl | rfl | rfl := ha
  · exact ⟨by decide, by rintro _ ⟨⟩; decide⟩
  · exact ⟨by decide, by rintro _ ⟨⟩; decide⟩
  · exact ⟨by decide, by rintro _ ⟨⟩; decide⟩
  · exact ⟨by decide, by rintro _ ⟨⟩; decide⟩
  · exact trivial
  · exact ⟨by decide, fun _ h => nomatch h⟩
  · exact trivial
  · exact ⟨by decide, fun _ h => nomatch h⟩
  · exact trivial

/-- The message of account 12 is in flight. -/
def sampleBridged : Chains Bool × List (Bool × ℕ) :=
  (Calls.ofList sampleBridging).exec (recording sampleDeployment.start recordDeposit)
    (sampleChains, [])

theorem sampleBridged_reachable :
    sampleDeployment.Reachable sampleBridged.1 sampleBridged.2 := by
  refine ⟨sampleChains, Calls.ofList sampleBridging, ⟨rfl, fun _ => ⟨1, 1, Nat.one_pos, rfl⟩⟩,
    Calls.along_ofList fun a ha _ => sampleBridging_admissible a ha, ?_⟩
  rw [Prod.mk.eta]
  exact Calls.exec_mem_points _ _ _

/-- Two deposits, at different rates; the message carries the rate of the second. -/
theorem rates_from_deposits_sample :
    sampleDeployment.Reachable sampleBridged.1 sampleBridged.2 ∧
      sampleBridged.2 = [(false, 1), (true, 5 * 10 ^ 10)] ∧
      (sampleBridged.1.token true).s_userInterestRates 11 = 5 * 10 ^ 10 ∧
      (∀ i u, Deposited sampleDeployment sampleBridged.2
        ((sampleBridged.1.token i).s_userInterestRates u)) ∧
      ∀ m ∈ sampleBridged.1.inFlight, ∃ r, decodeUint256 m.sourcePoolData = some r ∧
        Deposited sampleDeployment sampleBridged.2 r := by
  obtain ⟨hrates, hmessages, -⟩ := rates_from_deposits sampleBridged_reachable
  refine ⟨sampleBridged_reachable, by decide, by decide, fun i u => (hrates i u).1, fun m hm => ?_⟩
  obtain ⟨r, hr, hdep, -⟩ := hmessages m hm
  exact ⟨r, hr, hdep⟩

/-- A transfer to account 11, by an account without tokens, does not touch its rate. -/
theorem rate_locked_sample :
    sampleDeployment.Reachable sampleBridged.1 sampleBridged.2 ∧
      balanceOf 11 (sampleBridged.1.token true) = .ok 100 ∧
      ∀ p, sampleDeployment.start sampleBridged.1 (.network (.call true 10 (.transfer 11 0)))
          = .ok p →
        p.Forall fun w => (w.token true).s_userInterestRates 11
          = (sampleBridged.1.token true).s_userInterestRates 11 := by
  have hb : balanceOf 11 (sampleBridged.1.token true) = .ok 100 := by decide
  refine ⟨sampleBridged_reachable, hb, fun p hp => ?_⟩
  have hlocked := (rate_locked sampleBridged_reachable hb (by decide)).1
  exact hlocked (.network (.call true 10 (.transfer 11 0))) p
    ⟨by decide, fun _ h => nomatch h⟩ not_false not_false hp

/-- The delivery of the message of account 12 lowers the rate of account 11 from `5 * 10 ^ 10` to
one, though account 11 has a hundred tokens and took no part. -/
theorem delivery_resets_rate :
    sampleDeployment.Reachable sampleBridged.1 sampleBridged.2 ∧
      balanceOf 11 (sampleBridged.1.token true) = .ok 100 ∧
      sampleBridged.1.inFlight.map (fun m => (m.sender, m.receiver)) = [(12, 11)] ∧
      (sampleBridged.1.token true).s_userInterestRates 11 = 5 * 10 ^ 10 ∧
      ((sampleDeployment.step sampleBridged.1.toNetwork (.deliver 0 [])).token
        true).s_userInterestRates 11 = 1 :=
  ⟨sampleBridged_reachable, by decide, by decide, by decide, by decide⟩

end Rebase

end UpdraftContracts

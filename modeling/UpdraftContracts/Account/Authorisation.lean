import UpdraftContracts.Account.ZkMinimalAccount

/-!
# Who can make the account act

The account is asked to validate, to pay and to execute by separate calls that share no storage but
the nonce. Three questions arise about runs of such calls by anybody, with those included that the
targets of executions make.

* Does a call from outside act only on a signature of the owner? It acts on any signature.
* Does the account pay only for transactions it accepted? It pays for whatever it is asked to, by
  whom it may be.
* Is a transaction executed at most once? That it is, if the bootloader keeps to its protocol, since
  validation uses up the nonce before the target gets control.

For the last two the run keeps a history of what was accepted, paid and executed.

## Main results

* `outside_authorised` — exactly which calls from outside act without a signature of the owner
* `fees_authorised` — payments for accepted transactions, each once, are covered by their fees
* `executed_once` — each nonce leads to at most one execution
-/

namespace UpdraftContracts

open Evm

namespace Account

open ZkMinimalAccount

variable {E : Era} {s s' : State} {a : AccountAction} {tx : Transaction} {gasleft : ℕ}
  {p : Progress Error State}

/-- The state in which the code of a call starts: the ETH it carries has arrived. -/
def State.receives (s : State) (value : ℕ) : State := { s with balance := s.balance + value }

/-! ## Calls from outside -/

/-- From outside, everything that validation and execution check is checked, but for the answer of
the validation. -/
theorem ZkMinimalAccount.outside_eq_ok :
    executeTransactionFromOutside E gasleft tx s = .ok p ↔
      Validates E tx s ∧ CanExecute E gasleft tx s ∧
        p = execution E tx { s with nonce := s.nonce + 1 } := by
  simp only [executeTransactionFromOutside, bind_eq_ok, Prod.exists, validateTransaction_eq_ok,
    executeTransaction_eq_ok]
  constructor
  · rintro ⟨_, _, ⟨hval, rfl, -⟩, hexec, rfl⟩
    exact ⟨hval, hexec, rfl⟩
  · rintro ⟨hval, hexec, rfl⟩
    exact ⟨_, _, ⟨hval, rfl, rfl⟩, hexec, rfl⟩

/-- The magic value is returned exactly when the owner signed. -/
theorem ZkMinimalAccount.validateTransaction_external_eq_ok {sender : Address} {magic : Magic} :
    validateTransaction E sender tx s = .ok (magic, s') ↔
      sender = E.BOOTLOADER_FORMAL_ADDRESS ∧ Validates E tx s ∧
        s' = { s with nonce := s.nonce + 1 } ∧
          magic = if signer E tx = some s.owner then .ACCOUNT_VALIDATION_SUCCESS_MAGIC
            else .zero := by
  simp only [validateTransaction, requireFromBootloader, bind_eq_ok, revertIf_eq_ok, not_not,
    validateTransaction_eq_ok, exists_const]

/-- A call from outside acts only on a signature of the owner: whatever its target does, it goes
through only with that, and otherwise nothing changes. -/
def ActsOnSignature (E : Era) (s : State) (a : AccountAction) : Prop :=
  ∀ tx, a.call = .executeTransactionFromOutside tx → ∀ inner returns,
    (Succeeds (a.start E s >>= Progress.finish inner returns) → signer E tx = some s.owner) ∧
    (signer E tx ≠ some s.owner →
      Calls.complete (AccountAction.start E) a inner returns s = s)

/-- The owner has signed, or one of the checks that revert stops the call. -/
def SignedOrStopped (E : Era) (s : State) (a : AccountAction) : Prop :=
  ∀ tx, a.call = .executeTransactionFromOutside tx →
    signer E tx = some s.owner ∨
      ¬ (Validates E tx (s.receives a.value) ∧ CanExecute E a.gasleft tx (s.receives a.value))

theorem actsOnSignature_iff : ActsOnSignature E s a ↔ SignedOrStopped E s a := by
  have hstart : ∀ tx, a.call = .executeTransactionFromOutside tx →
      a.start E s = executeTransactionFromOutside E a.gasleft tx (s.receives a.value) := by
    intro tx htx
    simp only [AccountAction.start, htx]
    rfl
  constructor
  · intro h tx htx
    by_contra hnot
    obtain ⟨hsigner, hpass⟩ := not_or.mp hnot
    obtain ⟨hval, hexec⟩ := not_not.mp hpass
    have hok := outside_eq_ok.mpr ⟨hval, hexec, rfl⟩
    refine hsigner ((h tx htx id true).1 ?_)
    rw [hstart tx htx, hok]
    exact succeeds_execution id
  · intro h tx htx inner returns
    have hsigned : Succeeds (a.start E s >>= Progress.finish inner returns) →
        signer E tx = some s.owner := by
      rintro ⟨s', hs'⟩
      obtain ⟨p, hp, -⟩ := bind_eq_ok.mp hs'
      rw [hstart tx htx] at hp
      obtain ⟨hval, hexec, -⟩ := outside_eq_ok.mp hp
      exact (h tx htx).resolve_right fun hnot => hnot ⟨hval, hexec⟩
    exact ⟨hsigned, fun hne => settle_of_not_succeeds fun hok => hne (hsigned hok)⟩

/-- **Calls from outside.** In every run in which each of them is signed by the owner or stopped by
a check, they act on signatures of the owner only. And one that is neither acts all the same, as
soon as its target returns. -/
theorem outside_authorised (E : Era) :
    (∀ (c : Calls AccountAction) s, c.Along (AccountAction.start E) (SignedOrStopped E) s →
      c.Along (AccountAction.start E) (ActsOnSignature E) s) ∧
    ∀ s a, ActsOnSignature E s a ↔ SignedOrStopped E s a :=
  ⟨fun _ _ h => h.imp fun _ _ => actsOnSignature_iff.mpr, fun _ _ => actsOnSignature_iff⟩

/-- Hashes and signatures of a kind: the hash is the nonce, a signature is the signer's number, and
what a transaction requires is its fee and its value. -/
def sampleEra : Era where
  BOOTLOADER_FORMAL_ADDRESS := 0x8001
  DEPLOYER_SYSTEM_CONTRACT := 0x8006
  totalRequiredBalance tx := some (tx.fee + tx.value)
  encodeHash tx := some tx.nonce
  recover _ signature := signature.head?.map fun b => Address.ofNat b.toNat

/-- An account of the owner 1, with a hundred wei. -/
def sampleAccount : State := ⟨1, 0, 100⟩

/-- A transaction that sends `value` to `to_`, signed by `signature`. -/
def sampleTransaction (nonce to_ value fee : ℕ) (signature : UInt8) : Transaction where
  txType := 113
  from_ := 5
  to_ := to_
  gasLimit := 1
  gasPerPubdataByteLimit := 1
  maxFeePerGas := fee
  maxPriorityFeePerGas := 0
  paymaster := 0
  nonce := nonce
  value := value
  reserved := [0, 0, 0, 0]
  data := []
  signature := [signature]
  factoryDeps := []
  paymasterInput := []
  reservedDynamic := []

/-- Account 66 submits a transaction. -/
def sampleSubmit (tx : Transaction) : AccountAction :=
  ⟨66, 0, 10 ^ 6, .executeTransactionFromOutside tx⟩

/-- The owner is account 1, and it signed. -/
theorem outside_authorised_sample :
    SignedOrStopped sampleEra sampleAccount (sampleSubmit (sampleTransaction 0 9 30 0 1)) ∧
    (Calls.ofList [sampleSubmit (sampleTransaction 0 9 30 0 1)]).Along
      (AccountAction.start sampleEra) (ActsOnSignature sampleEra) sampleAccount ∧
    Calls.complete (AccountAction.start sampleEra) (sampleSubmit (sampleTransaction 0 9 30 0 1)) id
      true sampleAccount = ⟨1, 1, 70⟩ := by
  have hsigned :
      SignedOrStopped sampleEra sampleAccount (sampleSubmit (sampleTransaction 0 9 30 0 1)) := by
    rintro _ ⟨⟩
    exact .inl (by decide)
  refine ⟨hsigned, (outside_authorised sampleEra).1 _ _ ⟨hsigned, fun _ _ => trivial, trivial⟩, ?_⟩
  decide

/-- Account 66 signs itself a transaction of all the account's ETH, and gets it. -/
theorem outside_acts_without_signature :
    signer sampleEra (sampleTransaction 0 66 100 0 66) ≠ some sampleAccount.owner ∧
    Calls.complete (AccountAction.start sampleEra) (sampleSubmit (sampleTransaction 0 66 100 0 66))
      id true sampleAccount = ⟨1, 1, 0⟩ ∧
    ¬ ActsOnSignature sampleEra sampleAccount (sampleSubmit (sampleTransaction 0 66 100 0 66)) := by
  refine ⟨by decide, by decide, fun h => ?_⟩
  have hsigned := (h _ rfl id true).1 ⟨⟨1, 1, 0⟩, by decide⟩
  exact absurd hsigned (by decide)

/-! ## Histories -/

/-- What a run keeps on record. -/
inductive Event where
  /-- `validateTransaction` returned the success magic. -/
  | accepted (sender owner : Address) (tx : Transaction)
  /-- By `payForTransaction`. -/
  | paid (sender : Address) (tx : Transaction) (amount : ℕ)
  /-- By `executeTransaction`. -/
  | executed (sender : Address) (tx : Transaction)
  | executedFromOutside (tx : Transaction)
  deriving DecidableEq

/-- What a call adds to the record if it gets as far as to return or to hand over control. A payment
is on record with the ETH that it took from the account, and only if it took some. -/
def record (E : Era) (s : State) (a : AccountAction) (log : List Event) : List Event :=
  let s := s.receives a.value
  match a.call with
  | .validateTransaction tx =>
    match validateTransaction E a.sender tx s with
    | .ok (.ACCOUNT_VALIDATION_SUCCESS_MAGIC, _) => .accepted a.sender s.owner tx :: log
    | _ => log
  | .payForTransaction tx =>
    match payForTransaction tx s with
    | .ok s' =>
      if s'.balance < s.balance then .paid a.sender tx (s.balance - s'.balance) :: log else log
    | _ => log
  | .executeTransaction tx => .executed a.sender tx :: log
  | .executeTransactionFromOutside tx => .executedFromOutside tx :: log
  | _ => log

/-- The account with its history. -/
abbrev History := State × List Event

/-- The calls of the account, with the history written along. -/
def History.start (E : Era) : History → AccountAction → Exec Error (Progress Error History) :=
  recording (AccountAction.start E) (record E)

/-- The transactions that validation accepted. -/
def accepted (log : List Event) : List Transaction :=
  log.filterMap fun
    | .accepted _ _ tx => some tx
    | _ => none

/-- The transactions that the account paid for. -/
def paid (log : List Event) : List Transaction :=
  log.filterMap fun
    | .paid _ tx _ => some tx
    | _ => none

/-- The ETH that left the account through `payForTransaction`. -/
def totalPaid : List Event → ℕ
  | [] => 0
  | .paid _ _ amount :: log => amount + totalPaid log
  | _ :: log => totalPaid log

/-- The transactions that went through `executeTransactionFromOutside`. -/
def fromOutside (log : List Event) : List Transaction :=
  log.filterMap fun
    | .executedFromOutside tx => some tx
    | _ => none

/-- What the bootloader had executed. -/
def byBootloader (E : Era) (log : List Event) : List Transaction :=
  log.filterMap fun
    | .executed sender tx => if sender = E.BOOTLOADER_FORMAL_ADDRESS then some tx else none
    | _ => none

/-- All executions but those that somebody else than the bootloader, which can only be the owner,
asked for by `executeTransaction`. -/
def executions (E : Era) (log : List Event) : List Transaction :=
  log.filterMap fun
    | .executed sender tx => if sender = E.BOOTLOADER_FORMAL_ADDRESS then some tx else none
    | .executedFromOutside tx => some tx
    | _ => none

/-- All that a call can add to the record, with the nonce that it leaves. -/
inductive Happens (E : Era) (s : State) (a : AccountAction) (log : List Event) :
    List Event → ℕ → Prop where
  | accepted (tx : Transaction) (hsender : a.sender = E.BOOTLOADER_FORMAL_ADDRESS)
      (hsigned : signer E tx = some s.owner) (hnonce : tx.nonce = s.nonce) :
      Happens E s a log (.accepted a.sender s.owner tx :: log) (s.nonce + 1)
  /-- Validation uses up the nonce of what it does not accept, too. -/
  | refused : Happens E s a log log (s.nonce + 1)
  | paid (tx : Transaction) (hcall : a.call = .payForTransaction tx) (hlt : tx.fee < uint256Size)
      (hle : tx.fee ≤ s.balance + a.value) (hpos : 0 < tx.fee) :
      Happens E s a log (.paid a.sender tx tx.fee :: log) s.nonce
  | executed (tx : Transaction) (hcall : a.call = .executeTransaction tx) :
      Happens E s a log (.executed a.sender tx :: log) s.nonce
  | executedFromOutside (tx : Transaction) (hnonce : tx.nonce = s.nonce) :
      Happens E s a log (.executedFromOutside tx :: log) (s.nonce + 1)
  | nothing : Happens E s a log log s.nonce

/-- What a call writes into the history, and the nonce it leaves, whichever way it ends. -/
theorem happens_of_start (h : a.start E s = .ok p) (log : List Event) :
    ∃ n, (p.Forall fun s' => s'.nonce = n) ∧ Happens E s a log (record E s a log) n := by
  cases hcall : a.call with
  | validateTransaction tx =>
    simp only [AccountAction.start, hcall, bind_eq_ok, pure_eq_ok] at h
    obtain ⟨⟨magic, s'⟩, hval, rfl⟩ := h
    refine ⟨s.nonce + 1, ?_⟩
    simp only [record, hcall, State.receives, hval]
    obtain ⟨hsender, hpass, rfl, hmagic⟩ := validateTransaction_external_eq_ok.mp hval
    refine ⟨rfl, ?_⟩
    by_cases hsigned : signer E tx = some s.owner
    · rw [if_pos hsigned] at hmagic
      subst hmagic
      exact .accepted tx hsender hsigned hpass.nonce
    · rw [if_neg hsigned] at hmagic
      subst hmagic
      exact .refused
  | payForTransaction tx =>
    simp only [AccountAction.start, hcall, bind_eq_ok, pure_eq_ok] at h
    obtain ⟨s', hpay, rfl⟩ := h
    have hrecord : record E s a log = if s'.balance < s.balance + a.value then
        .paid a.sender tx (s.balance + a.value - s'.balance) :: log else log := by
      simp only [record, hcall, State.receives, hpay]
      rfl
    obtain ⟨hlt, hle, hs'⟩ := payForTransaction_eq_ok.mp hpay
    have hbalance : s'.balance = s.balance + a.value - tx.fee := by rw [hs']
    dsimp only at hle
    refine ⟨s.nonce, by rw [hs']; rfl, ?_⟩
    by_cases hpos : 0 < tx.fee
    · rw [hrecord, if_pos (by omega), hbalance, Nat.sub_sub_self hle]
      exact .paid tx hcall hlt hle hpos
    · rw [hrecord, if_neg (by omega)]
      exact .nothing
  | executeTransaction tx =>
    simp only [AccountAction.start, hcall, executeTransaction, bind_eq_ok,
      executeTransaction_eq_ok] at h
    obtain ⟨-, -, -, rfl⟩ := h
    refine ⟨s.nonce, forall_execution rfl rfl, ?_⟩
    simp only [record, hcall]
    exact .executed tx hcall
  | executeTransactionFromOutside tx =>
    simp only [AccountAction.start, hcall, outside_eq_ok] at h
    obtain ⟨hpass, -, rfl⟩ := h
    refine ⟨s.nonce + 1, forall_execution rfl rfl, ?_⟩
    simp only [record, hcall]
    exact .executedFromOutside tx hpass.nonce
  | receive | prepareForPaymaster =>
    simp only [AccountAction.start, hcall, pure_eq_ok] at h
    subst h
    exact ⟨s.nonce, rfl, by simpa only [record, hcall] using .nothing⟩
  | transferOwnership newOwner =>
    simp only [AccountAction.start, hcall, transferOwnership, bind_eq_ok, pure_eq_ok] at h
    obtain ⟨-, -, _, ⟨-, -, -, -, rfl⟩, rfl⟩ := h
    exact ⟨s.nonce, rfl, by simpa only [record, hcall] using .nothing⟩
  | renounceOwnership =>
    simp only [AccountAction.start, hcall, renounceOwnership, bind_eq_ok, pure_eq_ok] at h
    obtain ⟨-, -, _, ⟨-, -, rfl⟩, rfl⟩ := h
    exact ⟨s.nonce, rfl, by simpa only [record, hcall] using .nothing⟩

/-- What holds of the nonce and the record, whatever happens, holds at every point of a run. -/
theorem preserves_history {ok : History → AccountAction → Prop} {Inv : ℕ → List Event → Prop}
    (h : ∀ s a log log' n, ok (s, log) a → Inv s.nonce log → Happens E s a log log' n →
      Inv n log') :
    Preserves (History.start E) ok fun x => Inv x.1.nonce x.2 := by
  refine preserves_recording fun s log a p hok hinv hstart => ?_
  obtain ⟨n, hnonce, hhappens⟩ := happens_of_start hstart log
  refine hnonce.imp fun s' hs' => ?_
  subst hs'
  exact h s a log _ _ hok hinv hhappens

/-- Acceptances are for the bootloader and on a signature of the owner. -/
def Event.Authentic (E : Era) : Event → Prop
  | .accepted sender owner tx => sender = E.BOOTLOADER_FORMAL_ADDRESS ∧ signer E tx = some owner
  | _ => True

/-- The nonces of what was accepted and of what was executed from outside are used up, and no
transaction that was accepted shares its nonce with another one of these. -/
structure Consumed (E : Era) (n : ℕ) (log : List Event) : Prop where
  accepted_lt : ∀ tx ∈ accepted log, tx.nonce < n
  outside_lt : ∀ tx ∈ fromOutside log, tx.nonce < n
  nodup : ((accepted log).map Transaction.nonce).Nodup
  disjoint : ∀ tx ∈ accepted log, ∀ tx' ∈ fromOutside log, tx.nonce ≠ tx'.nonce
  authentic : ∀ e ∈ log, e.Authentic E

theorem consumed_nil {n : ℕ} : Consumed E n [] :=
  ⟨nofun, nofun, List.nodup_nil, nofun, nofun⟩

theorem Consumed.mono {n n' : ℕ} {log : List Event} (h : Consumed E n log) (hle : n ≤ n') :
    Consumed E n' log :=
  { h with
    accepted_lt := fun tx htx => (h.accepted_lt tx htx).trans_le hle
    outside_lt := fun tx htx => (h.outside_lt tx htx).trans_le hle }

/-- An event that is neither an acceptance nor an execution from outside. -/
theorem Consumed.cons {n : ℕ} {log : List Event} {e : Event} (h : Consumed E n log)
    (haccepted : accepted (e :: log) = accepted log)
    (houtside : fromOutside (e :: log) = fromOutside log) (he : e.Authentic E) :
    Consumed E n (e :: log) where
  accepted_lt := by rw [haccepted]; exact h.accepted_lt
  outside_lt := by rw [houtside]; exact h.outside_lt
  nodup := by rw [haccepted]; exact h.nodup
  disjoint := by rw [haccepted, houtside]; exact h.disjoint
  authentic := List.forall_mem_cons.mpr ⟨he, h.authentic⟩

/-- Each kind of event keeps the nonces of the history used up. -/
theorem Consumed.step {n : ℕ} {log log' : List Event} (h : Consumed E s.nonce log)
    (hstep : Happens E s a log log' n) : Consumed E n log' := by
  have hnext := h.mono (Nat.le_succ s.nonce)
  cases hstep with
  | accepted tx hsender hsigned hnonce =>
    have hlt : tx.nonce < s.nonce + 1 := by omega
    refine ⟨List.forall_mem_cons.mpr ⟨hlt, hnext.accepted_lt⟩, hnext.outside_lt, ?_,
      List.forall_mem_cons.mpr ⟨?_, h.disjoint⟩,
      List.forall_mem_cons.mpr ⟨⟨hsender, hsigned⟩, h.authentic⟩⟩
    · refine List.nodup_cons.mpr ⟨fun hmem => ?_, h.nodup⟩
      obtain ⟨tx', htx', heq⟩ := List.mem_map.mp hmem
      have hused := h.accepted_lt tx' htx'
      omega
    · intro tx' htx'
      have hused := h.outside_lt tx' htx'
      omega
  | refused => exact hnext
  | paid tx => exact h.cons rfl rfl trivial
  | executed tx => exact h.cons rfl rfl trivial
  | executedFromOutside tx hnonce =>
    have hlt : tx.nonce < s.nonce + 1 := by omega
    refine ⟨hnext.accepted_lt, List.forall_mem_cons.mpr ⟨hlt, hnext.outside_lt⟩, h.nodup, ?_,
      List.forall_mem_cons.mpr ⟨trivial, h.authentic⟩⟩
    intro tx' htx'
    have hused := h.accepted_lt tx' htx'
    exact List.forall_mem_cons.mpr ⟨by omega, h.disjoint tx' htx'⟩
  | nothing => exact h

/-! ## Payments -/

/-- The payment takes nothing: there is no fee, or it cannot be paid. -/
def NotCharged (tx : Transaction) (s : State) : Prop :=
  tx.fee = 0 ∨ ¬ (tx.fee < uint256Size ∧ tx.fee ≤ s.balance)

/-- A payment that takes something is asked for by the bootloader, for a transaction that was
accepted and is not paid for. -/
def PaysAccepted (E : Era) (x : History) (a : AccountAction) : Prop :=
  ∀ tx, a.call = .payForTransaction tx →
    NotCharged tx (x.1.receives a.value) ∨
      (a.sender = E.BOOTLOADER_FORMAL_ADDRESS ∧ tx ∈ accepted x.2 ∧ tx ∉ paid x.2)

/-- A payment, if it is one, was asked for by the bootloader. -/
def Event.PaidByBootloader (E : Era) : Event → Prop
  | .paid sender _ _ => sender = E.BOOTLOADER_FORMAL_ADDRESS
  | _ => True

/-- Every payment is for a transaction that was accepted, and no two are for the same one. -/
structure Covered (E : Era) (n : ℕ) (log : List Event) : Prop extends Consumed E n log where
  paid_accepted : ∀ tx ∈ paid log, tx ∈ accepted log
  paid_nodup : (paid log).Nodup
  total : totalPaid log = ((paid log).map Transaction.fee).sum
  sender : ∀ e ∈ log, e.PaidByBootloader E

theorem covered_nil {n : ℕ} : Covered E n [] :=
  ⟨consumed_nil, nofun, List.nodup_nil, rfl, nofun⟩

/-- A payment is covered by the acceptance that the bootloader goes by. -/
theorem Covered.step {n : ℕ} {log log' : List Event} (hok : PaysAccepted E (s, log) a)
    (h : Covered E s.nonce log) (hstep : Happens E s a log log' n) : Covered E n log' := by
  have hconsumed := h.toConsumed.step hstep
  cases hstep with
  | accepted tx =>
    exact ⟨hconsumed, fun tx' htx' => List.mem_cons_of_mem _ (h.paid_accepted tx' htx'),
      h.paid_nodup, h.total, List.forall_mem_cons.mpr ⟨trivial, h.sender⟩⟩
  | paid tx hcall hlt hle hpos =>
    -- the fee is charged, so the payment is one for a transaction that is still to be paid
    have hcharged : ¬ NotCharged tx (s.receives a.value) := by
      rintro (hzero | hnot)
      · omega
      · exact hnot ⟨hlt, hle⟩
    obtain ⟨hsender, haccepted, hunpaid⟩ := (hok tx hcall).resolve_left hcharged
    refine ⟨hconsumed, List.forall_mem_cons.mpr ⟨haccepted, h.paid_accepted⟩,
      List.nodup_cons.mpr ⟨hunpaid, h.paid_nodup⟩, ?_,
      List.forall_mem_cons.mpr ⟨hsender, h.sender⟩⟩
    exact congrArg (tx.fee + ·) h.total
  | refused => exact ⟨hconsumed, h.paid_accepted, h.paid_nodup, h.total, h.sender⟩
  | executed tx =>
    exact ⟨hconsumed, h.paid_accepted, h.paid_nodup, h.total,
      List.forall_mem_cons.mpr ⟨trivial, h.sender⟩⟩
  | executedFromOutside tx =>
    exact ⟨hconsumed, h.paid_accepted, h.paid_nodup, h.total,
      List.forall_mem_cons.mpr ⟨trivial, h.sender⟩⟩
  | nothing => exact h

/-- So every run keeps the payments covered. -/
theorem preserves_covered :
    Preserves (History.start E) (PaysAccepted E) fun x => Covered E x.1.nonce x.2 :=
  preserves_history fun _ _ _ _ _ hok h hstep => h.step hok hstep

/-- What was paid is a part of the fees of what was accepted. -/
theorem Covered.totalPaid_le {n : ℕ} {log : List Event} (h : Covered E n log) :
    totalPaid log ≤ ((accepted log).map Transaction.fee).sum := by
  rw [h.total]
  exact sum_map_le_of_nodup Transaction.fee h.paid_nodup h.paid_accepted

/-- Who asks for a payment does not matter. -/
theorem totalPaid_record (hcall : a.call = .payForTransaction tx) :
    totalPaid (record E s a []) = 0 ↔ NotCharged tx (s.receives a.value) := by
  by_cases hpass : tx.fee < uint256Size ∧ tx.fee ≤ (s.receives a.value).balance
  · have hpay := payForTransaction_eq_ok.mpr ⟨hpass.1, hpass.2, rfl⟩
    have hle := hpass.2
    simp only [record, hcall, hpay, NotCharged, hpass, and_self, not_true, or_false]
    split
    case isTrue hless =>
      simp only [totalPaid]
      omega
    case isFalse hsame =>
      simp only [totalPaid, true_iff]
      omega
  · cases hpay : payForTransaction tx (s.receives a.value) with
    | error e =>
      simp only [record, hcall, hpay, totalPaid, NotCharged, hpass, not_false_eq_true, or_true]
    | ok s' =>
      obtain ⟨hlt, hle, -⟩ := payForTransaction_eq_ok.mp hpay
      exact absurd ⟨hlt, hle⟩ hpass

/-- **Payments.** In every run in which payments that take something are asked for by the
bootloader, for transactions that were accepted and once for each, the ETH that left the account
through `payForTransaction` is at no point more than the fees of the transactions accepted so far.
All of these were signed by the owner, and no two of them are the same. But this is for the callers
to ensure. A payment takes nothing exactly if there is no fee or it cannot be paid, whoever asks for
it and whatever was accepted. -/
theorem fees_authorised (E : Era) :
    (∀ (c : Calls AccountAction) s, c.Along (History.start E) (PaysAccepted E) (s, []) →
      ∀ x ∈ c.points (History.start E) (s, []),
        totalPaid x.2 ≤ ((accepted x.2).map Transaction.fee).sum ∧ (accepted x.2).Nodup ∧
        (∀ sender owner tx, .accepted sender owner tx ∈ x.2 →
          sender = E.BOOTLOADER_FORMAL_ADDRESS ∧ signer E tx = some owner) ∧
        ∀ sender tx amount, .paid sender tx amount ∈ x.2 → sender = E.BOOTLOADER_FORMAL_ADDRESS) ∧
    ∀ s (a : AccountAction) tx, a.call = .payForTransaction tx →
      (totalPaid (record E s a []) = 0 ↔ NotCharged tx (s.receives a.value)) := by
  refine ⟨fun c s hok x hx => ?_, fun s a tx hcall => totalPaid_record hcall⟩
  have h : Covered E x.1.nonce x.2 := preserves_covered.points c hok covered_nil x hx
  exact ⟨h.totalPaid_le, h.nodup.of_map _, fun _ _ _ hmem => h.authentic _ hmem,
    fun _ _ _ hmem => h.sender _ hmem⟩

/-- The bootloader asks to validate, to pay for and to execute a transaction. The target of the
execution submits the next one, which the owner signed as well, and then the first one again. -/
def sampleProtocol : Calls AccountAction :=
  .call ⟨0x8001, 0, 0, .validateTransaction (sampleTransaction 0 9 30 20 1)⟩ .done true <|
  .call ⟨0x8001, 0, 0, .payForTransaction (sampleTransaction 0 9 30 20 1)⟩ .done true <|
  .call ⟨0x8001, 0, 0, .executeTransaction (sampleTransaction 0 9 30 20 1)⟩
    (.call (sampleSubmit (sampleTransaction 1 9 10 0 1)) .done true <|
      .call (sampleSubmit (sampleTransaction 0 9 30 20 1)) .done true .done)
    true .done

/-- What the protocol leaves. -/
def sampleHistory : History := sampleProtocol.exec (History.start sampleEra) (sampleAccount, [])

/-- The one fee that was paid is twenty wei. -/
theorem fees_authorised_sample :
    sampleHistory.1 = ⟨1, 2, 40⟩ ∧ totalPaid sampleHistory.2 = 20 ∧
      totalPaid sampleHistory.2 ≤ ((accepted sampleHistory.2).map Transaction.fee).sum := by
  refine ⟨by decide, by decide, ?_⟩
  refine ((fees_authorised sampleEra).1 sampleProtocol sampleAccount ?_ sampleHistory
    (Calls.exec_mem_points ..)).1
  refine ⟨nofun, fun _ _ => trivial, ?_, fun _ _ => trivial, nofun, fun _ _ => ?_, trivial⟩
  · rintro _ ⟨⟩
    exact .inr (by decide)
  · exact ⟨nofun, fun _ _ => trivial, nofun, fun _ _ => trivial, trivial⟩

/-- Account 66 has the account pay for a transaction that nobody signed. -/
def sampleDrained : History :=
  (Calls.ofList [⟨66, 0, 0, .payForTransaction (sampleTransaction 0 0 0 100 0)⟩]).exec
    (History.start sampleEra) (sampleAccount, [])

/-- Nothing was accepted, and all of the account's ETH is gone. -/
theorem fees_unauthorised :
    sampleDrained = (⟨1, 0, 0⟩, [.paid 66 (sampleTransaction 0 0 0 100 0) 100]) ∧
    (66 : Address) ≠ sampleEra.BOOTLOADER_FORMAL_ADDRESS ∧
    ¬ totalPaid sampleDrained.2 ≤ ((accepted sampleDrained.2).map Transaction.fee).sum := by
  decide

/-! ## Executions -/

/-- The bootloader has a transaction executed only if it was accepted, and only once. -/
def ExecutesAccepted (E : Era) (x : History) (a : AccountAction) : Prop :=
  ∀ tx, a.call = .executeTransaction tx → a.sender = E.BOOTLOADER_FORMAL_ADDRESS →
    tx ∈ accepted x.2 ∧ tx ∉ byBootloader E x.2

theorem mem_executions {log : List Event} :
    tx ∈ executions E log ↔ tx ∈ byBootloader E log ∨ tx ∈ fromOutside log := by
  simp only [executions, byBootloader, fromOutside, List.mem_filterMap, ← exists_or, ← and_or_left]
  refine exists_congr fun e => and_congr_right fun _ => ?_
  cases e <;> simp

/-- What the bootloader had executed was accepted, and no two executions share a nonce. -/
structure Unreplayed (E : Era) (n : ℕ) (log : List Event) : Prop extends Consumed E n log where
  by_accepted : ∀ tx ∈ byBootloader E log, tx ∈ accepted log
  executed_nodup : ((executions E log).map Transaction.nonce).Nodup

theorem unreplayed_nil {n : ℕ} : Unreplayed E n [] := ⟨consumed_nil, nofun, List.nodup_nil⟩

/-- The nonce of an executed transaction was used up, by the bootloader's validation or from
outside. -/
theorem Unreplayed.executed_lt {n : ℕ} {log : List Event} (h : Unreplayed E n log) :
    ∀ tx ∈ executions E log, tx.nonce < n := by
  intro tx htx
  rcases mem_executions.mp htx with hby | hout
  · exact h.accepted_lt tx (h.by_accepted tx hby)
  · exact h.outside_lt tx hout

/-- The nonce of an accepted transaction that was not executed yet leads to no other execution. -/
theorem Unreplayed.nonce_notMem {n : ℕ} {log : List Event} (h : Unreplayed E n log)
    (haccepted : tx ∈ accepted log) (hnew : tx ∉ byBootloader E log) :
    tx.nonce ∉ (executions E log).map Transaction.nonce := by
  intro hmem
  obtain ⟨tx', htx', heq⟩ := List.mem_map.mp hmem
  rcases mem_executions.mp htx' with hby | hout
  · obtain rfl := List.inj_on_of_nodup_map h.nodup (h.by_accepted tx' hby) haccepted heq
    exact hnew hby
  · exact h.disjoint tx haccepted tx' hout heq.symm

/-- An event adds an execution only with a nonce that no earlier one had. -/
theorem Unreplayed.step {n : ℕ} {log log' : List Event} (hok : ExecutesAccepted E (s, log) a)
    (h : Unreplayed E s.nonce log) (hstep : Happens E s a log log' n) : Unreplayed E n log' := by
  have hconsumed := h.toConsumed.step hstep
  cases hstep with
  | accepted tx =>
    exact ⟨hconsumed, fun tx' htx' => List.mem_cons_of_mem _ (h.by_accepted tx' htx'),
      h.executed_nodup⟩
  | executed tx hcall =>
    by_cases hsender : a.sender = E.BOOTLOADER_FORMAL_ADDRESS
    · obtain ⟨haccepted, hnew⟩ := hok tx hcall hsender
      have hby : byBootloader E (.executed a.sender tx :: log) = tx :: byBootloader E log := by
        simp [byBootloader, hsender]
      have hexec : executions E (.executed a.sender tx :: log) = tx :: executions E log := by
        simp [executions, hsender]
      refine ⟨hconsumed, ?_, ?_⟩
      · rw [hby]
        exact List.forall_mem_cons.mpr ⟨haccepted, h.by_accepted⟩
      · rw [hexec]
        exact List.nodup_cons.mpr ⟨h.nonce_notMem haccepted hnew, h.executed_nodup⟩
    · have hby : byBootloader E (.executed a.sender tx :: log) = byBootloader E log := by
        simp [byBootloader, hsender]
      have hexec : executions E (.executed a.sender tx :: log) = executions E log := by
        simp [executions, hsender]
      exact ⟨hconsumed, by rw [hby]; exact h.by_accepted, by rw [hexec]; exact h.executed_nodup⟩
  | executedFromOutside tx hnonce =>
    refine ⟨hconsumed, h.by_accepted, List.nodup_cons.mpr ⟨fun hmem => ?_, h.executed_nodup⟩⟩
    obtain ⟨tx', htx', heq⟩ := List.mem_map.mp hmem
    have hused := h.executed_lt tx' htx'
    omega
  | refused => exact ⟨hconsumed, h.by_accepted, h.executed_nodup⟩
  | paid tx => exact ⟨hconsumed, h.by_accepted, h.executed_nodup⟩
  | nothing => exact h

/-- So in every run no nonce is executed twice. -/
theorem preserves_unreplayed :
    Preserves (History.start E) (ExecutesAccepted E) fun x => Unreplayed E x.1.nonce x.2 :=
  preserves_history fun _ _ _ _ _ hok h hstep => h.step hok hstep

/-- **No replay.** In every run in which the bootloader has transactions executed only after they
were accepted and once each, with whatever calls from outside and from the targets of executions, no
nonce leads to two executions at any point. So no transaction is executed twice, but for executions
that the owner asks for by `executeTransaction`. -/
theorem executed_once (E : Era) (c : Calls AccountAction) (s : State)
    (hok : c.Along (History.start E) (ExecutesAccepted E) (s, [])) :
    ∀ x ∈ c.points (History.start E) (s, []),
      ((executions E x.2).map Transaction.nonce).Nodup ∧ (executions E x.2).Nodup := by
  intro x hx
  have h : Unreplayed E x.1.nonce x.2 := preserves_unreplayed.points c hok unreplayed_nil x hx
  exact ⟨h.executed_nodup, h.executed_nodup.of_map _⟩

/-- Both transactions are executed, the first one inside of which the second one is, and neither
again. -/
theorem executed_once_sample :
    executions sampleEra sampleHistory.2 =
      [sampleTransaction 1 9 10 0 1, sampleTransaction 0 9 30 20 1] ∧
    ((executions sampleEra sampleHistory.2).map Transaction.nonce).Nodup := by
  refine ⟨by decide, ?_⟩
  refine (executed_once sampleEra sampleProtocol sampleAccount ?_ sampleHistory
    (Calls.exec_mem_points ..)).1
  refine ⟨nofun, fun _ _ => trivial, nofun, fun _ _ => trivial, ?_, fun _ _ => ?_, trivial⟩
  · rintro _ ⟨⟩
    decide
  · exact ⟨nofun, fun _ _ => trivial, nofun, fun _ _ => trivial, trivial⟩

end Account

end UpdraftContracts

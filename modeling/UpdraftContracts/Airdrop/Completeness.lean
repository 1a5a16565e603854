import UpdraftContracts.Airdrop.MakeMerkle
import UpdraftContracts.Airdrop.Soundness

/-!
# Everybody on the list is paid

With what the script puts out every account of the list can claim its amount, whatever the order of
the claims, as long as the accounts are distinct and the airdrop was given the sum of the amounts.
The invariant is that the airdrop has what it still owes: the amounts of the accounts that have not
claimed. A second claim of an account fails and changes nothing.

## Main results

* `claim_complete` — a claim goes through unless the account has claimed before
* `airdrop_complete` — the output of the script, and what every run of claims with it does
-/

namespace UpdraftContracts

open Evm

namespace Airdrop

open MerkleAirdrop

variable {C : Crypto} {D : Deployment} {entries : List (Address × Word)} {account : Address}
  {c : Claim} {s : State}

/-! ## What is owed -/

/-- What the airdrop still owes. -/
def owed (entries : List (Address × Word)) (hasClaimed : Address → Bool) : ℕ :=
  ((entries.filter fun e => !hasClaimed e.1).map fun e => e.2.val).sum

/-- In the beginning all entries are owed. -/
theorem owed_of_fresh {hasClaimed : Address → Bool} (h : ∀ a, hasClaimed a = false) :
    owed entries hasClaimed = (entries.map fun e => e.2.val).sum := by
  rw [owed, List.filter_eq_self.mpr fun e _ => by rw [h]; rfl]

/-- A claim of an account that is not on the list takes nothing off. -/
theorem owed_update_of_notMem {hasClaimed : Address → Bool} (h : account ∉ entries.map Prod.fst) :
    owed entries (Function.update hasClaimed account true) = owed entries hasClaimed := by
  have hfilter : (entries.filter fun e => !Function.update hasClaimed account true e.1)
      = entries.filter fun e => !hasClaimed e.1 := by
    refine List.filter_congr fun e he => ?_
    have hne : e.1 ≠ account := fun heq => h (heq ▸ List.mem_map_of_mem he)
    rw [Function.update_of_ne hne]
  rw [owed, hfilter, owed]

/-- The first claim of an account takes its amount off. -/
theorem owed_update {hasClaimed : Address → Bool} {amount : Word}
    (hnodup : (entries.map Prod.fst).Nodup) (hmem : (account, amount) ∈ entries)
    (hnew : hasClaimed account = false) :
    owed entries (Function.update hasClaimed account true) + amount.val
      = owed entries hasClaimed := by
  induction entries with
  | nil => exact absurd hmem List.not_mem_nil
  | cons e entries ih =>
    have hcons : ∀ h : Address → Bool, owed (e :: entries) h
        = (if h e.1 = false then e.2.val else 0) + owed entries h := by
      intro h
      by_cases he : h e.1 = false
      · simp [owed, he]
      · simp [owed, he]
    rw [List.map_cons, List.nodup_cons] at hnodup
    rw [hcons, hcons]
    rcases List.mem_cons.mp hmem with rfl | hmem
    · rw [owed_update_of_notMem hnodup.1, Function.update_self, if_neg Bool.noConfusion,
        if_pos hnew, Nat.zero_add, Nat.add_comm]
    · have hne : e.1 ≠ account := by
        rintro rfl
        exact hnodup.1 (List.mem_map.mpr ⟨_, hmem, rfl⟩)
      rw [Function.update_of_ne hne, Nat.add_assoc, ih hnodup.2 hmem]

/-! ## Claims with the output of the script -/

/-- The signer that `tryRecover` returns without an error is not the zero account. -/
def Crypto.NonzeroSigner (C : Crypto) : Prop :=
  ∀ digest v r s, (C.tryRecover digest v r s).2.1 = .NoError → (C.tryRecover digest v r s).1 ≠ 0

/-- A claim for an entry of the list, signed by the account, with a proof that is accepted. -/
structure Claim.Complete (C : Crypto) (D : Deployment) (entries : List (Address × Word))
    (c : Claim) : Prop extends c.Genuine C D entries where
  accepted : Merkle.verify C.keccak256 concat c.proof D.i_merkleRoot (leaf C c.account c.amount)

/-- What the airdrop relies on. -/
structure Reliable (C : Crypto) (D : Deployment) (entries : List (Address × Word)) : Prop where
  this_ne_zero : D.this ≠ 0
  token : D.airdropToken.Standard
  signer : C.NonzeroSigner
  distinct : (entries.map Prod.fst).Nodup

/-- The airdrop has what it owes. -/
def Funded (D : Deployment) (entries : List (Address × Word)) (s : State) : Prop :=
  owed entries s.s_hasClaimed ≤ s.ledger.balance D.this

/-- The state after a claim that goes through. -/
def State.paid (s : State) (D : Deployment) (c : Claim) : State :=
  ⟨Function.update s.s_hasClaimed c.account true, s.ledger.move D.this c.account c.amount.val⟩

/-- What is owed to one account is there. -/
theorem Reliable.amount_le (h : Reliable C D entries) (hfunded : Funded D entries s)
    (hc : c.Complete C D entries) (hnew : s.s_hasClaimed c.account = false) :
    c.amount.val ≤ s.ledger.balance D.this := by
  have howed := owed_update h.distinct hc.listed hnew
  rw [Funded] at hfunded
  omega

/-- **Completeness of one claim.** -/
theorem Reliable.claim_complete (h : Reliable C D entries) (hfunded : Funded D entries s)
    (hc : c.Complete C D entries) (hnew : s.s_hasClaimed c.account = false) :
    claim C D c s = .ok (s.paid D c) := by
  have haccount : c.account ≠ 0 := by
    rw [← hc.signer]
    exact h.signer _ _ _ _ hc.noError
  exact claim_eq_ok.mpr ⟨hnew, hc.signer, hc.accepted, _,
    h.token.transfer_ok h.this_ne_zero haccount (h.amount_le hfunded hc hnew), rfl⟩

theorem claim_again (hold : s.s_hasClaimed c.account = true) :
    claim C D c s = .error (.custom .MerkleAirdrop__AlreadyClaimed) := by
  rw [claim, hold]
  rfl

/-- A claim lowers what is owed and what is there by the same amount. -/
theorem Reliable.funded_paid (h : Reliable C D entries) (hfunded : Funded D entries s)
    (hc : c.Complete C D entries) (hnew : s.s_hasClaimed c.account = false) :
    Funded D entries (s.paid D c) := by
  have hle := h.amount_le hfunded hc hnew
  have howed : owed entries (s.paid D c).s_hasClaimed + c.amount.val
      = owed entries s.s_hasClaimed := owed_update h.distinct hc.listed hnew
  have hbalance : s.ledger.balance D.this - c.amount.val ≤ (s.paid D c).ledger.balance D.this := by
    rw [State.paid, Ledger.balance_move hle, if_pos rfl]
    exact Nat.le_add_right _ _
  rw [Funded] at hfunded ⊢
  omega

/-! ## Runs of claims -/

/-- The state after an action. The token calls nobody. -/
def AirdropAction.step (C : Crypto) (D : Deployment) (s : State) (a : AirdropAction) : State :=
  Calls.complete (AirdropAction.start C D) a id true s

/-- The account that an action claims for. -/
def AirdropAction.claimant : AirdropAction → Option Address
  | .claim c => some c.account
  | .elsewhere _ => none

/-- Claims are of a certain kind, and what else happens to the token takes nothing from the
airdrop. -/
def AirdropAction.Fair (D : Deployment) (kind : Claim → Prop) (s : State) : AirdropAction → Prop
  | .claim c => kind c
  | .elsewhere ledger => s.ledger.balance D.this ≤ ledger.balance D.this

theorem AirdropAction.Fair.imp {kind kind' : Claim → Prop} (himp : ∀ c, kind c → kind' c)
    {a : AirdropAction} (h : a.Fair D kind s) : a.Fair D kind' s := by
  cases a with
  | claim c => exact himp c h
  | elsewhere ledger => exact h

/-- Counts the claims for an account that go through. -/
def AirdropAction.pays (C : Crypto) (D : Deployment) (account : Address) (s : State) :
    AirdropAction → ℕ
  | .claim c => if c.account = account ∧ Succeeds (MerkleAirdrop.claim C D c s) then 1 else 0
  | .elsewhere _ => 0

theorem step_claim : AirdropAction.step C D s (.claim c) = settle s (claim C D c s) := by
  rw [AirdropAction.step, Calls.complete, AirdropAction.start]
  cases claim C D c s with
  | ok s' => rfl
  | error e => rfl

/-- What a claim in a run does. -/
theorem Reliable.step_claim_cases (h : Reliable C D entries) (hfunded : Funded D entries s)
    (hc : c.Complete C D entries) :
    (s.s_hasClaimed c.account = true ∧ ¬ Succeeds (claim C D c s) ∧
      AirdropAction.step C D s (.claim c) = s) ∨
    (s.s_hasClaimed c.account = false ∧ Succeeds (claim C D c s) ∧
      AirdropAction.step C D s (.claim c) = s.paid D c) := by
  rw [step_claim]
  cases hclaimed : s.s_hasClaimed c.account with
  | true =>
    rw [claim_again hclaimed]
    exact .inl ⟨rfl, not_succeeds_error _, rfl⟩
  | false =>
    rw [h.claim_complete hfunded hc hclaimed]
    exact .inr ⟨rfl, succeeds_ok _, rfl⟩

/-- So the airdrop stays funded in every step. -/
theorem Reliable.funded_step (h : Reliable C D entries) (s : State) (a : AirdropAction)
    (hfair : a.Fair D (Claim.Complete C D entries) s) (hfunded : Funded D entries s) :
    Funded D entries (a.step C D s) := by
  cases a with
  | claim c =>
    obtain ⟨-, -, hstep⟩ | ⟨hnew, -, hstep⟩ := h.step_claim_cases hfunded hfair
    · rwa [hstep]
    · rw [hstep]
      exact h.funded_paid hfunded hfair hnew
  | elsewhere ledger => exact le_trans hfunded hfair

/-- A claim marks its account and no other. -/
theorem hasClaimed_paid :
    (s.paid D c).s_hasClaimed account = true ↔
      s.s_hasClaimed account = true ∨ c.account = account := by
  have happly : (s.paid D c).s_hasClaimed account
      = if account = c.account then true else s.s_hasClaimed account := Function.update_apply ..
  rw [happly]
  split
  · next heq => exact iff_of_true rfl (.inr heq.symm)
  · next hne => exact ⟨.inl, fun h => h.resolve_right (Ne.symm hne)⟩

/-- An account is marked by its own claim only. -/
theorem Reliable.hasClaimed_step (h : Reliable C D entries) {a : AirdropAction}
    (hfair : a.Fair D (Claim.Complete C D entries) s) (hfunded : Funded D entries s) :
    (a.step C D s).s_hasClaimed account = true ↔
      s.s_hasClaimed account = true ∨ a.claimant = some account := by
  cases a with
  | claim c =>
    simp only [AirdropAction.claimant, Option.some.injEq]
    obtain ⟨hold, -, hstep⟩ | ⟨-, -, hstep⟩ := h.step_claim_cases hfunded hfair
    · rw [hstep]
      exact ⟨.inl, fun hor => hor.elim id fun heq => heq ▸ hold⟩
    · rw [hstep, hasClaimed_paid]
  | elsewhere ledger => exact ⟨.inl, fun hor => hor.resolve_right nofun⟩

/-- Who has claimed after a run. -/
theorem Reliable.hasClaimed_run (h : Reliable C D entries) (account : Address)
    {as : List AirdropAction} (hfunded : Funded D entries s)
    (hfair : Along (AirdropAction.step C D) (AirdropAction.Fair D (Claim.Complete C D entries))
      s as) :
    (run (AirdropAction.step C D) s as).s_hasClaimed account = true ↔
      s.s_hasClaimed account = true ∨ account ∈ as.filterMap AirdropAction.claimant := by
  induction as generalizing s with
  | nil => simp
  | cons a as ih =>
    obtain ⟨ha, has⟩ := hfair
    rw [run_cons, ih (h.funded_step s a ha hfunded) has, h.hasClaimed_step ha hfunded, or_assoc,
      List.mem_filterMap, List.mem_filterMap, List.exists_mem_cons_iff]

/-- Whether an account has claimed, as a number. -/
def State.claims (account : Address) (s : State) : ℤ :=
  if s.s_hasClaimed account = true then 1 else 0

theorem claims_of_claimed (h : s.s_hasClaimed account = true) : s.claims account = 1 := if_pos h

theorem claims_of_new (h : s.s_hasClaimed account = false) : s.claims account = 0 :=
  if_neg (Bool.eq_false_iff.mp h)

/-- A claim that goes through is the first of its account. -/
theorem Reliable.claims_step (h : Reliable C D entries) (account : Address) (s : State)
    (a : AirdropAction) (hfair : a.Fair D (Claim.Complete C D entries) s)
    (hfunded : Funded D entries s) :
    (a.step C D s).claims account = s.claims account + a.pays C D account s := by
  cases a with
  | claim c =>
    obtain ⟨-, hfails, hstep⟩ | ⟨hnew, hpays, hstep⟩ := h.step_claim_cases hfunded hfair
    · have hzero : AirdropAction.pays C D account s (.claim c) = 0 :=
        if_neg fun hand => hfails hand.2
      rw [hstep, hzero, Nat.cast_zero, add_zero]
    · rw [hstep]
      by_cases heq : c.account = account
      · subst heq
        have hone : AirdropAction.pays C D c.account s (.claim c) = 1 := if_pos ⟨rfl, hpays⟩
        rw [claims_of_claimed (hasClaimed_paid.mpr (.inr rfl)), claims_of_new hnew, hone]
        rfl
      · have hzero : AirdropAction.pays C D account s (.claim c) = 0 :=
          if_neg fun hand => heq hand.1
        have hsame : (s.paid D c).s_hasClaimed account = true ↔ s.s_hasClaimed account = true := by
          rw [hasClaimed_paid, or_iff_left heq]
        rw [hzero, Nat.cast_zero, add_zero, State.claims, State.claims]
        simp only [hsame]
  | elsewhere ledger =>
    rw [AirdropAction.pays, Nat.cast_zero, add_zero]
    rfl

/-- How often an account is paid in a run. -/
theorem Reliable.tally_pays (h : Reliable C D entries) {as : List AirdropAction}
    (hfunded : Funded D entries s) (hnew : s.s_hasClaimed account = false)
    (hfair : Along (AirdropAction.step C D) (AirdropAction.Fair D (Claim.Complete C D entries))
      s as) :
    tally (AirdropAction.step C D) (AirdropAction.pays C D account) s as
      = if account ∈ as.filterMap AirdropAction.claimant then 1 else 0 := by
  have htally := run_tally h.funded_step (h.claims_step account) hfair hfunded
  have hrun := h.hasClaimed_run account hfunded hfair
  rw [hnew, or_iff_right Bool.noConfusion] at hrun
  rw [claims_of_new hnew, zero_add] at htally
  split
  · next hmem =>
    rw [claims_of_claimed (hrun.mpr hmem)] at htally
    exact_mod_cast htally.symm
  · next hmem =>
    rw [claims_of_new (Bool.eq_false_iff.mpr (mt hrun.mp hmem))] at htally
    exact_mod_cast htally.symm

/-- **Runs of claims.** Claims with accepted proofs, in any order, when the airdrop was given what
it owes. -/
theorem Reliable.complete_run (h : Reliable C D entries) {as : List AirdropAction}
    (hfresh : ∀ account, s.s_hasClaimed account = false)
    (hgiven : (entries.map fun e => e.2.val).sum ≤ s.ledger.balance D.this)
    (hfair : Along (AirdropAction.step C D) (AirdropAction.Fair D (Claim.Complete C D entries))
      s as) :
    (∀ account, tally (AirdropAction.step C D) (AirdropAction.pays C D account) s as
      = if account ∈ as.filterMap AirdropAction.claimant then 1 else 0) ∧
    ∀ c : Claim, c.Complete C D entries → c.account ∉ as.filterMap AirdropAction.claimant →
      claim C D c (run (AirdropAction.step C D) s as)
        = .ok ((run (AirdropAction.step C D) s as).paid D c) := by
  have hfunded : Funded D entries s := by
    rw [Funded, owed_of_fresh hfresh]
    exact hgiven
  refine ⟨fun account => h.tally_pays hfunded (hfresh account) hfair, fun c hc hnew => ?_⟩
  refine h.claim_complete (run_invariant h.funded_step hfair hfunded) hc ?_
  have hrun := h.hasClaimed_run c.account hfunded hfair
  rw [hfresh, or_iff_right Bool.noConfusion] at hrun
  exact Bool.eq_false_iff.mpr (mt hrun.mp hnew)

/-! ## From the script to the payments -/

/-- A claim with the output of the script for its entry and a valid signature of the account. -/
def Claim.Prepared (C : Crypto) (D : Deployment) (input : MakeMerkle.Input)
    (outputs : List MakeMerkle.Output) (c : Claim) : Prop :=
  ∃ i o, outputs[i]? = some o ∧ (c.account, c.amount) = input.entry i ∧ c.proof = o.proof ∧
    (C.tryRecover (getMessageHash C D c.account c.amount) c.v c.r c.s).1 = c.account ∧
    (C.tryRecover (getMessageHash C D c.account c.amount) c.v c.r c.s).2.1 = .NoError

variable {M : MakeMerkle.Murky C.keccak256} {input : MakeMerkle.Input}

/-- A claim with a proof that `MakeMerkle` put out is complete. -/
theorem Claim.Prepared.complete (htypes : input.types = [.address, .uint])
    (hcount : 2 ≤ input.count) (hroot : D.i_merkleRoot = MakeMerkle.root M input)
    (h : c.Prepared C D input ((List.range input.count).map (MakeMerkle.output M input))) :
    c.Complete C D input.entries := by
  obtain ⟨i, o, ho, hentry, hproof, hsigner, hnoError⟩ := h
  rw [List.getElem?_map, Option.map_eq_some_iff] at ho
  obtain ⟨j, hj, rfl⟩ := ho
  obtain ⟨hi, rfl⟩ : i < input.count ∧ j = i := by
    obtain ⟨hlen, heq⟩ := List.getElem?_eq_some_iff.mp hj
    rw [List.length_range] at hlen
    exact ⟨hlen, by rw [← heq, List.getElem_range]⟩
  have hlisted : input.entry j ∈ input.entries :=
    List.mem_map.mpr ⟨j, List.mem_range.mpr hi, rfl⟩
  have hverify := MakeMerkle.verify_output (M := M) htypes hcount hi
  rw [← hentry] at hlisted hverify
  exact ⟨⟨hlisted, hsigner, hnoError⟩, by rw [hproof, hroot]; exact hverify⟩

/-- **Completeness of the airdrop.** For a list of at least two accounts and amounts the script puts
out the leaves that the contract computes. Let the airdrop be deployed with the root and given the
sum of the amounts, and let the accounts be distinct. Then in every order of claims with the output
of the script, each account that claims is paid exactly once, and every account that has not claimed
yet can claim its amount. -/
theorem airdrop_complete (htypes : input.types = [.address, .uint])
    (hcount : 2 ≤ input.count) :
    ∃ outputs, MakeMerkle.run M input = some outputs ∧
      outputs.map MakeMerkle.Output.leaf = (input.entries.map fun e => leaf C e.1 e.2) ∧
      ∀ D s as, Reliable C D input.entries → (∀ o ∈ outputs, D.i_merkleRoot = o.root) →
        (∀ account, s.s_hasClaimed account = false) →
        (input.entries.map fun e => e.2.val).sum ≤ s.ledger.balance D.this →
        Along (AirdropAction.step C D) (AirdropAction.Fair D (Claim.Prepared C D input outputs))
          s as →
        (∀ account, tally (AirdropAction.step C D) (AirdropAction.pays C D account) s as
          = if account ∈ as.filterMap AirdropAction.claimant then 1 else 0) ∧
        ∀ c, c.Prepared C D input outputs → c.account ∉ as.filterMap AirdropAction.claimant →
          claim C D c (run (AirdropAction.step C D) s as)
            = .ok ((run (AirdropAction.step C D) s as).paid D c) := by
  refine ⟨_, MakeMerkle.run_eq_some hcount, ?_, ?_⟩
  · rw [List.map_map, ← MakeMerkle.leafs_eq (M := M) htypes, MakeMerkle.leafs]
    exact List.map_congr_left fun i hi => MakeMerkle.getD_leafs (List.mem_range.mp hi)
  · intro D s as h hroots hfresh hgiven hprepared
    have hroot : D.i_merkleRoot = MakeMerkle.root M input :=
      hroots (MakeMerkle.output M input 0)
        (List.mem_map_of_mem (List.mem_range.mpr (Nat.lt_of_lt_of_le Nat.two_pos hcount)))
    have hfair := hprepared.imp fun _ _ ha =>
      ha.imp fun _ hc => Claim.Prepared.complete htypes hcount hroot hc
    obtain ⟨hpaid, hclaim⟩ := h.complete_run hfresh hgiven hfair
    exact ⟨hpaid, fun c hc => hclaim c (hc.complete htypes hcount hroot)⟩

/-! ### An airdrop for three accounts -/

theorem sampleCrypto_nonzeroSigner : sampleCrypto.NonzeroSigner := by
  have hofNat : ∀ v : UInt8, v ≠ 0 → Address.ofNat v.toNat ≠ 0 := by
    intro v hv heq
    have hval : v.toNat % 2 ^ 160 = 0 := congrArg Fin.val heq
    have hlt : v.toNat < 256 := v.toNat_lt
    rw [Nat.mod_eq_of_lt (hlt.trans (by decide))] at hval
    exact hv (UInt8.toNat_inj.mp hval)
  intro digest v r s hnoError
  simp only [sampleCrypto] at hnoError ⊢
  split
  · next hv =>
    rw [if_pos hv] at hnoError
    cases hnoError
  · next hv => exact hofNat v hv

/-- Accounts 10, 11 and 12 with amounts of 25, 30 and 35. -/
def sampleInput : MakeMerkle.Input where
  types := [.address, .uint]
  count := 3
  readAddress i _ := Address.ofNat (10 + i)
  readUint i _ := Word.ofNat (25 + 5 * i)

/-- The trees that the script makes. -/
def sampleMurky : MakeMerkle.Murky sampleCrypto.keccak256 := MakeMerkle.murky sampleCrypto.keccak256

/-- The airdrop over `sampleInput`. -/
def completeDeployment : Deployment :=
  ⟨2, 0, MakeMerkle.root sampleMurky sampleInput, referenceErc20⟩

/-- The claim of account `10 + i`. -/
def preparedClaim (i : ℕ) : Claim :=
  ⟨Address.ofNat (10 + i), Word.ofNat (25 + 5 * i),
    (MakeMerkle.output sampleMurky sampleInput i).proof, UInt8.ofNat (10 + i), 0, 0⟩

/-- Account 12 claims, then account 10, then account 12 again. -/
def completeRun : List AirdropAction :=
  [.claim (preparedClaim 2), .claim (preparedClaim 0), .claim (preparedClaim 2)]

/-- Account 12 is paid once, and account 11 can still claim. -/
theorem airdrop_complete_sample :
    tally (AirdropAction.step sampleCrypto completeDeployment)
      (AirdropAction.pays sampleCrypto completeDeployment 12) sampleState completeRun = 1 ∧
    Succeeds (claim sampleCrypto completeDeployment (preparedClaim 1)
      (run (AirdropAction.step sampleCrypto completeDeployment) sampleState completeRun)) := by
  have htypes : sampleInput.types = [.address, .uint] := rfl
  have hcount : 2 ≤ sampleInput.count := by decide
  obtain ⟨outputs, hrun, -, hall⟩ := airdrop_complete (M := sampleMurky) htypes hcount
  rw [MakeMerkle.run_eq_some hcount] at hrun
  obtain rfl := Option.some.inj hrun
  have hprepared : ∀ i < 3, (preparedClaim i).Prepared sampleCrypto completeDeployment sampleInput
      ((List.range 3).map (MakeMerkle.output sampleMurky sampleInput)) := by
    intro i hi
    obtain rfl | rfl | rfl : i = 0 ∨ i = 1 ∨ i = 2 := by omega
    · exact ⟨0, _, rfl, rfl, rfl, by decide, by decide⟩
    · exact ⟨1, _, rfl, rfl, rfl, by decide, by decide⟩
    · exact ⟨2, _, rfl, rfl, rfl, by decide, by decide⟩
  have hreliable : Reliable sampleCrypto completeDeployment sampleInput.entries :=
    ⟨by decide, referenceErc20_standard, sampleCrypto_nonzeroSigner, by decide⟩
  have hroots : ∀ o ∈ (List.range 3).map (MakeMerkle.output sampleMurky sampleInput),
      completeDeployment.i_merkleRoot = o.root := by
    intro o ho
    obtain ⟨i, -, rfl⟩ := List.mem_map.mp ho
    rfl
  obtain ⟨hpaid, hclaim⟩ := hall completeDeployment sampleState completeRun hreliable hroots
    (fun _ => rfl) (by decide)
    ⟨hprepared 2 (by decide), hprepared 0 (by decide), hprepared 2 (by decide), trivial⟩
  exact ⟨(hpaid 12).trans (by decide), _, hclaim _ (hprepared 1 (by decide)) (by decide)⟩

end Airdrop

end UpdraftContracts

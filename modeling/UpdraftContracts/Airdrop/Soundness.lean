import Mathlib.Data.List.Dedup
import UpdraftContracts.Airdrop.MerkleAirdrop

/-!
# Only what is on the list is paid

Whatever is submitted to the airdrop, with proofs of any length, a claim that goes through is for an
entry of the list and carries a signature of its account, and an account is paid once. So the list
bounds what leaves.

Two places need care. First, an entry is encoded in 64 bytes, and so is a pair of nodes. Hashing an
entry twice sets leaves apart from inner nodes: a leaf is the hash of 32 bytes. Second, the error of
the recovery is not looked at, and with an error the signer is the zero account. It is the token
that stops a claim for this account.

## Main results

* `mem_of_verify` — a proof is accepted for entries of the list only
* `airdrop_sound` — what holds of the payments of every run
-/

namespace UpdraftContracts

open Evm

namespace Airdrop

open MerkleAirdrop

variable {C : Crypto} {D : Deployment} {S : Set (List UInt8)} {entries : List (Address × Word)}
  {account : Address} {amount : Word} {proof : List Word} {c : Claim} {s s' : State}

/-! ## What is hashed -/

/-- What is hashed for a leaf. -/
def leafMessages (C : Crypto) (account : Address) (amount : Word) : List (List UInt8) :=
  [encodePair account amount, encodeWord (entryHash C account amount)]

/-- What is hashed for the root over a list. -/
def rootMessages (C : Crypto) (entries : List (Address × Word)) : List (List UInt8) :=
  entries.flatMap (fun e => leafMessages C e.1 e.2) ++
    Merkle.rootMessages C.keccak256 concat 0 (entries.map fun e => leaf C e.1 e.2)

/-- What is hashed to check the proof of a claim. -/
def claimMessages (C : Crypto) (c : Claim) : List (List UInt8) :=
  leafMessages C c.account c.amount ++
    Merkle.proofMessages C.keccak256 concat c.proof (leaf C c.account c.amount)

/-- On the byte strings of `S` the hash is injective and never zero. -/
structure CollisionFree (C : Crypto) (S : Set (List UInt8)) : Prop where
  injOn : S.InjOn C.keccak256
  ne_zero : ∀ m ∈ S, C.keccak256 m ≠ 0

/-- A pair of nodes is encoded in one way only. -/
theorem CollisionFree.binding (h : CollisionFree C S) : Merkle.Binding C.keccak256 concat 0 S :=
  ⟨h.injOn, h.ne_zero, encodeWords_inj⟩

/-- 32 bytes are not a pair of nodes. -/
theorem isLeafMessage_encodeWord {w : Word} (h : encodeWord w ∈ S) :
    Merkle.IsLeafMessage concat S (encodeWord w) := by
  refine ⟨h, fun a b heq => ?_⟩
  have hlen := congrArg List.length heq
  rw [concat, List.length_append, length_encodeWord, length_encodeWord, length_encodeWord] at hlen
  omega

/-- **Accepted proofs are for entries of the list.** -/
theorem CollisionFree.mem_of_verify (h : CollisionFree C S)
    (hroot : ∀ m ∈ rootMessages C entries, m ∈ S) (hclaim : ∀ m ∈ claimMessages C c, m ∈ S)
    (hverify : Merkle.verify C.keccak256 concat c.proof (merkleRoot C entries)
      (leaf C c.account c.amount)) :
    (c.account, c.amount) ∈ entries := by
  obtain ⟨hentries, htree⟩ := List.forall_mem_append.mp hroot
  obtain ⟨hleaf, hproof⟩ := List.forall_mem_append.mp hclaim
  have hentry : ∀ e ∈ entries, encodePair e.1 e.2 ∈ S ∧ encodeWord (entryHash C e.1 e.2) ∈ S := by
    intro e he
    have hmessages := fun m hm => hentries m (List.mem_flatMap.mpr ⟨e, he, hm⟩)
    exact ⟨hmessages _ (by simp [leafMessages]), hmessages _ (by simp [leafMessages])⟩
  -- the leaves of the tree are hashes of these
  let messages := entries.map fun e => encodeWord (entryHash C e.1 e.2)
  have hleaves : (entries.map fun e => leaf C e.1 e.2) = messages.map C.keccak256 := by
    rw [List.map_map]
    rfl
  have hmessages : ∀ m ∈ messages, Merkle.IsLeafMessage concat S m := by
    intro m hm
    obtain ⟨e, he, rfl⟩ := List.mem_map.mp hm
    exact isLeafMessage_encodeWord (hentry e he).2
  have hmem : encodeWord (entryHash C c.account c.amount) ∈ messages := by
    rw [merkleRoot, hleaves] at hverify
    rw [hleaves] at htree
    exact h.binding.mem_of_verify hmessages
      (isLeafMessage_encodeWord (hleaf _ (by simp [leafMessages]))) htree hproof hverify
  obtain ⟨e, he, heq⟩ := List.mem_map.mp hmem
  have hpair := h.injOn (hentry e he).1 (hleaf _ (by simp [leafMessages])) (encodeWord_inj heq)
  obtain ⟨haccount, hamount⟩ := encodePair_inj hpair
  rwa [← haccount, ← hamount]

/-! ## Payments -/

/-- The largest amount listed for an account. -/
def largest (entries : List (Address × Word)) (account : Address) : ℕ :=
  ((entries.filter fun e => e.1 = account).map fun e => e.2.val).foldr max 0

/-- The sum over the accounts of the list of the largest amount listed for each. -/
def entitlement (entries : List (Address × Word)) : ℕ :=
  ((entries.map Prod.fst).dedup.map (largest entries)).sum

/-- What is asked of the token: a transfer takes no more from its sender than it says, and transfers
to the zero account revert. -/
structure TakesAtMost (T : Erc20 Address) : Prop where
  transfer {L L' : Ledger Address} {sender dst : Address} {v : ℕ} :
    T.transfer L sender dst v = some (true, L') → L.balance sender ≤ L'.balance sender + v
  zero (L : Ledger Address) (sender : Address) (v : ℕ) : T.transfer L sender 0 v = none

/-- With an error the signer that `tryRecover` returns is the zero account. -/
def Crypto.ZeroOnError (C : Crypto) : Prop :=
  ∀ digest v r s, (C.tryRecover digest v r s).2.1 ≠ .NoError → (C.tryRecover digest v r s).1 = 0

/-- The claim is for an entry of the list, and its signature recovers to the account, without error.
-/
structure Claim.Genuine (C : Crypto) (D : Deployment) (entries : List (Address × Word))
    (c : Claim) : Prop where
  listed : (c.account, c.amount) ∈ entries
  signer : (C.tryRecover (getMessageHash C D c.account c.amount) c.v c.r c.s).1 = c.account
  noError : (C.tryRecover (getMessageHash C D c.account c.amount) c.v c.r c.s).2.1 = .NoError

/-- The airdrop is deployed with the root over a list, and what it relies on does its part. -/
structure Deployed (C : Crypto) (D : Deployment) (entries : List (Address × Word))
    (S : Set (List UInt8)) : Prop where
  root : D.i_merkleRoot = merkleRoot C entries
  hashed : ∀ m ∈ rootMessages C entries, m ∈ S
  collisionFree : CollisionFree C S
  zeroOnError : C.ZeroOnError
  token : TakesAtMost D.airdropToken

/-- A claim that goes through is for an entry, and its account signed it. -/
theorem Deployed.genuine (h : Deployed C D entries S) (hclaim : ∀ m ∈ claimMessages C c, m ∈ S)
    (hok : claim C D c s = .ok s') : c.Genuine C D entries := by
  obtain ⟨-, hsigner, hverify, ledger, htransfer, -⟩ := claim_eq_ok.mp hok
  have haccount : c.account ≠ 0 := by
    intro hzero
    rw [hzero, h.token.zero] at htransfer
    exact nomatch htransfer
  rw [h.root] at hverify
  refine ⟨h.collisionFree.mem_of_verify h.hashed hclaim hverify, hsigner, ?_⟩
  by_contra herror
  exact haccount (hsigner.symm.trans (h.zeroOnError _ _ _ _ herror))

/-- The payments of a run so far. -/
structure Paid (C : Crypto) (D : Deployment) (entries : List (Address × Word)) (s : State)
    (log : List Payment) : Prop where
  claimed : ∀ p ∈ log, s.s_hasClaimed p.claim.account = true
  nodup : (log.map fun p => p.claim.account).Nodup
  genuine : ∀ p ∈ log, p.claim.Genuine C D entries
  left_le : ∀ p ∈ log, p.left ≤ p.claim.amount.val

/-- A claim that goes through is added to the payments. -/
theorem Paid.claim {log : List Payment} (h : Deployed C D entries S)
    (hclaim : ∀ m ∈ claimMessages C c, m ∈ S) (hpaid : Paid C D entries s log)
    (hok : claim C D c s = .ok s') : Paid C D entries s' (record C D s (.claim c) log) := by
  have hgenuine := h.genuine hclaim hok
  have hrecord : record C D s (.claim c) log =
      ⟨c, s.ledger.balance D.this - s'.ledger.balance D.this⟩ :: log := by
    rw [record, hok]
  obtain ⟨hnew, -, -, ledger, htransfer, rfl⟩ := claim_eq_ok.mp hok
  rw [hrecord]
  refine ⟨List.forall_mem_cons.mpr ⟨Function.update_self .., fun p hp => ?_⟩,
    List.nodup_cons.mpr ⟨fun hmem => ?_, hpaid.nodup⟩,
    List.forall_mem_cons.mpr ⟨hgenuine, hpaid.genuine⟩,
    List.forall_mem_cons.mpr ⟨?_, hpaid.left_le⟩⟩
  · simp only [Function.update_apply]
    split
    · rfl
    · exact hpaid.claimed p hp
  · obtain ⟨p, hp, heq⟩ := List.mem_map.mp hmem
    have hclaimed := hpaid.claimed p hp
    rw [heq, hnew] at hclaimed
    exact nomatch hclaimed
  · have hle := h.token.transfer htransfer
    dsimp only
    omega

/-- All that the claims of a run hash to check proofs is in `S`. -/
def AirdropAction.HashedIn (C : Crypto) (S : Set (List UInt8)) (a : AirdropAction) : Prop :=
  ∀ c, a = .claim c → ∀ m ∈ claimMessages C c, m ∈ S

/-- So every run keeps the payments genuine. -/
theorem Deployed.preserves_paid (h : Deployed C D entries S) :
    Preserves (History.start C D) (fun _ a => a.HashedIn C S)
      fun x => Paid C D entries x.1 x.2 := by
  refine preserves_recording fun s log a p hhashed hpaid hstart => ?_
  cases a with
  | claim c =>
    obtain ⟨s', hok, hp⟩ := bind_eq_ok.mp hstart
    obtain rfl := pure_eq_ok.mp hp
    exact Progress.forall_handsOver_error.mpr (hpaid.claim h (hhashed c rfl) hok)
  | elsewhere ledger =>
    obtain rfl := pure_eq_ok.mp hstart
    exact ⟨hpaid.claimed, hpaid.nodup, hpaid.genuine, hpaid.left_le⟩

theorem le_largest (h : (account, amount) ∈ entries) : amount.val ≤ largest entries account := by
  refine List.le_max_of_le ?_ le_rfl
  exact List.mem_map.mpr ⟨(account, amount), List.mem_filter.mpr ⟨h, by simp⟩, rfl⟩

/-- No account was paid twice, and none more than its largest entry. -/
theorem Paid.sum_left_le {log : List Payment} (h : Paid C D entries s log) :
    (log.map Payment.left).sum ≤ entitlement entries := by
  calc (log.map Payment.left).sum
      ≤ (log.map fun p => largest entries p.claim.account).sum :=
        List.sum_le_sum fun p hp => (h.left_le p hp).trans (le_largest (h.genuine p hp).listed)
    _ = ((log.map fun p => p.claim.account).map (largest entries)).sum := by rw [List.map_map]; rfl
    _ ≤ entitlement entries := by
        refine sum_map_le_of_nodup _ h.nodup fun account haccount => ?_
        obtain ⟨p, hp, rfl⟩ := List.mem_map.mp haccount
        exact List.mem_dedup.mpr (List.mem_map.mpr ⟨_, (h.genuine p hp).listed, rfl⟩)

/-- **Soundness of the airdrop.** At every point of every run, whoever makes the claims and whatever
happens to the token besides, all payments are for entries of the list with a signature of the
account, no account was paid twice, and what left is at most the sum over the accounts of the list
of the largest amount listed for each.

Of `keccak256` only this is used: on the strings that are hashed for the root and for the proofs of
the run it is injective and never zero. -/
theorem airdrop_sound (h : Deployed C D entries S) {calls : Calls AirdropAction} {s : State}
    (hcalls : calls.Along (History.start C D) (fun _ a => a.HashedIn C S) (s, [])) :
    ∀ x ∈ calls.points (History.start C D) (s, []),
      (∀ p ∈ x.2, p.claim.Genuine C D entries) ∧
      (x.2.map fun p => p.claim.account).Nodup ∧
      (x.2.map Payment.left).sum ≤ entitlement entries := by
  have hstart : Paid C D entries s [] := ⟨nofun, List.nodup_nil, nofun, nofun⟩
  intro x hx
  have hpaid : Paid C D entries x.1 x.2 := h.preserves_paid.points calls hcalls hstart x hx
  exact ⟨hpaid.genuine, hpaid.nodup, hpaid.sum_left_le⟩

theorem referenceErc20_takesAtMost : TakesAtMost referenceErc20 where
  transfer {L L' sender dst v} h := by
    obtain ⟨hle, rfl⟩ := referenceErc20_standard.transfer_true h
    rw [Ledger.balance_move hle, if_pos rfl]
    omega
  zero L sender v := by simp [referenceErc20, guardSome]

/-- A hash that is injective on the few strings below, and signatures whose `v` is the signer. -/
def sampleCrypto : Crypto where
  keccak256 m := Word.ofNat (decodeBytes m % (2 ^ 61 - 1) + 1)
  tryRecover _ v _ _ :=
    if v = 0 then (0, .InvalidSignature, 0) else (Address.ofNat v.toNat, .NoError, 0)

/-- Two amounts for account 10, and one for account 11. -/
def sampleEntries : List (Address × Word) := [(10, 25), (11, 30), (10, 40)]

/-- The airdrop of those entries is at address 2. -/
def sampleDeployment : Deployment :=
  ⟨2, 0, merkleRoot sampleCrypto sampleEntries, referenceErc20⟩

/-- The leaf of an entry. -/
def sampleLeaf (account : Address) (amount : Word) : Word := leaf sampleCrypto account amount

/-- The node over two others. -/
def sampleNode (a b : Word) : Word := Merkle.hashPair sampleCrypto.keccak256 concat a b

/-- The airdrop has a hundred tokens. -/
def sampleState : State := ⟨fun _ => false, Ledger.empty.mint 2 100⟩

/-- Account 10 claims the larger of its amounts. The leaf has no neighbour. -/
def sampleLarger : Claim :=
  ⟨10, 40, [0, sampleNode (sampleLeaf 10 25) (sampleLeaf 11 30)], 10, 0, 0⟩

/-- Account 10 claims the smaller one. -/
def sampleSmaller : Claim := ⟨10, 25, [sampleLeaf 11 30, sampleNode (sampleLeaf 10 40) 0], 10, 0, 0⟩

/-- Account 11 claims. -/
def sampleOther : Claim := ⟨11, 30, [sampleLeaf 10 25, sampleNode (sampleLeaf 10 40) 0], 11, 0, 0⟩

/-- The token tells account 10, which has account 11 claim at once. Then account 10 tries again. -/
def sampleClaims : Calls AirdropAction :=
  .call (.claim sampleLarger) (.call (.claim sampleOther) .done true .done) true <|
    .call (.claim sampleSmaller) .done true .done

/-- The airdrop after those claims, with its payments. -/
def samplePaid : History :=
  sampleClaims.exec (History.start sampleCrypto sampleDeployment) (sampleState, [])

/-- What is hashed for the root is all that is hashed for the claims, too. -/
def sampleMessages : List (List UInt8) := rootMessages sampleCrypto sampleEntries

theorem sampleMessages_nodup : (sampleMessages.map sampleCrypto.keccak256).Nodup := by
  decide +kernel

theorem sampleDeployed :
    Deployed sampleCrypto sampleDeployment sampleEntries { m | m ∈ sampleMessages } where
  root := rfl
  hashed _ hm := hm
  collisionFree := by
    refine ⟨fun m hm m' hm' heq => List.inj_on_of_nodup_map sampleMessages_nodup hm hm' heq, ?_⟩
    have hne : ∀ m ∈ sampleMessages, sampleCrypto.keccak256 m ≠ 0 := by decide +kernel
    exact hne
  zeroOnError digest v r s herror := by
    simp only [sampleCrypto] at herror ⊢
    split
    · rfl
    · next hv =>
      rw [if_neg hv] at herror
      exact absurd rfl herror
  token := referenceErc20_takesAtMost

theorem sampleClaims_hashedIn :
    sampleClaims.Along (History.start sampleCrypto sampleDeployment)
      (fun _ a => a.HashedIn sampleCrypto { m | m ∈ sampleMessages }) (sampleState, []) := by
  have hmessages : ∀ c ∈ [sampleLarger, sampleOther, sampleSmaller],
      ∀ m ∈ claimMessages sampleCrypto c, m ∈ sampleMessages := by
    decide +kernel
  refine ⟨?_, fun _ _ => ⟨?_, fun _ _ => trivial, trivial⟩, ?_, fun _ _ => trivial, trivial⟩
  · rintro _ ⟨⟩
    exact hmessages _ (.head _)
  · rintro _ ⟨⟩
    exact hmessages _ (.tail _ (.head _))
  · rintro _ ⟨⟩
    exact hmessages _ (.tail _ (.tail _ (.head _)))

/-- Of a hundred tokens the accounts get thirty and forty. -/
theorem airdrop_sound_sample :
    (samplePaid.2.map Payment.left = [30, 40] ∧ samplePaid.1.ledger.balance 2 = 30) ∧
    (samplePaid.2.map fun p => p.claim.account).Nodup ∧
    (samplePaid.2.map Payment.left).sum ≤ entitlement sampleEntries := by
  have hsound := airdrop_sound sampleDeployed sampleClaims_hashedIn samplePaid
    (Calls.exec_mem_points ..)
  exact ⟨by decide +kernel, hsound.2⟩

end Airdrop

end UpdraftContracts

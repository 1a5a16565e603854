import Mathlib.Algebra.Group.Nat.Even
import UpdraftContracts.Nft.Erc721

/-!
# `MoodNft`

An NFT with a mood that the owner of a token, or an account approved for it, can flip. A new token
is happy. But `mintNFT` writes this only after the receiver was called. In its hook the receiver has
the token already and can flip its mood. At that time the mood is the default value of the mapping,
which is sad, and when the mint goes on, it overwrites whatever the receiver has made of it.

A run is observed together with the flips that succeeded. Those of a token that is in the making are
counted a second time: they are the ones that get lost.

## Main results

* `Stable.guarantees` — what every step keeps is kept by runs, with all their hooks
* `mood_iff_flips` — after every run, exactly for which tokens the mood is right
* `flip_gets_lost` — a receiver that flips the mood of its token in its hook
-/

namespace UpdraftContracts

open Evm

namespace Nft

namespace MoodNft

/-- The two moods. -/
inductive Mood where
  | SAD
  | HAPPY
  deriving DecidableEq

/-- The error of the contract. -/
inductive Error where
  | MoodNft__CantFlipMoodIfNotOwner
  deriving DecidableEq

/-- The storage of the contract. -/
structure State (E : Erc721) where
  /-- The state of the base contract. -/
  tokens : E.Tokens
  s_tokenCounter : ℕ
  s_tokenIdToMood : ℕ → Mood

variable {E : Erc721}

/-- The state that the constructor leaves. -/
def State.deployed (E : Erc721) : State E := ⟨E.empty, 0, fun _ => .SAD⟩

/-- The receiver is called before the mood is written. -/
def mintNFT (sender : Address) (s : State E) : Exec Error (Stage Error (State E)) := do
  let tokens ← ofCallee (E._mint s.tokens sender s.s_tokenCounter)
  return .suspended { s with tokens := tokens } fun s => do
    let s := { s with
      s_tokenIdToMood := Function.update s.s_tokenIdToMood s.s_tokenCounter .HAPPY }
    let tokenCounter ← checkedAdd s.s_tokenCounter 1
    return { s with s_tokenCounter := tokenCounter }

/-- The owner is looked up only if the sender is not approved. -/
def flipMood (sender : Address) (tokenId : ℕ) (s : State E) : Exec Error (State E) := do
  let approved ← ofCallee (E.getApproved s.tokens tokenId)
  if approved ≠ sender then
    let owner ← ofCallee (E.ownerOf s.tokens tokenId)
    revertIf (owner ≠ sender) .MoodNft__CantFlipMoodIfNotOwner
  let mood := if s.s_tokenIdToMood tokenId = .HAPPY then Mood.SAD else Mood.HAPPY
  return { s with s_tokenIdToMood := Function.update s.s_tokenIdToMood tokenId mood }

/-- A call of the contract, with who makes it. -/
inductive Action (E : Erc721) where
  | mintNFT (sender : Address)
  | flipMood (sender : Address) (tokenId : ℕ)
  /-- A function of the base contract. -/
  | erc721 (sender : Address) (c : E.Call)

/-- What a call does up to its hook, if it has one. -/
def Action.start (s : State E) : Action E → Exec Error (Stage Error (State E))
  | .mintNFT sender => MoodNft.mintNFT sender s
  | .flipMood sender tokenId => do return .returned (← MoodNft.flipMood sender tokenId s)
  | .erc721 sender c => do
    let tokens ← ofCallee (E.call s.tokens sender c)
    return .suspended { s with tokens := tokens } .ok

/-! ## What calls do -/

variable {s : State E} {a : Action E} {sender : Address} {tokenId : ℕ}

/-- The mood of a token is the other one. -/
def State.flipped (s : State E) (tokenId : ℕ) : State E :=
  { s with
    s_tokenIdToMood := Function.update s.s_tokenIdToMood tokenId
      (if s.s_tokenIdToMood tokenId = .HAPPY then .SAD else .HAPPY) }

/-- The mint of the next token is over. -/
def State.minted (s : State E) : State E where
  tokens := s.tokens
  s_tokenCounter := s.s_tokenCounter + 1
  s_tokenIdToMood := Function.update s.s_tokenIdToMood s.s_tokenCounter .HAPPY

/-- Exactly who can flip a mood. -/
theorem flipMood_eq_ok {s' : State E} :
    flipMood sender tokenId s = .ok s' ↔
      (∃ approved, E.getApproved s.tokens tokenId = some approved ∧
        (approved = sender ∨ E.ownerOf s.tokens tokenId = some sender)) ∧
      s' = s.flipped tokenId := by
  simp only [flipMood, bind_eq_ok, ofCallee_eq_ok]
  constructor
  · rintro ⟨approved, happroved, hrest⟩
    by_cases hsender : approved = sender
    · rw [if_neg (not_not.mpr hsender)] at hrest
      exact ⟨⟨approved, happroved, .inl hsender⟩, pure_eq_ok.mp hrest⟩
    · rw [if_pos hsender] at hrest
      simp only [bind_eq_ok, ofCallee_eq_ok, revertIf_eq_ok, not_not, pure_eq_ok] at hrest
      obtain ⟨owner, howner, -, rfl, hs'⟩ := hrest
      exact ⟨⟨approved, happroved, .inr howner⟩, hs'⟩
  · rintro ⟨⟨approved, happroved, hpermitted⟩, rfl⟩
    refine ⟨approved, happroved, ?_⟩
    by_cases hsender : approved = sender
    · rw [if_neg (not_not.mpr hsender)]
      rfl
    · rw [if_pos hsender, hpermitted.resolve_left hsender]
      simp only [bind_eq_ok, ofCallee_eq_ok, revertIf_eq_ok, not_not, pure_eq_ok]
      exact ⟨sender, rfl, (), rfl, rfl⟩

/-- All that a call can do. -/
inductive Outcome (s : State E) : Action E → Stage Error (State E) → Prop where
  | minting {sender : Address} {tokens : E.Tokens}
      (hmint : E._mint s.tokens sender s.s_tokenCounter = some tokens) :
      Outcome s (.mintNFT sender) (.suspended { s with tokens := tokens } fun s => do
        let s := { s with
          s_tokenIdToMood := Function.update s.s_tokenIdToMood s.s_tokenCounter .HAPPY }
        let tokenCounter ← checkedAdd s.s_tokenCounter 1
        return { s with s_tokenCounter := tokenCounter })
  | flipped {sender : Address} {tokenId : ℕ} (htoken : E.ownerOf s.tokens tokenId ≠ none) :
      Outcome s (.flipMood sender tokenId) (.returned (s.flipped tokenId))
  | called {sender : Address} {c : E.Call} {tokens : E.Tokens}
      (hcall : E.call s.tokens sender c = some tokens) :
      Outcome s (.erc721 sender c) (.suspended { s with tokens := tokens } .ok)

/-- A call that does not revert did one of these. -/
theorem Action.outcome {stage : Stage Error (State E)} (h : a.start s = .ok stage) :
    Outcome s a stage := by
  cases a with
  | mintNFT sender =>
    obtain ⟨tokens, hmint, hstage⟩ := bind_eq_ok.mp h
    obtain rfl := pure_eq_ok.mp hstage
    exact .minting (ofCallee_eq_ok.mp hmint)
  | flipMood sender tokenId =>
    obtain ⟨s', hs', hstage⟩ := bind_eq_ok.mp h
    obtain rfl := pure_eq_ok.mp hstage
    obtain ⟨⟨approved, happroved, -⟩, rfl⟩ := flipMood_eq_ok.mp hs'
    exact .flipped (E.getApproved_some happroved)
  | erc721 sender c =>
    obtain ⟨tokens, hcall, hstage⟩ := bind_eq_ok.mp h
    obtain rfl := pure_eq_ok.mp hstage
    exact .called (ofCallee_eq_ok.mp hcall)

/-! ## Flips and moods -/

/-- The flips that succeeded, for each token. -/
structure Flips where
  total : ℕ → ℕ
  /-- Those that were made in the hook of the mint of the token, when its number was still that of
  the next token. -/
  early : ℕ → ℕ

/-- No flips yet. -/
def Flips.none : Flips := ⟨fun _ => 0, fun _ => 0⟩

/-- A flip that succeeded is counted. -/
def record (s : State E) (a : Action E) (g : Flips) : Flips :=
  match a with
  | .mintNFT _ => g
  | .flipMood _ tokenId =>
    { total := Function.update g.total tokenId (g.total tokenId + 1)
      early := if tokenId = s.s_tokenCounter
        then Function.update g.early tokenId (g.early tokenId + 1) else g.early }
  | .erc721 _ _ => g

/-- The contract with the flips. -/
def History.start : State E × Flips → Action E → Exec Error (Stage Error (State E × Flips)) :=
  Hooks.recording Action.start record

/-- The mood of a token shows the flips since its mint. A token that is yet to be made has no others
than early ones. -/
structure Moods (s : State E) (g : Flips) : Prop where
  made : ∀ id < s.s_tokenCounter, s.s_tokenIdToMood id = .HAPPY ↔ Even (g.total id + g.early id)
  fresh : ∀ id, s.s_tokenCounter ≤ id → g.total id = g.early id

/-- The new token is happy, and its flips so far, all of them early, are even in number. -/
theorem Moods.minted {g : Flips} (h : Moods s g) : Moods s.minted g := by
  refine ⟨fun id hid => ?_, fun id hid => h.fresh id (Nat.le_of_succ_le hid)⟩
  rcases Nat.lt_succ_iff_lt_or_eq.mp hid with hlt | rfl
  · rw [State.minted]
    dsimp only
    rw [Function.update_of_ne (Nat.ne_of_lt hlt)]
    exact h.made id hlt
  · have heven : Even (g.total s.s_tokenCounter + g.early s.s_tokenCounter) := by
      rw [h.fresh _ (Nat.le_refl _)]
      exact ⟨_, rfl⟩
    exact iff_of_true (Function.update_self ..) heven

/-- A flip counts once for its token. -/
theorem total_flip (g : Flips) (id : ℕ) :
    (record s (.flipMood sender tokenId) g).total id
      = g.total id + if id = tokenId then 1 else 0 := by
  simp only [record, Function.update_apply]
  split
  · next heq => rw [heq]
  · rfl

/-- A flip is early if its token is the one that is being minted. -/
theorem early_flip (g : Flips) (id : ℕ) :
    (record s (.flipMood sender tokenId) g).early id
      = g.early id + if id = tokenId ∧ id = s.s_tokenCounter then 1 else 0 := by
  simp only [record]
  by_cases hid : id = tokenId
  · subst hid
    by_cases hnext : id = s.s_tokenCounter
    · rw [if_pos hnext, Function.update_self, if_pos ⟨rfl, hnext⟩]
    · rw [if_neg hnext, if_neg fun hboth => hnext hboth.2, Nat.add_zero]
  · have hneither : ¬ (id = tokenId ∧ id = s.s_tokenCounter) := fun hboth => hid hboth.1
    rw [if_neg hneither]
    split
    · rw [Function.update_of_ne hid, Nat.add_zero]
    · rfl

/-- A flip changes the mood. -/
theorem happy_flipped_self :
    (s.flipped tokenId).s_tokenIdToMood tokenId = .HAPPY ↔
      ¬ s.s_tokenIdToMood tokenId = .HAPPY := by
  simp only [State.flipped, Function.update_self]
  split
  · next hhappy => exact iff_of_false nofun (not_not.mpr hhappy)
  · next hsad => exact iff_of_true rfl hsad

/-- A flip changes the mood and the parity. -/
theorem Moods.flipped {g : Flips} (h : Moods s g) (sender : Address)
    (hle : tokenId ≤ s.s_tokenCounter) :
    Moods (s.flipped tokenId) (record s (.flipMood sender tokenId) g) := by
  refine ⟨fun id (hid : id < s.s_tokenCounter) => ?_, fun id (hid : s.s_tokenCounter ≤ id) => ?_⟩
  · have hlate : ¬ (id = tokenId ∧ id = s.s_tokenCounter) := fun hboth => Nat.ne_of_lt hid hboth.2
    rw [total_flip, early_flip, if_neg hlate, Nat.add_zero]
    rcases eq_or_ne id tokenId with rfl | hne
    · rw [happy_flipped_self, h.made id hid, if_pos rfl, Nat.add_right_comm, Nat.even_add_one]
    · rw [if_neg hne, Nat.add_zero, ← h.made id hid, State.flipped]
      dsimp only
      rw [Function.update_of_ne hne]
  · -- a token that is not made yet is the next one, if it can be flipped at all
    have hsame : id = tokenId ↔ id = tokenId ∧ id = s.s_tokenCounter :=
      ⟨fun heq => ⟨heq, by omega⟩, And.left⟩
    rw [total_flip, early_flip, h.fresh id hid]
    simp only [← hsame]

/-- The moods do not depend on who has the tokens. -/
theorem Moods.of_tokens {g : Flips} {tokens : E.Tokens} (h : Moods s g) :
    Moods { s with tokens := tokens } g := ⟨h.made, h.fresh⟩

/-! ## Runs -/

/-- A run keeps a property of the moods. Between calls the tokens are those below the counter, and
in a hook also the one in the making. -/
structure Keeps (P : State E → Flips → Prop) (x y : State E × Flips) : Prop where
  numbered : Numbered E x.1.tokens x.1.s_tokenCounter → P x.1 x.2 →
    Numbered E y.1.tokens y.1.s_tokenCounter ∧ P y.1 y.2
  making : InTheMaking E x.1.tokens x.1.s_tokenCounter → P x.1 x.2 →
    InTheMaking E y.1.tokens y.1.s_tokenCounter ∧ P y.1 y.2

theorem Keeps.trans {P : State E → Flips → Prop} {x y z : State E × Flips} (hxy : Keeps P x y)
    (hyz : Keeps P y z) : Keeps P x z := by
  refine ⟨fun hx hP => ?_, fun hx hP => ?_⟩
  · obtain ⟨hy, hP⟩ := hxy.numbered hx hP
    exact hyz.numbered hy hP
  · obtain ⟨hy, hP⟩ := hxy.making hx hP
    exact hyz.making hy hP

/-- What each step of a call does to the property: a call of the base contract, the first half of a
mint, a flip of a token or of the one in the making, and the second half of a mint. -/
structure Stable (P : State E → Flips → Prop) : Prop where
  call : ∀ {s g sender c tokens}, E.call s.tokens sender c = some tokens → P s g →
    P { s with tokens := tokens } g
  mint : ∀ {s g sender tokens}, E._mint s.tokens sender s.s_tokenCounter = some tokens → P s g →
    P { s with tokens := tokens } g
  flip : ∀ {s g tokenId} (sender : Address), E.ownerOf s.tokens tokenId ≠ none →
    tokenId ≤ s.s_tokenCounter → P s g →
      P (s.flipped tokenId) (record s (.flipMood sender tokenId) g)
  minted : ∀ {s g}, InTheMaking E s.tokens s.s_tokenCounter → P s g → P s.minted g

/-- **Runs keep what is stable.** -/
theorem Stable.guarantees {P : State E → Flips → Prop} (h : Stable P) :
    Hooks.Guarantees History.start (Keeps P) := by
  refine Hooks.guarantees_recording (fun x => ⟨And.intro, And.intro⟩) (fun x y z => Keeps.trans)
    (fun s g a s' hstart => ?_) fun s g a s₁ resume s₂ g₂ s₃ hstart hkeeps hresume => ?_
  · cases Action.outcome hstart with
    | @flipped sender tokenId htoken =>
      refine ⟨fun hs hP => ⟨hs, ?_⟩, fun hs hP => ⟨hs, ?_⟩⟩
      · exact h.flip sender htoken (Nat.le_of_lt ((hs tokenId).mp htoken)) hP
      · exact h.flip sender htoken ((hs tokenId).mp htoken) hP
  · cases Action.outcome hstart with
    | minting hmint =>
      obtain ⟨counter, hcounter, hs₃⟩ := bind_eq_ok.mp hresume
      obtain ⟨-, rfl⟩ := checkedAdd_eq_ok.mp hcounter
      obtain rfl := pure_eq_ok.mp hs₃
      refine ⟨fun hs hP => ?_, fun hs _ => absurd hmint hs.no_mint⟩
      obtain ⟨hmaking, hP⟩ := hkeeps.making (hs.mint hmint) (h.mint hmint hP)
      exact ⟨hmaking.made, h.minted hmaking hP⟩
    | called hcall =>
      obtain rfl := Except.ok.inj hresume
      refine Keeps.trans ⟨fun hs hP => ?_, fun hs hP => ?_⟩ hkeeps
      · exact ⟨hs.call hcall, h.call hcall hP⟩
      · exact ⟨hs.call hcall, h.call hcall hP⟩

/-- Every call keeps moods and flips in step. -/
theorem stable_moods : Stable (Moods (E := E)) where
  call _ hmoods := hmoods.of_tokens
  mint _ hmoods := hmoods.of_tokens
  flip sender _ hle hmoods := hmoods.flipped sender hle
  minted _ hmoods := hmoods.minted

/-- A deployed contract after calls, and the flips among them. -/
def after (calls : Calls (Action E)) : State E × Flips :=
  Hooks.exec History.start calls (State.deployed E, Flips.none)

/-- In the end no token is in the making. -/
theorem Stable.after {P : State E → Flips → Prop} (h : Stable P)
    (hstart : P (State.deployed E) Flips.none) (calls : Calls (Action E)) :
    Numbered E (after calls).1.tokens (after calls).1.s_tokenCounter ∧
      P (after calls).1 (after calls).2 :=
  (h.guarantees.exec calls _).numbered (numbered_empty E) hstart

/-- So they are in step after every run. -/
theorem moods_after (calls : Calls (Action E)) :
    Numbered E (after calls).1.tokens (after calls).1.s_tokenCounter ∧
      Moods (after calls).1 (after calls).2 :=
  stable_moods.after ⟨fun id hid => absurd hid (Nat.not_lt_zero id), fun _ _ => rfl⟩ calls

/-- **Moods and flips.** After every run, for every token, the mood is happy exactly when the number
of successful flips is even, if and only if an even number of them was made in the hook of the mint
of this token. -/
theorem mood_iff_flips (calls : Calls (Action E)) {y : State E × Flips}
    (hy : y = Hooks.exec History.start calls (State.deployed E, Flips.none)) {id : ℕ}
    (hid : E.ownerOf y.1.tokens id ≠ none) :
    (y.1.s_tokenIdToMood id = .HAPPY ↔ Even (y.2.total id)) ↔ Even (y.2.early id) := by
  obtain ⟨hnumbered, hmoods⟩ : Numbered E y.1.tokens y.1.s_tokenCounter ∧ Moods y.1 y.2 := by
    rw [hy]
    exact moods_after calls
  rw [hmoods.made id ((hnumbered id).mp hid), Nat.even_add]
  tauto

/-- Account `10` mints and flips the mood of its token afterwards. -/
def sampleCalls : Calls (Action sampleErc721) :=
  .call (.mintNFT 10) .done true <| .call (.flipMood 10 0) .done true .done

/-- Where that ends. -/
def sampleEnd : State sampleErc721 × Flips :=
  Hooks.exec History.start sampleCalls (State.deployed sampleErc721, Flips.none)

/-- The flip counts. -/
theorem mood_iff_flips_sample :
    (sampleEnd.1.s_tokenIdToMood 0 = .SAD ∧ sampleEnd.2.total 0 = 1 ∧ sampleEnd.2.early 0 = 0) ∧
    ((sampleEnd.1.s_tokenIdToMood 0 = .HAPPY ↔ Even (sampleEnd.2.total 0)) ↔
      Even (sampleEnd.2.early 0)) :=
  ⟨by decide, mood_iff_flips sampleCalls rfl (by decide)⟩

/-- Account `10` mints and flips the mood of its token in its hook. -/
def hastyCalls : Calls (Action sampleErc721) :=
  .call (.mintNFT 10) (.call (.flipMood 10 0) .done true .done) true .done

/-- Where that ends. -/
def hastyEnd : State sampleErc721 × Flips :=
  Hooks.exec History.start hastyCalls (State.deployed sampleErc721, Flips.none)

/-- **A lost flip.** The flip succeeds, and is the only one, but the token is happy. -/
theorem flip_gets_lost :
    sampleErc721.ownerOf hastyEnd.1.tokens 0 = some 10 ∧ hastyEnd.2.total 0 = 1 ∧
    ¬ (hastyEnd.1.s_tokenIdToMood 0 = .HAPPY ↔ Even (hastyEnd.2.total 0)) := by
  decide

end MoodNft

end Nft

end UpdraftContracts

import UpdraftContracts.Nft.Erc721

/-!
# `BasicNft`

An NFT with a URI for each token. `mintNft` writes the URI first, then mints, and moves the counter
on at the end. A call of `mintNft` from inside the hook of another one works with the same number.
It overwrites the URI, but then it cannot mint the token, since there is one already. So it reverts,
and the URI is what it was before.

## Main results

* `metadata_permanent` — the tokens and their URIs, after every run
-/

namespace UpdraftContracts

open Evm

namespace Nft

namespace BasicNft

/-- The storage of the contract. -/
structure State (E : Erc721) where
  /-- The state of the base contract. -/
  tokens : E.Tokens
  s_tokenCounter : ℕ
  s_tokenIdToUri : ℕ → String

variable {E : Erc721}

/-- The state that the constructor leaves. -/
def State.deployed (E : Erc721) : State E := ⟨E.empty, 0, fun _ => ""⟩

/-- The contract has no errors of its own. -/
def mintNft (sender : Address) (tokenUri : String) (s : State E) :
    Exec Empty (Stage Empty (State E)) := do
  let s := { s with
    s_tokenIdToUri := Function.update s.s_tokenIdToUri s.s_tokenCounter tokenUri }
  let tokens ← ofCallee (E._mint s.tokens sender s.s_tokenCounter)
  return .suspended { s with tokens := tokens } fun s => do
    let tokenCounter ← checkedAdd s.s_tokenCounter 1
    return { s with s_tokenCounter := tokenCounter }

/-- The text given at the mint. A token that does not exist has the empty one. -/
def tokenURI (tokenId : ℕ) (s : State E) : String := s.s_tokenIdToUri tokenId

/-- What can happen next. -/
inductive Action (E : Erc721) where
  | mintNft (sender : Address) (tokenUri : String)
  /-- A function of the base contract. -/
  | erc721 (sender : Address) (c : E.Call)

/-- Begin an action. The base contract may call the receiver or not. -/
def Action.start (s : State E) : Action E → Exec Empty (Stage Empty (State E))
  | .mintNft sender tokenUri => BasicNft.mintNft sender tokenUri s
  | .erc721 sender c => do
    let tokens ← ofCallee (E.call s.tokens sender c)
    return .suspended { s with tokens := tokens } .ok

/-! ## What calls do -/

variable {s s₁ s₃ : State E} {sender : Address} {tokenUri : String} {a : Action E}

/-- The state in which a mint is suspended. -/
def State.minting (s : State E) (tokenUri : String) (tokens : E.Tokens) : State E where
  tokens := tokens
  s_tokenCounter := s.s_tokenCounter
  s_tokenIdToUri := Function.update s.s_tokenIdToUri s.s_tokenCounter tokenUri

/-- All that a call can do. -/
inductive Outcome (s : State E) : Action E → Stage Empty (State E) → Prop where
  | minting {sender : Address} {tokenUri : String} {tokens : E.Tokens}
      (hmint : E._mint s.tokens sender s.s_tokenCounter = some tokens) :
      Outcome s (.mintNft sender tokenUri)
        (.suspended (s.minting tokenUri tokens) fun s => do
          let tokenCounter ← checkedAdd s.s_tokenCounter 1
          return { s with s_tokenCounter := tokenCounter })
  | called {sender : Address} {c : E.Call} {tokens : E.Tokens}
      (hcall : E.call s.tokens sender c = some tokens) :
      Outcome s (.erc721 sender c) (.suspended { s with tokens := tokens } .ok)

/-- Every call that begins is of one of these kinds. -/
theorem Action.outcome {stage : Stage Empty (State E)} (h : a.start s = .ok stage) :
    Outcome s a stage := by
  cases a with
  | mintNft sender tokenUri =>
    obtain ⟨tokens, hmint, hstage⟩ := bind_eq_ok.mp h
    obtain rfl := pure_eq_ok.mp hstage
    exact .minting (ofCallee_eq_ok.mp hmint)
  | erc721 sender c =>
    obtain ⟨tokens, hcall, hstage⟩ := bind_eq_ok.mp h
    obtain rfl := pure_eq_ok.mp hstage
    exact .called (ofCallee_eq_ok.mp hcall)

/-! ## The tokens and their URIs -/

/-- The calls of `mintNft` that succeeded, with the numbers of the tokens. -/
def record (s : State E) (a : Action E) (mints : List (ℕ × String)) : List (ℕ × String) :=
  match a with
  | .mintNft _ tokenUri => mints ++ [(s.s_tokenCounter, tokenUri)]
  | .erc721 _ _ => mints

/-- The contract with the calls of `mintNft`. -/
def History.start : State E × List (ℕ × String) → Action E →
    Exec Empty (Stage Empty (State E × List (ℕ × String))) :=
  Hooks.recording Action.start record

/-- Between calls, the tokens are those of the successful mints, with the URIs of these. -/
structure Orderly (s : State E) (mints : List (ℕ × String)) : Prop where
  numbered : Numbered E s.tokens s.s_tokenCounter
  mints : mints = (List.range s.s_tokenCounter).map fun id => (id, s.s_tokenIdToUri id)

/-- Nothing but the owners of tokens can change while a token is in the making. -/
structure Kept (x y : State E × List (ℕ × String)) : Prop where
  making : InTheMaking E y.1.tokens y.1.s_tokenCounter
  counter : y.1.s_tokenCounter = x.1.s_tokenCounter
  uri : y.1.s_tokenIdToUri = x.1.s_tokenIdToUri
  mints : y.2 = x.2

/-- What every run keeps to. -/
structure Keeps (x y : State E × List (ℕ × String)) : Prop where
  orderly : Orderly x.1 x.2 → Orderly y.1 y.2
  kept : InTheMaking E x.1.tokens x.1.s_tokenCounter → Kept x y

theorem Keeps.trans {x y z : State E × List (ℕ × String)} (hxy : Keeps x y) (hyz : Keeps y z) :
    Keeps x z := by
  refine ⟨fun h => hyz.orderly (hxy.orderly h), fun h => ?_⟩
  have hy := hxy.kept h
  have hz := hyz.kept hy.making
  exact ⟨hz.making, hz.counter.trans hy.counter, hz.uri.trans hy.uri, hz.mints.trans hy.mints⟩

/-- The base contract does not matter. -/
theorem keeps_call {mints : List (ℕ × String)} {c : E.Call} {tokens : E.Tokens}
    (hcall : E.call s.tokens sender c = some tokens) :
    Keeps (s, mints) ({ s with tokens := tokens }, mints) :=
  ⟨fun h => ⟨h.numbered.call hcall, h.mints⟩, fun h => ⟨h.call hcall, rfl, rfl, rfl⟩⟩

/-- A mint that was suspended in an orderly state ends in one. -/
theorem Orderly.minted {mints : List (ℕ × String)} {tokens : E.Tokens}
    {y : State E × List (ℕ × String)} (h : Orderly s mints)
    (hmint : E._mint s.tokens sender s.s_tokenCounter = some tokens)
    (hkeeps : Keeps (s.minting tokenUri tokens, mints) y) :
    Orderly { y.1 with s_tokenCounter := y.1.s_tokenCounter + 1 }
      (y.2 ++ [(s.s_tokenCounter, tokenUri)]) := by
  have hy := hkeeps.kept (h.numbered.mint hmint)
  have huri : y.1.s_tokenIdToUri
      = Function.update s.s_tokenIdToUri s.s_tokenCounter tokenUri := hy.uri
  have hold :
      ((List.range s.s_tokenCounter).map fun id => (id, y.1.s_tokenIdToUri id)) = mints := by
    rw [h.mints]
    refine List.map_congr_left fun id hid => ?_
    rw [huri, Function.update_of_ne (Nat.ne_of_lt (List.mem_range.mp hid))]
  have hnew : y.1.s_tokenIdToUri s.s_tokenCounter = tokenUri := by
    rw [huri, Function.update_self]
  have hcounter : y.1.s_tokenCounter = s.s_tokenCounter := hy.counter
  refine ⟨hy.making.made, ?_⟩
  dsimp only
  rw [hy.mints, hcounter, List.range_succ, List.map_append, hold, List.map_singleton, hnew]

/-- Every call keeps what was minted, whatever the receiver of a mint does. -/
theorem guarantees_keeps : Hooks.Guarantees (History.start (E := E)) Keeps := by
  refine Hooks.guarantees_recording (fun x => ⟨id, fun h => ⟨h, rfl, rfl, rfl⟩⟩)
    (fun x y z => Keeps.trans) (fun s mints a s' hstart => ?_)
    fun s mints a s₁ resume s₂ mints₂ s₃ hstart hkeeps hresume => ?_
  · cases Action.outcome hstart
  · cases Action.outcome hstart with
    | minting hmint =>
      obtain ⟨counter, hcounter, hs₃⟩ := bind_eq_ok.mp hresume
      obtain ⟨-, rfl⟩ := checkedAdd_eq_ok.mp hcounter
      obtain rfl := pure_eq_ok.mp hs₃
      exact ⟨fun h => h.minted hmint hkeeps, fun h => absurd hmint h.no_mint⟩
    | called hcall =>
      obtain rfl := Except.ok.inj hresume
      exact (keeps_call hcall).trans hkeeps

/-- **Permanent metadata.** After every run, whatever receivers of tokens do in their hooks, the
tokens are those below the counter, each of them was minted by one successful call of `mintNft`, and
its URI is the one that was passed to that call. -/
theorem metadata_permanent (calls : Calls (Action E)) {y : State E × List (ℕ × String)}
    (hy : y = Hooks.exec History.start calls (State.deployed E, [])) :
    (∀ id, E.ownerOf y.1.tokens id ≠ none ↔ id < y.1.s_tokenCounter) ∧
    y.2 = (List.range y.1.s_tokenCounter).map fun id => (id, tokenURI id y.1) := by
  have hstart : Orderly (State.deployed E) [] := ⟨numbered_empty E, rfl⟩
  have h : Orderly y.1 y.2 := by
    rw [hy]
    exact (guarantees_keeps.exec calls _).orderly hstart
  exact ⟨h.numbered, h.mints⟩

/-- Account `10` mints, and does so again in its hook. Then account `11` mints. -/
def sampleCalls : Calls (Action sampleErc721) :=
  .call (.mintNft 10 "first") (.call (.mintNft 10 "again") .done true .done) true <|
    .call (.mintNft 11 "second") .done true .done

/-- The contract after those calls, with what was minted. -/
def sampleEnd : State sampleErc721 × List (ℕ × String) :=
  Hooks.exec History.start sampleCalls (State.deployed sampleErc721, [])

/-- The mint in the hook did not go through. -/
theorem metadata_permanent_sample :
    (sampleEnd.1.s_tokenCounter = 2 ∧ tokenURI 0 sampleEnd.1 = "first" ∧
      tokenURI 1 sampleEnd.1 = "second") ∧
    (∀ id, sampleEnd.1.tokens id ≠ none ↔ id < sampleEnd.1.s_tokenCounter) ∧
    sampleEnd.2
      = (List.range sampleEnd.1.s_tokenCounter).map fun id => (id, tokenURI id sampleEnd.1) :=
  ⟨by decide, metadata_permanent sampleCalls rfl⟩

end BasicNft

end Nft

end UpdraftContracts

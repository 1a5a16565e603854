import UpdraftContracts.Evm.Hooks

/-!
# The base contract of the NFTs

Both NFTs of the repository are ERC-721 contracts of OpenZeppelin that number their tokens. Of the
base contract the model has what they use: who owns a token, who is approved for it, and the minting
of a token, which fails if there already is one with its number. All other functions of the base
contract, such as transfers and approvals, are one parameter. None of them makes or destroys a
token.

`_safeMint` mints the token and then calls `onERC721Received` of the receiver. In between the number
of the token is taken, but the counter has not moved on.

## Main results

* `Numbered.mint`, `InTheMaking.no_mint` — while a token is in the making there is no other
-/

namespace UpdraftContracts

open Evm

namespace Nft

/-- The base contract, with its documented behaviour. -/
structure Erc721 where
  /-- Owners and approvals. -/
  Tokens : Type
  /-- Calls of all other functions. -/
  Call : Type
  empty : Tokens
  /-- Reverts unless there is such a token. -/
  ownerOf : Tokens → ℕ → Option Address
  /-- Reverts unless there is such a token. -/
  getApproved : Tokens → ℕ → Option Address
  _mint : Tokens → (receiver : Address) → (tokenId : ℕ) → Option Tokens
  /-- Up to where the receiver of a token is called, if it is. -/
  call : Tokens → (sender : Address) → Call → Option Tokens
  ownerOf_empty (id : ℕ) : ownerOf empty id = none
  getApproved_some {t : Tokens} {id : ℕ} {account : Address} :
    getApproved t id = some account → ownerOf t id ≠ none
  mint_some {t t' : Tokens} {receiver : Address} {id : ℕ} :
    _mint t receiver id = some t' →
      ownerOf t id = none ∧ ∀ id', ownerOf t' id' ≠ none ↔ ownerOf t id' ≠ none ∨ id' = id
  call_some {t t' : Tokens} {sender : Address} {c : Call} :
    call t sender c = some t' → ∀ id, ownerOf t' id ≠ none ↔ ownerOf t id ≠ none

variable {E : Erc721} {t t' : E.Tokens} {n : ℕ} {receiver sender : Address}

/-- The tokens are those below `n`. -/
def Numbered (E : Erc721) (t : E.Tokens) (n : ℕ) : Prop := ∀ id, E.ownerOf t id ≠ none ↔ id < n

/-- The tokens are those below `n`, and `n`. -/
def InTheMaking (E : Erc721) (t : E.Tokens) (n : ℕ) : Prop := ∀ id, E.ownerOf t id ≠ none ↔ id ≤ n

theorem numbered_empty (E : Erc721) : Numbered E E.empty 0 := fun id =>
  iff_of_false (not_not.mpr (E.ownerOf_empty id)) (Nat.not_lt_zero id)

/-- A mint under the next number has the token already, and the number not yet. -/
theorem Numbered.mint (h : Numbered E t n) (hmint : E._mint t receiver n = some t') :
    InTheMaking E t' n := by
  intro id
  rw [(E.mint_some hmint).2, h id]
  omega

/-- While a token is in the making there is no other. -/
theorem InTheMaking.no_mint (h : InTheMaking E t n) : E._mint t receiver n ≠ some t' := fun hmint =>
  (h n).mpr (Nat.le_refl n) (E.mint_some hmint).1

/-- When the number is counted up, all is in order again. -/
theorem InTheMaking.made (h : InTheMaking E t n) : Numbered E t (n + 1) := fun id =>
  (h id).trans Nat.lt_succ_iff.symm

theorem Numbered.call {c : E.Call} (h : Numbered E t n) (hcall : E.call t sender c = some t') :
    Numbered E t' n := fun id =>
  (E.call_some hcall id).trans (h id)

theorem InTheMaking.call {c : E.Call} (h : InTheMaking E t n)
    (hcall : E.call t sender c = some t') : InTheMaking E t' n := fun id =>
  (E.call_some hcall id).trans (h id)

/-! ### An implementation -/

/-- Tokens that can be minted and given away. -/
def sampleErc721 : Erc721 where
  Tokens := ℕ → Option Address
  Call := Address × ℕ
  empty _ := none
  ownerOf t id := t id
  getApproved t id := (t id).map fun _ => 0
  _mint t receiver id := if t id = none then some (Function.update t id (some receiver)) else none
  call t sender c := if t c.2 = some sender then some (Function.update t c.2 (some c.1)) else none
  ownerOf_empty _ := rfl
  getApproved_some h := by
    obtain ⟨account, haccount, -⟩ := Option.map_eq_some_iff.mp h
    rw [haccount]
    exact Option.some_ne_none account
  mint_some {t t' receiver id} h := by
    split at h
    case isFalse => cases h
    case isTrue hnone =>
      obtain rfl := Option.some.inj h
      refine ⟨hnone, fun id' => ?_⟩
      rw [Function.update_apply]
      split
      · next heq => exact iff_of_true (Option.some_ne_none receiver) (.inr heq)
      · next hne => rw [or_iff_left hne]
  call_some {t t' sender c} h id := by
    split at h
    case isFalse => cases h
    case isTrue howner =>
      obtain rfl := Option.some.inj h
      rw [Function.update_apply]
      split
      · next heq =>
        rw [heq, howner]
        exact iff_of_true (Option.some_ne_none _) (Option.some_ne_none _)
      · rfl

end Nft

end UpdraftContracts

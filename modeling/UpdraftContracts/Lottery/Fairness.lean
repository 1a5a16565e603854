import UpdraftContracts.Evm.Residues
import UpdraftContracts.Lottery.Draws

/-!
# How fair the lottery is

The winner is the entry whose number is the remainder of the random word. If the number of entries
does not divide `2 ^ 256`, the first of them are preferred, but by a single word each.

## Main results

* `draw_fair` — how many words select an entry, and how many select an account
-/

namespace UpdraftContracts

open Evm Finset

namespace Lottery

variable {D : Deployment} {s : State}

/-- The account that the callback selects for a random word. The words after the first one are not
read. -/
def selected (D : Deployment) (rest : List Word) (s : State) (randomWord : Word) : Option Address :=
  match Raffle.fulfillRandomWords D (randomWord :: rest) s with
  | .ok p => some p.state.s_recentWinner
  | .error _ => none

/-- The number of the entry that a random word selects. -/
def winnerIndex (s : State) (randomWord : Word) : ℕ := randomWord.val % s.s_players.length

/-- The winner is the player at the index that the source computes. -/
theorem selected_eq (hplayers : s.s_players ≠ []) (rest : List Word) (randomWord : Word) :
    selected D rest s randomWord = s.s_players[winnerIndex s randomWord]? := by
  have hlt : winnerIndex s randomWord < s.s_players.length :=
    Nat.mod_lt _ (List.length_pos_iff.mpr hplayers)
  have hfulfill : Raffle.fulfillRandomWords D (randomWord :: rest) s
      = .ok (.handsOver (s.drawn D s.s_players[winnerIndex s randomWord])
        (.error (.custom .Raffle__TransferFailed))) :=
    Raffle.fulfillRandomWords_eq_ok.mpr
      ⟨randomWord, _, rfl, List.getElem?_eq_getElem hlt, rfl⟩
  rw [selected, hfulfill, List.getElem?_eq_getElem hlt]
  rfl

/-- **Fairness.** Let there be players, and let an account have `k` of the `n` entries. The number
of words for which it is selected is between `k` times the quotient of `2 ^ 256` and `n` rounded
down, and `k` times the quotient rounded up. Each single entry is selected by as many words as the
quotient rounded down, or by one more, and these numbers add up to `2 ^ 256`. -/
theorem draw_fair (hplayers : s.s_players ≠ []) (rest : List Word) :
    (∀ randomWord, selected D rest s randomWord = s.s_players[winnerIndex s randomWord]?) ∧
    (∀ i < s.s_players.length,
      #{randomWord | winnerIndex s randomWord = i} = 2 ^ 256 / s.s_players.length ∨
      #{randomWord | winnerIndex s randomWord = i} = 2 ^ 256 / s.s_players.length + 1) ∧
    ∑ i ∈ range s.s_players.length, #{randomWord | winnerIndex s randomWord = i} = 2 ^ 256 ∧
    ∀ account,
      s.s_players.count account * (2 ^ 256 / s.s_players.length)
        ≤ #{randomWord | selected D rest s randomWord = some account} ∧
      #{randomWord | selected D rest s randomWord = some account}
        ≤ s.s_players.count account
          * ((2 ^ 256 + s.s_players.length - 1) / s.s_players.length) := by
  refine ⟨selected_eq hplayers rest, fun i hi => ?_, ?_, fun account => ?_⟩
  · have hcard : #{randomWord | winnerIndex s randomWord = i}
        = 2 ^ 256 / s.s_players.length + if i < 2 ^ 256 % s.s_players.length then 1 else 0 :=
      card_residue hi
    rw [hcard]
    split
    · exact .inr rfl
    · exact .inl rfl
  · exact sum_card_residue (List.length_pos_iff.mpr hplayers)
  · simp only [selected_eq hplayers rest]
    exact card_chosen_bounds s.s_players hplayers account

/-- Account `10` has two of three entries. -/
def sampleEntries : State :=
  { State.deployed 0 (fun _ => 0) with s_players := [10, 11, 10], s_raffleState := .CALCULATING }

/-- Account `10` entered twice, out of three entries. -/
theorem draw_fair_sample :
    2 * (2 ^ 256 / 3)
      ≤ #{randomWord | selected sampleDeployment [] sampleEntries randomWord = some 10} :=
  ((draw_fair (s := sampleEntries) (List.cons_ne_nil _ _) []).2.2.2 10).1

end Lottery

end UpdraftContracts

import UpdraftContracts.Lottery.Draws

/-!
# The pot

The callback clears the list of players and opens the raffle before it sends the ETH. So there can
be new entries while the winner is paid. When control is handed over, however, the old players and
the old ETH are both gone, and what is entered from then on belongs to the next round.

To say what the ETH of the raffle consists of, a run is observed together with what came in since
the last payment: with entries, or by force.

## Main results

* `pot_is_funded` — at every point the raffle has the fees of all players, and a draw pays it all
-/

namespace UpdraftContracts

open Evm

namespace Lottery

variable {D : Deployment} {s : State}

/-- What came in since the last payment. -/
structure Pot where
  /-- With entries. -/
  collected : ℕ
  /-- Otherwise. -/
  forced : ℕ

/-- The pot after a payment. -/
def Pot.empty : Pot := ⟨0, 0⟩

/-- An answer opens the raffle exactly when there was a draw. -/
def Pot.record (D : Deployment) (s : State) (a : Action) (s' : State) (g : Pot) : Pot :=
  match a with
  | .enterRaffle _ value => { g with collected := g.collected + value }
  | .performUpkeep _ => g
  | .answer _ _ => if s'.s_raffleState = .OPEN then Pot.empty else g
  | .elapse _ => g
  | .elsewhere eth => { g with forced := g.forced + (eth D.this - s.eth D.this) }

/-- The raffle with its pot. -/
def Pot.start (D : Deployment) :
    State × Pot → Action → Exec Error (Progress Error (State × Pot)) :=
  tracing (Action.start D) (Pot.record D)

/-- All that came in since the last payment is there, and the players paid their fees with it. -/
structure Funded (D : Deployment) (s : State) (g : Pot) : Prop extends OneRequest s where
  /-- The raffle is not one of its players. -/
  outside : D.this ∉ s.s_players
  fees : D.i_entranceFee * s.s_players.length ≤ g.collected
  balance : s.eth D.this = g.collected + g.forced

namespace Funded

variable {g : Pot} {requestId : ℕ} {winner : Address}

theorem answered (h : Funded D s g) (hpending : requestId ∈ s.pending) :
    Funded D (s.answered requestId) g :=
  ⟨.of_none (h.pending_answered hpending), h.outside, h.fees, h.balance⟩

theorem this_ne (h : Funded D s g) (hwinner : winner ∈ s.s_players) : D.this ≠ winner := by
  rintro rfl
  exact h.outside hwinner

/-- A draw leaves nothing. -/
theorem eth_drawn (h : Funded D s g) (hwinner : winner ∈ s.s_players) :
    ((s.answered requestId).drawn D winner).eth D.this = 0 ∧
      ((s.answered requestId).drawn D winner).eth winner = s.eth winner + s.eth D.this := by
  have hne := h.this_ne hwinner
  exact ⟨(Ether.move_src hne).trans (Nat.sub_self _), Ether.move_dst hne⟩

/-- A draw empties the pot. -/
theorem drawn (h : Funded D s g) (hpending : requestId ∈ s.pending)
    (hwinner : winner ∈ s.s_players) :
    Funded D ((s.answered requestId).drawn D winner) Pot.empty :=
  ⟨.of_none (h.pending_answered hpending), List.not_mem_nil, Nat.le_refl 0,
    (h.eth_drawn hwinner).1⟩

theorem record_answered {randomWords : List Word} (h : Funded D s g)
    (hpending : requestId ∈ s.pending) :
    Pot.record D s (.answer requestId randomWords) (s.answered requestId) g = g :=
  if_neg (h.not_open hpending)

/-- An entry pays at least the fee. -/
theorem entered {sender : Address} {value : ℕ} (h : Funded D s g) (hsender : sender ≠ D.this)
    (hfee : D.i_entranceFee ≤ value) :
    Funded D
      { s with
        s_players := s.s_players ++ [sender]
        eth := Ether.move s.eth sender D.this value }
      { g with collected := g.collected + value } := by
  refine ⟨⟨h.single, h.calculating⟩, ?_, ?_, ?_⟩
  · rw [List.mem_append, List.mem_singleton]
    exact not_or.mpr ⟨h.outside, hsender.symm⟩
  · have hfees := h.fees
    dsimp only
    rw [List.length_append, List.length_singleton, Nat.mul_add, Nat.mul_one]
    omega
  · have hbalance := h.balance
    dsimp only
    rw [Ether.move_dst hsender]
    omega

end Funded

/-- Every call, with whatever a paid winner does, keeps the pot funded. -/
theorem preserves_funded :
    Preserves (Pot.start D) (fun x a => a.FromOutside D x.1) fun x => Funded D x.1 x.2 := by
  refine preserves_tracing fun s g a p hok (h : Funded D s g) hstart => ?_
  cases Action.outcome hstart with
  | entered hvalue hopen hfee => exact h.entered hok hfee
  | requested hlong hopen hbalance hplayers hreply =>
    exact ⟨h.toOneRequest.requested hopen _, h.outside, h.fees, h.balance⟩
  | drawn hpending hwinner hwords =>
    refine Progress.forall_handsOver_ok.mpr ⟨h.drawn hpending hwinner, ?_⟩
    rw [h.record_answered hpending]
    exact h.answered hpending
  | panicked hpending hnone =>
    rw [Progress.Forall, h.record_answered hpending]
    exact h.answered hpending
  | elapsed => exact ⟨⟨h.single, h.calculating⟩, h.outside, h.fees, h.balance⟩
  | @elsewhere eth =>
    refine ⟨⟨h.single, h.calculating⟩, h.outside, h.fees, ?_⟩
    have hbalance := h.balance
    have hforced : s.eth D.this ≤ eth D.this := hok
    simp only [Pot.record]
    omega

/-- **The pot.** At every point of every run, those inside a payment included:

* the raffle has at least the entrance fee of every player;
* its ETH is what came in since the last payment, with entries or by force;
* an answer that pays a winner pays all of it, and nothing that came in before is left. -/
theorem pot_is_funded {calls : Calls Action} {timestamp : ℕ} {eth : Address → ℕ}
    (hcalls : calls.Along (Pot.start D) (fun x a => a.FromOutside D x.1)
      (State.deployed timestamp eth, ⟨0, eth D.this⟩)) :
    ∀ x ∈ calls.points (Pot.start D) (State.deployed timestamp eth, ⟨0, eth D.this⟩),
      D.i_entranceFee * x.1.s_players.length ≤ x.1.eth D.this ∧
      x.1.eth D.this = x.2.collected + x.2.forced ∧
      ∀ requestId randomWords y,
        handover (Pot.start D x (.answer requestId randomWords)) = some y →
        y.2 = Pot.empty ∧ y.1.eth D.this = 0 ∧
          ∃ winner ∈ x.1.s_players, y.1.s_recentWinner = winner ∧
            y.1.eth winner = x.1.eth winner + x.1.eth D.this := by
  have hstart : Funded D (State.deployed timestamp eth) ⟨0, eth D.this⟩ :=
    ⟨.of_none rfl, List.not_mem_nil, Nat.le_refl 0, (Nat.zero_add _).symm⟩
  rintro ⟨s, g⟩ hx
  have h : Funded D s g := preserves_funded.points calls hcalls hstart _ hx
  refine ⟨?_, h.balance, fun requestId randomWords y hy => ?_⟩
  · have hfees := h.fees
    have hbalance := h.balance
    dsimp only
    omega
  · obtain ⟨failure, hdraw, hpot⟩ := handover_tracing hy
    obtain ⟨-, ⟨winner, hwinner, -, heq⟩ | ⟨-, heq⟩⟩ := Coordinator.answer_cases hdraw
    · obtain ⟨hstate, -⟩ := Progress.handsOver.inj heq
      obtain ⟨hzero, hpaid⟩ := h.eth_drawn hwinner
      rw [hpot, hstate]
      exact ⟨rfl, hzero, winner, hwinner, rfl, hpaid⟩
    · exact nomatch heq

/-- Account `10` enters and wins. When it is paid, it enters again. -/
def sampleReentry : Calls Action :=
  .call (.enterRaffle 10 12) .done true <| .call (.elapse 31) .done true <|
    .call (.performUpkeep fun _ => some 7) .done true <|
    .call (.answer 7 [0]) (.call (.enterRaffle 10 15) .done true .done) true .done

/-- The raffle after that, with its pot. -/
def samplePot : State × Pot :=
  sampleReentry.exec (Pot.start sampleDeployment) (sampleState, ⟨0, 0⟩)

/-- In the end the raffle has the second entry. -/
theorem pot_is_funded_sample :
    samplePot.1.s_players = [10] ∧ samplePot.1.eth 1 = 15 ∧ samplePot.1.eth 10 = 85 ∧
    10 * samplePot.1.s_players.length ≤ samplePot.1.eth 1 ∧
    samplePot.1.eth 1 = samplePot.2.collected + samplePot.2.forced := by
  have hcalls : sampleReentry.Along (Pot.start sampleDeployment)
      (fun x a => a.FromOutside sampleDeployment x.1) (sampleState, ⟨0, 0⟩) := by
    have hne : (10 : Address) ≠ 1 := by decide
    exact ⟨hne, fun _ _ => trivial, trivial, fun _ _ => trivial, trivial, fun _ _ => trivial,
      trivial, fun _ _ => ⟨hne, fun _ _ => trivial, trivial⟩, trivial⟩
  obtain ⟨hfees, hbalance, -⟩ := pot_is_funded hcalls samplePot (Calls.exec_mem_points ..)
  exact ⟨by decide, by decide, by decide, hfees, hbalance⟩

end Lottery

end UpdraftContracts

import UpdraftContracts.Lottery.Raffle

/-!
# Requests and draws

The raffle waits for an answer while it is calculating. Then nobody can enter and nobody can close
the round again, so there is one request at most, and the players are those of when it was made. The
callback does not look at the number of the request. It does not have to.

Whether the raffle gets out of this state depends on the winner. If the winner does not accept the
ETH, the callback reverts and takes back that the raffle was opened, but for the coordinator the
request is answered. No other request can be made, and so the raffle is closed for good.

## Main results

* `draw_is_frozen` — what holds at all points of every run
* `open_iff_no_request` — with winners that accept the ETH the raffle opens again
* `stuck_forever` — otherwise it does not
-/

namespace UpdraftContracts

open Evm

namespace Lottery

variable {D : Deployment} {s : State}

/-! ## One request at a time -/

/-- There is one request at most, and while there is one, the raffle is calculating. -/
structure OneRequest (s : State) : Prop where
  single : s.pending.length ≤ 1
  calculating : s.pending ≠ [] → s.s_raffleState = .CALCULATING

namespace OneRequest

variable {requestId : ℕ}

theorem of_none (h : s.pending = []) : OneRequest s :=
  ⟨by rw [h]; exact Nat.zero_le 1, fun hsome => absurd h hsome⟩

/-- While the raffle is open, there is no request. -/
theorem pending_of_open (h : OneRequest s) (hopen : s.s_raffleState = .OPEN) : s.pending = [] := by
  by_contra hne
  rw [h.calculating hne] at hopen
  exact nomatch hopen

theorem not_open (h : OneRequest s) (hpending : requestId ∈ s.pending) :
    s.s_raffleState ≠ .OPEN := by
  rw [h.calculating (List.ne_nil_of_mem hpending)]
  exact nofun

/-- The answer to the one request leaves none. -/
theorem pending_answered (h : OneRequest s) (hpending : requestId ∈ s.pending) :
    (s.answered requestId).pending = [] := by
  have hlen := List.length_erase_of_mem hpending
  have hsingle := h.single
  exact List.length_eq_zero_iff.mp (by rw [State.answered, hlen]; omega)

/-- A request of an open raffle is the only one. -/
theorem requested (h : OneRequest s) (hopen : s.s_raffleState = .OPEN) (requestId : ℕ) :
    OneRequest { s with s_raffleState := .CALCULATING, pending := s.pending ++ [requestId] } := by
  refine ⟨?_, fun _ => rfl⟩
  simp [h.pending_of_open hopen]

end OneRequest

/-! ## Rounds -/

/-- A draw that went through. -/
structure Draw where
  players : List Address
  winner : Address

/-- The rounds of a run so far. -/
structure Rounds where
  /-- The entries that were accepted, in order. -/
  entries : List Address
  /-- The players when the last request was made. -/
  requested : List Address
  draws : List Draw

/-- Nothing has happened. -/
def Rounds.empty : Rounds := ⟨[], [], []⟩

/-- An answer opens the raffle exactly when there was a draw. -/
def Rounds.record (s : State) (a : Action) (s' : State) (g : Rounds) : Rounds :=
  match a with
  | .enterRaffle sender _ => { g with entries := g.entries ++ [sender] }
  | .performUpkeep _ => { g with requested := s.s_players }
  | .answer _ _ =>
    if s'.s_raffleState = .OPEN then
      { g with draws := g.draws ++ [⟨s.s_players, s'.s_recentWinner⟩] }
    else g
  | .elapse _ => g
  | .elsewhere _ => g

/-- The raffle with its rounds. -/
def Rounds.start (D : Deployment) :
    State × Rounds → Action → Exec Error (Progress Error (State × Rounds)) :=
  tracing (Action.start D) Rounds.record

/-- While a request is pending, the players are those of when it was made. -/
structure Frozen (s : State) (g : Rounds) : Prop extends OneRequest s where
  nonempty : s.pending ≠ [] → s.s_players ≠ []
  requested : s.pending ≠ [] → s.s_players = g.requested
  entries : g.entries = g.draws.flatMap Draw.players ++ s.s_players
  winners : ∀ d ∈ g.draws, d.winner ∈ d.players

namespace Frozen

variable {g : Rounds} {requestId : ℕ}

/-- Without a request nothing has to stay as it is. -/
theorem of_none (hnone : s.pending = [])
    (entries : g.entries = g.draws.flatMap Draw.players ++ s.s_players)
    (winners : ∀ d ∈ g.draws, d.winner ∈ d.players) : Frozen s g :=
  ⟨.of_none hnone, fun hsome => absurd hnone hsome, fun hsome => absurd hnone hsome, entries,
    winners⟩

theorem answered (h : Frozen s g) (hpending : requestId ∈ s.pending) :
    Frozen (s.answered requestId) g :=
  .of_none (h.pending_answered hpending) h.entries h.winners

/-- A draw is from the players of the request. -/
theorem drawn {winner : Address} (h : Frozen s g) (hpending : requestId ∈ s.pending)
    (hwinner : winner ∈ s.s_players) :
    Frozen ((s.answered requestId).drawn D winner)
      { g with draws := g.draws ++ [⟨s.s_players, winner⟩] } := by
  refine .of_none (h.pending_answered hpending) ?_ ?_
  · simp [h.entries, State.drawn]
  · exact List.forall_mem_append.mpr ⟨h.winners, List.forall_mem_singleton.mpr hwinner⟩

theorem record_answered {randomWords : List Word} (h : Frozen s g)
    (hpending : requestId ∈ s.pending) :
    Rounds.record s (.answer requestId randomWords) (s.answered requestId) g = g :=
  if_neg (h.not_open hpending)

end Frozen

/-- Every call, with whatever a paid winner does, keeps the players frozen while there is a request.
-/
theorem preserves_frozen :
    Preserves (Rounds.start D) (fun _ _ => True) fun x => Frozen x.1 x.2 := by
  refine preserves_tracing fun s g a p _ (h : Frozen s g) hstart => ?_
  cases Action.outcome hstart with
  | entered hvalue hopen hfee =>
    refine .of_none (h.pending_of_open hopen) ?_ h.winners
    simp only [Rounds.record, h.entries, List.append_assoc]
  | requested hlong hopen hbalance hplayers hreply =>
    exact ⟨h.toOneRequest.requested hopen _, fun _ => hplayers, fun _ => rfl, h.entries, h.winners⟩
  | drawn hpending hwinner hwords =>
    refine Progress.forall_handsOver_ok.mpr ⟨h.drawn hpending hwinner, ?_⟩
    rw [h.record_answered hpending]
    exact h.answered hpending
  | panicked hpending hnone =>
    rw [Progress.Forall, h.record_answered hpending]
    exact h.answered hpending
  | elapsed =>
    exact ⟨⟨h.single, h.calculating⟩, h.nonempty, h.requested, h.entries, h.winners⟩
  | elsewhere =>
    exact ⟨⟨h.single, h.calculating⟩, h.nonempty, h.requested, h.entries, h.winners⟩

/-- **The draw is over a frozen list.** At every point of every run, whoever enters, closes rounds
and answers, and whatever winners do when they are paid:

* there is one request at most, and while there is one, there are players, the same as when the
  request was made;
* the callback for it does not panic, and picks one of them;
* every entry that was accepted was part of one draw, or is one of the current players. -/
theorem draw_is_frozen (calls : Calls Action) (timestamp : ℕ) (eth : Address → ℕ) :
    ∀ x ∈ calls.points (Rounds.start D) (State.deployed timestamp eth, Rounds.empty),
      x.1.pending.length ≤ 1 ∧
      (x.1.pending ≠ [] → x.1.s_players ≠ [] ∧ x.1.s_players = x.2.requested) ∧
      (∀ requestId ∈ x.1.pending, ∀ randomWords ≠ [], ∃ winner ∈ x.1.s_players,
        Raffle.fulfillRandomWords D randomWords (x.1.answered requestId)
          = .ok (.handsOver ((x.1.answered requestId).drawn D winner)
              (.error (.custom .Raffle__TransferFailed)))) ∧
      (∀ d ∈ x.2.draws, d.winner ∈ d.players) ∧
      x.2.entries = x.2.draws.flatMap Draw.players ++ x.1.s_players := by
  have hstart : Frozen (State.deployed timestamp eth) Rounds.empty := .of_none rfl rfl nofun
  intro x hx
  have h : Frozen x.1 x.2 := preserves_frozen.points calls
    (Calls.along_of_forall (fun _ _ => trivial) calls _) hstart x hx
  refine ⟨h.single, fun hsome => ⟨h.nonempty hsome, h.requested hsome⟩,
    fun requestId hpending randomWords hwords => ?_, h.winners, h.entries⟩
  exact Raffle.fulfillRandomWords_ok (s := x.1.answered requestId) hwords
    (h.nonempty (List.ne_nil_of_mem hpending))

/-! ## Getting stuck -/

/-- The raffle and the coordinator agree on whether there is a request. -/
structure InStep (s : State) : Prop where
  waiting : s.s_raffleState = .CALCULATING → s.pending.length = 1 ∧ s.s_players ≠ []
  none : s.s_raffleState = .OPEN → s.pending = []

/-- An answer comes with a word, and the winner accepts the ETH. -/
def Accepted (s : State) (a : Action × Bool) : Prop :=
  match a.1 with
  | .answer requestId randomWords => requestId ∈ s.pending → randomWords ≠ [] ∧ a.2 = true
  | _ => True

namespace InStep

variable {requestId : ℕ}

theorem oneRequest (h : InStep s) : OneRequest s := by
  cases hstate : s.s_raffleState with
  | CALCULATING => exact ⟨(h.waiting hstate).1.le, fun _ => hstate⟩
  | OPEN => exact .of_none (h.none hstate)

theorem calculating_of_mem (h : InStep s) (hpending : requestId ∈ s.pending) :
    s.s_raffleState = .CALCULATING :=
  h.oneRequest.calculating (List.ne_nil_of_mem hpending)

/-- The phase says whether there is a request. -/
theorem calculating_iff (h : InStep s) : s.s_raffleState = .CALCULATING ↔ s.pending.length = 1 := by
  refine ⟨fun hstate => (h.waiting hstate).1, fun hlen => ?_⟩
  obtain ⟨requestId, hpending⟩ := List.length_eq_one_iff.mp hlen
  exact h.calculating_of_mem (hpending ▸ List.mem_singleton_self requestId)

theorem drawn (h : InStep s) (hpending : requestId ∈ s.pending) (winner : Address) :
    InStep ((s.answered requestId).drawn D winner) :=
  ⟨nofun, fun _ => h.oneRequest.pending_answered hpending⟩

end InStep

/-- As long as winners accept their prizes, phase and requests stay in step. -/
theorem preserves_inStep : Preserves (ending (Action.start D)) Accepted InStep := by
  rintro s ⟨a, returns⟩ p hok h hstart
  obtain ⟨q, hq, hp⟩ := bind_eq_ok.mp hstart
  obtain rfl := pure_eq_ok.mp hp
  cases Action.outcome hq with
  | entered hvalue hopen hfee =>
    refine ⟨fun hstate => ?_, h.none⟩
    exact absurd (hopen.symm.trans hstate) nofun
  | requested hlong hopen hbalance hplayers hreply =>
    refine ⟨fun _ => ⟨?_, hplayers⟩, nofun⟩
    simp [h.none hopen]
  | drawn hpending hwinner hwords =>
    obtain ⟨-, rfl⟩ : _ ∧ returns = true := hok hpending
    exact Progress.forall_handsOver_error.mpr (h.drawn hpending _)
  | panicked hpending hnone =>
    have hplayers := (h.waiting (h.calculating_of_mem hpending)).2
    exact absurd hnone (not_or.mpr ⟨(hok hpending).1, hplayers⟩)
  | elapsed => exact ⟨h.waiting, h.none⟩
  | elsewhere => exact ⟨h.waiting, h.none⟩

/-- The raffle waits for an answer that will not come. -/
def Stuck (s : State) : Prop := s.s_raffleState = .CALCULATING ∧ s.pending = []

/-- A stuck raffle is calculating without a request. -/
theorem Stuck.not_iff (h : Stuck s) :
    ¬ (s.s_raffleState = .CALCULATING ↔ s.pending.length = 1) := by
  rw [h.1, h.2]
  exact fun hiff => absurd (hiff.mp rfl) (by decide)

/-- A request that is answered without a draw. -/
theorem InStep.stuck_answered {requestId : ℕ} (h : InStep s) (hpending : requestId ∈ s.pending) :
    Stuck (s.answered requestId) :=
  ⟨h.calculating_of_mem hpending, h.oneRequest.pending_answered hpending⟩

/-- **Closed for good.** Nothing that anybody does gets the raffle out of this. -/
theorem stuck_forever : Preserves (Action.start D) (fun _ _ => True) Stuck := by
  intro s a p _ h hstart
  cases Action.outcome hstart with
  | entered hvalue hopen hfee => exact absurd (hopen.symm.trans h.1) nofun
  | requested hlong hopen hbalance hplayers hreply => exact absurd (hopen.symm.trans h.1) nofun
  | drawn hpending hwinner hwords =>
    rw [h.2] at hpending
    exact absurd hpending List.not_mem_nil
  | panicked hpending hnone =>
    rw [h.2] at hpending
    exact absurd hpending List.not_mem_nil
  | elapsed => exact h
  | elsewhere => exact h

/-- **When an answer gets the raffle stuck.** It does unless it comes with a word and the winner
accepts the ETH. -/
theorem InStep.answer_iff (h : InStep s) {requestId : ℕ} (hpending : requestId ∈ s.pending)
    {randomWords : List Word} {inner : Calls Action} {returns : Bool}
    (hinner : ∀ s₁, handover (Action.start D s (.answer requestId randomWords)) = some s₁ →
      inner.tag.Along (ending (Action.start D)) Accepted s₁) {s' : State}
    (hs' : s' = Calls.complete (Action.start D) (.answer requestId randomWords)
      (inner.exec (Action.start D)) returns s) :
    (s'.s_raffleState = .CALCULATING ↔ s'.pending.length = 1) ↔
      randomWords ≠ [] ∧ returns = true := by
  obtain ⟨p, hp⟩ : ∃ p, Action.start D s (.answer requestId randomWords) = .ok p :=
    ⟨_, if_pos hpending⟩
  have hplayers := (h.waiting (h.calculating_of_mem hpending)).2
  have hstuck := (h.stuck_answered hpending).not_iff
  rw [hp] at hinner
  rw [Calls.complete, hp] at hs'
  obtain ⟨-, ⟨winner, -, hwords, rfl⟩ | ⟨hnone, rfl⟩⟩ := Coordinator.answer_cases hp
  · cases returns with
    | true =>
      have hend : InStep s' := by
        rw [hs', ← Calls.exec_tag]
        exact preserves_inStep.exec _ (hinner _ rfl) (h.drawn hpending winner)
      exact iff_of_true hend.calculating_iff ⟨hwords, rfl⟩
    | false =>
      obtain rfl : s' = s.answered requestId := hs'
      exact iff_of_false hstuck fun hand => Bool.false_ne_true hand.2
  · obtain rfl : s' = s.answered requestId := hs'
    exact iff_of_false hstuck fun hand => hand.1 (hnone.resolve_right hplayers)

/-- **The raffle opens again.** In every run in which answers come with a word and winners accept
the ETH, at every point the raffle is calculating if and only if one request is pending, and open if
and only if none is. An answer finds it open and without players when the winner is paid. And for
answers at such a point the condition is exact: without it they leave the raffle calculating with
no request pending. -/
theorem open_iff_no_request {calls : Calls Action} {timestamp : ℕ} {eth : Address → ℕ}
    (hcalls : calls.tag.Along (ending (Action.start D)) Accepted (State.deployed timestamp eth)) :
    ∀ s ∈ calls.points (Action.start D) (State.deployed timestamp eth),
      (s.s_raffleState = .CALCULATING ↔ s.pending.length = 1) ∧
      (s.s_raffleState = .OPEN ↔ s.pending = []) ∧
      ∀ requestId ∈ s.pending, ∀ randomWords,
        (randomWords ≠ [] → ∃ s₁,
          handover (Action.start D s (.answer requestId randomWords)) = some s₁ ∧
          s₁.s_raffleState = .OPEN ∧ s₁.s_players = [] ∧ s₁.pending = []) ∧
        ∀ (inner : Calls Action) (returns : Bool) (s' : State),
          (∀ s₁, handover (Action.start D s (.answer requestId randomWords)) = some s₁ →
            inner.tag.Along (ending (Action.start D)) Accepted s₁) →
          s' = Calls.complete (Action.start D) (.answer requestId randomWords)
            (inner.exec (Action.start D)) returns s →
          ((s'.s_raffleState = .CALCULATING ↔ s'.pending.length = 1) ↔
            randomWords ≠ [] ∧ returns = true) := by
  have hstart : InStep (State.deployed timestamp eth) := ⟨nofun, fun _ => rfl⟩
  intro s hs
  rw [← Calls.points_tag] at hs
  have h : InStep s := preserves_inStep.points _ hcalls hstart s hs
  refine ⟨h.calculating_iff, ⟨h.none, fun hnone => ?_⟩, fun requestId hpending randomWords =>
    ⟨fun hwords => ?_, fun inner returns s' hinner hs' => h.answer_iff hpending hinner hs'⟩⟩
  · cases hstate : s.s_raffleState with
    | OPEN => rfl
    | CALCULATING =>
      have hlen := (h.waiting hstate).1
      rw [hnone] at hlen
      exact nomatch hlen
  · have hplayers := (h.waiting (h.calculating_of_mem hpending)).2
    obtain ⟨winner, -, hok⟩ := Coordinator.answer_ok (D := D) hpending hwords hplayers
    refine ⟨(s.answered requestId).drawn D winner, ?_, rfl, rfl,
      h.oneRequest.pending_answered hpending⟩
    rw [Action.start, hok]
    rfl

/-! ### A round with one player -/

/-- A raffle at address 1, with an entrance fee of ten wei and rounds of half a minute. -/
def sampleDeployment : Deployment where
  this := 1
  i_entranceFee := 10
  i_interval := 30
  i_keyHash := 0
  i_subscriptionId := 0
  i_callbackGasLimit := 500000

/-- Everybody has a hundred, but for the raffle. -/
def sampleState : State := .deployed 0 fun a => if a = 1 then 0 else 100

/-- Account `10` enters, the round is closed, and the request is answered. The winner accepts the
ETH or does not. -/
def sampleRound (accepts : Bool) : Calls Action :=
  .call (.enterRaffle 10 10) .done true <| .call (.elapse 31) .done true <|
    .call (.performUpkeep fun _ => some 7) .done true <| .call (.answer 7 [0]) .done accepts .done

/-- The raffle after a round whose winner accepts, with what happened. -/
def sampleRounds : State × Rounds :=
  (sampleRound true).exec (Rounds.start sampleDeployment) (sampleState, Rounds.empty)

/-- The one entry was part of the one draw. -/
theorem draw_is_frozen_sample :
    (sampleRounds.2.entries = [10] ∧ sampleRounds.2.draws.length = 1) ∧
    (∀ d ∈ sampleRounds.2.draws, d.winner ∈ d.players) ∧
    sampleRounds.2.entries
      = sampleRounds.2.draws.flatMap Draw.players ++ sampleRounds.1.s_players := by
  obtain ⟨-, -, -, hwinners, hentries⟩ := draw_is_frozen (D := sampleDeployment) (sampleRound true)
    0 (fun a => if a = 1 then 0 else 100) sampleRounds (Calls.exec_mem_points ..)
  exact ⟨by decide, hwinners, hentries⟩

/-- In a round with a winner that accepts, the raffle is open in the end. -/
theorem open_iff_no_request_sample :
    (sampleRound true).exec (Action.start sampleDeployment) sampleState
      ∈ (sampleRound true).points (Action.start sampleDeployment) sampleState ∧
    ((sampleRound true).exec (Action.start sampleDeployment) sampleState).s_raffleState
      = .OPEN := by
  have hcalls : (sampleRound true).tag.Along (ending (Action.start sampleDeployment)) Accepted
      sampleState := by
    refine ⟨trivial, fun _ _ => trivial, trivial, fun _ _ => trivial, trivial, fun _ _ => trivial,
      fun _ => ⟨nofun, rfl⟩, fun _ _ => trivial, trivial⟩
  have hmem := Calls.exec_mem_points (Action.start sampleDeployment) (sampleRound true) sampleState
  exact ⟨hmem, (open_iff_no_request hcalls _ hmem).2.1.mpr (by decide)⟩

/-- **A winner that does not accept the ETH.** The request counts as answered, the raffle still
waits, and whatever happens from then on, it always will. -/
theorem raffle_gets_stuck :
    Stuck ((sampleRound false).exec (Action.start sampleDeployment) sampleState) ∧
    ∀ calls : Calls Action,
      Stuck (calls.exec (Action.start sampleDeployment)
        ((sampleRound false).exec (Action.start sampleDeployment) sampleState)) := by
  have hstuck : Stuck ((sampleRound false).exec (Action.start sampleDeployment) sampleState) :=
    ⟨by decide, by decide⟩
  exact ⟨hstuck, fun calls =>
    stuck_forever.exec calls (Calls.along_of_forall (fun _ _ => trivial) calls _) hstuck⟩

end Lottery

end UpdraftContracts

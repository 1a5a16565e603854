import Mathlib.Data.List.Chain
import UpdraftContracts.Lottery.Draws

/-!
# How often there is a draw

Requests cost the subscription of the raffle LINK, and anyone may make them. What keeps them from
coming one after another is the time of the last draw, which `checkUpkeep` compares with the clock.
It is only written by the callback, long after the comparison, and it is written with the time of
the answer. So the rounds are at least as long as the interval, and usually longer.

To count rounds, a run is observed together with the requests and the draws so far. A draw that is
taken back because the winner did not accept the ETH is not counted, and there is no request after
it.

## Main results

* `draws_paced` — requests and draws are more than an interval apart, at all points of every run
-/

namespace UpdraftContracts

open Evm

namespace Lottery

variable {D : Deployment} {s : State} {deployedAt : ℕ}

/-- What there was of requests and draws. -/
structure Clock where
  requests : ℕ
  /-- The times of the draws, in order. -/
  draws : List ℕ

/-- No request and no draw. -/
def Clock.start : Clock := ⟨0, []⟩

/-- An answer opens the raffle exactly when there was a draw. -/
def Clock.record (_ : State) (a : Action) (s' : State) (g : Clock) : Clock :=
  match a with
  | .enterRaffle _ _ => g
  | .performUpkeep _ => { g with requests := g.requests + 1 }
  | .answer _ _ =>
    if s'.s_raffleState = .OPEN then { g with draws := g.draws ++ [s'.timestamp] } else g
  | .elapse _ => g
  | .elsewhere _ => g

/-- The raffle with its clock. -/
def Clock.run (D : Deployment) :
    State × Clock → Action → Exec Error (Progress Error (State × Clock)) :=
  tracing (Action.start D) Clock.record

/-- Times that are more than the interval of the raffle apart. -/
def Deployment.Spaced (D : Deployment) : List ℕ → Prop :=
  List.IsChain fun t t' => t + D.i_interval < t'

/-- Requests and draws keep the pace of the interval. -/
structure Paced (D : Deployment) (deployedAt : ℕ) (s : State) (g : Clock) : Prop
    extends OneRequest s where
  last : (deployedAt :: g.draws).getLast? = some s.s_lastTimestamp
  spaced : D.Spaced (deployedAt :: g.draws)
  rate : deployedAt + (D.i_interval + 1) * g.draws.length ≤ s.s_lastTimestamp
  past : s.s_lastTimestamp ≤ s.timestamp
  /-- While the raffle is calculating, there is one request more. -/
  requests : g.requests = g.draws.length + s.s_raffleState.toNat
  /-- The comparison that `checkUpkeep` made, which the passing of time cannot undo. -/
  elapsed : s.s_raffleState = .CALCULATING → s.s_lastTimestamp + D.i_interval < s.timestamp

namespace Paced

variable {g : Clock} {requestId : ℕ} {winner : Address}

theorem deployed (D : Deployment) (timestamp : ℕ) (eth : Address → ℕ) :
    Paced D timestamp (State.deployed timestamp eth) Clock.start :=
  ⟨.of_none rfl, rfl, .singleton _, Nat.le_refl _, Nat.le_refl _, rfl, nofun⟩

/-- A request that was answered without a draw. -/
theorem answered (h : Paced D deployedAt s g) (hpending : requestId ∈ s.pending) :
    Paced D deployedAt (s.answered requestId) g :=
  ⟨.of_none (h.pending_answered hpending), h.last, h.spaced, h.rate, h.past, h.requests, h.elapsed⟩

theorem record_answered {randomWords : List Word} (h : Paced D deployedAt s g)
    (hpending : requestId ∈ s.pending) :
    Clock.record s (.answer requestId randomWords) (s.answered requestId) g = g :=
  if_neg (h.not_open hpending)

/-- The request was late enough, and the draw is later still. -/
theorem drawn (h : Paced D deployedAt s g) (hpending : requestId ∈ s.pending) :
    Paced D deployedAt ((s.answered requestId).drawn D winner)
      { g with draws := g.draws ++ [s.timestamp] } := by
  have hcalculating := h.calculating (List.ne_nil_of_mem hpending)
  have helapsed := h.elapsed hcalculating
  have hrate := h.rate
  refine ⟨.of_none (h.pending_answered hpending), ?_, ?_, ?_, Nat.le_refl _, ?_, nofun⟩
  · rw [← List.cons_append, List.getLast?_concat]
    rfl
  · refine h.spaced.append (.singleton s.timestamp) fun t ht t' ht' => ?_
    obtain rfl := Option.some.inj (h.last.symm.trans ht)
    obtain rfl := Option.some.inj ht'
    exact helapsed
  · rw [List.length_append, List.length_singleton, Nat.mul_add]
    simp only [State.drawn, State.answered]
    omega
  · rw [List.length_append, List.length_singleton, h.requests, hcalculating]
    rfl

/-- A request is possible in an open raffle after the interval only. -/
theorem requested (h : Paced D deployedAt s g) (hopen : s.s_raffleState = .OPEN)
    (hlong : D.i_interval < s.timestamp - s.s_lastTimestamp) (requestId : ℕ) :
    Paced D deployedAt
      { s with s_raffleState := .CALCULATING, pending := s.pending ++ [requestId] }
      { g with requests := g.requests + 1 } := by
  refine ⟨h.toOneRequest.requested hopen requestId, h.last, h.spaced, h.rate, h.past, ?_, ?_⟩
  · have hrequests := h.requests
    rw [hopen] at hrequests
    exact congrArg (· + 1) hrequests
  · intro _
    dsimp only
    omega

/-- Every request, a last one without a draw included, has taken its interval. -/
theorem requests_le (h : Paced D deployedAt s g) :
    deployedAt + (D.i_interval + 1) * g.requests ≤ s.timestamp := by
  have hrate := h.rate
  have hpast := h.past
  rw [h.requests, Nat.mul_add]
  cases hstate : s.s_raffleState with
  | OPEN =>
    simp only [RaffleState.toNat]
    omega
  | CALCULATING =>
    have helapsed := h.elapsed hstate
    simp only [RaffleState.toNat]
    omega

end Paced

/-- **Steps keep the pace.** -/
theorem preserves_paced :
    Preserves (Clock.run D) (fun _ _ => True) fun x => Paced D deployedAt x.1 x.2 := by
  refine preserves_tracing fun s g a p _ (h : Paced D deployedAt s g) hstart => ?_
  cases Action.outcome hstart with
  | entered hvalue hopen hfee =>
    exact ⟨⟨h.single, h.calculating⟩, h.last, h.spaced, h.rate, h.past, h.requests, h.elapsed⟩
  | requested hlong hopen hbalance hplayers hreply => exact h.requested hopen hlong _
  | drawn hpending hwinner hwords =>
    refine Progress.forall_handsOver_ok.mpr ⟨h.drawn hpending, ?_⟩
    rw [h.record_answered hpending]
    exact h.answered hpending
  | panicked hpending hnone =>
    rw [Progress.Forall, h.record_answered hpending]
    exact h.answered hpending
  | @elapsed seconds =>
    refine ⟨⟨h.single, h.calculating⟩, h.last, h.spaced, h.rate,
      Nat.le_add_right_of_le h.past, h.requests, fun hstate => ?_⟩
    exact Nat.lt_add_right seconds (h.elapsed hstate)
  | elsewhere =>
    exact ⟨⟨h.single, h.calculating⟩, h.last, h.spaced, h.rate, h.past, h.requests, h.elapsed⟩

/-- **One round for each interval.** At every point of every run, whoever closes rounds and answers,
and whatever winners do when they are paid:

* the first draw is more than an interval after the deployment, and every other one more than an
  interval after the one before it, which is the time that the raffle keeps;
* there is a draw for every request, but for the last one while the raffle waits;
* there are no more requests than intervals since the deployment. -/
theorem draws_paced (calls : Calls Action) (timestamp : ℕ) (eth : Address → ℕ) :
    ∀ x ∈ calls.points (Clock.run D) (State.deployed timestamp eth, Clock.start),
      D.Spaced (timestamp :: x.2.draws) ∧
      (timestamp :: x.2.draws).getLast? = some x.1.s_lastTimestamp ∧
      x.2.requests = x.2.draws.length + x.1.s_raffleState.toNat ∧
      timestamp + (D.i_interval + 1) * x.2.requests ≤ x.1.timestamp := by
  intro x hx
  have h : Paced D timestamp x.1 x.2 := preserves_paced.points calls
    (Calls.along_of_forall (fun _ _ => trivial) calls _) (.deployed D timestamp eth) x hx
  exact ⟨h.spaced, h.last, h.requests, h.requests_le⟩

/-- Two rounds. The second request is made as soon as possible, and not answered. -/
def sampleTwoRounds : Calls Action :=
  .call (.enterRaffle 10 10) .done true <| .call (.elapse 40) .done true <|
    .call (.performUpkeep fun _ => some 7) .done true <|
    .call (.answer 7 [0]) (.call (.enterRaffle 10 15) .done true .done) true <|
    .call (.elapse 31) .done true <| .call (.performUpkeep fun _ => some 8) .done true .done

/-- Where they end. -/
def sampleClock : State × Clock :=
  sampleTwoRounds.exec (Clock.run sampleDeployment) (sampleState, Clock.start)

/-- There are two requests after seventy-one seconds. -/
theorem draws_paced_sample :
    (sampleClock.2.draws = [40] ∧ sampleClock.2.requests = 2 ∧ sampleClock.1.timestamp = 71) ∧
    sampleDeployment.Spaced (0 :: sampleClock.2.draws) ∧
    0 + (30 + 1) * sampleClock.2.requests ≤ sampleClock.1.timestamp := by
  obtain ⟨hspaced, -, -, hrate⟩ := draws_paced (D := sampleDeployment) sampleTwoRounds
    0 (fun a => if a = 1 then 0 else 100) sampleClock (Calls.exec_mem_points ..)
  exact ⟨by decide, hspaced, hrate⟩

end Lottery

end UpdraftContracts

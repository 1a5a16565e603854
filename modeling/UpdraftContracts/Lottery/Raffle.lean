import UpdraftContracts.Evm.Abi
import UpdraftContracts.Evm.Ether
import UpdraftContracts.Evm.Reentrancy

/-!
# `Raffle`

A lottery. Players pay to enter. When a round has lasted long enough, anyone can close it, which
requests a random word from the VRF coordinator. The coordinator answers later, in a callback that
picks the winner, opens the next round and sends the winner all the ETH there is.

The coordinator is not part of the repository. Of it the model has the requests that are not yet
answered. What it replies to a request is a parameter of the call, and so are the random words. It
answers each request once: the request is gone before the callback starts, and stays gone if the
callback reverts.

## Main results

* `enterRaffle_eq_ok`, `performUpkeep_eq_ok`, `fulfillRandomWords_eq_ok` — exactly when the
  functions of the raffle return, and what they do
* `answer_cases` — what an answer of the coordinator does
* `Action.outcome` — all that a call can do
-/

namespace UpdraftContracts

open Evm

namespace Lottery

/-- The phases of a round. -/
inductive RaffleState where
  | OPEN
  | CALCULATING
  deriving DecidableEq

/-- `uint256(raffleState)` -/
def RaffleState.toNat : RaffleState → ℕ
  | OPEN => 0
  | CALCULATING => 1

/-- The errors of the raffle. -/
inductive Error where
  | Raffle__NotEnoughETH
  | Raffle__TransferFailed
  | Raffle__NotOpen
  | Raffle__UpkeepNotNeeded (currentBalance playersLength raffleState : ℕ)
  deriving DecidableEq

/-- `VRFV2PlusClient.RandomWordsRequest`, with the one extra argument there is. -/
structure RandomWordsRequest where
  keyHash : Word
  subId : ℕ
  requestConfirmations : ℕ
  callbackGasLimit : ℕ
  numWords : ℕ
  nativePayment : Bool

/-- What is fixed when the raffle is deployed. -/
structure Deployment where
  /-- `address(this)` -/
  this : Address
  i_entranceFee : ℕ
  i_interval : ℕ
  i_keyHash : Word
  i_subscriptionId : ℕ
  i_callbackGasLimit : ℕ

/-- The raffle, and what it sees of its surroundings. -/
structure State where
  s_players : List Address
  s_lastTimestamp : ℕ
  s_recentWinner : Address
  s_raffleState : RaffleState
  /-- `block.timestamp` -/
  timestamp : ℕ
  /-- The ETH of all accounts. -/
  eth : Address → ℕ
  /-- The requests that the coordinator has not answered. -/
  pending : List ℕ

/-- The state that the constructor leaves. -/
def State.deployed (timestamp : ℕ) (eth : Address → ℕ) : State where
  s_players := []
  s_lastTimestamp := timestamp
  s_recentWinner := 0
  s_raffleState := .OPEN
  timestamp := timestamp
  eth := eth
  pending := []

/-- The next round is open, and the winner of the last one has all the ETH. -/
def State.drawn (D : Deployment) (winner : Address) (s : State) : State where
  s_players := []
  s_lastTimestamp := s.timestamp
  s_recentWinner := winner
  s_raffleState := .OPEN
  timestamp := s.timestamp
  eth := Ether.move s.eth D.this winner (s.eth D.this)
  pending := s.pending

/-- The coordinator has answered a request. -/
def State.answered (requestId : ℕ) (s : State) : State :=
  { s with pending := s.pending.erase requestId }

namespace Raffle

/-- How many blocks the coordinator waits. -/
def REQUEST_CONFIRMATIONS : ℕ := 3

/-- One word is enough for a winner. -/
def NUM_WORDS : ℕ := 1

variable (D : Deployment)

/-- The modifier `onlyOpen` -/
def onlyOpen (s : State) : Exec Error Unit :=
  revertIf (s.s_raffleState ≠ .OPEN) .Raffle__NotOpen

/-- The state is checked twice, by the modifier and in the body. -/
def enterRaffle (sender : Address) (value : ℕ) (s : State) : Exec Error State := do
  let eth ← Ether.pay s.eth sender D.this value
  let s := { s with eth := eth }
  onlyOpen s
  revertIf (value < D.i_entranceFee) .Raffle__NotEnoughETH
  revertIf (s.s_raffleState ≠ .OPEN) .Raffle__NotOpen
  return { s with s_players := s.s_players ++ [sender] }

/-- Whether it is time for a draw. -/
def checkUpkeep (s : State) : Exec Error Bool := do
  let elapsed ← checkedSub s.timestamp s.s_lastTimestamp
  let timePassed : Bool := elapsed > D.i_interval
  let isOpen : Bool := s.s_raffleState = .OPEN
  let hasBalance : Bool := s.eth D.this > 0
  let hasPlayers : Bool := s.s_players.length > 0
  return timePassed && isOpen && hasBalance && hasPlayers

/-- The request that `performUpkeep` makes. -/
def request : RandomWordsRequest where
  keyHash := D.i_keyHash
  subId := D.i_subscriptionId
  requestConfirmations := REQUEST_CONFIRMATIONS
  callbackGasLimit := D.i_callbackGasLimit
  numWords := NUM_WORDS
  nativePayment := false

/-- The coordinator replies with the number of the request, or reverts. -/
def performUpkeep (requestRandomWords : RandomWordsRequest → Option ℕ) (s : State) :
    Exec Error State := do
  let upkeepNeeded ← checkUpkeep D s
  revertIf (upkeepNeeded = false)
    (.Raffle__UpkeepNotNeeded (s.eth D.this) s.s_players.length s.s_raffleState.toNat)
  let s := { s with s_raffleState := .CALCULATING }
  let requestId ← ofCallee (requestRandomWords (request D))
  return { s with pending := s.pending ++ [requestId] }

/-- Which request is answered makes no difference. -/
def fulfillRandomWords (randomWords : List Word) (s : State) :
    Exec Error (Progress Error State) := do
  let randomWord ← checkedIndex randomWords 0
  let winnerIndex ← checkedMod randomWord.val s.s_players.length
  let recentWinner ← checkedIndex s.s_players winnerIndex
  let s := { s with
    s_recentWinner := recentWinner
    s_raffleState := .OPEN
    s_players := []
    s_lastTimestamp := s.timestamp }
  return .handsOver { s with eth := Ether.move s.eth D.this recentWinner (s.eth D.this) }
    (.error (.custom .Raffle__TransferFailed))

/-! ## What the functions do -/

variable {D} {sender : Address} {value : ℕ} {s s' : State}

theorem onlyOpen_eq_ok {u : Unit} : onlyOpen s = .ok u ↔ s.s_raffleState = .OPEN := by
  rw [onlyOpen, revertIf_eq_ok, not_not]

/-- Exactly when an account can enter. -/
theorem enterRaffle_eq_ok :
    enterRaffle D sender value s = .ok s' ↔
      value ≤ s.eth sender ∧ s.s_raffleState = .OPEN ∧ D.i_entranceFee ≤ value ∧
      s' = { s with
        s_players := s.s_players ++ [sender]
        eth := Ether.move s.eth sender D.this value } := by
  simp only [enterRaffle, bind_eq_ok, Ether.pay_eq_ok, onlyOpen_eq_ok, revertIf_eq_ok, pure_eq_ok,
    not_lt, not_not]
  constructor
  · rintro ⟨-, ⟨hvalue, rfl⟩, -, hopen, -, hfee, -, -, rfl⟩
    exact ⟨hvalue, hopen, hfee, rfl⟩
  · rintro ⟨hvalue, hopen, hfee, rfl⟩
    exact ⟨_, ⟨hvalue, rfl⟩, (), hopen, (), hfee, (), hopen, rfl⟩

/-- Before the clock shows the last timestamp there is no answer. -/
theorem checkUpkeep_eq_ok {upkeepNeeded : Bool} :
    checkUpkeep D s = .ok upkeepNeeded ↔
      s.s_lastTimestamp ≤ s.timestamp ∧
      (upkeepNeeded = true ↔ D.i_interval < s.timestamp - s.s_lastTimestamp ∧
        s.s_raffleState = .OPEN ∧ 0 < s.eth D.this ∧ s.s_players ≠ []) := by
  simp only [checkUpkeep, bind_eq_ok, checkedSub_eq_ok, pure_eq_ok]
  constructor
  · rintro ⟨-, ⟨htime, rfl⟩, rfl⟩
    refine ⟨htime, ?_⟩
    simp [and_assoc, List.length_pos_iff]
  · rintro ⟨htime, hneeded⟩
    refine ⟨_, ⟨htime, rfl⟩, Bool.eq_iff_iff.mpr (hneeded.trans ?_)⟩
    simp [and_assoc, List.length_pos_iff]

/-- Exactly when a draw can be requested. -/
theorem performUpkeep_eq_ok {requestRandomWords : RandomWordsRequest → Option ℕ} :
    performUpkeep D requestRandomWords s = .ok s' ↔
      s.s_lastTimestamp ≤ s.timestamp ∧ D.i_interval < s.timestamp - s.s_lastTimestamp ∧
      s.s_raffleState = .OPEN ∧ 0 < s.eth D.this ∧ s.s_players ≠ [] ∧
      ∃ requestId, requestRandomWords (request D) = some requestId ∧
        s' = { s with s_raffleState := .CALCULATING, pending := s.pending ++ [requestId] } := by
  simp only [performUpkeep, bind_eq_ok, checkUpkeep_eq_ok, revertIf_eq_ok, ofCallee_eq_ok,
    pure_eq_ok, Bool.not_eq_false]
  constructor
  · rintro ⟨-, ⟨htime, hneeded⟩, -, rfl, requestId, hreply, rfl⟩
    obtain ⟨hlong, hopen, hbalance, hplayers⟩ := hneeded.mp rfl
    exact ⟨htime, hlong, hopen, hbalance, hplayers, requestId, hreply, rfl⟩
  · rintro ⟨htime, hlong, hopen, hbalance, hplayers, requestId, hreply, rfl⟩
    exact ⟨true, ⟨htime, iff_of_true rfl ⟨hlong, hopen, hbalance, hplayers⟩⟩, (), rfl, requestId,
      hreply, rfl⟩

/-- The winner is a player. -/
theorem fulfillRandomWords_eq_ok {randomWords : List Word} {p : Progress Error State} :
    fulfillRandomWords D randomWords s = .ok p ↔
      ∃ randomWord winner, randomWords[0]? = some randomWord ∧
        s.s_players[randomWord.val % s.s_players.length]? = some winner ∧
        p = .handsOver (s.drawn D winner) (.error (.custom .Raffle__TransferFailed)) := by
  simp only [fulfillRandomWords, bind_eq_ok, checkedIndex_eq_ok, checkedMod_eq_ok, pure_eq_ok]
  constructor
  · rintro ⟨randomWord, hword, -, ⟨-, rfl⟩, winner, hwinner, rfl⟩
    exact ⟨randomWord, winner, hword, hwinner, rfl⟩
  · rintro ⟨randomWord, winner, hword, hwinner, rfl⟩
    refine ⟨randomWord, hword, _, ⟨fun hzero => ?_, rfl⟩, winner, hwinner, rfl⟩
    rw [List.length_eq_zero_iff.mp hzero] at hwinner
    cases hwinner

/-- **No panic.** With a word and a player there is a winner. -/
theorem fulfillRandomWords_ok {randomWords : List Word} (hwords : randomWords ≠ [])
    (hplayers : s.s_players ≠ []) :
    ∃ winner ∈ s.s_players, fulfillRandomWords D randomWords s
      = .ok (.handsOver (s.drawn D winner) (.error (.custom .Raffle__TransferFailed))) := by
  obtain ⟨randomWord, rest, rfl⟩ := List.exists_cons_of_ne_nil hwords
  have hlt : randomWord.val % s.s_players.length < s.s_players.length :=
    Nat.mod_lt _ (List.length_pos_iff.mpr hplayers)
  exact ⟨_, List.getElem_mem hlt, fulfillRandomWords_eq_ok.mpr
    ⟨randomWord, _, rfl, List.getElem?_eq_getElem hlt, rfl⟩⟩

end Raffle

/-! ## The coordinator -/

namespace Coordinator

/-- The coordinator answers a request. If the callback reverts, the request counts as answered all
the same. -/
def answer (D : Deployment) (requestId : ℕ) (randomWords : List Word) (s : State) :
    Exec Error (Progress Error State) :=
  if requestId ∈ s.pending then
    .ok (.caught (s.answered requestId)
      (Raffle.fulfillRandomWords D randomWords (s.answered requestId)))
  else .error .callee

variable {D : Deployment} {requestId : ℕ} {randomWords : List Word} {s : State}
  {p : Progress Error State}

/-- Either there is a draw, or only the request is gone. -/
theorem answer_cases (h : answer D requestId randomWords s = .ok p) :
    requestId ∈ s.pending ∧
      ((∃ winner ∈ s.s_players, randomWords ≠ [] ∧
        p = .handsOver ((s.answered requestId).drawn D winner) (.ok (s.answered requestId))) ∨
      (randomWords = [] ∨ s.s_players = []) ∧ p = .returned (s.answered requestId)) := by
  rw [answer] at h
  split at h
  case isFalse => exact nomatch h
  case isTrue hpending =>
    obtain rfl := Except.ok.inj h
    refine ⟨hpending, ?_⟩
    cases hfulfill : Raffle.fulfillRandomWords D randomWords (s.answered requestId) with
    | ok p =>
      obtain ⟨word, winner, hword, hwinner, rfl⟩ := Raffle.fulfillRandomWords_eq_ok.mp hfulfill
      refine .inl ⟨winner, List.mem_of_getElem? hwinner, ?_, rfl⟩
      rintro rfl
      exact nomatch hword
    | error e =>
      refine .inr ⟨?_, rfl⟩
      by_contra hboth
      obtain ⟨hwords, hplayers⟩ := not_or.mp hboth
      obtain ⟨winner, -, hok⟩ := Raffle.fulfillRandomWords_ok (D := D) (s := s.answered requestId)
        hwords hplayers
      rw [hfulfill] at hok
      exact nomatch hok

/-- With a word and a player the answer is a draw. -/
theorem answer_ok (hpending : requestId ∈ s.pending) (hwords : randomWords ≠ [])
    (hplayers : s.s_players ≠ []) :
    ∃ winner ∈ s.s_players, answer D requestId randomWords s
      = .ok (.handsOver ((s.answered requestId).drawn D winner)
          (.ok (s.answered requestId))) := by
  obtain ⟨winner, hwinner, hok⟩ :=
    Raffle.fulfillRandomWords_ok (D := D) (s := s.answered requestId) hwords hplayers
  refine ⟨winner, hwinner, ?_⟩
  rw [answer, if_pos hpending, hok]
  rfl

end Coordinator

/-! ## Runs -/

/-- What happens to the raffle. -/
inductive Action where
  | enterRaffle (sender : Address) (value : ℕ)
  /-- Anyone may call this. -/
  | performUpkeep (requestRandomWords : RandomWordsRequest → Option ℕ)
  | answer (requestId : ℕ) (randomWords : List Word)
  /-- Time passes. -/
  | elapse (seconds : ℕ)
  /-- Other accounts deal with each other. Some ETH may be forced on the raffle. -/
  | elsewhere (eth : Address → ℕ)

/-- What an action does, up to the payment of a winner. -/
def Action.start (D : Deployment) (s : State) : Action → Exec Error (Progress Error State)
  | .enterRaffle sender value => do return .returned (← Raffle.enterRaffle D sender value s)
  | .performUpkeep requestRandomWords =>
    do return .returned (← Raffle.performUpkeep D requestRandomWords s)
  | .answer requestId randomWords => Coordinator.answer D requestId randomWords s
  | .elapse seconds => return .returned { s with timestamp := s.timestamp + seconds }
  | .elsewhere eth => return .returned { s with eth := eth }

/-- The raffle does not enter itself, and nobody else can spend its ETH. -/
def Action.FromOutside (D : Deployment) (s : State) : Action → Prop
  | .enterRaffle sender _ => sender ≠ D.this
  | .elsewhere eth => s.eth D.this ≤ eth D.this
  | _ => True

/-- What calls do, once and for all. -/
inductive Outcome (D : Deployment) (s : State) : Action → Progress Error State → Prop where
  | entered {sender : Address} {value : ℕ} (hvalue : value ≤ s.eth sender)
      (hopen : s.s_raffleState = .OPEN) (hfee : D.i_entranceFee ≤ value) :
      Outcome D s (.enterRaffle sender value) (.returned { s with
        s_players := s.s_players ++ [sender]
        eth := Ether.move s.eth sender D.this value })
  | requested {requestRandomWords : RandomWordsRequest → Option ℕ} {requestId : ℕ}
      (hlong : D.i_interval < s.timestamp - s.s_lastTimestamp) (hopen : s.s_raffleState = .OPEN)
      (hbalance : 0 < s.eth D.this) (hplayers : s.s_players ≠ [])
      (hreply : requestRandomWords (Raffle.request D) = some requestId) :
      Outcome D s (.performUpkeep requestRandomWords) (.returned { s with
        s_raffleState := .CALCULATING
        pending := s.pending ++ [requestId] })
  | drawn {requestId : ℕ} {randomWords : List Word} {winner : Address}
      (hpending : requestId ∈ s.pending) (hwinner : winner ∈ s.s_players)
      (hwords : randomWords ≠ []) :
      Outcome D s (.answer requestId randomWords)
        (.handsOver ((s.answered requestId).drawn D winner) (.ok (s.answered requestId)))
  | panicked {requestId : ℕ} {randomWords : List Word} (hpending : requestId ∈ s.pending)
      (hnone : randomWords = [] ∨ s.s_players = []) :
      Outcome D s (.answer requestId randomWords) (.returned (s.answered requestId))
  | elapsed {seconds : ℕ} :
      Outcome D s (.elapse seconds) (.returned { s with timestamp := s.timestamp + seconds })
  | elsewhere {eth : Address → ℕ} :
      Outcome D s (.elsewhere eth) (.returned { s with eth := eth })

/-- An action that does not revert did one of these. -/
theorem Action.outcome {D : Deployment} {s : State} {a : Action} {p : Progress Error State}
    (h : a.start D s = .ok p) : Outcome D s a p := by
  cases a with
  | enterRaffle sender value =>
    obtain ⟨s', hs', hp⟩ := bind_eq_ok.mp h
    obtain rfl := pure_eq_ok.mp hp
    obtain ⟨hvalue, hopen, hfee, rfl⟩ := Raffle.enterRaffle_eq_ok.mp hs'
    exact .entered hvalue hopen hfee
  | performUpkeep requestRandomWords =>
    obtain ⟨s', hs', hp⟩ := bind_eq_ok.mp h
    obtain rfl := pure_eq_ok.mp hp
    obtain ⟨-, hlong, hopen, hbalance, hplayers, requestId, hreply, rfl⟩ :=
      Raffle.performUpkeep_eq_ok.mp hs'
    exact .requested hlong hopen hbalance hplayers hreply
  | answer requestId randomWords =>
    obtain ⟨hpending, ⟨winner, hwinner, hwords, rfl⟩ | ⟨hnone, rfl⟩⟩ := Coordinator.answer_cases h
    · exact .drawn hpending hwinner hwords
    · exact .panicked hpending hnone
  | elapse seconds =>
    obtain rfl := pure_eq_ok.mp h
    exact .elapsed
  | elsewhere eth =>
    obtain rfl := pure_eq_ok.mp h
    exact .elsewhere

end Lottery

end UpdraftContracts

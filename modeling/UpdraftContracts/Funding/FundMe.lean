import Mathlib.Algebra.Group.Nat.Defs
import UpdraftContracts.Evm.Ether
import UpdraftContracts.Evm.Reentrancy

/-!
# `FundMe`

A contract that collects ETH for its owner. A contribution has to be worth five dollars, at the
price that a feed reports. The owner can withdraw everything, with one of two functions that do the
same: both forget all contributions one by one and send the balance.

The price feed is not part of the repository. It reports an answer or reverts, as it likes. ETH that
is sent without a call of `fund` is taken for a contribution as well.

## Main results

* `fund_eq_ok`, `withdraw_eq_ok`, `cheaperWithdraw_eq_ok` — exactly when the functions return, and
  what they do
* `Action.outcome` — all that a call can do
-/

namespace UpdraftContracts

open Evm

namespace Funding

/-- The errors of the contract. -/
inductive Error where
  | FundMe__NotOwner
  /-- `require(false, message)` -/
  | require (message : String)
  deriving DecidableEq

/-- What is fixed when the contract is deployed. -/
structure Deployment where
  /-- `address(this)` -/
  this : Address
  i_owner : Address

/-- The contract, and what it sees of its surroundings. -/
structure State where
  s_addressToAmountFunded : Address → ℕ
  s_funders : List Address
  /-- The answer of `s_priceFeed.latestRoundData()`, an `int256`, unless it reverts. -/
  latestAnswer : Option (BitVec 256)
  /-- The ETH of all accounts. -/
  eth : Address → ℕ

/-- The state that the constructor leaves. -/
def State.deployed (latestAnswer : Option (BitVec 256)) (eth : Address → ℕ) : State where
  s_addressToAmountFunded _ := 0
  s_funders := []
  latestAnswer := latestAnswer
  eth := eth

/-- The contributions of some accounts are forgotten. -/
def State.reset (accounts : List Address) (s : State) : State :=
  { s with s_addressToAmountFunded := fun a =>
      if a ∈ accounts then 0 else s.s_addressToAmountFunded a }

theorem State.reset_nil (s : State) : s.reset [] = s := by
  simp [reset]

/-- One after the other, in any order. -/
theorem State.reset_update (account : Address) (accounts : List Address) (s : State) :
    State.reset accounts { s with
      s_addressToAmountFunded := Function.update s.s_addressToAmountFunded account 0 }
      = s.reset (account :: accounts) := by
  have hfunded : ∀ a, (if a ∈ accounts then 0
      else Function.update s.s_addressToAmountFunded account 0 a)
      = if a ∈ account :: accounts then 0 else s.s_addressToAmountFunded a := by
    intro a
    by_cases ha : a = account
    · simp [ha]
    · simp [ha]
  simp only [reset, hfunded]

namespace PriceConverter

/-- `a * b` of type `int256`, panicking on overflow. -/
def checkedMulInt256 (a b : ℤ) : Exec Error ℤ :=
  if -2 ^ 255 ≤ a * b ∧ a * b < 2 ^ 255 then .ok (a * b) else .error (.panic .arithmetic)

/-- `uint256(a)`, which wraps around. -/
def toUint256 (a : ℤ) : ℕ := (BitVec.ofInt 256 a).toNat

/-- The answer has eight decimals, the price eighteen. A negative answer is not refused. -/
def getPrice (latestAnswer : Option (BitVec 256)) : Exec Error ℕ := do
  let answer ← ofCallee latestAnswer
  let price ← checkedMulInt256 answer.toInt 10000000000
  return toUint256 price

/-- What an amount of ETH is worth in dollars. -/
def getConversionRate (ethAmount : ℕ) (latestAnswer : Option (BitVec 256)) : Exec Error ℕ := do
  let ethPrice ← getPrice latestAnswer
  let product ← checkedMul ethPrice ethAmount
  let ethAmountInUsd := product / 1000000000000000000
  return ethAmountInUsd

end PriceConverter

namespace FundMe

/-- Five dollars. -/
def MINIMUM_USD : ℕ := 5 * 10 ^ 18

variable (D : Deployment)

/-- The ETH arrives before the code runs. -/
def fund (sender : Address) (value : ℕ) (s : State) : Exec Error State := do
  let eth ← Ether.pay s.eth sender D.this value
  let s := { s with eth := eth }
  let rate ← PriceConverter.getConversionRate value s.latestAnswer
  revertIf (rate < MINIMUM_USD) (.require "You need to spend more ETH!")
  let amount ← checkedAdd (s.s_addressToAmountFunded sender) value
  let s := { s with
    s_addressToAmountFunded := Function.update s.s_addressToAmountFunded sender amount }
  return { s with s_funders := s.s_funders ++ [sender] }

/-- Called with data that is no function of the contract. -/
def fallback (sender : Address) (value : ℕ) (s : State) : Exec Error State := fund D sender value s

/-- Called without data. -/
def receive (sender : Address) (value : ℕ) (s : State) : Exec Error State := fund D sender value s

/-- The owner is fixed, so that the modifier reads no state. -/
def onlyOwner (sender : Address) : Exec Error Unit :=
  revertIf (sender ≠ D.i_owner) .FundMe__NotOwner

/-- The loop of both withdrawals. They differ in whether they read the length of the list again
before each round. `fuel` bounds the number of rounds. -/
def resetLoop (length : State → ℕ) : ℕ → ℕ → State → Exec Error State
  | 0, _, s => .ok s
  | fuel + 1, funderIndex, s =>
    if funderIndex < length s then do
      let funder ← checkedIndex s.s_funders funderIndex
      let s := { s with
        s_addressToAmountFunded := Function.update s.s_addressToAmountFunded funder 0 }
      resetLoop length fuel (funderIndex + 1) s
    else .ok s

/-- `payable(sender).call{value: address(this).balance}("")` -/
def sendBalance (sender : Address) (s : State) : Progress Error State :=
  .handsOver { s with eth := Ether.move s.eth D.this sender (s.eth D.this) }
    (.error (.custom (.require "Call failed")))

/-- The length of the list is read once. -/
def cheaperWithdraw (sender : Address) (s : State) : Exec Error (Progress Error State) := do
  onlyOwner D sender
  let fundersLength := s.s_funders.length
  let s ← resetLoop (fun _ => fundersLength) fundersLength 0 s
  let s := { s with s_funders := [] }
  return sendBalance D sender s

/-- The length of the list is read in every round. -/
def withdraw (sender : Address) (s : State) : Exec Error (Progress Error State) := do
  onlyOwner D sender
  let s ← resetLoop (fun s => s.s_funders.length) s.s_funders.length 0 s
  let s := { s with s_funders := [] }
  return sendBalance D sender s

/-! ## What the functions do -/

variable {D} {sender : Address} {value : ℕ} {s s' : State}

/-- What a contribution needs, and all that it does. -/
theorem fund_eq_ok :
    fund D sender value s = .ok s' ↔
      value ≤ s.eth sender ∧
      (∃ rate, PriceConverter.getConversionRate value s.latestAnswer = .ok rate ∧
        MINIMUM_USD ≤ rate) ∧
      s.s_addressToAmountFunded sender + value < uint256Size ∧
      s' = { s with
        s_addressToAmountFunded := Function.update s.s_addressToAmountFunded sender
          (s.s_addressToAmountFunded sender + value)
        s_funders := s.s_funders ++ [sender]
        eth := Ether.move s.eth sender D.this value } := by
  simp only [fund, bind_eq_ok, Ether.pay_eq_ok, revertIf_eq_ok, checkedAdd_eq_ok, pure_eq_ok,
    not_lt]
  constructor
  · rintro ⟨-, ⟨hvalue, rfl⟩, rate, hrate, -, hmin, -, ⟨hfits, rfl⟩, rfl⟩
    exact ⟨hvalue, ⟨rate, hrate, hmin⟩, hfits, rfl⟩
  · rintro ⟨hvalue, ⟨rate, hrate, hmin⟩, hfits, rfl⟩
    exact ⟨_, ⟨hvalue, rfl⟩, rate, hrate, (), hmin, _, ⟨hfits, rfl⟩, rfl⟩

/-- Nothing is worth nothing, at any price. -/
theorem pos_of_rate {rate : ℕ}
    (h : PriceConverter.getConversionRate value s.latestAnswer = .ok rate)
    (hmin : MINIMUM_USD ≤ rate) : 0 < value := by
  simp only [PriceConverter.getConversionRate, bind_eq_ok, checkedMul_eq_ok, pure_eq_ok] at h
  obtain ⟨price, -, -, ⟨-, rfl⟩, rfl⟩ := h
  by_contra hzero
  obtain rfl : value = 0 := by omega
  rw [Nat.mul_zero, Nat.zero_div] at hmin
  exact absurd hmin (by decide)

/-- The loop reaches every entry of the list, whether or not it reads the length again. -/
theorem resetLoop_eq {length : State → ℕ} {fuel i : ℕ}
    (hlength : ∀ s', s'.s_funders = s.s_funders → length s' = s.s_funders.length)
    (hfuel : s.s_funders.length ≤ fuel + i) :
    resetLoop length fuel i s = .ok (s.reset (s.s_funders.drop i)) := by
  induction fuel generalizing i s with
  | zero =>
    rw [resetLoop, List.drop_of_length_le (by omega), State.reset_nil]
  | succ fuel ih =>
    rw [resetLoop, hlength s rfl]
    split
    case isTrue hlt =>
      have hfunder : (checkedIndex s.s_funders i : Exec Error Address) = .ok s.s_funders[i] :=
        checkedIndex_eq_ok.mpr (List.getElem?_eq_getElem hlt)
      rw [hfunder, List.drop_eq_getElem_cons hlt, ← State.reset_update]
      exact ih hlength (by dsimp only; omega)
    case isFalse hge =>
      rw [List.drop_of_length_le (by omega), State.reset_nil]

/-- The state in which a withdrawal hands over control. -/
def withdrawn (D : Deployment) (s : State) : State where
  s_addressToAmountFunded a := if a ∈ s.s_funders then 0 else s.s_addressToAmountFunded a
  s_funders := []
  latestAnswer := s.latestAnswer
  eth := Ether.move s.eth D.this D.i_owner (s.eth D.this)

/-- What is left to do once the loop is. -/
theorem withdrawal_eq_ok {loop : Exec Error State} (hloop : loop = .ok (s.reset s.s_funders))
    {p : Progress Error State} :
    (do
      onlyOwner D sender
      let s ← loop
      return sendBalance D sender { s with s_funders := [] }) = .ok p ↔
      sender = D.i_owner ∧
      p = .handsOver (withdrawn D s) (.error (.custom (.require "Call failed"))) := by
  simp only [onlyOwner, bind_eq_ok, revertIf_eq_ok, not_not, pure_eq_ok, hloop]
  constructor
  · rintro ⟨-, rfl, s', hs', rfl⟩
    obtain rfl := Except.ok.inj hs'
    exact ⟨rfl, rfl⟩
  · rintro ⟨rfl, rfl⟩
    exact ⟨(), rfl, _, rfl, rfl⟩

theorem withdraw_loop (s : State) :
    resetLoop (fun s => s.s_funders.length) s.s_funders.length 0 s = .ok (s.reset s.s_funders) :=
  resetLoop_eq (fun s' hs' => by rw [hs']) (Nat.le_refl _)

theorem cheaperWithdraw_loop (s : State) :
    resetLoop (fun _ => s.s_funders.length) s.s_funders.length 0 s = .ok (s.reset s.s_funders) :=
  resetLoop_eq (fun _ _ => rfl) (Nat.le_refl _)

/-- The owner's withdrawal gets as far as the payment, that of anybody else reverts. -/
theorem withdraw_eq_ok {p : Progress Error State} :
    withdraw D sender s = .ok p ↔
      sender = D.i_owner ∧
      p = .handsOver (withdrawn D s) (.error (.custom (.require "Call failed"))) :=
  withdrawal_eq_ok (withdraw_loop s)

theorem cheaperWithdraw_eq_ok {p : Progress Error State} :
    cheaperWithdraw D sender s = .ok p ↔
      sender = D.i_owner ∧
      p = .handsOver (withdrawn D s) (.error (.custom (.require "Call failed"))) :=
  withdrawal_eq_ok (cheaperWithdraw_loop s)

end FundMe

/-! ## Runs -/

/-- What can happen next. -/
inductive Action where
  | fund (sender : Address) (value : ℕ)
  | receive (sender : Address) (value : ℕ)
  | fallback (sender : Address) (value : ℕ)
  | withdraw (sender : Address)
  | cheaperWithdraw (sender : Address)
  /-- The feed reports another answer, or begins to revert. -/
  | report (latestAnswer : Option (BitVec 256))
  /-- Other accounts deal with each other. Some ETH may be forced on the contract. -/
  | elsewhere (eth : Address → ℕ)

/-- Begin an action. -/
def Action.start (D : Deployment) (s : State) : Action → Exec Error (Progress Error State)
  | .fund sender value => do return .returned (← FundMe.fund D sender value s)
  | .receive sender value => do return .returned (← FundMe.receive D sender value s)
  | .fallback sender value => do return .returned (← FundMe.fallback D sender value s)
  | .withdraw sender => FundMe.withdraw D sender s
  | .cheaperWithdraw sender => FundMe.cheaperWithdraw D sender s
  | .report latestAnswer => return .returned { s with latestAnswer := latestAnswer }
  | .elsewhere eth => return .returned { s with eth := eth }

/-- The contract does not call itself, and nobody else can spend its ETH. -/
def Action.FromOutside (D : Deployment) (s : State) : Action → Prop
  | .fund sender _ | .receive sender _ | .fallback sender _ => sender ≠ D.this
  | .withdraw sender | .cheaperWithdraw sender => sender ≠ D.this
  | .report _ => True
  | .elsewhere eth => s.eth D.this ≤ eth D.this

/-- What a call is to the books: a contribution, a withdrawal, or none of their business. -/
inductive Outcome (D : Deployment) (s : State) : Action → Progress Error State → Prop where
  | funded {a : Action} {sender : Address} {value : ℕ}
      (ha : a = .fund sender value ∨ a = .receive sender value ∨ a = .fallback sender value)
      (hvalue : value ≤ s.eth sender) (hpos : 0 < value) :
      Outcome D s a (.returned { s with
        s_addressToAmountFunded := Function.update s.s_addressToAmountFunded sender
          (s.s_addressToAmountFunded sender + value)
        s_funders := s.s_funders ++ [sender]
        eth := Ether.move s.eth sender D.this value })
  | withdrawn {a : Action} (ha : a = .withdraw D.i_owner ∨ a = .cheaperWithdraw D.i_owner) :
      Outcome D s a
        (.handsOver (FundMe.withdrawn D s) (.error (.custom (.require "Call failed"))))
  | reported {latestAnswer : Option (BitVec 256)} :
      Outcome D s (.report latestAnswer) (.returned { s with latestAnswer := latestAnswer })
  | elsewhere {eth : Address → ℕ} :
      Outcome D s (.elsewhere eth) (.returned { s with eth := eth })

theorem Outcome.of_fund {D : Deployment} {s : State} {a : Action} {p : Progress Error State}
    {sender : Address} {value : ℕ}
    (ha : a = .fund sender value ∨ a = .receive sender value ∨ a = .fallback sender value)
    (h : (do return .returned (← FundMe.fund D sender value s)) = Except.ok p) :
    Outcome D s a p := by
  obtain ⟨s', hs', hp⟩ := bind_eq_ok.mp h
  obtain rfl := pure_eq_ok.mp hp
  obtain ⟨hvalue, ⟨rate, hrate, hmin⟩, -, rfl⟩ := FundMe.fund_eq_ok.mp hs'
  exact .funded ha hvalue (FundMe.pos_of_rate hrate hmin)

/-- Every action that begins is of one of these kinds. -/
theorem Action.outcome {D : Deployment} {s : State} {a : Action} {p : Progress Error State}
    (h : a.start D s = .ok p) : Outcome D s a p := by
  cases a with
  | fund sender value => exact .of_fund (.inl rfl) h
  | receive sender value => exact .of_fund (.inr (.inl rfl)) h
  | fallback sender value => exact .of_fund (.inr (.inr rfl)) h
  | withdraw sender =>
    obtain ⟨rfl, rfl⟩ := FundMe.withdraw_eq_ok.mp h
    exact .withdrawn (.inl rfl)
  | cheaperWithdraw sender =>
    obtain ⟨rfl, rfl⟩ := FundMe.cheaperWithdraw_eq_ok.mp h
    exact .withdrawn (.inr rfl)
  | report latestAnswer =>
    obtain rfl := pure_eq_ok.mp h
    exact .reported
  | elsewhere eth =>
    obtain rfl := pure_eq_ok.mp h
    exact .elsewhere

end Funding

end UpdraftContracts

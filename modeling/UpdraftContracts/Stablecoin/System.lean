import UpdraftContracts.Evm.Run
import UpdraftContracts.Stablecoin.Effects

/-!
# Runs of the stablecoin system

Any account may call any public function of the engine, of the coin and of the collateral tokens;
time passes; feeds report. A run is a list of such actions from a freshly deployed system.

The only account that does not act on its own is the engine: its outgoing calls are the ones its
functions make. `Action.FromOutside` says so.

## Main results

* `EngineCall.moves` — every engine call that returns is a sequence of four kinds of moves
-/

namespace UpdraftContracts

open Evm

namespace Stablecoin

/-! ## Calls -/

/-- The state-changing public functions of `DSCEngine`. -/
inductive EngineCall where
  | depositCollateralAndMintDSC (tokenCollateralAddress : Address)
      (amountCollateral amountDSCToMint : ℕ)
  | depositCollateral (tokenCollateralAddress : Address) (amountCollateral : ℕ)
  | redeemCollateralForDSC (tokenCollateralAddress : Address)
      (amountCollateral amountDSCToBurn : ℕ)
  | redeemCollateral (tokenCollateralAddress : Address) (amountCollateral : ℕ)
  | mintDSC (amountDSCToMint : ℕ)
  | burnDSC (amountDSCToBurn : ℕ)
  | liquidate (collateral user : Address) (debtToCover : ℕ)

/-- The functions of `DecentralizedStableCoin` beyond those of `IERC20`. -/
inductive CoinCall where
  | mint (dst : Address) (amount : ℕ)
  | burn (amount : ℕ)
  | burnFrom (account : Address) (value : ℕ)
  | transferOwnership (newOwner : Address)
  | renounceOwnership

/-- The functions of `IERC20`. -/
inductive TokenCall where
  | transfer (dst : Address) (value : ℕ)
  | approve (spender : Address) (value : ℕ)
  | transferFrom (src dst : Address) (value : ℕ)

/-- A call of any public function. Calls through `IERC20` name the token, the coin included. -/
inductive Call where
  | engine (c : EngineCall)
  | coin (c : CoinCall)
  | token (t : Address) (c : TokenCall)

variable (D : Deployment)

/-- Run a call of the engine. -/
def EngineCall.exec (sender : Address) : EngineCall → World → Exec Error World
  | .depositCollateralAndMintDSC t a m => DSCEngine.depositCollateralAndMintDSC D sender t a m
  | .depositCollateral t a => DSCEngine.depositCollateral D sender t a
  | .redeemCollateralForDSC t a b => DSCEngine.redeemCollateralForDSC D sender t a b
  | .redeemCollateral t a => DSCEngine.redeemCollateral D sender t a
  | .mintDSC m => DSCEngine.mintDSC D sender m
  | .burnDSC b => DSCEngine.burnDSC D sender b
  | .liquidate t u d => DSCEngine.liquidate D sender t u d

/-- Run a call of the coin. -/
def CoinCall.exec (sender : Address) : CoinCall → World → Exec Error World
  | .mint dst a => fun w => do return (← DecentralizedStableCoin.mint D sender dst a w).2
  | .burn a => DecentralizedStableCoin.burn D sender a
  | .burnFrom account v => DecentralizedStableCoin.burnFrom D sender account v
  | .transferOwnership o => DecentralizedStableCoin.transferOwnership sender o
  | .renounceOwnership => DecentralizedStableCoin.renounceOwnership sender

/-- Run a call of a token. -/
def TokenCall.exec (sender t : Address) : TokenCall → World → Exec Error World
  | .transfer dst v => fun w => do return (← ierc20Transfer D t sender dst v w).2
  | .approve spender v => fun w => do return (← ierc20Approve D t sender spender v w).2
  | .transferFrom src dst v => fun w => do return (← ierc20TransferFrom D t sender src dst v w).2

/-- Run a call. -/
def Call.exec (sender : Address) : Call → World → Exec Error World
  | .engine c => c.exec D sender
  | .coin c => c.exec D sender
  | .token t c => c.exec D sender t

/-! ## Actions -/

/-- What can happen next. -/
inductive Action where
  /-- `sender` calls a contract. -/
  | call (sender : Address) (c : Call)
  /-- Time passes. -/
  | elapse (seconds : ℕ)
  /-- The aggregator at `feed` reports a new round. -/
  | report (feed : Address) (round : RoundData)

/-- The state after an action. A call that reverts changes nothing. -/
def step (w : World) : Action → World
  | .call sender c => settle w (c.exec D sender w)
  | .elapse seconds => { w with timestamp := w.timestamp + seconds }
  | .report feed round => { w with latestRound := Function.update w.latestRound feed (some round) }

/-- Calls come from accounts other than the engine and the zero address. -/
def Action.FromOutside : Action → Prop
  | .call sender _ => sender ≠ D.engine ∧ sender ≠ 0
  | .elapse _ => True
  | .report _ _ => True

/-- The state the deployment script prepares for the constructor of the engine: a coin without
holders that the engine will own, an engine nobody has dealt with. Collateral tokens may be held
by anyone already. -/
structure Genesis (w : World) : Prop where
  coin : w.ledgers D.i_DSC = Ledger.empty
  owner : w.owner = D.engine
  no_allowance : ∀ t, (D.erc20 t).Exact → ∀ s, (w.ledgers t).allowance D.engine s = 0
  no_feeds : w.s_priceFeeds = fun _ => 0
  no_deposits : w.s_collateralDeposited = fun _ _ => 0
  no_debts : w.s_DSCMinted = fun _ => 0
  no_tokens : w.s_collateralTokens = []
  unlocked : w.entered = false

/-- The system right after the engine was constructed with the two lists. -/
def Deployed (tokenAddresses priceFeedAddress : List Address) (w : World) : Prop :=
  ∃ w₀, Genesis D w₀ ∧ DSCEngine.constructor tokenAddresses priceFeedAddress w₀ = .ok w

/-- The states of all runs from a deployment. -/
def Reachable (w : World) : Prop :=
  ∃ tokens feeds w₀ as, Deployed D tokens feeds w₀ ∧
    Along (step D) (fun _ a => a.FromOutside D) w₀ as ∧ w = run (step D) w₀ as

/-! ## A system to run

One collateral token at address `3` with its feed at `4`; account `10` holds some of it and lets
the engine pull it. -/

/-- The engine at address `1`, the coin at `2`, and reference tokens everywhere else. -/
def sampleDeployment : Deployment where
  engine := 1
  i_DSC := 2
  dsc := openZeppelin
  token _ := referenceErc20
  engine_ne_zero := by decide

theorem sampleDeployment_standard (t : Address) : (sampleDeployment.erc20 t).Standard :=
  Deployment.erc20_standard (fun _ => referenceErc20_standard) t

/-- A round at time `100` with the given answer. -/
def sampleRound (answer : ℕ) : RoundData where
  roundId := 1
  answer := BitVec.ofNat 256 answer
  startedAt := 100
  updatedAt := 100
  answeredInRound := 1

/-- One hundred units held by account `10`, all of them approved to the engine. -/
def sampleLedger : Ledger Address := (Ledger.empty.mint 10 100).approve 10 1 100

theorem sampleLedger_allowance (s : Address) : sampleLedger.allowance 1 s = 0 := by
  rw [sampleLedger, Ledger.allowance_approve, if_neg fun h => absurd h.1 (by decide),
    Ledger.allowance_mint]
  rfl

theorem sampleLedgers_allowance {p : Prop} [Decidable p] (s : Address) :
    (if p then sampleLedger else Ledger.empty).allowance 1 s = 0 := by
  split
  · exact sampleLedger_allowance s
  · rfl

/-- Everything but the engine's storage is in place. -/
def sampleGenesis (ledgers : Address → Ledger Address) (rounds : Address → Option RoundData) :
    World where
  timestamp := 100
  latestRound := rounds
  ledgers := Function.update ledgers 2 Ledger.empty
  owner := 1
  s_priceFeeds _ := 0
  s_collateralDeposited _ _ := 0
  s_DSCMinted _ := 0
  s_collateralTokens := []
  entered := false

theorem sampleGenesis_genesis {ledgers : Address → Ledger Address}
    {rounds : Address → Option RoundData} (h : ∀ t s, (ledgers t).allowance 1 s = 0) :
    Genesis sampleDeployment (sampleGenesis ledgers rounds) where
  coin := by simp [sampleGenesis, sampleDeployment]
  owner := rfl
  no_allowance t _ s := by
    rcases eq_or_ne t 2 with rfl | ht
    · simp [sampleGenesis, Ledger.empty]
    · simpa [sampleGenesis, sampleDeployment, Function.update_of_ne ht] using h t s
  no_feeds := rfl
  no_deposits := rfl
  no_debts := rfl
  no_tokens := rfl
  unlocked := rfl

/-- The system with one collateral token worth two dollars. -/
def sampleWorld : World :=
  DSCEngine.registerTokens [(3, 4)]
    (sampleGenesis (fun t => if t = 3 then sampleLedger else Ledger.empty)
      (fun f => if f = 4 then some (sampleRound (2 * 10 ^ 8)) else none))

theorem sampleWorld_deployed : Deployed sampleDeployment [3] [4] sampleWorld :=
  ⟨_, sampleGenesis_genesis fun _ s => sampleLedgers_allowance s, rfl⟩

/-! ## Moves

Every engine call that returns is a sequence of moves. A move changes one entry of one of the
engine's two ledgers together with one token ledger. -/

/-- One elementary effect of an engine call. -/
inductive Move (w : World) : World → Prop where
  /-- A deposit: the engine pulls collateral from `u`. -/
  | pull {u t : Address} {a : ℕ} {L : Ledger Address} (hu : u ≠ D.engine)
      (ht : w.s_priceFeeds t ≠ 0)
      (hL : (D.erc20 t).transferFrom (w.ledgers t) D.engine u D.engine a = some (true, L)) :
      Move w ((w.setDeposited u t (w.s_collateralDeposited u t + a)).setLedger t L)
  /-- A redemption: the engine pushes collateral of `src` to `dst`. -/
  | push {src dst t : Address} {a : ℕ} {L : Ledger Address} (hdst : dst ≠ D.engine)
      (ha : a ≤ w.s_collateralDeposited src t)
      (hL : (D.erc20 t).transfer (w.ledgers t) D.engine dst a = some (true, L)) :
      Move w ((w.setDeposited src t (w.s_collateralDeposited src t - a)).setLedger t L)
  /-- New coins, and new debt, for `u`. -/
  | issue {u : Address} {m : ℕ} (hu : u ≠ D.engine)
      (hm : (w.ledgers D.i_DSC).totalSupply + m < uint256Size) :
      Move w ((w.setMinted u (w.s_DSCMinted u + m)).setLedger D.i_DSC
        ((w.ledgers D.i_DSC).mint u m))
  /-- Coins of `src` pay back debt of `u`. -/
  | retire {u src : Address} {b : ℕ} (hsrc : src ≠ D.engine) (hb : b ≤ w.s_DSCMinted u)
      (hbal : b ≤ (w.ledgers D.i_DSC).balance src) :
      Move w ((w.setMinted u (w.s_DSCMinted u - b)).setLedger D.i_DSC
        (((w.ledgers D.i_DSC).spend src D.engine b).burn src b))

variable {D} {w w' : World} {sender : Address}

open Relation

namespace DSCEngine

theorem depositCollateral_move {t : Address} {a : ℕ} (hs : sender ≠ D.engine)
    (h : depositCollateral D sender t a w = .ok w') : Move D w w' := by
  obtain ⟨-, ht, -, -, L, hL, rfl⟩ := depositCollateral_eq_ok.mp h
  exact Move.pull hs ht hL

theorem mintDSC_move {m : ℕ} (hs : sender ≠ D.engine) (h : mintDSC D sender m w = .ok w') :
    Move D w w' := by
  obtain ⟨-, -, -, -, -, -, hm, rfl⟩ := mintDSC_eq_ok.mp h
  exact Move.issue hs hm

theorem redeemCollateral_move {t : Address} {a : ℕ} (hs : sender ≠ D.engine)
    (h : redeemCollateral D sender t a w = .ok w') : Move D w w' := by
  obtain ⟨-, -, -, ha, -, L, hL, rfl⟩ := redeemCollateral_eq_ok.mp h
  exact Move.push hs ha hL

theorem burnDSC_move {b : ℕ} (hs : sender ≠ D.engine) (h : burnDSC D sender b w = .ok w') :
    Move D w w' := by
  obtain ⟨-, -, hb, -, -, -, hbal, -, rfl⟩ := burnDSC_eq_ok.mp h
  exact Move.retire hs hb hbal

end DSCEngine

open DSCEngine in
/-- **What an engine call does.** -/
theorem EngineCall.moves {c : EngineCall} (hs : sender ≠ D.engine)
    (h : c.exec D sender w = .ok w') : ReflTransGen (Move D) w w' := by
  cases c with
  | depositCollateralAndMintDSC t a m =>
    obtain ⟨w₁, hdep, hmint⟩ := depositCollateralAndMintDSC_eq_ok.mp h
    exact (ReflTransGen.single (depositCollateral_move hs hdep)).tail (mintDSC_move hs hmint)
  | depositCollateral t a => exact ReflTransGen.single (depositCollateral_move hs h)
  | redeemCollateralForDSC t a b =>
    obtain ⟨-, -, w₁, hburn, hredeem⟩ := redeemCollateralForDSC_eq_ok.mp h
    exact (ReflTransGen.single (burnDSC_move hs hburn)).tail (redeemCollateral_move hs hredeem)
  | redeemCollateral t a => exact ReflTransGen.single (redeemCollateral_move hs h)
  | mintDSC m => exact ReflTransGen.single (mintDSC_move hs h)
  | burnDSC b => exact ReflTransGen.single (burnDSC_move hs h)
  | liquidate t u d =>
    obtain ⟨-, -, -, -, -, T, -, -, -, w₁, hredeem, hburn, -, -⟩ := liquidate_eq_ok.mp h
    obtain ⟨ha, L, hL, rfl⟩ := redeemCollateral_internal_eq_ok.mp hredeem
    obtain ⟨hb, -, -, -, hbal, rfl⟩ := burnDSC_internal_eq_ok.mp hburn
    exact (ReflTransGen.single (Move.push hs ha hL)).tail (Move.retire hs hb hbal)

end Stablecoin

end UpdraftContracts

import UpdraftContracts.Stablecoin.Configuration

/-!
# `DeployDSC`

The script that deploys the coin and the engine. It takes the collateral tokens and their feeds from
`HelperConfig`, which has those of one network in its text and creates mocks on any other. The coin
is created first and belongs to whoever runs the script. It is handed over at the end, when the
engine exists.

Results about the engine are about deployments in which the engine owns a coin without holders.
Most of them also need tokens that are different from each other and feeds that exist. Here it is
shown that the script leaves exactly that. The addresses of the contracts that are created are
parameters, as is the account that a private key belongs to.

## Main results

* `script_deploys` — the script goes through, and what it leaves is a deployment of the right kind
-/

namespace UpdraftContracts

open Evm

namespace Stablecoin

/-! ## The script -/

/-- `HelperConfig.NetworkConfig`, with the account that belongs to `deployerKey`. -/
structure NetworkConfig where
  wethUsdPriceFeed : Address
  wbtcUsdPriceFeed : Address
  weth : Address
  wbtc : Address
  deployer : Address

namespace NetworkConfig

variable (config : NetworkConfig)

/-- The tokens that the engine is constructed with. -/
def tokenAddresses : List Address := [config.weth, config.wbtc]

/-- The feeds that the engine is constructed with. -/
def priceFeedAddresses : List Address := [config.wethUsdPriceFeed, config.wbtcUsdPriceFeed]

/-- The tokens are different, and the feeds exist. -/
structure Proper : Prop where
  tokens : config.weth ≠ config.wbtc
  wethFeed : config.wethUsdPriceFeed ≠ 0
  wbtcFeed : config.wbtcUsdPriceFeed ≠ 0

end NetworkConfig

/-- What `latestRoundData` of a new `MockV3Aggregator` returns. -/
def MockV3Aggregator.constructor (_initialAnswer timestamp : ℕ) : RoundData where
  roundId := 1
  answer := BitVec.ofNat 256 _initialAnswer
  startedAt := timestamp
  updatedAt := timestamp
  answeredInRound := 1

namespace HelperConfig

/-- The answer of the first mock feed. -/
def ETH_USD_PRICE : ℕ := 2000 * 10 ^ 8

/-- The answer of the second mock feed. -/
def BTC_USD_PRICE : ℕ := 1000 * 10 ^ 8

/-- The addresses on the test network. -/
def getSepoliaEthConfig (deployer : Address) : NetworkConfig where
  wethUsdPriceFeed := 0x694AA1769357215DE4FAC081bf1f309aDC325306
  wbtcUsdPriceFeed := 0x1b44F3514812d835EB1BDB0acB33d3fA3351Ee43
  weth := 0xdd13E55209Fd76AfE204dBda4007C227904f0a81
  wbtc := 0x8f3Cf7ad23Cd3CaDbD9735AFf958023239c6A063
  deployer := deployer

/-- A new `MockV3Aggregator` at an address. -/
def newFeed (feed : Address) (answer : ℕ) (w : World) : World :=
  { w with
    latestRound := Function.update w.latestRound feed
      (some (MockV3Aggregator.constructor answer w.timestamp)) }

/-- `created` has the addresses of the four mocks. -/
def getOrCreateAnvilEthConfig (active created : NetworkConfig) (w : World) :
    NetworkConfig × World :=
  if active.wethUsdPriceFeed ≠ 0 then (active, w)
  else
    let w := newFeed created.wethUsdPriceFeed ETH_USD_PRICE w
    let w := w.setLedger created.weth Ledger.empty
    let w := newFeed created.wbtcUsdPriceFeed BTC_USD_PRICE w
    let w := w.setLedger created.wbtc Ledger.empty
    (created, w)

/-- Every chain but the test network gets mocks. -/
def constructor (chainid : ℕ) (deployer : Address) (created : NetworkConfig) (w : World) :
    NetworkConfig × World :=
  if chainid = 11155111 then (getSepoliaEthConfig deployer, w)
  else getOrCreateAnvilEthConfig ⟨0, 0, 0, 0, 0⟩ created w

end HelperConfig

/-- The coin is created by `sender`. -/
def DecentralizedStableCoin.constructor (D : Deployment) (sender : Address) (w : World) :
    Exec Error World := do
  revertIf (sender = 0) (.OwnableInvalidOwner 0)
  return { w.setLedger D.i_DSC Ledger.empty with owner := sender }

/-- The storage of a contract before its constructor runs. -/
def World.newEngine (w : World) : World :=
  { w with
    s_priceFeeds := fun _ => 0
    s_collateralDeposited := fun _ _ => 0
    s_DSCMinted := fun _ => 0
    s_collateralTokens := []
    entered := false }

namespace DeployDSC

variable (D : Deployment)

/-- The part of `run` that is broadcast. -/
def broadcast (config : NetworkConfig) (w : World) : Exec Error World := do
  let w ← DecentralizedStableCoin.constructor D config.deployer w
  let w ← DSCEngine.constructor config.tokenAddresses config.priceFeedAddresses w.newEngine
  DecentralizedStableCoin.transferOwnership config.deployer D.engine w

/-- The whole script. -/
def run (chainid : ℕ) (deployer : Address) (created : NetworkConfig) (w : World) :
    Exec Error World :=
  let (config, w) := HelperConfig.constructor chainid deployer created w
  broadcast D config w

end DeployDSC

/-! ## What it leaves -/

variable {D : Deployment} {w : World} {config created : NetworkConfig} {chainid : ℕ}
  {deployer : Address}

/-- Nothing was ever done in the name of the engine. -/
def Unborn (D : Deployment) (w : World) : Prop :=
  ∀ t s, (w.ledgers t).allowance D.engine s = 0

theorem Unborn.setLedger_empty {t : Address} (h : Unborn D w) :
    Unborn D (w.setLedger t Ledger.empty) := by
  intro t' s
  rw [World.ledgers_setLedger]
  split
  · rfl
  · exact h t' s

theorem HelperConfig.constructor_unborn (h : Unborn D w) :
    Unborn D (HelperConfig.constructor chainid deployer created w).2 := by
  rw [HelperConfig.constructor]
  split
  · exact h
  · rw [HelperConfig.getOrCreateAnvilEthConfig, if_neg (not_not.mpr rfl)]
    have hfeeds : ∀ {w : World} feed answer, Unborn D w →
        Unborn D (HelperConfig.newFeed feed answer w) := fun _ _ hw => hw
    exact (hfeeds _ _ (hfeeds _ _ h).setLedger_empty).setLedger_empty

theorem HelperConfig.getSepoliaEthConfig_proper : (getSepoliaEthConfig deployer).Proper := by
  refine ⟨?_, ?_, ?_⟩ <;>
    simp only [getSepoliaEthConfig] <;> decide

/-- Both kinds of configuration have different tokens and feeds that exist. -/
theorem HelperConfig.constructor_proper (h : created.Proper) :
    (HelperConfig.constructor chainid deployer created w).1.Proper := by
  rw [HelperConfig.constructor]
  split
  · exact getSepoliaEthConfig_proper
  · exact h

theorem HelperConfig.constructor_deployer (hcreated : created.deployer ≠ 0)
    (hdeployer : deployer ≠ 0) :
    (HelperConfig.constructor chainid deployer created w).1.deployer ≠ 0 := by
  rw [HelperConfig.constructor]
  split
  · exact hdeployer
  · exact hcreated

/-- The constructor of the engine does not look at the owner of the coin. -/
theorem registerTokens_owner (ps : List (Address × Address)) (w : World) (owner : Address) :
    { DSCEngine.registerTokens ps w with owner := owner }
      = DSCEngine.registerTokens ps { w with owner := owner } := by
  induction ps generalizing w with
  | nil => rfl
  | cons p ps ih => exact ih _

/-- The state from which the engine is constructed, but for the owner of the coin. -/
def World.newCoinAndEngine (D : Deployment) (w : World) : World :=
  { (w.setLedger D.i_DSC Ledger.empty).newEngine with owner := D.engine }

theorem Unborn.genesis (h : Unborn D w) : Genesis D (w.newCoinAndEngine D) where
  coin := World.ledgers_setLedger_self
  owner := rfl
  no_allowance t _ s := h.setLedger_empty t s
  no_feeds := rfl
  no_deposits := rfl
  no_debts := rfl
  no_tokens := rfl
  unlocked := rfl

/-- The coin is handed over after the engine was constructed. It could have been before. -/
theorem broadcast_deployed (h : Unborn D w) (hdeployer : config.deployer ≠ 0) :
    ∃ w', DeployDSC.broadcast D config w = .ok w' ∧
      Deployed D config.tokenAddresses config.priceFeedAddresses w' := by
  have hcoin : DecentralizedStableCoin.constructor D config.deployer w
      = .ok { w.setLedger D.i_DSC Ledger.empty with owner := config.deployer } := by
    rw [DecentralizedStableCoin.constructor, revertIf, if_neg hdeployer]
    rfl
  have hlen : config.tokenAddresses.length = config.priceFeedAddresses.length := rfl
  have hown : ∀ w₁ : World, w₁.owner = config.deployer →
      DecentralizedStableCoin.transferOwnership config.deployer D.engine w₁
        = .ok { w₁ with owner := D.engine } := fun w₁ howner => by
    rw [DecentralizedStableCoin.transferOwnership, DecentralizedStableCoin.onlyOwner, revertIf,
      if_neg (not_not.mpr howner.symm), revertIf, if_neg D.engine_ne_zero]
    rfl
  refine ⟨_, bind_eq_ok.mpr ⟨_, hcoin, bind_eq_ok.mpr ⟨_, constructor_eq_ok.mpr ⟨hlen, rfl⟩,
    hown _ ?_⟩⟩, w.newCoinAndEngine D, h.genesis, constructor_eq_ok.mpr ⟨hlen, ?_⟩⟩
  · rfl
  · exact registerTokens_owner _ _ _

/-- Only the engine may create coins, burn its own, or give the coin away. Everybody may burn coins
against an allowance. -/
theorem coinCall_refused {sender : Address} {c : CoinCall} (howner : w.owner = D.engine)
    (hsender : sender ≠ D.engine) (hc : ∀ account v, c ≠ .burnFrom account v) :
    ¬ Succeeds (c.exec D sender w) := by
  have hrefused : ∀ x, DecentralizedStableCoin.onlyOwner sender w ≠ .ok x := fun x hx =>
    hsender ((DSCEngine.onlyOwner_eq_ok.mp hx).trans howner)
  rintro ⟨w', hok⟩
  cases c with
  | mint dst a =>
    obtain ⟨x, hmint, -⟩ := bind_eq_ok.mp hok
    obtain ⟨u, hu, -⟩ := bind_eq_ok.mp hmint
    exact hrefused u hu
  | burn a =>
    obtain ⟨u, hu, -⟩ := bind_eq_ok.mp hok
    exact hrefused u hu
  | burnFrom account v => exact hc account v rfl
  | transferOwnership newOwner =>
    obtain ⟨u, hu, -⟩ := bind_eq_ok.mp hok
    exact hrefused u hu
  | renounceOwnership =>
    obtain ⟨u, hu, -⟩ := bind_eq_ok.mp hok
    exact hrefused u hu

/-- **What the script deploys.** On every network and whoever runs it, the script goes through. It
leaves a deployment with two tokens, in which every account is valued token by token. In every run
from there the coin belongs to the engine, and nobody else can create coins or take the coin over,
the deployer included. -/
theorem script_deploys (h : Unborn D w) (hproper : created.Proper)
    (hcreated : created.deployer ≠ 0) (hdeployer : deployer ≠ 0) :
    ∃ config w', config = (HelperConfig.constructor chainid deployer created w).1 ∧
      DeployDSC.run D chainid deployer created w = .ok w' ∧
      Deployed D config.tokenAddresses config.priceFeedAddresses w' ∧
      ValuesEachTokenOnce config.tokenAddresses config.priceFeedAddresses ∧
      ∀ as, Along (step D) (fun _ a => a.FromOutside D) w' as →
        (Evm.run (step D) w' as).owner = D.engine ∧
        ∀ sender c, sender ≠ D.engine → (∀ account v, c ≠ .burnFrom account v) →
          ¬ Succeeds (CoinCall.exec D sender c (Evm.run (step D) w' as)) := by
  obtain ⟨htokens, hweth, hwbtc⟩ : (HelperConfig.constructor chainid deployer created w).1.Proper :=
    HelperConfig.constructor_proper hproper
  have hsender : (HelperConfig.constructor chainid deployer created w).1.deployer ≠ 0 :=
    HelperConfig.constructor_deployer hcreated hdeployer
  have hunborn : Unborn D (HelperConfig.constructor chainid deployer created w).2 :=
    HelperConfig.constructor_unborn h
  obtain ⟨w', hrun, hdeployed⟩ := broadcast_deployed hunborn hsender
  refine ⟨_, w', rfl, hrun, hdeployed, ?_, fun as has => ?_⟩
  · refine valuesEachTokenOnce_of_distinct ?_ ?_
    · simpa [NetworkConfig.tokenAddresses] using htokens
    · simpa [NetworkConfig.priceFeedAddresses] using ⟨hweth.symm, hwbtc.symm⟩
  · have hinv : Invariant D (Evm.run (step D) w' as) :=
      run_invariant (fun _ _ ha hw => invariant_step ha hw) has hdeployed.invariant
    exact ⟨hinv.owner, fun sender c hs hc => coinCall_refused hinv.owner hs hc⟩

/-- Tokens at `3` and `5` with feeds at `4` and `6`, and a key that belongs to account `10`. -/
def sampleMocks : NetworkConfig := ⟨4, 6, 3, 5, 10⟩

/-- A chain with nothing on it. -/
def emptyChain : World := sampleGenesis (fun _ => Ledger.empty) fun _ => none

/-- On a local chain account `10` runs the script, and waits for an hour. It cannot create coins. -/
theorem script_deploys_sample :
    ∃ w', DeployDSC.run sampleDeployment 31337 11 sampleMocks emptyChain = .ok w' ∧
      Deployed sampleDeployment [3, 5] [4, 6] w' ∧
      ¬ Succeeds (CoinCall.exec sampleDeployment 10 (.mint 10 1)
        (Evm.run (step sampleDeployment) w' [.elapse 3600])) := by
  have hunborn : Unborn sampleDeployment emptyChain := by
    intro t s
    simp [emptyChain, sampleGenesis, Ledger.empty]
  obtain ⟨_, w', rfl, hrun, hdeployed, -, hruns⟩ := script_deploys (D := sampleDeployment)
    (w := emptyChain) hunborn (show sampleMocks.Proper from ⟨by decide, by decide, by decide⟩)
    (by decide) (show (11 : Address) ≠ 0 by decide)
  refine ⟨w', hrun, hdeployed, ?_⟩
  refine (hruns [.elapse 3600] ⟨trivial, trivial⟩).2 10 _ (by decide) fun account v habs => ?_
  cases habs

end Stablecoin

end UpdraftContracts

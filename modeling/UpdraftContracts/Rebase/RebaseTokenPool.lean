import UpdraftContracts.Evm.Abi
import UpdraftContracts.Rebase.RebaseToken

/-!
# `RebaseTokenPool` and the message layer

The pool of a chain burns what is sent away and mints what arrives. Its base contract `TokenPool`
is outside the repository, and so is the layer that carries messages between chains. Of the base
contract the model keeps the functions the pool calls, as parameters. Of the message layer it keeps
what a pool can rely on. A send pulls the amount from the sender into the pool and calls
`lockOrBurn` with the same amount, in one transaction; the message it leaves carries the amount and
the data that `lockOrBurn` returned. A delivery calls `releaseOrMint` with them and uses the
message up. Messages can arrive in any order, or never.

Rate limits are disabled, so the base contract has no state of its own.
-/

namespace UpdraftContracts

open Evm

namespace Rebase

/-- `Pool.LockOrBurnInV1`. Chains stand for their selectors. -/
structure LockOrBurnIn (ι : Type) where
  receiver : List UInt8
  remoteChainSelector : ι
  originalSender : Address
  amount : ℕ
  localToken : Address

/-- `Pool.LockOrBurnOutV1` -/
structure LockOrBurnOut where
  destTokenAddress : List UInt8
  destPoolData : List UInt8

/-- `Pool.ReleaseOrMintInV1` -/
structure ReleaseOrMintIn (ι : Type) where
  originalSender : List UInt8
  remoteChainSelector : ι
  receiver : Address
  amount : ℕ
  localToken : Address
  sourcePoolAddress : List UInt8
  sourcePoolData : List UInt8
  offchainTokenData : List UInt8

/-- `Pool.ReleaseOrMintOutV1` -/
structure ReleaseOrMintOut where
  destinationAmount : ℕ

/-- What the pool of a chain takes from `TokenPool`. A validation that does not hold reverts. -/
structure TokenPool (ι : Type) where
  /-- `address(this)` -/
  self : Address
  i_token : Address
  _validateLockOrBurn : LockOrBurnIn ι → Bool
  _validateReleaseOrMint : ReleaseOrMintIn ι → Bool
  getRemoteToken : ι → List UInt8

variable {ι : Type}

namespace RebaseTokenPool

variable (B : OpenZeppelinErc20 Address) (P : TokenPool ι)

/-- The rate of the sender goes along, and the tokens of the pool are burned. -/
def lockOrBurn (lockOrBurnIn : LockOrBurnIn ι) (s : Token) :
    Exec Error (LockOrBurnOut × Token) := do
  ofCallee (guardSome (P._validateLockOrBurn lockOrBurnIn = true) ())
  let userInterestRate := RebaseToken.getUserInterestRate lockOrBurnIn.originalSender s
  let s ← RebaseToken.burn B P.self P.self lockOrBurnIn.amount s
  return ({ destTokenAddress := P.getRemoteToken lockOrBurnIn.remoteChainSelector
            destPoolData := encodeUint256 userInterestRate }, s)

/-- The receiver gets the rate that came along. -/
def releaseOrMint (releaseOrMintIn : ReleaseOrMintIn ι) (s : Token) :
    Exec Error (ReleaseOrMintOut × Token) := do
  ofCallee (guardSome (P._validateReleaseOrMint releaseOrMintIn = true) ())
  let userInterestRate ← ofCallee (decodeUint256 releaseOrMintIn.sourcePoolData)
  let s ← RebaseToken.mint B P.self releaseOrMintIn.receiver releaseOrMintIn.amount
    userInterestRate s
  return ({ destinationAmount := releaseOrMintIn.amount }, s)

end RebaseTokenPool

/-! ## The message layer -/

/-- A message under way. -/
structure Message (ι : Type) where
  source : ι
  destination : ι
  sender : Address
  receiver : Address
  amount : ℕ
  destTokenAddress : List UInt8
  sourcePoolData : List UInt8

/-- The tokens of all chains, and the messages between them. -/
structure Network (ι : Type) where
  token : ι → Token
  inFlight : List (Message ι)

/-- What does not change: the code of the base token, the pools, and the contract of the message
layer that pulls tokens on each chain. -/
structure Lanes (ι : Type) where
  base : OpenZeppelinErc20 Address
  pool : ι → TokenPool ι
  router : ι → Address

/-- A send: from a chain to a chain, by a sender for a receiver. -/
structure Transfer (ι : Type) where
  source : ι
  destination : ι
  sender : Address
  receiver : Address
  amount : ℕ

variable [DecidableEq ι]

/-- Write the token of a chain. -/
def Network.setToken (n : Network ι) (i : ι) (s : Token) : Network ι :=
  { n with token := Function.update n.token i s }

namespace Lanes

variable (N : Lanes ι)

/-- Pull the amount into the pool and have it burned there. -/
def pullAndBurn (t : Transfer ι) (s : Token) : Exec Error (LockOrBurnOut × Token) := do
  let P := N.pool t.source
  let (success, s) ←
    RebaseToken.transferFrom N.base (N.router t.source) t.sender P.self t.amount s
  ofCallee (guardSome (success = true) ())
  RebaseTokenPool.lockOrBurn N.base P
    { receiver := encodeAddress t.receiver
      remoteChainSelector := t.destination
      originalSender := t.sender
      amount := t.amount
      localToken := P.i_token } s

/-- A send that goes through puts a message in flight. -/
def send (t : Transfer ι) (n : Network ι) : Exec Error (Network ι) := do
  let (out, s) ← N.pullAndBurn t (n.token t.source)
  let m : Message ι :=
    { source := t.source
      destination := t.destination
      sender := t.sender
      receiver := t.receiver
      amount := t.amount
      destTokenAddress := out.destTokenAddress
      sourcePoolData := out.destPoolData }
  return { n.setToken t.source s with inFlight := n.inFlight ++ [m] }

/-- What the message layer hands to the pool of the destination. -/
def releaseOrMintIn (m : Message ι) (offchainTokenData : List UInt8) : ReleaseOrMintIn ι :=
  { originalSender := encodeAddress m.sender
    remoteChainSelector := m.source
    receiver := m.receiver
    amount := m.amount
    localToken := (N.pool m.destination).i_token
    sourcePoolAddress := encodeAddress (N.pool m.source).self
    sourcePoolData := m.sourcePoolData
    offchainTokenData := offchainTokenData }

/-- Deliver the message at position `k`. A delivery that reverts leaves it in flight. -/
def deliver (k : ℕ) (offchainTokenData : List UInt8) (n : Network ι) :
    Exec Error (Network ι) := do
  let m ← ofCallee n.inFlight[k]?
  let (_, s) ← RebaseTokenPool.releaseOrMint N.base (N.pool m.destination)
    (N.releaseOrMintIn m offchainTokenData) (n.token m.destination)
  return { n.setToken m.destination s with inFlight := n.inFlight.eraseIdx k }

end Lanes

/-! ## Runs -/

/-- What can happen next. -/
inductive NetworkAction (ι : Type) where
  | send (t : Transfer ι)
  | deliver (k : ℕ) (offchainTokenData : List UInt8)
  /-- A call of the token of a chain. -/
  | call (i : ι) (sender : Address) (c : TokenCall)
  /-- Time passes on a chain. -/
  | elapse (i : ι) (seconds : ℕ)

/-- The state after an action. -/
def Lanes.step (N : Lanes ι) (n : Network ι) : NetworkAction ι → Network ι
  | .send t => settle n (N.send t n)
  | .deliver k data => settle n (N.deliver k data n)
  | .call i sender c => n.setToken i (settle (n.token i) (c.exec N.base sender (n.token i)))
  | .elapse i seconds => n.setToken i ((n.token i).elapse seconds)

/-- The states of all runs from reachable tokens and no message in flight. -/
def NetworkReachable (N : Lanes ι) (n : Network ι) : Prop :=
  ∃ n₀ as, (∀ i, TokenReachable N.base (n₀.token i)) ∧ n₀.inFlight = [] ∧ n = run N.step n₀ as

end Rebase

end UpdraftContracts

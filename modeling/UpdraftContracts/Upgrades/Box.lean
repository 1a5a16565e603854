import UpdraftContracts.Evm.Run

/-!
# `BoxV1` and `BoxV2` behind a proxy

A number in a contract that can be replaced. The storage is that of an `ERC1967Proxy`, which runs
the code of its implementation; `BoxV1` and `BoxV2` are implementations, and it is a function of
theirs, `upgradeToAndCall`, that replaces the one by the other. The two differ in `version`, and
only `BoxV2` has `setNumber`.

Apart from that all functions come from the base contracts of OpenZeppelin: `Initializable`,
`OwnableUpgradeable` and `UUPSUpgradeable`. They are parameters, and so is the proxy; what is
documented about them are hypotheses on these. The code of a box runs in two ways: called directly,
`self` is `__self`, the address of the code; called through a proxy, `self` is the proxy.

Anybody may deploy other contracts and use them as implementations. What these do to the storage
of a proxy is a parameter too. Calls carry no ether.
-/

namespace UpdraftContracts

open Evm

namespace Upgrades

/-- The two boxes. -/
inductive Version where
  | V1
  | V2
  deriving DecidableEq

/-- What stands at an address. `Box .V1` is `BoxV1` and `Box .V2` is `BoxV2`. -/
inductive Code where
  | Box (v : Version)
  | ERC1967Proxy
  /-- A contract of somebody else. -/
  | foreign
  deriving DecidableEq

/-- The storage of a box or a proxy. All but `number` belongs to the base contracts. -/
structure Storage where
  /-- `ERC1967Utils.IMPLEMENTATION_SLOT` -/
  implementation : Address
  /-- A `uint64`. -/
  _initialized : ℕ
  _initializing : Bool
  _owner : Address
  number : ℕ
  deriving DecidableEq

/-- The storage of a new contract. -/
def emptyStorage : Storage := ⟨0, 0, false, 0, 0⟩

/-- A call. `upgradeTo` is `upgradeToAndCall` with no data. -/
inductive Calldata where
  | initialize_
  | setNumber (newNumber : ℕ)
  | getNumber
  | version
  | owner
  | transferOwnership (newOwner : Address)
  | renounceOwnership
  | UPGRADE_INTERFACE_VERSION
  | proxiableUUID
  | upgradeTo (newImplementation : Address)
  | upgradeToAndCall (newImplementation : Address) (data : Calldata)
  | unknown (data : List UInt8)

/-- What a call returns. -/
inductive Return where
  | void
  | uint256 (n : ℕ)
  | address (a : Address)
  | string (text : List UInt8)
  | implementationSlot
  | other (data : List UInt8)
  deriving DecidableEq

/-- The reasons to revert that are not those of a base contract. -/
inductive Error where
  /-- There is no such function and no fallback. -/
  | noFunction
  | outOfGas
  /-- A new contract cannot be where there is one. -/
  | collision
  deriving DecidableEq

/-- `type(uint64).max` -/
def uint64Max : ℕ := 2 ^ 64 - 1

/-- The code that is not that of the boxes. Of a modifier there is what it makes of the body of a
function. -/
structure Libraries where
  /-- The modifier `initializer` of `Initializable`. -/
  initializer : (body : Storage → Option Storage) → Storage → Option Storage
  _disableInitializers : Storage → Option Storage
  /-- `__Ownable_init` -/
  Ownable_init : (initialOwner : Address) → Storage → Option Storage
  owner : Storage → Address
  transferOwnership : (sender newOwner : Address) → Storage → Option Storage
  renounceOwnership : (sender : Address) → Storage → Option Storage
  /-- `__UUPSUpgradeable_init` -/
  UUPSUpgradeable_init : Storage → Option Storage
  UPGRADE_INTERFACE_VERSION : List UInt8
  proxiableUUID : (self __self : Address) → Option Return
  /-- `upgradeToAndCall` up to the call. It calls `_authorizeUpgrade`, and `proxiableUUID` of the
  new implementation. -/
  upgradeTo : (self __self newImplementation : Address) → (_authorizeUpgrade : Option Unit) →
    (uuid : Option Return) → (hasCode : Bool) → Storage → Option Storage
  /-- The constructor of `ERC1967Proxy` without data. -/
  newProxy : (implementation : Address) → (hasCode : Bool) → Option Storage
  /-- The code that the fallback function of `ERC1967Proxy` runs. -/
  delegate : Storage → Address
  /-- What the code of others at an address returns and does to the storage it runs on. -/
  foreign : (code self sender : Address) → Calldata → Storage → Option (Storage × Return)
  /-- The body runs once, and only before initializers are disabled. -/
  initializer_eq_some : ∀ {body st st'}, initializer body st = some st' ↔
    st._initialized = 0 ∧ st._initializing = false ∧
      ∃ st₁, body { st with _initialized := 1, _initializing := true } = some st₁ ∧
        st' = { st₁ with _initializing := false }
  /-- In a constructor. No initializer runs afterwards. -/
  disableInitializers_empty :
    _disableInitializers emptyStorage = some { emptyStorage with _initialized := uint64Max }
  /-- It belongs into an initializer, and there has to be an owner. -/
  ownable_init_eq_some : ∀ {initialOwner st st'}, Ownable_init initialOwner st = some st' ↔
    st._initializing = true ∧ initialOwner ≠ 0 ∧ st' = { st with _owner := initialOwner }
  owner_eq : ∀ st, owner st = st._owner
  /-- `onlyOwner` -/
  transferOwnership_eq_some : ∀ {sender newOwner st st'},
    transferOwnership sender newOwner st = some st' ↔
      sender = st._owner ∧ newOwner ≠ 0 ∧ st' = { st with _owner := newOwner }
  renounceOwnership_eq_some : ∀ {sender st st'}, renounceOwnership sender st = some st' ↔
    sender = st._owner ∧ st' = { st with _owner := 0 }
  /-- There is nothing to initialize. -/
  uups_init_eq_some : ∀ {st st'}, UUPSUpgradeable_init st = some st' ↔
    st._initializing = true ∧ st' = st
  /-- `notDelegated` -/
  proxiableUUID_eq_some : ∀ {self __self r}, proxiableUUID self __self = some r ↔
    self = __self ∧ r = .implementationSlot
  /-- `onlyProxy`: the code has to be that of the implementation of a proxy. The new implementation
  has to say that it is one. -/
  upgradeTo_eq_some : ∀ {self __self a authorized uuid hasCode st st'},
    upgradeTo self __self a authorized uuid hasCode st = some st' ↔
      self ≠ __self ∧ st.implementation = __self ∧ authorized = some () ∧
        uuid = some .implementationSlot ∧ hasCode = true ∧ st' = { st with implementation := a }
  /-- The implementation has to have code. -/
  newProxy_eq_some : ∀ {a hasCode st}, newProxy a hasCode = some st ↔
    hasCode = true ∧ st = { emptyStorage with implementation := a }
  delegate_eq : ∀ st, delegate st = st.implementation

/-- All contracts with their storages. -/
structure World where
  code : Address → Option Code
  storage : Address → Storage

/-- The world with another storage at an address. -/
def World.write (w : World) (self : Address) (st : Storage) : World :=
  { w with storage := Function.update w.storage self st }

/-! ## The boxes -/

variable (E : Libraries)

/-- `initialize()` of both boxes. -/
def initialize_ (sender : Address) : Storage → Option Storage :=
  E.initializer fun st => do
    let st ← E.Ownable_init sender st
    E.UUPSUpgradeable_init st

/-- Neither box checks anything here. -/
def _authorizeUpgrade (_newImplementation : Address) : Option Unit := some ()

/-- What `version()` returns. -/
def Version.number : Version → ℕ
  | .V1 => 1
  | .V2 => 2

/-- Only `BoxV2` has this function, and anybody may call it. -/
def setNumber (newNumber : ℕ) (st : Storage) : Storage := { st with number := newNumber }

/-! ## Upgrades -/

/-- The code at `__self` is asked whether it is an implementation, on the storage of `target`. -/
def executeProxiableUUID (self target __self : Address) (w : World) : Option Return :=
  match w.code __self with
  | some (.Box _) => E.proxiableUUID target __self
  | some .foreign => Prod.snd <$> E.foreign __self target self .proxiableUUID (w.storage target)
  | some .ERC1967Proxy => none
  | none => none

/-- `IERC1822Proxiable(target).proxiableUUID()`, called by `self`. -/
def callProxiableUUID (self target : Address) (w : World) : Option Return :=
  match w.code target with
  | some .ERC1967Proxy => executeProxiableUUID E self target (E.delegate (w.storage target)) w
  | _ => executeProxiableUUID E self target target w

/-- `upgradeToAndCall` of both boxes up to the call. -/
def upgradeTo (self __self newImplementation : Address) (w : World) : Exec Error World := do
  let st ← ofCallee (E.upgradeTo self __self newImplementation
    (_authorizeUpgrade newImplementation) (callProxiableUUID E self newImplementation w)
    (w.code newImplementation).isSome (w.storage self))
  return w.write self st

/-! ## Calls -/

/-- The code at `__self` runs on the storage of `self`. The code of a proxy runs on the storage of
another one only when it is its implementation, and then never ends. -/
def execute (sender self : Address) (c : Calldata) (__self : Address) (w : World) :
    Exec Error (World × Return) :=
  match w.code __self with
  | none => return (w, .void)
  | some .ERC1967Proxy => .error (.custom .outOfGas)
  | some .foreign => do
    let (st, r) ← ofCallee (E.foreign __self self sender c (w.storage self))
    return (w.write self st, r)
  | some (.Box v) =>
    match c with
    | .initialize_ => do
      let st ← ofCallee (initialize_ E sender (w.storage self))
      return (w.write self st, .void)
    | .setNumber newNumber =>
      match v with
      | .V1 => .error (.custom .noFunction)
      | .V2 => return (w.write self (setNumber newNumber (w.storage self)), .void)
    | .getNumber => return (w, .uint256 (w.storage self).number)
    | .version => return (w, .uint256 v.number)
    | .owner => return (w, .address (E.owner (w.storage self)))
    | .transferOwnership newOwner => do
      let st ← ofCallee (E.transferOwnership sender newOwner (w.storage self))
      return (w.write self st, .void)
    | .renounceOwnership => do
      let st ← ofCallee (E.renounceOwnership sender (w.storage self))
      return (w.write self st, .void)
    | .UPGRADE_INTERFACE_VERSION => return (w, .string E.UPGRADE_INTERFACE_VERSION)
    | .proxiableUUID => do
      let r ← ofCallee (E.proxiableUUID self __self)
      return (w, r)
    | .upgradeTo newImplementation => do
      let w ← upgradeTo E self __self newImplementation w
      return (w, .void)
    | .upgradeToAndCall newImplementation data => do
      let w ← upgradeTo E self __self newImplementation w
      let (w, _) ← execute sender self data newImplementation w
      return (w, .void)
    | .unknown _ => .error (.custom .noFunction)

/-- A transaction. A proxy runs the code of its implementation. -/
def call (sender target : Address) (c : Calldata) (w : World) : Exec Error (World × Return) :=
  match w.code target with
  | some .ERC1967Proxy => execute E sender target c (E.delegate (w.storage target)) w
  | _ => execute E sender target c target w

/-! ## Deployment -/

/-- A new contract. -/
def deploy (a : Address) (code : Code) (st : Storage) (w : World) : Exec Error World := do
  revertIf (w.code a ≠ none) .collision
  return ⟨Function.update w.code a (some code), Function.update w.storage a st⟩

/-- `new BoxV1()` or `new BoxV2()`. The constructor calls `_disableInitializers`. -/
def newBox (v : Version) (a : Address) (w : World) : Exec Error World := do
  let st ← ofCallee (E._disableInitializers emptyStorage)
  deploy a (.Box v) st w

/-- `new ERC1967Proxy(implementation, "")` -/
def newERC1967Proxy (a implementation : Address) (w : World) : Exec Error World := do
  let st ← ofCallee (E.newProxy implementation (w.code implementation).isSome)
  deploy a .ERC1967Proxy st w

/-- The script `DeployBox`. The addresses are those where the contracts end up. -/
def deployBox (box proxy : Address) (w : World) : Exec Error World := do
  let w ← newBox E .V1 box w
  newERC1967Proxy E proxy box w

/-- `upgradeBox` of the script `UpgradeBox`. -/
def upgradeBox (sender proxy newBox : Address) (w : World) : Exec Error (World × Return) :=
  call E sender proxy (.upgradeTo newBox) w

/-! ## Runs -/

/-- What anybody can do. -/
inductive Action where
  | deployBox (box proxy : Address)
  | newBox (v : Version) (a : Address)
  | newProxy (a implementation : Address)
  | newForeign (a : Address) (st : Storage)
  | upgradeBox (sender proxy newBox : Address)
  | call (sender target : Address) (c : Calldata)

/-- What reverts changes nothing. -/
def step (w : World) : Action → World
  | .deployBox box proxy => settle w (deployBox E box proxy w)
  | .newBox v a => settle w (newBox E v a w)
  | .newProxy a implementation => settle w (newERC1967Proxy E a implementation w)
  | .newForeign a st => settle w (deploy a .foreign st w)
  | .upgradeBox sender proxy box => settle w (Prod.fst <$> upgradeBox E sender proxy box w)
  | .call sender target c => settle w (Prod.fst <$> call E sender target c w)

/-- No contracts yet. -/
def World.empty : World := ⟨fun _ => none, fun _ => emptyStorage⟩

end Upgrades

end UpdraftContracts

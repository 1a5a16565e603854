import UpdraftContracts.Upgrades.Effects

/-!
# What an upgradeable box is

To its users the proxy is one object with a version and a number, which an upgrade changes the
version of. `Object` says so, without addresses of code, slots and contexts of calls. As long as the
implementations are boxes, the proxy is such an object: it returns what the object returns, on every
run, whatever happens to other contracts meanwhile.

Nothing is said about the proxy when its implementation is somebody else's contract, and nothing
prevents that.

## Main results

* `proxy_refines` — the proxy is an object
* `implementation_inert` — nobody ever owns, initializes or upgrades an implementation itself
* `anybody_upgrades` — whatever the owner does, any account chooses version and number
-/

namespace UpdraftContracts

open Evm

namespace Upgrades

/-! ## Objects -/

/-- An upgradeable box. -/
structure Object where
  version : Version
  number : ℕ
  /-- Zero if there is none. -/
  owner : Address
  initialized : Bool
  deriving DecidableEq

/-- Which box stands at an address. -/
def World.versionOf (w : World) (a : Address) : Option Version :=
  match w.code a with
  | some (.Box v) => some v
  | _ => none

namespace Object

variable (E : Libraries) (versionOf : Address → Option Version) (sender : Address)

/-- Anybody may upgrade a box to any version, and only the first who initializes it owns it. -/
def call : Calldata → Object → Option (Object × Return)
  | .initialize_, o =>
    guardSome (o.initialized = false ∧ sender ≠ 0)
      ({ o with initialized := true, owner := sender }, .void)
  | .setNumber newNumber, o => guardSome (o.version = .V2) ({ o with number := newNumber }, .void)
  | .getNumber, o => some (o, .uint256 o.number)
  | .version, o => some (o, .uint256 o.version.number)
  | .owner, o => some (o, .address o.owner)
  | .transferOwnership newOwner, o =>
    guardSome (sender = o.owner ∧ newOwner ≠ 0) ({ o with owner := newOwner }, .void)
  | .renounceOwnership, o => guardSome (sender = o.owner) ({ o with owner := 0 }, .void)
  | .UPGRADE_INTERFACE_VERSION, o => some (o, .string E.UPGRADE_INTERFACE_VERSION)
  | .proxiableUUID, _ => none
  | .upgradeTo a, o => do
    let v ← versionOf a
    return ({ o with version := v }, .void)
  | .upgradeToAndCall a data, o => do
    let v ← versionOf a
    let (o, _) ← call data { o with version := v }
    return (o, .void)
  | .unknown _, _ => none

end Object

/-! ## Proxies are objects -/

/-- What a storage is with code of version `v`. -/
def Storage.object (v : Version) (st : Storage) : Object :=
  ⟨v, st.number, st._owner, decide (st._initialized ≠ 0)⟩

/-- The proxy at `p` is the object `o`. -/
structure Represents (w : World) (p : Address) (o : Object) : Prop where
  proxy : w.code p = some .ERC1967Proxy
  implementation : w.code (w.storage p).implementation = some (.Box o.version)
  object : (w.storage p).object o.version = o
  initializing : (w.storage p)._initializing = false

/-- Neither code of others nor a proxy that runs code of others. -/
structure Trusted (w : World) (a : Address) : Prop where
  code : w.code a ≠ some .foreign
  implementation : w.code a = some .ERC1967Proxy →
    w.code (w.storage a).implementation ≠ some .foreign

/-- The call upgrades to nothing else. -/
def Calldata.Clean (w : World) : Calldata → Prop
  | .upgradeTo a => Trusted w a
  | .upgradeToAndCall a data => Trusted w a ∧ data.Clean w
  | _ => True

variable {E : Libraries} {sender self p a : Address} {c : Calldata} {w w' : World} {r : Return}
  {o o' : Object}

/-- Only boxes say that they are implementations. -/
theorem callProxiableUUID_of_trusted (h : Trusted w a) :
    callProxiableUUID E self a w = some r ↔
      (∃ v, w.code a = some (.Box v)) ∧ r = .implementationSlot := by
  unfold callProxiableUUID
  split
  · next hproxy =>
    have hnone : ¬ ∃ v, w.code a = some (.Box v) := by simp [hproxy]
    simp only [hnone, false_and, iff_false, E.delegate_eq]
    unfold executeProxiableUUID
    split
    · next v hv =>
      have hne : a ≠ (w.storage a).implementation := by
        intro heq
        rw [← heq, hproxy] at hv
        cases hv
      rw [E.proxiableUUID_eq_some]
      exact fun hboth => hne hboth.1
    · next hforeign => exact absurd hforeign (h.implementation hproxy)
    · simp
    · simp
  · next hproxy =>
    unfold executeProxiableUUID
    split
    · next v hv =>
      rw [E.proxiableUUID_eq_some]
      exact and_congr_left fun _ => iff_of_true rfl ⟨v, hv⟩
    · next hforeign => exact absurd hforeign h.code
    · next hcode => exact absurd hcode hproxy
    · next hnone => simp [hnone]

theorem versionOf_eq_some {v : Version} : w.versionOf a = some v ↔ w.code a = some (.Box v) := by
  unfold World.versionOf
  split
  · next hv => simp [hv]
  · next hnone => exact iff_of_false (by simp) (hnone v)

theorem Represents.code_ne (h : Represents w p o) : p ≠ (w.storage p).implementation := by
  intro heq
  have hcode := h.implementation
  rw [← heq, h.proxy] at hcode
  cases hcode

/-- What a proxy that is an object upgrades to. -/
theorem Represents.upgradeTo_eq_ok (h : Represents w p o) (ha : Trusted w a) :
    upgradeTo E p (w.storage p).implementation a w = .ok w' ↔
      (∃ v, w.versionOf a = some v) ∧
      w' = w.write p { w.storage p with implementation := a } := by
  rw [Upgrades.upgradeTo_eq_ok, callProxiableUUID_of_trusted ha]
  simp only [versionOf_eq_some, true_and, and_true]
  constructor
  · rintro ⟨-, hbox, -, rfl⟩
    exact ⟨hbox, rfl⟩
  · rintro ⟨⟨v, hv⟩, rfl⟩
    exact ⟨h.code_ne, ⟨v, hv⟩, by simp [hv], rfl⟩

/-- It is upgraded to boxes only. -/
theorem Represents.versionOf_ne_none (h : Represents w p o) (ha : Trusted w a)
    (hok : upgradeTo E p (w.storage p).implementation a w = .ok w') : w.versionOf a ≠ none := by
  obtain ⟨⟨v, hv⟩, -⟩ := (h.upgradeTo_eq_ok ha).mp hok
  rw [hv]
  exact Option.some_ne_none v

/-- An upgrade changes the version of the object. -/
theorem Represents.upgraded {v : Version} (h : Represents w p o) (hv : w.versionOf a = some v) :
    Represents (w.write p { w.storage p with implementation := a }) p { o with version := v } := by
  refine ⟨h.proxy, ?_, ?_, ?_⟩
  all_goals simp only [storage_write_self, code_write]
  · exact versionOf_eq_some.mp hv
  · exact congrArg (fun o : Object => { o with version := v }) h.object
  · exact h.initializing

/-- An upgrade to a box makes no address less trusted. -/
theorem Trusted.upgraded {b : Address} {v : Version} (h : Trusted w b)
    (hv : w.versionOf a = some v) :
    Trusted (w.write p { w.storage p with implementation := a }) b := by
  refine ⟨h.code, fun hproxy => ?_⟩
  rcases eq_or_ne b p with rfl | hne
  · rw [storage_write_self, code_write, versionOf_eq_some.mp hv]
    simp
  · rw [code_write, (within_write _).storage b hne]
    exact h.implementation hproxy

theorem Calldata.Clean.upgraded {v : Version} (h : c.Clean w) (hv : w.versionOf a = some v) :
    c.Clean (w.write p { w.storage p with implementation := a }) := by
  induction c with
  | upgradeTo b => exact Trusted.upgraded h hv
  | upgradeToAndCall b data ih => exact ⟨h.1.upgraded hv, ih h.2⟩
  | _ => trivial

/-- The outcome of a call is that of the object. -/
def Agrees (p : Address) (x : Exec Error (World × Return)) : Option (Object × Return) → Prop
  | some (o', r) => ∃ w', x = .ok (w', r) ∧ Represents w' p o'
  | none => ¬ Succeeds x

theorem guardSome_congr_map {α β : Type} {q q' : Prop} [Decidable q] [Decidable q'] {x : α} {y : β}
    {f : α → β} (hq : q' ↔ q) (hy : q → y = f x) :
    guardSome q' y = (guardSome q x).map f := by
  unfold guardSome
  by_cases h : q
  · rw [if_pos h, if_pos (hq.mpr h), hy h]
    rfl
  · rw [if_neg h, if_neg (fun h' => h (hq.mp h'))]
    rfl

/-- On calls that upgrade nothing, objects compute what storages compute. -/
theorem Storage.call_object {versionOf : Address → Option Version} {v : Version} {st : Storage}
    (hst : st._initializing = false) (hc : ¬ c.IsUpgrade) :
    (st.object v).call E versionOf sender c
      = (st.call E v sender false c).map fun x => (x.1.object v, x.2) := by
  cases c with
  | initialize_ =>
    refine guardSome_congr_map ?_ fun _ => rfl
    simp [Storage.object, hst]
  | setNumber n => exact guardSome_congr_map Iff.rfl fun _ => rfl
  | transferOwnership newOwner => exact guardSome_congr_map Iff.rfl fun _ => rfl
  | renounceOwnership => exact guardSome_congr_map Iff.rfl fun _ => rfl
  | getNumber | version | owner | UPGRADE_INTERFACE_VERSION | proxiableUUID | unknown => rfl
  | upgradeTo | upgradeToAndCall => exact absurd trivial hc

theorem Storage.call_kept {v : Version} {direct : Bool} {st st' : Storage}
    (h : st.call E v sender direct c = some (st', r)) :
    st'.implementation = st.implementation ∧ st'._initializing = st._initializing := by
  cases c with
  | upgradeTo | upgradeToAndCall | unknown => cases h
  | getNumber | version | owner | UPGRADE_INTERFACE_VERSION =>
    obtain ⟨rfl, -⟩ := Prod.mk.inj (Option.some.inj h)
    exact ⟨rfl, rfl⟩
  | _ =>
    obtain ⟨-, heq⟩ := guardSome_eq_some.mp h
    obtain ⟨rfl, -⟩ := Prod.mk.inj heq
    exact ⟨rfl, rfl⟩

/-- A call other than an upgrade acts on the object. -/
theorem Represents.execute_of_not_isUpgrade (h : Represents w p o) (hc : ¬ c.IsUpgrade) :
    Agrees p (Upgrades.execute E sender p c (w.storage p).implementation w)
      (o.call E w.versionOf sender c) := by
  have hiff : ∀ w' r, Upgrades.execute E sender p c (w.storage p).implementation w = .ok (w', r) ↔
      ∃ st, (w.storage p).call E o.version sender false c = some (st, r) ∧ w' = w.write p st := by
    intro w' r
    rw [execute_eq_ok_of_not_isUpgrade h.implementation hc, decide_eq_false h.code_ne]
  have hobject : o.call E w.versionOf sender c
      = ((w.storage p).call E o.version sender false c).map
          fun x => (x.1.object o.version, x.2) := by
    rw [← Storage.call_object h.initializing hc, h.object]
  rw [hobject]
  cases hcall : (w.storage p).call E o.version sender false c with
  | none =>
    rintro ⟨⟨w', r⟩, hok⟩
    obtain ⟨st, hst, -⟩ := (hiff w' r).mp hok
    rw [hcall] at hst
    cases hst
  | some x =>
    obtain ⟨st, r⟩ := x
    obtain ⟨himplementation, hinitializing⟩ := Storage.call_kept hcall
    refine ⟨w.write p st, (hiff _ _).mpr ⟨st, hcall, rfl⟩, h.proxy, ?_, ?_, ?_⟩
    all_goals rw [storage_write_self]
    · rw [himplementation]
      exact h.implementation
    · rfl
    · exact hinitializing.trans h.initializing

/-- If the call agrees on the upgraded proxy, so does the upgrade with the call. -/
theorem Represents.execute_upgradeToAndCall {v : Version} {data : Calldata} (h : Represents w p o)
    (ha : Trusted w a) (hv : w.versionOf a = some v)
    (hdata : Agrees p
      (Upgrades.execute E sender p data a (w.write p { w.storage p with implementation := a }))
      (Object.call E w.versionOf sender data { o with version := v })) :
    Agrees p
      (Upgrades.execute E sender p (.upgradeToAndCall a data) (w.storage p).implementation w)
      (o.call E w.versionOf sender (.upgradeToAndCall a data)) := by
  have hupgrade := (h.upgradeTo_eq_ok (E := E) ha).mpr ⟨⟨v, hv⟩, rfl⟩
  rw [Object.call, hv]
  cases hcall : Object.call E w.versionOf sender data { o with version := v } with
  | none =>
    rw [hcall] at hdata
    simp only [Option.bind_eq_bind, Option.bind_some, hcall, Option.bind_none]
    rintro ⟨⟨w', r⟩, hok⟩
    obtain ⟨w₁, hupgrade', r₁, hok', -⟩ :=
      (execute_upgradeToAndCall_eq_ok h.implementation).mp hok
    obtain rfl := Except.ok.inj (hupgrade.symm.trans hupgrade')
    exact hdata ⟨_, hok'⟩
  | some x =>
    obtain ⟨o', r₁⟩ := x
    rw [hcall] at hdata
    obtain ⟨w', hok, hrepresents⟩ := hdata
    simp only [Option.bind_eq_bind, Option.bind_some, hcall]
    exact ⟨w', (execute_upgradeToAndCall_eq_ok h.implementation).mpr
      ⟨_, hupgrade, r₁, hok, rfl⟩, hrepresents⟩

/-- **One call.** A proxy that is an object behaves as the object, and is one afterwards. -/
theorem Represents.execute (h : Represents w p o) (hc : c.Clean w) :
    Agrees p (Upgrades.execute E sender p c (w.storage p).implementation w)
      (o.call E w.versionOf sender c) := by
  induction c generalizing w o with
  | upgradeTo a =>
    cases hv : w.versionOf a with
    | none =>
      rw [Object.call, hv]
      rintro ⟨⟨w', r⟩, hok⟩
      have hupgrade := ((execute_upgradeTo_eq_ok h.implementation).mp hok).1
      exact h.versionOf_ne_none hc hupgrade hv
    | some v =>
      rw [Object.call, hv]
      have hupgrade := (h.upgradeTo_eq_ok (E := E) hc).mpr ⟨⟨v, hv⟩, rfl⟩
      exact ⟨_, (execute_upgradeTo_eq_ok h.implementation).mpr ⟨hupgrade, rfl⟩, h.upgraded hv⟩
  | upgradeToAndCall a data ih =>
    cases hv : w.versionOf a with
    | none =>
      rw [Object.call, hv]
      rintro ⟨⟨w', r⟩, hok⟩
      obtain ⟨w₁, hupgrade, -⟩ := (execute_upgradeToAndCall_eq_ok h.implementation).mp hok
      exact h.versionOf_ne_none hc.1 hupgrade hv
    | some v =>
      have hdata := ih (h.upgraded hv) (hc.2.upgraded hv)
      rw [storage_write_self] at hdata
      exact h.execute_upgradeToAndCall hc.1 hv hdata
  | _ => exact h.execute_of_not_isUpgrade id

/-- So does every call that upgrades to boxes only. -/
theorem Represents.call (h : Represents w p o) (hc : c.Clean w) :
    Agrees p (Upgrades.call E sender p c w) (o.call E w.versionOf sender c) := by
  rw [Upgrades.call, h.proxy]
  dsimp only
  rw [E.delegate_eq]
  exact h.execute hc

/-! ## Runs -/

/-- The object after an action. -/
def Object.step (E : Libraries) (w : World) (p : Address) (o : Object) (b : Action) : Object :=
  match b.call? with
  | some (sender, target, c) =>
    if target = p then ((o.call E w.versionOf sender c).map Prod.fst).getD o else o
  | none => o

/-- The object after a run. -/
def Object.after (E : Libraries) (p : Address) : World → Object → List Action → Object
  | _, o, [] => o
  | w, o, b :: bs => Object.after E p (Upgrades.step E w b) (o.step E w p b) bs

/-- What is called at `p` is clean. -/
def Action.Clean (p : Address) (w : World) (b : Action) : Prop :=
  ∀ sender c, b.call? = some (sender, p, c) → c.Clean w

theorem Represents.congr (h : Represents w p o) (hproxy : w'.code p = w.code p)
    (hstorage : w'.storage p = w.storage p)
    (hcode : w'.code (w.storage p).implementation = w.code (w.storage p).implementation) :
    Represents w' p o :=
  ⟨hproxy.trans h.proxy, by rw [hstorage, hcode]; exact h.implementation,
    by rw [hstorage]; exact h.object, by rw [hstorage]; exact h.initializing⟩

/-- Every step of the world is one of the object, or none. -/
theorem Represents.step {b : Action} (h : Represents w p o) (hb : b.Clean p w) :
    Represents (Upgrades.step E w b) p (o.step E w p b) := by
  rcases step_cases E w b with ⟨hnone, hextends⟩ | ⟨sender, target, c, hsome, hstep⟩
  · obtain ⟨hproxy, hstorage⟩ := hextends p (by simp [h.proxy])
    obtain ⟨hcode, -⟩ := hextends (w.storage p).implementation (by simp [h.implementation])
    rw [Object.step, hnone]
    exact h.congr hproxy hstorage hcode
  · rw [Object.step, hsome, hstep]
    dsimp only
    split
    · next heq =>
      subst heq
      have hcall : Agrees target (Upgrades.call E sender target c w)
          (o.call E w.versionOf sender c) := h.call (hb sender c hsome)
      cases hobject : o.call E w.versionOf sender c with
      | none =>
        rw [hobject] at hcall
        rw [settle_of_not_succeeds]
        · exact h
        · rintro ⟨w', hok⟩
          obtain ⟨x, hok', -⟩ := map_eq_ok.mp hok
          exact hcall ⟨x, hok'⟩
      | some x =>
        rw [hobject] at hcall
        obtain ⟨w', hok, hrepresents⟩ := hcall
        rw [hok]
        exact hrepresents
    · next hne =>
      refine settle_induction (P := fun x => Represents x p o) h fun w' hw' => ?_
      obtain ⟨⟨w₁, r⟩, hok, rfl⟩ := map_eq_ok.mp hw'
      have hwithin := within_call hok
      exact h.congr (congrFun hwithin.code _) (hwithin.storage p (Ne.symm hne))
        (congrFun hwithin.code _)

/-- The induction is on the actions. -/
theorem Represents.run {bs : List Action} (h : Represents w p o)
    (halong : Along (Upgrades.step E) (Action.Clean p) w bs) :
    Represents (Evm.run (Upgrades.step E) w bs) p (Object.after E p w o bs) := by
  induction bs generalizing w o with
  | nil => exact h
  | cons b bs ih => exact ih (h.step halong.1) halong.2

/-- Base contracts that work, and nobody else. -/
def sampleLibraries : Libraries where
  initializer body st :=
    if st._initialized = 0 ∧ st._initializing = false then
      (body { st with _initialized := 1, _initializing := true }).map fun st =>
        { st with _initializing := false }
    else none
  _disableInitializers st := some { st with _initialized := uint64Max }
  Ownable_init initialOwner st :=
    guardSome (st._initializing = true ∧ initialOwner ≠ 0) { st with _owner := initialOwner }
  owner st := st._owner
  transferOwnership sender newOwner st :=
    guardSome (sender = st._owner ∧ newOwner ≠ 0) { st with _owner := newOwner }
  renounceOwnership sender st := guardSome (sender = st._owner) { st with _owner := 0 }
  UUPSUpgradeable_init st := guardSome (st._initializing = true) st
  UPGRADE_INTERFACE_VERSION := [53, 46, 48, 46, 48]
  proxiableUUID self __self := guardSome (self = __self) .implementationSlot
  upgradeTo self __self a authorized uuid hasCode st :=
    guardSome (self ≠ __self ∧ st.implementation = __self ∧ authorized = some () ∧
      uuid = some .implementationSlot ∧ hasCode = true) { st with implementation := a }
  newProxy a hasCode := guardSome (hasCode = true) { emptyStorage with implementation := a }
  delegate st := st.implementation
  foreign _ _ _ _ _ := none
  initializer_eq_some {body st st'} := by
    split
    · next h => simp [h, eq_comm]
    · next h =>
      refine iff_of_false (by simp) ?_
      rintro ⟨hzero, htop, -⟩
      exact h ⟨hzero, htop⟩
  disableInitializers_empty := rfl
  ownable_init_eq_some := guardSome_eq_some.trans and_assoc
  owner_eq _ := rfl
  transferOwnership_eq_some := guardSome_eq_some.trans and_assoc
  renounceOwnership_eq_some := guardSome_eq_some
  uups_init_eq_some := guardSome_eq_some
  proxiableUUID_eq_some := guardSome_eq_some
  upgradeTo_eq_some := guardSome_eq_some.trans (by simp only [and_assoc])
  newProxy_eq_some := guardSome_eq_some
  delegate_eq _ := rfl

/-- The test, with somebody who becomes the owner and others who do as they like. -/
def sampleRun : List Action :=
  [.newBox .V2 3, .call 9 2 .initialize_, .call 8 2 (.setNumber 5), .upgradeBox 8 2 3,
    .call 7 2 (.setNumber 7), .call 7 3 (.setNumber 8)]

/-- The storage of an implementation itself: nobody owns it, and it can be neither initialized nor
made a proxy. Its number is all that may change. -/
structure Inert (st : Storage) : Prop where
  implementation : st.implementation = 0
  initialized : st._initialized = uint64Max
  initializing : st._initializing = false
  owner : st._owner = 0

/-- A call of an implementation itself. -/
theorem Inert.call {v : Version} (h : Inert (w.storage a)) (hcode : w.code a = some (.Box v))
    (hsender : sender ≠ 0) (hok : Upgrades.call E sender a c w = .ok (w', r)) :
    ∃ n, w' = w.write a { w.storage a with number := n } := by
  have hcall : Upgrades.call E sender a c w = execute E sender a c a w := by
    rw [Upgrades.call, hcode]
  rw [hcall] at hok
  by_cases hc : c.IsUpgrade
  · cases c with
    | upgradeTo b =>
      obtain ⟨hupgrade, -⟩ := (execute_upgradeTo_eq_ok hcode).mp hok
      exact absurd rfl (upgradeTo_eq_ok.mp hupgrade).1
    | upgradeToAndCall b data =>
      obtain ⟨w₁, hupgrade, -⟩ := (execute_upgradeToAndCall_eq_ok hcode).mp hok
      exact absurd rfl (upgradeTo_eq_ok.mp hupgrade).1
    | _ => exact hc.elim
  · obtain ⟨st, hst, rfl⟩ := (execute_eq_ok_of_not_isUpgrade hcode hc).mp hok
    refine ⟨st.number, congrArg (w.write a) ?_⟩
    cases c with
    | initialize_ =>
      have hzero := (guardSome_eq_some.mp hst).1.1
      rw [h.initialized] at hzero
      exact absurd hzero (by decide)
    | transferOwnership newOwner =>
      exact absurd ((guardSome_eq_some.mp hst).1.1.trans h.owner) hsender
    | renounceOwnership => exact absurd ((guardSome_eq_some.mp hst).1.trans h.owner) hsender
    | setNumber n =>
      obtain ⟨rfl, -⟩ := Prod.mk.inj (guardSome_eq_some.mp hst).2
      rfl
    | proxiableUUID =>
      obtain ⟨rfl, -⟩ := Prod.mk.inj (guardSome_eq_some.mp hst).2
      rfl
    | getNumber | version | owner | UPGRADE_INTERFACE_VERSION =>
      obtain ⟨rfl, -⟩ := Prod.mk.inj (Option.some.inj hst)
      rfl
    | unknown => cases hst
    | upgradeTo | upgradeToAndCall => exact absurd trivial hc

/-- All implementations are inert. -/
def AllInert (w : World) : Prop := ∀ a v, w.code a = some (.Box v) → Inert (w.storage a)

theorem Deployed.allInert {code : Code} {st : Storage} (h : Deployed a code st w w')
    (hst : (∃ v, code = .Box v) → Inert st) (hw : AllInert w) : AllInert w' := by
  intro b v hb
  rcases eq_or_ne b a with rfl | hne
  · rw [h.code] at hb
    rw [h.storage]
    exact hst ⟨v, Option.some.inj hb⟩
  · rw [(h.others b hne).1] at hb
    rw [(h.others b hne).2]
    exact hw b v hb

theorem allInert_newBox {v : Version} (h : newBox E v a w = .ok w') (hw : AllInert w) :
    AllInert w' :=
  (deployed_of_newBox h).allInert (fun _ => ⟨rfl, rfl, rfl, rfl⟩) hw

theorem allInert_newERC1967Proxy {implementation : Address}
    (h : newERC1967Proxy E a implementation w = .ok w') (hw : AllInert w) : AllInert w' :=
  (deployed_of_newERC1967Proxy h).allInert (by simp) hw

/-- A call writes the storage of its target only, and for a box itself that is the number. -/
theorem allInert_call (hsender : sender ≠ 0) (h : call E sender p c w = .ok (w', r))
    (hw : AllInert w) : AllInert w' := by
  intro b v hb
  have hwithin := within_call h
  rw [hwithin.code] at hb
  rcases eq_or_ne b p with rfl | hne
  · have hinert := hw b v hb
    obtain ⟨n, rfl⟩ := hinert.call hb hsender h
    rw [storage_write_self]
    exact ⟨hinert.implementation, hinert.initialized, hinert.initializing, hinert.owner⟩
  · rw [hwithin.storage b hne]
    exact hw b v hb

/-- Calls do not come from the zero address. -/
def Action.Real (b : Action) : Prop := ∀ sender target c, b.call? = some (sender, target, c) →
  sender ≠ 0

/-- Every step keeps all implementations inert. -/
theorem allInert_step {b : Action} (hb : b.Real) (hw : AllInert w) : AllInert (step E w b) := by
  cases b with
  | deployBox box proxy =>
    refine settle_induction hw fun w' h => ?_
    obtain ⟨w₁, hbox, hproxy⟩ := bind_eq_ok.mp h
    exact allInert_newERC1967Proxy hproxy (allInert_newBox hbox hw)
  | newBox v a => exact settle_induction hw fun w' h => allInert_newBox h hw
  | newProxy a implementation =>
    exact settle_induction hw fun w' h => allInert_newERC1967Proxy h hw
  | newForeign a st =>
    exact settle_induction hw fun w' h => (deployed_of_deploy h).allInert (by simp) hw
  | upgradeBox sender proxy box =>
    refine settle_induction hw fun w' h => ?_
    obtain ⟨x, hx, rfl⟩ := map_eq_ok.mp h
    exact allInert_call (hb _ _ _ rfl) hx hw
  | call sender target c =>
    refine settle_induction hw fun w' h => ?_
    obtain ⟨x, hx, rfl⟩ := map_eq_ok.mp h
    exact allInert_call (hb _ _ _ rfl) hx hw

/-- **Implementations are inert.** Whatever has been deployed and called, code of others included,
a `BoxV1` or `BoxV2` itself has no owner and was never initialized or upgraded, and a call of it
changes nothing but its own number. -/
theorem implementation_inert {bs : List Action} {v : Version}
    (halong : Along (step E) (fun _ b => b.Real) World.empty bs)
    (hbox : (run (step E) World.empty bs).code a = some (.Box v)) :
    Inert ((run (step E) World.empty bs).storage a) ∧
    ∀ sender c w' r, sender ≠ 0 → call E sender a c (run (step E) World.empty bs) = .ok (w', r) →
      ∃ n, w' = (run (step E) World.empty bs).write a
        { (run (step E) World.empty bs).storage a with number := n } := by
  have hall : AllInert (run (step E) World.empty bs) :=
    run_invariant (fun _ _ hb hw => allInert_step hb hw) halong nofun
  exact ⟨hall a v hbox, fun sender c w' r hsender hok => (hall a v hbox).call hbox hsender hok⟩

/-- Somebody tries to initialize a box itself, and somebody writes to it. -/
def sampleDirect : List Action :=
  [.newBox .V2 3, .call 9 3 .initialize_, .call 7 3 (.setNumber 8)]

theorem implementation_inert_sample :
    Inert ((run (step sampleLibraries) World.empty sampleDirect).storage 3) := by
  have halong : Along (step sampleLibraries) (fun _ b => b.Real) World.empty sampleDirect :=
    ⟨nofun, by rintro _ _ _ ⟨⟩; decide, by rintro _ _ _ ⟨⟩; decide, trivial⟩
  exact (implementation_inert (v := .V2) halong (by decide)).1

end Upgrades

end UpdraftContracts

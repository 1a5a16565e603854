import UpdraftContracts.Evm.Erc20
import UpdraftContracts.Upgrades.Box

/-!
# What calls and deployments of boxes do

A call writes to one storage, that of the contract it is made to, and a deployment to none that
there was. On the storage it runs on, a box that upgrades nothing computes `Storage.call`.

## Main results

* `execute_eq_ok_of_not_isUpgrade`, `execute_upgradeTo_eq_ok`, `execute_upgradeToAndCall_eq_ok` —
  what a call of a box has checked and what it returns
* `within_call` — a call changes one storage and no code
* `step_cases` — all that an action can do
-/

namespace UpdraftContracts

open Evm

namespace Upgrades

variable {E : Libraries} {sender self __self p a : Address} {c : Calldata} {w w' : World}
  {r : Return}

/-! ## Calls change one storage -/

/-- Nothing but the storage of `p` has changed. -/
structure Within (p : Address) (w w' : World) : Prop where
  code : w'.code = w.code
  storage : ∀ q ≠ p, w'.storage q = w.storage q

theorem Within.refl : Within self w w := ⟨rfl, fun _ _ => rfl⟩

theorem Within.trans {w₁ : World} (h : Within self w w₁) (h' : Within self w₁ w') :
    Within self w w' :=
  ⟨h'.code.trans h.code, fun q hq => (h'.storage q hq).trans (h.storage q hq)⟩

theorem within_write (st : Storage) : Within self w (w.write self st) :=
  ⟨rfl, fun _ hq => Function.update_of_ne hq _ _⟩

@[simp] theorem storage_write_self (st : Storage) : (w.write self st).storage self = st :=
  Function.update_self _ _ _

@[simp] theorem code_write (st : Storage) : (w.write self st).code = w.code := rfl

/-- When a storage can be initialized, and what that does. -/
theorem initialize_eq_some {st st' : Storage} :
    initialize_ E sender st = some st' ↔
      st._initialized = 0 ∧ st._initializing = false ∧ sender ≠ 0 ∧
        st' = { st with _initialized := 1, _owner := sender } := by
  simp only [initialize_, E.initializer_eq_some, Option.bind_eq_bind, Option.bind_eq_some_iff,
    E.ownable_init_eq_some, E.uups_init_eq_some]
  refine and_congr_right fun _ => and_congr_right fun htop => ?_
  constructor
  · rintro ⟨_, ⟨_, ⟨-, hsender, rfl⟩, -, rfl⟩, rfl⟩
    exact ⟨hsender, by simp [htop]⟩
  · rintro ⟨hsender, rfl⟩
    exact ⟨_, ⟨_, ⟨trivial, hsender, rfl⟩, rfl, rfl⟩, by simp [htop]⟩

/-- What is needed of a new implementation, and nothing of the sender. -/
theorem upgradeTo_eq_ok :
    upgradeTo E self __self a w = .ok w' ↔
      self ≠ __self ∧ (w.storage self).implementation = __self ∧
      callProxiableUUID E self a w = some .implementationSlot ∧ w.code a ≠ none ∧
      w' = w.write self { w.storage self with implementation := a } := by
  simp only [upgradeTo, _authorizeUpgrade, bind_eq_ok, ofCallee_eq_ok, pure_eq_ok,
    E.upgradeTo_eq_some, Option.isSome_iff_ne_none]
  constructor
  · rintro ⟨_, ⟨hself, himplementation, -, huuid, hcode, rfl⟩, rfl⟩
    exact ⟨hself, himplementation, huuid, hcode, rfl⟩
  · rintro ⟨hself, himplementation, huuid, hcode, rfl⟩
    exact ⟨_, ⟨hself, himplementation, trivial, huuid, hcode, rfl⟩, rfl⟩

/-- Code of others writes where it is told to. -/
theorem within_execute_of_not_box (hcode : ∀ v, w.code __self ≠ some (.Box v))
    (h : execute E sender self c __self w = .ok (w', r)) : Within self w w' := by
  unfold execute at h
  split at h
  · obtain ⟨rfl, -⟩ := Prod.mk.inj (pure_eq_ok.mp h)
    exact .refl
  · contradiction
  · simp only [bind_eq_ok, pure_eq_ok, ofCallee_eq_ok, Prod.exists, Prod.mk.injEq] at h
    obtain ⟨st, _, -, rfl, -⟩ := h
    exact within_write st
  · next v hv => exact absurd hv (hcode v)

/-- An upgrade with a call is an upgrade and then the call, of the new implementation. -/
theorem execute_upgradeToAndCall_eq_ok {v : Version} {data : Calldata}
    (hv : w.code __self = some (.Box v)) :
    execute E sender self (.upgradeToAndCall a data) __self w = .ok (w', r) ↔
      ∃ w₁, upgradeTo E self __self a w = .ok w₁ ∧
        ∃ r₁, execute E sender self data a w₁ = .ok (w', r₁) ∧ r = .void := by
  rw [execute]
  simp only [hv, bind_eq_ok, pure_eq_ok, Prod.exists, Prod.mk.injEq]
  constructor
  · rintro ⟨w₁, hupgrade, _, r₁, hdata, rfl, rfl⟩
    exact ⟨w₁, hupgrade, r₁, hdata, rfl⟩
  · rintro ⟨w₁, hupgrade, r₁, hdata, rfl⟩
    exact ⟨w₁, hupgrade, w', r₁, hdata, rfl, rfl⟩

/-- What a call of a box that upgrades nothing does to the storage it runs on. -/
def Storage.call (E : Libraries) (v : Version) (sender : Address) (direct : Bool) (st : Storage) :
    Calldata → Option (Storage × Return)
  | .initialize_ =>
    guardSome (st._initialized = 0 ∧ st._initializing = false ∧ sender ≠ 0)
      ({ st with _initialized := 1, _owner := sender }, .void)
  | .setNumber newNumber => guardSome (v = .V2) ({ st with number := newNumber }, .void)
  | .getNumber => some (st, .uint256 st.number)
  | .version => some (st, .uint256 v.number)
  | .owner => some (st, .address st._owner)
  | .transferOwnership newOwner =>
    guardSome (sender = st._owner ∧ newOwner ≠ 0) ({ st with _owner := newOwner }, .void)
  | .renounceOwnership => guardSome (sender = st._owner) ({ st with _owner := 0 }, .void)
  | .UPGRADE_INTERFACE_VERSION => some (st, .string E.UPGRADE_INTERFACE_VERSION)
  | .proxiableUUID => guardSome (direct = true) (st, .implementationSlot)
  | .upgradeTo _ => none
  | .upgradeToAndCall _ _ => none
  | .unknown _ => none

/-- The calls that replace the implementation. -/
def Calldata.IsUpgrade : Calldata → Prop
  | .upgradeTo _ => True
  | .upgradeToAndCall _ _ => True
  | _ => False

/-- A function of a base contract that succeeds under one condition, with one result. -/
theorem writeBack_eq_ok {x : Option Storage} {q : Prop} [Decidable q] {st₁ : Storage}
    (hx : ∀ st, x = some st ↔ q ∧ st = st₁) :
    (do let st ← ofCallee x; return (w.write self st, .void) : Exec Error (World × Return))
        = .ok (w', r) ↔
      ∃ st, guardSome q (st₁, Return.void) = some (st, r) ∧ w' = w.write self st := by
  simp only [bind_eq_ok, pure_eq_ok, ofCallee_eq_ok, guardSome_eq_some, Prod.mk.injEq, hx]
  constructor
  · rintro ⟨_, ⟨hq, rfl⟩, rfl, rfl⟩
    exact ⟨_, ⟨hq, rfl, rfl⟩, rfl⟩
  · rintro ⟨_, ⟨hq, rfl, rfl⟩, rfl⟩
    exact ⟨_, ⟨hq, rfl⟩, rfl, rfl⟩

/-- **What boxes do**, when they upgrade nothing. -/
theorem execute_eq_ok_of_not_isUpgrade {v : Version} (hv : w.code __self = some (.Box v))
    (hc : ¬ c.IsUpgrade) :
    execute E sender self c __self w = .ok (w', r) ↔
      ∃ st, (w.storage self).call E v sender (self = __self) c = some (st, r) ∧
        w' = w.write self st := by
  have hsame : w.write self (w.storage self) = w := by simp [World.write]
  cases c with
  | initialize_ =>
    simp only [execute, hv]
    exact writeBack_eq_ok fun st => by rw [initialize_eq_some, and_assoc, and_assoc]
  | setNumber n =>
    cases v with
    | V1 => simp [execute, hv, Storage.call]
    | V2 =>
      simp only [execute, hv, pure_eq_ok, setNumber, Storage.call, guardSome_eq_some,
        Prod.mk.injEq, true_and]
      constructor
      · rintro ⟨rfl, rfl⟩
        exact ⟨_, ⟨rfl, rfl⟩, rfl⟩
      · rintro ⟨_, ⟨rfl, rfl⟩, rfl⟩
        exact ⟨rfl, rfl⟩
  | getNumber | version | owner | UPGRADE_INTERFACE_VERSION =>
    simp only [execute, hv, pure_eq_ok, Storage.call, Option.some.injEq, Prod.mk.injEq, E.owner_eq]
    constructor
    · rintro ⟨rfl, rfl⟩
      exact ⟨_, ⟨rfl, rfl⟩, hsame.symm⟩
    · rintro ⟨_, ⟨rfl, rfl⟩, rfl⟩
      exact ⟨hsame, rfl⟩
  | transferOwnership newOwner =>
    simp only [execute, hv]
    exact writeBack_eq_ok fun st => by rw [E.transferOwnership_eq_some, and_assoc]
  | renounceOwnership =>
    simp only [execute, hv]
    exact writeBack_eq_ok fun st => E.renounceOwnership_eq_some
  | proxiableUUID =>
    simp only [execute, hv, bind_eq_ok, pure_eq_ok, ofCallee_eq_ok, E.proxiableUUID_eq_some,
      Storage.call, guardSome_eq_some, Prod.mk.injEq, decide_eq_true_eq]
    constructor
    · rintro ⟨_, ⟨hdirect, rfl⟩, rfl, rfl⟩
      exact ⟨_, ⟨hdirect, rfl, rfl⟩, hsame.symm⟩
    · rintro ⟨_, ⟨hdirect, rfl, rfl⟩, rfl⟩
      exact ⟨_, ⟨hdirect, rfl⟩, hsame, rfl⟩
  | unknown data => simp [execute, hv, Storage.call]
  | upgradeTo | upgradeToAndCall => exact absurd trivial hc

/-- An upgrade without a call does nothing but that. -/
theorem execute_upgradeTo_eq_ok {v : Version} (hv : w.code __self = some (.Box v)) :
    execute E sender self (.upgradeTo a) __self w = .ok (w', r) ↔
      upgradeTo E self __self a w = .ok w' ∧ r = .void := by
  simp only [execute, hv, bind_eq_ok, pure_eq_ok, Prod.mk.injEq]
  constructor
  · rintro ⟨_, hupgrade, rfl, rfl⟩
    exact ⟨hupgrade, rfl⟩
  · rintro ⟨hupgrade, rfl⟩
    exact ⟨_, hupgrade, rfl, rfl⟩

/-- **Frame.** Whatever code runs, it writes to one storage and changes no code. -/
theorem within_execute (h : execute E sender self c __self w = .ok (w', r)) :
    Within self w w' := by
  induction c generalizing __self w r with
  | upgradeToAndCall a data ih =>
    by_cases hcode : ∃ v, w.code __self = some (.Box v)
    · obtain ⟨v, hv⟩ := hcode
      obtain ⟨w₁, hupgrade, r₁, hdata, -⟩ := (execute_upgradeToAndCall_eq_ok hv).mp h
      obtain ⟨-, -, -, -, rfl⟩ := upgradeTo_eq_ok.mp hupgrade
      exact (within_write _).trans (ih hdata)
    · exact within_execute_of_not_box (fun v hv => hcode ⟨v, hv⟩) h
  | upgradeTo a =>
    by_cases hcode : ∃ v, w.code __self = some (.Box v)
    · obtain ⟨v, hv⟩ := hcode
      obtain ⟨-, -, -, -, rfl⟩ := upgradeTo_eq_ok.mp ((execute_upgradeTo_eq_ok hv).mp h).1
      exact within_write _
    · exact within_execute_of_not_box (fun v hv => hcode ⟨v, hv⟩) h
  | _ =>
    by_cases hcode : ∃ v, w.code __self = some (.Box v)
    · obtain ⟨v, hv⟩ := hcode
      obtain ⟨st, -, rfl⟩ := (execute_eq_ok_of_not_isUpgrade hv id).mp h
      exact within_write st
    · exact within_execute_of_not_box (fun v hv => hcode ⟨v, hv⟩) h

/-- A transaction writes to the storage of the contract it is sent to. -/
theorem within_call (h : call E sender p c w = .ok (w', r)) : Within p w w' := by
  unfold call at h
  split at h
  all_goals exact within_execute h

/-! ## Deployments -/

/-- There is a new contract at `a`, and nothing else has changed. -/
structure Deployed (a : Address) (code : Code) (st : Storage) (w w' : World) : Prop where
  fresh : w.code a = none
  code : w'.code a = some code
  storage : w'.storage a = st
  others : ∀ q ≠ a, w'.code q = w.code q ∧ w'.storage q = w.storage q

theorem deployed_of_deploy {code : Code} {st : Storage} (h : deploy a code st w = .ok w') :
    Deployed a code st w w' := by
  simp only [deploy, bind_eq_ok, revertIf_eq_ok, pure_eq_ok, not_not] at h
  obtain ⟨-, hfree, rfl⟩ := h
  exact ⟨hfree, Function.update_self _ _ _, Function.update_self _ _ _,
    fun q hq => ⟨Function.update_of_ne hq _ _, Function.update_of_ne hq _ _⟩⟩

theorem deployed_of_newBox {v : Version} (h : newBox E v a w = .ok w') :
    Deployed a (.Box v) { emptyStorage with _initialized := uint64Max } w w' := by
  simp only [newBox, E.disableInitializers_empty, bind_eq_ok, ofCallee_eq_ok,
    Option.some.injEq] at h
  obtain ⟨_, rfl, hdeploy⟩ := h
  exact deployed_of_deploy hdeploy

theorem deployed_of_newERC1967Proxy {implementation : Address}
    (h : newERC1967Proxy E a implementation w = .ok w') :
    Deployed a .ERC1967Proxy { emptyStorage with implementation := implementation } w w' := by
  simp only [newERC1967Proxy, bind_eq_ok, ofCallee_eq_ok, E.newProxy_eq_some] at h
  obtain ⟨_, ⟨-, rfl⟩, hdeploy⟩ := h
  exact deployed_of_deploy hdeploy

/-- What was there is still there. -/
def Extends (w w' : World) : Prop :=
  ∀ q, w.code q ≠ none → w'.code q = w.code q ∧ w'.storage q = w.storage q

theorem Deployed.extends {code : Code} {st : Storage} (h : Deployed a code st w w') :
    Extends w w' := by
  intro q hq
  refine h.others q ?_
  rintro rfl
  exact hq h.fresh

theorem extends_deployBox {box : Address} (h : deployBox E box p w = .ok w') : Extends w w' := by
  obtain ⟨w₁, hbox, hproxy⟩ := bind_eq_ok.mp h
  intro q hq
  obtain ⟨hcode, hstorage⟩ := (deployed_of_newBox hbox).extends q hq
  obtain ⟨hcode', hstorage'⟩ := (deployed_of_newERC1967Proxy hproxy).extends q (by rwa [hcode])
  exact ⟨hcode'.trans hcode, hstorage'.trans hstorage⟩

/-- The call that an action makes. -/
def Action.call? : Action → Option (Address × Address × Calldata)
  | .call sender target c => some (sender, target, c)
  | .upgradeBox sender proxy box => some (sender, proxy, .upgradeTo box)
  | _ => none

/-- An action makes new contracts or calls one. -/
theorem step_cases (E : Libraries) (w : World) (b : Action) :
    b.call? = none ∧ Extends w (step E w b) ∨
      ∃ sender target c, b.call? = some (sender, target, c) ∧
        step E w b = settle w (Prod.fst <$> call E sender target c w) := by
  have hrefl : Extends w w := fun q _ => ⟨rfl, rfl⟩
  cases b with
  | deployBox box proxy =>
    exact Or.inl ⟨rfl, settle_induction hrefl fun w' h => extends_deployBox h⟩
  | newBox v a =>
    exact Or.inl ⟨rfl, settle_induction hrefl fun w' h => (deployed_of_newBox h).extends⟩
  | newProxy a implementation =>
    exact Or.inl ⟨rfl, settle_induction hrefl fun w' h => (deployed_of_newERC1967Proxy h).extends⟩
  | newForeign a st =>
    exact Or.inl ⟨rfl, settle_induction hrefl fun w' h => (deployed_of_deploy h).extends⟩
  | upgradeBox sender proxy newBox => exact Or.inr ⟨sender, proxy, _, rfl, rfl⟩
  | call sender target c => exact Or.inr ⟨sender, target, c, rfl, rfl⟩

end Upgrades

end UpdraftContracts

import UpdraftContracts.Evm.Reentrancy

/-!
# Calls with work left to do

A call that hands over control may have more to do afterwards, in whatever state it then finds. Such
a call is suspended in between. Here runs of such calls are described, with the trees of
`Evm.Reentrancy` for what others do meanwhile. If the contract that was called reverts, the call
reverts with it.

No invariant holds at all points of such a run: a suspended call has done half of its work. What can
be said of it is a relation `R` between the states before and after whatever others do. To show that
every run keeps to `R` it is enough to look at single calls, and what happens while a call is
suspended can be taken to keep to `R` already.

## Main results

* `Guarantees.exec` — if every call keeps to a relation, so does every run
-/

namespace Evm

variable {σ γ ι ε : Type}

/-- How far a call gets before it needs another contract, and what it does then. -/
inductive Stage (ε σ : Type) where
  /-- The call is over. -/
  | returned (s : σ)
  /-- The call hands over control. When it gets it back, it goes on from the state it finds. -/
  | suspended (s : σ) (resume : σ → Exec ε σ)

/-- The end of a call. While it is suspended, others do `inner`, and the contract it called returns
or reverts. -/
def Stage.finish (inner : σ → σ) (returns : Bool) : Stage ε σ → Exec ε σ
  | returned s => .ok s
  | suspended s resume => if returns then resume (inner s) else .error .callee

namespace Hooks

variable (start : σ → ι → Exec ε (Stage ε σ))

/-- The state after one call of the system. -/
def complete (a : ι) (inner : σ → σ) (returns : Bool) (s : σ) : σ :=
  settle s (start s a >>= Stage.finish inner returns)

/-- The state that others leave when they give back control. -/
def exec : Calls ι → σ → σ
  | .done, s => s
  | .call a inner returns rest, s => exec rest (complete start a (exec inner) returns s)
  | .other inner returns rest, s => exec rest (if returns then exec inner s else s)

/-- Every call keeps to `R`, as long as what happens while it is suspended does. -/
structure Guarantees (R : σ → σ → Prop) : Prop where
  refl (s : σ) : R s s
  trans {s₁ s₂ s₃ : σ} : R s₁ s₂ → R s₂ s₃ → R s₁ s₃
  returned {s s' : σ} {a : ι} : start s a = .ok (.returned s') → R s s'
  resumed {s s₁ s₂ s₃ : σ} {a : ι} {resume : σ → Exec ε σ} :
    start s a = .ok (.suspended s₁ resume) → R s₁ s₂ → resume s₂ = .ok s₃ → R s s₃

variable {start} {R : σ → σ → Prop}

/-- A call with hooks keeps the guarantee, whatever its receiver does. -/
theorem Guarantees.complete (h : Guarantees start R) {inner : σ → σ} (hinner : ∀ s, R s (inner s))
    (a : ι) (returns : Bool) (s : σ) : R s (complete start a inner returns s) := by
  refine settle_induction (h.refl s) fun s' hs' => ?_
  obtain ⟨stage, hstart, hfinish⟩ := bind_eq_ok.mp hs'
  cases stage with
  | returned s₁ =>
    obtain rfl := Except.ok.inj hfinish
    exact h.returned hstart
  | suspended s₁ resume =>
    cases returns with
    | true => exact h.resumed hstart (hinner s₁) hfinish
    | false => cases hfinish

/-- **Runs with suspended calls.** -/
theorem Guarantees.exec (h : Guarantees start R) (c : Calls ι) (s : σ) :
    R s (exec start c s) := by
  induction c generalizing s with
  | done => exact h.refl s
  | call a inner returns rest ihInner ihRest =>
    exact h.trans (h.complete ihInner a returns s) (ihRest _)
  | other inner returns rest ihInner ihRest =>
    refine h.trans ?_ (ihRest _)
    split
    · exact ihInner s
    · exact h.refl s

/-! ## Histories -/

/-- The same system with a history that every call adds to when it is over. -/
def recording (start : σ → ι → Exec ε (Stage ε σ)) (record : σ → ι → γ → γ) (x : σ × γ) (a : ι) :
    Exec ε (Stage ε (σ × γ)) := do
  match ← start x.1 a with
  | .returned s => return .returned (s, record x.1 a x.2)
  | .suspended s resume =>
    return .suspended (s, x.2) fun y => do return (← resume y.1, record x.1 a y.2)

/-- A guarantee about a state with a record needs what a call returns, and what it resumes to. -/
theorem guarantees_recording {start : σ → ι → Exec ε (Stage ε σ)} {record : σ → ι → γ → γ}
    {R : σ × γ → σ × γ → Prop} (refl : ∀ x, R x x)
    (trans : ∀ x y z, R x y → R y z → R x z)
    (returned : ∀ s g a s', start s a = .ok (.returned s') → R (s, g) (s', record s a g))
    (resumed : ∀ s g a s₁ resume s₂ g₂ s₃, start s a = .ok (.suspended s₁ resume) →
      R (s₁, g) (s₂, g₂) → resume s₂ = .ok s₃ → R (s, g) (s₃, record s a g₂)) :
    Guarantees (recording start record) R where
  refl := refl
  trans := trans _ _ _
  returned {x x' a} h := by
    obtain ⟨stage, hstart, hstage⟩ := bind_eq_ok.mp h
    cases stage with
    | returned s =>
      cases pure_eq_ok.mp hstage
      exact returned x.1 x.2 a s hstart
    | suspended s resume => cases pure_eq_ok.mp hstage
  resumed {x x₁ x₂ x₃ a resume} h hR hresume := by
    obtain ⟨stage, hstart, hstage⟩ := bind_eq_ok.mp h
    cases stage with
    | returned s => cases pure_eq_ok.mp hstage
    | suspended s resume =>
      cases pure_eq_ok.mp hstage
      obtain ⟨s₃, hs₃, hx₃⟩ := bind_eq_ok.mp hresume
      obtain rfl := pure_eq_ok.mp hx₃
      exact resumed x.1 x.2 a s resume x₂.1 x₂.2 s₃ hstart hR hs₃

end Hooks

end Evm

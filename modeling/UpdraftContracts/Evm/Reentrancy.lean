import Mathlib.Algebra.Order.Group.Nat
import Mathlib.Algebra.Order.BigOperators.Group.List
import UpdraftContracts.Evm.Run

/-!
# Re-entrant calls

A contract that calls another one hands over control. Before its own call is over the other
contract can call it again, and so can every contract that one calls. Here such runs are described
once, for contracts that keep to one discipline: what a call does to the state, it has done when it
hands over control. All that is left to do then is to look whether the other contract reverted.

`start` says how far a call gets by itself. What happens while others have control is a tree,
`Calls`: they call the system, which may hand over control again, and they call each other. A call
that reverts takes back everything since it began, the calls made from inside it included.

The points of a run are the states in which control is outside the system: between calls, and
whenever a call has handed it over.

## Main results

* `Preserves.exec`, `Preserves.points` — what every call preserves up to where it hands over control
  holds at the end of every run and at all of its points
* `Calls.points_tag` — the same with the knowledge of how the other contracts end
-/

namespace Evm

variable {σ τ γ ι ε : Type}

/-- How far a call gets before it needs another contract. -/
inductive Progress (ε σ : Type) where
  /-- The call is over. -/
  | returned (s : σ)
  /-- The call has done its work and hands over control. It returns if the other contract returns;
  if that one reverts, the call ends with `failure`. -/
  | handsOver (s : σ) (failure : Exec ε σ)

namespace Progress

/-- The state that the call has brought about by itself. -/
def state : Progress ε σ → σ
  | returned s => s
  | handsOver s _ => s

/-- The same call, seen in a larger system. -/
def map (f : σ → τ) : Progress ε σ → Progress ε τ
  | returned s => returned (f s)
  | handsOver s failure => handsOver (f s) (f <$> failure)

/-- `P` holds where the call returns, where it hands over control, and where it ends if the other
contract reverts. -/
def Forall (P : σ → Prop) : Progress ε σ → Prop
  | returned s => P s
  | handsOver s failure => P s ∧ ∀ s', failure = .ok s' → P s'

/-- A call whose failure its caller ignores. The caller goes on from `s₀`, in which it made it. -/
def caught (s₀ : σ) : Exec ε (Progress ε σ) → Progress ε σ
  | .ok (returned s) => returned s
  | .ok (handsOver s failure) => handsOver s (.ok (settle s₀ failure))
  | .error _ => returned s₀

/-- The same call, once it is known how the other contract ends: if that one returns, it does not
matter what would have been otherwise. -/
def ending (returns : Bool) : Progress ε σ → Progress ε σ
  | returned s => returned s
  | handsOver s failure => handsOver s (if returns then .error .callee else failure)

/-- The end of a call. While it has handed over control, others do `inner`, and the contract it
called returns or reverts. -/
def finish (inner : σ → σ) (returns : Bool) : Progress ε σ → Exec ε σ
  | returned s => .ok s
  | handsOver s failure => if returns then .ok (inner s) else failure

theorem Forall.imp {P Q : σ → Prop} {p : Progress ε σ} (h : p.Forall P) (himp : ∀ s, P s → Q s) :
    p.Forall Q := by
  cases p with
  | returned s => exact himp s h
  | handsOver s failure => exact ⟨himp s h.1, fun s' h' => himp s' (h.2 s' h')⟩

theorem forall_map {P : τ → Prop} {f : σ → τ} {p : Progress ε σ} :
    (p.map f).Forall P ↔ p.Forall fun s => P (f s) := by
  cases p with
  | returned s => exact Iff.rfl
  | handsOver s failure =>
    refine and_congr Iff.rfl ⟨fun h s' hs' => h (f s') (map_eq_ok.mpr ⟨s', hs', rfl⟩), ?_⟩
    intro h t ht
    obtain ⟨s', hs', rfl⟩ := map_eq_ok.mp ht
    exact h s' hs'

theorem finish_ending (inner : σ → σ) (returns : Bool) (p : Progress ε σ) :
    (p.ending returns).finish inner returns = p.finish inner returns := by
  cases p with
  | returned s => rfl
  | handsOver s failure => cases returns <;> rfl

/-- A call that reverts with the contract it calls. -/
theorem forall_handsOver_error {P : σ → Prop} {s : σ} {e : Revert ε} :
    (handsOver s (.error e)).Forall P ↔ P s :=
  ⟨And.left, fun h => ⟨h, fun _ habs => nomatch habs⟩⟩

/-- A call that goes on from `s₀` if the contract it calls reverts. -/
theorem forall_handsOver_ok {P : σ → Prop} {s s₀ : σ} :
    (handsOver s (.ok s₀ : Exec ε σ)).Forall P ↔ P s ∧ P s₀ := by
  refine and_congr Iff.rfl ⟨fun h => h s₀ rfl, fun h s' hs' => ?_⟩
  obtain rfl := Except.ok.inj hs'
  exact h

end Progress

/-- The state in which a call hands over control, if it does. -/
def handover : Exec ε (Progress ε σ) → Option σ
  | .ok (.handsOver s _) => some s
  | _ => none

/-- Control is handed over by a call that goes through that far. -/
theorem handover_eq_some {x : Exec ε (Progress ε σ)} {s : σ} :
    handover x = some s ↔ ∃ failure, x = .ok (.handsOver s failure) := by
  cases x with
  | error e => simp [handover]
  | ok p => cases p <;> simp [handover]

/-- What others do while they have control. -/
inductive Calls (ι : Type) where
  | done
  /-- A call of the system. Should it hand over control, `inner` happens then, and the contract it
  called returns or reverts. -/
  | call (a : ι) (inner : Calls ι) (returns : Bool) (rest : Calls ι)
  /-- A call of a contract outside the system, which does `inner` and returns or reverts. -/
  | other (inner : Calls ι) (returns : Bool) (rest : Calls ι)

namespace Calls

variable (start : σ → ι → Exec ε (Progress ε σ))

/-- The state after one call of the system. -/
def complete (a : ι) (inner : σ → σ) (returns : Bool) (s : σ) : σ :=
  settle s (start s a >>= Progress.finish inner returns)

/-- The state that others leave when they give back control. -/
def exec : Calls ι → σ → σ
  | done, s => s
  | call a inner returns rest, s => rest.exec (complete start a inner.exec returns s)
  | other inner returns rest, s => rest.exec (if returns then inner.exec s else s)

/-- The states in which control is outside the system. -/
def points : Calls ι → σ → List σ
  | done, s => [s]
  | call a inner returns rest, s =>
    s :: ((handover (start s a)).elim [] inner.points
      ++ rest.points (complete start a (inner.exec start) returns s))
  | other inner returns rest, s =>
    inner.points s ++ rest.points (if returns then inner.exec start s else s)

/-- Every call is admissible in the state it is made in. -/
def Along (ok : σ → ι → Prop) : Calls ι → σ → Prop
  | done, _ => True
  | call a inner returns rest, s =>
    ok s a ∧ (∀ s₁, handover (start s a) = some s₁ → inner.Along ok s₁) ∧
      rest.Along ok (complete start a (inner.exec start) returns s)
  | other inner returns rest, s =>
    inner.Along ok s ∧ rest.Along ok (if returns then inner.exec start s else s)

end Calls

/-- Calls made one after another. Whoever is handed control does nothing with it. -/
def Calls.ofList : List ι → Calls ι
  | [] => .done
  | a :: as => .call a .done true (ofList as)

theorem Calls.along_ofList {start : σ → ι → Exec ε (Progress ε σ)} {ok : σ → ι → Prop}
    {as : List ι} (h : ∀ a ∈ as, ∀ s, ok s a) {s : σ} : (ofList as).Along start ok s := by
  induction as generalizing s with
  | nil => exact trivial
  | cons a as ih =>
    refine ⟨h a (List.mem_cons_self ..) s, fun _ _ => trivial, ?_⟩
    exact ih fun b hb => h b (List.mem_cons_of_mem _ hb)

/-- A condition that every call meets is met along every run. -/
theorem Calls.along_of_forall {start : σ → ι → Exec ε (Progress ε σ)} {ok : σ → ι → Prop}
    (h : ∀ s a, ok s a) (c : Calls ι) (s : σ) : c.Along start ok s := by
  induction c generalizing s with
  | done => exact trivial
  | call a inner returns rest ihInner ihRest => exact ⟨h s a, fun s₁ _ => ihInner s₁, ihRest _⟩
  | other inner returns rest ihInner ihRest => exact ⟨ihInner s, ihRest _⟩

/-- The end of a run is one of its points. -/
theorem Calls.exec_mem_points (start : σ → ι → Exec ε (Progress ε σ)) (c : Calls ι) (s : σ) :
    c.exec start s ∈ c.points start s := by
  induction c generalizing s with
  | done => exact List.mem_singleton_self s
  | call a inner returns rest _ ih =>
    exact List.mem_cons_of_mem _ (List.mem_append_right _ (ih _))
  | other inner returns rest _ ih => exact List.mem_append_right _ (ih _)

theorem Calls.Along.imp {start : σ → ι → Exec ε (Progress ε σ)} {ok ok' : σ → ι → Prop}
    (himp : ∀ s a, ok s a → ok' s a) {c : Calls ι} {s : σ} (h : c.Along start ok s) :
    c.Along start ok' s := by
  induction c generalizing s with
  | done => exact trivial
  | call a inner returns rest ihInner ihRest =>
    obtain ⟨hcall, hinner, hrest⟩ := h
    exact ⟨himp s a hcall, fun s₁ hover => ihInner (hinner s₁ hover), ihRest hrest⟩
  | other inner returns rest ihInner ihRest => exact ⟨ihInner h.1, ihRest h.2⟩

/-- Every admissible call preserves `P` up to where it hands over control. -/
def Preserves (start : σ → ι → Exec ε (Progress ε σ)) (ok : σ → ι → Prop) (P : σ → Prop) : Prop :=
  ∀ ⦃s a p⦄, ok s a → P s → start s a = .ok p → p.Forall P

namespace Preserves

variable {start : σ → ι → Exec ε (Progress ε σ)} {ok : σ → ι → Prop} {P : σ → Prop} {s s₁ : σ}
  {a : ι} {inner : σ → σ} {returns : Bool}

/-- At the point where control is handed over, the invariant holds. -/
theorem of_handover (h : Preserves start ok P) (hok : ok s a) (hs : P s)
    (hover : handover (start s a) = some s₁) : P s₁ := by
  obtain ⟨failure, hstart⟩ := handover_eq_some.mp hover
  exact (h hok hs hstart).1

/-- A call with others nested in it keeps the invariant if those do. -/
theorem complete (h : Preserves start ok P) (hok : ok s a) (hs : P s)
    (hinner : ∀ s₁, handover (start s a) = some s₁ → P (inner s₁)) :
    P (Calls.complete start a inner returns s) := by
  refine settle_induction hs fun s' hx => ?_
  obtain ⟨p, hstart, hfinish⟩ := bind_eq_ok.mp hx
  have hp := h hok hs hstart
  cases p with
  | returned s₁ =>
    obtain rfl : s₁ = s' := by simpa [Progress.finish] using hfinish
    exact hp
  | handsOver s₁ failure =>
    cases returns with
    | true =>
      obtain rfl : inner s₁ = s' := by simpa [Progress.finish] using hfinish
      exact hinner s₁ (by rw [hstart]; rfl)
    | false => exact hp.2 s' hfinish

/-- **Invariants of re-entrant runs, at the end.** -/
theorem exec (h : Preserves start ok P) (c : Calls ι) (hok : c.Along start ok s) (hs : P s) :
    P (c.exec start s) := by
  induction c generalizing s with
  | done => exact hs
  | call a inner returns rest ihInner ihRest =>
    obtain ⟨hcall, hokInner, hokRest⟩ := hok
    refine ihRest hokRest (h.complete hcall hs fun s₁ hover => ?_)
    exact ihInner (hokInner s₁ hover) (h.of_handover hcall hs hover)
  | other inner returns rest ihInner ihRest =>
    obtain ⟨hokInner, hokRest⟩ := hok
    refine ihRest hokRest ?_
    split
    · exact ihInner hokInner hs
    · exact hs

/-- **Invariants of re-entrant runs, at every point.** -/
theorem points (h : Preserves start ok P) (c : Calls ι) (hok : c.Along start ok s) (hs : P s) :
    ∀ s' ∈ c.points start s, P s' := by
  induction c generalizing s with
  | done => simpa [Calls.points] using hs
  | call a inner returns rest ihInner ihRest =>
    obtain ⟨hcall, hokInner, hokRest⟩ := hok
    have hrest : P (Calls.complete start a (inner.exec start) returns s) :=
      h.complete hcall hs fun s₁ hover =>
        h.exec inner (hokInner s₁ hover) (h.of_handover hcall hs hover)
    intro s' hmem
    rcases List.mem_cons.mp hmem with rfl | hmem
    · exact hs
    rcases List.mem_append.mp hmem with hmem | hmem
    · cases hover : handover (start s a) with
      | none =>
        rw [hover] at hmem
        exact absurd hmem (by simp)
      | some s₁ =>
        rw [hover] at hmem
        exact ihInner (hokInner s₁ hover) (h.of_handover hcall hs hover) s' hmem
    · exact ihRest hokRest hrest s' hmem
  | other inner returns rest ihInner ihRest =>
    obtain ⟨hokInner, hokRest⟩ := hok
    intro s' hmem
    rcases List.mem_append.mp hmem with hmem | hmem
    · exact ihInner hokInner hs s' hmem
    · refine ihRest hokRest ?_ s' hmem
      split
      · exact h.exec inner hokInner hs
      · exact hs

end Preserves

/-! ## How calls end

What a run preserves may depend on how the contracts end that are handed control. In `Calls` this
is not part of the call. `tag` makes it one, without a change to the run. -/

/-- Every call, together with how the contract ends that it hands control to. -/
def Calls.tag : Calls ι → Calls (ι × Bool)
  | done => done
  | call a inner returns rest => call (a, returns) inner.tag returns rest.tag
  | other inner returns rest => other inner.tag returns rest.tag

/-- The system with calls of this kind. -/
def ending (start : σ → ι → Exec ε (Progress ε σ)) (s : σ) (a : ι × Bool) :
    Exec ε (Progress ε σ) := do
  let p ← start s a.1
  return p.ending a.2

section Ending

variable (start : σ → ι → Exec ε (Progress ε σ))

theorem handover_ending (s : σ) (a : ι) (returns : Bool) :
    handover (ending start s (a, returns)) = handover (start s a) := by
  rw [ending]
  cases start s a with
  | error e => rfl
  | ok p => cases p <;> rfl

theorem complete_ending (a : ι) (inner : σ → σ) (returns : Bool) (s : σ) :
    Calls.complete (ending start) (a, returns) inner returns s
      = Calls.complete start a inner returns s := by
  rw [Calls.complete, Calls.complete, ending]
  cases start s a with
  | error e => rfl
  | ok p => exact congrArg (settle s) (Progress.finish_ending inner returns p)

/-- It is the same run with the endings known in advance. -/
theorem Calls.exec_tag (c : Calls ι) : c.tag.exec (ending start) = c.exec start := by
  induction c with
  | done => rfl
  | call a inner returns rest ihInner ihRest =>
    funext s
    rw [tag, exec, exec, ihInner, ihRest, complete_ending]
  | other inner returns rest ihInner ihRest =>
    funext s
    rw [tag, exec, exec, ihInner, ihRest]

theorem Calls.points_tag (c : Calls ι) : c.tag.points (ending start) = c.points start := by
  induction c with
  | done => rfl
  | call a inner returns rest ihInner ihRest =>
    funext s
    rw [tag, points, points, ihInner, ihRest, exec_tag, complete_ending, handover_ending]
  | other inner returns rest ihInner ihRest =>
    funext s
    rw [tag, points, points, ihInner, ihRest, exec_tag]

end Ending

/-! ## Histories -/

/-- The same system with a history that every call adds to, from the state it was made in and the
one it has brought about. A call that reverts leaves none. -/
def tracing (start : σ → ι → Exec ε (Progress ε σ)) (record : σ → ι → σ → γ → γ) (s : σ × γ)
    (a : ι) : Exec ε (Progress ε (σ × γ)) := do
  let p ← start s.1 a
  return p.map fun s' => (s', record s.1 a s' s.2)

theorem handover_tracing {start : σ → ι → Exec ε (Progress ε σ)} {record : σ → ι → σ → γ → γ}
    {s : σ} {g : γ} {a : ι} {y : σ × γ} (h : handover (tracing start record (s, g) a) = some y) :
    ∃ failure, start s a = .ok (.handsOver y.1 failure) ∧ y.2 = record s a y.1 g := by
  obtain ⟨failure, hfailure⟩ := handover_eq_some.mp h
  obtain ⟨p, hp, hmap⟩ := bind_eq_ok.mp hfailure
  have hmap := pure_eq_ok.mp hmap
  cases p with
  | returned s' => cases hmap
  | handsOver s' f =>
    cases hmap
    exact ⟨f, hp, rfl⟩

/-- What a record that sees both states has to satisfy. -/
theorem preserves_tracing {start : σ → ι → Exec ε (Progress ε σ)} {record : σ → ι → σ → γ → γ}
    {ok : σ × γ → ι → Prop} {P : σ × γ → Prop}
    (h : ∀ s g a p, ok (s, g) a → P (s, g) → start s a = .ok p →
      p.Forall fun s' => P (s', record s a s' g)) :
    Preserves (tracing start record) ok P := by
  rintro ⟨s, g⟩ a p hok hs hp
  obtain ⟨q, hq, hmap⟩ := bind_eq_ok.mp hp
  obtain rfl := pure_eq_ok.mp hmap
  exact Progress.forall_map.mpr (h s g a q hok hs hq)

/-- The same system with a history that every call adds to. A call that reverts leaves none. -/
def recording (start : σ → ι → Exec ε (Progress ε σ)) (record : σ → ι → γ → γ) (s : σ × γ) (a : ι) :
    Exec ε (Progress ε (σ × γ)) := do
  let p ← start s.1 a
  return p.map fun s' => (s', record s.1 a s.2)

/-- What a record that sees the first state has to satisfy. -/
theorem preserves_recording {start : σ → ι → Exec ε (Progress ε σ)} {record : σ → ι → γ → γ}
    {ok : σ × γ → ι → Prop} {P : σ × γ → Prop}
    (h : ∀ s g a p, ok (s, g) a → P (s, g) → start s a = .ok p →
      p.Forall fun s' => P (s', record s a g)) :
    Preserves (recording start record) ok P := by
  have htracing : recording start record = tracing start fun s a _ g => record s a g := rfl
  rw [htracing]
  exact preserves_tracing h

/-- What is on record once only adds up to no more than all of what it is among. -/
theorem sum_map_le_of_nodup {l l' : List γ} (f : γ → ℕ) (hnodup : l.Nodup)
    (hsub : ∀ x ∈ l, x ∈ l') : (l.map f).sum ≤ (l'.map f).sum := by
  obtain ⟨l₁, hperm, hsublist⟩ := List.subperm_of_subset hnodup hsub
  rw [← (hperm.map f).sum_eq]
  exact (hsublist.map f).sum_le_sum fun _ _ => Nat.zero_le _

end Evm

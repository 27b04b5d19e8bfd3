/-
Module: Nihil.Library.Run
Layer: Library
Purpose: Runs of a system whose steps are a partial function: an action that the system does not allow ends
  the run. A property holds in every state of a run, or a condition on every step of it; `everyState_iff`
  proves that the two are the same thing from an invariant that the good steps keep and the others break.
Trusted boundary: none
Main exports: run, EveryState, EveryStep, EveryStep.cons, EveryState.last, everyState_of_everyStep,
  everyState_of_preserved, everyStep_congr, everyState_iff
-/
import Mathlib.Tactic.ByContra

namespace Nihil.Library

universe u v

variable {σ : Type u} {α : Type v} (step : α → σ → Option σ)

/-- The state at the end of the run of some actions, if all of them are allowed. -/
def run : List α → σ → Option σ
  | [], state => some state
  | action :: actions, state =>
      match step action state with
      | none => none
      | some after => run actions after

/-- The property holds in every state of the run of some actions. -/
def EveryState (property : σ → Prop) : List α → σ → Prop
  | [], state => property state
  | action :: actions, state =>
      property state ∧ ∀ after, step action state = some after → EveryState property actions after

/-- The condition holds of every step that the run of some actions takes. -/
def EveryStep (condition : σ → α → Prop) : List α → σ → Prop
  | [], _ => True
  | action :: actions, state =>
      ∀ after, step action state = some after → condition state action ∧ EveryStep condition actions after

/-- A system, and beside it what its states should be. -/
def lockstep {τ : Type v} (expected : α → τ → τ) (action : α) (state : σ × τ) : Option (σ × τ) :=
  (step action state.1).map fun after => (after, expected action state.2)

variable {step} {property invariant : σ → Prop} {condition : σ → α → Prop}

theorem EveryStep.cons {action : α} {actions : List α} {state after : σ}
    (taken : step action state = some after) (met : condition state action)
    (rest : EveryStep step condition actions after) :
    EveryStep step condition (action :: actions) state := by
  intro after' taken'
  cases taken.symm.trans taken'
  exact ⟨met, rest⟩

theorem EveryState.head {actions : List α} {state : σ} (every : EveryState step property actions state) :
    property state := by
  cases actions with
  | nil => exact every
  | cons action actions => exact every.1

theorem EveryState.last {actions : List α} {state final : σ}
    (every : EveryState step property actions state) (ran : run step actions state = some final) :
    property final := by
  induction actions generalizing state with
  | nil =>
      cases ran
      exact every
  | cons action actions ih =>
      cases taken : step action state with
      | none => simp [run, taken] at ran
      | some after =>
          simp only [run, taken] at ran
          exact ih (every.2 after taken) ran

/-- An invariant that every step under the condition keeps holds in every state of such a run. -/
theorem everyState_of_everyStep
    (preserved : ∀ state action after, invariant state → condition state action →
      step action state = some after → invariant after)
    {actions : List α} {state : σ} (start : invariant state)
    (steps : EveryStep step condition actions state) : EveryState step invariant actions state := by
  induction actions generalizing state with
  | nil => exact start
  | cons action actions ih =>
      refine ⟨start, fun after taken => ?_⟩
      obtain ⟨met, rest⟩ := steps after taken
      exact ih (preserved state action after start met taken) rest

/-- An invariant that every step keeps holds in every state of every run. -/
theorem everyState_of_preserved
    (preserved : ∀ state action after, invariant state → step action state = some after → invariant after)
    {state : σ} (start : invariant state) (actions : List α) : EveryState step invariant actions state := by
  induction actions generalizing state with
  | nil => exact start
  | cons action actions ih =>
      exact ⟨start, fun after taken => ih (preserved state action after start taken)⟩

theorem EveryState.mono (implied : ∀ state, invariant state → property state) {actions : List α}
    {state : σ} (every : EveryState step invariant actions state) :
    EveryState step property actions state := by
  induction actions generalizing state with
  | nil => exact implied state every
  | cons action actions ih => exact ⟨implied state every.1, fun after taken => ih (every.2 after taken)⟩

/-- Two conditions on steps hold of the same runs if they agree in the states of an invariant that the steps
under the first one keep. -/
theorem everyStep_congr {condition' : σ → α → Prop}
    (preserved : ∀ state action after, invariant state → condition state action →
      step action state = some after → invariant after)
    (same : ∀ state action, invariant state → (condition state action ↔ condition' state action))
    {state : σ} (start : invariant state) (actions : List α) :
    EveryStep step condition actions state ↔ EveryStep step condition' actions state := by
  induction actions generalizing state with
  | nil => exact Iff.rfl
  | cons action actions ih =>
      constructor
      · intro every after taken
        obtain ⟨met, rest⟩ := every after taken
        exact ⟨(same state action start).mp met, (ih (preserved state action after start met taken)).mp rest⟩
      · intro every after taken
        obtain ⟨met', rest⟩ := every after taken
        have met := (same state action start).mpr met'
        exact ⟨met, (ih (preserved state action after start met taken)).mpr rest⟩

/-- The property holds in every state of a run exactly if the condition holds of every step: the steps
under the condition keep the invariant, and every other step breaks the property. -/
theorem everyState_iff (implied : ∀ state, invariant state → property state)
    (preserved : ∀ state action after, invariant state → condition state action →
      step action state = some after → invariant after)
    (broken : ∀ state action after, invariant state → ¬ condition state action →
      step action state = some after → ¬ property after)
    {state : σ} (start : invariant state) (actions : List α) :
    EveryState step property actions state ↔ EveryStep step condition actions state := by
  constructor
  · intro every
    induction actions generalizing state with
    | nil => trivial
    | cons action actions ih =>
        intro after taken
        have rest := every.2 after taken
        have met : condition state action := by
          by_contra unmet
          exact broken state action after start unmet taken rest.head
        exact ⟨met, ih (preserved state action after start met taken) rest⟩
  · intro steps
    exact (everyState_of_everyStep preserved start steps).mono implied

end Nihil.Library

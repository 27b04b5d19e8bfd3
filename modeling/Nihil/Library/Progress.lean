/-
Module: Nihil.Library.Progress
Layer: Library
Purpose: Systems that come to an end. A measure that every step lowers bounds the length of every run, and if
  a step is possible in every state that is not done, every run can be continued to a state that is.
Imports: Nihil.Library.Run
Trusted boundary: none
Main exports: run_append, restrict, run_restrict_iff, Keeps, run_keeps, Lowers, length_le_of_lowers, CanStep,
  completes
-/
import Mathlib.Data.List.Basic
import Nihil.Library.Run

namespace Nihil.Library

universe u v

variable {σ : Type u} {α : Type v} {step : α → σ → Option σ}

theorem run_append (actions actions' : List α) (state : σ) :
    run step (actions ++ actions') state = (run step actions state).bind (run step actions') := by
  induction actions generalizing state with
  | nil => rfl
  | cons action actions ih =>
      cases taken : step action state with
      | none => simp [run, taken]
      | some after => simpa [run, taken] using ih after

/-- A system in which only some of the actions are taken. -/
def restrict (allowed : α → Bool) (step : α → σ → Option σ) (action : α) (state : σ) : Option σ :=
  if allowed action then step action state else none

theorem restrict_eq_some_iff {allowed : α → Bool} {action : α} {state after : σ} :
    restrict allowed step action state = some after ↔
      allowed action = true ∧ step action state = some after := by
  rw [restrict]
  split_ifs with here
  · exact (and_iff_right here).symm
  · exact iff_of_false (fun nothing => nomatch nothing) fun both => here both.1

/-- Its runs are the runs of these actions. -/
theorem run_restrict_iff {allowed : α → Bool} {actions : List α} {state final : σ} :
    run (restrict allowed step) actions state = some final ↔
      (∀ action ∈ actions, allowed action = true) ∧ run step actions state = some final := by
  induction actions generalizing state with
  | nil => simp [run]
  | cons action actions ih =>
      rw [List.forall_mem_cons, run, run, restrict]
      by_cases here : allowed action = true
      · rw [if_pos here, and_iff_right here]
        cases step action state with
        | none => simp
        | some after => exact ih
      · simp [here]

/-- Every step keeps the invariant. -/
def Keeps (step : α → σ → Option σ) (invariant : σ → Prop) : Prop :=
  ∀ state action after, invariant state → step action state = some after → invariant after

variable {invariant : σ → Prop}

theorem run_keeps (keeps : Keeps step invariant) {actions : List α} {state final : σ}
    (start : invariant state) (ran : run step actions state = some final) : invariant final :=
  (everyState_of_preserved keeps start actions).last ran

/-- Every step lowers the measure. -/
def Lowers (step : α → σ → Option σ) (invariant : σ → Prop) (measure : σ → Nat) : Prop :=
  ∀ state action after, invariant state → step action state = some after → measure after < measure state

variable {measure : σ → Nat}

/-- The number of steps of a run is at most what the measure has come down by. -/
theorem length_le_of_lowers (keeps : Keeps step invariant) (lowers : Lowers step invariant measure)
    {actions : List α} {state final : σ} (start : invariant state)
    (ran : run step actions state = some final) : actions.length + measure final ≤ measure state := by
  induction actions generalizing state with
  | nil =>
      cases ran
      simp
  | cons action actions ih =>
      cases taken : step action state with
      | none => simp [run, taken] at ran
      | some after =>
          simp only [run, taken] at ran
          have rest := ih (keeps state action after start taken) ran
          have lower := lowers state action after start taken
          rw [List.length_cons]
          omega

/-- In a state that is not done, some step is possible. -/
def CanStep (step : α → σ → Option σ) (invariant done : σ → Prop) : Prop :=
  ∀ state, invariant state → done state ∨ ∃ action after, step action state = some after

/-- Every run can be continued until the system is done. -/
theorem completes {done : σ → Prop} (keeps : Keeps step invariant)
    (lowers : Lowers step invariant measure) (canStep : CanStep step invariant done) {state : σ}
    (start : invariant state) : ∃ actions final, run step actions state = some final ∧ done final := by
  induction bound : measure state using Nat.strongRecOn generalizing state with
  | ind bound' ih =>
      cases canStep state start with
      | inl finished => exact ⟨[], state, rfl, finished⟩
      | inr possible =>
          obtain ⟨action, after, taken⟩ := possible
          have lower := lowers state action after start taken
          obtain ⟨actions, final, ran, finished⟩ :=
            ih (measure after) (bound ▸ lower) (keeps state action after start taken) rfl
          refine ⟨action :: actions, final, ?_, finished⟩
          simpa [run, taken] using ran

end Nihil.Library

/-
Module: Nihil.Library.Span
Layer: Library
Purpose: The longest run of symbols of one class at the front of a sequence. A scan that reads such a run
  ends where the rest of the sequence is empty or begins with another symbol. The maximal runs of a sequence
  are what lies between its separators.
Trusted boundary: none
Main exports: Stops, stops_dropWhile, takeWhile_append_stops, dropWhile_append_stops, maximalRuns,
  maximalRuns_dropWhile, maximalRuns_run_append
-/
import Mathlib.Data.List.TakeWhile

namespace Nihil.Library

universe u

variable {χ : Type u} {inClass : χ → Bool}

/-- A text at which a scan over the symbols of a class stops. -/
def Stops (inClass : χ → Bool) (text : List χ) : Prop :=
  ∀ c ∈ text.head?, inClass c = false

@[simp] theorem stops_nil : Stops inClass [] := by
  simp [Stops]

@[simp] theorem stops_cons {c : χ} {text : List χ} : Stops inClass (c :: text) ↔ inClass c = false := by
  simp [Stops]

/-- A scan stops where it ended. -/
theorem stops_dropWhile (text : List χ) : Stops inClass (text.dropWhile inClass) := by
  intro c head
  cases rest : text.dropWhile inClass with
  | nil => simp [rest] at head
  | cons d tail =>
      have first := List.head?_dropWhile_not inClass text
      simp only [rest, List.head?_cons, Option.mem_def, Option.some.injEq] at head first
      simpa [head] using first

theorem Stops.takeWhile_eq {text : List χ} (stops : Stops inClass text) : text.takeWhile inClass = [] := by
  cases text with
  | nil => rfl
  | cons c text => simp [stops_cons.mp stops]

theorem Stops.dropWhile_eq {text : List χ} (stops : Stops inClass text) : text.dropWhile inClass = text := by
  cases text with
  | nil => rfl
  | cons c text => simp [stops_cons.mp stops]

variable {run text : List χ}

/-- A scan reads a run of its class that ends where the scan stops. -/
theorem takeWhile_append_stops (inside : ∀ c ∈ run, inClass c = true) (stops : Stops inClass text) :
    (run ++ text).takeWhile inClass = run := by
  rw [List.takeWhile_append_of_pos inside, stops.takeWhile_eq, List.append_nil]

/-- What it leaves is the text behind the run. -/
theorem dropWhile_append_stops (inside : ∀ c ∈ run, inClass c = true) (stops : Stops inClass text) :
    (run ++ text).dropWhile inClass = text := by
  rw [List.dropWhile_append_of_pos inside, stops.dropWhile_eq]

/-! ### Maximal runs -/

variable {separates : χ → Bool}

/-- The maximal runs of the symbols that do not separate, from left to right. -/
def maximalRuns (separates : χ → Bool) (text : List χ) : List (List χ) :=
  (text.splitOnP separates).filter fun run => !run.isEmpty

@[simp] theorem maximalRuns_nil : maximalRuns separates [] = [] := by
  simp [maximalRuns]

theorem maximalRuns_cons_separator {c : χ} (separator : separates c = true) (text : List χ) :
    maximalRuns separates (c :: text) = maximalRuns separates text := by
  simp [maximalRuns, List.splitOnP_cons_eq_if_modifyHead, separator]

/-- Separators at the front belong to no run. -/
@[simp] theorem maximalRuns_dropWhile (text : List χ) :
    maximalRuns separates (text.dropWhile separates) = maximalRuns separates text := by
  induction text with
  | nil => rfl
  | cons c text ih =>
      cases separator : separates c with
      | true => rw [List.dropWhile_cons_of_pos separator, ih, maximalRuns_cons_separator separator]
      | false => rw [List.dropWhile_cons_of_neg (by simp [separator])]

/-- A run that is followed by a separator or by nothing is the first one. -/
theorem maximalRuns_run_append (nonempty : run ≠ []) (inside : ∀ c ∈ run, separates c = false)
    (stops : Stops (fun c => !separates c) text) :
    maximalRuns separates (run ++ text) = run :: maximalRuns separates text := by
  cases text with
  | nil => simp [maximalRuns, List.splitOnP_eq_singleton inside, nonempty]
  | cons c text =>
      have separator : separates c = true := by simpa using stops
      rw [maximalRuns_cons_separator separator]
      simp [maximalRuns, List.splitOnP_append_cons_of_forall_mem inside c separator, nonempty]

end Nihil.Library

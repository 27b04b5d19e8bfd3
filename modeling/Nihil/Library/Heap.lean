/-
Module: Nihil.Library.Heap
Layer: Library
Purpose: The objects of one type in memory. A place is given out once and never means two objects, so that an
  access to an object that was destroyed is an access to an empty place. Two heaps are compared by what is at
  each place; how many places were given out does not matter.
Trusted boundary: none
Main exports: Heap, Heap.empty, Heap.create, Heap.put, Heap.cells_create, Heap.cells_put, Heap.ne_next_of_live,
  Heap.without, Heap.kept_of_without
-/
import Mathlib.Logic.Function.Basic
import Mathlib.Tactic.ByContra
import Mathlib.Tactic.SplitIfs

namespace Nihil.Library

universe u

/-- What is at each place, and the next place to give out. -/
structure Heap (α : Type u) where
  cells : Nat → Option α
  next : Nat
  fresh : ∀ place, next ≤ place → cells place = none

namespace Heap

variable {α : Type u}

def empty : Heap α where
  cells _ := none
  next := 0
  fresh _ _ := rfl

/-- A new object, at the next place. -/
def create (heap : Heap α) (object : α) : Heap α where
  cells := Function.update heap.cells heap.next (some object)
  next := heap.next + 1
  fresh place behind := by
    rw [Function.update_of_ne (Nat.ne_of_gt behind)]
    exact heap.fresh place (Nat.le_of_lt behind)

/-- Replace what is at a place that was given out: by another object, or by none where it is destroyed. -/
def put (heap : Heap α) (place : Nat) (content : Option α) : Heap α where
  cells := if place < heap.next then Function.update heap.cells place content else heap.cells
  next := heap.next
  fresh other behind := by
    split_ifs with given
    · rw [Function.update_of_ne (Nat.ne_of_gt (Nat.lt_of_lt_of_le given behind))]
      exact heap.fresh other behind
    · exact heap.fresh other behind

theorem lt_next_of_live {heap : Heap α} {place : Nat} {object : α} (live : heap.cells place = some object) :
    place < heap.next := by
  by_contra behind
  rw [heap.fresh place (Nat.le_of_not_lt behind)] at live
  cases live

theorem ne_next_of_live {heap : Heap α} {place : Nat} {object : α} (live : heap.cells place = some object) :
    place ≠ heap.next :=
  Nat.ne_of_lt (lt_next_of_live live)

theorem cells_next (heap : Heap α) : heap.cells heap.next = none := heap.fresh heap.next (Nat.le_refl _)

theorem cells_create (heap : Heap α) (object : α) :
    (heap.create object).cells = Function.update heap.cells heap.next (some object) := rfl

theorem cells_put {heap : Heap α} {place : Nat} {object : α} (live : heap.cells place = some object)
    (content : Option α) : (heap.put place content).cells = Function.update heap.cells place content :=
  if_pos (lt_next_of_live live)

/-! ### All but some places -/

/-- What is at each place but these. -/
def without (cells : Nat → Option α) (places : List Nat) (place : Nat) : Option α :=
  if place ∈ places then none else cells place

variable {cells after : Nat → Option α} {places places' : List Nat} {place : Nat}

theorem without_cons (cells : Nat → Option α) (place : Nat) (places : List Nat) :
    without cells (place :: places) = Function.update (without cells places) place none := by
  funext other
  by_cases here : other = place
  · simp [without, here]
  · simp [without, here]

theorem without_nil (cells : Nat → Option α) : without cells [] = cells := by
  funext place
  simp [without]

/-- What is at one of the places does not matter. -/
theorem without_update (member : place ∈ places) (content : Option α) :
    without (Function.update cells place content) places = without cells places := by
  funext other
  by_cases here : other = place
  · simp [without, here, member]
  · simp [without, here]

/-- An empty place may be one of them. -/
theorem without_of_empty (free : cells place = none) (places : List Nat) :
    without cells (place :: places) = without cells places := by
  rw [without_cons, Function.update_eq_self_iff]
  simp [without, free]

/-- What is at another place is still there, and that place is not one of those that come. -/
theorem kept_of_without (same : without after places' = without cells places) {object : α}
    (live : cells place = some object) (apart : place ∉ places) :
    after place = some object ∧ place ∉ places' := by
  have here : without after places' place = some object := by rw [same, without, if_neg apart, live]
  rw [without] at here
  split_ifs at here with member
  exact ⟨here, member⟩

end Heap

end Nihil.Library

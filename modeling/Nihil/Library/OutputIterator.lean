/-
Module: Nihil.Library.OutputIterator
Layer: Library
Purpose: Output iterators over a shared state. An iterator is a value of its own, which may hold the
  position it writes to; assigning through it changes the state and advancing it changes the iterator
  only. An algorithm that takes its iterator by value leaves the position of its caller's iterator where
  it was. For an appending iterator that makes no difference: every assignment adds to the contents,
  through whichever copy it goes.
Trusted boundary: none
Main exports: OutputIterator, OutputIterator.put, OutputIterator.putAll, OutputIterator.copy,
  AppendingIterator, AppendingIterator.contents_putAll, AppendingIterator.contents_copy, backInserter
-/
import Mathlib.Data.List.Basic

namespace Nihil.Library

universe u v w

/-- `*it = value` and `++it`. -/
structure OutputIterator (ι : Type u) (σ : Type v) (α : Type w) where
  assign : ι → α → σ → σ
  advance : ι → ι

namespace OutputIterator

variable {ι : Type u} {σ : Type v} {α : Type w}

/-- `*it++ = value`. -/
def put (out : OutputIterator ι σ α) (value : α) (cursor : ι × σ) : ι × σ :=
  (out.advance cursor.1, out.assign cursor.1 value cursor.2)

/-- Put one value after the other. -/
def putAll (out : OutputIterator ι σ α) (values : List α) (cursor : ι × σ) : ι × σ :=
  values.foldl (fun cursor value => out.put value cursor) cursor

theorem putAll_append (out : OutputIterator ι σ α) (first second : List α) (cursor : ι × σ) :
    out.putAll (first ++ second) cursor = out.putAll second (out.putAll first cursor) :=
  List.foldl_append

/-- An algorithm that copies values to an iterator it takes by value: the caller's iterator stays. -/
def copy (out : OutputIterator ι σ α) (values : List α) (cursor : ι × σ) : ι × σ :=
  (cursor.1, (out.putAll values cursor).2)

end OutputIterator

/-- An output iterator through which every assignment, whatever the iterator, appends to the contents. -/
structure AppendingIterator (ι : Type u) (σ : Type v) (α : Type w) extends OutputIterator ι σ α where
  contents : σ → List α
  contents_assign : ∀ it value state, contents (assign it value state) = contents state ++ [value]

namespace AppendingIterator

variable {ι : Type u} {σ : Type v} {α : Type w} (out : AppendingIterator ι σ α)

@[simp] theorem contents_put (value : α) (cursor : ι × σ) :
    out.contents (out.put value cursor).2 = out.contents cursor.2 ++ [value] :=
  out.contents_assign cursor.1 value cursor.2

@[simp] theorem contents_putAll (values : List α) (cursor : ι × σ) :
    out.contents (out.putAll values cursor).2 = out.contents cursor.2 ++ values := by
  induction values generalizing cursor with
  | nil => simp [OutputIterator.putAll]
  | cons value values ih =>
      have step : out.putAll (value :: values) cursor = out.putAll values (out.put value cursor) := rfl
      rw [step, ih, contents_put, List.append_assoc, List.singleton_append]

@[simp] theorem contents_copy (values : List α) (cursor : ι × σ) :
    out.contents (out.copy values cursor).2 = out.contents cursor.2 ++ values :=
  out.contents_putAll values cursor

end AppendingIterator

/-- The iterator that appends to a container; advancing it does nothing. -/
def backInserter (α : Type w) : AppendingIterator Unit (List α) α where
  assign := fun _ value container => container ++ [value]
  advance := id
  contents := id
  contents_assign := fun _ _ _ => rfl

end Nihil.Library

/-
Module: Nihil.Library.CStrings
Layer: Library
Purpose: Texts as C has them: blocks of memory with a terminator, and arrays of pointers to such blocks with a
  null pointer at the end. A reader that leaves a block or the array, or that follows a pointer to a block
  that is gone, has no result, and neither has a block that is freed twice.
Imports: Nihil.Library.Heap
Trusted boundary: none
Main exports: terminated, blockText, readArray, storeAll, freeAll, Reads, Stored, blockText_terminated,
  readArray_eq, storeAll_stored, freeAll_eq
-/
import Mathlib.Data.List.Forall2
import Nihil.Library.Heap

namespace Nihil.Library

universe u

variable {β : Type u} (zero : β)

/-! ### Storing and freeing -/

/-- A text with a terminator behind it. -/
def terminated (text : List β) : List β := text ++ [zero]

/-- Copies of some texts are stored one after the other, and pointers to them appended, until the memory for
`memory` of them is used up: whether all were stored, the pointers and the heap. -/
def storeAll : List (List β) → Nat → List (Option Nat) → Heap (List β) →
    Bool × List (Option Nat) × Heap (List β)
  | [], _, pointers, heap => (true, pointers, heap)
  | _ :: _, 0, pointers, heap => (false, pointers, heap)
  | text :: texts, memory + 1, pointers, heap =>
      storeAll texts memory (pointers ++ [some heap.next]) (heap.create (terminated zero text))

/-- Every block that is pointed to is freed. -/
def freeAll : List (Option Nat) → Heap (List β) → Option (Heap (List β))
  | [], heap => some heap
  | none :: pointers, heap => freeAll pointers heap
  | some place :: pointers, heap =>
      match heap.cells place with
      | none => none
      | some _ => freeAll pointers (heap.put place none)

variable {zero}

/-- Texts were stored at new places. -/
structure Stored (zero : β) (texts : List (List β)) (heap : Heap (List β)) (places : List Nat)
    (after : Heap (List β)) : Prop where
  distinct : places.Nodup
  behind : ∀ place ∈ places, heap.next ≤ place
  others : ∀ place, place ∉ places → after.cells place = heap.cells place
  blocks : List.Forall₂ (fun place text => after.cells place = some (terminated zero text)) places texts

/-- The texts for which there is memory are stored. -/
theorem storeAll_stored (texts : List (List β)) (memory : Nat) (pointers : List (Option Nat))
    (heap : Heap (List β)) :
    ∃ places after, storeAll zero texts memory pointers heap =
        (decide (texts.length ≤ memory), pointers ++ places.map some, after) ∧
      Stored zero (texts.take memory) heap places after := by
  induction texts generalizing memory pointers heap with
  | nil =>
      refine ⟨[], heap, ?_, List.nodup_nil, ?_, fun _ _ => rfl, ?_⟩
      · simp [storeAll]
      · exact fun place member => absurd member List.not_mem_nil
      · rw [List.take_nil]
        exact .nil
  | cons text texts ih =>
      cases memory with
      | zero =>
          refine ⟨[], heap, ?_, List.nodup_nil, ?_, fun _ _ => rfl, .nil⟩
          · simp [storeAll]
          · exact fun place member => absurd member List.not_mem_nil
      | succ memory =>
          obtain ⟨places, after, same, stored⟩ := ih memory (pointers ++ [some heap.next])
            (heap.create (terminated zero text))
          have unused : heap.next ∉ places := fun member =>
            Nat.not_succ_le_self heap.next (stored.behind heap.next member)
          refine ⟨heap.next :: places, after, ?_, List.nodup_cons.mpr ⟨unused, stored.distinct⟩, ?_, ?_, ?_⟩
          · rw [storeAll, same]
            simp
          · intro place member
            rcases List.mem_cons.mp member with rfl | later
            · exact Nat.le_refl _
            · exact Nat.le_of_succ_le (stored.behind place later)
          · intro place absent
            rw [List.mem_cons, not_or] at absent
            rw [stored.others place absent.2, Heap.cells_create, Function.update_of_ne absent.1]
          · apply List.Forall₂.cons
            · rw [stored.others _ unused, Heap.cells_create, Function.update_self]
            · exact stored.blocks

theorem Stored.free {texts : List (List β)} {heap after : Heap (List β)} {places : List Nat}
    (stored : Stored zero texts heap places after) {place : Nat} (member : place ∈ places) :
    heap.cells place = none :=
  heap.fresh place (stored.behind place member)

/-- Different blocks that are there can be freed, and no other block changes. -/
theorem freeAll_eq {places : List Nat} {heap : Heap (List β)} (distinct : places.Nodup)
    (live : ∀ place ∈ places, ∃ block, heap.cells place = some block) (rest : List (Option Nat)) :
    ∃ after, freeAll (places.map some ++ rest) heap = freeAll rest after ∧
      ∀ place, after.cells place = if place ∈ places then none else heap.cells place := by
  induction places generalizing heap with
  | nil => exact ⟨heap, rfl, fun place => (if_neg List.not_mem_nil).symm⟩
  | cons first places ih =>
      rw [List.nodup_cons] at distinct
      obtain ⟨block, found⟩ := live first List.mem_cons_self
      have left : ∀ place ∈ places, ∃ block, (heap.put first none).cells place = some block := by
        intro place member
        have other : place ≠ first := fun same => distinct.1 (same ▸ member)
        rw [Heap.cells_put found, Function.update_of_ne other]
        exact live place (List.mem_cons_of_mem _ member)
      obtain ⟨after, same, cells⟩ := ih distinct.2 left
      refine ⟨after, ?_, fun place => ?_⟩
      · rw [List.map_cons, List.cons_append, freeAll, found]
        exact same
      · rw [cells, Heap.cells_put found]
        by_cases here : place = first
        · rw [here, Function.update_self, if_pos List.mem_cons_self, ite_self]
        · rw [Function.update_of_ne here]
          simp [here]

/-! ### Reading -/

variable [DecidableEq β] (zero)

/-- What a reader of a block takes for its text, if there is a terminator. -/
def blockText (block : List β) : Option (List β) :=
  if zero ∈ block then some (block.takeWhile (· ≠ zero)) else none

/-- What a reader of an array of pointers finds up to the null pointer. -/
def readArray (heap : Heap (List β)) : List (Option Nat) → Option (List (List β))
  | [] => none
  | none :: _ => some []
  | some place :: pointers => do
      let block ← heap.cells place
      let text ← blockText zero block
      let texts ← readArray heap pointers
      return text :: texts

variable {zero}

/-- A text is read up to a terminator of its own. -/
theorem blockText_terminated (text : List β) :
    blockText zero (terminated zero text) = some (text.takeWhile (· ≠ zero)) := by
  have cut : (text ++ [zero]).takeWhile (· ≠ zero) = text.takeWhile (· ≠ zero) := by
    induction text with
    | nil => simp
    | cons first text ih =>
        rw [List.cons_append, List.takeWhile_cons, List.takeWhile_cons, ih]
  rw [blockText, terminated, if_pos (List.mem_append_right _ List.mem_cons_self), cut]

/-- A block at a place has a text. -/
def Reads (zero : β) (heap : Heap (List β)) (place : Nat) (text : List β) : Prop :=
  ∃ block, heap.cells place = some block ∧ blockText zero block = some text

theorem Reads.live {heap : Heap (List β)} {place : Nat} {text : List β} (reads : Reads zero heap place text) :
    ∃ block, heap.cells place = some block := by
  rcases reads with ⟨block, found, -⟩
  exact ⟨block, found⟩

/-- The texts at some places, when the heap did not change there. -/
theorem reads_congr {heap after : Heap (List β)} {places : List Nat} {texts : List (List β)}
    (reads : List.Forall₂ (Reads zero heap) places texts)
    (same : ∀ place ∈ places, after.cells place = heap.cells place) :
    List.Forall₂ (Reads zero after) places texts := by
  induction reads with
  | nil => exact .nil
  | @cons place text places texts first rest ih =>
      rcases first with ⟨block, found, taken⟩
      apply List.Forall₂.cons
      · exact ⟨block, (same place List.mem_cons_self).trans found, taken⟩
      · exact ih fun other member => same other (List.mem_cons_of_mem _ member)

theorem reads_live {heap : Heap (List β)} {places : List Nat} {texts : List (List β)}
    (reads : List.Forall₂ (Reads zero heap) places texts) {place : Nat} (member : place ∈ places) :
    ∃ block, heap.cells place = some block := by
  induction reads with
  | nil => cases member
  | cons first rest ih =>
      rcases List.mem_cons.mp member with rfl | later
      · exact first.live
      · exact ih later

/-- The array of pointers to some texts is read as these texts. -/
theorem readArray_eq {heap : Heap (List β)} {places : List Nat} {texts : List (List β)}
    (reads : List.Forall₂ (Reads zero heap) places texts) :
    readArray zero heap (places.map some ++ [none]) = some texts := by
  induction reads with
  | nil => rfl
  | cons first rest ih =>
      rcases first with ⟨block, found, taken⟩
      rw [List.map_cons, List.cons_append, readArray, found, ih]
      simp [taken]

theorem some_mem_pointers {places : List Nat} {place : Nat} :
    some place ∈ places.map some ++ [none] ↔ place ∈ places := by
  simp

/-- What was stored can be read, each text up to a terminator of its own. -/
theorem Stored.reads {texts : List (List β)} {heap after : Heap (List β)} {places : List Nat}
    (stored : Stored zero texts heap places after) :
    List.Forall₂ (Reads zero after) places (texts.map fun text => text.takeWhile (· ≠ zero)) := by
  have blocks := stored.blocks
  rw [List.forall₂_map_right_iff]
  apply blocks.imp
  intro place text found
  exact ⟨_, found, blockText_terminated text⟩

end Nihil.Library

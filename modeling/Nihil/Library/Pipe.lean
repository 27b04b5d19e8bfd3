/-
Module: Nihil.Library.Pipe
Layer: Library
Purpose: A pipe of a capacity: symbols are written behind those that are in it as far as there is room, and
  read from the front. What is read and what is left is always what was written.
Trusted boundary: none
Main exports: Pipe, Pipe.empty, Pipe.write, Pipe.drop, Pipe.write_eq_some_iff
-/
import Mathlib.Data.List.Basic

namespace Nihil.Library

universe u

variable {χ : Type u} {capacity : Nat}

/-- A pipe never holds more than its capacity. -/
@[ext]
structure Pipe (χ : Type u) (capacity : Nat) where
  buffer : List χ
  fits : buffer.length ≤ capacity

namespace Pipe

def empty : Pipe χ capacity := ⟨[], Nat.zero_le capacity⟩

@[simp] theorem buffer_empty : (empty : Pipe χ capacity).buffer = [] := rfl

/-- Writing as much as there is room for. -/
def write (self : Pipe χ capacity) (text : List χ) : Option (Pipe χ capacity) :=
  if room : self.buffer.length + text.length ≤ capacity then
    some ⟨self.buffer ++ text, by rw [List.length_append]; exact room⟩
  else none

/-- What is left behind some symbols that are read. -/
def drop (self : Pipe χ capacity) (count : Nat) : Pipe χ capacity :=
  ⟨self.buffer.drop count, Nat.le_trans (List.length_drop ▸ Nat.sub_le ..) self.fits⟩

@[simp] theorem buffer_drop (self : Pipe χ capacity) (count : Nat) :
    (self.drop count).buffer = self.buffer.drop count := rfl

theorem write_eq_some_iff {self after : Pipe χ capacity} {text : List χ} :
    self.write text = some after ↔ after.buffer = self.buffer ++ text := by
  unfold write
  split
  case isTrue room =>
    rw [Option.some.injEq, Pipe.ext_iff, eq_comm]
  case isFalse full =>
    constructor
    · intro nothing
      cases nothing
    · intro same
      have fits := after.fits
      rw [same, List.length_append] at fits
      exact absurd fits full

end Pipe

end Nihil.Library

/-
Module: Nihil.Library.DescriptorTable
Layer: Library
Purpose: The descriptor table of a process: which numbers are open and which open file each refers to.
  Opening takes the lowest free number, dup2 makes a number refer to the file of another one, closing frees
  a number. Every operation has one law, which says what each number refers to afterwards.
Trusted boundary: none
Main exports: DescriptorTable, get, lowestFree, openFile, dup2, close, get_openFile, get_dup2, get_close
-/
import Mathlib.Data.List.Basic

namespace Nihil.Library

universe u

/-- The entries from number 0 on; the numbers behind the last entry are free. -/
structure DescriptorTable (ω : Type u) where
  entries : List (Option ω)
deriving DecidableEq, Repr

namespace DescriptorTable

variable {ω : Type u}

/-- The open file a number refers to. -/
def get (table : DescriptorTable ω) (fd : Nat) : Option ω :=
  table.entries[fd]?.join

/-- Let a number refer to a file, or free it. -/
def put (table : DescriptorTable ω) (fd : Nat) (file : Option ω) : DescriptorTable ω :=
  { entries := (table.entries ++ List.replicate (fd + 1 - table.entries.length) none).set fd file }

/-- The lowest number that is not open. -/
def lowestFree (table : DescriptorTable ω) : Nat :=
  table.entries.findIdx Option.isNone

/-- Open a file: the number it gets, and the table afterwards. -/
def openFile (table : DescriptorTable ω) (file : ω) : Nat × DescriptorTable ω :=
  (table.lowestFree, table.put table.lowestFree (some file))

/-- `close`. Closing a number that is not open changes nothing. -/
def close (table : DescriptorTable ω) (fd : Nat) : DescriptorTable ω :=
  table.put fd none

/-- `dup2`. It fails if the source is not open, and does nothing if source and target are the same; an open
target is closed first. -/
def dup2 (table : DescriptorTable ω) (source target : Nat) : Option (DescriptorTable ω) :=
  match table.get source with
  | none => none
  | some file => if source = target then some table else some ((table.close target).put target (some file))

@[simp] theorem get_put (table : DescriptorTable ω) (fd : Nat) (file : Option ω) (other : Nat) :
    (table.put fd file).get other = if other = fd then file else table.get other := by
  have created : fd < (table.entries ++ List.replicate (fd + 1 - table.entries.length) none).length := by
    simp only [List.length_append, List.length_replicate]
    omega
  simp only [get, put]
  split_ifs with hit
  · subst hit
    rw [List.getElem?_set_self created]
    rfl
  · rw [List.getElem?_set_ne (Ne.symm hit), List.getElem?_append]
    split_ifs with inside
    · rfl
    · rw [List.getElem?_replicate, List.getElem?_eq_none (Nat.le_of_not_lt inside)]
      split_ifs <;> rfl

theorem get_lowestFree (table : DescriptorTable ω) : table.get table.lowestFree = none := by
  unfold get lowestFree
  by_cases found : table.entries.findIdx Option.isNone < table.entries.length
  · have free : (table.entries[table.entries.findIdx Option.isNone]).isNone = true :=
      List.findIdx_getElem
    rw [List.getElem?_eq_getElem found, Option.isNone_iff_eq_none.mp free]
    rfl
  · rw [List.getElem?_eq_none (Nat.le_of_not_lt found)]
    rfl

@[simp] theorem get_close (table : DescriptorTable ω) (fd other : Nat) :
    (table.close fd).get other = if other = fd then none else table.get other :=
  table.get_put fd none other

/-- A number that was open is not the one a file is opened at. -/
theorem get_openFile (table : DescriptorTable ω) (file : ω) (other : Nat) :
    (table.openFile file).2.get other =
      if other = (table.openFile file).1 then some file else table.get other :=
  table.get_put table.lowestFree (some file) other

/-- After a dup2 the target refers to what the source refers to, and every other number to what it did. -/
theorem get_dup2 {table after : DescriptorTable ω} {source target : Nat}
    (done : table.dup2 source target = some after) (other : Nat) :
    after.get other = if other = target then table.get source else table.get other := by
  unfold dup2 at done
  cases found : table.get source with
  | none => simp [found] at done
  | some file =>
      simp only [found] at done
      split_ifs at done with same
      · cases done
        split_ifs with hit
        · rw [hit, ← same, found]
        · rfl
      · cases done
        rw [get_put, get_close]
        split_ifs <;> rfl

end DescriptorTable

end Nihil.Library

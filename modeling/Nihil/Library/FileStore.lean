/-
Module: Nihil.Library.FileStore
Layer: Library
Purpose: Named files with contents, and the four changes a program makes to them through an open file at
  offset zero: opening with or without truncation, overwriting from the start, removing and renaming. A
  store is a partial map from names to contents; every change has a frame law (which names keep their
  contents) and an exact effect on the others.
Trusted boundary: none
Main exports: FileStore, FileStore.openForWriting, FileStore.overwrite, FileStore.remove,
  FileStore.rename, overwritten, overwritten_take_eq_iff
-/
import Mathlib.Data.List.Basic
import Mathlib.Logic.Function.Basic

namespace Nihil.Library

universe u v

/-- The contents of the files that exist. -/
abbrev FileStore (ν : Type u) (β : Type v) := ν → Option (List β)

/-- The content of a file after data was written over its beginning. -/
def overwritten {β : Type v} (data old : List β) : List β :=
  data ++ old.drop data.length

/-- Writing the first `count` elements of some data leaves exactly the data in the file if and only if the
file already held the rest of it from there on. -/
theorem overwritten_take_eq_iff {β : Type v} {data old : List β} {count : Nat}
    (bound : count ≤ data.length) :
    overwritten (data.take count) old = data ↔ old.drop count = data.drop count := by
  have size : (data.take count).length = count := by
    rw [List.length_take, Nat.min_eq_left bound]
  rw [overwritten, size]
  conv_lhs => rhs; rw [← List.take_append_drop count data]
  exact List.append_right_inj _

namespace FileStore

variable {ν : Type u} {β : Type v} [DecidableEq ν]

/-- Open a file for writing at its beginning; a file that does not exist is created. -/
def openForWriting (name : ν) (truncate : Bool) (store : FileStore ν β) : FileStore ν β :=
  Function.update store name (some (if truncate then [] else (store name).getD []))

/-- Write data over the beginning of a file. -/
def overwrite (name : ν) (data : List β) (store : FileStore ν β) : FileStore ν β :=
  Function.update store name ((store name).map (overwritten data))

/-- Remove a file. -/
def remove (name : ν) (store : FileStore ν β) : FileStore ν β :=
  Function.update store name none

/-- Give a file a new name, replacing the file that had it. -/
def rename (old new : ν) (store : FileStore ν β) : FileStore ν β :=
  Function.update (Function.update store old none) new (store old)

variable {name other : ν}

theorem openForWriting_of_ne (truncate : Bool) (store : FileStore ν β) (differs : other ≠ name) :
    store.openForWriting name truncate other = store other :=
  Function.update_of_ne differs _ _

theorem overwrite_of_ne (data : List β) (store : FileStore ν β) (differs : other ≠ name) :
    store.overwrite name data other = store other :=
  Function.update_of_ne differs _ _

theorem remove_of_ne (store : FileStore ν β) (differs : other ≠ name) :
    store.remove name other = store other :=
  Function.update_of_ne differs _ _

theorem openForWriting_self (truncate : Bool) (store : FileStore ν β) :
    store.openForWriting name truncate name =
      some (if truncate then [] else (store name).getD []) :=
  Function.update_self _ _ _

theorem overwrite_self (data : List β) (store : FileStore ν β) :
    store.overwrite name data name = (store name).map (overwritten data) :=
  Function.update_self _ _ _

theorem rename_new (old new : ν) (store : FileStore ν β) : store.rename old new new = store old :=
  Function.update_self _ _ _

end FileStore

end Nihil.Library

/-
Module: Nihil.Library.ColumnLayout
Layer: Library
Purpose: Text in columns. Rows are lists of cells of any length, a column is as wide as its widest cell,
  and a row is laid out with every cell but its last filled up to the width of its column. The last cell
  gets no filling behind it. A cell is never longer than its column is wide, so the offset at which a
  field starts depends on the widths of the columns in front of it and not on the row
  (`layoutRow_split`).
Trusted boundary: none
Main exports: Side, columnWidth, columnCount, padded, layoutRow, columnOffset, length_le_columnWidth,
  layoutRow_split
-/
import Mathlib.Data.List.Basic

namespace Nihil.Library

universe u

/-- The side of its column a cell is moved to. -/
inductive Side where
  | left
  | right
deriving DecidableEq, Repr

variable {α : Type u}

/-- The length of a cell of a row, zero if the row does not reach its column. -/
def cellLength (row : List (List α)) (column : Nat) : Nat :=
  (row[column]?.getD []).length

/-- The largest length in a column. -/
def columnWidth (rows : List (List (List α))) (column : Nat) : Nat :=
  (rows.map fun row => cellLength row column).foldr max 0

/-- The length of the longest row. -/
def columnCount (rows : List (List (List α))) : Nat :=
  (rows.map List.length).foldr max 0

/-- A cell filled up to a width. -/
def padded (blank : α) (side : Side) (width : Nat) (cell : List α) : List α :=
  match side with
  | .left => cell ++ List.replicate (width - cell.length) blank
  | .right => List.replicate (width - cell.length) blank ++ cell

/-- The last cell of a row, which is filled in front only. -/
def paddedLast (blank : α) (side : Side) (width : Nat) (cell : List α) : List α :=
  match side with
  | .left => cell
  | .right => List.replicate (width - cell.length) blank ++ cell

/-- The cells of a row from a column on, separated by one blank. -/
def layoutRow (blank : α) (sides : Nat → Side) (widths : Nat → Nat) : Nat → List (List α) → List α
  | _, [] => []
  | column, [cell] => paddedLast blank (sides column) (widths column) cell
  | column, cell :: cells =>
      padded blank (sides column) (widths column) cell ++
        blank :: layoutRow blank sides widths (column + 1) cells

/-- Where a column starts, counted from another one: the widths of the columns between them, and a blank
for each. -/
def columnOffset (widths : Nat → Nat) (start : Nat) : Nat → Nat
  | 0 => 0
  | count + 1 => widths start + 1 + columnOffset widths (start + 1) count

@[simp] theorem columnWidth_nil (column : Nat) :
    columnWidth ([] : List (List (List α))) column = 0 := rfl

@[simp] theorem columnWidth_cons (row : List (List α)) (rows : List (List (List α))) (column : Nat) :
    columnWidth (row :: rows) column = max (cellLength row column) (columnWidth rows column) := rfl

@[simp] theorem columnCount_cons (row : List (List α)) (rows : List (List (List α))) :
    columnCount (row :: rows) = max row.length (columnCount rows) := rfl

theorem cellLength_le_columnWidth {row : List (List α)} {rows : List (List (List α))}
    (member : row ∈ rows) (column : Nat) : cellLength row column ≤ columnWidth rows column := by
  induction rows with
  | nil => contradiction
  | cons first rows ih =>
      rcases List.mem_cons.mp member with rfl | later
      · exact Nat.le_max_left _ _
      · exact Nat.le_trans (ih later) (Nat.le_max_right _ _)

/-- No cell is longer than its column is wide. -/
theorem length_le_columnWidth {row : List (List α)} {rows : List (List (List α))} (member : row ∈ rows)
    {column : Nat} {cell : List α} (found : row[column]? = some cell) :
    cell.length ≤ columnWidth rows column := by
  have bound := cellLength_le_columnWidth member column
  rw [cellLength, found] at bound
  exact bound

theorem length_padded {blank : α} {side : Side} {width : Nat} {cell : List α}
    (fits : cell.length ≤ width) : (padded blank side width cell).length = width := by
  cases side <;> simp [padded] <;> omega

/-- The field of a row at a column starts at the offset of the column: filled up to the width of the
column if another cell follows, and filled in front only otherwise. -/
theorem layoutRow_split (blank : α) (sides : Nat → Side) (widths : Nat → Nat) (row : List (List α))
    (start count : Nat)
    (fits : ∀ column cell, row[column]? = some cell → cell.length ≤ widths (start + column))
    {cell : List α} (found : row[count]? = some cell) :
    ∃ before after,
      layoutRow blank sides widths start row =
        before ++
          (if count + 1 < row.length then
            padded blank (sides (start + count)) (widths (start + count)) cell
          else paddedLast blank (sides (start + count)) (widths (start + count)) cell) ++ after ∧
        before.length = columnOffset widths start count := by
  induction row generalizing start count with
  | nil => simp at found
  | cons first cells ih =>
      cases count with
      | zero =>
          cases found
          cases cells with
          | nil => exact ⟨[], [], by simp [layoutRow], rfl⟩
          | cons second cells =>
              exact ⟨[], blank :: layoutRow blank sides widths (start + 1) (second :: cells),
                by simp [layoutRow], rfl⟩
      | succ count =>
          cases cells with
          | nil => simp at found
          | cons second cells =>
              have later := ih (start + 1) count
                (fun column cell reaches => by
                  have bound := fits (column + 1) cell reaches
                  rwa [← Nat.add_assoc, Nat.add_right_comm] at bound)
                found
              obtain ⟨before, after, text, size⟩ := later
              have width : (padded blank (sides start) (widths start) first).length = widths start :=
                length_padded (fits 0 first rfl)
              refine ⟨padded blank (sides start) (widths start) first ++ blank :: before, after, ?_, ?_⟩
              · rw [layoutRow, text]
                · simp [Nat.add_right_comm, Nat.add_assoc]
                · simp
              · simp only [List.length_append, List.length_cons, width, size, columnOffset]
                omega

end Nihil.Library

/-
Module: Nihil.Core.TabulateOutput
Layer: Core
Purpose: basic_tabulate through any output iterator. Padding, separators and newlines are put through the
  iterator that is threaded by reference, but every cell is copied to it by value, and a newline always
  follows. So through an iterator whose copies have a position each, what is written arrives at successive
  positions only if there is nothing to copy (`basicTabulate_arrivesInPlace_iff`).
Imports: Nihil.Core.TabulateLayout, Nihil.Library.OutputProgram
Trusted boundary: none
Main exports: FieldSpec.outputs, tableOutputs, basicTabulate_eq_runOutputs, ArrivesInPlace, BlankTable,
  basicTabulate_arrivesInPlace_iff
-/
import Nihil.Core.TabulateLayout
import Nihil.Library.OutputProgram

namespace Nihil

open Nihil.Library

/-! ### What is done with the iterator -/

/-- What `field_spec::print` does with its iterator. -/
def FieldSpec.outputs (self : FieldSpec) (value : Str) (isLast : Bool) : List (Output Char) :=
  let padding := (List.replicate (sizeSub self.width value.length) ' ').map Output.put
  (if self.align = .right then padding else []) ++ [.copy value] ++
    (if !isLast ∧ self.align = .left then padding else [])

/-- Print the cells of one row, from cell `i` on. -/
def cellsOutputs (fieldAt : Nat → FieldSpec) : Nat → List Str → List (Output Char)
  | _, [] => []
  | i, value :: row =>
      (fieldAt i).outputs value row.isEmpty ++ (if !row.isEmpty then [.put ' '] else []) ++
        cellsOutputs fieldAt (i + 1) row

def rowOutputs (fieldAt : Nat → FieldSpec) (row : List Str) : List (Output Char) :=
  cellsOutputs fieldAt 0 row ++ [.put '\n']

def tableOutputs (fieldAt : Nat → FieldSpec) (data : List (List Str)) : List (Output Char) :=
  data.flatMap (rowOutputs fieldAt)

section

variable {ι σ : Type} (out : OutputIterator ι σ Char)

theorem print_eq_runOutputs (field : FieldSpec) (value : Str) (isLast : Bool) (cursor : ι × σ) :
    field.print value out isLast cursor = runOutputs out (field.outputs value isLast) cursor := by
  unfold FieldSpec.print FieldSpec.outputs
  cases field.align <;> cases isLast <;>
    simp [Output.run, runOutputs_map_put, -List.map_replicate]

/-- Printing cells keeps the fields, whatever the iterator. -/
theorem printCells_eq_runOutputs (row : List Str) (i : Nat) (table : TableSpec) (cursor : ι × σ) :
    (printCells out i row (table, cursor)).2 =
        runOutputs out (cellsOutputs table.fieldAt i row) cursor ∧
      (printCells out i row (table, cursor)).1.fieldAt = table.fieldAt := by
  induction row generalizing i table cursor with
  | nil => exact ⟨rfl, rfl⟩
  | cons value row ih =>
      have kept : (table.grow i).fieldAt = table.fieldAt := funext (table.fieldAt_grow i)
      rw [printCells, cellsOutputs, runOutputs_append, runOutputs_append, ← print_eq_runOutputs]
      simp only [kept]
      obtain ⟨printed, fields⟩ := ih (i + 1) (table.grow i)
        (if (!row.isEmpty) = true then
          out.put ' ' ((table.fieldAt i).print value out row.isEmpty cursor)
        else (table.fieldAt i).print value out row.isEmpty cursor)
      rw [printed, fields, kept]
      refine ⟨?_, rfl⟩
      cases row with
      | nil => rfl
      | cons next row => rfl

theorem printRow_eq_runOutputs (row : List Str) (state : TableSpec × ι × σ) :
    (printRow out row state).2 = runOutputs out (rowOutputs state.1.fieldAt row) state.2 ∧
      (printRow out row state).1.fieldAt = state.1.fieldAt := by
  obtain ⟨table, cursor⟩ := state
  obtain ⟨printed, fields⟩ := printCells_eq_runOutputs out row 0 table cursor
  refine ⟨?_, fields⟩
  rw [rowOutputs, runOutputs_append, ← printed]
  rfl

theorem printRows_eq_runOutputs (data : List (List Str)) (state : TableSpec × ι × σ) :
    (printRows out data state).2 = runOutputs out (tableOutputs state.1.fieldAt data) state.2 := by
  induction data generalizing state with
  | nil => rfl
  | cons row data ih =>
      obtain ⟨printed, fields⟩ := printRow_eq_runOutputs out row state
      have rest := ih (printRow out row state)
      rw [printed, fields] at rest
      rw [tableOutputs, List.flatMap_cons, runOutputs_append]
      exact rest

/-- For a valid spec basic_tabulate is a program over its iterator. -/
theorem basicTabulate_eq_runOutputs {β : Type} (format : β → Str) {spec : Str} {table : TableSpec}
    (valid : parseTableSpec spec = .ok table) (range : List (List β)) (cursor : ι × σ) :
    basicTabulate out format spec range cursor =
      .ok (runOutputs out (tableOutputs (measure format range table).1.fieldAt
        (tableLines table (range.map (List.map format)))) cursor) := by
  rw [basicTabulate, valid]
  simp only [printRows_eq_runOutputs]
  rw [tableLines_eq]

end

/-! ### What is copied -/

@[simp] theorem copiedOf_outputs (field : FieldSpec) (value : Str) (isLast : Bool) :
    copiedOf (field.outputs value isLast) = [value] := by
  unfold FieldSpec.outputs
  cases field.align <;> cases isLast <;> simp [-List.map_replicate]

theorem copiedOf_cellsOutputs (fieldAt : Nat → FieldSpec) (row : List Str) (i : Nat) :
    copiedOf (cellsOutputs fieldAt i row) = row := by
  induction row generalizing i with
  | nil => rfl
  | cons value row ih =>
      have separator : copiedOf (if !row.isEmpty then [Output.put ' '] else []) = [] := by
        cases row <;> rfl
      rw [cellsOutputs, copiedOf_append, copiedOf_append, copiedOf_outputs, separator, ih]
      rfl

/-- Every cell is copied. -/
theorem copiedOf_tableOutputs (fieldAt : Nat → FieldSpec) (data : List (List Str)) :
    copiedOf (tableOutputs fieldAt data) = data.flatten := by
  induction data with
  | nil => rfl
  | cons row data ih =>
      have newline : copiedOf [Output.put '\n'] = [] := rfl
      rw [tableOutputs, List.flatMap_cons, copiedOf_append, rowOutputs, copiedOf_append,
        copiedOf_cellsOutputs, newline, List.append_nil, List.flatten_cons]
      exact congrArg (row ++ ·) ih

/-- The last thing that is put is the newline of the last row. -/
theorem tableOutputs_concat (fieldAt : Nat → FieldSpec) (data : List (List Str)) (row : List Str) :
    tableOutputs fieldAt (data ++ [row]) =
      (tableOutputs fieldAt data ++ cellsOutputs fieldAt 0 row) ++ [.put '\n'] := by
  simp [tableOutputs, rowOutputs]

/-- A table keeps its place exactly if all its cells are empty. -/
theorem tableOutputs_keepsPlace_iff (fieldAt : Nat → FieldSpec) (data : List (List Str)) :
    (tableOutputs fieldAt data).Pairwise KeepsPlace ↔ ∀ row ∈ data, ∀ cell ∈ row, cell = [] := by
  rcases List.eq_nil_or_concat' data with rfl | ⟨data, row, rfl⟩
  · simp [tableOutputs]
  · rw [tableOutputs_concat, pairwise_keepsPlace_concat_put, copiedOf_append, copiedOf_tableOutputs,
      copiedOf_cellsOutputs]
    have all : data.flatten ++ row = (data ++ [row]).flatten := by simp
    rw [all]
    constructor
    · intro empty line member cell inside
      exact empty cell (List.mem_flatten.mpr ⟨line, member, inside⟩)
    · intro empty cell inside
      obtain ⟨line, member, inLine⟩ := List.mem_flatten.mp inside
      exact empty line member cell inLine

/-! ### Any output iterator -/

section

variable {β ι σ : Type} (out : PositionIterator ι σ Char) (format : β → Str) (spec : Str)
  (range : List (List β))

/-- basic_tabulate writes at successive positions the characters that it appends through
std::back_inserter, or throws for the spec through both. -/
def ArrivesInPlace : Prop :=
  match basicTabulate out.toOutputIterator format spec range (out.start, out.blank),
    basicTabulate (backInserter Char).toOutputIterator format spec range ((), []) with
  | .ok written, .ok appended =>
      out.contents written.2 =
        writeAt (fun _ => none) (out.position out.start out.blank) appended.2
  | .error thrown, .error expected => thrown = expected
  | _, _ => False

/-- Nothing is copied: no field has a name and every cell is formatted as the empty string. -/
def BlankTable : Prop :=
  ∀ table, parseTableSpec spec = .ok table →
    (∀ field ∈ table.fields, field.name = []) ∧ ∀ row ∈ range, ∀ cell ∈ row, format cell = []

theorem arrivesInPlace_iff_successive {table : TableSpec} (valid : parseTableSpec spec = .ok table) :
    ArrivesInPlace out format spec range ↔
      out.Successive (tableOutputs (measure format range table).1.fieldAt
        (tableLines table (range.map (List.map format)))) := by
  have appended := contents_runOutputs (backInserter Char)
    (tableOutputs (measure format range table).1.fieldAt
      (tableLines table (range.map (List.map format)))) ((), [])
  unfold ArrivesInPlace PositionIterator.Successive
  rw [basicTabulate_eq_runOutputs _ _ valid, basicTabulate_eq_runOutputs _ _ valid]
  have text : (runOutputs (backInserter Char).toOutputIterator
      (tableOutputs (measure format range table).1.fieldAt
        (tableLines table (range.map (List.map format)))) ((), [])).2 =
      textOf (tableOutputs (measure format range table).1.fieldAt
        (tableLines table (range.map (List.map format)))) := appended
  simp only [text]

/-- The header is blank exactly if no field of the spec has a name. -/
theorem tableLines_blank_iff (table : TableSpec) (cells : List (List Str)) :
    (∀ row ∈ tableLines table cells, ∀ cell ∈ row, cell = []) ↔
      (∀ field ∈ table.fields, field.name = []) ∧ ∀ row ∈ cells, ∀ cell ∈ row, cell = [] := by
  rw [tableLines, List.forall_mem_cons, List.forall_mem_map]
  apply and_congr_left
  intro _
  constructor
  · intro blank field member
    obtain ⟨column, inside, rfl⟩ := List.mem_iff_getElem.mp member
    have named := blank column (List.mem_range.mpr (Nat.lt_of_lt_of_le inside (Nat.le_max_left _ _)))
    rwa [TableSpec.fieldAt, List.getD_eq_getElem _ _ inside] at named
  · intro unnamed column _
    unfold TableSpec.fieldAt
    by_cases inside : column < table.fields.length
    · rw [List.getD_eq_getElem _ _ inside]
      exact unnamed _ (List.getElem_mem inside)
    · rw [List.getD_eq_default _ _ (Nat.le_of_not_lt inside)]

/-- basic_tabulate writes at successive positions what it appends through std::back_inserter exactly if
the copies of the iterator share their position or nothing is copied. -/
theorem basicTabulate_arrivesInPlace_iff :
    ArrivesInPlace out format spec range ↔ out.shared = true ∨ BlankTable format spec range := by
  cases parsed : parseTableSpec spec with
  | error err =>
      -- both throw before anything is written
      have blank : BlankTable format spec range := by
        intro table valid
        rw [parsed] at valid
        cases valid
      have thrown : ArrivesInPlace out format spec range := by
        simp only [ArrivesInPlace, basicTabulate, parsed]
      exact iff_of_true thrown (Or.inr blank)
  | ok table =>
      have blank : BlankTable format spec range ↔
          (∀ field ∈ table.fields, field.name = []) ∧ ∀ row ∈ range, ∀ cell ∈ row, format cell = [] := by
        constructor
        · intro nothing
          exact nothing table parsed
        · intro nothing other valid
          rw [parsed] at valid
          cases valid
          exact nothing
      rw [arrivesInPlace_iff_successive out format spec range parsed, PositionIterator.successive_iff,
        tableOutputs_keepsPlace_iff, tableLines_blank_iff, blank]
      simp only [List.forall_mem_map]

end

/-- A pointer: the newline is written over the cell in front of it. -/
theorem not_arrivesInPlace_pointer :
    ¬ ArrivesInPlace (PositionIterator.pointer Char) (id : Str → Str) [] [["a".toList]] := by
  have valid : parseTableSpec [] = .ok {} := by decide +kernel
  rw [arrivesInPlace_iff_successive _ _ _ _ valid]
  intro successive
  have cell := congrFun successive 1
  revert cell
  decide

end Nihil

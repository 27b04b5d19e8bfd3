/-
Module: Nihil.Core.TabulateLayout
Layer: Core
Purpose: What basic_tabulate writes through an appending iterator. Measuring only widens fields, so that a
  field ends up as wide as the longest of its name and its cells (`fieldAt_measure`); therefore no cell is
  longer than its field when it is printed, the padding is what is missing, and the rows come out as the
  column layout of the header and the cells.
Imports: Nihil.Core.Tabulate
Trusted boundary: none
Main exports: tableLines, tableText, fieldAt_measure, contents_print, contents_printRows,
  basicTabulate_layout
-/
import Mathlib.Data.List.GetD
import Nihil.Core.Tabulate

namespace Nihil

open Nihil.Library

/-! ### Fields -/

@[simp] theorem FieldSpec.ensureWidth_zero (field : FieldSpec) : field.ensureWidth 0 = field := by
  simp [FieldSpec.ensureWidth]

@[simp] theorem FieldSpec.ensureWidth_ensureWidth (field : FieldSpec) (first second : Nat) :
    (field.ensureWidth first).ensureWidth second = field.ensureWidth (max first second) := by
  simp [FieldSpec.ensureWidth, Nat.max_assoc]

namespace TableSpec

/-- Creating a field is not seen by `fieldAt`, since it is created as the default one. -/
@[simp] theorem fieldAt_grow (table : TableSpec) (fieldnr column : Nat) :
    (table.grow fieldnr).fieldAt column = table.fieldAt column := by
  unfold grow fieldAt
  split
  · by_cases inside : column < table.fields.length
    · rw [List.getD_append _ _ _ _ inside]
    · have beyond := Nat.le_of_not_lt inside
      rw [List.getD_append_right _ _ _ _ beyond, List.getD_eq_getElem?_getD,
        List.getElem?_getD_replicate_default_eq, List.getD_eq_default _ _ beyond]
  · rfl

theorem length_grow (table : TableSpec) (fieldnr : Nat) :
    (table.grow fieldnr).fields.length = max table.fields.length (fieldnr + 1) := by
  unfold grow
  split
  · simp only [List.length_append, List.length_replicate]
    omega
  · omega

theorem fieldAt_ensureWidth (table : TableSpec) (fieldnr newwidth column : Nat) :
    (table.ensureWidth fieldnr newwidth).fieldAt column =
      if column = fieldnr then (table.fieldAt column).ensureWidth newwidth else table.fieldAt column := by
  rw [← fieldAt_grow table fieldnr column]
  have created : fieldnr < (table.grow fieldnr).fields.length := by
    rw [length_grow]
    omega
  simp only [ensureWidth, fieldAt, List.getD_eq_getElem?_getD, List.getElem?_modify]
  by_cases same : fieldnr = column
  · subst same
    simp [List.getElem?_eq_getElem created]
  · simp [same, Ne.symm same]

theorem length_ensureWidth (table : TableSpec) (fieldnr newwidth : Nat) :
    (table.ensureWidth fieldnr newwidth).fields.length = max table.fields.length (fieldnr + 1) := by
  rw [ensureWidth, List.length_modify, length_grow]

end TableSpec

/-! ### Measuring -/

section

variable {β : Type} (format : β → Str)

/-- Measuring a row from cell `i` on widens the fields of its cells and no other. -/
theorem fieldAt_measureRow (columns : List β) (i : Nat) (table : TableSpec) (column : Nat) :
    (measureRow format i columns table).1.fieldAt column =
      if column < i then table.fieldAt column
      else (table.fieldAt column).ensureWidth (cellLength (columns.map format) (column - i)) := by
  induction columns generalizing i table with
  | nil => simp [measureRow, cellLength]
  | cons first columns ih =>
      rw [measureRow]
      simp only [ih, TableSpec.fieldAt_ensureWidth]
      rcases Nat.lt_trichotomy column i with before | rfl | behind
      · simp [before, Nat.lt_succ_of_lt before, Nat.ne_of_lt before]
      · simp [cellLength]
      · have shift : column - i = column - (i + 1) + 1 := by omega
        have notBefore : ¬ column < i := by omega
        have notNext : ¬ column < i + 1 := by omega
        simp [notBefore, notNext, Nat.ne_of_gt behind, shift, cellLength]

theorem measureRow_cells (columns : List β) (i : Nat) (table : TableSpec) :
    (measureRow format i columns table).2 = columns.map format := by
  induction columns generalizing i table with
  | nil => rfl
  | cons first columns ih => simp [measureRow, ih]

/-- Measuring a row creates the fields its cells need. -/
theorem length_measureRow (columns : List β) (i : Nat) (table : TableSpec)
    (created : i ≤ table.fields.length) :
    (measureRow format i columns table).1.fields.length =
      max table.fields.length (i + columns.length) := by
  induction columns generalizing i table with
  | nil => simp [measureRow, created]
  | cons first columns ih =>
      have size := TableSpec.length_ensureWidth table i (format first).length
      have later := ih (i + 1) (table.ensureWidth i (format first).length) (by omega)
      simp only [measureRow, later, size, List.length_cons]
      omega

/-- A field ends up as wide as its first width and all its cells ask for. -/
theorem fieldAt_measure (range : List (List β)) (table : TableSpec) (column : Nat) :
    (measure format range table).1.fieldAt column =
      (table.fieldAt column).ensureWidth (columnWidth (range.map (List.map format)) column) := by
  induction range generalizing table with
  | nil => simp [measure]
  | cons row range ih => simp [measure, ih, fieldAt_measureRow]

theorem measure_cells (range : List (List β)) (table : TableSpec) :
    (measure format range table).2 = range.map (List.map format) := by
  induction range generalizing table with
  | nil => rfl
  | cons row range ih => simp [measure, ih, measureRow_cells]

theorem length_measure (range : List (List β)) (table : TableSpec) :
    (measure format range table).1.fields.length =
      max table.fields.length (columnCount (range.map (List.map format))) := by
  induction range generalizing table with
  | nil => simp [measure, columnCount]
  | cons row range ih =>
      simp only [measure, ih, length_measureRow format row 0 table (Nat.zero_le _), List.map_cons,
        columnCount_cons, List.length_map]
      omega

end

/-! ### Printing -/

section

variable {ι σ : Type} (out : AppendingIterator ι σ Char)

/-- A value that is no longer than its field is wide is printed as the layout pads it. -/
theorem contents_print {field : FieldSpec} {value : Str} (fits : value.length ≤ field.width)
    (isLast : Bool) (cursor : ι × σ) :
    out.contents (field.print value out.toOutputIterator isLast cursor).2 =
      out.contents cursor.2 ++
        (if isLast then paddedLast ' ' field.align field.width value
        else padded ' ' field.align field.width value) := by
  have padding : sizeSub field.width value.length = field.width - value.length := if_pos fits
  cases side : field.align <;> cases isLast <;>
    simp [FieldSpec.print, padding, side, padded, paddedLast]

/-- Printing cells appends their layout and keeps the fields. -/
theorem contents_printCells (row : List Str) (i : Nat) (table : TableSpec) (cursor : ι × σ)
    (fits : ∀ column value, row[column]? = some value →
      value.length ≤ (table.fieldAt (i + column)).width) :
    out.contents (printCells out.toOutputIterator i row (table, cursor)).2.2 =
        out.contents cursor.2 ++
          layoutRow ' ' (fun column => (table.fieldAt column).align)
            (fun column => (table.fieldAt column).width) i row ∧
      (printCells out.toOutputIterator i row (table, cursor)).1.fieldAt = table.fieldAt := by
  induction row generalizing i table cursor with
  | nil => exact ⟨(List.append_nil _).symm, rfl⟩
  | cons value row ih =>
      have kept : (table.grow i).fieldAt = table.fieldAt := funext (table.fieldAt_grow i)
      have here : value.length ≤ (table.fieldAt i).width := fits 0 value rfl
      cases row with
      | nil =>
          have printed := contents_print out here true cursor
          rw [if_pos rfl] at printed
          simpa only [printCells, List.isEmpty_nil, layoutRow, kept, Bool.not_true, Bool.false_eq_true,
            if_false, and_true] using printed
      | cons next row =>
          have printed := contents_print out here false cursor
          rw [if_neg (by decide)] at printed
          have later : ∀ column cell, (next :: row)[column]? = some cell →
              cell.length ≤ ((table.grow i).fieldAt (i + 1 + column)).width := by
            intro column cell reaches
            have bound := fits (column + 1) cell reaches
            rwa [kept, Nat.add_right_comm, Nat.add_assoc]
          have step := ih (i + 1) (table.grow i)
            (out.put ' ' ((table.fieldAt i).print value out.toOutputIterator false cursor)) later
          rw [kept, out.contents_put, printed] at step
          simpa [printCells, layoutRow, kept] using step

/-- What a line holds: its cells in the layout of the fields, and a newline. -/
def lineText (fieldAt : Nat → FieldSpec) (row : List Str) : Str :=
  layoutRow ' ' (fun column => (fieldAt column).align) (fun column => (fieldAt column).width) 0 row ++
    ['\n']

/-- Every cell of a row fits into its field. -/
def Fits (fieldAt : Nat → FieldSpec) (row : List Str) : Prop :=
  ∀ column value, row[column]? = some value → value.length ≤ (fieldAt column).width

theorem contents_printRow (row : List Str) (state : TableSpec × ι × σ) (fits : Fits state.1.fieldAt row) :
    out.contents (printRow out.toOutputIterator row state).2.2 =
        out.contents state.2.2 ++ lineText state.1.fieldAt row ∧
      (printRow out.toOutputIterator row state).1.fieldAt = state.1.fieldAt := by
  obtain ⟨table, cursor⟩ := state
  have cells := contents_printCells out row 0 table cursor (by simpa [Fits] using fits)
  refine ⟨?_, cells.2⟩
  rw [printRow, out.contents_put, cells.1, List.append_assoc]
  rfl

/-- The rows come out one line each, in order. -/
theorem contents_printRows (data : List (List Str)) (state : TableSpec × ι × σ)
    (fits : ∀ row ∈ data, Fits state.1.fieldAt row) :
    out.contents (printRows out.toOutputIterator data state).2.2 =
      out.contents state.2.2 ++ data.flatMap (lineText state.1.fieldAt) := by
  induction data generalizing state with
  | nil => simp [printRows]
  | cons row data ih =>
      have first := contents_printRow out row state (fits row List.mem_cons_self)
      have rest := ih (printRow out.toOutputIterator row state) (by
        rw [first.2]
        exact fun other member => fits other (List.mem_cons_of_mem row member))
      rw [first.1, first.2] at rest
      rw [List.flatMap_cons, ← List.append_assoc]
      exact rest

end

/-! ### The parsed spec -/

/-- Every field of a parsed spec is as wide as its name. -/
def WidthOfName (table : TableSpec) : Prop :=
  ∀ field ∈ table.fields, field.width = field.name.length

theorem parseFieldFlags_width {field after : FieldSpec} {pos rest : Str}
    (parsed : parseFieldFlags field pos = .ok (after, rest)) : after.width = field.width := by
  fun_induction parseFieldFlags field pos with
  | case1 => cases parsed; rfl
  | case2 => cases parsed; rfl
  | case3 => cases parsed; rfl
  | case4 => contradiction
  | case5 field c pos _ _ _ _ ih => exact ih parsed
  | case6 => contradiction

theorem parseField_width {pos rest : Str} {field : FieldSpec}
    (parsed : parseField pos = .ok (field, rest)) : field.width = field.name.length := by
  obtain ⟨flags, text, close, -, -, named, read, -, rfl⟩ := parseField_ok parsed
  have narrow : flags.width = 0 := parseFieldFlags_width read
  simp [FieldSpec.ensureWidth, narrow]

theorem parseFields_width {table after : TableSpec} {pos : Str} (widths : WidthOfName table)
    (parsed : parseFields table pos = .ok after) : WidthOfName after := by
  fun_induction parseFields table pos with
  | case1 table pos rest finished =>
      cases parsed
      exact widths
  | case2 => contradiction
  | case3 table pos rest _ field next this ih =>
      apply ih _ parsed
      intro other member
      rcases List.mem_append.mp member with earlier | added
      · exact widths other earlier
      · rw [List.mem_singleton.mp added]
        exact parseField_width this

theorem fieldAt_width {table : TableSpec} (widths : WidthOfName table) (column : Nat) :
    (table.fieldAt column).width = (table.fieldAt column).name.length := by
  unfold TableSpec.fieldAt
  by_cases inside : column < table.fields.length
  · rw [List.getD_eq_getElem _ _ inside]
    exact widths _ (List.getElem_mem inside)
  · rw [List.getD_eq_default _ _ (Nat.le_of_not_lt inside)]
    rfl

/-! ### The table -/

/-- The rows of a table: the header, with an empty name for every column beyond the spec, and the cells. -/
def tableLines (table : TableSpec) (cells : List (List Str)) : List (List Str) :=
  ((List.range (max table.fields.length (columnCount cells))).map fun column =>
    (table.fieldAt column).name) :: cells

/-- The text of a table: one line for each row, laid out in columns as wide as their widest cell, on the
sides that the spec gives. -/
def tableText (table : TableSpec) (lines : List (List Str)) : Str :=
  lines.flatMap fun row =>
    layoutRow ' ' (fun column => (table.fieldAt column).align) (columnWidth lines) 0 row ++ ['\n']

theorem headerRow_eq (table : TableSpec) :
    headerRow table = (List.range table.fields.length).map fun column => (table.fieldAt column).name := by
  apply List.ext_getElem
  · simp [headerRow]
  · intro column inside _
    have bound : column < table.fields.length := by simpa [headerRow] using inside
    simp [headerRow, TableSpec.fieldAt, bound]

section

variable {β : Type} (format : β → Str) (range : List (List β)) (table : TableSpec)

/-- The header row that basic_tabulate puts in front of the cells. -/
theorem tableLines_eq :
    headerRow (measure format range table).1 :: (measure format range table).2 =
      tableLines table (range.map (List.map format)) := by
  rw [measure_cells, headerRow_eq, length_measure]
  simp only [tableLines, fieldAt_measure, FieldSpec.ensureWidth]

/-- The fields end up as wide as the columns of the table, the header included. -/
theorem width_fieldAt_measure (widths : WidthOfName table) (column : Nat) :
    ((measure format range table).1.fieldAt column).width =
      columnWidth (tableLines table (range.map (List.map format))) column := by
  have header : cellLength ((List.range (max table.fields.length
      (columnCount (range.map (List.map format))))).map fun column => (table.fieldAt column).name) column =
      (table.fieldAt column).name.length := by
    by_cases inside : column < max table.fields.length (columnCount (range.map (List.map format)))
    · simp [cellLength, inside]
    · have beyond : table.fields.length ≤ column := by omega
      have unnamed : table.fieldAt column = {} := List.getD_eq_default _ _ beyond
      have outside : (List.range (max table.fields.length (columnCount
          (range.map (List.map format)))))[column]? = none := by
        rw [List.getElem?_eq_none_iff, List.length_range]
        omega
      rw [cellLength, List.getElem?_map, outside, unnamed]
      rfl
  rw [fieldAt_measure, tableLines, columnWidth_cons, header, ← fieldAt_width widths column]
  rfl

/-- A line printed with the measured fields is the line of the table. -/
theorem lineText_measure (widths : WidthOfName table) (row : List Str) :
    lineText (measure format range table).1.fieldAt row =
      layoutRow ' ' (fun column => (table.fieldAt column).align)
        (columnWidth (tableLines table (range.map (List.map format)))) 0 row ++ ['\n'] := by
  have sides : (fun column => ((measure format range table).1.fieldAt column).align) =
      fun column => (table.fieldAt column).align := by
    funext column
    rw [fieldAt_measure]
    rfl
  rw [lineText, sides, funext (width_fieldAt_measure format range table widths)]

end

/-- basic_tabulate through an appending iterator: for a valid spec it writes the table, one line for the
header and one for each row; no value is longer than its field is wide when it is printed, so that the
padding never underflows; and the field of a column starts at the same offset in every line. -/
theorem basicTabulate_layout {β ι σ : Type} (out : AppendingIterator ι σ Char) (format : β → Str)
    (spec : Str) (table : TableSpec) (valid : parseTableSpec spec = .ok table) (range : List (List β))
    (cursor : ι × σ) :
    let lines := tableLines table (range.map (List.map format))
    (∃ after, basicTabulate out.toOutputIterator format spec range cursor = .ok after ∧
        out.contents after.2 = out.contents cursor.2 ++ tableText table lines) ∧
      (∀ row ∈ lines, Fits (measure format range table).1.fieldAt row) ∧
      ∀ row ∈ lines, ∀ column cell, row[column]? = some cell →
        ∃ before after,
          layoutRow ' ' (fun column => (table.fieldAt column).align) (columnWidth lines) 0 row =
            before ++
              (if column + 1 < row.length then
                padded ' ' (table.fieldAt column).align (columnWidth lines column) cell
              else paddedLast ' ' (table.fieldAt column).align (columnWidth lines column) cell) ++
              after ∧
            before.length = columnOffset (columnWidth lines) 0 column := by
  intro lines
  have widths : WidthOfName table :=
    parseFields_width (fun field member => absurd member List.not_mem_nil) valid
  have fits : ∀ row ∈ lines, Fits (measure format range table).1.fieldAt row := by
    intro row member column value found
    rw [width_fieldAt_measure format range table widths]
    exact length_le_columnWidth member found
  refine ⟨?_, fits, ?_⟩
  · refine ⟨_, by rw [basicTabulate, valid], ?_⟩
    rw [tableLines_eq, contents_printRows out lines _ fits]
    congr 1
    exact List.flatMap_congr fun row _ => lineText_measure format range table widths row
  · intro row member column cell found
    have split := layoutRow_split ' ' (fun column => (table.fieldAt column).align) (columnWidth lines) row 0
      column (fun other value reaches => by
        rw [Nat.zero_add]
        exact length_le_columnWidth member reaches) found
    simpa only [Nat.zero_add] using split

/-- A jagged table with a column to the right. -/
theorem basicTabulate_layout_jagged :
    parseTableSpec "{>:id} {:name}".toList =
        .ok ⟨[⟨"id".toList, 2, .right⟩, ⟨"name".toList, 4, .left⟩]⟩ ∧
      ∃ after, basicTabulate (backInserter Char).toOutputIterator id "{>:id} {:name}".toList
          [["7".toList], ["100".toList, "a".toList, "b".toList]] ((), []) = .ok after ∧
        after.2 = " id name \n  7\n100 a    b\n".toList := by
  have valid : parseTableSpec "{>:id} {:name}".toList =
      .ok ⟨[⟨"id".toList, 2, .right⟩, ⟨"name".toList, 4, .left⟩]⟩ := by decide +kernel
  obtain ⟨⟨after, done, text⟩, -⟩ := basicTabulate_layout (backInserter Char) id _ _ valid
    [["7".toList], ["100".toList, "a".toList, "b".toList]] ((), [])
  exact ⟨valid, after, done, text.trans (by decide)⟩

end Nihil

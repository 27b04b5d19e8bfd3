/-
Module: Nihil.Core.Tabulate
Layer: Core
Purpose: tabulate: the parser of table specs and the three phases of basic_tabulate, which measure the
  cells and create the columns that the spec does not name, put the header row in front, and print every
  row. The position in the spec is the text that is left of it. The output goes through an arbitrary
  output iterator, and a cell is copied to it by value, as std::ranges::copy takes it.
Imports: Nihil.Core.Ctype, Nihil.Library.OutputIterator, Nihil.Library.ColumnLayout
Trusted boundary: `format` is what std::format with "{}" makes of a cell.
Main exports: FieldSpec, TableSpec, parseFieldFlags, parseField, parseTableSpec, measureRow, measure,
  printRow, printRows, basicTabulate
-/
import Mathlib.Algebra.Group.Nat.Defs
import Nihil.Core.Ctype
import Nihil.Library.OutputIterator
import Nihil.Library.ColumnLayout

namespace Nihil

open Nihil.Library

/-- `table_spec_error`. -/
structure TableSpecError where
  what : Str
deriving DecidableEq, Repr

/-! ### Field and table specs -/

/-- `field_spec`. -/
structure FieldSpec where
  name : Str := []
  width : Nat := 0
  align : Side := .left
deriving DecidableEq, Repr

/-- `field_spec::ensure_width`. -/
def FieldSpec.ensureWidth (self : FieldSpec) (newwidth : Nat) : FieldSpec :=
  { self with width := max self.width newwidth }

/-- The difference of two values of std::size_t. -/
def sizeSub (a b : Nat) : Nat :=
  if b ≤ a then a - b else 2 ^ 64 - (b - a)

/-- `field_spec::print`. -/
def FieldSpec.print {ι σ : Type} (self : FieldSpec) (value : Str) (out : OutputIterator ι σ Char)
    (isLast : Bool) (cursor : ι × σ) : ι × σ :=
  let padding := List.replicate (sizeSub self.width value.length) ' '
  let cursor := if self.align = .right then out.putAll padding cursor else cursor
  let cursor := out.copy value cursor
  if !isLast ∧ self.align = .left then out.putAll padding cursor else cursor

/-- `table_spec`. -/
structure TableSpec where
  fields : List FieldSpec := []
deriving DecidableEq, Repr

namespace TableSpec

/-- `table_spec::add`. -/
def add (self : TableSpec) (field : FieldSpec) : TableSpec :=
  { fields := self.fields ++ [field] }

/-- The resize of `table_spec::field`: the field and any intermediate fields are created. -/
def grow (self : TableSpec) (fieldnr : Nat) : TableSpec :=
  if fieldnr ≥ self.fields.length then
    { fields := self.fields ++ List.replicate (fieldnr + 1 - self.fields.length) {} }
  else self

/-- The field spec of a column; a column that was not created yet has the default one. -/
def fieldAt (self : TableSpec) (fieldnr : Nat) : FieldSpec :=
  self.fields.getD fieldnr {}

/-- `table.field(fieldnr).ensure_width(newwidth)`. -/
def ensureWidth (self : TableSpec) (fieldnr newwidth : Nat) : TableSpec :=
  { fields := (self.grow fieldnr).fields.modify fieldnr (·.ensureWidth newwidth) }

end TableSpec

/-! ### Parsing a table spec -/

/-- `parse_field_flags`, from behind the '{' to behind the ':' or in front of the '}'. -/
def parseFieldFlags (field : FieldSpec) : Str → Except TableSpecError (FieldSpec × Str)
  | [] => .ok (field, [])
  | ':' :: pos => .ok (field, pos)
  | '}' :: pos => .ok (field, '}' :: pos)
  | c :: pos =>
      if c = '<' ∨ c = '>' then
        if pos = [] then .error ⟨"Invalid table spec: unterminated field".toList⟩
        else parseFieldFlags { field with align := if c = '<' then .left else .right } pos
      else .error ⟨"Invalid table spec: unknown flag character".toList⟩

/-- `parse_field`. Returns the field and what follows its '}'. -/
def parseField (pos : Str) : Except TableSpecError (FieldSpec × Str) :=
  match pos with
  | [] => .error ⟨"Invalid table spec: empty field".toList⟩
  | c :: pos =>
      if c ≠ '{' then .error ⟨"Invalid table spec: expected '\x7b'".toList⟩
      else if pos = [] then .error ⟨"Invalid table spec: unterminated field".toList⟩
      else
        match parseFieldFlags {} pos with
        | .error err => .error err
        | .ok (field, pos) =>
            match pos.dropWhile (· != '}') with
            | [] => .error ⟨"Invalid table spec: expected '\x7d'".toList⟩
            | _ :: rest =>
                let field := { field with name := pos.takeWhile (· != '}') }
                .ok (field.ensureWidth field.name.length, rest)

theorem parseFieldFlags_length {field after : FieldSpec} {pos rest : Str}
    (parsed : parseFieldFlags field pos = .ok (after, rest)) : rest.length ≤ pos.length := by
  fun_induction parseFieldFlags field pos with
  | case1 => cases parsed; exact Nat.le_refl _
  | case2 => cases parsed; exact Nat.le_succ _
  | case3 => cases parsed; exact Nat.le_refl _
  | case4 => contradiction
  | case5 field c pos _ _ _ _ ih => exact Nat.le_succ_of_le (ih parsed)
  | case6 => contradiction

/-- A field that was parsed: a '{', the flags, and the name up to the '}'. -/
theorem parseField_ok {pos rest : Str} {field : FieldSpec} (parsed : parseField pos = .ok (field, rest)) :
    ∃ flags text close, pos = '{' :: text ∧ text ≠ [] ∧
      ∃ named, parseFieldFlags {} text = .ok (flags, named) ∧
        named.dropWhile (· != '}') = close :: rest ∧
        field = { flags with name := named.takeWhile (· != '}') }.ensureWidth
          (named.takeWhile (· != '}')).length := by
  unfold parseField at parsed
  split at parsed
  · contradiction
  · rename_i opened text
    split_ifs at parsed with other empty
    obtain rfl := not_not.mp other
    cases read : parseFieldFlags {} text with
    | error err => simp [read] at parsed
    | ok result =>
        obtain ⟨flags, named⟩ := result
        simp only [read] at parsed
        cases brace : named.dropWhile (· != '}') with
        | nil => simp [brace] at parsed
        | cons close tail =>
            simp only [brace, Except.ok.injEq, Prod.mk.injEq] at parsed
            obtain ⟨rfl, rfl⟩ := parsed
            exact ⟨flags, text, close, rfl, empty, named, read, brace, rfl⟩

/-- A field takes at least its '{'. -/
theorem parseField_length {pos rest : Str} {field : FieldSpec}
    (parsed : parseField pos = .ok (field, rest)) : rest.length < pos.length := by
  obtain ⟨flags, text, close, rfl, -, named, read, brace, -⟩ := parseField_ok parsed
  have bound := parseFieldFlags_length read
  have dropped : (named.dropWhile (· != '}')).length ≤ named.length :=
    (List.dropWhile_sublist _).length_le
  rw [brace] at dropped
  simp only [List.length_cons] at dropped ⊢
  omega

/-- The loop of `parse_table_spec`. -/
def parseFields (table : TableSpec) (pos : Str) : Except TableSpecError TableSpec :=
  let rest := skipws isCSpace pos
  if rest = [] then .ok table
  else
    match _parsed : parseField rest with
    | .error err => .error err
    | .ok (field, next) => parseFields (table.add field) next
termination_by pos.length
decreasing_by
  exact Nat.lt_of_lt_of_le (parseField_length _parsed) (List.dropWhile_sublist _).length_le

/-- `parse_table_spec`. -/
def parseTableSpec (spec : Str) : Except TableSpecError TableSpec :=
  parseFields {} spec

example : parseTableSpec "{:a} {>:b}".toList = .ok ⟨[⟨['a'], 1, .left⟩, ⟨['b'], 1, .right⟩]⟩ := by
  decide +kernel

/-! ### basic_tabulate -/

section

variable {β ι σ : Type}

/-- The loop over the columns of one row: format the cells and ensure the widths of their fields. -/
def measureRow (format : β → Str) : Nat → List β → TableSpec → TableSpec × List Str
  | _, [], table => (table, [])
  | i, column :: columns, table =>
      let str := format column
      let measured := measureRow format (i + 1) columns (table.ensureWidth i str.length)
      (measured.1, str :: measured.2)

/-- The loop over the rows. -/
def measure (format : β → Str) : List (List β) → TableSpec → TableSpec × List (List Str)
  | [], table => (table, [])
  | row :: range, table =>
      let first := measureRow format 0 row table
      let rest := measure format range first.1
      (rest.1, first.2 :: rest.2)

/-- The loop over the cells of one row, from cell `i` on. -/
def printCells (out : OutputIterator ι σ Char) : Nat → List Str → TableSpec × ι × σ → TableSpec × ι × σ
  | _, [], state => state
  | i, value :: row, (table, cursor) =>
      let table := table.grow i
      let isLast := row.isEmpty
      let cursor := (table.fieldAt i).print value out isLast cursor
      let cursor := if !isLast then out.put ' ' cursor else cursor
      printCells out (i + 1) row (table, cursor)

/-- Print one row and the newline behind it. -/
def printRow (out : OutputIterator ι σ Char) (row : List Str) (state : TableSpec × ι × σ) :
    TableSpec × ι × σ :=
  let printed := printCells out 0 row state
  (printed.1, out.put '\n' printed.2)

/-- The loop over the rows of the data. -/
def printRows (out : OutputIterator ι σ Char) (data : List (List Str)) (state : TableSpec × ι × σ) :
    TableSpec × ι × σ :=
  data.foldl (fun state row => printRow out row state) state

/-- The header row: the names of all fields there are after the cells were measured. -/
def headerRow (table : TableSpec) : List Str :=
  table.fields.map FieldSpec.name

/-- `basic_tabulate`. -/
def basicTabulate (out : OutputIterator ι σ Char) (format : β → Str) (spec : Str) (range : List (List β))
    (cursor : ι × σ) : Except TableSpecError (ι × σ) :=
  match parseTableSpec spec with
  | .error err => .error err
  | .ok table =>
      let measured := measure format range table
      let data := headerRow measured.1 :: measured.2
      .ok (printRows out data (measured.1, cursor)).2

end

end Nihil

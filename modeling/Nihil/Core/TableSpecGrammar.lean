/-
Module: Nihil.Core.TableSpecGrammar
Layer: Core
Purpose: The grammar of table specs. The loops of the parser are written once more over an iterator that may
  be read only in front of the end, with a bound on the number of their steps. Neither the end nor the bound
  is ever reached, so the parser is the one of `Tabulate` (`parseTableSpecAt_eq`), and that one accepts
  exactly the grammar and returns what it says (`parseTableSpec_ok_iff`).
Imports: Nihil.Core.Tabulate, Nihil.Library.Span
Trusted boundary: none
Main exports: SpecAbort, deref, next, parseFieldFlagsAt, parseFieldAt, parseTableSpecAt, SpecText,
  parseTableSpecAt_eq, parseTableSpec_ok_iff, render, table_spec_grammar
-/
import Nihil.Core.Tabulate
import Nihil.Library.Span

namespace Nihil

open Nihil.Library

/-! ### The parser over an iterator -/

/-- Why the parser ends without a table: a table_spec_error is thrown, the iterator is read or advanced at
the end, or more steps are taken than were allowed. -/
inductive SpecAbort where
  | error (err : TableSpecError)
  | pastEnd
  | outOfFuel
deriving DecidableEq, Repr

/-- `*pos`. -/
def deref : Str → Except SpecAbort Char
  | [] => .error .pastEnd
  | c :: _ => .ok c

/-- `++pos`. -/
def next : Str → Except SpecAbort Str
  | [] => .error .pastEnd
  | _ :: pos => .ok pos

/-- A table_spec_error is thrown. -/
def specError {α : Type} (what : String) : Except SpecAbort α :=
  .error (.error ⟨what.toList⟩)

/-- The loop of `parse_field_flags`. -/
def parseFieldFlagsAt : Nat → FieldSpec → Str → Except SpecAbort (FieldSpec × Str)
  | 0, _, _ => .error .outOfFuel
  | fuel + 1, field, pos =>
      if pos = [] then .ok (field, pos)
      else do
        let c ← deref pos
        -- What follows the switch statement.
        let advance := fun (field : FieldSpec) => do
          let pos ← next pos
          if pos = [] then specError "Invalid table spec: unterminated field"
          else parseFieldFlagsAt fuel field pos
        if c = '<' then advance { field with align := .left }
        else if c = '>' then advance { field with align := .right }
        else if c = ':' then do
          let pos ← next pos
          .ok (field, pos)
        else if c = '}' then .ok (field, pos)
        else specError "Invalid table spec: unknown flag character"

/-- `parse_field`. -/
def parseFieldAt (fuel : Nat) (pos : Str) : Except SpecAbort (FieldSpec × Str) :=
  if pos = [] then specError "Invalid table spec: empty field"
  else do
    let c ← deref pos
    if c ≠ '{' then specError "Invalid table spec: expected '\x7b'"
    else do
      let pos ← next pos
      if pos = [] then specError "Invalid table spec: unterminated field"
      else do
        let (field, pos) ← parseFieldFlagsAt fuel {} pos
        let brace := pos.dropWhile (· != '}')
        if brace = [] then specError "Invalid table spec: expected '\x7d'"
        else do
          let field := { field with name := pos.takeWhile (· != '}') }
          let pos ← next brace
          .ok (field.ensureWidth field.name.length, pos)

/-- The loop of `parse_table_spec` that skips leading whitespace. -/
def skipSpaceAt : Nat → Str → Except SpecAbort Str
  | 0, _ => .error .outOfFuel
  | fuel + 1, pos =>
      if pos = [] then .ok pos
      else do
        let c ← deref pos
        if isCSpace c then do
          let pos ← next pos
          skipSpaceAt fuel pos
        else .ok pos

/-- The loop of `parse_table_spec`. -/
def parseFieldsAt : Nat → TableSpec → Str → Except SpecAbort TableSpec
  | 0, _, _ => .error .outOfFuel
  | fuel + 1, table, pos => do
      let pos ← skipSpaceAt (fuel + 1) pos
      if pos = [] then .ok table
      else do
        let (field, pos) ← parseFieldAt fuel pos
        parseFieldsAt fuel (table.add field) pos

/-- `parse_table_spec`, where every loop takes at most `fuel` steps. -/
def parseTableSpecAt (fuel : Nat) (spec : Str) : Except SpecAbort TableSpec :=
  parseFieldsAt fuel {} spec

/-! ### The steps of the loop -/

theorem parseFields_of_done {table : TableSpec} {pos : Str} (done : skipws isCSpace pos = []) :
    parseFields table pos = .ok table := by
  rw [parseFields, if_pos done]

theorem parseFields_of_error {table : TableSpec} {pos : Str} {err : TableSpecError}
    (more : skipws isCSpace pos ≠ []) (failed : parseField (skipws isCSpace pos) = .error err) :
    parseFields table pos = .error err := by
  rw [parseFields, if_neg more]
  split
  · next other failed' => rw [← Except.error.inj (failed.symm.trans failed')]
  · next parsed => simp [failed] at parsed

theorem parseFields_of_ok {table : TableSpec} {pos rest : Str} {field : FieldSpec}
    (parsed : parseField (skipws isCSpace pos) = .ok (field, rest)) :
    parseFields table pos = parseFields (table.add field) rest := by
  have more : skipws isCSpace pos ≠ [] := by
    intro done
    rw [done] at parsed
    contradiction
  rw [parseFields, if_neg more]
  split
  · next failed => simp [parsed] at failed
  · next parsed' =>
      cases parsed.symm.trans parsed'
      rfl

/-! ### The end is never passed -/

theorem skipSpaceAt_eq (fuel : Nat) {pos : Str} (enough : pos.length < fuel) :
    skipSpaceAt fuel pos = .ok (skipws isCSpace pos) := by
  induction fuel generalizing pos with
  | zero => contradiction
  | succ fuel ih =>
      cases pos with
      | nil => rfl
      | cons c pos =>
          by_cases space : isCSpace c
          · have rest : skipSpaceAt fuel pos = .ok (skipws isCSpace pos) := ih (by simpa using enough)
            simpa [skipSpaceAt, deref, next, bind, Except.bind, space, skipws] using rest
          · simp [skipSpaceAt, deref, bind, Except.bind, space, skipws]

theorem parseFieldFlagsAt_eq (fuel : Nat) (field : FieldSpec) {pos : Str} (enough : pos.length < fuel) :
    parseFieldFlagsAt fuel field pos = (parseFieldFlags field pos).mapError .error := by
  induction fuel generalizing field pos with
  | zero => contradiction
  | succ fuel ih =>
      cases pos with
      | nil => rfl
      | cons c pos =>
          have fewer : pos.length < fuel := by simpa using enough
          have rest := fun field => ih field fewer
          by_cases colon : c = ':'
          · subst colon
            rfl
          by_cases brace : c = '}'
          · subst brace
            rfl
          rw [parseFieldFlags]
          · by_cases flag : c = '<' ∨ c = '>'
            · by_cases last : pos = []
              · subst last
                rcases flag with rfl | rfl <;> rfl
              · rcases flag with rfl | rfl <;>
                  simp [parseFieldFlagsAt, deref, next, bind, Except.bind, last, rest]
            · obtain ⟨left, right⟩ := not_or.mp flag
              simp [parseFieldFlagsAt, deref, bind, Except.bind, left, right, colon, brace, specError,
                Except.mapError]
          · exact fun same => absurd same colon
          · exact fun same => absurd same brace

theorem parseFieldAt_eq (fuel : Nat) {pos : Str} (enough : pos.length ≤ fuel) :
    parseFieldAt fuel pos = (parseField pos).mapError .error := by
  cases pos with
  | nil => rfl
  | cons c pos =>
      have fewer : pos.length < fuel := enough
      have flags := parseFieldFlagsAt_eq fuel {} fewer
      by_cases opened : c = '{'
      · subst opened
        by_cases last : pos = []
        · subst last
          rfl
        · simp only [parseFieldAt, parseField, deref, next, bind, Except.bind, flags, last]
          cases parseFieldFlags {} pos with
          | error err => simp [Except.mapError]
          | ok result =>
              obtain ⟨field, named⟩ := result
              cases brace : named.dropWhile (· != '}') <;> simp [Except.mapError, brace, specError]
      · simp [parseFieldAt, parseField, deref, bind, Except.bind, opened, specError, Except.mapError]

theorem parseFieldsAt_eq (fuel : Nat) (table : TableSpec) {pos : Str} (enough : pos.length < fuel) :
    parseFieldsAt fuel table pos = (parseFields table pos).mapError .error := by
  induction fuel generalizing table pos with
  | zero => contradiction
  | succ fuel ih =>
      have skipped : (skipws isCSpace pos).length ≤ pos.length := (List.dropWhile_sublist _).length_le
      rw [parseFieldsAt, skipSpaceAt_eq _ enough]
      simp only [bind, Except.bind]
      by_cases done : skipws isCSpace pos = []
      · rw [if_pos done, parseFields_of_done done]
        rfl
      · rw [if_neg done, parseFieldAt_eq fuel (by omega)]
        cases parsed : parseField (skipws isCSpace pos) with
        | error err =>
            rw [parseFields_of_error done parsed]
            rfl
        | ok result =>
            obtain ⟨field, rest⟩ := result
            have shorter := parseField_length parsed
            have fewer : rest.length < fuel := by omega
            rw [parseFields_of_ok parsed]
            exact ih (table.add field) fewer

/-- With more steps allowed than the spec has characters, the bound is not reached, and neither is the end. -/
theorem parseTableSpecAt_eq {spec : Str} {fuel : Nat} (enough : spec.length < fuel) :
    parseTableSpecAt fuel spec = (parseTableSpec spec).mapError .error :=
  parseFieldsAt_eq fuel {} enough

/-! ### The grammar -/

/-- The flag for an alignment. -/
def flagChar : Side → Char
  | .left => '<'
  | .right => '>'

/-- What follows the flags: the '}', or a ':' and a name in front of it. -/
def nameText : Option Str → Str
  | none => ['}']
  | some name => ':' :: name ++ ['}']

/-- The text of one field. -/
def fieldText (flags : List Side) (name : Option Str) : Str :=
  '{' :: flags.map flagChar ++ nameText name

/-- The field for such a text: the last flag is the alignment, and the width is that of the name. -/
def fieldOf (flags : List Side) (name : Option Str) : FieldSpec where
  name := name.getD []
  width := (name.getD []).length
  align := flags.getLastD .left

/-- A name does not contain a '}'. -/
def IsName (name : Option Str) : Prop := '}' ∉ name.getD []

/-- A text of whitespace only. -/
def IsSpace (ws : Str) : Prop := ∀ c ∈ ws, isCSpace c = true

/-- Any number of fields, with whitespace behind each of them. -/
inductive FieldsText : Str → List FieldSpec → Prop where
  | nil : FieldsText [] []
  | cons {ws rest : Str} {fields : List FieldSpec} (flags : List Side) (name : Option Str)
      (isName : IsName name) (isSpace : IsSpace ws) (more : FieldsText rest fields) :
      FieldsText (fieldText flags name ++ ws ++ rest) (fieldOf flags name :: fields)

/-- A table spec, and the fields it stands for: whitespace, and fields with whitespace behind them. -/
def SpecText (spec : Str) (fields : List FieldSpec) : Prop :=
  ∃ ws body, IsSpace ws ∧ FieldsText body fields ∧ spec = ws ++ body

/-! ### Fields -/

theorem parseFieldFlags_flag (flag : Side) (field : FieldSpec) {pos : Str} (more : pos ≠ []) :
    parseFieldFlags field (flagChar flag :: pos) = parseFieldFlags { field with align := flag } pos := by
  cases flag with
  | left =>
      rw [flagChar, parseFieldFlags, if_pos (.inl rfl), if_neg more, if_pos rfl]
      · decide
      · decide
  | right =>
      rw [flagChar, parseFieldFlags, if_pos (.inr rfl), if_neg more, if_neg (by decide)]
      · decide
      · decide

/-- The flags of a field are read up to its name, or up to its '}'. -/
theorem parseFieldFlags_text (flags : List Side) (field : FieldSpec) (name : Option Str) (rest : Str) :
    parseFieldFlags field (flags.map flagChar ++ nameText name ++ rest) =
      .ok ({ field with align := flags.getLastD field.align }, name.getD [] ++ '}' :: rest) := by
  induction flags generalizing field with
  | nil => cases name <;> simp [nameText, parseFieldFlags]
  | cons flag flags ih =>
      have more : flags.map flagChar ++ nameText name ++ rest ≠ [] := by cases name <;> simp [nameText]
      have last : (flag :: flags).getLastD field.align = flags.getLastD flag := by
        cases flags <;> simp [List.getLastD]
      rw [List.map_cons, List.cons_append, List.cons_append, parseFieldFlags_flag flag field more, ih, last]

/-- Conversely, what is read in front of a name is flags. -/
theorem parseFieldFlags_ok {field after : FieldSpec} {pos named : Str} (nonempty : pos ≠ [])
    (parsed : parseFieldFlags field pos = .ok (after, named)) :
    ∃ flags : List Side, after = { field with align := flags.getLastD field.align } ∧
      (pos = flags.map flagChar ++ ':' :: named ∨
        ∃ rest, named = '}' :: rest ∧ pos = flags.map flagChar ++ named) := by
  fun_induction parseFieldFlags field pos with
  | case1 => exact absurd rfl nonempty
  | case2 field pos =>
      cases parsed
      exact ⟨[], rfl, .inl rfl⟩
  | case3 field pos =>
      cases parsed
      exact ⟨[], rfl, .inr ⟨pos, rfl, rfl⟩⟩
  | case4 => contradiction
  | case5 field c pos _ _ flag more ih =>
      obtain ⟨flags, rfl, text⟩ := ih more parsed
      have last : ∀ side : Side, (side :: flags).getLastD field.align = flags.getLastD side := by
        intro side
        cases flags <;> rfl
      obtain ⟨side, rfl, align⟩ :
          ∃ side, c = flagChar side ∧ (if c = '<' then Side.left else .right) = side := by
        rcases flag with rfl | rfl
        · exact ⟨.left, rfl, rfl⟩
        · exact ⟨.right, rfl, rfl⟩
      refine ⟨side :: flags, by rw [last, align], ?_⟩
      rcases text with text | ⟨rest, named, text⟩
      · exact .inl (congrArg _ text)
      · exact .inr ⟨rest, named, congrArg _ text⟩
  | case6 => contradiction

/-- A text that is not empty has a '}' to be scanned for where the scan stops. -/
theorem close_of_dropWhile {text rest : Str} {close : Char}
    (scanned : text.dropWhile (· != '}') = close :: rest) : close = '}' := by
  have stops : Stops (· != '}') (text.dropWhile (· != '}')) := stops_dropWhile text
  rw [scanned, stops_cons] at stops
  simpa using stops

theorem name_not_mem (text : Str) : '}' ∉ text.takeWhile (· != '}') := by
  intro member
  simpa using List.mem_takeWhile_imp member

/-- A name is scanned up to the '}' behind it. -/
theorem scan_name {name : Str} (isName : '}' ∉ name) (rest : Str) :
    (name ++ '}' :: rest).takeWhile (· != '}') = name ∧
      (name ++ '}' :: rest).dropWhile (· != '}') = '}' :: rest := by
  have inside : ∀ c ∈ name, (c != '}') = true := by
    intro c member
    have differs : c ≠ '}' := fun same => isName (same ▸ member)
    simpa using differs
  have stops : Stops (· != '}') ('}' :: rest) := stops_cons.mpr rfl
  exact ⟨takeWhile_append_stops inside stops, dropWhile_append_stops inside stops⟩

/-- A field is accepted if it begins with the text of one, and what follows that is left. -/
theorem parseField_ok_iff (pos rest : Str) (field : FieldSpec) :
    parseField pos = .ok (field, rest) ↔
      ∃ flags name, IsName name ∧ pos = fieldText flags name ++ rest ∧ field = fieldOf flags name := by
  constructor
  · intro parsed
    obtain ⟨flagged, text, close, rfl, nonempty, named, read, brace, rfl⟩ := parseField_ok parsed
    obtain rfl := close_of_dropWhile brace
    obtain ⟨flags, rfl, body⟩ := parseFieldFlags_ok nonempty read
    have whole : named.takeWhile (· != '}') ++ '}' :: rest = named := by
      rw [← brace, List.takeWhile_append_dropWhile]
    rcases body with withName | ⟨behind, rfl, withoutName⟩
    · refine ⟨flags, some (named.takeWhile (· != '}')), name_not_mem named, ?_, ?_⟩
      · rw [withName]
        conv_lhs => rw [← whole]
        simp [fieldText, nameText]
      · simp [fieldOf, FieldSpec.ensureWidth]
    · refine ⟨flags, none, by simp [IsName], ?_, ?_⟩
      · have same : behind = rest := by simpa using brace
        simp [withoutName, fieldText, nameText, same]
      · simp [fieldOf, FieldSpec.ensureWidth]
  · rintro ⟨flags, name, isName, rfl, rfl⟩
    obtain ⟨scanned, left⟩ := scan_name isName rest
    have more : flags.map flagChar ++ nameText name ++ rest ≠ [] := by cases name <;> simp [nameText]
    have opened : fieldText flags name ++ rest = '{' :: (flags.map flagChar ++ nameText name ++ rest) := rfl
    rw [opened, parseField]
    simp only [ne_eq, not_true_eq_false, if_false, more, parseFieldFlags_text, left, scanned]
    simp [fieldOf, FieldSpec.ensureWidth]

/-! ### Table specs -/

theorem skipws_append {ws : Str} (isSpace : IsSpace ws) {text : Str} (stops : Stops isCSpace text) :
    skipws isCSpace (ws ++ text) = text :=
  dropWhile_append_stops isSpace stops

/-- A '{' is no whitespace. -/
theorem FieldsText.stops {body : Str} {fields : List FieldSpec} (text : FieldsText body fields) :
    Stops isCSpace body := by
  cases text with
  | nil => exact stops_nil
  | cons => exact stops_cons.mpr rfl

/-- A text of the grammar is accepted, and its fields are added to the table. -/
theorem parseFields_complete {body : Str} {fields : List FieldSpec} (text : FieldsText body fields) {ws : Str}
    (isSpace : IsSpace ws) (table : TableSpec) :
    parseFields table (ws ++ body) = .ok { fields := table.fields ++ fields } := by
  induction text generalizing ws table with
  | nil =>
      rw [parseFields_of_done (by rw [skipws_append isSpace stops_nil])]
      simp
  | @cons ws' rest fields flags name isName isSpace' more ih =>
      have text := FieldsText.cons flags name isName isSpace' more
      have parsed : parseField (skipws isCSpace (ws ++ (fieldText flags name ++ ws' ++ rest))) =
          .ok (fieldOf flags name, ws' ++ rest) := by
        rw [skipws_append isSpace text.stops, parseField_ok_iff]
        exact ⟨flags, name, isName, List.append_assoc _ _ _, rfl⟩
      rw [parseFields_of_ok parsed, ih isSpace']
      simp [TableSpec.add]

/-- A text is its leading whitespace and what skipping it leaves. -/
theorem split_space {pos rest : Str} (skipped : skipws isCSpace pos = rest) :
    pos = pos.takeWhile isCSpace ++ rest := by
  rw [← skipped, skipws, List.takeWhile_append_dropWhile]

/-- Whatever is accepted is a text of the grammar. -/
theorem parseFields_sound {table after : TableSpec} {pos : Str} (parsed : parseFields table pos = .ok after) :
    ∃ fields, SpecText pos fields ∧ after = { fields := table.fields ++ fields } := by
  fun_induction parseFields table pos with
  | case1 table pos rest finished =>
      cases parsed
      refine ⟨[], ⟨pos.takeWhile isCSpace, [], fun c => List.mem_takeWhile_imp, .nil, ?_⟩, by simp⟩
      exact split_space finished
  | case2 => contradiction
  | case3 table pos rest _ field next read ih =>
      obtain ⟨fields, ⟨ws, body, isSpace, text, rfl⟩, rfl⟩ := ih parsed
      obtain ⟨flags, name, isName, opened, rfl⟩ := (parseField_ok_iff _ _ _).mp read
      refine ⟨fieldOf flags name :: fields, ⟨pos.takeWhile isCSpace, _, fun c => List.mem_takeWhile_imp,
        .cons flags name isName isSpace text, ?_⟩, by simp [TableSpec.add]⟩
      rw [List.append_assoc]
      exact split_space opened

/-- The parser accepts exactly the grammar, and returns the fields that a text stands for. -/
theorem parseTableSpec_ok_iff (spec : Str) (table : TableSpec) :
    parseTableSpec spec = .ok table ↔ SpecText spec table.fields := by
  constructor
  · intro parsed
    obtain ⟨fields, text, rfl⟩ := parseFields_sound parsed
    exact text
  · rintro ⟨ws, body, isSpace, text, rfl⟩
    exact parseFields_complete text isSpace {}

/-! ### Rendering -/

/-- A list of alignments and names in the syntax of a table spec, with some whitespace behind each field. -/
def render (gap : Str) (columns : List (Side × Str)) : Str :=
  columns.flatMap fun column => fieldText [column.1] (some column.2) ++ gap

theorem render_text {gap : Str} (isSpace : IsSpace gap) {columns : List (Side × Str)}
    (names : ∀ column ∈ columns, '}' ∉ column.2) :
    SpecText (render gap columns) (columns.map fun column => fieldOf [column.1] (some column.2)) := by
  refine ⟨[], render gap columns, by simp [IsSpace], ?_, rfl⟩
  induction columns with
  | nil => exact .nil
  | cons column columns ih =>
      exact .cons [column.1] (some column.2) (names column List.mem_cons_self) isSpace
        (ih fun other later => names other (List.mem_cons_of_mem _ later))

/-- Parsing a rendered list gives the list back. -/
theorem parse_render {gap : Str} (isSpace : IsSpace gap) {columns : List (Side × Str)}
    (names : ∀ column ∈ columns, '}' ∉ column.2) :
    ∃ table, parseTableSpec (render gap columns) = .ok table ∧
      table.fields.map (fun field => (field.align, field.name)) = columns := by
  refine ⟨_, (parseTableSpec_ok_iff _ ⟨_⟩).mpr (render_text isSpace names), ?_⟩
  rw [List.map_map]
  exact List.map_id'' (fun _ => rfl) columns

/-- For every spec and every bound that is larger than its length, the parser ends below the bound and never
reads past the end. It returns the fields of a spec of the grammar and throws a table_spec_error for any
other one, and a rendered list of alignments and names is parsed to that list. -/
theorem table_spec_grammar (spec : Str) (fuel : Nat) (enough : spec.length < fuel) :
    (∀ table, parseTableSpecAt fuel spec = .ok table ↔ SpecText spec table.fields) ∧
      ((¬ ∃ fields, SpecText spec fields) ↔ ∃ err, parseTableSpecAt fuel spec = .error (.error err)) ∧
      ∀ gap columns, IsSpace gap → (∀ column ∈ columns, '}' ∉ column.2) → spec = render gap columns →
        ∃ table, parseTableSpecAt fuel spec = .ok table ∧
          table.fields.map (fun field => (field.align, field.name)) = columns := by
  rw [parseTableSpecAt_eq enough]
  refine ⟨?_, ?_, ?_⟩
  · intro table
    rw [← parseTableSpec_ok_iff]
    cases parseTableSpec spec <;> simp [Except.mapError]
  · cases outcome : parseTableSpec spec with
    | error err =>
        have rejected : ¬ ∃ fields, SpecText spec fields := by
          rintro ⟨fields, text⟩
          have parsed := (parseTableSpec_ok_iff spec ⟨fields⟩).mpr text
          rw [outcome] at parsed
          contradiction
        exact ⟨fun _ => ⟨err, rfl⟩, fun _ => rejected⟩
    | ok table =>
        have text := (parseTableSpec_ok_iff spec table).mp outcome
        exact ⟨fun rejected => absurd ⟨_, text⟩ rejected, fun ⟨err, thrown⟩ => by contradiction⟩
  · rintro gap columns isSpace names rfl
    obtain ⟨table, parsed, same⟩ := parse_render isSpace names
    rw [parsed]
    exact ⟨table, rfl, same⟩

theorem table_spec_grammar_two :
    let spec := "{<:a} {>:b}".toList
    (∀ table, parseTableSpecAt 20 spec = .ok table ↔ SpecText spec table.fields) ∧
      ((¬ ∃ fields, SpecText spec fields) ↔ ∃ err, parseTableSpecAt 20 spec = .error (.error err)) ∧
      ∀ gap columns, IsSpace gap → (∀ column ∈ columns, '}' ∉ column.2) → spec = render gap columns →
        ∃ table, parseTableSpecAt 20 spec = .ok table ∧
          table.fields.map (fun field => (field.align, field.name)) = columns :=
  table_spec_grammar "{<:a} {>:b}".toList 20 (by decide)

end Nihil

/-
Module: Nihil.Library.OutputProgram
Layer: Library
Purpose: What a program does with one output iterator, as data: it puts single values through the iterator
  and has algorithms copy ranges to it by value. A position iterator writes to numbered positions, and its
  copies either share their position or have one each. A program writes its text to successive positions
  through an iterator of the second kind exactly if it writes nothing behind a range that was copied
  (`successive_iff`).
Imports: Nihil.Library.OutputIterator
Trusted boundary: none
Main exports: Output, runOutputs, textOf, copiedOf, PositionIterator, writeAt, Successive, KeepsPlace,
  successive_iff, pointer
-/
import Mathlib.Logic.Function.Basic
import Nihil.Library.OutputIterator

namespace Nihil.Library

universe u v w

variable {ι : Type u} {σ : Type v} {α : Type w}

/-! ### Programs -/

/-- One use of an output iterator. -/
inductive Output (α : Type w) where
  /-- `*it++ = value`. -/
  | put (value : α)
  /-- An algorithm copies a range to the iterator, which it takes by value. -/
  | copy (values : List α)

namespace Output

/-- What is to be written. -/
def text : Output α → List α
  | .put value => [value]
  | .copy values => values

def run (out : OutputIterator ι σ α) : Output α → ι × σ → ι × σ
  | .put value => out.put value
  | .copy values => out.copy values

/-- The range that is copied. -/
def copied? : Output α → Option (List α)
  | .put _ => none
  | .copy values => some values

end Output

/-- Use the iterator once after the other. -/
def runOutputs (out : OutputIterator ι σ α) (outputs : List (Output α)) (cursor : ι × σ) : ι × σ :=
  outputs.foldl (fun cursor output => output.run out cursor) cursor

def textOf (outputs : List (Output α)) : List α :=
  outputs.flatMap Output.text

/-- The ranges that are copied. -/
def copiedOf (outputs : List (Output α)) : List (List α) :=
  outputs.filterMap Output.copied?

@[simp] theorem textOf_nil : textOf ([] : List (Output α)) = [] := rfl

@[simp] theorem textOf_cons (output : Output α) (outputs : List (Output α)) :
    textOf (output :: outputs) = output.text ++ textOf outputs := rfl

theorem textOf_eq_nil {outputs : List (Output α)} :
    textOf outputs = [] ↔ ∀ output ∈ outputs, output.text = [] :=
  List.flatMap_eq_nil_iff

@[simp] theorem copiedOf_append (first second : List (Output α)) :
    copiedOf (first ++ second) = copiedOf first ++ copiedOf second :=
  List.filterMap_append

@[simp] theorem copiedOf_nil : copiedOf ([] : List (Output α)) = [] := rfl

@[simp] theorem copiedOf_copy (values : List α) (outputs : List (Output α)) :
    copiedOf (Output.copy values :: outputs) = values :: copiedOf outputs := rfl

@[simp] theorem copiedOf_map_put (values : List α) : copiedOf (values.map Output.put) = [] := by
  simp [copiedOf, Output.copied?]

@[simp] theorem runOutputs_nil (out : OutputIterator ι σ α) (cursor : ι × σ) :
    runOutputs out [] cursor = cursor := rfl

@[simp] theorem runOutputs_cons (out : OutputIterator ι σ α) (output : Output α)
    (outputs : List (Output α)) (cursor : ι × σ) :
    runOutputs out (output :: outputs) cursor = runOutputs out outputs (output.run out cursor) := rfl

@[simp] theorem runOutputs_append (out : OutputIterator ι σ α) (first second : List (Output α))
    (cursor : ι × σ) :
    runOutputs out (first ++ second) cursor = runOutputs out second (runOutputs out first cursor) :=
  List.foldl_append

theorem runOutputs_map_put (out : OutputIterator ι σ α) (values : List α) (cursor : ι × σ) :
    runOutputs out (values.map Output.put) cursor = out.putAll values cursor :=
  List.foldl_map

/-- Through an appending iterator every program appends its text. -/
theorem contents_runOutputs (out : AppendingIterator ι σ α) (outputs : List (Output α)) (cursor : ι × σ) :
    out.contents (runOutputs out.toOutputIterator outputs cursor).2 =
      out.contents cursor.2 ++ textOf outputs := by
  induction outputs generalizing cursor with
  | nil => simp
  | cons output outputs ih =>
      rw [runOutputs_cons, ih, textOf_cons, ← List.append_assoc]
      congr 1
      cases output with
      | put value => exact out.contents_put value cursor
      | copy values => exact out.contents_copy values cursor

/-! ### Positions -/

/-- An output iterator that writes to positions, starting where nothing was written. If its copies share
their position, an assignment through any of them moves all of them; otherwise only advancing a copy moves
it. -/
structure PositionIterator (ι : Type u) (σ : Type v) (α : Type w) extends OutputIterator ι σ α where
  shared : Bool
  contents : σ → Nat → Option α
  position : ι → σ → Nat
  contents_assign : ∀ it value state,
    contents (assign it value state) = Function.update (contents state) (position it state) (some value)
  position_assign : ∀ it other value state,
    position other (assign it value state) = position other state + if shared then 1 else 0
  position_advance : ∀ it state, position (advance it) state = position it state + if shared then 0 else 1
  start : ι
  blank : σ
  contents_blank : contents blank = fun _ => none

/-- Write values to successive positions. -/
def writeAt (memory : Nat → Option α) (position : Nat) : List α → Nat → Option α
  | [] => memory
  | value :: values => writeAt (Function.update memory position (some value)) (position + 1) values

theorem writeAt_append (memory : Nat → Option α) (position : Nat) (first second : List α) :
    writeAt memory position (first ++ second) =
      writeAt (writeAt memory position first) (position + first.length) second := by
  induction first generalizing memory position with
  | nil => rfl
  | cons value first ih =>
      rw [List.cons_append, writeAt, ih, writeAt, List.length_cons]
      congr 1
      omega

/-- What is written where. -/
theorem writeAt_apply (memory : Nat → Option α) (position : Nat) (values : List α) (k : Nat) :
    writeAt memory position values k =
      if position ≤ k ∧ k < position + values.length then values[k - position]? else memory k := by
  induction values generalizing memory position with
  | nil => rw [writeAt, if_neg (by simp)]
  | cons value values ih =>
      rw [writeAt, ih, List.length_cons]
      by_cases here : k = position
      · subst here
        rw [if_neg (by omega), if_pos (by omega), Function.update_self, Nat.sub_self]
        rfl
      · rw [Function.update_of_ne here]
        by_cases inside : position + 1 ≤ k ∧ k < position + 1 + values.length
        · have behind : k - position = (k - (position + 1)) + 1 := by omega
          rw [if_pos inside, if_pos (by omega), behind, List.getElem?_cons_succ]
        · rw [if_neg inside, if_neg (by omega)]

namespace PositionIterator

variable (out : PositionIterator ι σ α)

/-- How far an output moves the iterator it was made with. -/
def moved : Output α → Nat
  | .put _ => 1
  | .copy values => if out.shared then values.length else 0

/-- The contents after a program, and where it leaves the iterator, seen from outside. -/
def effect (outputs : List (Output α)) (memory : Nat → Option α) (position : Nat) :
    (Nat → Option α) × Nat :=
  outputs.foldl (fun seen output => (writeAt seen.1 seen.2 output.text, seen.2 + out.moved output))
    (memory, position)

theorem effect_cons (output : Output α) (outputs : List (Output α)) (memory : Nat → Option α)
    (position : Nat) :
    out.effect (output :: outputs) memory position =
      out.effect outputs (writeAt memory position output.text) (position + out.moved output) := rfl

theorem putAll_spec (values : List α) (it : ι) (state : σ) :
    out.contents (out.putAll values (it, state)).2 =
        writeAt (out.contents state) (out.position it state) values ∧
      (∀ other, out.position other (out.putAll values (it, state)).2 =
        out.position other state + if out.shared then values.length else 0) := by
  induction values generalizing it state with
  | nil => simp [OutputIterator.putAll, writeAt]
  | cons value values ih =>
      have step : out.putAll (value :: values) (it, state) =
          out.putAll values (out.advance it, out.assign it value state) := rfl
      have next : out.position (out.advance it) (out.assign it value state) = out.position it state + 1 := by
        rw [out.position_advance, out.position_assign]
        cases out.shared <;> rfl
      obtain ⟨written, moved⟩ := ih (out.advance it) (out.assign it value state)
      rw [step]
      constructor
      · rw [written, next, out.contents_assign, writeAt]
      · intro other
        rw [moved, out.position_assign, List.length_cons]
        cases out.shared with
        | false => rfl
        | true =>
            rw [if_pos rfl, if_pos rfl, if_pos rfl]
            omega

/-- One output seen from outside. -/
theorem run_spec (output : Output α) (it : ι) (state : σ) :
    let after := output.run out.toOutputIterator (it, state)
    out.contents after.2 = writeAt (out.contents state) (out.position it state) output.text ∧
      out.position after.1 after.2 = out.position it state + out.moved output := by
  cases output with
  | put value =>
      constructor
      · exact out.contents_assign it value state
      · simp only [Output.run, OutputIterator.put, moved]
        rw [out.position_advance, out.position_assign]
        cases out.shared <;> rfl
  | copy values =>
      obtain ⟨written, moved⟩ := out.putAll_spec values it state
      exact ⟨written, moved it⟩

theorem contents_runOutputs (outputs : List (Output α)) (it : ι) (state : σ) :
    out.contents (runOutputs out.toOutputIterator outputs (it, state)).2 =
      (out.effect outputs (out.contents state) (out.position it state)).1 := by
  induction outputs generalizing it state with
  | nil => rfl
  | cons output outputs ih =>
      obtain ⟨written, moved⟩ := out.run_spec output it state
      rw [runOutputs_cons, effect_cons, ih, written, moved]

/-- A program writes its text to successive positions. -/
def Successive (outputs : List (Output α)) : Prop :=
  out.contents (runOutputs out.toOutputIterator outputs (out.start, out.blank)).2 =
    writeAt (fun _ => none) (out.position out.start out.blank) (textOf outputs)

/-- A pointer into a buffer: its position is its own. -/
def pointer (α : Type w) : PositionIterator Nat (Nat → Option α) α where
  assign := fun address value memory => Function.update memory address (some value)
  advance := fun address => address + 1
  shared := false
  contents := id
  position := fun address _ => address
  contents_assign := fun _ _ _ => rfl
  position_assign := fun _ _ _ _ => rfl
  position_advance := fun _ _ => rfl
  start := 0
  blank := fun _ => none
  contents_blank := rfl

end PositionIterator

/-! ### Keeping the place -/

/-- Behind a range that was copied no text is written. -/
def KeepsPlace (first second : Output α) : Prop :=
  match first with
  | .put _ => True
  | .copy values => values = [] ∨ second.text = []

theorem pairwise_keepsPlace_of_blank {outputs : List (Output α)}
    (blank : ∀ output ∈ outputs, output.text = []) : outputs.Pairwise KeepsPlace := by
  apply List.pairwise_of_forall_mem_list
  intro first _ second later
  cases first with
  | put value => trivial
  | copy values => exact Or.inr (blank second later)

theorem pairwise_keepsPlace_of_copied {outputs : List (Output α)}
    (nothing : ∀ values ∈ copiedOf outputs, values = []) : outputs.Pairwise KeepsPlace := by
  apply List.pairwise_of_forall_mem_list
  intro first member second _
  cases first with
  | put value => trivial
  | copy values => exact Or.inl (nothing values (List.mem_filterMap.mpr ⟨_, member, rfl⟩))

/-- A program that puts a value at its end keeps its place exactly if it copies nothing. -/
theorem pairwise_keepsPlace_concat_put (outputs : List (Output α)) (value : α) :
    (outputs ++ [Output.put value]).Pairwise KeepsPlace ↔ ∀ values ∈ copiedOf outputs, values = [] := by
  constructor
  · intro keeps values copied
    obtain ⟨output, member, range⟩ := List.mem_filterMap.mp copied
    cases output with
    | put other => cases range
    | copy others =>
        cases range
        have place := (List.pairwise_append.mp keeps).2.2 _ member _ (List.mem_singleton_self _)
        rcases place with empty | blank
        · exact empty
        · cases blank
  · intro nothing
    apply pairwise_keepsPlace_of_copied
    intro values copied
    rw [copiedOf_append, List.mem_append] at copied
    rcases copied with earlier | last
    · exact nothing values earlier
    · cases last

namespace PositionIterator

variable (out : PositionIterator ι σ α)

theorem effect_of_blank {outputs : List (Output α)} (blank : ∀ output ∈ outputs, output.text = [])
    (memory : Nat → Option α) (position : Nat) : (out.effect outputs memory position).1 = memory := by
  induction outputs generalizing position with
  | nil => rfl
  | cons output outputs ih =>
      rw [effect_cons, blank output List.mem_cons_self, writeAt]
      exact ih (fun other later => blank other (List.mem_cons_of_mem _ later)) _

theorem moved_le (output : Output α) : out.moved output ≤ output.text.length := by
  cases output with
  | put value => exact Nat.le_refl _
  | copy values =>
      simp only [moved, Output.text]
      split <;> omega

/-- A program that keeps its place writes its text to successive positions. -/
theorem effect_of_keepsPlace {outputs : List (Output α)}
    (keeps : out.shared = true ∨ outputs.Pairwise KeepsPlace) (memory : Nat → Option α) (position : Nat) :
    (out.effect outputs memory position).1 = writeAt memory position (textOf outputs) := by
  induction outputs generalizing memory position with
  | nil => rfl
  | cons output outputs ih =>
      have rest : out.shared = true ∨ outputs.Pairwise KeepsPlace :=
        keeps.imp_right fun pairs => (List.pairwise_cons.mp pairs).2
      rw [effect_cons, textOf_cons, writeAt_append]
      by_cases place : out.moved output = output.text.length
      · rw [place]
        exact ih rest _ _
      · -- the iterator stays in front of what was copied, so nothing may follow
        have blank : ∀ later ∈ outputs, later.text = [] := by
          cases output with
          | put value => exact absurd rfl place
          | copy values =>
              rcases keeps with shared | pairs
              · simp [moved, shared, Output.text] at place
              · intro later member
                rcases (List.pairwise_cons.mp pairs).1 later member with empty | text
                · simp [moved, empty, Output.text] at place
                · exact text
        rw [effect_of_blank out blank, textOf_eq_nil.mpr blank, writeAt]

/-- What is not written lies behind the text. -/
theorem effect_none_beyond {outputs : List (Output α)} {memory : Nat → Option α} {position bound : Nat}
    (inside : position ≤ bound) (unwritten : ∀ k, bound ≤ k → memory k = none) (k : Nat)
    (beyond : bound + (textOf outputs).length ≤ k) : (out.effect outputs memory position).1 k = none := by
  induction outputs generalizing memory position bound with
  | nil => exact unwritten k beyond
  | cons output outputs ih =>
      rw [textOf_cons, List.length_append] at beyond
      rw [effect_cons]
      have moved := out.moved_le output
      have next : position + out.moved output ≤ bound + output.text.length := by omega
      apply ih next
      · intro j behind
        rw [writeAt_apply, if_neg (by omega)]
        exact unwritten j (by omega)
      · omega

/-- Once the iterator is behind, the last position of the text stays unwritten. -/
theorem effect_none_last {outputs : List (Output α)} {memory : Nat → Option α} {position bound : Nat}
    (behind : position < bound) (unwritten : ∀ k, bound ≤ k → memory k = none)
    (text : textOf outputs ≠ []) :
    (out.effect outputs memory position).1 (bound + (textOf outputs).length - 1) = none := by
  induction outputs generalizing memory position with
  | nil => exact absurd rfl text
  | cons output outputs ih =>
      rw [effect_cons, textOf_cons, List.length_append]
      have moved := out.moved_le output
      by_cases empty : output.text = []
      · rw [empty, List.length_nil] at moved
        rw [empty, writeAt, List.length_nil, Nat.zero_add, Nat.le_zero.mp moved]
        apply ih behind unwritten
        rwa [textOf_cons, empty, List.nil_append] at text
      · have positive := List.length_pos_of_ne_nil empty
        have next : position + out.moved output ≤ bound + output.text.length - 1 := by omega
        apply out.effect_none_beyond next
        · intro j beyond
          rw [writeAt_apply, if_neg (by omega)]
          exact unwritten j (by omega)
        · omega

theorem keepsPlace_of_effect (own : out.shared = false) {outputs : List (Output α)}
    {memory : Nat → Option α} {position : Nat} (unwritten : ∀ k, position ≤ k → memory k = none)
    (successive : (out.effect outputs memory position).1 = writeAt memory position (textOf outputs)) :
    outputs.Pairwise KeepsPlace := by
  induction outputs generalizing memory position with
  | nil => exact List.Pairwise.nil
  | cons output outputs ih =>
      rw [effect_cons, textOf_cons, writeAt_append] at successive
      have beyond : ∀ k, position + output.text.length ≤ k →
          writeAt memory position output.text k = none := by
        intro k behind
        rw [writeAt_apply, if_neg (by omega)]
        exact unwritten k (by omega)
      by_cases place : out.moved output = output.text.length
      · rw [place] at successive
        apply List.Pairwise.cons _ (ih beyond successive)
        intro later _
        cases output with
        | put value => trivial
        | copy values =>
            have nothing : values.length = 0 := by
              simpa [moved, own, Output.text] using place.symm
            exact Or.inl (List.eq_nil_of_length_eq_zero nothing)
      · have behind : position + out.moved output < position + output.text.length := by
          have bound := out.moved_le output
          omega
        have blank : textOf outputs = [] := by
          by_contra text
          have last := congrFun successive (position + output.text.length + (textOf outputs).length - 1)
          have positive := List.length_pos_of_ne_nil text
          rw [out.effect_none_last behind beyond text, writeAt_apply, if_pos (by omega)] at last
          have written := List.getElem?_eq_none_iff.mp last.symm
          omega
        have later := textOf_eq_nil.mp blank
        apply List.Pairwise.cons _ (pairwise_keepsPlace_of_blank later)
        intro next member
        cases output with
        | put value => trivial
        | copy values => exact Or.inr (later next member)

/-- A program writes its text to successive positions exactly if the copies of the iterator share their
position or nothing is written behind a range that was copied. -/
theorem successive_iff (outputs : List (Output α)) :
    out.Successive outputs ↔ out.shared = true ∨ outputs.Pairwise KeepsPlace := by
  unfold Successive
  rw [contents_runOutputs, out.contents_blank]
  constructor
  · intro successive
    cases shared : out.shared with
    | true => exact Or.inl rfl
    | false => exact Or.inr (out.keepsPlace_of_effect shared (fun _ _ => rfl) successive)
  · intro keeps
    exact out.effect_of_keepsPlace keeps _ _

end PositionIterator

end Nihil.Library

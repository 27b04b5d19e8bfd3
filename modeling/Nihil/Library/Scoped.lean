/-
Module: Nihil.Library.Scoped
Layer: Library
Purpose: Cells that guards set for their lifetime. A guard remembers what it found in its cell and puts it
  back when it ends; what the cells should hold is what the newest guard in force has put there. As long
  as only the newest guard of a cell ends, the two are the same, and the first other end makes them differ.
Imports: Nihil.Library.Slots
Trusted boundary: none
Main exports: Setting, Scoped, enter, leave, innermost, without, Agrees, Linked, Scoped.Nested, Nested.enter,
  Nested.leave, Nested.not_agrees_leave
-/
import Nihil.Library.Slots

namespace Nihil.Library

universe u

/-- What is in a cell: what was there from the start, or what a guard has put there. -/
inductive Setting (κ : Type u) where
  | own (key : κ)
  | guard (i : Nat)
deriving DecidableEq, Repr

/-- Cells, some of which are empty, and guards. A guard holds its cell and what it found there; if it found
nothing it looks like one that has ended. -/
structure Scoped (κ : Type u) where
  cells : κ → Option (Setting κ)
  guards : Slots (κ × Setting κ) := []

variable {κ : Type u}

/-- A guard is no longer in force. -/
def without (i : Nat) (guards : List (Nat × κ)) : List (Nat × κ) := guards.filter fun guard => guard.1 ≠ i

theorem without_eq_self {guards : List (Nat × κ)} {i : Nat} (absent : ∀ guard ∈ guards, guard.1 ≠ i) :
    without i guards = guards := by
  apply List.filter_eq_self.mpr
  exact fun guard member => decide_eq_true (absent guard member)

theorem mem_without {guards : List (Nat × κ)} {i : Nat} {guard : Nat × κ} :
    guard ∈ without i guards ↔ guard ∈ guards ∧ guard.1 ≠ i := by
  simp [without]

variable [DecidableEq κ]

namespace Scoped

/-- A guard is constructed for a cell. -/
def enter (state : Scoped κ) (key : κ) : Scoped κ where
  cells := Function.update state.cells key (some (.guard state.guards.length))
  guards := state.guards.construct ((state.cells key).map fun old => (key, old))

/-- Guard `i` puts back what it holds; `slot` is what is left of it. -/
def leave (state : Scoped κ) (i : Nat) (held : Option (κ × Setting κ))
    (slot : Option (Option (κ × Setting κ))) : Scoped κ where
  cells :=
    match held with
    | none => state.cells
    | some both => Function.update state.cells both.1 (some both.2)
  guards := state.guards.set i slot

end Scoped

/-! ### What the cells should hold -/

/-- What the newest guard in force has put into a cell; the guards are given newest first, with their cells. -/
def innermost (base : κ → Option (Setting κ)) : List (Nat × κ) → κ → Option (Setting κ)
  | [], key => base key
  | guard :: guards, key => if guard.2 = key then some (.guard guard.1) else innermost base guards key

variable {base : κ → Option (Setting κ)} {state : Scoped κ} {guards : List (Nat × κ)}

/-- The cells hold what they should, and the guards in force are those that hold something to put back. -/
structure Scoped.Agrees (base : κ → Option (Setting κ)) (state : Scoped κ) (guards : List (Nat × κ)) :
    Prop where
  cells : ∀ key, state.cells key = innermost base guards key
  inForce : ∀ i, (∃ key, (i, key) ∈ guards) ↔ ∃ held, state.guards.handle? i = some (some held)

/-- Each guard holds what the older ones have put into its cell. -/
def Linked (base : κ → Option (Setting κ)) (slots : Slots (κ × Setting κ)) : List (Nat × κ) → Prop
  | [] => True
  | guard :: guards =>
      (∃ old, innermost base guards guard.2 = some old ∧
        slots.handle? guard.1 = some (some (guard.2, old))) ∧
      (∀ older ∈ guards, older.1 < guard.1) ∧ Linked base slots guards

/-- Where another guard is the newest one, nothing changes. -/
theorem innermost_without_of_ne {i : Nat} {key : κ} (other : innermost base guards key ≠ some (.guard i)) :
    innermost base (without i guards) key = innermost base guards key := by
  induction guards with
  | nil => rfl
  | cons guard guards ih =>
      rw [innermost] at other ⊢
      unfold without
      by_cases here : guard.1 = i
      · split_ifs at other ⊢ with same
        · exact absurd (by rw [here]) other
        · rw [List.filter_cons_of_neg (by simpa using here)]
          exact ih other
      · rw [List.filter_cons_of_pos (by simpa using here), innermost]
        split_ifs at other ⊢ with same
        · rfl
        · exact ih other

/-- A guard that has put something into a cell is in force. -/
theorem mem_of_innermost (proper : ∀ key i, base key ≠ some (.guard i)) {key : κ} {i : Nat}
    (newest : innermost base guards key = some (.guard i)) : (i, key) ∈ guards := by
  induction guards with
  | nil => exact absurd newest (proper key i)
  | cons guard guards ih =>
      rw [innermost] at newest
      split_ifs at newest with same
      · cases newest
        rw [← same]
        exact List.mem_cons_self
      · exact List.mem_cons_of_mem _ (ih newest)

/-- A cell with a guard in force is not as it was at the start. -/
theorem innermost_of_mem {key : κ} {i : Nat} (member : (i, key) ∈ guards) :
    ∃ j, innermost base guards key = some (.guard j) ∧ (j, key) ∈ guards := by
  induction guards with
  | nil => cases member
  | cons guard guards ih =>
      rw [innermost]
      split_ifs with same
      · exact ⟨guard.1, rfl, by rw [← same]; exact List.mem_cons_self⟩
      · rcases List.mem_cons.mp member with here | older
        · exact absurd (congrArg Prod.snd here).symm same
        · obtain ⟨j, newest, there⟩ := ih older
          exact ⟨j, newest, List.mem_cons_of_mem _ there⟩

namespace Linked

variable {slots : Slots (κ × Setting κ)}

theorem held (linked : Linked base slots guards) {guard : Nat × κ} (member : guard ∈ guards) :
    ∃ old, slots.handle? guard.1 = some (some (guard.2, old)) := by
  induction guards with
  | nil => cases member
  | cons first guards ih =>
      obtain ⟨⟨old, -, live⟩, -, rest⟩ := linked
      rcases List.mem_cons.mp member with rfl | older
      · exact ⟨old, live⟩
      · exact ih rest older

/-- Other slots do not matter. -/
theorem congr {slots' : Slots (κ × Setting κ)} (linked : Linked base slots guards)
    (same : ∀ guard ∈ guards, slots'.handle? guard.1 = slots.handle? guard.1) : Linked base slots' guards := by
  induction guards with
  | nil => trivial
  | cons guard guards ih =>
      obtain ⟨⟨old, found, live⟩, older, rest⟩ := linked
      refine ⟨⟨old, found, ?_⟩, older, ih rest fun other member => same other (List.mem_cons_of_mem _ member)⟩
      rw [same guard List.mem_cons_self, live]

/-- What a guard holds is older than itself. -/
theorem older (proper : ∀ key i, base key ≠ some (.guard i)) (linked : Linked base slots guards)
    {i j : Nat} {key : κ} (member : (i, key) ∈ guards) (live : slots.handle? i = some (some (key, .guard j))) :
    j < i := by
  induction guards with
  | nil => cases member
  | cons guard guards ih =>
      obtain ⟨⟨old, found, live'⟩, older, rest⟩ := linked
      rcases List.mem_cons.mp member with here | there
      · rw [← here] at found live' older
        rw [live] at live'
        cases live'
        exact older (j, key) (mem_of_innermost proper found)
      · exact ih rest there

theorem le_newest (linked : Linked base slots guards) {i j : Nat} {key : κ} (member : (i, key) ∈ guards)
    (newest : innermost base guards key = some (.guard j)) : i ≤ j := by
  induction guards with
  | nil => cases member
  | cons guard guards ih =>
      obtain ⟨-, older, rest⟩ := linked
      rw [innermost] at newest
      split_ifs at newest with same
      · cases newest
        rcases List.mem_cons.mp member with here | there
        · exact Nat.le_of_eq (congrArg Prod.fst here)
        · exact Nat.le_of_lt (older _ there)
      · rcases List.mem_cons.mp member with here | there
        · exact absurd (congrArg Prod.snd here).symm same
        · exact ih rest there newest

/-- Behind the newest guard of a cell is what it found there. -/
theorem innermost_without (linked : Linked base slots guards) {i : Nat} {key : κ} {old : Setting κ}
    (live : slots.handle? i = some (some (key, old))) (newest : innermost base guards key = some (.guard i))
    (proper : ∀ key i, base key ≠ some (.guard i)) :
    innermost base (without i guards) key = some old := by
  induction guards with
  | nil => exact absurd newest (proper key i)
  | cons guard guards ih =>
      obtain ⟨⟨old', found, live'⟩, older, rest⟩ := linked
      rw [innermost] at newest
      unfold without
      split_ifs at newest with same
      · cases newest
        rw [live] at live'
        cases live'
        rw [List.filter_cons_of_neg (by simp)]
        exact (congrArg (innermost base · _) (without_eq_self fun other member =>
          Nat.ne_of_lt (older other member))).trans found
      · have here : guard.1 ≠ i := by
          intro here
          rw [here, live] at live'
          cases live'
          exact same rfl
        rw [List.filter_cons_of_pos (by simpa using here), innermost, if_neg same]
        exact ih rest newest

/-- When the newest guard of its cell is taken out, the others still hold what the older ones have put there. -/
theorem taken (linked : Linked base slots guards) {i : Nat} {key : κ} {old : Setting κ}
    (live : slots.handle? i = some (some (key, old))) (newest : innermost base guards key = some (.guard i))
    (proper : ∀ key i, base key ≠ some (.guard i)) : Linked base slots (without i guards) := by
  induction guards with
  | nil => exact absurd newest (proper key i)
  | cons guard guards ih =>
      obtain ⟨⟨old', found, live'⟩, older, rest⟩ := linked
      rw [innermost] at newest
      unfold without
      split_ifs at newest with same
      · cases newest
        rw [List.filter_cons_of_neg (by simp)]
        change Linked base slots (without guard.1 guards)
        rw [without_eq_self fun other member => Nat.ne_of_lt (older other member)]
        exact rest
      · have here : guard.1 ≠ i := by
          intro here
          rw [here, live] at live'
          cases live'
          exact same rfl
        have elsewhere : innermost base guards guard.2 ≠ some (.guard i) := by
          intro newest'
          obtain ⟨old'', live''⟩ := rest.held (mem_of_innermost proper newest')
          rw [live] at live''
          cases live''
          exact same rfl
        rw [List.filter_cons_of_pos (by simpa using here)]
        refine ⟨⟨old', ?_, live'⟩, ?_, ih rest newest⟩
        · exact (innermost_without_of_ne elsewhere).trans found
        · exact fun other member => older other (mem_without.mp member).1

end Linked

/-! ### Guards that begin and end -/

/-- The cells hold what they should, and every guard in force holds what the older ones have put there. -/
structure Scoped.Nested (base : κ → Option (Setting κ)) (state : Scoped κ) (guards : List (Nat × κ)) :
    Prop where
  agrees : state.Agrees base guards
  linked : Linked base state.guards guards

namespace Scoped

theorem enter_cells (state : Scoped κ) (key other : κ) :
    (state.enter key).cells other =
      if other = key then some (.guard state.guards.length) else state.cells other :=
  Function.update_apply state.cells key _ other

theorem leave_cells (state : Scoped κ) (i : Nat) (key : κ) (old : Setting κ)
    (slot : Option (Option (κ × Setting κ))) (other : κ) :
    (state.leave i (some (key, old)) slot).cells other =
      if other = key then some old else state.cells other :=
  Function.update_apply state.cells key _ other

theorem Nested.lt_length (nested : state.Nested base guards) {guard : Nat × κ} (member : guard ∈ guards) :
    guard.1 < state.guards.length := by
  obtain ⟨old, live⟩ := nested.linked.held member
  exact Slots.lt_length_of_handle? live

/-- A guard for a cell that is not empty. -/
theorem Nested.enter (nested : state.Nested base guards) {key : κ} (found : state.cells key ≠ none) :
    (state.enter key).Nested base ((state.guards.length, key) :: guards) := by
  obtain ⟨old, found⟩ := Option.ne_none_iff_exists'.mp found
  have slots : (state.enter key).guards = state.guards.construct (some (key, old)) := by
    rw [Scoped.enter, found]
    rfl
  have kept : ∀ guard ∈ guards,
      (state.enter key).guards.handle? guard.1 = state.guards.handle? guard.1 := by
    intro guard member
    rw [slots, Slots.handle?_construct, if_neg (Nat.ne_of_lt (nested.lt_length member))]
  refine ⟨⟨?_, ?_⟩, ⟨old, ?_, ?_⟩, fun guard member => nested.lt_length member, nested.linked.congr kept⟩
  · intro other
    rw [innermost, enter_cells, nested.agrees.cells]
    exact if_congr eq_comm rfl rfl
  · intro i
    rw [slots, Slots.handle?_construct]
    by_cases new : i = state.guards.length
    · rw [if_pos new, new]
      exact iff_of_true ⟨key, List.mem_cons_self⟩ ⟨(key, old), rfl⟩
    · rw [if_neg new, ← nested.agrees.inForce i]
      simp [new]
  · rw [← nested.agrees.cells, found]
  · rw [slots, Slots.handle?_construct, if_pos rfl]

/-- A guard for an empty cell is in force and holds nothing. -/
theorem not_agrees_enter {key : κ} (empty : state.cells key = none) :
    ¬ (state.enter key).Agrees base ((state.guards.length, key) :: guards) := by
  intro agrees
  obtain ⟨held, live⟩ := (agrees.inForce state.guards.length).mp ⟨key, List.mem_cons_self⟩
  rw [Scoped.enter, empty] at live
  simp [Slots.handle?_construct] at live

/-- A guard that has ended is not in force. -/
theorem Nested.without_eq (nested : state.Nested base guards) {i : Nat}
    (live : state.guards.handle? i = some none) : without i guards = guards := by
  apply without_eq_self
  rintro guard member rfl
  obtain ⟨old, live'⟩ := nested.linked.held member
  rw [live] at live'
  cases live'

/-- A guard that has ended before. -/
theorem Nested.leaveEmpty (nested : state.Nested base guards) {i : Nat}
    (live : state.guards.handle? i = some none) {slot : Option (Option (κ × Setting κ))}
    (empty : slot.join = none) : (state.leave i none slot).Nested base (without i guards) := by
  have inside := Slots.lt_length_of_handle? live
  have kept : ∀ k held, (state.leave i none slot).guards.handle? k = some (some held) ↔
      state.guards.handle? k = some (some held) := by
    intro k held
    rw [Scoped.leave, Slots.handle?_set inside]
    split_ifs with same
    · rw [same, live]
      constructor
      · intro filled
        rw [filled] at empty
        cases empty
      · intro filled
        cases filled
    · rfl
  rw [nested.without_eq live]
  refine ⟨⟨nested.agrees.cells, fun k => ?_⟩, nested.linked.congr fun guard member => ?_⟩
  · simp only [kept]
    exact nested.agrees.inForce k
  · obtain ⟨old, live'⟩ := nested.linked.held member
    rw [live', (kept guard.1 _).mpr live']

/-- The newest guard of a cell ends. -/
theorem Nested.leave (nested : state.Nested base guards) (proper : ∀ key i, base key ≠ some (.guard i))
    {i : Nat} {key : κ} {old : Setting κ} (live : state.guards.handle? i = some (some (key, old)))
    (newest : state.cells key = some (.guard i)) {slot : Option (Option (κ × Setting κ))}
    (empty : slot.join = none) : (state.leave i (some (key, old)) slot).Nested base (without i guards) := by
  have inside := Slots.lt_length_of_handle? live
  rw [nested.agrees.cells] at newest
  have kept : ∀ guard ∈ without i guards,
      (state.leave i (some (key, old)) slot).guards.handle? guard.1 = state.guards.handle? guard.1 := by
    intro guard member
    rw [Scoped.leave, Slots.handle?_set inside, if_neg (mem_without.mp member).2]
  refine ⟨⟨?_, ?_⟩, (nested.linked.taken live newest proper).congr kept⟩
  · intro other
    rw [leave_cells]
    split_ifs with same
    · rw [same, nested.linked.innermost_without live newest proper]
    · have elsewhere : innermost base guards other ≠ some (.guard i) := by
        intro newest'
        obtain ⟨old', live'⟩ := nested.linked.held (mem_of_innermost proper newest')
        rw [live] at live'
        cases live'
        exact same rfl
      rw [innermost_without_of_ne elsewhere, nested.agrees.cells]
  · intro k
    rw [Scoped.leave, Slots.handle?_set inside]
    split_ifs with same
    · subst same
      constructor
      · rintro ⟨cell, member⟩
        exact absurd rfl (mem_without.mp member).2
      · rintro ⟨held, filled⟩
        rw [filled] at empty
        cases empty
    · rw [← nested.agrees.inForce k]
      simp [mem_without, same]

/-- Any other guard takes away what the newest one has put into the cell. -/
theorem Nested.not_agrees_leave (nested : state.Nested base guards)
    (proper : ∀ key i, base key ≠ some (.guard i)) {i : Nat} {key : κ} {old : Setting κ}
    (live : state.guards.handle? i = some (some (key, old)))
    (covered : state.cells key ≠ some (.guard i)) (slot : Option (Option (κ × Setting κ))) :
    ¬ (state.leave i (some (key, old)) slot).Agrees base (without i guards) := by
  intro agrees
  rw [nested.agrees.cells] at covered
  have after := agrees.cells key
  rw [leave_cells, if_pos rfl, innermost_without_of_ne covered] at after
  obtain ⟨cell, member⟩ := (nested.agrees.inForce i).mpr ⟨_, live⟩
  obtain ⟨old', live'⟩ := nested.linked.held member
  rw [live] at live'
  cases live'
  -- what is put back is older than the guard, and what should be there is newer
  obtain ⟨j, newest, -⟩ := innermost_of_mem member
  rw [newest] at after
  cases after
  exact Nat.lt_irrefl _ (Nat.lt_of_lt_of_le (nested.linked.older proper member live)
    (nested.linked.le_newest member newest))

end Scoped

end Nihil.Library

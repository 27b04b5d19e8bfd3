/-
Module: Nihil.Posix.Progname
Layer: Posix
Purpose: getprogname and setprogname. The C library keeps a pointer to the program name, which a setprogname
  sets to a string of its own and sets back when it ends. The name is that of the newest setprogname that
  has not ended in exactly the runs in which only the newest one ends and there is a name from the start
  (`progname_restored_iff`).
Imports: Nihil.Core.Error, Nihil.Library.Run, Nihil.Library.Scoped, Nihil.Posix.WriteFile
Trusted boundary: ::setprogname keeps a pointer into the string that it is given, behind the last slash.
Main exports: PrognameState, getprogname, PrognameAction, prognameStep, ExpectedName, Restored, EndsLast,
  progname_restored_iff
-/
import Nihil.Core.Error
import Nihil.Library.Run
import Nihil.Library.Scoped
import Nihil.Posix.WriteFile

namespace Nihil.Posix

open Nihil.Library

/-! ### The operations -/

/-- The pointer of the C library, which is null or points to the original name or to a setprogname's own
string, and the setprogname objects, each with its `m_old_progname`, if that is not null. -/
structure PrognameState where
  progname : Scoped Unit
  /-- The strings that the constructors were given. -/
  names : Nat → Str

/-- What the pointer of `::setprogname` points to, for the data of a string. -/
def prognameText (name : Str) : Str := pathFilename (name.takeWhile (· != '\x00'))

/-- `getprogname`, by the original name. -/
def getprogname (original : Str) (state : PrognameState) : Option Str :=
  (state.progname.cells ()).map fun pointer =>
    match pointer with
    | .own _ => original
    | .guard i => prognameText (state.names i)

namespace PrognameState

/-- `setprogname::setprogname`. -/
def construct (state : PrognameState) (name : Str) : PrognameState where
  progname := state.progname.enter ()
  names := Function.update state.names state.progname.guards.length name

/-- `setprogname::release` of object `i`. -/
def release (state : PrognameState) (i : Nat) (old : Option (Unit × Setting Unit)) : PrognameState :=
  match old with
  | none => state
  | some both => { state with progname := state.progname.leave i (some both) (some none) }

/-- `setprogname::~setprogname` of object `i`. -/
def destroy (state : PrognameState) (i : Nat) (old : Option (Unit × Setting Unit)) : PrognameState :=
  { state with progname := state.progname.leave i old none }

end PrognameState

/-- What a program does with its setprogname objects. -/
inductive PrognameAction where
  | construct (name : Str)
  | release (i : Nat)
  | destroy (i : Nat)
deriving DecidableEq, Repr

/-- One action. It is not allowed for an object that does not live. -/
def prognameStep (action : PrognameAction) (state : PrognameState) : Option PrognameState :=
  match action with
  | .construct name => some (state.construct name)
  | .release i => (state.progname.guards.handle? i).map fun old => state.release i old
  | .destroy i => (state.progname.guards.handle? i).map fun old => state.destroy i old

/-! ### What it is for -/

/-- The names that were set and not set back, newest first, each with the number of its object. -/
structure ExpectedName where
  names : List (Nat × Str) := []
  constructed : Nat := 0

/-- A name is set until its object ends. -/
def expectedName (action : PrognameAction) (expected : ExpectedName) : ExpectedName :=
  match action with
  | .construct name =>
      { names := (expected.constructed, name) :: expected.names, constructed := expected.constructed + 1 }
  | .release i | .destroy i => { expected with names := expected.names.filter fun named => named.1 ≠ i }

/-- The objects that have not ended. -/
def ExpectedName.guards (expected : ExpectedName) : List (Nat × Unit) :=
  expected.names.map fun named => (named.1, ())

/-- The pointer before any name is set. -/
def originalPointer (original : Option Str) (_ : Unit) : Option (Setting Unit) := original.map fun _ => .own ()

/-- The pointer is the one that the newest object has set, and getprogname returns its name. -/
structure Restored (original : Option Str) (state : PrognameState × ExpectedName) : Prop where
  pointer : state.1.progname.Agrees (originalPointer original) state.2.guards
  name : getprogname (original.getD []) state.1 =
    match state.2.names with
    | [] => original
    | newest :: _ => some (prognameText newest.2)

/-- A name is set where there is one, and set back while it is the program name. -/
def EndsLast (state : PrognameState) : PrognameAction → Prop
  | .construct _ => state.progname.cells () ≠ none
  | .release i | .destroy i =>
      ∀ old, state.progname.guards.handle? i = some (some old) → state.progname.cells () = some (.guard i)

/-- The state before any name is set. -/
def PrognameState.start (original : Option Str) : PrognameState × ExpectedName :=
  ({ progname := { cells := originalPointer original }, names := fun _ => [] }, {})

/-- The objects are nested, and each has the name that it was given. -/
structure PrognameInvariant (original : Option Str) (state : PrognameState × ExpectedName) : Prop where
  nested : state.1.progname.Nested (originalPointer original) state.2.guards
  names : ∀ named ∈ state.2.names, state.1.names named.1 = named.2
  constructed : state.1.progname.guards.length = state.2.constructed

variable {original : Option Str} {state : PrognameState × ExpectedName}

theorem originalPointer_ne_guard (original : Option Str) (key : Unit) (i : Nat) :
    originalPointer original key ≠ some (.guard i) := by
  cases original <;> simp [originalPointer]

theorem guards_filter (expected : ExpectedName) (i : Nat) :
    without i expected.guards =
      ExpectedName.guards { expected with names := expected.names.filter fun named => named.1 ≠ i } := by
  rw [without, ExpectedName.guards, List.filter_map]
  rfl

theorem PrognameInvariant.restored (invariant : PrognameInvariant original state) :
    Restored original state where
  pointer := invariant.nested.agrees
  name := by
    rw [getprogname, invariant.nested.agrees.cells, ExpectedName.guards]
    cases set : state.2.names with
    | nil => cases original <;> rfl
    | cons newest names =>
        have given := invariant.names newest (by rw [set]; exact List.mem_cons_self)
        simp [innermost, given]

theorem prognameInvariant_start (original : Option Str) :
    PrognameInvariant original (PrognameState.start original) where
  nested := by
    refine ⟨⟨fun _ => rfl, fun i => ?_⟩, trivial⟩
    constructor
    · rintro ⟨key, member⟩
      cases member
    · rintro ⟨held, live⟩
      cases live
  names := fun named member => by cases member
  constructed := rfl

/-- An object is released or destroyed. -/
theorem PrognameInvariant.leave (invariant : PrognameInvariant original state) {i : Nat}
    {old : Option (Unit × Setting Unit)} (live : state.1.progname.guards.handle? i = some old)
    (last : ∀ held, state.1.progname.guards.handle? i = some (some held) →
      state.1.progname.cells () = some (.guard i))
    {slot : Option (Option (Unit × Setting Unit))} (empty : slot.join = none) :
    PrognameInvariant original ({ state.1 with progname := state.1.progname.leave i old slot },
      { state.2 with names := state.2.names.filter fun named => named.1 ≠ i }) where
  nested := by
    rw [← guards_filter]
    cases old with
    | none => exact invariant.nested.leaveEmpty live empty
    | some both =>
        exact invariant.nested.leave (originalPointer_ne_guard original) live (last both live) empty
  names := fun named member => invariant.names named (List.mem_of_mem_filter member)
  constructed := by
    change (state.1.progname.guards.set i slot).length = _
    rw [List.length_set, invariant.constructed]

/-- Every step that ends the newest object keeps the invariant. -/
theorem PrognameInvariant.step (invariant : PrognameInvariant original state) {action : PrognameAction}
    {after : PrognameState × ExpectedName} (ends : EndsLast state.1 action)
    (taken : lockstep prognameStep expectedName action state = some after) :
    PrognameInvariant original after := by
  obtain ⟨next, stepped, rfl⟩ := Option.map_eq_some_iff.mp taken
  cases action with
  | construct name =>
      cases stepped
      rw [expectedName, ← invariant.constructed]
      refine ⟨invariant.nested.enter ends, ?_, List.length_append⟩
      intro named member
      change Function.update state.1.names state.1.progname.guards.length name named.1 = named.2
      rcases List.mem_cons.mp member with rfl | older
      · exact Function.update_self _ _ _
      · have inForce : (named.1, ()) ∈ state.2.guards := List.mem_map_of_mem older
        have before : named.1 < state.1.progname.guards.length := invariant.nested.lt_length inForce
        rw [Function.update_of_ne (Nat.ne_of_lt before)]
        exact invariant.names named older
  | release i =>
      obtain ⟨old, live, rfl⟩ := Option.map_eq_some_iff.mp stepped
      cases old with
      | none =>
          have unchanged : ∀ named ∈ state.2.names, decide (named.1 ≠ i) = true := by
            rintro named member
            apply decide_eq_true
            rintro rfl
            have inForce := (invariant.nested.agrees.inForce named.1).mp
              ⟨(), List.mem_map_of_mem member⟩
            rw [live] at inForce
            obtain ⟨held, filled⟩ := inForce
            cases filled
          rw [expectedName, List.filter_eq_self.mpr unchanged]
          exact invariant
      | some both => exact invariant.leave live ends rfl
  | destroy i =>
      obtain ⟨old, live, rfl⟩ := Option.map_eq_some_iff.mp stepped
      exact invariant.leave live ends rfl

/-- The object of an action that is not the newest one, or a name that is set where there was none. -/
theorem PrognameInvariant.lost (invariant : PrognameInvariant original state) {action : PrognameAction}
    {after : PrognameState × ExpectedName} (ends : ¬ EndsLast state.1 action)
    (taken : lockstep prognameStep expectedName action state = some after) : ¬ Restored original after := by
  intro restored
  obtain ⟨next, stepped, rfl⟩ := Option.map_eq_some_iff.mp taken
  have agrees := restored.pointer
  have proper := originalPointer_ne_guard original
  cases action with
  | construct name =>
      cases stepped
      rw [expectedName, ← invariant.constructed] at agrees
      exact Scoped.not_agrees_enter (Classical.not_not.mp ends) agrees
  | release i =>
      obtain ⟨held, live, covered⟩ : ∃ held, state.1.progname.guards.handle? i = some (some held) ∧
          state.1.progname.cells () ≠ some (.guard i) := by simpa [EndsLast] using ends
      obtain ⟨old, live', rfl⟩ := Option.map_eq_some_iff.mp stepped
      rw [live] at live'
      cases live'
      rw [expectedName, ← guards_filter] at agrees
      exact invariant.nested.not_agrees_leave proper live covered _ agrees
  | destroy i =>
      obtain ⟨held, live, covered⟩ : ∃ held, state.1.progname.guards.handle? i = some (some held) ∧
          state.1.progname.cells () ≠ some (.guard i) := by simpa [EndsLast] using ends
      obtain ⟨old, live', rfl⟩ := Option.map_eq_some_iff.mp stepped
      rw [live] at live'
      cases live'
      rw [expectedName, ← guards_filter] at agrees
      exact invariant.nested.not_agrees_leave proper live covered _ agrees

/-- The program name is that of the newest object in every state of a run exactly if every object ends as the
newest one, and no name is set where there was none. -/
theorem progname_restored_iff (original : Option Str) (actions : List PrognameAction) :
    EveryState (lockstep prognameStep expectedName) (Restored original) actions
        (PrognameState.start original) ↔
      EveryStep (lockstep prognameStep expectedName) (fun state => EndsLast state.1) actions
        (PrognameState.start original) :=
  everyState_iff (fun _ invariant => invariant.restored)
    (fun _ _ _ invariant ends taken => invariant.step ends taken)
    (fun _ _ _ invariant ends taken => invariant.lost ends taken)
    (prognameInvariant_start original) actions

end Nihil.Posix

/-
Module: Nihil.Posix.Process
Layer: Posix
Purpose: Reaping of child processes. The process objects of a program and its children are a custody: a
  child has a pid until it is waited for, and a process object holds a pid, for which it waits when it is
  destroyed. Two operations break it: wait() leaves the pid in the object, and the move assignment
  overwrites the pid of its target. Reaping holds in exactly the runs that do neither.
Imports: Nihil.Library.Run, Nihil.Library.Custody
Trusted boundary: waitpid on a child that was not waited for succeeds; a pid is not used for another child
  before its child was waited for.
Main exports: ProcessAction, processStep, Reaped, KeepsPid, process_reaped_iff
-/
import Nihil.Library.Run
import Nihil.Library.Custody

namespace Nihil.Posix

open Nihil.Library

/-! ### The operations -/

/-- The process objects, each by its `m_pid`, with none for -1, and the children that were not waited for.
The resources of the custody are the children, and their numbers are pids. -/
abbrev ProcessState := Custody

/-- `::waitpid`. The pid -1 asks for any child: `anyChild` is the pid of the one that is found, if any. -/
def waitpid (pid : Option Nat) (anyChild : Option Nat) (state : ProcessState) : ProcessState :=
  match pid, anyChild with
  | some pid, _ => state.endAt pid
  | none, some child => state.endAt child
  | none, none => state

namespace ProcessState

/-- `process::wait`. The object keeps its pid. -/
def wait (state : ProcessState) (pid : Option Nat) (anyChild : Option Nat) : ProcessState :=
  waitpid pid anyChild state

/-- `process::release` of object `i`. -/
def release (state : ProcessState) (i : Nat) (pid : Option Nat) : Option Nat × ProcessState :=
  match pid with
  | none => (none, state.replace i (some none))
  | some pid => (some pid, (Custody.release state pid).replace i (some none))

/-- `process::~process` of object `i`. -/
def destroy (state : ProcessState) (i : Nat) (pid : Option Nat) : ProcessState :=
  match pid with
  | none => state.replace i none
  | some pid => (waitpid (some pid) none state).replace i none

/-- The move assignment of object `j` to object `i`. -/
def moveAssign (state : ProcessState) (i j : Nat) : ProcessState :=
  if i = j then state else Custody.moveAssign state i j

end ProcessState

/-- What a program does with its process objects, and what the rest of it does with other children. -/
inductive ProcessAction where
  /-- `process(pid)` for a child that fork() created. -/
  | fork (pid : Nat)
  | moveConstruct (i : Nat)
  /-- Object `j` is moved to object `i`. -/
  | moveAssign (i j : Nat)
  /-- `wait()`, with the pid of the child that is found if the object has been moved from. -/
  | wait (i : Nat) (anyChild : Option Nat)
  | release (i : Nat)
  | destroy (i : Nat)
  /-- A child without a process object is created. -/
  | otherFork (pid : Nat)
  /-- A child whose pid no process object holds is waited for. -/
  | otherWait (pid : Nat)
deriving DecidableEq, Repr

/-- One action. It is not allowed for an object that does not live, for a new child with a pid that is in
use, and for waiting from outside for a pid that an object holds. -/
def processStep (action : ProcessAction) (state : ProcessState) : Option ProcessState :=
  match action with
  | .fork pid => if state.table pid = none then some (state.adopt pid) else none
  | .moveConstruct i => (state.objects.handle? i).map fun _ => state.moveConstruct i
  | .moveAssign i j =>
      (state.objects.handle? i).bind fun _ => (state.objects.handle? j).map fun _ =>
        ProcessState.moveAssign state i j
  | .wait i anyChild => (state.objects.handle? i).map fun pid => ProcessState.wait state pid anyChild
  | .release i => (state.objects.handle? i).map fun pid => (ProcessState.release state i pid).2
  | .destroy i => (state.objects.handle? i).map fun pid => ProcessState.destroy state i pid
  | .otherFork pid => if state.table pid = none then some (state.otherBegin pid) else none
  | .otherWait pid => if state.objects.Held pid then none else some (state.otherEnd pid)

/-! ### Reaping -/

/-- Every child that was handed to a process object is waited for once, by the objects or by nobody else. -/
structure Reaped (state : ProcessState) : Prop where
  /-- Every child is the concern of one live object, or was waited for once, or was handed back. -/
  exactlyOne : state.ExactlyOne
  /-- No object holds a pid whose child was waited for: a wait() leaves its object moved-from. -/
  movedFrom : state.Valid
  /-- When all process objects are destroyed, what was not released was waited for exactly once. -/
  reapedOnce : (∀ slot ∈ state.objects, slot = none) → ∀ child ∈ state.handed,
    child ∉ state.released → state.ended.count (some child) = 1

theorem Reaped.of_sound {state : ProcessState} (sound : state.Sound) : Reaped state where
  exactlyOne := sound.exactlyOne
  movedFrom := sound.valid
  reapedOnce := fun destroyed _ member kept =>
    sound.exactlyOne.ended_of_destroyed destroyed member kept

/-- No wait() finds a child of a process object, and no assignment overwrites a pid. -/
def KeepsPid (state : ProcessState) : ProcessAction → Prop
  | .moveAssign i j => i = j ∨ state.objects.handle? i = some none
  | .wait i anyChild => state.objects.handle? i = some none ∧
      ∀ pid, anyChild = some pid → ∀ child ∈ state.handed, state.table pid ≠ some child
  | _ => True

variable {state : ProcessState}

theorem sound_wait (sound : state.Sound) {i : Nat} {pid anyChild : Option Nat}
    (live : state.objects.handle? i = some pid) (keeps : KeepsPid state (.wait i anyChild)) :
    (ProcessState.wait state pid anyChild).Sound := by
  obtain ⟨empty, foreign⟩ := keeps
  rw [live] at empty
  cases empty
  cases anyChild with
  | none => exact sound
  | some child => exact sound.endForeign (foreign child rfl)

theorem sound_release (sound : state.Sound) {i : Nat} {pid : Option Nat}
    (live : state.objects.handle? i = some pid) : (ProcessState.release state i pid).2.Sound := by
  cases pid with
  | none => exact sound.replaceEmpty live rfl
  | some pid => exact sound.release live rfl

theorem sound_destroy (sound : state.Sound) {i : Nat} {pid : Option Nat}
    (live : state.objects.handle? i = some pid) : (ProcessState.destroy state i pid).Sound := by
  cases pid with
  | none => exact sound.replaceEmpty live rfl
  | some pid => exact sound.endOwned live rfl

/-- Every action under the condition keeps the custody sound. -/
theorem sound_processStep (sound : state.Sound) {action : ProcessAction} {after : ProcessState}
    (keeps : KeepsPid state action) (taken : processStep action state = some after) : after.Sound := by
  cases action with
  | fork pid =>
      rw [processStep] at taken
      split_ifs at taken with free
      cases taken
      exact sound.adopt free
  | moveConstruct i =>
      obtain ⟨pid, live, rfl⟩ := Option.map_eq_some_iff.mp taken
      exact sound.moveConstruct live
  | moveAssign i j =>
      obtain ⟨pid, target, rest⟩ := Option.bind_eq_some_iff.mp taken
      obtain ⟨other, source, rfl⟩ := Option.map_eq_some_iff.mp rest
      exact sound.assign source keeps
  | wait i anyChild =>
      obtain ⟨pid, live, rfl⟩ := Option.map_eq_some_iff.mp taken
      exact sound_wait sound live keeps
  | release i =>
      obtain ⟨pid, live, rfl⟩ := Option.map_eq_some_iff.mp taken
      exact sound_release sound live
  | destroy i =>
      obtain ⟨pid, live, rfl⟩ := Option.map_eq_some_iff.mp taken
      exact sound_destroy sound live
  | otherFork pid =>
      rw [processStep] at taken
      split_ifs at taken with free
      cases taken
      exact sound.otherBegin free
  | otherWait pid =>
      rw [processStep] at taken
      split_ifs at taken with held
      cases taken
      exact sound.otherEnd fun i live => held (Slots.held_iff.mpr ⟨i, live⟩)

/-- A wait() that finds a child of a process object leaves an object with the pid of a child that was
waited for. -/
theorem not_reaped_wait (sound : state.Sound) {i : Nat} {pid anyChild : Option Nat}
    (live : state.objects.handle? i = some pid) (finds : ¬ KeepsPid state (.wait i anyChild)) :
    ¬ Reaped (ProcessState.wait state pid anyChild) := by
  intro reaped
  cases pid with
  | some pid =>
      obtain ⟨child, member, found⟩ := sound.valid i pid live
      exact sound.not_endAt member found reaped.exactlyOne reaped.movedFrom
  | none =>
      apply finds
      refine ⟨live, ?_⟩
      rintro pid rfl child member found
      exact sound.not_endAt member found reaped.exactlyOne reaped.movedFrom

theorem not_reaped_of_not_keepsPid (sound : state.Sound) {action : ProcessAction} {after : ProcessState}
    (breaks : ¬ KeepsPid state action) (taken : processStep action state = some after) :
    ¬ Reaped after := by
  cases action with
  | moveAssign i j =>
      obtain ⟨pid, target, rest⟩ := Option.bind_eq_some_iff.mp taken
      obtain ⟨other, source, rfl⟩ := Option.map_eq_some_iff.mp rest
      intro reaped
      exact Custody.not_exactlyOne_assign sound target source breaks reaped.exactlyOne
  | wait i anyChild =>
      obtain ⟨pid, live, rfl⟩ := Option.map_eq_some_iff.mp taken
      exact not_reaped_wait sound live breaks
  | _ => exact absurd trivial breaks

/-- Reaping holds in every state of a run exactly if no step of the run is a wait() that finds a child of a
process object, or an assignment to an object that holds a pid. -/
theorem process_reaped_iff (actions : List ProcessAction) :
    EveryState processStep Reaped actions { table := fun _ => none } ↔
      EveryStep processStep KeepsPid actions { table := fun _ => none } :=
  everyState_iff (fun _ sound => Reaped.of_sound sound)
    (fun _ _ _ sound keeps taken => sound_processStep sound keeps taken)
    (fun _ _ _ sound breaks taken => not_reaped_of_not_keepsPid sound breaks taken)
    (Custody.sound_start fun _ _ found => by simp at found) actions

/-- A child is waited for, its pid is used for another child, and the object is destroyed. -/
private def waitedTwice : List ProcessAction :=
  [.fork 100, .wait 0 none, .otherFork 100, .destroy 0]

/-- The object still holds the pid after wait(), and its destructor waits for the other child. -/
theorem process_reaped_fails :
    ∃ final, run processStep waitedTwice { table := fun _ => none } = some final ∧
      final.objects = [none] ∧ final.handed = [0] ∧ final.ended = [some 0, some 1] ∧
      ¬ EveryState processStep Reaped waitedTwice { table := fun _ => none } := by
  refine ⟨_, rfl, rfl, rfl, rfl, fun every => ?_⟩
  -- The state between wait() and the fork of the other child.
  have waited := ((every.2 _ rfl).2 _ rfl).head.movedFrom
  obtain ⟨child, -, found⟩ := waited 0 100 rfl
  contradiction

end Nihil.Posix

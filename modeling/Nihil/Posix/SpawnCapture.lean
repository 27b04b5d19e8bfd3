/-
Module: Nihil.Posix.SpawnCapture
Layer: Posix
Purpose: spawn between the fork and its return, as two parties and the pipes between them. The parent runs
  run_in_parent of the actions in order, and a capture reads its pipe until it sees the end; meanwhile the
  child and its descendants write and close as they like. Whatever the interleaving, a capture holds what was
  written so far but for what is still in the pipe, and from its end on all that is ever written.
Imports: Nihil.Library.Pipe, Nihil.Library.Progress, Nihil.Posix.Spawn
Trusted boundary: nobody but the parent reads a captured pipe.
Main exports: ParentOp, SpawnAction.runInParent, parentOps, Spawning, SpawnEvent, spawnStep, textsWritten,
  CaptureInvariant, captures_sound
-/
import Mathlib.Logic.Function.Basic
import Nihil.Library.Pipe
import Nihil.Library.Progress
import Nihil.Posix.Spawn

namespace Nihil.Posix

open Nihil.Library

/-! ### The parent's part -/

/-- What the parent does for an action, by the number of the action: it closes its copy of the child's end,
and for a capture it reads its own end until it sees the end of the output. -/
inductive ParentOp where
  | closeChildFd (i : Nat)
  | readAll (i : Nat)
deriving DecidableEq, Repr

/-- `run_in_parent` of an action. -/
def SpawnAction.runInParent (i : Nat) : SpawnAction → List ParentOp
  | .fdReadPipe _ => [.closeChildFd i]
  | .fdWritePipe _ => [.closeChildFd i]
  | .fdCapture _ => [.closeChildFd i, .readAll i]
  | .fdFile _ => [.closeChildFd i]

/-- `(actions.run_in_parent(proc), ...)`. -/
def parentOps (actions : List SpawnAction) : List ParentOp :=
  actions.zipIdx.flatMap fun indexed => indexed.1.runInParent indexed.2

/-- The child can write to the pipe of an action. -/
def SpawnAction.writable : SpawnAction → Bool
  | .fdReadPipe _ => false
  | .fdWritePipe _ => true
  | .fdCapture _ => true
  | .fdFile _ => false

/-! ### The system -/

/-- The state behind the fork. `writers` counts the open write ends outside the parent, `parentHolds` tells
whether the parent still has its own copy, and `captured` is what went to the output iterator. -/
structure Spawning (capacity : Nat → Nat) where
  pipes : (i : Nat) → Pipe Char (capacity i)
  writers : Nat → Nat
  parentHolds : Nat → Bool
  captured : Nat → List Char
  failed : Nat → Bool
  remaining : List ParentOp

variable {capacity : Nat → Nat}

/-- The fork has just returned. -/
def Spawning.start (capacity : Nat → Nat) (actions : List SpawnAction) : Spawning capacity where
  pipes _ := Pipe.empty
  writers i := if (actions[i]?).any SpawnAction.writable then 1 else 0
  parentHolds _ := true
  captured _ := []
  failed _ := false
  remaining := parentOps actions

/-- `bufsize` of the loop of a capture. -/
def captureBufsize : Nat := 1024

/-- A step of one of the parties. -/
inductive SpawnEvent where
  /-- The child or a descendant writes to the pipe of an action. -/
  | write (i : Nat) (text : List Char)
  /-- A write end is duplicated, by dup or by another fork. -/
  | dup (i : Nat)
  /-- A process closes write ends, so many of each pipe: all it has when it exits. -/
  | close (ends : Nat → Nat)
  /-- The parent closes its copy of the child's end. -/
  | closeChildFd
  /-- The parent's read() returns so many characters. -/
  | read (count : Nat)
  /-- The parent's read() returns none, since no write end is open. -/
  | endOfFile
  /-- The parent's read() fails. -/
  | readFails

/-- One step. A writer without room and a reader without anything to read wait. -/
def spawnStep (event : SpawnEvent) (state : Spawning capacity) : Option (Spawning capacity) :=
  match event with
  | .write i text =>
      if 0 < state.writers i then
        match (state.pipes i).write text with
        | none => none
        | some pipe => some { state with pipes := Function.update state.pipes i pipe }
      else none
  | .dup i =>
      if 0 < state.writers i then
        some { state with writers := Function.update state.writers i (state.writers i + 1) }
      else none
  | .close ends => some { state with writers := fun i => state.writers i - ends i }
  | .closeChildFd =>
      match state.remaining with
      | .closeChildFd i :: rest =>
          some { state with parentHolds := Function.update state.parentHolds i false, remaining := rest }
      | _ => none
  | .read count =>
      match state.remaining with
      | .readAll i :: _ =>
          if 0 < count ∧ count ≤ captureBufsize ∧ count ≤ (state.pipes i).buffer.length then
            some { state with
              pipes := Function.update state.pipes i ((state.pipes i).drop count)
              captured := Function.update state.captured i
                (state.captured i ++ (state.pipes i).buffer.take count) }
          else none
      | _ => none
  | .endOfFile =>
      match state.remaining with
      | .readAll i :: rest =>
          if (state.pipes i).buffer = [] ∧ state.writers i = 0 ∧ state.parentHolds i = false then
            some { state with remaining := rest }
          else none
      | _ => none
  | .readFails =>
      match state.remaining with
      | .readAll i :: rest =>
          some { state with failed := Function.update state.failed i true, remaining := rest }
      | _ => none

/-- All that was written to a pipe. -/
def textsWritten (i : Nat) (events : List SpawnEvent) : List Char :=
  events.flatMap fun event =>
    match event with
    | .write j text => if j = i then text else []
    | _ => []

/-- What a step does, event by event. -/
inductive SpawnMove : SpawnEvent → Spawning capacity → Spawning capacity → Prop where
  | write {state : Spawning capacity} (i : Nat) (text : List Char) (pipe : Pipe Char (capacity i))
      (writer : 0 < state.writers i) (buffer : pipe.buffer = (state.pipes i).buffer ++ text) :
      SpawnMove (.write i text) state { state with pipes := Function.update state.pipes i pipe }
  | dup {state : Spawning capacity} (i : Nat) (writer : 0 < state.writers i) :
      SpawnMove (.dup i) state
        { state with writers := Function.update state.writers i (state.writers i + 1) }
  | close {state : Spawning capacity} (ends : Nat → Nat) :
      SpawnMove (.close ends) state { state with writers := fun i => state.writers i - ends i }
  | closeChildFd {state : Spawning capacity} (i : Nat) (rest : List ParentOp)
      (head : state.remaining = .closeChildFd i :: rest) :
      SpawnMove .closeChildFd state
        { state with parentHolds := Function.update state.parentHolds i false, remaining := rest }
  | read {state : Spawning capacity} (i count : Nat) (rest : List ParentOp)
      (head : state.remaining = .readAll i :: rest) (positive : 0 < count)
      (within : count ≤ (state.pipes i).buffer.length) :
      SpawnMove (.read count) state
        { state with
          pipes := Function.update state.pipes i ((state.pipes i).drop count)
          captured := Function.update state.captured i
            (state.captured i ++ (state.pipes i).buffer.take count) }
  | endOfFile {state : Spawning capacity} (i : Nat) (rest : List ParentOp)
      (head : state.remaining = .readAll i :: rest) (drained : (state.pipes i).buffer = [])
      (closed : state.writers i = 0) (released : state.parentHolds i = false) :
      SpawnMove .endOfFile state { state with remaining := rest }
  | readFails {state : Spawning capacity} (i : Nat) (rest : List ParentOp)
      (head : state.remaining = .readAll i :: rest) :
      SpawnMove .readFails state
        { state with failed := Function.update state.failed i true, remaining := rest }

theorem move_of_spawnStep {event : SpawnEvent} {state after : Spawning capacity}
    (taken : spawnStep event state = some after) : SpawnMove event state after := by
  cases event with
  | write i text =>
      simp only [spawnStep] at taken
      split at taken
      case isTrue writer =>
        cases wrote : (state.pipes i).write text with
        | none => simp [wrote] at taken
        | some pipe =>
            simp only [wrote, Option.some.injEq] at taken
            exact taken ▸ .write i text pipe writer (Pipe.write_eq_some_iff.mp wrote)
      case isFalse => cases taken
  | dup i =>
      simp only [spawnStep] at taken
      split at taken
      case isTrue writer => exact Option.some.inj taken ▸ .dup i writer
      case isFalse => cases taken
  | close ends =>
      simp only [spawnStep, Option.some.injEq] at taken
      exact taken ▸ .close ends
  | closeChildFd =>
      simp only [spawnStep] at taken
      split at taken
      next i rest head => exact Option.some.inj taken ▸ .closeChildFd i rest head
      next => cases taken
  | read count =>
      simp only [spawnStep] at taken
      split at taken
      next i rest head =>
        split at taken
        case isTrue readable =>
          exact Option.some.inj taken ▸ .read i count rest head readable.1 readable.2.2
        case isFalse => cases taken
      next => cases taken
  | endOfFile =>
      simp only [spawnStep] at taken
      split at taken
      next i rest head =>
        split at taken
        case isTrue ended =>
          exact Option.some.inj taken ▸ .endOfFile i rest head ended.1 ended.2.1 ended.2.2
        case isFalse => cases taken
      next => cases taken
  | readFails =>
      simp only [spawnStep] at taken
      split at taken
      next i rest head => exact Option.some.inj taken ▸ .readFails i rest head
      next => cases taken

/-! ### Nothing is lost, doubled or reordered -/

/-- What was read from a pipe and what is in it. -/
def Spawning.accounted (state : Spawning capacity) (i : Nat) : List Char :=
  state.captured i ++ (state.pipes i).buffer

theorem accounted_move {event : SpawnEvent} {state after : Spawning capacity}
    (move : SpawnMove event state after) (i : Nat) :
    after.accounted i = state.accounted i ++ textsWritten i [event] := by
  cases move with
  | write j text pipe writer buffer =>
      by_cases same : i = j
      · subst same
        simp [Spawning.accounted, textsWritten, buffer]
      · simp [Spawning.accounted, textsWritten, same, Ne.symm same]
  | dup j writer => simp [Spawning.accounted, textsWritten]
  | close ends => simp [Spawning.accounted, textsWritten]
  | closeChildFd j rest head => simp [Spawning.accounted, textsWritten]
  | read j count rest head positive within =>
      by_cases same : i = j
      · subst same
        simp [Spawning.accounted, textsWritten, List.append_assoc]
      · simp [Spawning.accounted, textsWritten, same]
  | endOfFile j rest head drained closed released => simp [Spawning.accounted, textsWritten]
  | readFails j rest head => simp [Spawning.accounted, textsWritten]

/-- Over any run, what was written to a pipe comes behind what was accounted for. -/
theorem accounted_run {events : List SpawnEvent} {state final : Spawning capacity}
    (ran : run spawnStep events state = some final) (i : Nat) :
    final.accounted i = state.accounted i ++ textsWritten i events := by
  induction events generalizing state with
  | nil =>
      cases ran
      simp [textsWritten]
  | cons event events ih =>
      cases taken : spawnStep event state with
      | none => simp [run, taken] at ran
      | some after =>
          simp only [run, taken] at ran
          rw [ih ran, accounted_move (move_of_spawnStep taken) i, List.append_assoc]
          simp [textsWritten]

/-! ### A capture that has seen the end -/

/-- What holds behind the operations that the parent has done: each capture among them has failed, or its pipe
is empty and nobody can write to it any more. -/
structure CaptureInvariant (ops : List ParentOp) (state : Spawning capacity) : Prop where
  suffix : state.remaining <:+ ops
  drained : ∀ i, .readAll i ∈ ops → .readAll i ∉ state.remaining →
    state.failed i = true ∨ (state.pipes i).buffer = [] ∧ state.writers i = 0

theorem captureInvariant_start (actions : List SpawnAction) :
    CaptureInvariant (parentOps actions) (Spawning.start capacity actions) where
  suffix := List.suffix_refl _
  drained _ mem notMem := absurd mem notMem

/-- A pipe that nobody can write to is not the one that is written to. -/
theorem ne_of_writers {writers : Nat → Nat} {i j : Nat} (closed : writers i = 0) (writer : 0 < writers j) :
    i ≠ j := by
  intro same
  rw [same] at closed
  exact absurd writer (closed ▸ Nat.lt_irrefl 0)

theorem captureInvariant_keeps (ops : List ParentOp) :
    Keeps (σ := Spawning capacity) spawnStep (CaptureInvariant ops) := by
  intro state event after before taken
  have popped : ∀ {op : ParentOp} {rest : List ParentOp}, state.remaining = op :: rest → rest <:+ ops :=
    fun head => (head ▸ List.suffix_cons _ _ : _ <:+ state.remaining).trans before.suffix
  cases move_of_spawnStep taken with
  | write j text pipe writer buffer =>
      refine ⟨before.suffix, fun i mem done => ?_⟩
      cases before.drained i mem done with
      | inl failed => exact Or.inl failed
      | inr drained => simpa [ne_of_writers drained.2 writer] using Or.inr drained
  | dup j writer =>
      refine ⟨before.suffix, fun i mem done => ?_⟩
      cases before.drained i mem done with
      | inl failed => exact Or.inl failed
      | inr drained => simpa [ne_of_writers drained.2 writer] using Or.inr drained
  | close ends =>
      refine ⟨before.suffix, fun i mem done => ?_⟩
      cases before.drained i mem done with
      | inl failed => exact Or.inl failed
      | inr drained => exact Or.inr ⟨drained.1, by simp [drained.2]⟩
  | closeChildFd j rest head =>
      refine ⟨popped head, fun i mem done => ?_⟩
      exact before.drained i mem (by simpa [head] using done)
  | read j count rest head positive within =>
      refine ⟨before.suffix, fun i mem done => ?_⟩
      have other : i ≠ j := by
        intro same
        simp [head, same] at done
      simpa [other] using before.drained i mem done
  | endOfFile j rest head drained closed released =>
      refine ⟨popped head, fun i mem done => ?_⟩
      by_cases same : i = j
      · subst same
        exact Or.inr ⟨drained, closed⟩
      · exact before.drained i mem (by simpa [head, same] using done)
  | readFails j rest head =>
      refine ⟨popped head, fun i mem done => ?_⟩
      by_cases same : i = j
      · simp [same]
      · simpa [same] using before.drained i mem (by simpa [head, same] using done)

/-- A capture that is over, with a pipe that is empty and closed. -/
structure Ended (i : Nat) (text : List Char) (state : Spawning capacity) : Prop where
  finished : .readAll i ∉ state.remaining
  closed : state.writers i = 0
  drained : (state.pipes i).buffer = []
  holds : state.captured i = text

theorem ended_keeps (i : Nat) (text : List Char) :
    Keeps (σ := Spawning capacity) spawnStep (Ended i text) := by
  rintro state event after ⟨finished, closed, drained, holds⟩ taken
  cases move_of_spawnStep taken with
  | write j written pipe writer buffer =>
      have other := ne_of_writers closed writer
      exact ⟨finished, closed, by simpa [other] using drained, holds⟩
  | dup j writer =>
      have other := ne_of_writers closed writer
      exact ⟨finished, by simpa [other] using closed, drained, holds⟩
  | close ends => exact ⟨finished, by simp [closed], drained, holds⟩
  | closeChildFd j rest head => exact ⟨by simpa [head] using finished, closed, drained, holds⟩
  | read j count rest head positive within =>
      have other : i ≠ j := by
        intro same
        simp [head, same] at finished
      exact ⟨finished, closed, by simpa [other] using drained, by simpa [other] using holds⟩
  | endOfFile j rest head drained' closed' released =>
      exact ⟨fun mem => finished (head ▸ List.mem_cons_of_mem _ mem), closed, drained, holds⟩
  | readFails j rest head =>
      exact ⟨fun mem => finished (head ▸ List.mem_cons_of_mem _ mem), closed, drained, holds⟩

theorem Ended.accounted {i : Nat} {text : List Char} {state : Spawning capacity} (ended : Ended i text state) :
    state.accounted i = text := by
  rw [Spawning.accounted, ended.drained, ended.holds, List.append_nil]

/-- In every run of spawn, a capture holds what was written to its pipe but for what is still in it. A capture
that is over without a failed read holds all of it, and nothing is written to its pipe from then on. -/
theorem captures_sound (capacity : Nat → Nat) (actions : List SpawnAction) {events : List SpawnEvent}
    {state : Spawning capacity} (ran : run spawnStep events (Spawning.start capacity actions) = some state)
    (i : Nat) :
    state.captured i ++ (state.pipes i).buffer = textsWritten i events
      ∧ (.readAll i ∈ parentOps actions → .readAll i ∉ state.remaining → state.failed i = false →
          state.captured i = textsWritten i events
          ∧ ∀ {later : List SpawnEvent} {last : Spawning capacity},
            run spawnStep later state = some last →
            last.captured i = state.captured i ∧ textsWritten i later = []) := by
  have accounted : state.accounted i = textsWritten i events := accounted_run ran i
  refine ⟨accounted, fun mem done worked => ?_⟩
  have invariant := run_keeps (captureInvariant_keeps (parentOps actions)) (captureInvariant_start actions) ran
  cases invariant.drained i mem done with
  | inl failed => simp [worked] at failed
  | inr drained =>
      have ended : Ended i (textsWritten i events) state := by
        refine ⟨done, drained.2, drained.1, ?_⟩
        rw [← accounted, Spawning.accounted, drained.1, List.append_nil]
      refine ⟨ended.holds, fun ran' => ?_⟩
      have still := run_keeps (ended_keeps i _) ended ran'
      have more := accounted_run ran' i
      rw [still.accounted, ended.accounted, List.self_eq_append_right] at more
      exact ⟨still.holds.trans ended.holds.symm, more⟩

theorem captures_sound_one_capture :
    ∃ state, run spawnStep
        [.write 0 ['a', 'b'], .closeChildFd, .read 1, .write 0 ['c', 'd'], .read 3, .close fun _ => 1,
          .endOfFile]
        (Spawning.start (fun _ => 3) [.fdCapture (fdWritePipe 1 3 4)]) = some state
      ∧ state.captured 0 = ['a', 'b', 'c', 'd'] := by
  obtain ⟨state, ran, finished, worked⟩ : ∃ state, run spawnStep
        [.write 0 ['a', 'b'], .closeChildFd, .read 1, .write 0 ['c', 'd'], .read 3, .close fun _ => 1,
          .endOfFile]
        (Spawning.start (fun _ => 3) [.fdCapture (fdWritePipe 1 3 4)]) = some state
      ∧ state.remaining = [] ∧ state.failed 0 = false := ⟨_, rfl, rfl, rfl⟩
  have sound := captures_sound (fun _ => 3) [.fdCapture (fdWritePipe 1 3 4)] ran 0
  exact ⟨state, ran, (sound.2 (by decide) (by simp [finished]) worked).1⟩

end Nihil.Posix

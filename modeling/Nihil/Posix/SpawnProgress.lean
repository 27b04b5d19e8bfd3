/-
Module: Nihil.Posix.SpawnProgress
Layer: Posix
Purpose: When spawn returns. The parent drains one capture after another, and a child that keeps its
  descriptors until it exits waits where a pipe is full. At any time spawn can still return without a read that
  fails exactly if every pipe other than that of the next capture has room for all that the child still writes
  to it; otherwise the two wait for each other. A capture whose read fails is given up.
Imports: Nihil.Library.Progress, Nihil.Posix.SpawnCapture
Trusted boundary: nobody but the parent reads a captured pipe.
Main exports: Capacities, ChildProgram, Running, RunningEvent, runningStep, firstCapture, Fits, FitsFrom,
  ProgressInvariant, spawn_returns
-/
import Mathlib.Algebra.BigOperators.Group.Finset.Basic
import Nihil.Library.Progress
import Nihil.Posix.SpawnCapture

namespace Nihil.Posix

open Nihil.Library

/-- The capacities of the pipes. There is room for something in every one. -/
structure Capacities where
  size : Nat → Nat
  positive : ∀ i, 0 < size i

/-- The child can write to the pipe of the action of this number. -/
def Writable (actions : List SpawnAction) (i : Nat) : Prop :=
  (actions[i]?).any SpawnAction.writable = true

/-- What a child writes before it exits: texts, each to the pipe of an action. -/
structure ChildProgram (actions : List SpawnAction) where
  writes : List (Nat × List Char)
  addressed : ∀ write ∈ writes, Writable actions write.1

/-- All that some writes put into one pipe. -/
def textFor (i : Nat) (writes : List (Nat × List Char)) : List Char :=
  writes.flatMap fun (j, text) => if j = i then text else []

/-- spawn with such a child. -/
structure Running (capacity : Nat → Nat) where
  spawning : Spawning capacity
  writes : List (Nat × List Char)
  exited : Bool

variable {capacity : Nat → Nat}

def Running.start (capacity : Nat → Nat) (actions : List SpawnAction) (program : ChildProgram actions) :
    Running capacity where
  spawning := Spawning.start capacity actions
  writes := program.writes
  exited := false

/-- The parent has done all its operations. -/
def Running.Returned (state : Running capacity) : Prop := state.spawning.remaining = []

inductive RunningEvent where
  /-- The child's write() takes so many characters. -/
  | childWrites (count : Nat)
  | childExits
  | closeChildFd
  | read (count : Nat)
  | endOfFile
  | readFails

/-- Every event but a read that fails. -/
def RunningEvent.works : RunningEvent → Bool
  | .readFails => false
  | _ => true

/-- A step of the parent, which the child takes no part in. -/
def Running.parent (state : Running capacity) (event : SpawnEvent) : Option (Running capacity) :=
  (spawnStep event state.spawning).map fun spawning => { state with spawning := spawning }

/-- One step of the child or of the parent. -/
def runningStep (event : RunningEvent) (state : Running capacity) : Option (Running capacity) :=
  match event with
  | .childWrites count =>
      match state.writes with
      | [] => none
      | (i, text) :: rest =>
          if count ≤ text.length ∧ (0 < count ∨ text = []) then
            (spawnStep (.write i (text.take count)) state.spawning).map fun spawning =>
              { state with
                spawning := spawning
                writes := if count = text.length then rest else (i, text.drop count) :: rest }
          else none
  | .childExits =>
      if state.writes = [] ∧ state.exited = false then
        (spawnStep (.close state.spawning.writers) state.spawning).map fun spawning =>
          { state with spawning := spawning, exited := true }
      else none
  | .closeChildFd => state.parent .closeChildFd
  | .read count => state.parent (.read count)
  | .endOfFile => state.parent .endOfFile
  | .readFails => state.parent .readFails

/-- The number of the first capture among the operations. -/
def firstCapture : List ParentOp → Option Nat
  | [] => none
  | .closeChildFd _ :: ops => firstCapture ops
  | .readAll i :: _ => some i

/-- Every pipe but that of the first capture has room for all that is written to it. -/
def Fits (capacity : Nat → Nat) (actions : List SpawnAction) (program : ChildProgram actions) : Prop :=
  ∀ first, firstCapture (parentOps actions) = some first →
    ∀ i, i ≠ first → (textFor i program.writes).length ≤ capacity i

/-- Every pipe but that of the next capture has room for all that is still written to it. -/
def FitsFrom (state : Running capacity) : Prop :=
  ∀ first, firstCapture state.spawning.remaining = some first →
    ∀ i, i ≠ first →
      (state.spawning.pipes i).buffer.length + (textFor i state.writes).length ≤ capacity i

/-! ### The parent's operations -/

/-- The parent reads a pipe only when it has closed its own copy of the other end. -/
def Released (holds : Nat → Bool) : List ParentOp → Prop
  | [] => True
  | .closeChildFd i :: ops => Released (Function.update holds i false) ops
  | .readAll i :: ops => holds i = false ∧ Released holds ops

theorem released_runInParent (holds : Nat → Bool) (action : SpawnAction) (i : Nat) (ops : List ParentOp) :
    Released holds (action.runInParent i ++ ops) ↔ Released (Function.update holds i false) ops := by
  cases action with
  | fdReadPipe pipe => exact Iff.rfl
  | fdWritePipe pipe => exact Iff.rfl
  | fdCapture pipe => simp [SpawnAction.runInParent, Released]
  | fdFile file => exact Iff.rfl

theorem released_parentOps (holds : Nat → Bool) (actions : List SpawnAction) :
    Released holds (parentOps actions) := by
  suffices general : ∀ (n : Nat) (holds : Nat → Bool),
      Released holds ((actions.zipIdx n).flatMap fun indexed => indexed.1.runInParent indexed.2) from
    general 0 holds
  induction actions with
  | nil => intro n holds; trivial
  | cons action actions ih =>
      intro n holds
      rw [List.zipIdx_cons, List.flatMap_cons, released_runInParent]
      exact ih (n + 1) _

theorem writable_of_readAll {actions : List SpawnAction} {i : Nat} (mem : .readAll i ∈ parentOps actions) :
    Writable actions i := by
  obtain ⟨⟨action, n⟩, inside, reads⟩ := List.mem_flatMap.mp mem
  have found := List.mem_zipIdx_iff_getElem?.mp inside
  cases action with
  | fdReadPipe pipe => simp [SpawnAction.runInParent] at reads
  | fdWritePipe pipe => simp [SpawnAction.runInParent] at reads
  | fdCapture pipe =>
      have same : i = n := by simpa [SpawnAction.runInParent] using reads
      simp [Writable, same, found, SpawnAction.writable]
  | fdFile file => simp [SpawnAction.runInParent] at reads

theorem lt_of_writable {actions : List SpawnAction} {i : Nat} (writable : Writable actions i) :
    i < actions.length := by
  by_contra beyond
  rw [Writable, List.getElem?_eq_none (Nat.le_of_not_lt beyond)] at writable
  cases writable

/-! ### Steps -/

/-- What a step of the running system does, with the step of the system between the parties. -/
inductive RunningMove : RunningEvent → Running capacity → Running capacity → Prop where
  | childWrites {state : Running capacity} {spawning : Spawning capacity} (i count : Nat) (text : List Char)
      (rest : List (Nat × List Char)) (head : state.writes = (i, text) :: rest)
      (within : count ≤ text.length) (some_written : 0 < count ∨ text = [])
      (move : SpawnMove (.write i (text.take count)) state.spawning spawning) :
      RunningMove (.childWrites count) state
        { state with
          spawning := spawning
          writes := if count = text.length then rest else (i, text.drop count) :: rest }
  | childExits {state : Running capacity} {spawning : Spawning capacity} (finished : state.writes = [])
      (running : state.exited = false)
      (move : SpawnMove (.close state.spawning.writers) state.spawning spawning) :
      RunningMove .childExits state { state with spawning := spawning, exited := true }
  | closeChildFd {state : Running capacity} {spawning : Spawning capacity}
      (move : SpawnMove .closeChildFd state.spawning spawning) :
      RunningMove .closeChildFd state { state with spawning := spawning }
  | read {state : Running capacity} {spawning : Spawning capacity} (count : Nat)
      (move : SpawnMove (.read count) state.spawning spawning) :
      RunningMove (.read count) state { state with spawning := spawning }
  | endOfFile {state : Running capacity} {spawning : Spawning capacity}
      (move : SpawnMove .endOfFile state.spawning spawning) :
      RunningMove .endOfFile state { state with spawning := spawning }
  | readFails {state : Running capacity} {spawning : Spawning capacity}
      (move : SpawnMove .readFails state.spawning spawning) :
      RunningMove .readFails state { state with spawning := spawning }

theorem move_of_parent {state after : Running capacity} {event : SpawnEvent}
    (taken : state.parent event = some after) :
    ∃ spawning, SpawnMove event state.spawning spawning ∧ after = { state with spawning := spawning } := by
  obtain ⟨spawning, stepped, rfl⟩ := Option.map_eq_some_iff.mp taken
  exact ⟨spawning, move_of_spawnStep stepped, rfl⟩

theorem move_of_runningStep {event : RunningEvent} {state after : Running capacity}
    (taken : runningStep event state = some after) : RunningMove event state after := by
  cases event with
  | childWrites count =>
      simp only [runningStep] at taken
      split at taken
      next => cases taken
      next i text rest head =>
        split at taken
        case isTrue can =>
          obtain ⟨spawning, stepped, rfl⟩ := Option.map_eq_some_iff.mp taken
          exact .childWrites i count text rest head can.1 can.2 (move_of_spawnStep stepped)
        case isFalse => cases taken
  | childExits =>
      simp only [runningStep] at taken
      split at taken
      case isTrue can =>
        obtain ⟨spawning, stepped, rfl⟩ := Option.map_eq_some_iff.mp taken
        exact .childExits can.1 can.2 (move_of_spawnStep stepped)
      case isFalse => cases taken
  | closeChildFd =>
      obtain ⟨spawning, move, rfl⟩ := move_of_parent taken
      exact .closeChildFd move
  | read count =>
      obtain ⟨spawning, move, rfl⟩ := move_of_parent taken
      exact .read count move
  | endOfFile =>
      obtain ⟨spawning, move, rfl⟩ := move_of_parent taken
      exact .endOfFile move
  | readFails =>
      obtain ⟨spawning, move, rfl⟩ := move_of_parent taken
      exact .readFails move

/-! ### The invariant -/

/-- What holds in every state of a run with a child's program. -/
structure ProgressInvariant (actions : List SpawnAction) (program : ChildProgram actions)
    (state : Running capacity) : Prop where
  /-- What is captured, in the pipe or still to be written is what the program writes. -/
  accounted : ∀ i, state.spawning.accounted i ++ textFor i state.writes = textFor i program.writes
  addressed : ∀ write ∈ state.writes, Writable actions write.1
  writers : ∀ i, Writable actions i → state.exited = false → 0 < state.spawning.writers i
  closed : ∀ i, state.exited = true → state.spawning.writers i = 0
  finished : state.exited = true → state.writes = []
  suffix : state.spawning.remaining <:+ parentOps actions
  released : Released state.spawning.parentHolds state.spawning.remaining
  drained : ∀ i, .readAll i ∈ parentOps actions → .readAll i ∉ state.spawning.remaining →
    state.spawning.failed i = true ∨ state.exited = true ∧ (state.spawning.pipes i).buffer = []

theorem progressInvariant_start (actions : List SpawnAction) (program : ChildProgram actions) :
    ProgressInvariant actions program (Running.start capacity actions program) where
  accounted i := rfl
  addressed := program.addressed
  writers i writable _ := by
    have one : (Running.start capacity actions program).spawning.writers i = 1 := if_pos writable
    rw [one]
    exact Nat.one_pos
  closed i exited := by cases exited
  finished exited := by cases exited
  suffix := List.suffix_refl _
  released := released_parentOps _ actions
  drained i mem notMem := absurd mem notMem

theorem textFor_cons (i j : Nat) (text : List Char) (rest : List (Nat × List Char)) :
    textFor i ((j, text) :: rest) = (if j = i then text else []) ++ textFor i rest := rfl

/-- What is left of a write behind a part of it. -/
theorem textFor_rest (i j count : Nat) (text : List Char) (rest : List (Nat × List Char)) :
    (if j = i then text.take count else [])
        ++ textFor i (if count = text.length then rest else (j, text.drop count) :: rest)
      = textFor i ((j, text) :: rest) := by
  by_cases whole : count = text.length
  · rw [textFor_cons, if_pos whole, List.take_of_length_le (Nat.le_of_eq whole.symm)]
  · rw [textFor_cons, if_neg whole, textFor_cons, ← List.append_assoc]
    split_ifs
    · rw [List.take_append_drop]
    · rfl

namespace ProgressInvariant

variable {actions : List SpawnAction} {program : ChildProgram actions} {state : Running capacity}
  {spawning : Spawning capacity}

theorem childWrites (before : ProgressInvariant actions program state) {i count : Nat} {text : List Char}
    {rest : List (Nat × List Char)} (head : state.writes = (i, text) :: rest)
    (move : SpawnMove (.write i (text.take count)) state.spawning spawning) :
    ProgressInvariant actions program
      { state with
        spawning := spawning
        writes := if count = text.length then rest else (i, text.drop count) :: rest } := by
  have running : state.exited = false := by
    cases exited : state.exited with
    | false => rfl
    | true => simp [before.finished exited] at head
  have accounted : ∀ j, spawning.accounted j
      ++ textFor j (if count = text.length then rest else (i, text.drop count) :: rest)
      = textFor j program.writes := by
    intro j
    have written : textsWritten j [.write i (text.take count)] = if i = j then text.take count else [] := by
      simp [textsWritten]
    rw [accounted_move move, written, List.append_assoc, textFor_rest, ← head]
    exact before.accounted j
  have addressed : ∀ write ∈ (if count = text.length then rest else (i, text.drop count) :: rest),
      Writable actions write.1 := by
    have old := before.addressed
    rw [head] at old
    intro write mem
    split_ifs at mem
    · exact old write (List.mem_cons_of_mem _ mem)
    · cases mem with
      | head => exact old (i, text) List.mem_cons_self
      | tail _ mem => exact old write (List.mem_cons_of_mem _ mem)
  cases move with
  | write pipe writer buffer =>
      refine ⟨accounted, addressed, before.writers, before.closed, ?_, before.suffix, before.released, ?_⟩
      · intro exited
        rw [running] at exited
        cases exited
      · intro j mem notMem
        cases before.drained j mem notMem with
        | inl failed => exact Or.inl failed
        | inr drained =>
            rw [running] at drained
            cases drained.1

theorem childExits (before : ProgressInvariant actions program state) (finished : state.writes = [])
    (move : SpawnMove (.close state.spawning.writers) state.spawning spawning) :
    ProgressInvariant actions program { state with spawning := spawning, exited := true } := by
  have accounted : ∀ i, spawning.accounted i ++ textFor i state.writes = textFor i program.writes := by
    intro i
    rw [accounted_move move]
    simpa [textsWritten] using before.accounted i
  cases move with
  | close =>
      refine ⟨accounted, before.addressed, ?_, ?_, fun _ => finished, before.suffix, before.released, ?_⟩
      · intro i _ exited
        cases exited
      · intro i _
        exact Nat.sub_self _
      · intro i mem notMem
        exact (before.drained i mem notMem).imp_right fun drained => ⟨rfl, drained.2⟩

theorem closeChildFd (before : ProgressInvariant actions program state)
    (move : SpawnMove .closeChildFd state.spawning spawning) :
    ProgressInvariant actions program { state with spawning := spawning } := by
  have accounted : ∀ i, spawning.accounted i ++ textFor i state.writes = textFor i program.writes := by
    intro i
    rw [accounted_move move]
    simpa [textsWritten] using before.accounted i
  cases move with
  | closeChildFd j rest head =>
      have suffix := before.suffix
      have released := before.released
      have drained := before.drained
      rw [head] at suffix released drained
      refine ⟨accounted, before.addressed, before.writers, before.closed, before.finished,
        (List.suffix_cons _ _).trans suffix, released, ?_⟩
      intro i mem notMem
      exact drained i mem (by simpa using notMem)

theorem read (before : ProgressInvariant actions program state) {count : Nat}
    (move : SpawnMove (.read count) state.spawning spawning) :
    ProgressInvariant actions program { state with spawning := spawning } := by
  have accounted : ∀ i, spawning.accounted i ++ textFor i state.writes = textFor i program.writes := by
    intro i
    rw [accounted_move move]
    simpa [textsWritten] using before.accounted i
  cases move with
  | read j _ rest head positive within =>
      refine ⟨accounted, before.addressed, before.writers, before.closed, before.finished, before.suffix,
        before.released, ?_⟩
      intro i mem notMem
      have other : i ≠ j := by
        intro here
        simp [here, head] at notMem
      simpa [other] using before.drained i mem notMem

/-- The parent sees the end of a pipe only when the child has exited. -/
theorem exited_of_endOfFile (before : ProgressInvariant actions program state)
    (move : SpawnMove .endOfFile state.spawning spawning) : state.exited = true := by
  cases move with
  | endOfFile j rest head drained closed released' =>
      cases exited : state.exited with
      | true => rfl
      | false =>
          have writable := writable_of_readAll (before.suffix.subset (head ▸ List.mem_cons_self))
          exact absurd (before.writers j writable exited) (closed ▸ Nat.lt_irrefl 0)

theorem endOfFile (before : ProgressInvariant actions program state)
    (move : SpawnMove .endOfFile state.spawning spawning) :
    ProgressInvariant actions program { state with spawning := spawning } := by
  have accounted : ∀ i, spawning.accounted i ++ textFor i state.writes = textFor i program.writes := by
    intro i
    rw [accounted_move move]
    simpa [textsWritten] using before.accounted i
  have exited := before.exited_of_endOfFile move
  cases move with
  | endOfFile j rest head drained closed released' =>
      have suffix := before.suffix
      have released := before.released
      rw [head] at suffix released
      refine ⟨accounted, before.addressed, before.writers, before.closed, before.finished,
        (List.suffix_cons _ _).trans suffix, released.2, ?_⟩
      intro i mem notMem
      by_cases here : i = j
      · exact Or.inr ⟨exited, here ▸ drained⟩
      · exact before.drained i mem (by simpa [head, here] using notMem)

theorem readFails (before : ProgressInvariant actions program state)
    (move : SpawnMove .readFails state.spawning spawning) :
    ProgressInvariant actions program { state with spawning := spawning } := by
  have accounted : ∀ i, spawning.accounted i ++ textFor i state.writes = textFor i program.writes := by
    intro i
    rw [accounted_move move]
    simpa [textsWritten] using before.accounted i
  cases move with
  | readFails j rest head =>
      have suffix := before.suffix
      have released := before.released
      rw [head] at suffix released
      refine ⟨accounted, before.addressed, before.writers, before.closed, before.finished,
        (List.suffix_cons _ _).trans suffix, released.2, ?_⟩
      intro i mem notMem
      by_cases here : i = j
      · simp [here]
      · simpa [here] using before.drained i mem (by simpa [head, here] using notMem)

end ProgressInvariant

theorem progressInvariant_keeps (actions : List SpawnAction) (program : ChildProgram actions) :
    Keeps (σ := Running capacity) runningStep (ProgressInvariant actions program) := by
  intro state event after before taken
  cases move_of_runningStep taken with
  | childWrites i count text rest head within some_written move => exact before.childWrites head move
  | childExits finished running move => exact before.childExits finished move
  | closeChildFd move => exact before.closeChildFd move
  | read count move => exact before.read move
  | endOfFile move => exact before.endOfFile move
  | readFails move => exact before.readFails move

/-! ### The run comes to an end -/

/-- How many characters some writes have. -/
def charCount (writes : List (Nat × List Char)) : Nat :=
  (writes.flatMap fun write => write.2).length

theorem charCount_cons (i : Nat) (text : List Char) (rest : List (Nat × List Char)) :
    charCount ((i, text) :: rest) = text.length + charCount rest := List.length_append

/-- What is left to do: a character is written and read, a write is taken off the program, an operation is
done, and the child exits. -/
def Running.work (bound : Nat) (state : Running capacity) : Nat :=
  2 * charCount state.writes + state.writes.length + (if state.exited then 0 else 1)
    + state.spawning.remaining.length
    + ∑ i ∈ Finset.range bound, (state.spawning.pipes i).buffer.length

theorem sum_update {bound i : Nat} (inside : i < bound) (pipes : (i : Nat) → Pipe Char (capacity i))
    (pipe : Pipe Char (capacity i)) :
    (∑ j ∈ Finset.range bound, (Function.update pipes i pipe j).buffer.length) + (pipes i).buffer.length
      = (∑ j ∈ Finset.range bound, (pipes j).buffer.length) + pipe.buffer.length := by
  have mem : i ∈ Finset.range bound := Finset.mem_range.mpr inside
  have others : ∑ j ∈ (Finset.range bound).erase i, (Function.update pipes i pipe j).buffer.length
      = ∑ j ∈ (Finset.range bound).erase i, (pipes j).buffer.length := by
    apply Finset.sum_congr rfl
    intro j other
    rw [Function.update_of_ne (Finset.ne_of_mem_erase other)]
  rw [← Finset.add_sum_erase _ _ mem, ← Finset.add_sum_erase _ _ mem, others, Function.update_self]
  omega

/-- A write leaves less to write, by more than it puts into the pipe. -/
theorem writes_lower (i count : Nat) (text : List Char) (rest : List (Nat × List Char))
    (within : count ≤ text.length) (some_written : 0 < count ∨ text = []) :
    2 * charCount (if count = text.length then rest else (i, text.drop count) :: rest)
        + (if count = text.length then rest else (i, text.drop count) :: rest).length + count
      < 2 * charCount ((i, text) :: rest) + ((i, text) :: rest).length := by
  have old := charCount_cons i text rest
  split_ifs with whole
  · rw [List.length_cons]
    omega
  · have new := charCount_cons i (text.drop count) rest
    have positive : 0 < count := by
      cases some_written with
      | inl positive => exact positive
      | inr empty => simp [empty] at whole within; omega
    simp only [List.length_drop, List.length_cons] at *
    omega

theorem work_lowers (actions : List SpawnAction) (program : ChildProgram actions) :
    Lowers (σ := Running capacity) runningStep (ProgressInvariant actions program)
      (Running.work actions.length) := by
  intro state event after before taken
  cases move_of_runningStep taken with
  | childWrites i count text rest head within some_written move =>
      cases move with
      | write _ _ pipe writer buffer =>
          have inside : i < actions.length :=
            lt_of_writable (before.addressed (i, text) (head ▸ List.mem_cons_self))
          have sums := sum_update inside state.spawning.pipes pipe
          rw [buffer, List.length_append, List.length_take, Nat.min_eq_left within] at sums
          have left := writes_lower i count text rest within some_written
          simp only [Running.work, head]
          omega
  | childExits finished running move =>
      cases move with
      | close => simp [Running.work, running]
  | closeChildFd move =>
      cases move with
      | closeChildFd j rest head => simp [Running.work, head]
  | read count move =>
      cases move with
      | read j _ rest head positive within =>
          have reads : .readAll j ∈ parentOps actions := before.suffix.subset (head ▸ List.mem_cons_self)
          have inside := lt_of_writable (writable_of_readAll reads)
          have sums := sum_update inside state.spawning.pipes ((state.spawning.pipes j).drop count)
          rw [Pipe.buffer_drop, List.length_drop] at sums
          simp only [Running.work]
          omega
  | endOfFile move =>
      cases move with
      | endOfFile j rest head drained closed released => simp [Running.work, head]
  | readFails move =>
      cases move with
      | readFails j rest head => simp [Running.work, head]

/-! ### Somebody can go on -/

theorem can_closeChildFd {state : Running capacity} {i : Nat} {rest : List ParentOp}
    (head : state.spawning.remaining = .closeChildFd i :: rest) :
    (runningStep .closeChildFd state).isSome := by
  simp [runningStep, Running.parent, spawnStep, head]

theorem can_read {state : Running capacity} {i : Nat} {rest : List ParentOp}
    (head : state.spawning.remaining = .readAll i :: rest)
    (something : (state.spawning.pipes i).buffer ≠ []) :
    (runningStep (.read 1) state).isSome := by
  have positive : 1 ≤ (state.spawning.pipes i).buffer.length := List.length_pos_iff.mpr something
  simp [runningStep, Running.parent, spawnStep, head, captureBufsize, positive]

theorem can_endOfFile {state : Running capacity} {i : Nat} {rest : List ParentOp}
    (head : state.spawning.remaining = .readAll i :: rest) (drained : (state.spawning.pipes i).buffer = [])
    (closed : state.spawning.writers i = 0) (released : state.spawning.parentHolds i = false) :
    (runningStep .endOfFile state).isSome := by
  simp [runningStep, Running.parent, spawnStep, head, drained, closed, released]

theorem can_childExit {state : Running capacity} (finished : state.writes = [])
    (running : state.exited = false) : (runningStep .childExits state).isSome := by
  simp [runningStep, spawnStep, finished, running]

/-- A write of one character, or of none where there is nothing to write, goes on where it has room. -/
theorem can_childWrite {state : Running capacity} {i : Nat} {text : List Char} {rest : List (Nat × List Char)}
    (head : state.writes = (i, text) :: rest) (writer : 0 < state.spawning.writers i)
    (room : text = [] ∨ (state.spawning.pipes i).buffer.length < capacity i) :
    (runningStep (.childWrites (min 1 text.length)) state).isSome := by
  have fits : (state.spawning.pipes i).buffer.length + (text.take (min 1 text.length)).length
      ≤ capacity i := by
    have already := (state.spawning.pipes i).fits
    cases room with
    | inl empty => simpa [empty] using already
    | inr less =>
        rw [List.length_take]
        omega
  have can : min 1 text.length ≤ text.length ∧ (0 < min 1 text.length ∨ text = []) := by
    refine ⟨Nat.min_le_right .., ?_⟩
    cases text with
    | nil => exact Or.inr rfl
    | cons c text => simp
  simp only [runningStep, head, if_pos can, spawnStep, if_pos writer, Pipe.write, dif_pos fits]
  rfl

/-- Where everything fits, the child has room where it writes: the pipe of the next capture has been drained,
and any other has room for all that is still written to it. -/
theorem room_of_fits {kernel : Capacities} {state : Running kernel.size} (fits : FitsFrom state) {first : Nat}
    (isFirst : firstCapture state.spawning.remaining = some first)
    (drained : (state.spawning.pipes first).buffer = []) {i : Nat} {text : List Char}
    {rest : List (Nat × List Char)} (head : state.writes = (i, text) :: rest) :
    text = [] ∨ (state.spawning.pipes i).buffer.length < kernel.size i := by
  by_cases here : i = first
  · rw [here, drained]
    exact Or.inr (kernel.positive first)
  · have total := fits first isFirst i here
    rw [head, textFor_cons, if_pos rfl, List.length_append] at total
    cases text with
    | nil => exact Or.inl rfl
    | cons c text =>
        rw [List.length_cons] at total
        exact Or.inr (by omega)

/-- Where everything fits, a step is possible that is no read that fails. -/
theorem step_of_fits {kernel : Capacities} {actions : List SpawnAction} {program : ChildProgram actions}
    {state : Running kernel.size} (before : ProgressInvariant actions program state) (fits : FitsFrom state) :
    state.Returned ∨ ∃ event, event.works = true ∧ (runningStep event state).isSome := by
  cases head : state.spawning.remaining with
  | nil => exact Or.inl head
  | cons op rest =>
      refine Or.inr ?_
      cases op with
      | closeChildFd i => exact ⟨.closeChildFd, rfl, can_closeChildFd head⟩
      | readAll i =>
          have isFirst : firstCapture state.spawning.remaining = some i := by rw [head, firstCapture]
          by_cases drained : (state.spawning.pipes i).buffer = []
          · cases running : state.exited with
            | true =>
                have released := before.released
                rw [head] at released
                exact ⟨.endOfFile, rfl, can_endOfFile head drained (before.closed i running) released.1⟩
            | false =>
                cases writes : state.writes with
                | nil => exact ⟨.childExits, rfl, can_childExit writes running⟩
                | cons write writes' =>
                    have writable := before.addressed write (writes ▸ List.mem_cons_self)
                    have room := room_of_fits fits isFirst drained writes
                    exact ⟨_, rfl, can_childWrite writes (before.writers _ writable running) room⟩
          · exact ⟨.read 1, rfl, can_read head drained⟩

/-! ### What fits -/

/-- A write takes no more room than it leaves to be written. -/
theorem length_write (i j count : Nat) (text buffer : List Char) (rest : List (Nat × List Char)) :
    (if j = i then buffer ++ text.take count else buffer).length
        + (textFor i (if count = text.length then rest else (j, text.drop count) :: rest)).length
      = buffer.length + (textFor i ((j, text) :: rest)).length := by
  rw [← textFor_rest i j count text rest, List.length_append]
  by_cases here : j = i
  · rw [if_pos here, if_pos here, List.length_append]
    exact Nat.add_assoc ..
  · rw [if_neg here, if_neg here, List.length_nil, Nat.zero_add]

/-- Whether everything fits is not changed by any step but a read that fails. -/
theorem fitsFrom_iff {actions : List SpawnAction} {program : ChildProgram actions}
    {state after : Running capacity} (before : ProgressInvariant actions program state) {event : RunningEvent}
    (works : event.works = true) (move : RunningMove event state after) :
    FitsFrom after ↔ FitsFrom state := by
  cases move with
  | childWrites i count text rest head within some_written move =>
      cases move with
      | write _ _ pipe writer buffer =>
          have same : ∀ j,
              (Function.update state.spawning.pipes i pipe j).buffer.length
                + (textFor j (if count = text.length then rest else (i, text.drop count) :: rest)).length
              = (state.spawning.pipes j).buffer.length + (textFor j state.writes).length := by
            intro j
            rw [head, ← length_write j i count text (state.spawning.pipes j).buffer rest]
            by_cases here : i = j
            · subst here
              rw [Function.update_self, buffer, if_pos rfl]
            · rw [Function.update_of_ne (Ne.symm here), if_neg here]
          simp only [FitsFrom, same]
  | childExits finished running move =>
      cases move with
      | close => exact Iff.rfl
  | closeChildFd move =>
      cases move with
      | closeChildFd j rest head => simp only [FitsFrom, head, firstCapture]
  | read count move =>
      cases move with
      | read j _ rest head positive within =>
          simp only [FitsFrom, head, firstCapture, Option.some.injEq]
          apply forall_congr'
          intro first
          apply imp_congr_right
          intro isFirst
          apply forall_congr'
          intro i
          apply imp_congr_right
          intro other
          rw [Function.update_of_ne (isFirst ▸ other)]
  | endOfFile move =>
      have finished := before.finished (before.exited_of_endOfFile move)
      have fits : ∀ i, (state.spawning.pipes i).buffer.length + (textFor i state.writes).length ≤ capacity i := by
        intro i
        rw [finished]
        exact (state.spawning.pipes i).fits
      cases move with
      | endOfFile j rest head drained closed released =>
          exact iff_of_true (fun _ _ i _ => fits i) (fun _ _ i _ => fits i)
  | readFails move => cases works

/-- At the start there is nothing in the pipes. -/
theorem fitsFrom_start (actions : List SpawnAction) (program : ChildProgram actions) :
    FitsFrom (Running.start capacity actions program) ↔ Fits capacity actions program := by
  simp [FitsFrom, Fits, Running.start, Spawning.start]

/-! ### When spawn returns -/

/-- The running system without reads that fail. -/
abbrev workingStep : RunningEvent → Running capacity → Option (Running capacity) :=
  restrict RunningEvent.works runningStep

theorem keeps_fitsFrom {actions : List SpawnAction} {program : ChildProgram actions} {fits : Prop} :
    Keeps (σ := Running capacity) workingStep
      (fun state => ProgressInvariant actions program state ∧ (FitsFrom state ↔ fits)) := by
  rintro state event after ⟨before, same⟩ taken
  obtain ⟨works, taken⟩ := restrict_eq_some_iff.mp taken
  refine ⟨progressInvariant_keeps actions program state event after before taken, ?_⟩
  exact (fitsFrom_iff before works (move_of_runningStep taken)).trans same

/-- From a state spawn can return without a read that fails exactly if everything fits. -/
theorem returns_iff {kernel : Capacities} {actions : List SpawnAction} {program : ChildProgram actions}
    {state : Running kernel.size} (reached : ProgressInvariant actions program state) :
    (∃ more final, (∀ event ∈ more, event.works = true) ∧ run runningStep more state = some final
        ∧ final.Returned)
      ↔ FitsFrom state := by
  constructor
  · rintro ⟨more, final, works, ran, returned⟩
    have kept := run_keeps keeps_fitsFrom ⟨reached, Iff.rfl⟩ (run_restrict_iff.mpr ⟨works, ran⟩)
    apply kept.2.mp
    intro first isFirst
    rw [returned] at isFirst
    cases isFirst
  · intro fits
    have lowers : Lowers (σ := Running kernel.size) workingStep
        (fun state => ProgressInvariant actions program state ∧ (FitsFrom state ↔ True))
        (Running.work actions.length) := fun state event after before taken =>
      work_lowers actions program state event after before.1 (restrict_eq_some_iff.mp taken).2
    have canStep : CanStep (σ := Running kernel.size) workingStep
        (fun state => ProgressInvariant actions program state ∧ (FitsFrom state ↔ True)) Running.Returned := by
      intro state before
      cases step_of_fits before.1 (before.2.mpr trivial) with
      | inl returned => exact Or.inl returned
      | inr possible =>
          obtain ⟨event, works, can⟩ := possible
          obtain ⟨after, taken⟩ := Option.isSome_iff_exists.mp can
          exact Or.inr ⟨event, after, restrict_eq_some_iff.mpr ⟨works, taken⟩⟩
    obtain ⟨more, final, ran, returned⟩ :=
      completes keeps_fitsFrom lowers canStep ⟨reached, iff_true_intro fits⟩
    obtain ⟨works, ran⟩ := run_restrict_iff.mp ran
    exact ⟨more, final, works, ran, returned⟩

/-- In every run, whatever reads fail: no run takes more steps than there is work; spawn can still return without
another read that fails exactly if every pipe other than that of the next capture has room for what the child
still writes to it, which is so all the time or never unless a read fails; every capture holds a first part of
what the child writes to it, and when spawn returns, all of it where no read failed. -/
theorem spawn_returns (kernel : Capacities) (actions : List SpawnAction) (program : ChildProgram actions) :
    let start := Running.start kernel.size actions program
    ∀ events state, run runningStep events start = some state →
      events.length ≤ start.work actions.length
      ∧ ((∃ more final, (∀ event ∈ more, event.works = true) ∧ run runningStep more state = some final
            ∧ final.Returned)
          ↔ FitsFrom state)
      ∧ ((∀ event ∈ events, event.works = true) → (FitsFrom state ↔ Fits kernel.size actions program))
      ∧ (∀ i, state.spawning.captured i <+: textFor i program.writes)
      ∧ (state.Returned → ∀ i, .readAll i ∈ parentOps actions → state.spawning.failed i = false →
          state.spawning.captured i = textFor i program.writes) := by
  intro start events state ran
  have keeps : Keeps (σ := Running kernel.size) runningStep (ProgressInvariant actions program) :=
    progressInvariant_keeps actions program
  have lowers : Lowers (σ := Running kernel.size) runningStep (ProgressInvariant actions program)
      (Running.work actions.length) := work_lowers actions program
  have begun : ProgressInvariant actions program start := progressInvariant_start actions program
  have reached := run_keeps keeps begun ran
  have bounded := length_le_of_lowers keeps lowers begun ran
  refine ⟨Nat.le_of_add_right_le bounded, returns_iff reached, ?_, ?_, ?_⟩
  · intro works
    have kept := run_keeps keeps_fitsFrom ⟨begun, Iff.rfl⟩ (run_restrict_iff.mpr ⟨works, ran⟩)
    exact kept.2.trans (fitsFrom_start actions program)
  · intro i
    rw [← reached.accounted i, Spawning.accounted, List.append_assoc]
    exact List.prefix_append _ _
  · intro returned i mem worked
    cases reached.drained i mem (returned ▸ List.not_mem_nil) with
    | inl failed => simp [worked] at failed
    | inr drained =>
        have all := reached.accounted i
        rw [reached.finished drained.1, Spawning.accounted, drained.2, List.append_nil] at all
        simpa [textFor] using all

end Nihil.Posix

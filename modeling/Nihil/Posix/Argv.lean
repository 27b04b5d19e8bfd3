/-
Module: Nihil.Posix.Argv
Layer: Posix
Purpose: argv, the argument vectors of the exec functions, with the memory that they own, and execv. Whatever a
  program does with its argvs, each that still has its arguments is read by ::execv as these, up to the
  first NUL in each, and no block is freed twice. Every block is owned by one argv in exactly the runs in
  which nothing is assigned to an argv that owns one (`argv_sound_iff`).
Imports: Nihil.Core.Error, Nihil.Library.CStrings, Nihil.Library.Run, Nihil.Library.Slots
Trusted boundary: ::execv and ::fexecve read the array up to the null pointer, and return only on failure. A
  vector that was moved from is empty.
Main exports: ArgvState, execArgs, exec, ArgvAction, argvStep, expectedArgs, ArgvSound, KeepsBlocks,
  argv_sound_iff
-/
import Nihil.Core.Error
import Nihil.Library.CStrings
import Nihil.Library.Run
import Nihil.Library.Slots

namespace Nihil.Posix

open Nihil.Library

/-! ### The operations -/

/-- '\0' -/
def terminator : Char := '\x00'

/-- The argvs, each with the pointers of its `m_args`; one that was moved from has none. -/
structure ArgvState where
  heap : Heap Str := Heap.empty
  argvs : Slots (List (Option Nat)) := []

/-- What ::execv reads at `data()`. -/
def execArgs (state : ArgvState) (mArgs : Option (List (Option Nat))) : Option (List Str) :=
  mArgs.bind (readArray terminator state.heap)

/-- `execv::exec`, by the error of the system call, if it returns. -/
def exec (state : ArgvState) (mArgs : Option (List (Option Nat))) (failure : Option ErrorCode) :
    Except Error (Option (List Str)) :=
  match failure with
  | some ec => .error { value := .text "execve failed".toList, causes := [.generic ec] }
  | none => .ok (execArgs state mArgs)

namespace ArgvState

/-- `argv::argv` for a range, with memory for `memory` pointers in the vector. If there is none for a block or
for a pointer, the blocks that were stored are freed and the exception leaves the constructor. -/
def construct (state : ArgvState) (args : List Str) (memory : Nat) : Option ArgvState :=
  match storeAll terminator args memory [] state.heap with
  | (stored, pointers, heap) =>
      if stored ∧ args.length < memory then
        some { heap := heap, argvs := state.argvs.construct (some (pointers ++ [none])) }
      else (freeAll pointers heap).map fun heap => { state with heap := heap }

/-- `argv::~argv` of argv `i`. -/
def destroy (state : ArgvState) (i : Nat) (mArgs : Option (List (Option Nat))) : Option ArgvState :=
  (freeAll (mArgs.getD []) state.heap).map fun heap =>
    { heap := heap, argvs := state.argvs.destroy i }

end ArgvState

/-- What a program does with its argvs. -/
inductive ArgvAction where
  | construct (args : List Str) (memory : Nat)
  | moveConstruct (i : Nat)
  /-- Argv `j` is moved to another argv `i`. -/
  | moveAssign (i j : Nat)
  | destroy (i : Nat)
deriving DecidableEq, Repr

/-- One action. It is not allowed for an argv that does not live, and a block that is freed twice ends the
program. -/
def argvStep (action : ArgvAction) (state : ArgvState) : Option ArgvState :=
  match action with
  | .construct args memory => state.construct args memory
  | .moveConstruct i =>
      (state.argvs.handle? i).map fun _ => { state with argvs := state.argvs.moveConstruct i }
  | .moveAssign i j =>
      if i = j then none
      else (state.argvs.handle? i).bind fun _ => (state.argvs.handle? j).map fun _ =>
        { state with argvs := state.argvs.moveAssign i j }
  | .destroy i => (state.argvs.handle? i).bind fun mArgs => state.destroy i mArgs

/-! ### What it is for -/

/-- An argument as the new program gets it. -/
def cutAtNul (arg : Str) : Str := arg.takeWhile (· ≠ terminator)

/-- The arguments that each argv should have. -/
def expectedArgs (action : ArgvAction) (expected : Slots (List Str)) : Slots (List Str) :=
  match action with
  | .construct args memory =>
      if args.length < memory then expected.construct (some (args.map cutAtNul)) else expected
  | .moveConstruct i => expected.moveConstruct i
  | .moveAssign i j => expected.moveAssign i j
  | .destroy i => expected.destroy i

/-- Every argv is read as it should be, owns its blocks alone, together with the others all blocks there are,
and can be destroyed. -/
structure ArgvSound (state : ArgvState × Slots (List Str)) : Prop where
  texts : ∀ i, (state.1.argvs.handle? i).map (execArgs state.1) = state.2.handle? i
  owned : ∀ place, state.1.argvs.holding (fun mArgs => some place ∈ mArgs) =
    if (state.1.heap.cells place).isSome then 1 else 0
  destroyed : ∀ i mArgs, state.1.argvs.handle? i = some mArgs →
    (freeAll (mArgs.getD []) state.1.heap).isSome

/-- Nothing is assigned to an argv that owns blocks. -/
def KeepsBlocks (state : ArgvState) : ArgvAction → Prop
  | .moveAssign i _ => ∀ mArgs, state.argvs.handle? i = some (some mArgs) → ∀ place, some place ∉ mArgs
  | _ => True

/-- The pointers of an argv lead to the texts that it should have, each to a block of its own. -/
def Represents (heap : Heap Str) (mArgs : List (Option Nat)) (texts : List Str) : Prop :=
  ∃ places, mArgs = places.map some ++ [none] ∧ places.Nodup ∧
    List.Forall₂ (Reads terminator heap) places texts

/-- A place of an object, and what should be there. -/
inductive Matches (heap : Heap Str) : Option (Option (List (Option Nat))) → Option (Option (List Str)) → Prop
  where
  | gone : Matches heap none none
  | empty : Matches heap (some none) (some none)
  | filled {mArgs : List (Option Nat)} {texts : List Str} (represents : Represents heap mArgs texts) :
      Matches heap (some (some mArgs)) (some (some texts))

/-- Every argv has what it should have, and who owns which block. -/
structure ArgvInvariant (state : ArgvState × Slots (List Str)) : Prop where
  slots : ∀ i, Matches state.1.heap (state.1.argvs.handle? i) (state.2.handle? i)
  length : state.2.length = state.1.argvs.length
  owned : ∀ place, state.1.argvs.holding (fun mArgs => some place ∈ mArgs) =
    if (state.1.heap.cells place).isSome then 1 else 0

theorem argvInvariant_start : ArgvInvariant ({}, []) where
  slots := fun _ => .gone
  length := rfl
  owned := fun _ => rfl

variable {state : ArgvState × Slots (List Str)}

/-- The blocks of an argv are there. -/
theorem Represents.live {heap : Heap Str} {mArgs : List (Option Nat)} {texts : List Str}
    (represents : Represents heap mArgs texts) {place : Nat} (member : some place ∈ mArgs) :
    ∃ block, heap.cells place = some block := by
  rcases represents with ⟨places, rfl, -, reads⟩
  exact reads_live reads (some_mem_pointers.mp member)

theorem Represents.congr {heap after : Heap Str} {mArgs : List (Option Nat)} {texts : List Str}
    (represents : Represents heap mArgs texts)
    (same : ∀ place, some place ∈ mArgs → after.cells place = heap.cells place) :
    Represents after mArgs texts := by
  rcases represents with ⟨places, rfl, distinct, reads⟩
  refine ⟨places, rfl, distinct, reads_congr reads fun place member => ?_⟩
  exact same place (some_mem_pointers.mpr member)

/-- The blocks of an argv can be freed. -/
theorem Represents.freeAll {heap : Heap Str} {mArgs : List (Option Nat)} {texts : List Str}
    (represents : Represents heap mArgs texts) :
    ∃ after, freeAll mArgs heap = some after ∧
      ∀ place, after.cells place = if some place ∈ mArgs then none else heap.cells place := by
  rcases represents with ⟨places, rfl, distinct, reads⟩
  obtain ⟨after, freed, cells⟩ := freeAll_eq distinct (fun place member => reads_live reads member) [none]
  refine ⟨after, freed, fun place => ?_⟩
  rw [cells]
  exact if_congr some_mem_pointers.symm rfl rfl

theorem Matches.congr {heap after : Heap Str} {held : Option (Option (List (Option Nat)))}
    {expected : Option (Option (List Str))} (same : Matches heap held expected)
    (kept : ∀ mArgs, held = some (some mArgs) → ∀ place, some place ∈ mArgs →
      after.cells place = heap.cells place) : Matches after held expected := by
  cases same with
  | gone => exact .gone
  | empty => exact .empty
  | filled represents => exact .filled (represents.congr (kept _ rfl))

theorem Matches.texts {heap : Heap Str} {held : Option (Option (List (Option Nat)))}
    {expected : Option (Option (List Str))} (same : Matches heap held expected) :
    held.map (fun mArgs => mArgs.bind (readArray terminator heap)) = expected := by
  cases same with
  | gone => rfl
  | empty => rfl
  | filled represents =>
      rcases represents with ⟨places, rfl, -, reads⟩
      rw [Option.map_some, Option.bind_some, readArray_eq reads]

/-- What an argv should have, when it lives. -/
theorem ArgvInvariant.expected (invariant : ArgvInvariant state) {i : Nat}
    {mArgs : Option (List (Option Nat))} (live : state.1.argvs.handle? i = some mArgs) :
    ∃ texts, state.2.handle? i = some texts ∧ Matches state.1.heap (some mArgs) (some texts) := by
  have same := invariant.slots i
  rw [live] at same
  generalize found : state.2.handle? i = expected at same
  cases same with
  | empty => exact ⟨none, rfl, .empty⟩
  | filled represents => exact ⟨_, rfl, .filled represents⟩

theorem ArgvInvariant.sound (invariant : ArgvInvariant state) : ArgvSound state where
  texts := fun i => (invariant.slots i).texts
  owned := invariant.owned
  destroyed := by
    intro i mArgs live
    obtain ⟨texts, -, same⟩ := invariant.expected live
    cases same with
    | empty => rfl
    | filled represents =>
        obtain ⟨after, freed, -⟩ := represents.freeAll
        rw [Option.getD_some, freed]
        rfl

/-- A block has one owner at most. -/
theorem ArgvInvariant.apart (invariant : ArgvInvariant state) {i j : Nat}
    {mArgs mArgs' : List (Option Nat)} (live : state.1.argvs.handle? i = some (some mArgs))
    (live' : state.1.argvs.handle? j = some (some mArgs')) {place : Nat} (member : some place ∈ mArgs)
    (member' : some place ∈ mArgs') : j = i := by
  have once : state.1.argvs.holding (fun mArgs => some place ∈ mArgs) ≤ 1 := by
    rw [invariant.owned]
    split_ifs
    · exact Nat.le_refl 1
    · exact Nat.zero_le 1
  exact Slots.eq_of_holding_le_one once live (decide_eq_true member) live' (decide_eq_true member')

/-! ### The steps -/

/-- The heap does not change where blocks are. -/
theorem ArgvInvariant.heap (invariant : ArgvInvariant state) {after : Heap Str}
    (same : after.cells = state.1.heap.cells) :
    ArgvInvariant ({ state.1 with heap := after }, state.2) where
  slots := fun i => (invariant.slots i).congr fun _ _ place _ => congrFun same place
  length := invariant.length
  owned := by
    intro place
    rw [same]
    exact invariant.owned place

/-- All arguments are stored. -/
theorem ArgvInvariant.store (invariant : ArgvInvariant state) {args : List Str} {places : List Nat}
    {after : Heap Str} (stored : Stored terminator args state.1.heap places after) :
    ArgvInvariant ({ heap := after, argvs := state.1.argvs.construct (some (places.map some ++ [none])) },
      state.2.construct (some (args.map cutAtNul))) where
  slots := by
    intro i
    rw [Slots.handle?_construct, Slots.handle?_construct, invariant.length]
    split_ifs with new
    · exact .filled ⟨places, rfl, stored.distinct, stored.reads⟩
    · apply (invariant.slots i).congr
      intro mArgs live place member
      apply stored.others
      intro new
      obtain ⟨texts, -, same⟩ := invariant.expected live
      cases same with
      | filled represents =>
          obtain ⟨block, found⟩ := represents.live member
          rw [stored.free new] at found
          cases found
  length := by
    change (_ ++ _ : List _).length = (_ ++ _ : List _).length
    rw [List.length_append, List.length_append, invariant.length]
    rfl
  owned := by
    intro place
    rw [Slots.holding_construct, invariant.owned, Slots.tally_some]
    by_cases new : place ∈ places
    · obtain ⟨block, found⟩ := reads_live stored.reads new
      rw [stored.free new, found]
      simp [new]
    · rw [stored.others place new]
      simp [new]

/-- An argv is constructed, or its constructor throws. -/
theorem ArgvInvariant.construct (invariant : ArgvInvariant state) {args : List Str} {memory : Nat}
    {after : ArgvState} (done : state.1.construct args memory = some after) :
    ArgvInvariant (after, expectedArgs (.construct args memory) state.2) := by
  obtain ⟨places, heap, same, stored⟩ := storeAll_stored args memory [] state.1.heap
  rw [ArgvState.construct, same] at done
  simp only [List.nil_append, decide_eq_true_eq] at done
  rw [expectedArgs]
  by_cases enough : args.length < memory
  · rw [if_pos ⟨Nat.le_of_lt enough, enough⟩] at done
    cases done
    rw [if_pos enough]
    rw [List.take_of_length_le (Nat.le_of_lt enough)] at stored
    exact invariant.store stored
  · rw [if_neg fun both => enough both.2] at done
    rw [if_neg enough]
    obtain ⟨freed, gone, cells⟩ := freeAll_eq stored.distinct
      (fun place member => reads_live stored.reads member) []
    rw [List.append_nil, freeAll] at gone
    rw [gone] at done
    cases done
    apply invariant.heap
    funext place
    rw [cells]
    split_ifs with member
    · rw [stored.free member]
    · exact stored.others place member

/-- An argv is destroyed with its blocks. -/
theorem ArgvInvariant.destroy (invariant : ArgvInvariant state) {i : Nat}
    {mArgs : Option (List (Option Nat))} (live : state.1.argvs.handle? i = some mArgs) {after : ArgvState}
    (done : state.1.destroy i mArgs = some after) : ArgvInvariant (after, state.2.destroy i) := by
  obtain ⟨texts, expected, same⟩ := invariant.expected live
  obtain ⟨heap, freed, cells⟩ : ∃ heap, freeAll (mArgs.getD []) state.1.heap = some heap ∧
      ∀ place, heap.cells place = if some place ∈ mArgs.getD [] then none else state.1.heap.cells place := by
    cases same with
    | empty => exact ⟨state.1.heap, rfl, fun place => (if_neg List.not_mem_nil).symm⟩
    | filled represents => exact represents.freeAll
  rw [ArgvState.destroy, freed] at done
  cases done
  constructor
  · intro k
    rw [Slots.handle?_destroy live, Slots.handle?_destroy expected]
    split_ifs with here
    · exact .gone
    · apply (invariant.slots k).congr
      intro mArgs' live' place member'
      rw [cells]
      split_ifs with member
      · cases mArgs with
        | none => cases member
        | some mArgs => exact absurd (invariant.apart live live' member member') here
      · rfl
  · change (List.set _ _ _).length = (List.set _ _ _).length
    rw [List.length_set, List.length_set, invariant.length]
  · intro place
    have replaced := Slots.holding_set (fun mArgs => some place ∈ mArgs) live none
    have owned := invariant.owned place
    change Slots.holding _ (state.1.argvs.set i none) = _
    have cell := cells place
    cases mArgs with
    | none =>
        rw [Option.getD_none, if_neg List.not_mem_nil] at cell
        rw [cell]
        exact Eq.trans replaced owned
    | some mArgs =>
        rw [Slots.tally_some] at replaced
        simp only [Option.getD_some, Option.join_none, Slots.tally_none, decide_eq_true_eq] at replaced cell
        by_cases member : some place ∈ mArgs
        · rw [if_pos member] at replaced cell
          rw [cell, Option.isSome_none, if_neg Bool.false_ne_true]
          split_ifs at owned <;> omega
        · rw [if_neg member] at replaced cell
          rw [cell]
          exact replaced.trans owned

theorem ArgvInvariant.moveConstruct (invariant : ArgvInvariant state) {i : Nat}
    {mArgs : Option (List (Option Nat))} (live : state.1.argvs.handle? i = some mArgs) :
    ArgvInvariant ({ state.1 with argvs := state.1.argvs.moveConstruct i }, state.2.moveConstruct i) where
  slots := by
    obtain ⟨texts, expected, same⟩ := invariant.expected live
    intro k
    have joined : (state.1.argvs.handle? i).join = mArgs := congrArg Option.join live
    have joined' : (state.2.handle? i).join = texts := congrArg Option.join expected
    simp only [Slots.moveConstruct, joined, joined', Slots.handle?_construct, Slots.assign,
      List.length_set, invariant.length]
    split_ifs with new
    · exact same
    · change Matches _ ((state.1.argvs.assign i none).handle? k) ((state.2.assign i none).handle? k)
      rw [Slots.handle?_assign live, Slots.handle?_assign expected]
      split_ifs with here
      · exact .empty
      · exact invariant.slots k
  length := by
    simp [Slots.moveConstruct, Slots.construct, Slots.assign, invariant.length]
  owned := by
    intro place
    change Slots.holding _ (state.1.argvs.moveConstruct i) = _
    rw [Slots.holding_moveConstruct _ live]
    exact invariant.owned place

/-- An argv is moved to one that owns no blocks. -/
theorem ArgvInvariant.moveAssign (invariant : ArgvInvariant state) {i j : Nat} (different : i ≠ j)
    {mArgs mArgs' : Option (List (Option Nat))} (target : state.1.argvs.handle? i = some mArgs)
    (source : state.1.argvs.handle? j = some mArgs')
    (keeps : ∀ held, mArgs = some held → ∀ place, some place ∉ held) :
    ArgvInvariant ({ state.1 with argvs := state.1.argvs.moveAssign i j }, state.2.moveAssign i j) where
  slots := by
    obtain ⟨texts, expected, same⟩ := invariant.expected source
    obtain ⟨texts', expected', -⟩ := invariant.expected target
    intro k
    have joined : (state.1.argvs.handle? j).join = mArgs' := congrArg Option.join source
    have joined' : (state.2.handle? j).join = texts := congrArg Option.join expected
    have still : (state.1.argvs.assign j none).handle? i = some mArgs := by
      rw [Slots.handle?_assign source, if_neg different, target]
    have still' : (state.2.assign j none).handle? i = some texts' := by
      rw [Slots.handle?_assign expected, if_neg different, expected']
    rw [Slots.moveAssign, Slots.moveAssign, joined, joined', Slots.handle?_assign still,
      Slots.handle?_assign still']
    split_ifs with here
    · exact same
    · rw [Slots.handle?_assign source, Slots.handle?_assign expected]
      split_ifs with here'
      · exact .empty
      · exact invariant.slots k
  length := by
    simp [Slots.moveAssign, Slots.assign, invariant.length]
  owned := by
    intro place
    have lost := Slots.holding_moveAssign (fun held => some place ∈ held) different target source
    have nothing : Slots.tally (fun held : List (Option Nat) => decide (some place ∈ held)) mArgs = 0 := by
      cases mArgs with
      | none => rfl
      | some held => rw [Slots.tally_some, if_neg (by simpa using keeps held rfl place)]
    rw [nothing] at lost
    exact Eq.trans lost (invariant.owned place)

/-- Every step that assigns to no argv with blocks keeps the argvs sound. -/
theorem ArgvInvariant.step (invariant : ArgvInvariant state) {action : ArgvAction}
    {after : ArgvState × Slots (List Str)} (keeps : KeepsBlocks state.1 action)
    (taken : lockstep argvStep expectedArgs action state = some after) : ArgvInvariant after := by
  obtain ⟨next, stepped, rfl⟩ := Option.map_eq_some_iff.mp taken
  cases action with
  | construct args memory => exact invariant.construct stepped
  | moveConstruct i =>
      obtain ⟨mArgs, live, rfl⟩ := Option.map_eq_some_iff.mp stepped
      exact invariant.moveConstruct live
  | moveAssign i j =>
      rw [argvStep] at stepped
      split_ifs at stepped with same
      obtain ⟨mArgs, target, rest⟩ := Option.bind_eq_some_iff.mp stepped
      obtain ⟨mArgs', source, rfl⟩ := Option.map_eq_some_iff.mp rest
      exact invariant.moveAssign same target source fun held filled =>
        keeps held (by rw [target, filled])
  | destroy i =>
      obtain ⟨mArgs, live, done⟩ := Option.bind_eq_some_iff.mp stepped
      exact invariant.destroy live done

/-- The blocks of an argv that is assigned to are nobody's. -/
theorem ArgvInvariant.leak (invariant : ArgvInvariant state) {action : ArgvAction}
    {after : ArgvState × Slots (List Str)} (leaks : ¬ KeepsBlocks state.1 action)
    (taken : lockstep argvStep expectedArgs action state = some after) : ¬ ArgvSound after := by
  intro sound
  obtain ⟨next, stepped, rfl⟩ := Option.map_eq_some_iff.mp taken
  cases action with
  | moveAssign i j =>
      rw [argvStep] at stepped
      split_ifs at stepped with same
      obtain ⟨mArgs, target, rest⟩ := Option.bind_eq_some_iff.mp stepped
      obtain ⟨mArgs', source, rfl⟩ := Option.map_eq_some_iff.mp rest
      obtain ⟨held, live, place, member⟩ : ∃ held, state.1.argvs.handle? i = some (some held) ∧
          ∃ place, some place ∈ held := by simpa [KeepsBlocks] using leaks
      rw [live] at target
      cases target
      have lost := Slots.holding_moveAssign (fun held => some place ∈ held) same live source
      have before := invariant.owned place
      have owned := sound.owned place
      rw [Slots.tally_some, if_pos (decide_eq_true member)] at lost
      change Slots.holding _ (state.1.argvs.moveAssign i j) = _ at owned
      rw [before, owned] at lost
      exact absurd lost (Nat.succ_ne_self _)
  | _ => exact leaks trivial

/-- Every argv is read as its arguments and can be destroyed, and every block has its one owner, in every state
of a run exactly if nothing is assigned to an argv that owns blocks. -/
theorem argv_sound_iff (actions : List ArgvAction) :
    EveryState (lockstep argvStep expectedArgs) ArgvSound actions ({}, []) ↔
      EveryStep (lockstep argvStep expectedArgs) (fun state => KeepsBlocks state.1) actions ({}, []) :=
  everyState_iff (fun _ invariant => invariant.sound)
    (fun _ _ _ invariant keeps taken => invariant.step keeps taken)
    (fun _ _ _ invariant leaks taken => invariant.leak leaks taken)
    argvInvariant_start actions

end Nihil.Posix

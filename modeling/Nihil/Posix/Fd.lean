/-
Module: Nihil.Posix.Fd
Layer: Posix
Purpose: Ownership of file descriptors. The fd objects of a process and its descriptor table are a custody:
  a descriptor is open at a number, and an fd holds a number, which it closes when it is destroyed. The
  move assignment overwrites the number of its target without closing it, so the ownership that the other
  operations keep holds in exactly the runs in which nothing is assigned to an fd that holds a descriptor.
Imports: Nihil.Core.Error, Nihil.Library.Run, Nihil.Library.Custody
Trusted boundary: ::open and ::dup return a number that is not open; ::close frees the number it is given.
Main exports: Fd, FdAction, fdStep, Ownership, KeepsDescriptor, fd_ownership_iff
-/
import Nihil.Core.Error
import Nihil.Library.Run
import Nihil.Library.Custody

namespace Nihil.Posix

open Nihil.Library

/-! ### The operations -/

/-- `fd`, by its `m_fileno`; there is none if that is `invalid_fileno`. -/
abbrev Fd := Option Nat

/-- `fd::get`. -/
def Fd.get (fd : Fd) : Except LogicError Nat :=
  match fd with
  | some fileno => .ok fileno
  | none => .error ⟨"Attempt to call get() on invalid fd".toList⟩

/-- The fd objects and the descriptor table. The resources of the custody are the descriptors. -/
abbrev FdState := Custody

namespace FdState

/-- `fd::close` of object `i`. -/
def close (state : FdState) (i : Nat) (fd : Fd) : Except LogicError FdState :=
  match Fd.get fd with
  | .error err => .error err
  | .ok fileno => .ok ((state.endAt fileno).replace i (some none))

/-- `fd::release` of object `i`: the number, which the caller must close, and what is left. -/
def release (state : FdState) (i : Nat) (fd : Fd) : Except LogicError (Nat × FdState) :=
  match fd with
  | some fileno => .ok (fileno, (Custody.release state fileno).replace i (some none))
  | none => .error ⟨"Attempt to release an invalid fd".toList⟩

/-- `fd::~fd` of object `i`. -/
def destroy (state : FdState) (i : Nat) (fd : Fd) : FdState :=
  match fd with
  | none => state.replace i none
  | some fileno => ((state.endAt fileno).replace i (some none)).replace i none

/-- The move assignment of object `j` to object `i`. -/
def moveAssign (state : FdState) (i j : Nat) : FdState :=
  if i = j then state else Custody.moveAssign state i j

end FdState

/-- What a program does with its fd objects, and what the rest of it does with other descriptors. -/
inductive FdAction where
  /-- `fd()`. -/
  | construct
  /-- `fd(fileno)` for a descriptor that ::open opened at a free number. -/
  | open' (fileno : Nat)
  | moveConstruct (i : Nat)
  /-- Object `j` is moved to object `i`. -/
  | moveAssign (i j : Nat)
  | close (i : Nat)
  | release (i : Nat)
  /-- `dup`, with the number that ::dup returns, or none if it fails. -/
  | dup (i : Nat) (newfd : Option Nat)
  | destroy (i : Nat)
  /-- A descriptor without an fd is opened at a free number. -/
  | otherOpen (fileno : Nat)
  /-- A number that no fd holds is closed. -/
  | otherClose (fileno : Nat)
deriving DecidableEq, Repr

/-- A call that throws leaves everything as it was. -/
def orUnchanged (state : FdState) (outcome : Except LogicError FdState) : FdState :=
  match outcome with
  | .ok after => after
  | .error _ => state

/-- One action. It is not allowed for an object that does not live, for a fresh descriptor at a number
that is in use, and for closing the number of an fd from outside. -/
def fdStep (action : FdAction) (state : FdState) : Option FdState :=
  match action with
  | .construct => some state.construct
  | .open' fileno => if state.table fileno = none then some (state.adopt fileno) else none
  | .moveConstruct i => (state.objects.handle? i).map fun _ => state.moveConstruct i
  | .moveAssign i j =>
      (state.objects.handle? i).bind fun _ => (state.objects.handle? j).map fun _ =>
        FdState.moveAssign state i j
  | .close i => (state.objects.handle? i).map fun fd => orUnchanged state (FdState.close state i fd)
  | .release i =>
      (state.objects.handle? i).map fun fd =>
        orUnchanged state ((FdState.release state i fd).map Prod.snd)
  | .dup i newfd =>
      (state.objects.handle? i).bind fun fd =>
        match Fd.get fd, newfd with
        | .error _, _ => some state
        | .ok _, none => some state
        | .ok _, some newfd => if state.table newfd = none then some (state.adopt newfd) else none
  | .destroy i => (state.objects.handle? i).map fun fd => FdState.destroy state i fd
  | .otherOpen fileno => if state.table fileno = none then some (state.otherBegin fileno) else none
  | .otherClose fileno =>
      if state.objects.Held fileno then none else some (state.otherEnd fileno)

/-! ### Ownership -/

/-- Every descriptor that was handed to an fd has one owner, was closed once or was released. -/
structure Ownership (state : FdState) : Prop where
  /-- Every descriptor is owned by one live fd, or closed by one ::close, or handed back. -/
  exactlyOne : state.ExactlyOne
  /-- A live fd holds the number of a descriptor of its own. -/
  owned : state.Valid
  /-- Every ::close closed a descriptor that was handed to an fd. -/
  closedOwn : ∀ call ∈ state.ended, ∃ descriptor ∈ state.handed, call = some descriptor
  /-- When all fd objects are destroyed, what was not released was closed exactly once. -/
  closedOnce : (∀ slot ∈ state.objects, slot = none) → ∀ descriptor ∈ state.handed,
    descriptor ∉ state.released → state.ended.count (some descriptor) = 1

/-- What is assigned to an fd does not overwrite a descriptor. -/
def KeepsDescriptor (state : FdState) : FdAction → Prop
  | .moveAssign i j => i = j ∨ state.objects.handle? i = some none
  | _ => True

/-- The state of a sound custody in which ::close was only called on descriptors handed to fd objects. -/
structure FdInvariant (state : FdState) : Prop where
  sound : state.Sound
  closedOwn : ∀ call ∈ state.ended, ∃ descriptor ∈ state.handed, call = some descriptor

theorem FdInvariant.ownership {state : FdState} (invariant : FdInvariant state) : Ownership state where
  exactlyOne := invariant.sound.exactlyOne
  owned := invariant.sound.valid
  closedOwn := invariant.closedOwn
  closedOnce := fun destroyed _ member kept =>
    invariant.sound.exactlyOne.ended_of_destroyed destroyed member kept

theorem fdInvariant_start : FdInvariant { table := fun _ => none } where
  sound := Custody.sound_start (fun _ _ found => by simp at found)
  closedOwn := fun _ member => absurd member List.not_mem_nil

variable {state : FdState}

/-- ::close on the number of a live fd closes the descriptor of that fd. -/
theorem FdInvariant.endAt (invariant : FdInvariant state) {i fileno : Nat}
    (live : state.objects.handle? i = some (some fileno)) {slot : Option (Option Nat)}
    (empty : slot.join = none) : FdInvariant ((state.endAt fileno).replace i slot) where
  sound := invariant.sound.endOwned live empty
  closedOwn := by
    intro call member
    rcases List.mem_append.mp member with earlier | new
    · exact invariant.closedOwn call earlier
    · rw [List.mem_singleton.mp new]
      exact invariant.sound.valid i fileno live

/-- A new descriptor that is wrapped. -/
theorem FdInvariant.adopt (invariant : FdInvariant state) {fileno : Nat} (free : state.table fileno = none) :
    FdInvariant (state.adopt fileno) where
  sound := invariant.sound.adopt free
  closedOwn := by
    intro call member
    obtain ⟨descriptor, handed, same⟩ := invariant.closedOwn call member
    exact ⟨descriptor, List.mem_append_left _ handed, same⟩

/-- A sound state with the same calls of ::close and the same descriptors. -/
theorem FdInvariant.of_sound (invariant : FdInvariant state) {after : FdState} (sound : after.Sound)
    (ended : after.ended = state.ended) (handed : after.handed = state.handed) : FdInvariant after :=
  ⟨sound, by rw [ended, handed]; exact invariant.closedOwn⟩

theorem FdInvariant.close (invariant : FdInvariant state) {i : Nat} {fd : Fd}
    (live : state.objects.handle? i = some fd) :
    FdInvariant (orUnchanged state (FdState.close state i fd)) := by
  cases fd with
  | none => exact invariant
  | some fileno => exact invariant.endAt live rfl

theorem FdInvariant.release (invariant : FdInvariant state) {i : Nat} {fd : Fd}
    (live : state.objects.handle? i = some fd) :
    FdInvariant (orUnchanged state ((FdState.release state i fd).map Prod.snd)) := by
  cases fd with
  | none => exact invariant
  | some fileno => exact invariant.of_sound (invariant.sound.release live rfl) rfl rfl

theorem FdInvariant.destroy (invariant : FdInvariant state) {i : Nat} {fd : Fd}
    (live : state.objects.handle? i = some fd) : FdInvariant (FdState.destroy state i fd) := by
  cases fd with
  | none => exact invariant.of_sound (invariant.sound.replaceEmpty live rfl) rfl rfl
  | some fileno =>
      have closed : FdInvariant ((state.endAt fileno).replace i (some none)) := invariant.endAt live rfl
      have cleared : ((state.endAt fileno).replace i (some none)).objects.handle? i = some none := by
        have inside := Slots.lt_length_of_handle? live
        exact (Slots.handle?_set inside (some none) i).trans (if_pos rfl)
      exact closed.of_sound (closed.sound.replaceEmpty cleared rfl) rfl rfl

theorem FdInvariant.moveAssign (invariant : FdInvariant state) {i j : Nat} {other : Fd}
    (source : state.objects.handle? j = some other)
    (keeps : KeepsDescriptor state (.moveAssign i j)) : FdInvariant (FdState.moveAssign state i j) := by
  apply invariant.of_sound (invariant.sound.assign source keeps)
  · split_ifs <;> rfl
  · split_ifs <;> rfl

/-- Every action that overwrites no descriptor keeps the ownership. -/
theorem FdInvariant.step (invariant : FdInvariant state) {action : FdAction} {after : FdState}
    (keeps : KeepsDescriptor state action) (taken : fdStep action state = some after) :
    FdInvariant after := by
  cases action with
  | construct =>
      cases taken
      exact invariant.of_sound invariant.sound.construct rfl rfl
  | open' fileno =>
      rw [fdStep] at taken
      split_ifs at taken with free
      cases taken
      exact invariant.adopt free
  | moveConstruct i =>
      obtain ⟨fd, live, rfl⟩ := Option.map_eq_some_iff.mp taken
      exact invariant.of_sound (invariant.sound.moveConstruct live) rfl rfl
  | moveAssign i j =>
      obtain ⟨fd, target, rest⟩ := Option.bind_eq_some_iff.mp taken
      obtain ⟨other, source, rfl⟩ := Option.map_eq_some_iff.mp rest
      exact invariant.moveAssign source keeps
  | close i =>
      obtain ⟨fd, live, rfl⟩ := Option.map_eq_some_iff.mp taken
      exact invariant.close live
  | release i =>
      obtain ⟨fd, live, rfl⟩ := Option.map_eq_some_iff.mp taken
      exact invariant.release live
  | dup i newfd =>
      obtain ⟨fd, live, done⟩ := Option.bind_eq_some_iff.mp taken
      split at done
      · cases done
        exact invariant
      · cases done
        exact invariant
      · split_ifs at done with free
        cases done
        exact invariant.adopt free
  | destroy i =>
      obtain ⟨fd, live, rfl⟩ := Option.map_eq_some_iff.mp taken
      exact invariant.destroy live
  | otherOpen fileno =>
      rw [fdStep] at taken
      split_ifs at taken with free
      cases taken
      exact invariant.of_sound (invariant.sound.otherBegin free) rfl rfl
  | otherClose fileno =>
      rw [fdStep] at taken
      split_ifs at taken with held
      cases taken
      have notHeld : ∀ i, state.objects.handle? i ≠ some (some fileno) :=
        fun i live => held (Slots.held_iff.mpr ⟨i, live⟩)
      exact invariant.of_sound (invariant.sound.otherEnd notHeld) rfl rfl

/-- An assignment that overwrites a descriptor leaves that descriptor without an owner. -/
theorem FdInvariant.overwrite (invariant : FdInvariant state) {action : FdAction} {after : FdState}
    (overwrites : ¬ KeepsDescriptor state action) (taken : fdStep action state = some after) :
    ¬ Ownership after := by
  cases action with
  | moveAssign i j =>
      obtain ⟨fd, target, rest⟩ := Option.bind_eq_some_iff.mp taken
      obtain ⟨other, source, rfl⟩ := Option.map_eq_some_iff.mp rest
      intro ownership
      exact Custody.not_exactlyOne_assign invariant.sound target source overwrites ownership.exactlyOne
  | _ => exact absurd trivial overwrites

/-- Ownership holds in every state of a run exactly if no step of the run assigns to an fd that holds a
descriptor. -/
theorem fd_ownership_iff (actions : List FdAction) :
    EveryState fdStep Ownership actions { table := fun _ => none } ↔
      EveryStep fdStep KeepsDescriptor actions { table := fun _ => none } :=
  everyState_iff (fun _ invariant => invariant.ownership)
    (fun _ _ _ invariant keeps taken => invariant.step keeps taken)
    (fun _ _ _ invariant overwrites taken => invariant.overwrite overwrites taken)
    fdInvariant_start actions

/-- Two descriptors are wrapped, the second fd is moved to the first, and both are destroyed. -/
private def moveOverOther : List FdAction :=
  [.open' 3, .open' 4, .moveAssign 0 1, .destroy 0, .destroy 1]

/-- The first descriptor is never closed. -/
theorem fd_ownership_fails :
    ∃ final, run fdStep moveOverOther { table := fun _ => none } = some final ∧
      final.objects = [none, none] ∧ final.handed = [0, 1] ∧ final.released = [] ∧
      final.ended = [some 1] ∧ final.table 3 = some 0 ∧
      ¬ EveryState fdStep Ownership moveOverOther { table := fun _ => none } := by
  refine ⟨_, rfl, rfl, rfl, rfl, rfl, rfl, fun every => ?_⟩
  have once := (every.last rfl).exactlyOne 0 List.mem_cons_self
  exact absurd once (by decide)

end Nihil.Posix

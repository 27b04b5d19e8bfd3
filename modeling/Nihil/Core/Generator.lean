/-
Module: Nihil.Core.Generator
Layer: Core
Purpose: generator, its iterators, and the coroutine frames that they own through handles. In every run of
  the objects' operations each frame that is not destroyed has exactly one owner, and every handle is that of
  such a frame, exactly as long as no iterator is overwritten that holds one: the move assignment of an
  iterator forgets the frame, where that of a generator swaps.
Imports: Nihil.Library.Heap, Nihil.Library.Run, Nihil.Library.Slots
Trusted boundary: a generator is not begun twice, and no iterator is incremented at its end; a value is
  copied and moved without an exception.
Main exports: Yielded, Resumed, Held, yieldValue, Held.get, Frame, Coroutine, Coroutine.ofBody, Generators,
  Generators.begin_, Generators.increment, Generators.deref, GeneratorEvent, generatorStep, Generators.Owned,
  Spares, owned_iff
-/
import Nihil.Library.Heap
import Nihil.Library.Run
import Nihil.Library.Slots

namespace Nihil.Generator

open Nihil.Library

variable {β ν ξ : Type}

/-- The operand of a `co_yield`. In a generator of references the value is the object that it refers to. -/
inductive Yielded (ν : Type) where
  | rvalue (value : ν)
  | lvalue (value : ν)

/-- What the body of a generator does when it goes on from a point: it yields a value, it returns or it
throws. -/
inductive Resumed (β ν ξ : Type) where
  | yields (value : Yielded ν) (rest : β)
  | returns
  | throws (exception : ξ)

/-- The promise's `value_`: a std::variant of nothing, a value and a pointer to one. -/
inductive Held (ν : Type) where
  | monostate
  | value (value : ν)
  | pointer (value : ν)

/-- `yield_value`. An rvalue is moved into the promise; for an lvalue there is one overload if `T` is a
reference, and another one if it is not. -/
def yieldValue (isReference : Bool) : Yielded ν → Held ν
  | .rvalue value => .value value
  | .lvalue value => if isReference then .pointer value else .value value

/-- `std::get` of the pointer if `T` is a reference, and of the value if it is not. Otherwise it throws
std::bad_variant_access. -/
def Held.get (isReference : Bool) : Held ν → Option ν
  | .monostate => none
  | .value object => if isReference then none else some object
  | .pointer object => if isReference then some object else none

/-- A coroutine frame: the point where the body goes on, none at its end, and the promise. -/
structure Frame (β ν ξ : Type) where
  rest : Option β
  value : Held ν := .monostate
  exception : Option ξ := none

/-- `yield_value`, `return_void` or `unhandled_exception`, and the coroutine is suspended. -/
def Frame.suspend (isReference : Bool) (frame : Frame β ν ξ) : Resumed β ν ξ → Frame β ν ξ
  | .yields value rest => { frame with rest := some rest, value := yieldValue isReference value }
  | .returns => { frame with rest := none }
  | .throws exception => { frame with rest := none, exception := some exception }

/-- What a coroutine is compiled to: `coroutine_handle::resume`, which is not defined at the end, and
`coroutine_handle::destroy`. -/
structure Coroutine (β ν ξ : Type) where
  resume : Nat → Heap (Frame β ν ξ) → Option (Heap (Frame β ν ξ))
  destroy : Nat → Heap (Frame β ν ξ) → Option (Heap (Frame β ν ξ))

/-- A coroutine with a body that uses no other generator. -/
def Coroutine.ofBody (isReference : Bool) (body : β → Resumed β ν ξ) : Coroutine β ν ξ where
  resume handle frames := do
    let frame ← frames.cells handle
    let point ← frame.rest
    return frames.put handle (some (frame.suspend isReference (body point)))
  destroy handle frames := do
    let _ ← frames.cells handle
    return frames.put handle none

/-- The frames that are not destroyed, and the objects of the two classes with their handles. -/
structure Generators (β ν ξ : Type) where
  frames : Heap (Frame β ν ξ)
  generators : Slots Nat := []
  iterators : Slots Nat := []

namespace Generators

variable (coroutine : Coroutine β ν ξ)

/-- A call of the coroutine, which is suspended at its start. The generator is new. -/
def call (start : β) (self : Generators β ν ξ) : Generators β ν ξ :=
  { self with
    frames := self.frames.create { rest := some start }
    generators := self.generators.construct (some self.frames.next) }

/-- `handle_.resume()`, and `rethrow_if_exception()` at the end. -/
def resumeAt (handle : Nat) (self : Generators β ν ξ) : Option (Option ξ × Generators β ν ξ) := do
  let frames ← coroutine.resume handle self.frames
  let frame ← frames.cells handle
  let thrown := if frame.rest.isNone then frame.exception else none
  return (thrown, { self with frames := frames })

/-- `begin`: the handle goes to a new iterator, unless the body threw before it yielded anything. -/
def begin_ (i : Nat) (self : Generators β ν ξ) : Option (Except ξ Nat × Generators β ν ξ) := do
  let handle ← (self.generators.handle? i).join
  let (thrown, self) ← self.resumeAt coroutine handle
  match thrown with
  | some exception => return (.error exception, self)
  | none => return (.ok self.iterators.length,
      { self with
        generators := self.generators.assign i none
        iterators := self.iterators.construct (some handle) })

/-- `iterator::operator++` -/
def increment (i : Nat) (self : Generators β ν ξ) : Option (Except ξ Unit × Generators β ν ξ) := do
  let handle ← (self.iterators.handle? i).join
  let (thrown, self) ← self.resumeAt coroutine handle
  match thrown with
  | some exception => return (.error exception, self)
  | none => return (.ok (), self)

/-- `operator==` with the sentinel -/
def atEnd (i : Nat) (self : Generators β ν ξ) : Option Bool := do
  match ← self.iterators.handle? i with
  | none => return true
  | some handle =>
      let frame ← self.frames.cells handle
      return frame.rest.isNone

/-- `iterator::operator*`. It is noexcept, and so without a value the program is terminated. -/
def deref (isReference : Bool) (i : Nat) (self : Generators β ν ξ) : Option (Option ν) := do
  let handle ← (self.iterators.handle? i).join
  let frame ← self.frames.cells handle
  return frame.value.get isReference

/-- `handle_.destroy()`, if there is a handle -/
def destroyFrame (handle : Option Nat) (self : Generators β ν ξ) : Option (Generators β ν ξ) :=
  match handle with
  | none => some self
  | some handle => (coroutine.destroy handle self.frames).map fun frames => { self with frames := frames }

/-- `~generator` -/
def destroyGenerator (i : Nat) (self : Generators β ν ξ) : Option (Generators β ν ξ) := do
  let handle ← self.generators.handle? i
  let self ← self.destroyFrame coroutine handle
  return { self with generators := self.generators.destroy i }

/-- `~iterator` -/
def destroyIterator (i : Nat) (self : Generators β ν ξ) : Option (Generators β ν ξ) := do
  let handle ← self.iterators.handle? i
  let self ← self.destroyFrame coroutine handle
  return { self with iterators := self.iterators.destroy i }

end Generators

/-! ### Runs -/

/-- What a program does with generators and iterators; the objects are known by their order of
construction. -/
inductive GeneratorEvent (β : Type) where
  | call (start : β)
  | defaultGenerator
  | defaultIterator
  | moveGenerator (i : Nat)
  | moveIterator (i : Nat)
  | assignGenerator (i j : Nat)
  | assignIterator (i j : Nat)
  | begin_ (i : Nat)
  | increment (i : Nat)
  | destroyGenerator (i : Nat)
  | destroyIterator (i : Nat)

/-- One step of a program. -/
def generatorStep (isReference : Bool) (body : β → Resumed β ν ξ) (event : GeneratorEvent β)
    (self : Generators β ν ξ) : Option (Generators β ν ξ) :=
  let coroutine := Coroutine.ofBody isReference body
  match event with
  | .call start => some (self.call start)
  | .defaultGenerator => some { self with generators := self.generators.construct none }
  | .defaultIterator => some { self with iterators := self.iterators.construct none }
  | .moveGenerator i =>
      (self.generators.handle? i).map fun _ => { self with generators := self.generators.moveConstruct i }
  | .moveIterator i =>
      (self.iterators.handle? i).map fun _ => { self with iterators := self.iterators.moveConstruct i }
  | .assignGenerator i j => do
      let _ ← self.generators.handle? i
      let _ ← self.generators.handle? j
      return { self with generators := self.generators.swap i j }
  | .assignIterator i j => do
      let _ ← self.iterators.handle? i
      let _ ← self.iterators.handle? j
      return { self with iterators := self.iterators.moveAssign i j }
  | .begin_ i => (self.begin_ coroutine i).map Prod.snd
  | .increment i => (self.increment coroutine i).map Prod.snd
  | .destroyGenerator i => self.destroyGenerator coroutine i
  | .destroyIterator i => self.destroyIterator coroutine i

/-! ### Ownership -/

namespace Generators

/-- How many objects hold the handle of a frame. -/
def owners (self : Generators β ν ξ) (frame : Nat) : Nat :=
  self.generators.holding (fun handle => handle == frame)
    + self.iterators.holding (fun handle => handle == frame)

/-- A frame that is not destroyed has one owner, and one that is destroyed has none. -/
def Owned (self : Generators β ν ξ) : Prop :=
  ∀ frame, self.owners frame = if (self.frames.cells frame).isSome then 1 else 0

end Generators

/-- No iterator that holds a handle is overwritten by another one. -/
def Spares (self : Generators β ν ξ) : GeneratorEvent β → Prop
  | .assignIterator i j => i = j ∨ self.iterators.handle? i = some none
  | _ => True

theorem tally_handle (handle frame : Nat) :
    Slots.tally (fun other => other == frame) (some handle) = if handle = frame then 1 else 0 := by
  simp [Slots.tally_some]

variable {isReference : Bool} {body : β → Resumed β ν ξ}

namespace Coroutine

variable {handle : Nat} {frames after : Heap (Frame β ν ξ)}

theorem destroy_live {frame : Frame β ν ξ} (found : frames.cells handle = some frame) :
    (ofBody isReference body).destroy handle frames = some (frames.put handle none) := by
  simp [ofBody, found]

theorem resume_ofBody (resumed : (ofBody isReference body).resume handle frames = some after) :
    ∃ frame frame', frames.cells handle = some frame ∧ after = frames.put handle (some frame') := by
  simp only [ofBody, Option.bind_eq_bind, Option.bind_eq_some_iff] at resumed
  obtain ⟨frame, found, point, -, same⟩ := resumed
  cases same
  exact ⟨frame, _, found, rfl⟩

theorem destroy_ofBody (destroyed : (ofBody isReference body).destroy handle frames = some after) :
    ∃ frame, frames.cells handle = some frame ∧ after = frames.put handle none := by
  simp only [ofBody, Option.bind_eq_bind, Option.bind_eq_some_iff] at destroyed
  obtain ⟨frame, found, same⟩ := destroyed
  cases same
  exact ⟨frame, found, rfl⟩

end Coroutine

namespace Generators

variable {self after : Generators β ν ξ}

/-- Whoever keeps the frames alive and the owners as many as they were keeps the ownership. -/
theorem Owned.of_same (owned : self.Owned)
    (alive : ∀ frame, (after.frames.cells frame).isSome = (self.frames.cells frame).isSome)
    (owners : ∀ frame, after.owners frame = self.owners frame) : after.Owned := by
  intro frame
  rw [owners, owned frame, alive]

theorem Owned.call (owned : self.Owned) (start : β) : (self.call start).Owned := by
  intro frame
  have before := owned frame
  simp only [Generators.call, owners, Slots.holding_construct, tally_handle, Heap.cells_create,
    Function.update_apply] at before ⊢
  by_cases new : self.frames.next = frame
  · rw [← new, Heap.cells_next] at before
    rw [if_pos new, if_pos new.symm]
    simp [← new] at before ⊢
    omega
  · rw [if_neg new, if_neg (Ne.symm new)]
    omega

/-- A resumption changes nothing but the frame. -/
theorem resumeAt_cases {handle : Nat} {thrown : Option ξ}
    (resumed : self.resumeAt (.ofBody isReference body) handle = some (thrown, after)) :
    ∃ frame frame', self.frames.cells handle = some frame
      ∧ after = { self with frames := self.frames.put handle (some frame') } := by
  simp only [resumeAt, Option.bind_eq_bind, Option.bind_eq_some_iff] at resumed
  obtain ⟨frames, resumed, last, -, same⟩ := resumed
  cases same
  obtain ⟨frame, frame', found, rfl⟩ := Coroutine.resume_ofBody resumed
  exact ⟨frame, frame', found, rfl⟩

theorem Owned.resumeAt (owned : self.Owned) {handle : Nat} {thrown : Option ξ}
    (resumed : self.resumeAt (.ofBody isReference body) handle = some (thrown, after)) : after.Owned := by
  obtain ⟨frame, frame', found, rfl⟩ := resumeAt_cases resumed
  refine owned.of_same (fun other => ?_) fun other => rfl
  rw [Heap.cells_put found, Function.update_apply]
  split_ifs with here
  · simp [here, found]
  · rfl

theorem Owned.begin_ (owned : self.Owned) {i : Nat} {result : Except ξ Nat}
    (begun : self.begin_ (.ofBody isReference body) i = some (result, after)) : after.Owned := by
  simp only [Generators.begin_, Option.bind_eq_bind, Option.bind_eq_some_iff] at begun
  obtain ⟨handle, held, ⟨thrown, middle⟩, resumed, same⟩ := begun
  have middleOwned := owned.resumeAt resumed
  obtain ⟨frame, frame', found, rfl⟩ := resumeAt_cases resumed
  cases thrown with
  | some exception =>
      cases same
      exact middleOwned
  | none =>
      cases same
      have live : self.generators.handle? i = some (some handle) := Option.join_eq_some_iff.mp held
      refine middleOwned.of_same (fun other => rfl) fun other => ?_
      have cleared := Slots.holding_set (fun h => h == other) live (some none)
      rw [Option.join_some, Slots.tally_none] at cleared
      simp only [owners, Slots.holding_construct, Slots.assign]
      omega

theorem Owned.increment (owned : self.Owned) {i : Nat} {result : Except ξ Unit}
    (incremented : self.increment (.ofBody isReference body) i = some (result, after)) : after.Owned := by
  simp only [Generators.increment, Option.bind_eq_bind, Option.bind_eq_some_iff] at incremented
  obtain ⟨handle, -, ⟨thrown, middle⟩, resumed, same⟩ := incremented
  have middleOwned := owned.resumeAt resumed
  cases thrown with
  | some exception =>
      cases same
      exact middleOwned
  | none =>
      cases same
      exact middleOwned

theorem destroyFrame_objects {coroutine : Coroutine β ν ξ} {handle : Option Nat}
    (destroyed : self.destroyFrame coroutine handle = some after) :
    after.generators = self.generators ∧ after.iterators = self.iterators := by
  cases handle with
  | none =>
      cases destroyed
      exact ⟨rfl, rfl⟩
  | some handle =>
      obtain ⟨frames, -, rfl⟩ := Option.map_eq_some_iff.mp destroyed
      exact ⟨rfl, rfl⟩

/-- What is left when an object with a handle and its frame are destroyed. -/
theorem Owned.destroy (owned : self.Owned) {handle : Option Nat} {middle : Generators β ν ξ}
    (destroyed : self.destroyFrame (.ofBody isReference body) handle = some middle)
    (frames : after.frames = middle.frames)
    (owners : ∀ frame, after.owners frame + Slots.tally (fun h => h == frame) handle = self.owners frame) :
    after.Owned := by
  intro frame
  have before := owned frame
  have counted := owners frame
  cases handle with
  | none =>
      cases destroyed
      rw [frames, ← before]
      simpa using counted
  | some handle =>
      obtain ⟨left, gone, rfl⟩ := Option.map_eq_some_iff.mp destroyed
      obtain ⟨old, found, rfl⟩ := Coroutine.destroy_ofBody gone
      rw [tally_handle] at counted
      rw [frames, Heap.cells_put found, Function.update_apply]
      by_cases here : frame = handle
      · subst here
        rw [found, Option.isSome_some, if_pos rfl] at before
        rw [if_pos rfl, before] at counted
        rw [if_pos rfl]
        exact Nat.add_right_cancel counted
      · rw [if_neg (Ne.symm here)] at counted
        rw [if_neg here]
        omega

theorem Owned.destroyGenerator (owned : self.Owned) {i : Nat}
    (destroyed : self.destroyGenerator (.ofBody isReference body) i = some after) : after.Owned := by
  simp only [Generators.destroyGenerator, Option.bind_eq_bind, Option.bind_eq_some_iff] at destroyed
  obtain ⟨handle, live, middle, gone, same⟩ := destroyed
  cases same
  obtain ⟨generators, iterators⟩ := destroyFrame_objects gone
  refine owned.destroy gone rfl fun frame => ?_
  have cleared := Slots.holding_set (fun h => h == frame) live none
  simp only [owners, generators, iterators, Slots.destroy]
  simp only [Option.join_none, Slots.tally_none] at cleared
  omega

theorem Owned.destroyIterator (owned : self.Owned) {i : Nat}
    (destroyed : self.destroyIterator (.ofBody isReference body) i = some after) : after.Owned := by
  simp only [Generators.destroyIterator, Option.bind_eq_bind, Option.bind_eq_some_iff] at destroyed
  obtain ⟨handle, live, middle, gone, same⟩ := destroyed
  cases same
  obtain ⟨generators, iterators⟩ := destroyFrame_objects gone
  refine owned.destroy gone rfl fun frame => ?_
  have cleared := Slots.holding_set (fun h => h == frame) live none
  simp only [owners, generators, iterators, Slots.destroy]
  simp only [Option.join_none, Slots.tally_none] at cleared
  omega

/-- An iterator that is overwritten leaves its frame without an owner. -/
theorem not_owned_moveAssign (owned : self.Owned) {i j handle : Nat} {held : Option Nat} (different : i ≠ j)
    (target : self.iterators.handle? i = some (some handle)) (source : self.iterators.handle? j = some held) :
    ¬ ({ self with iterators := self.iterators.moveAssign i j } : Generators β ν ξ).Owned := by
  intro owned'
  have before := owned handle
  have after := owned' handle
  have counted := Slots.holding_moveAssign (fun h => h == handle) different target source
  rw [tally_handle, if_pos rfl] at counted
  simp only [owners] at before after
  omega

end Generators

open Generators in
/-- Each step keeps the ownership unless it overwrites an iterator. -/
theorem owned_step {self after : Generators β ν ξ} {event : GeneratorEvent β} (owned : self.Owned)
    (spares : Spares self event) (taken : generatorStep isReference body event self = some after) :
    after.Owned := by
  cases event with
  | call start =>
      cases taken
      exact owned.call start
  | defaultGenerator =>
      cases taken
      exact owned.of_same (fun frame => rfl) fun frame => by simp [owners]
  | defaultIterator =>
      cases taken
      exact owned.of_same (fun frame => rfl) fun frame => by simp [owners]
  | moveGenerator i =>
      obtain ⟨held, live, rfl⟩ := Option.map_eq_some_iff.mp taken
      exact owned.of_same (fun frame => rfl) fun frame => by
        simp only [owners, Slots.holding_moveConstruct _ live]
  | moveIterator i =>
      obtain ⟨held, live, rfl⟩ := Option.map_eq_some_iff.mp taken
      exact owned.of_same (fun frame => rfl) fun frame => by
        simp only [owners, Slots.holding_moveConstruct _ live]
  | assignGenerator i j =>
      simp only [generatorStep, Option.bind_eq_bind, Option.bind_eq_some_iff] at taken
      obtain ⟨held, live, held', live', same⟩ := taken
      cases same
      exact owned.of_same (fun frame => rfl) fun frame => by simp only [owners, Slots.holding_swap _ live live']
  | assignIterator i j =>
      simp only [generatorStep, Option.bind_eq_bind, Option.bind_eq_some_iff] at taken
      obtain ⟨held, live, held', live', same⟩ := taken
      cases same
      refine owned.of_same (fun frame => rfl) fun frame => ?_
      by_cases same : i = j
      · subst same
        simp only [owners, Slots.holding_moveAssign_self _ live]
      · have empty := spares.resolve_left same
        have counted := Slots.holding_moveAssign (fun h => h == frame) same empty live'
        rw [Slots.tally_none, Nat.add_zero] at counted
        simp only [owners, counted]
  | begin_ i =>
      obtain ⟨⟨result, after⟩, begun, rfl⟩ := Option.map_eq_some_iff.mp taken
      exact owned.begin_ begun
  | increment i =>
      obtain ⟨⟨result, after⟩, incremented, rfl⟩ := Option.map_eq_some_iff.mp taken
      exact owned.increment incremented
  | destroyGenerator i => exact owned.destroyGenerator taken
  | destroyIterator i => exact owned.destroyIterator taken

open Generators in
theorem not_owned_step {self after : Generators β ν ξ} {event : GeneratorEvent β} (owned : self.Owned)
    (overwrites : ¬ Spares self event) (taken : generatorStep isReference body event self = some after) :
    ¬ after.Owned := by
  cases event with
  | assignIterator i j =>
      simp only [generatorStep, Option.bind_eq_bind, Option.bind_eq_some_iff] at taken
      obtain ⟨held, live, held', live', same⟩ := taken
      cases same
      obtain ⟨different, holds⟩ := not_or.mp overwrites
      cases held with
      | none => exact absurd live holds
      | some handle => exact not_owned_moveAssign owned different live live'
  | _ => exact absurd trivial overwrites

/-- A program without generators. -/
def start : Generators β ν ξ := { frames := Heap.empty }

/-- In every state of a run each frame has exactly one owner and every handle is that of a frame that is
alive, exactly if no step of the run overwrites an iterator that holds a handle. -/
theorem owned_iff (isReference : Bool) (body : β → Resumed β ν ξ) (events : List (GeneratorEvent β)) :
    EveryState (generatorStep isReference body) Generators.Owned events start
      ↔ EveryStep (generatorStep isReference body) Spares events start := by
  have owned : (start : Generators β ν ξ).Owned := by
    intro frame
    simp [start, Generators.owners, Slots.holding, Heap.empty]
  exact everyState_iff (fun _ owned => owned) (fun _ _ _ => owned_step) (fun _ _ _ => not_owned_step) owned
    events

end Nihil.Generator

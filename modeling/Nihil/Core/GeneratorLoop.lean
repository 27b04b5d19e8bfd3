/-
Module: Nihil.Core.GeneratorLoop
Layer: Core
Purpose: A range-based for loop over a generator. It visits the values that the body yields, in their order,
  as a loop over a list does, and ends when the body returns, when the loop is left, or with the exception
  of the body behind the values before it; the frame and the objects of the loop are gone in every case. An
  rvalue that a generator of references yields is the exception: it ends the program when it is to be visited.
Imports: Nihil.Core.Generator
Trusted boundary: as for Nihil.Core.Generator. The coroutine and the body of the loop do not act on each
  other.
Main exports: Ending, Produces, LoopEnd, forList, rangeFor, Runs, Restored, rangeFor_of_runs,
  rangeFor_eq_forList
-/
import Nihil.Core.Generator

namespace Nihil.Generator

open Nihil.Library

variable {β ν ξ σ : Type}

/-! ### What a body yields -/

/-- How a list of yielded values goes on. -/
inductive Ending (ξ : Type) where
  | returns
  | throws (exception : ξ)
  /-- Nothing is said. -/
  | more

/-- From a point the body yields the values, and then goes on as said. -/
inductive Produces (body : β → Resumed β ν ξ) : β → List (Yielded ν) → Ending ξ → Prop where
  | more (point : β) : Produces body point [] .more
  | returns {point : β} (resumed : body point = .returns) : Produces body point [] .returns
  | throws {point : β} {exception : ξ} (resumed : body point = .throws exception) :
      Produces body point [] (.throws exception)
  | yields {point rest : β} {value : Yielded ν} {values : List (Yielded ν)} {ending : Ending ξ}
      (resumed : body point = .yields value rest) (goes : Produces body rest values ending) :
      Produces body point (value :: values) ending

/-- What a loop gets to see of what was yielded: nothing of an rvalue if the generator is one of references. -/
def Yielded.seen (isReference : Bool) : Yielded ν → Option ν
  | .rvalue value => if isReference then none else some value
  | .lvalue value => some value

theorem get_yieldValue (isReference : Bool) (yielded : Yielded ν) :
    (yieldValue isReference yielded).get isReference = yielded.seen isReference := by
  cases yielded with
  | rvalue value => rfl
  | lvalue value => cases isReference <;> rfl

/-- How a loop ends. -/
inductive LoopEnd (ξ : Type) where
  | finished
  | broke
  | thrown (exception : ξ)
  /-- `std::terminate` -/
  | terminated
deriving DecidableEq

/-- A loop over a list. The loop's body says whether it leaves the loop. -/
def forList (isReference : Bool) (visit : ν → σ → Bool × σ) :
    List (Yielded ν) → Ending ξ → σ → Option (LoopEnd ξ × σ)
  | [], .returns, world => some (.finished, world)
  | [], .throws exception, world => some (.thrown exception, world)
  | [], .more, _ => none
  | yielded :: values, ending, world =>
      match yielded.seen isReference with
      | none => some (.terminated, world)
      | some value =>
          match visit value world with
          | (true, world) => some (.broke, world)
          | (false, world) => forList isReference visit values ending world

/-- A loop over lvalues, behind which the body returns, comes to an end. -/
theorem forList_lvalues (ξ : Type) (isReference : Bool) (visit : ν → σ → Bool × σ) (values : List ν)
    (world : σ) :
    ∃ ended world', forList isReference visit (values.map .lvalue) (.returns : Ending ξ) world =
        some (ended, world')
      ∧ ended ≠ .terminated := by
  induction values generalizing world with
  | nil => exact ⟨.finished, world, rfl, nofun⟩
  | cons value values ih =>
      rw [List.map_cons, forList, Yielded.seen]
      simp only
      cases visit value world with
      | mk leaves world =>
          cases leaves with
          | true => exact ⟨.broke, world, rfl, nofun⟩
          | false => exact ih world

/-! ### The loop -/

variable (coroutine : Coroutine β ν ξ) (isReference : Bool) (visit : ν → σ → Bool × σ)

/-- `for (; it != end; ++it) visit(*it);`, for so many turns at most. Without an end the turns are up. -/
def turns : Nat → Nat → σ → Generators β ν ξ → Option (Option (LoopEnd ξ) × σ × Generators β ν ξ)
  | 0, _, world, self => some (none, world, self)
  | fuel + 1, it, world, self => do
      if ← self.atEnd it then return (some .finished, world, self)
      else
        match ← self.deref isReference it with
        | none => return (some .terminated, world, self)
        | some value =>
            match visit value world with
            | (true, world) => return (some .broke, world, self)
            | (false, world) =>
                let (result, self) ← self.increment coroutine it
                match result with
                | .error exception => return (some (.thrown exception), world, self)
                | .ok () => turns fuel it world self

/-- `for (auto &&value : gen()) visit(value);` The iterator is destroyed before the generator, unless the
program was terminated. -/
def rangeFor (fuel : Nat) (start : β) (world : σ) (self : Generators β ν ξ) :
    Option (Option (LoopEnd ξ) × σ × Generators β ν ξ) := do
  let range := self.generators.length
  let (result, self) ← (self.call start).begin_ coroutine range
  match result with
  | .error exception =>
      let self ← self.destroyGenerator coroutine range
      return (some (.thrown exception), world, self)
  | .ok it =>
      let (ended, world, self) ← turns coroutine isReference visit fuel it world self
      match ended with
      | some .terminated => return (ended, world, self)
      | _ =>
          let self ← self.destroyIterator coroutine it
          let self ← self.destroyGenerator coroutine range
          return (ended, world, self)

/-! ### A coroutine that runs -/

variable {coroutine isReference visit}

/-- The coroutine can be destroyed, and then the frames of the base are left. -/
def Disposable (coroutine : Coroutine β ν ξ) (handle : Nat) (base : Nat → Option (Frame β ν ξ))
    (frames : Heap (Frame β ν ξ)) : Prop :=
  ∃ gone, coroutine.destroy handle frames = some gone ∧ gone.cells = base

/-- The coroutine can be resumed, and can be destroyed behind that. -/
structure Resumes (coroutine : Coroutine β ν ξ) (handle : Nat) (base : Nat → Option (Frame β ν ξ))
    (frames after : Heap (Frame β ν ξ)) (frame : Frame β ν ξ) : Prop where
  resumed : coroutine.resume handle frames = some after
  found : after.cells handle = some frame
  leaves : Disposable coroutine handle base after

/-- From here the coroutine yields the values, and then goes on as said. Wherever it is suspended behind that
it can be destroyed, and then the frames of the base are left. -/
inductive Runs (coroutine : Coroutine β ν ξ) (isReference : Bool) (handle : Nat)
    (base : Nat → Option (Frame β ν ξ)) : List (Yielded ν) → Ending ξ → Heap (Frame β ν ξ) → Prop where
  | more (frames : Heap (Frame β ν ξ)) : Runs coroutine isReference handle base [] .more frames
  | returns {frames after : Heap (Frame β ν ξ)} {frame : Frame β ν ξ}
      (resumes : Resumes coroutine handle base frames after frame) (ended : frame.rest = none)
      (clean : frame.exception = none) : Runs coroutine isReference handle base [] .returns frames
  | throws {frames after : Heap (Frame β ν ξ)} {frame : Frame β ν ξ} {exception : ξ}
      (resumes : Resumes coroutine handle base frames after frame) (ended : frame.rest = none)
      (caught : frame.exception = some exception) :
      Runs coroutine isReference handle base [] (.throws exception) frames
  | yields {frames after : Heap (Frame β ν ξ)} {frame : Frame β ν ξ} {point : β} {value : Yielded ν}
      {values : List (Yielded ν)} {ending : Ending ξ}
      (resumes : Resumes coroutine handle base frames after frame) (suspended : frame.rest = some point)
      (held : frame.value = yieldValue isReference value)
      (goes : Runs coroutine isReference handle base values ending after) :
      Runs coroutine isReference handle base (value :: values) ending frames

theorem resumes_ofBody (isReference : Bool) (body : β → Resumed β ν ξ) {handle : Nat} {point : β}
    {frames : Heap (Frame β ν ξ)} {frame : Frame β ν ξ} (found : frames.cells handle = some frame)
    (here : frame.rest = some point) :
    Resumes (.ofBody isReference body) handle (Function.update frames.cells handle none) frames
      (frames.put handle (some (frame.suspend isReference (body point))))
      (frame.suspend isReference (body point)) := by
  let frame' := frame.suspend isReference (body point)
  have found' : (frames.put handle (some frame')).cells handle = some frame' := by
    rw [Heap.cells_put found, Function.update_self]
  refine ⟨by simp [Coroutine.ofBody, found, here], found', _, Coroutine.destroy_live found', ?_⟩
  rw [Heap.cells_put found', Heap.cells_put found, Function.update_idem]

/-- A coroutine that uses no other runs as its body says. -/
theorem runs_of_produces (isReference : Bool) {body : β → Resumed β ν ξ} {point : β} {values : List (Yielded ν)}
    {ending : Ending ξ} (produces : Produces body point values ending) {handle : Nat}
    {frames : Heap (Frame β ν ξ)} {frame : Frame β ν ξ} (found : frames.cells handle = some frame)
    (here : frame.rest = some point) (clean : frame.exception = none) :
    Runs (.ofBody isReference body) isReference handle (Function.update frames.cells handle none) values ending
      frames := by
  induction produces generalizing frames frame with
  | more point => exact .more frames
  | returns resumed =>
      have resumes := resumes_ofBody isReference body found here
      rw [resumed] at resumes
      exact .returns resumes rfl clean
  | throws resumed =>
      have resumes := resumes_ofBody isReference body found here
      rw [resumed] at resumes
      exact .throws resumes rfl rfl
  | @yields point rest value values ending resumed goes ih =>
      have resumes := resumes_ofBody isReference body found here
      rw [resumed] at resumes
      have runs := ih resumes.found rfl clean
      rw [Heap.cells_put found, Function.update_idem] at runs
      exact .yields resumes rfl rfl runs

/-! ### The loop and the list -/

section Loop

variable {self : Generators β ν ξ} {it handle : Nat} {base : Nat → Option (Frame β ν ξ)}
variable {frames after : Heap (Frame β ν ξ)} {frame : Frame β ν ξ}

theorem resumeAt_of_resumes (self : Generators β ν ξ)
    (resumes : Resumes coroutine handle base frames after frame) :
    ({ self with frames := frames } : Generators β ν ξ).resumeAt coroutine handle =
      some (if frame.rest.isNone then frame.exception else none, { self with frames := after }) := by
  simp [Generators.resumeAt, resumes.resumed, resumes.found]

theorem increment_of_resumes (holds : self.iterators.handle? it = some (some handle))
    (resumes : Resumes coroutine handle base frames after frame) :
    ({ self with frames := frames } : Generators β ν ξ).increment coroutine it =
      some ((match if frame.rest.isNone then frame.exception else none with
        | some exception => .error exception
        | none => .ok ()), { self with frames := after }) := by
  simp only [Generators.increment, holds, Option.join_some, Option.bind_eq_bind, Option.bind_some,
    resumeAt_of_resumes self resumes]
  cases if frame.rest.isNone then frame.exception else none with
  | none => rfl
  | some exception => rfl

/-- `++it`, and the turns behind it. -/
def turnsBehind (coroutine : Coroutine β ν ξ) (isReference : Bool) (visit : ν → σ → Bool × σ) (fuel it : Nat)
    (world : σ) (self : Generators β ν ξ) : Option (Option (LoopEnd ξ) × σ × Generators β ν ξ) := do
  let (result, self) ← self.increment coroutine it
  match result with
  | .error exception => return (some (.thrown exception), world, self)
  | .ok () => turns coroutine isReference visit fuel it world self

/-- A turn at a value that was yielded ends the loop, or goes on with an increment. -/
theorem turns_yielded (coroutine : Coroutine β ν ξ) {point : β} {value : Yielded ν}
    (holds : self.iterators.handle? it = some (some handle)) (found : frames.cells handle = some frame)
    (suspended : frame.rest = some point) (held : frame.value = yieldValue isReference value) (fuel : Nat)
    {values : List (Yielded ν)} {ending : Ending ξ} {world world' : σ} {ended : LoopEnd ξ}
    (listed : forList isReference visit (value :: values) ending world = some (ended, world')) :
    let here : Generators β ν ξ := { self with frames := frames }
    turns coroutine isReference visit (fuel + 1) it world here = some (some ended, world', here)
      ∨ ∃ next, forList isReference visit values ending next = some (ended, world')
        ∧ turns coroutine isReference visit (fuel + 1) it world here =
          turnsBehind coroutine isReference visit fuel it next here := by
  intro here
  have goesOn : here.atEnd it = some false := by simp [here, Generators.atEnd, holds, found, suspended]
  have derefs : here.deref isReference it = some (value.seen isReference) := by
    simp [here, Generators.deref, holds, found, held, get_yieldValue]
  rw [forList] at listed
  cases seen : value.seen isReference with
  | none =>
      rw [seen] at listed
      cases listed
      left
      simp [turns, goesOn, derefs, seen]
  | some object =>
      rw [seen] at listed
      simp only at listed
      cases visited : visit object world with
      | mk leaves next =>
          rw [visited] at listed
          cases leaves with
          | true =>
              cases listed
              left
              simp [turns, goesOn, derefs, seen, visited]
          | false =>
              right
              refine ⟨next, listed, ?_⟩
              simp [turns, turnsBehind, goesOn, derefs, seen, visited]

/-- The turns behind an increment. -/
theorem turnsBehind_of_runs (self : Generators β ν ξ) (holds : self.iterators.handle? it = some (some handle))
    {values : List (Yielded ν)} {ending : Ending ξ}
    (runs : Runs coroutine isReference handle base values ending frames) {fuel : Nat} {world world' : σ}
    {ended : LoopEnd ξ} (enough : values.length < fuel)
    (listed : forList isReference visit values ending world = some (ended, world')) :
    ∃ frames', turnsBehind coroutine isReference visit fuel it world { self with frames := frames } =
        some (some ended, world', { self with frames := frames' })
      ∧ Disposable coroutine handle base frames' := by
  obtain ⟨fuel, rfl⟩ := Nat.exists_eq_succ_of_ne_zero (Nat.ne_of_gt (Nat.zero_lt_of_lt enough))
  induction runs generalizing fuel world with
  | more frames => cases listed
  | @returns frames after frame resumes ended' clean =>
      cases listed
      refine ⟨after, ?_, resumes.leaves⟩
      rw [turnsBehind, increment_of_resumes holds resumes]
      simp [ended', clean, turns, Generators.atEnd, holds, resumes.found]
  | @throws frames after frame exception resumes ended' caught =>
      cases listed
      refine ⟨after, ?_, resumes.leaves⟩
      rw [turnsBehind, increment_of_resumes holds resumes]
      simp [ended', caught]
  | @yields frames after frame point value values ending resumes suspended held goes ih =>
      have turned : turnsBehind coroutine isReference visit (fuel + 1) it world { self with frames := frames } =
          turns coroutine isReference visit (fuel + 1) it world { self with frames := after } := by
        rw [turnsBehind, increment_of_resumes holds resumes]
        simp [suspended]
      rw [Nat.succ_eq_add_one, turned]
      rcases turns_yielded coroutine holds resumes.found suspended held fuel listed with
        ends | ⟨next, listed', turn⟩
      · exact ⟨after, ends, resumes.leaves⟩
      · have enough' : values.length < fuel := Nat.lt_of_succ_lt_succ enough
        obtain ⟨fuel, rfl⟩ := Nat.exists_eq_succ_of_ne_zero (Nat.ne_of_gt (Nat.zero_lt_of_lt enough'))
        rw [turn]
        exact ih listed' fuel enough'

/-- The turns from one at which a value was yielded. -/
theorem turns_of_runs (self : Generators β ν ξ) (holds : self.iterators.handle? it = some (some handle))
    {values : List (Yielded ν)} {ending : Ending ξ}
    (runs : Runs coroutine isReference handle base values ending frames) {point : β} {value : Yielded ν}
    (found : frames.cells handle = some frame) (suspended : frame.rest = some point)
    (held : frame.value = yieldValue isReference value) (leaves : Disposable coroutine handle base frames)
    {fuel : Nat} {world world' : σ} {ended : LoopEnd ξ} (enough : values.length + 1 < fuel)
    (listed : forList isReference visit (value :: values) ending world = some (ended, world')) :
    ∃ frames', turns coroutine isReference visit fuel it world { self with frames := frames } =
        some (some ended, world', { self with frames := frames' })
      ∧ Disposable coroutine handle base frames' := by
  obtain ⟨fuel, rfl⟩ := Nat.exists_eq_succ_of_ne_zero (Nat.ne_of_gt (Nat.zero_lt_of_lt enough))
  rcases turns_yielded coroutine holds found suspended held fuel listed with ends | ⟨next, listed', turn⟩
  · exact ⟨frames, ends, leaves⟩
  · rw [Nat.succ_eq_add_one, turn]
    exact turnsBehind_of_runs self holds runs (Nat.lt_of_succ_lt_succ enough) listed'

end Loop

/-- The frames and objects are those of before. -/
structure Restored (before after : Generators β ν ξ) : Prop where
  frames : after.frames.cells = before.frames.cells
  generators : ∀ i, after.generators.handle? i = before.generators.handle? i
  iterators : ∀ i, after.iterators.handle? i = before.iterators.handle? i

section Range

variable {self : Generators β ν ξ} {after : Heap (Frame β ν ξ)} {frame : Frame β ν ξ} {start : β}

/-- The generators behind `begin`, with these frames. -/
def begun (self : Generators β ν ξ) (frames : Heap (Frame β ν ξ)) : Generators β ν ξ where
  frames := frames
  generators := (self.generators.construct (some self.frames.next)).assign self.generators.length none
  iterators := self.iterators.construct (some self.frames.next)

theorem handle?_call (self : Generators β ν ξ) (start : β) :
    (self.call start).generators.handle? self.generators.length = some (some self.frames.next) := by
  simp [Generators.call, Slots.handle?_construct]

theorem handle?_begun (self : Generators β ν ξ) (frames : Heap (Frame β ν ξ)) :
    (begun self frames).iterators.handle? self.iterators.length = some (some self.frames.next) := by
  rw [begun, Slots.handle?_construct, if_pos rfl]

theorem handle?_begun_generators (self : Generators β ν ξ) (frames : Heap (Frame β ν ξ)) :
    (begun self frames).generators.handle? self.generators.length = some none := by
  have range : (self.generators.construct (some self.frames.next)).handle? self.generators.length =
      some (some self.frames.next) := by rw [Slots.handle?_construct, if_pos rfl]
  rw [begun, Slots.handle?_assign range, if_pos rfl]

/-- The objects of the loop destroyed: the iterator that holds the frame, and the generator that holds none. -/
theorem restored_begun (self : Generators β ν ξ) {frames : Heap (Frame β ν ξ)}
    (cells : frames.cells = self.frames.cells) :
    Restored self
      { frames := frames
        generators := (begun self frames).generators.destroy self.generators.length
        iterators := (begun self frames).iterators.destroy self.iterators.length } where
  frames := cells
  generators := fun i => by
    have range : (self.generators.construct (some self.frames.next)).handle? self.generators.length =
        some (some self.frames.next) := by rw [Slots.handle?_construct, if_pos rfl]
    rw [Slots.handle?_destroy (handle?_begun_generators self frames)]
    split_ifs with here
    · rw [here, Slots.handle?_length]
    · rw [begun, Slots.handle?_assign range, if_neg here, Slots.handle?_construct, if_neg here]
  iterators := fun i => by
    rw [Slots.handle?_destroy (handle?_begun self frames)]
    split_ifs with here
    · rw [here, Slots.handle?_length]
    · rw [begun, Slots.handle?_construct, if_neg here]

theorem begin_of_resumes
    (resumes : Resumes coroutine self.frames.next self.frames.cells (self.call start).frames after frame) :
    (self.call start).begin_ coroutine self.generators.length =
      some (match if frame.rest.isNone then frame.exception else none with
        | some exception => (.error exception, { self.call start with frames := after })
        | none => (.ok self.iterators.length, begun self after)) := by
  have resumed := resumeAt_of_resumes (self.call start) resumes
  simp only [Generators.begin_, handle?_call, Option.join_some, Option.bind_eq_bind, Option.bind_some, resumed]
  cases if frame.rest.isNone then frame.exception else none with
  | none => rfl
  | some exception => rfl

/-- The end of a loop that was begun. -/
theorem rangeFor_of_turns {frames : Heap (Frame β ν ξ)} {fuel : Nat} {world world' : σ} {ended : LoopEnd ξ}
    (began : (self.call start).begin_ coroutine self.generators.length =
      some (.ok self.iterators.length, begun self frames))
    (ran : turns coroutine isReference visit fuel self.iterators.length world (begun self frames) =
      some (some ended, world', begun self after))
    (leaves : Disposable coroutine self.frames.next self.frames.cells after) :
    ∃ last, rangeFor coroutine isReference visit fuel start world self = some (some ended, world', last)
      ∧ (ended ≠ .terminated → Restored self last) := by
  obtain ⟨gone, destroyed, cells⟩ := leaves
  let last : Generators β ν ξ :=
    { frames := gone
      generators := (begun self gone).generators.destroy self.generators.length
      iterators := (begun self gone).iterators.destroy self.iterators.length }
  have dropped : (begun self after).destroyIterator coroutine self.iterators.length =
      some { begun self gone with iterators := last.iterators } := by
    have frames : (begun self after).frames = after := rfl
    simp only [Generators.destroyIterator, Generators.destroyFrame, handle?_begun, frames, destroyed,
      Option.map_some, Option.bind_eq_bind, Option.bind_some]
    rfl
  have dropped' : ({ begun self gone with iterators := last.iterators } : Generators β ν ξ).destroyGenerator
      coroutine self.generators.length = some last := by
    simp only [Generators.destroyGenerator, Generators.destroyFrame, handle?_begun_generators,
      Option.bind_eq_bind, Option.bind_some]
    rfl
  cases ended with
  | terminated =>
      refine ⟨begun self after, ?_, fun goes => absurd rfl goes⟩
      simp only [rangeFor, began, ran, Option.bind_eq_bind, Option.bind_some]
      rfl
  | _ =>
      refine ⟨last, ?_, fun _ => restored_begun self cells⟩
      simp only [rangeFor, began, ran, dropped, dropped', Option.bind_eq_bind, Option.bind_some]
      rfl

/-- A loop over a coroutine that throws before it yields anything. -/
theorem rangeFor_of_throws {exception : ξ} (fuel : Nat) (world : σ)
    (resumes : Resumes coroutine self.frames.next self.frames.cells (self.call start).frames after frame)
    (ended : frame.rest = none) (caught : frame.exception = some exception) :
    ∃ last, rangeFor coroutine isReference visit fuel start world self =
        some (some (.thrown exception), world, last)
      ∧ Restored self last := by
  obtain ⟨gone, destroyed, cells⟩ := resumes.leaves
  let last : Generators β ν ξ :=
    { self with
      frames := gone
      generators := (self.call start).generators.destroy self.generators.length }
  have began := begin_of_resumes resumes
  simp only [ended, caught, Option.isNone_none, if_true] at began
  have dropped : ({ self.call start with frames := after } : Generators β ν ξ).destroyGenerator coroutine
      self.generators.length = some last := by
    simp only [Generators.destroyGenerator, handle?_call, Generators.destroyFrame, destroyed, Option.map_some,
      Option.bind_eq_bind, Option.bind_some]
    rfl
  refine ⟨last, ?_, cells, fun i => ?_, fun i => rfl⟩
  · simp only [rangeFor, began, dropped, Option.bind_eq_bind, Option.bind_some]
    rfl
  · have destroyed := Slots.handle?_destroy (handle?_call self start) i
    refine destroyed.trans ?_
    rw [Generators.call, Slots.handle?_construct]
    split_ifs with here
    · rw [here, Slots.handle?_length]
    · rfl

/-- A range-based loop over a coroutine is the loop over the list of what it yields. -/
theorem rangeFor_of_runs {values : List (Yielded ν)} {ending : Ending ξ}
    (runs : Runs coroutine isReference self.frames.next self.frames.cells values ending
      (self.call start).frames)
    {fuel : Nat} {world world' : σ} {ended : LoopEnd ξ} (enough : values.length < fuel)
    (listed : forList isReference visit values ending world = some (ended, world')) :
    ∃ last, rangeFor coroutine isReference visit fuel start world self = some (some ended, world', last)
      ∧ (ended ≠ .terminated → Restored self last) := by
  cases runs with
  | more => cases listed
  | @returns _ after frame resumes ended' clean =>
      cases listed
      obtain ⟨fuel, rfl⟩ := Nat.exists_eq_succ_of_ne_zero (Nat.ne_of_gt enough)
      have began := begin_of_resumes resumes
      have found : (begun self after).frames.cells self.frames.next = some frame := resumes.found
      simp only [ended', clean, Option.isNone_none, if_true] at began
      refine rangeFor_of_turns began ?_ resumes.leaves
      simp [turns, Generators.atEnd, handle?_begun, found, ended']
  | @throws _ after frame exception resumes ended' caught =>
      cases listed
      obtain ⟨last, ran, restored⟩ := rangeFor_of_throws fuel world resumes ended' caught
      exact ⟨last, ran, fun _ => restored⟩
  | @yields _ after frame point value values _ resumes suspended held goes =>
      have began := begin_of_resumes resumes
      simp only [suspended, Option.isNone_some, Bool.false_eq_true, if_false] at began
      obtain ⟨frames, ran, leaves⟩ :=
        turns_of_runs (begun self after) (handle?_begun self after) goes resumes.found suspended held
          resumes.leaves enough listed
      exact rangeFor_of_turns began ran leaves

end Range

/-- A range-based loop over a generator is the loop over the list of what its body yields, whether the body
goes on behind that, returns or throws; and no frame and no object of the loop is left, unless the program is
terminated. -/
theorem rangeFor_eq_forList (isReference : Bool) {body : β → Resumed β ν ξ} {start : β}
    {values : List (Yielded ν)} {ending : Ending ξ} (produces : Produces body start values ending) {fuel : Nat}
    {world world' : σ} {ended : LoopEnd ξ} (enough : values.length < fuel)
    (listed : forList isReference visit values ending world = some (ended, world')) (self : Generators β ν ξ) :
    ∃ last, rangeFor (.ofBody isReference body) isReference visit fuel start world self =
        some (some ended, world', last)
      ∧ (ended ≠ .terminated → Restored self last) := by
  have found : (self.call start).frames.cells self.frames.next = some { rest := some start } := by
    simp [Generators.call, Heap.cells_create]
  have base : Function.update (self.call start).frames.cells self.frames.next none = self.frames.cells := by
    rw [Generators.call, Heap.cells_create, Function.update_idem, ← Heap.cells_next self.frames,
      Function.update_eq_self]
  have runs := runs_of_produces isReference produces found rfl rfl
  rw [base] at runs
  exact rangeFor_of_runs runs enough listed

/-- A loop that is left at the value 1 of a generator that counts without an end. -/
theorem rangeFor_eq_forList_counting :
    ∃ last : Generators Nat Nat Empty,
      rangeFor (.ofBody false fun n => .yields (.rvalue n) (n + 1)) false
          (fun value sum => (value == 1, sum + value)) 3 0 0 { frames := Heap.empty } =
            some (some .broke, 1, last)
        ∧ last.frames.cells = fun _ => none := by
  let count : Nat → Resumed Nat Nat Empty := fun n => .yields (.rvalue n) (n + 1)
  have produces : Produces count 0 [.rvalue 0, .rvalue 1] .more := .yields rfl (.yields rfl (.more 2))
  obtain ⟨last, ran, restored⟩ :=
    rangeFor_eq_forList false produces (by decide : 2 < 3)
      (rfl : forList false (fun value sum => (value == 1, sum + value)) [.rvalue 0, .rvalue 1] .more 0 =
        some (.broke, 1)) { frames := Heap.empty }
  exact ⟨last, ran, (restored nofun).frames⟩

end Nihil.Generator

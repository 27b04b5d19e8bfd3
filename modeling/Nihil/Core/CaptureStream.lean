/-
Module: Nihil.Core.CaptureStream
Layer: Core
Purpose: capture_stream: for its lifetime the output of a stream goes to a buffer of its own. What is
  expected is that an output goes to the newest capture of its stream that has not ended, and to the
  stream's own buffer if there is none. This is what happens in exactly the runs in which a capture only
  ends as the newest one of its stream, and only a stream with a buffer is captured
  (`capture_routed_iff`).
Imports: Nihil.Core.Error, Nihil.Library.Run, Nihil.Library.Scoped
Trusted boundary: rdbuf exchanges the buffer of a stream, and an output is appended to the buffer. An output to
  a buffer that is gone is no step.
Main exports: CaptureState, CaptureAction, captureStep, ExpectedOutput, expectedOutput, Routed, EndsNewest,
  capture_routed_iff
-/
import Nihil.Core.Error
import Nihil.Library.Run
import Nihil.Library.Scoped

namespace Nihil

open Nihil.Library

universe u

variable {κ : Type u} [DecidableEq κ]

/-! ### The operations -/

/-- The streams by their names, with the buffers that they write to, and the capture_streams, each with its
`m_stream` and its `m_old_streambuf`, if that is not null. The buffer of capture `i` is that of its
`m_buffer`. -/
structure CaptureState (κ : Type u) where
  streams : Scoped κ
  /-- What was written to each buffer. -/
  text : Setting κ → Str

namespace CaptureState

/-- `capture_stream::capture_stream`. -/
def construct (state : CaptureState κ) (stream : κ) : CaptureState κ where
  streams := state.streams.enter stream
  text := Function.update state.text (.guard state.streams.guards.length) []

/-- `capture_stream::release` of capture `i`. -/
def release (state : CaptureState κ) (i : Nat) (old : Option (κ × Setting κ)) :
    Except LogicError (CaptureState κ) :=
  match old with
  | none => .error ⟨"release() called on empty capture_stream".toList⟩
  | some both => .ok { state with streams := state.streams.leave i (some both) (some none) }

/-- `capture_stream::~capture_stream` of capture `i`. -/
def destroy (state : CaptureState κ) (i : Nat) (old : Option (κ × Setting κ)) : CaptureState κ :=
  { state with streams := state.streams.leave i old none }

/-- `capture_stream::str` of capture `i`. -/
def str (state : CaptureState κ) (i : Nat) : Str := state.text (.guard i)

/-- The buffer has not been destroyed. -/
def Alive (state : CaptureState κ) : Setting κ → Bool
  | .own _ => true
  | .guard i => (state.streams.guards.handle? i).isSome

/-- An output to a stream; nothing is written without a buffer. -/
def write (state : CaptureState κ) (stream : κ) (output : Str) : Option (CaptureState κ) :=
  match state.streams.cells stream with
  | none => some state
  | some buffer =>
      if state.Alive buffer then
        some { state with text := Function.update state.text buffer (state.text buffer ++ output) }
      else none

end CaptureState

/-- What a program does with its streams and captures. -/
inductive CaptureAction (κ : Type u) where
  | construct (stream : κ)
  | release (i : Nat)
  | destroy (i : Nat)
  | write (stream : κ) (output : Str)
deriving DecidableEq, Repr

/-- One action. It is not allowed for a capture that does not live. -/
def captureStep (action : CaptureAction κ) (state : CaptureState κ) : Option (CaptureState κ) :=
  match action with
  | .construct stream => some (state.construct stream)
  | .release i =>
      (state.streams.guards.handle? i).map fun old =>
        match state.release i old with
        | .ok after => after
        | .error _ => state
  | .destroy i => (state.streams.guards.handle? i).map fun old => state.destroy i old
  | .write stream output => state.write stream output

/-! ### What it is for -/

/-- What should have been written where, by the captures that have not ended, newest first. -/
structure ExpectedOutput (κ : Type u) where
  captures : List (Nat × κ) := []
  constructed : Nat := 0
  text : Setting κ → Str := fun _ => []

/-- The buffers of the streams that have one. -/
def ownBuffers (buffered : κ → Bool) (stream : κ) : Option (Setting κ) :=
  if buffered stream then some (.own stream) else none

omit [DecidableEq κ] in
theorem ownBuffers_ne_guard (buffered : κ → Bool) (stream : κ) (i : Nat) :
    ownBuffers buffered stream ≠ some (.guard i) := by
  unfold ownBuffers
  split_ifs <;> simp

/-- An output goes to the newest capture of its stream, and a capture is forgotten when it ends. -/
def expectedOutput (buffered : κ → Bool) (action : CaptureAction κ) (expected : ExpectedOutput κ) :
    ExpectedOutput κ :=
  match action with
  | .construct stream =>
      { captures := (expected.constructed, stream) :: expected.captures
        constructed := expected.constructed + 1
        text := Function.update expected.text (.guard expected.constructed) [] }
  | .release i | .destroy i => { expected with captures := without i expected.captures }
  | .write stream output =>
      match innermost (ownBuffers buffered) expected.captures stream with
      | none => expected
      | some buffer =>
          { expected with text := Function.update expected.text buffer (expected.text buffer ++ output) }

/-- Every stream writes where it should, exactly the captures that have not ended can be released, and every
buffer has the text that it should have. -/
structure Routed (buffered : κ → Bool) (state : CaptureState κ × ExpectedOutput κ) : Prop where
  streams : state.1.streams.Agrees (ownBuffers buffered) state.2.captures
  text : state.1.text = state.2.text

/-- A capture is constructed for a stream with a buffer, and ends while the stream writes to its own. -/
def EndsNewest (state : CaptureState κ) : CaptureAction κ → Prop
  | .construct stream => state.streams.cells stream ≠ none
  | .release i | .destroy i =>
      ∀ stream old, state.streams.guards.handle? i = some (some (stream, old)) →
        state.streams.cells stream = some (.guard i)
  | .write _ _ => True

/-- The state before anything is captured. -/
def CaptureState.start (buffered : κ → Bool) : CaptureState κ × ExpectedOutput κ :=
  ({ streams := { cells := ownBuffers buffered }, text := fun _ => [] }, {})

/-- The streams and captures are nested, and everything was written where it should. -/
structure CaptureInvariant (buffered : κ → Bool) (state : CaptureState κ × ExpectedOutput κ) : Prop where
  nested : state.1.streams.Nested (ownBuffers buffered) state.2.captures
  text : state.1.text = state.2.text
  constructed : state.1.streams.guards.length = state.2.constructed

variable {buffered : κ → Bool} {state : CaptureState κ × ExpectedOutput κ}

theorem CaptureInvariant.routed (invariant : CaptureInvariant buffered state) : Routed buffered state :=
  ⟨invariant.nested.agrees, invariant.text⟩

theorem captureInvariant_start (buffered : κ → Bool) :
    CaptureInvariant buffered (CaptureState.start buffered) where
  nested := by
    refine ⟨⟨fun _ => rfl, fun i => ?_⟩, trivial⟩
    constructor
    · rintro ⟨stream, member⟩
      cases member
    · rintro ⟨held, live⟩
      cases live
  text := rfl
  constructed := rfl

/-- A capture is released or destroyed. -/
theorem CaptureInvariant.leave (invariant : CaptureInvariant buffered state) {i : Nat}
    {old : Option (κ × Setting κ)} (live : state.1.streams.guards.handle? i = some old)
    (newest : ∀ stream before, state.1.streams.guards.handle? i = some (some (stream, before)) →
      state.1.streams.cells stream = some (.guard i))
    {slot : Option (Option (κ × Setting κ))} (empty : slot.join = none) :
    CaptureInvariant buffered ({ state.1 with streams := state.1.streams.leave i old slot },
      { state.2 with captures := without i state.2.captures }) where
  nested := by
    cases old with
    | none => exact invariant.nested.leaveEmpty live empty
    | some both =>
        exact invariant.nested.leave (ownBuffers_ne_guard buffered) live (newest both.1 both.2 live) empty
  text := invariant.text
  constructed := by
    change (state.1.streams.guards.set i slot).length = _
    rw [List.length_set, invariant.constructed]

/-- Every step that ends the newest capture of a stream keeps the invariant. -/
theorem CaptureInvariant.step (invariant : CaptureInvariant buffered state) {action : CaptureAction κ}
    {after : CaptureState κ × ExpectedOutput κ} (ends : EndsNewest state.1 action)
    (taken : lockstep captureStep (expectedOutput buffered) action state = some after) :
    CaptureInvariant buffered after := by
  obtain ⟨next, stepped, rfl⟩ := Option.map_eq_some_iff.mp taken
  cases action with
  | construct stream =>
      cases stepped
      constructor
      · rw [expectedOutput, ← invariant.constructed]
        exact invariant.nested.enter ends
      · rw [expectedOutput, ← invariant.constructed, ← invariant.text]
        rfl
      · rw [expectedOutput, ← invariant.constructed]
        exact List.length_append
  | release i =>
      obtain ⟨old, live, rfl⟩ := Option.map_eq_some_iff.mp stepped
      cases old with
      | none =>
          rw [expectedOutput, invariant.nested.without_eq live]
          exact invariant
      | some both => exact invariant.leave live ends rfl
  | destroy i =>
      obtain ⟨old, live, rfl⟩ := Option.map_eq_some_iff.mp stepped
      exact invariant.leave live ends rfl
  | write stream output =>
      rw [captureStep, CaptureState.write] at stepped
      rw [expectedOutput, ← invariant.nested.agrees.cells, ← invariant.text]
      cases found : state.1.streams.cells stream with
      | none =>
          simp only [found] at stepped
          cases stepped
          exact invariant
      | some buffer =>
          simp only [found] at stepped
          split_ifs at stepped
          cases stepped
          exact ⟨invariant.nested, rfl, invariant.constructed⟩

omit [DecidableEq κ] in
theorem covered_of_not_endsNewest {streams : Scoped κ} {i : Nat}
    (ends : ¬ ∀ stream old, streams.guards.handle? i = some (some (stream, old)) →
      streams.cells stream = some (.guard i)) :
    ∃ stream old, streams.guards.handle? i = some (some (stream, old)) ∧
      streams.cells stream ≠ some (.guard i) := by
  simpa using ends

/-- A stream without a buffer that is captured, and a capture that ends below a newer one, are seen at once. -/
theorem CaptureInvariant.misrouted (invariant : CaptureInvariant buffered state) {action : CaptureAction κ}
    {after : CaptureState κ × ExpectedOutput κ} (ends : ¬ EndsNewest state.1 action)
    (taken : lockstep captureStep (expectedOutput buffered) action state = some after) :
    ¬ Routed buffered after := by
  intro routed
  obtain ⟨next, stepped, rfl⟩ := Option.map_eq_some_iff.mp taken
  have agrees := routed.streams
  cases action with
  | construct stream =>
      cases stepped
      rw [expectedOutput, ← invariant.constructed] at agrees
      exact Scoped.not_agrees_enter (Classical.not_not.mp ends) agrees
  | release i =>
      obtain ⟨stream, before, live, covered⟩ := covered_of_not_endsNewest ends
      obtain ⟨old, live', rfl⟩ := Option.map_eq_some_iff.mp stepped
      rw [live] at live'
      cases live'
      exact invariant.nested.not_agrees_leave (ownBuffers_ne_guard buffered) live covered _ agrees
  | destroy i =>
      obtain ⟨stream, before, live, covered⟩ := covered_of_not_endsNewest ends
      obtain ⟨old, live', rfl⟩ := Option.map_eq_some_iff.mp stepped
      rw [live] at live'
      cases live'
      exact invariant.nested.not_agrees_leave (ownBuffers_ne_guard buffered) live covered _ agrees
  | write stream output => exact ends trivial

/-- All output is where it should be in every state of a run exactly if only streams with a buffer are captured,
and every capture ends as the newest one of its stream. -/
theorem capture_routed_iff (buffered : κ → Bool) (actions : List (CaptureAction κ)) :
    EveryState (lockstep captureStep (expectedOutput buffered)) (Routed buffered) actions
        (CaptureState.start buffered) ↔
      EveryStep (lockstep captureStep (expectedOutput buffered)) (fun state => EndsNewest state.1) actions
        (CaptureState.start buffered) :=
  everyState_iff (fun _ invariant => invariant.routed)
    (fun _ _ _ invariant ends taken => invariant.step ends taken)
    (fun _ _ _ invariant ends taken => invariant.misrouted ends taken)
    (captureInvariant_start buffered) actions

end Nihil

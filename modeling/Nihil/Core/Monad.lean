/-
Module: Nihil.Core.Monad
Layer: Core
Purpose: Coroutines over std::expected and std::optional. A coroutine runs in a frame whose promise points to
  the object that the ramp will convert to the coroutine's result; co_return and a co_await that fails put
  the result there and the frame is destroyed. An exception that leaves the body is thrown on to the caller by
  unhandled_exception, and then the frame stays, suspended at its end. Whatever the coroutine does, and
  however often the object is moved before the body starts, running it is monadic code in which a local object
  is destroyed at the end of its block, no access is to an object that is gone, and nothing is left behind but
  the frames of the coroutines that an exception left.
Imports: Nihil.Library.Heap
Trusted boundary: the compiler converts the return object when the coroutine is finished, not before; no
  destructor throws, and neither does moving a result into its place. A coroutine comes to an end on every
  path, and its parameters need no destructor.
Main exports: Body, Body.denote, Machine, ReturnObjectHolder, Machine.getReturnObject, Machine.awaitSuspend,
  Machine.unhandledException, Machine.ramp, Body.run, Body.meaning, Body.call, Left, call_eq_meaning
-/
import Nihil.Library.Heap

namespace Nihil.Coroutine

open Nihil.Library

variable {ξ ε ν σ β γ : Type}

/-- What the call of a function gives: a std::expected, or an exception. -/
abbrev Called (ξ ε ν : Type) := Except ξ (Except ε ν)

/-- What the code in a block does, up to the end of the block with one of the values `β`; the body of a
coroutine has no end but those of the coroutine. `ξ` are the exceptions, `ε` the errors (for std::optional
there is one, std::nullopt), `ν` the values and `σ` the state of the world that the code works on. -/
inductive Body (ξ ε ν σ : Type) : Type → Type 1 where
  | coReturn {β : Type} (result : Except ε ν) : Body ξ ε ν σ β
  /-- The end of the block. -/
  | endBlock {β : Type} (value : β) : Body ξ ε ν σ β
  | throws {β : Type} (exception : ξ) : Body ξ ε ν σ β
  /-- `co_await` of what a function returns that is no coroutine. -/
  | coAwait {β : Type} (function : σ → Called ξ ε ν × σ) (resume : ν → Body ξ ε ν σ β) : Body ξ ε ν σ β
  /-- `co_await` of a call of another coroutine, whose return object is moved some times. -/
  | coAwaitCall {β : Type} (moves : Nat) (callee : Body ξ ε ν σ Empty) (resume : ν → Body ξ ε ν σ β) :
      Body ξ ε ν σ β
  /-- A local object is constructed, which lives to the end of the block. -/
  | declare {β : Type} (destructor : σ → σ) (rest : Body ξ ε ν σ β) : Body ξ ε ν σ β
  /-- A block with its handlers, and the code behind it. A block without handlers throws on what is thrown. -/
  | tryBlock {γ β : Type} (block : Body ξ ε ν σ γ) (handler : ξ → Body ξ ε ν σ γ)
      (rest : γ → Body ξ ε ν σ β) : Body ξ ε ν σ β

/-- How code is left before its end. -/
inductive Leave (ξ ε ν : Type) where
  | returned (result : Except ε ν)
  | threw (exception : ξ)

/-- Code that works on the world and counts the coroutines that an exception left. -/
abbrev Code (ξ ε ν σ β : Type) := ExceptT (Leave ξ ε ν) (StateM (σ × Nat)) β

/-- A function that works on the world. -/
def onWorld (function : σ → β × σ) : Code ξ ε ν σ β :=
  ExceptT.lift fun state => ((function state.1).1, (function state.1).2, state.2)

/-- A coroutine goes on with a value, and is left by an error or an exception. -/
def settle : Called ξ ε ν → Code ξ ε ν σ ν
  | .ok (.ok value) => pure value
  | .ok (.error error) => throw (.returned (.error error))
  | .error exception => throw (.threw exception)

/-- The call of a coroutine. -/
def calling (body : Code ξ ε ν σ Empty) : StateM (σ × Nat) (Called ξ ε ν) := do
  match ← body.run with
  | .error (.returned result) => return .ok result
  | .error (.threw exception) =>
      modify fun state => (state.1, state.2 + 1)
      return .error exception

/-- Code with a destructor behind it, however the code is left. -/
def followedBy (destructor : σ → σ) (code : Code ξ ε ν σ β) : Code ξ ε ν σ β :=
  ExceptT.mk do
    let result ← code.run
    modify fun state => (destructor state.1, state.2)
    return result

/-- Code in front of the handlers for its exceptions. -/
def catching (code : Code ξ ε ν σ β) (handler : ξ → Code ξ ε ν σ β) : Code ξ ε ν σ β :=
  ExceptT.mk do
    match ← code.run with
    | .error (.threw exception) => (handler exception).run
    | result => return result

/-- What a coroutine means: `co_await` is the bind of the errors, and a local object is destroyed when the
rest of its block is over. -/
def Body.denote : {β : Type} → Body ξ ε ν σ β → Code ξ ε ν σ β
  | _, .coReturn result => throw (.returned result)
  | _, .endBlock value => pure value
  | _, .throws exception => throw (.threw exception)
  | _, .coAwait function resume => do
      let called ← onWorld function
      let value ← settle called
      (resume value).denote
  | _, .coAwaitCall _ callee resume => do
      let called ← ExceptT.lift (calling callee.denote)
      let value ← settle called
      (resume value).denote
  | _, .declare destructor rest => followedBy destructor rest.denote
  | _, .tryBlock block handler rest => do
      let value ← catching block.denote fun exception => (handler exception).denote
      (rest value).denote

/-- How code is left or ended, with the world and the count behind it. -/
def Body.meaning (body : Body ξ ε ν σ β) (state : σ × Nat) : Except (Leave ξ ε ν) β × σ × Nat :=
  body.denote.run.run state

/-- What a call of the coroutine gives, with the world behind it and the number of the coroutines that an
exception left. -/
def Body.call (body : Body ξ ε ν σ Empty) (state : σ × Nat) : Called ξ ε ν × σ × Nat :=
  (calling body.denote).run state

/-! ### Memory -/

/-- A `return_object_holder`: the staging object, and the promise whose `data` it keeps pointing to itself. -/
structure ReturnObjectHolder (ε ν : Type) where
  stage : Option (Except ε ν)
  p : Nat

/-- A coroutine's frame: the promise's `data`, and the destructors of the local objects of each block, the
innermost block and the newest object first. -/
structure Frame (σ : Type) where
  data : Option Nat
  blocks : List (List (σ → σ))

/-- The frames and return objects that are alive, and the world. An access to a frame or an object that is
not alive is undefined: the functions below have no result for it. -/
structure Machine (ε ν σ : Type) where
  frames : Heap (Frame σ)
  holders : Heap (ReturnObjectHolder ε ν)
  world : σ

/-- Run destructors one after another. -/
def unwind (locals : List (σ → σ)) (world : σ) : σ :=
  locals.foldl (fun world destructor => destructor world) world

/-- How the code in a block has been left: the coroutine is finished, or it goes on behind the block. -/
inductive Exit (ξ β : Type) where
  | finished
  | ended (value : β)
  | threw (exception : ξ)

namespace Machine

/-- `p = this`: the promise of a frame points to the holder. -/
def point (frame holder : Nat) (m : Machine ε ν σ) : Option (Machine ε ν σ) := do
  let old ← m.frames.cells frame
  return { m with frames := m.frames.put frame (some { old with data := some holder }) }

/-- The holder's constructor. -/
def construct (p : Nat) (m : Machine ε ν σ) : Option (Nat × Machine ε ν σ) := do
  let this := m.holders.next
  let m ← Machine.point p this { m with holders := m.holders.create { stage := none, p := p } }
  return (this, m)

/-- The holder's move constructor, and the destructor of the holder that was moved from. -/
def moveConstruct (other : Nat) (m : Machine ε ν σ) : Option (Nat × Machine ε ν σ) := do
  let old ← m.holders.cells other
  let this := m.holders.next
  let m ← Machine.point old.p this { m with holders := m.holders.create old }
  return (this, { m with holders := m.holders.put other none })

/-- `get_return_object`, with the moves that returning the holder takes. -/
def getReturnObject (moves frame : Nat) (m : Machine ε ν σ) : Option (Nat × Machine ε ν σ) :=
  Nat.repeat (fun made => made.bind fun made => Machine.moveConstruct made.1 made.2) moves
    (Machine.construct frame m)

/-- `data->emplace(…)`: put the result into the holder that the promise points to. -/
def emplace (frame : Nat) (result : Except ε ν) (m : Machine ε ν σ) : Option (Machine ε ν σ) := do
  let f ← m.frames.cells frame
  let data ← f.data
  let holder ← m.holders.cells data
  return { m with holders := m.holders.put data (some { holder with stage := some result }) }

/-- Destroy a frame and the local objects in it, the newest first. -/
def destroy (frame : Nat) (m : Machine ε ν σ) : Option (Machine ε ν σ) := do
  let f ← m.frames.cells frame
  return { m with frames := m.frames.put frame none, world := unwind f.blocks.flatten m.world }

/-- `co_return`: `return_value`, and then the coroutine does not suspend at its end. -/
def returnValue (frame : Nat) (result : Except ε ν) (m : Machine ε ν σ) : Option (Machine ε ν σ) := do
  let m ← m.emplace frame result
  m.destroy frame

/-- `await_suspend`: the error becomes the result, and the coroutine is destroyed. -/
def awaitSuspend (frame : Nat) (error : ε) (m : Machine ε ν σ) : Option (Machine ε ν σ) := do
  let m ← m.emplace frame (.error error)
  m.destroy frame

/-- `co_await` of what a call has given: go on with the value (`await_ready`, `await_resume`) or suspend. -/
def await (frame : Nat) (called : Called ξ ε ν)
    (resume : ν → Machine ε ν σ → Option (Exit ξ β × Machine ε ν σ)) (m : Machine ε ν σ) :
    Option (Exit ξ β × Machine ε ν σ) :=
  match called with
  | .ok (.ok value) => resume value m
  | .ok (.error error) => (m.awaitSuspend frame error).map fun m => (.finished, m)
  | .error exception => some (.threw exception, m)

/-- Construct a local object in the innermost block. -/
def declare (frame : Nat) (destructor : σ → σ) (m : Machine ε ν σ) : Option (Machine ε ν σ) := do
  let f ← m.frames.cells frame
  match f.blocks with
  | [] => none
  | locals :: blocks =>
      let f := { f with blocks := (destructor :: locals) :: blocks }
      return { m with frames := m.frames.put frame (some f) }

def enterBlock (frame : Nat) (m : Machine ε ν σ) : Option (Machine ε ν σ) := do
  let f ← m.frames.cells frame
  return { m with frames := m.frames.put frame (some { f with blocks := [] :: f.blocks }) }

/-- Destroy the local objects of the innermost block. -/
def leaveBlock (frame : Nat) (m : Machine ε ν σ) : Option (Machine ε ν σ) := do
  let f ← m.frames.cells frame
  match f.blocks with
  | [] => none
  | locals :: blocks =>
      let f := { f with blocks := blocks }
      return { m with frames := m.frames.put frame (some f), world := unwind locals m.world }

/-- Behind the code in a block. -/
def endOfBlock (frame : Nat) (left : Exit ξ β × Machine ε ν σ) : Option (Exit ξ β × Machine ε ν σ) :=
  match left.1 with
  | .finished => some left
  | .ended value => (left.2.leaveBlock frame).map fun m => (.ended value, m)
  | .threw exception => (left.2.leaveBlock frame).map fun m => (.threw exception, m)

def runBlock (frame : Nat) (block : Machine ε ν σ → Option (Exit ξ β × Machine ε ν σ)) (m : Machine ε ν σ) :
    Option (Exit ξ β × Machine ε ν σ) := do
  let m ← m.enterBlock frame
  let left ← block m
  endOfBlock frame left

/-- The handlers of a block, behind it. -/
def handle (frame : Nat) (handler : ξ → Machine ε ν σ → Option (Exit ξ β × Machine ε ν σ))
    (left : Exit ξ β × Machine ε ν σ) : Option (Exit ξ β × Machine ε ν σ) :=
  match left.1 with
  | .threw exception => runBlock frame (handler exception) left.2
  | _ => some left

/-- The code behind a block. -/
def goOn (rest : β → Machine ε ν σ → Option (Exit ξ γ × Machine ε ν σ)) (left : Exit ξ β × Machine ε ν σ) :
    Option (Exit ξ γ × Machine ε ν σ) :=
  match left.1 with
  | .finished => some (.finished, left.2)
  | .ended value => rest value left.2
  | .threw exception => some (.threw exception, left.2)

/-- The holder's conversion to the coroutine's return type, and its destructor. -/
def convert (holder : Nat) (m : Machine ε ν σ) : Option (Except ε ν × Machine ε ν σ) := do
  let h ← m.holders.cells holder
  let result ← h.stage
  return (result, { m with holders := m.holders.put holder none })

/-- `unhandled_exception` throws on what it gets, and so the frame is not destroyed but stays at its final
suspend point. The holder is destroyed. -/
def unhandledException (holder : Nat) (m : Machine ε ν σ) : Option (Machine ε ν σ) := do
  let _ ← m.holders.cells holder
  return { m with holders := m.holders.put holder none }

/-- A call of a coroutine: make its frame and return object, run the body, which does not suspend at its
start, and convert the return object. -/
def ramp (moves : Nat) (body : Nat → Machine ε ν σ → Option (Exit ξ Empty × Machine ε ν σ))
    (m : Machine ε ν σ) : Option (Called ξ ε ν × Machine ε ν σ) := do
  let frame := m.frames.next
  let (holder, m) ← Machine.getReturnObject moves frame
    { m with frames := m.frames.create { data := none, blocks := [] } }
  let (exit, m) ← m.runBlock frame (body frame)
  match exit with
  | .finished =>
      let (result, m) ← m.convert holder
      return (.ok result, m)
  | .threw exception =>
      let m ← m.unhandledException holder
      return (.error exception, m)

end Machine

/-- Run code in the frame of its coroutine. -/
def Body.run : {β : Type} → Body ξ ε ν σ β → Nat → Machine ε ν σ → Option (Exit ξ β × Machine ε ν σ)
  | _, .coReturn result, frame, m => (m.returnValue frame result).map fun m => (.finished, m)
  | _, .endBlock value, _, m => some (.ended value, m)
  | _, .throws exception, _, m => some (.threw exception, m)
  | _, .coAwait function resume, frame, m =>
      let (called, world) := function m.world
      Machine.await frame called (fun value => (resume value).run frame) { m with world := world }
  | _, .coAwaitCall moves callee resume, frame, m => do
      let (called, m) ← m.ramp moves callee.run
      m.await frame called fun value => (resume value).run frame
  | _, .declare destructor rest, frame, m => do
      let m ← m.declare frame destructor
      rest.run frame m
  | _, .tryBlock block handler rest, frame, m => do
      let left ← m.runBlock frame (block.run frame)
      let left ← Machine.handle frame (fun exception => (handler exception).run frame) left
      Machine.goOn (fun value => (rest value).run frame) left

/-! ### The meaning, written out -/

/-- What becomes of a block in front of the code behind it. -/
def continued (rest : γ → Body ξ ε ν σ β) (outcome : Except (Leave ξ ε ν) γ × σ × Nat) :
    Except (Leave ξ ε ν) β × σ × Nat :=
  match outcome.1 with
  | .ok value => (rest value).meaning outcome.2
  | .error leave => (.error leave, outcome.2)

/-- What becomes of a block in front of its handlers. -/
def caught (handler : ξ → Body ξ ε ν σ β) (outcome : Except (Leave ξ ε ν) β × σ × Nat) :
    Except (Leave ξ ε ν) β × σ × Nat :=
  match outcome.1 with
  | .error (.threw exception) => (handler exception).meaning outcome.2
  | _ => outcome

theorem run_bind (code : Code ξ ε ν σ γ) (rest : γ → Body ξ ε ν σ β) (state : σ × Nat) :
    (code >>= fun value => (rest value).denote).run.run state = continued rest (code.run.run state) := by
  rw [ExceptT.run_bind, StateT.run_bind]
  cases code.run.run state with
  | mk result after =>
      cases result with
      | ok value => rfl
      | error leave => rfl

/-- A call gives the result that the body returns, or the exception that leaves it. -/
theorem call_eq (body : Body ξ ε ν σ Empty) (state : σ × Nat) :
    body.call state =
      match body.meaning state with
      | (.error (.returned result), after) => (.ok result, after)
      | (.error (.threw exception), after) => (.error exception, after.1, after.2 + 1) := by
  have bound : body.call state =
      StateT.run (body.denote.run >>= fun result =>
        match result with
        | .error (.returned result) => pure (.ok result)
        | .error (.threw exception) => do
            modify fun state => (state.1, state.2 + 1)
            return .error exception) state := rfl
  rw [bound, StateT.run_bind]
  have meant : body.denote.run.run state = body.meaning state := rfl
  rw [meant]
  cases body.meaning state with
  | mk result after =>
      cases result with
      | ok nothing => cases nothing
      | error leave =>
          cases leave with
          | returned result => rfl
          | threw exception => rfl

/-! ### The frames that stay -/

/-- So many frames have come, which are suspended at their ends. -/
inductive Left : Nat → (Nat → Option (Frame σ)) → (Nat → Option (Frame σ)) → Prop where
  | none (cells : Nat → Option (Frame σ)) : Left 0 cells cells
  | one {n place : Nat} {cells after : Nat → Option (Frame σ)} (free : cells place = none) (data : Option Nat)
      (more : Left n (Function.update cells place (some { data := data, blocks := [] })) after) :
      Left (n + 1) cells after

namespace Left

variable {n n' place : Nat} {cells after last : Nat → Option (Frame σ)}

theorem append (first : Left n cells after) (second : Left n' after last) : Left (n + n') cells last := by
  induction first with
  | none cells => rwa [Nat.zero_add]
  | one free data more ih =>
      rw [Nat.add_right_comm]
      exact .one free data (ih second)

/-- A frame that is alive stays as it is. -/
theorem kept (left : Left n cells after) {frame : Frame σ} (alive : cells place = some frame) :
    after place = some frame := by
  induction left with
  | none cells => exact alive
  | one free data more ih =>
      apply ih
      rw [Function.update_of_ne, alive]
      rintro rfl
      rw [free] at alive
      cases alive

/-- What else becomes of a frame that is alive does not matter. -/
theorem update (left : Left n cells after) {frame : Frame σ} (alive : cells place = some frame)
    (content : Option (Frame σ)) :
    Left n (Function.update cells place content) (Function.update after place content) := by
  induction left with
  | none cells => exact .none _
  | @one n other cells after free data more ih =>
      have different : other ≠ place := by
        rintro rfl
        rw [free] at alive
        cases alive
      have still := ih (by rw [Function.update_of_ne different.symm, alive])
      rw [Function.update_comm different] at still
      exact .one (by rw [Function.update_of_ne different, free]) data still

end Left

/-! ### Running a body -/

namespace Machine

/-- After the return object of a frame was made: a new one, which the promise points to. -/
structure Made (m : Machine ε ν σ) (frame : Nat) (blocks : List (List (σ → σ))) (holder : Nat)
    (after : Machine ε ν σ) : Prop where
  free : m.holders.cells holder = none
  frames : after.frames.cells =
    Function.update m.frames.cells frame (some { data := some holder, blocks := blocks })
  holders : after.holders.cells = Function.update m.holders.cells holder (some { stage := none, p := frame })
  world : after.world = m.world

/-- A coroutine that runs: its frame, the holder that its promise points to, and its local objects. -/
structure Running (m : Machine ε ν σ) (frame holder : Nat) (blocks : List (List (σ → σ))) : Prop where
  inFrame : m.frames.cells frame = some { data := some holder, blocks := blocks }
  empty : m.holders.cells holder = some { stage := none, p := frame }

variable {m : Machine ε ν σ} {frame holder k : Nat} {locals : List (σ → σ)} {blocks : List (List (σ → σ))}

/-- The local objects of a block are destroyed when it is left. -/
def leave (locals : List (σ → σ)) (outcome : Except (Leave ξ ε ν) β × σ × Nat) :
    Except (Leave ξ ε ν) β × σ × Nat :=
  (outcome.1, unwind locals outcome.2.1, outcome.2.2)

/-- Where a coroutine goes on behind a block. -/
structure GoesOn (m : Machine ε ν σ) (frame holder : Nat) (blocks : List (List (σ → σ))) (n : Nat)
    (after : Machine ε ν σ) : Prop where
  running : Running after frame holder blocks
  frames : Left n m.frames.cells after.frames.cells
  holders : after.holders.cells = m.holders.cells

theorem goesOn (running : Running m frame holder blocks) {n : Nat} {after : Machine ε ν σ}
    (frames : Left n (Function.update m.frames.cells frame (some { data := some holder, blocks := blocks }))
      after.frames.cells)
    (holders : after.holders.cells = m.holders.cells) : GoesOn m frame holder blocks n after := by
  rw [Function.update_eq_self_iff.mpr running.inFrame.symm] at frames
  exact
    { running := ⟨frames.kept running.inFrame, holders ▸ running.empty⟩
      frames := frames
      holders := holders }

end Machine

end Nihil.Coroutine

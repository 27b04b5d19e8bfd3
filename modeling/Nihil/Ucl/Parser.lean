/-
Module: Nihil.Ucl.Parser
Layer: Ucl
Purpose: The ownership of a parser. A parser object is responsible for a ucl_parser and for the macro handlers
  whose addresses it gave to it, so a handler may only go when the ucl_parser is gone. Each of them ends
  exactly once, and in this order, in exactly the runs in which the list of handlers never runs out of
  memory: register_macro gives the address away before it stores the handler (`parser_sound_iff`).
Imports: Nihil.Core.Error, Nihil.Library.Run, Nihil.Library.Slots
Trusted boundary: libucl calls the handlers that were registered at a ucl_parser until it is freed. A vector
  that was moved from is empty. The requires clause of register_macro compares bool with std::invoke_result
  itself, which no function meets; the model is of its body, as if it compared the type in it.
Main exports: ParserState, getParser, ParserAction, parserStep, HandlersLast, ParserSound, StoresHandler,
  parser_sound_iff
-/
import Mathlib.Data.List.Count
import Nihil.Core.Error
import Nihil.Library.Run
import Nihil.Library.Slots

namespace Nihil.Ucl

open Nihil.Library

/-! ### The operations -/

/-- What ends a ucl_parser or a macro handler. -/
inductive ParserEvent where
  /-- ::ucl_parser_free -/
  | free (parser : Nat)
  /-- The destructor of a macro_handler. -/
  | delete (handler : Nat)
deriving DecidableEq, Repr

/-- The parser objects: an object has its `m_parser` and the handlers of its `m_macros`, or has neither after
it was moved from. The ucl_parsers and the handlers are numbered in the order in which they were made. -/
structure ParserState where
  objects : Slots (Nat × List Nat) := []
  parsers : Nat := 0
  handlers : Nat := 0
  /-- The ucl_parsers and the handlers registered at them. -/
  registered : List (Nat × Nat) := []
  /-- What has ended, the last first. -/
  events : List ParserEvent := []
deriving DecidableEq, Repr

/-- `parser::get_parser`. -/
def getParser (object : Option (Nat × List Nat)) : Except LogicError Nat :=
  match object with
  | none => .error ⟨"attempt to fetch a null ucl::parser".toList⟩
  | some both => .ok both.1

namespace ParserState

/-- `make_parser`; it returns an error if ::ucl_parser_new does. -/
def makeParser (state : ParserState) (made : Bool) : Except Error ParserState :=
  if made then
    .ok { state with
      objects := state.objects.construct (some (state.parsers, []))
      parsers := state.parsers + 1 }
  else .error (Error.ofText "failed to create parser".toList)

/-- The events when the ucl_parser of an object is freed and then its handlers are destroyed. -/
def ending (object : Option (Nat × List Nat)) (events : List ParserEvent) : List ParserEvent :=
  match object with
  | none => events
  | some both => both.2.map ParserEvent.delete ++ .free both.1 :: events

/-- `parser::~parser` of object `i`. -/
def destroy (state : ParserState) (i : Nat) (object : Option (Nat × List Nat)) : ParserState :=
  { state with objects := state.objects.destroy i, events := ending object state.events }

/-- The move assignment of object `j` to object `i`. -/
def moveAssign (state : ParserState) (i j : Nat) (object : Option (Nat × List Nat)) : ParserState :=
  if i = j then state
  else { state with objects := state.objects.moveAssign i j, events := ending object state.events }

/-- `parser::register_macro` of object `i`. If it throws, because the object has no ucl_parser or there is no
memory for the list, then the handler that it made is destroyed. -/
def registerMacro (state : ParserState) (i : Nat) (object : Option (Nat × List Nat)) (stored : Bool) :
    ParserState :=
  match getParser object with
  | .error _ =>
      { state with handlers := state.handlers + 1, events := .delete state.handlers :: state.events }
  | .ok parser =>
      let registered := { state with
        handlers := state.handlers + 1
        registered := (parser, state.handlers) :: state.registered }
      if stored then
        { registered with
          objects := state.objects.assign i (object.map fun both => (both.1, both.2 ++ [state.handlers])) }
      else { registered with events := .delete state.handlers :: state.events }

end ParserState

/-- What a program does with its parsers. -/
inductive ParserAction where
  | makeParser (made : Bool)
  | moveConstruct (i : Nat)
  /-- Object `j` is moved to object `i`. -/
  | moveAssign (i j : Nat)
  /-- Whether there is memory for one more handler. -/
  | registerMacro (i : Nat) (stored : Bool)
  | destroy (i : Nat)
deriving DecidableEq, Repr

/-- One action. It is not allowed for an object that does not live. -/
def parserStep (action : ParserAction) (state : ParserState) : Option ParserState :=
  match action with
  | .makeParser made =>
      match state.makeParser made with
      | .ok after => some after
      | .error _ => some state
  | .moveConstruct i =>
      (state.objects.handle? i).map fun _ => { state with objects := state.objects.moveConstruct i }
  | .moveAssign i j =>
      (state.objects.handle? i).bind fun object =>
        (state.objects.handle? j).map fun _ => state.moveAssign i j object
  | .registerMacro i stored =>
      (state.objects.handle? i).map fun object => state.registerMacro i object stored
  | .destroy i => (state.objects.handle? i).map fun object => state.destroy i object

/-! ### What it is for -/

/-- No handler was destroyed before the ucl_parser that it was registered at. -/
def HandlersLast (registered : List (Nat × Nat)) : List ParserEvent → Prop
  | [] => True
  | event :: earlier =>
      (∀ parser handler, event = .delete handler → (parser, handler) ∈ registered →
        .free parser ∈ earlier) ∧ HandlersLast registered earlier

/-- Every ucl_parser and every handler is owned by one object or has ended once, the handlers last. -/
structure ParserSound (state : ParserState) : Prop where
  parsers : ∀ parser < state.parsers,
    state.objects.holding (fun object => object.1 = parser) + state.events.count (.free parser) = 1
  handlers : ∀ handler < state.handlers,
    state.objects.holding (fun object => handler ∈ object.2) + state.events.count (.delete handler) = 1
  handlersLast : HandlersLast state.registered state.events

/-- The list of handlers does not run out of memory. -/
def StoresHandler (state : ParserState) : ParserAction → Prop
  | .registerMacro i stored => ∀ object, state.objects.handle? i = some (some object) → stored = true
  | _ => True

/-- A sound state in which everything that is mentioned exists. -/
structure ParserInvariant (state : ParserState) : Prop where
  sound : ParserSound state
  /-- The handlers of an object are registered at its ucl_parser, each once. -/
  owned : ∀ i object, state.objects.handle? i = some (some object) →
    object.1 < state.parsers ∧ object.2.Nodup ∧ ∀ handler ∈ object.2, (object.1, handler) ∈ state.registered
  registered : ∀ both ∈ state.registered, both.1 < state.parsers ∧ both.2 < state.handlers
  /-- A handler is registered at one ucl_parser. -/
  once : ∀ parser parser' handler, (parser, handler) ∈ state.registered →
    (parser', handler) ∈ state.registered → parser = parser'
  freed : ∀ parser, .free parser ∈ state.events → parser < state.parsers
  deleted : ∀ handler, .delete handler ∈ state.events → handler < state.handlers

theorem parserInvariant_start : ParserInvariant {} where
  sound :=
    { parsers := fun _ before => absurd before (Nat.not_lt_zero _)
      handlers := fun _ before => absurd before (Nat.not_lt_zero _)
      handlersLast := trivial }
  owned := fun i object live => by cases live
  registered := fun both member => absurd member List.not_mem_nil
  once := fun _ _ _ member => absurd member List.not_mem_nil
  freed := fun _ member => absurd member List.not_mem_nil
  deleted := fun _ member => absurd member List.not_mem_nil

/-! ### What ends with an object -/

variable {state : ParserState}

open ParserState

theorem mem_ending {object : Option (Nat × List Nat)} {events : List ParserEvent} {event : ParserEvent} :
    event ∈ ending object events ↔
      (∃ both, object = some both ∧ (event = .free both.1 ∨ ∃ handler ∈ both.2, event = .delete handler)) ∨
        event ∈ events := by
  cases object with
  | none => simp [ending]
  | some both => simp [ending, eq_comm, or_assoc, or_left_comm]

/-- The ucl_parser of the object ends once. -/
theorem count_free_ending (object : Option (Nat × List Nat)) (events : List ParserEvent) (parser : Nat) :
    (ending object events).count (.free parser) =
      events.count (.free parser) + Slots.tally (fun both => both.1 = parser) object := by
  cases object with
  | none => rfl
  | some both =>
      have others : (both.2.map ParserEvent.delete).count (.free parser) = 0 := by
        apply List.count_eq_zero.mpr
        simp
      rw [ending, List.count_append, others, Slots.tally_some, List.count_cons]
      simp

/-- Every handler of the object ends once. -/
theorem count_delete_ending {object : Option (Nat × List Nat)}
    (distinct : ∀ both, object = some both → both.2.Nodup) (events : List ParserEvent) (handler : Nat) :
    (ending object events).count (.delete handler) =
      events.count (.delete handler) + Slots.tally (fun both => handler ∈ both.2) object := by
  cases object with
  | none => rfl
  | some both =>
      have injective : Function.Injective ParserEvent.delete := fun _ _ same => by injection same
      have counted : (both.2.map ParserEvent.delete).count (.delete handler) =
          if handler ∈ both.2 then 1 else 0 := by
        rw [List.count_map_of_injective _ _ injective, (distinct both rfl).count]
      rw [ending, List.count_append, counted, Slots.tally_some, List.count_cons]
      simp [Nat.add_comm]

/-- The handlers of an object go after its ucl_parser. -/
theorem handlersLast_ending {registered : List (Nat × Nat)} {events : List ParserEvent}
    (last : HandlersLast registered events) {object : Option (Nat × List Nat)}
    (own : ∀ both, object = some both → ∀ handler ∈ both.2, ∀ parser, (parser, handler) ∈ registered →
      parser = both.1) : HandlersLast registered (ending object events) := by
  cases object with
  | none => exact last
  | some both =>
      have afterFree : ∀ handlers : List Nat, (∀ handler ∈ handlers, handler ∈ both.2) →
          HandlersLast registered (handlers.map ParserEvent.delete ++ .free both.1 :: events) := by
        intro handlers
        induction handlers with
        | nil =>
            intro _
            refine ⟨?_, last⟩
            intro parser handler same
            cases same
        | cons handler handlers ih =>
            intro members
            refine ⟨?_, ih fun other member => members other (List.mem_cons_of_mem _ member)⟩
            rintro parser other same member
            cases same
            have parserSame := own both rfl handler (members handler List.mem_cons_self) parser member
            rw [parserSame]
            exact List.mem_append_right _ List.mem_cons_self
      exact afterFree both.2 fun _ member => member

/-- A handler that was not destroyed is registered. -/
theorem HandlersLast.register {registered : List (Nat × Nat)} {events : List ParserEvent}
    (last : HandlersLast registered events) {parser handler : Nat} (kept : .delete handler ∉ events) :
    HandlersLast ((parser, handler) :: registered) events := by
  induction events with
  | nil => trivial
  | cons event events ih =>
      refine ⟨?_, ih last.2 fun member => kept (List.mem_cons_of_mem _ member)⟩
      rintro parser' handler' rfl member
      rcases List.mem_cons.mp member with same | earlier
      · cases same
        exact absurd List.mem_cons_self kept
      · exact last.1 parser' handler' rfl earlier

/-! ### The steps -/

/-- The ucl_parser and the handlers of an object end, and the other objects keep theirs. -/
theorem ParserInvariant.ending (invariant : ParserInvariant state) {i : Nat}
    {object : Option (Nat × List Nat)} (live : state.objects.handle? i = some object)
    {objects : Slots (Nat × List Nat)}
    (less : ∀ p, objects.holding p + Slots.tally p object = state.objects.holding p)
    (kept : ∀ k held, objects.handle? k = some (some held) →
      ∃ j, state.objects.handle? j = some (some held)) :
    ParserInvariant { state with objects := objects, events := ending object state.events } where
  sound := by
    have own : ∀ both, object = some both → state.objects.handle? i = some (some both) :=
      fun both same => by rw [live, same]
    refine ⟨fun parser made => ?_, fun handler made => ?_, ?_⟩
    · have once := invariant.sound.parsers parser made
      have lost := less fun both => both.1 = parser
      simp only [count_free_ending]
      omega
    · have once := invariant.sound.handlers handler made
      have lost := less fun both => handler ∈ both.2
      have distinct := fun both same => (invariant.owned i both (own both same)).2.1
      simp only [count_delete_ending distinct]
      omega
    · apply handlersLast_ending invariant.sound.handlersLast
      intro both same handler member parser there
      exact invariant.once parser both.1 handler there
        ((invariant.owned i both (own both same)).2.2 handler member)
  owned := by
    intro k held there
    obtain ⟨j, live'⟩ := kept k held there
    exact invariant.owned j held live'
  registered := invariant.registered
  once := invariant.once
  freed := by
    intro parser member
    rcases mem_ending.mp member with ⟨both, rfl, same | ⟨handler, -, same⟩⟩ | earlier
    · cases same
      exact (invariant.owned i both live).1
    · cases same
    · exact invariant.freed parser earlier
  deleted := by
    intro handler member
    rcases mem_ending.mp member with ⟨both, rfl, same | ⟨own, there, same⟩⟩ | earlier
    · cases same
    · cases same
      exact (invariant.registered _ ((invariant.owned i both live).2.2 handler there)).2
    · exact invariant.deleted handler earlier

/-- The objects keep what they own. -/
theorem ParserInvariant.objects (invariant : ParserInvariant state) {objects : Slots (Nat × List Nat)}
    (same : ∀ p, objects.holding p = state.objects.holding p)
    (kept : ∀ k held, objects.handle? k = some (some held) →
      ∃ j, state.objects.handle? j = some (some held)) :
    ParserInvariant { state with objects := objects } where
  sound := ⟨fun parser made => by rw [same]; exact invariant.sound.parsers parser made,
    fun handler made => by rw [same]; exact invariant.sound.handlers handler made,
    invariant.sound.handlersLast⟩
  owned := by
    intro k held there
    obtain ⟨j, live⟩ := kept k held there
    exact invariant.owned j held live
  registered := invariant.registered
  once := invariant.once
  freed := invariant.freed
  deleted := invariant.deleted

theorem ParserInvariant.makeParser (invariant : ParserInvariant state) :
    ParserInvariant { state with
      objects := state.objects.construct (some (state.parsers, [])), parsers := state.parsers + 1 } where
  sound := by
    refine ⟨fun parser made => ?_, fun handler made => ?_, invariant.sound.handlersLast⟩
    · simp only [Slots.holding_construct, Slots.tally_some, decide_eq_true_eq]
      rcases Nat.lt_succ_iff_lt_or_eq.mp made with earlier | rfl
      · rw [if_neg (Nat.ne_of_gt earlier)]
        exact invariant.sound.parsers parser earlier
      · have unowned : state.objects.holding (fun object => object.1 = state.parsers) = 0 := by
          apply (Slots.holding_eq_zero_iff _ _).mpr
          intro i object live
          simpa using Nat.ne_of_lt (invariant.owned i object live).1
        have unfreed : state.events.count (.free state.parsers) = 0 := by
          apply List.count_eq_zero.mpr
          exact fun member => Nat.lt_irrefl _ (invariant.freed _ member)
        rw [unowned, unfreed, if_pos rfl]
    · simpa [Slots.tally_some] using invariant.sound.handlers handler made
  owned := by
    intro i object live
    rw [Slots.handle?_construct] at live
    split_ifs at live with new
    · cases live
      exact ⟨Nat.lt_succ_self _, List.nodup_nil, fun _ member => absurd member List.not_mem_nil⟩
    · obtain ⟨made, rest⟩ := invariant.owned i object live
      exact ⟨Nat.lt_succ_of_lt made, rest⟩
  registered := fun both member =>
    ⟨Nat.lt_succ_of_lt (invariant.registered both member).1, (invariant.registered both member).2⟩
  once := invariant.once
  freed := fun parser member => Nat.lt_succ_of_lt (invariant.freed parser member)
  deleted := invariant.deleted

/-- A new handler has not been deleted, and nobody owns it. -/
theorem ParserInvariant.newHandler (invariant : ParserInvariant state) :
    (∀ parser, (parser, state.handlers) ∉ state.registered) ∧ .delete state.handlers ∉ state.events ∧
      state.objects.holding (fun object => state.handlers ∈ object.2) = 0 := by
  have unregistered : ∀ parser, (parser, state.handlers) ∉ state.registered :=
    fun parser member => Nat.lt_irrefl _ (invariant.registered _ member).2
  refine ⟨unregistered, fun member => Nat.lt_irrefl _ (invariant.deleted _ member), ?_⟩
  apply (Slots.holding_eq_zero_iff _ _).mpr
  intro i object live
  apply decide_eq_false
  exact fun member => unregistered object.1 ((invariant.owned i object live).2.2 _ member)

/-- A handler that could not be registered is destroyed. -/
theorem ParserInvariant.discard (invariant : ParserInvariant state) :
    ParserInvariant { state with
      handlers := state.handlers + 1, events := .delete state.handlers :: state.events } where
  sound := by
    obtain ⟨unregistered, undeleted, unowned⟩ := invariant.newHandler
    refine ⟨fun parser made => ?_, fun handler made => ?_, ?_, invariant.sound.handlersLast⟩
    · simpa using invariant.sound.parsers parser made
    · simp only [List.count_cons, beq_iff_eq, ParserEvent.delete.injEq]
      rcases Nat.lt_succ_iff_lt_or_eq.mp made with earlier | rfl
      · rw [if_neg (Nat.ne_of_gt earlier)]
        exact invariant.sound.handlers handler earlier
      · rw [unowned, List.count_eq_zero.mpr undeleted, if_pos rfl]
    · rintro parser handler same member
      cases same
      exact absurd member (unregistered parser)
  owned := invariant.owned
  registered := fun both member =>
    ⟨(invariant.registered both member).1, Nat.lt_succ_of_lt (invariant.registered both member).2⟩
  once := invariant.once
  freed := by
    intro parser member
    rcases List.mem_cons.mp member with same | earlier
    · cases same
    · exact invariant.freed parser earlier
  deleted := by
    intro handler member
    rcases List.mem_cons.mp member with same | earlier
    · cases same
      exact Nat.lt_succ_self _
    · exact Nat.lt_succ_of_lt (invariant.deleted handler earlier)

/-- A handler is registered and stored. -/
theorem ParserInvariant.store (invariant : ParserInvariant state) {i : Nat} {object : Nat × List Nat}
    (live : state.objects.handle? i = some (some object)) :
    ParserInvariant { state with
      handlers := state.handlers + 1
      registered := (object.1, state.handlers) :: state.registered
      objects := state.objects.assign i (some (object.1, object.2 ++ [state.handlers])) } where
  sound := by
    obtain ⟨unregistered, undeleted, unowned⟩ := invariant.newHandler
    have owned := invariant.owned i object live
    refine ⟨fun parser made => ?_, fun handler made => ?_, ?_⟩
    · have replaced := Slots.holding_set (fun both => both.1 = parser) live
        (some (some (object.1, object.2 ++ [state.handlers])))
      exact (congrArg (· + _) (Nat.add_right_cancel replaced)).trans (invariant.sound.parsers parser made)
    · have replaced := Slots.holding_set (fun both => handler ∈ both.2) live
        (some (some (object.1, object.2 ++ [state.handlers])))
      simp only [Slots.tally_some, Option.join_some, List.mem_append, List.mem_singleton,
        decide_eq_true_eq] at replaced
      simp only [Slots.assign]
      rcases Nat.lt_succ_iff_lt_or_eq.mp made with earlier | rfl
      · have once := invariant.sound.handlers handler earlier
        have other : handler ≠ state.handlers := Nat.ne_of_lt earlier
        simp only [other, or_false] at replaced
        omega
      · have unheld : state.handlers ∉ object.2 :=
          fun member => unregistered object.1 (owned.2.2 _ member)
        rw [if_neg unheld, if_pos (Or.inr rfl), unowned] at replaced
        rw [List.count_eq_zero.mpr undeleted]
        exact replaced
    · exact invariant.sound.handlersLast.register undeleted
  owned := by
    obtain ⟨unregistered, -, -⟩ := invariant.newHandler
    intro k held there
    rw [Slots.handle?_assign live] at there
    split_ifs at there with here
    · cases there
      obtain ⟨made, distinct, known⟩ := invariant.owned i object live
      refine ⟨made, ?_, ?_⟩
      · apply List.nodup_append.mpr
        refine ⟨distinct, by simp, ?_⟩
        rintro handler member new newMember rfl
        rw [List.mem_singleton.mp newMember] at member
        exact unregistered object.1 (known _ member)
      · intro handler member
        rcases List.mem_append.mp member with earlier | new
        · exact List.mem_cons_of_mem _ (known handler earlier)
        · rw [List.mem_singleton.mp new]
          exact List.mem_cons_self
    · obtain ⟨made, distinct, known⟩ := invariant.owned k held there
      exact ⟨made, distinct, fun handler member => List.mem_cons_of_mem _ (known handler member)⟩
  registered := by
    intro both member
    rcases List.mem_cons.mp member with rfl | earlier
    · exact ⟨(invariant.owned i object live).1, Nat.lt_succ_self _⟩
    · exact ⟨(invariant.registered both earlier).1, Nat.lt_succ_of_lt (invariant.registered both earlier).2⟩
  once := by
    obtain ⟨unregistered, -, -⟩ := invariant.newHandler
    intro parser parser' handler member member'
    rcases List.mem_cons.mp member with same | earlier
    · cases same
      rcases List.mem_cons.mp member' with same' | earlier'
      · cases same'
        rfl
      · exact absurd earlier' (unregistered parser')
    · rcases List.mem_cons.mp member' with same' | earlier'
      · cases same'
        exact absurd earlier (unregistered parser)
      · exact invariant.once parser parser' handler earlier earlier'
  freed := invariant.freed
  deleted := fun handler member => Nat.lt_succ_of_lt (invariant.deleted handler member)

/-- Every step that has memory for the handler keeps the parsers sound. -/
theorem ParserInvariant.step (invariant : ParserInvariant state) {action : ParserAction}
    {after : ParserState} (stores : StoresHandler state action)
    (taken : parserStep action state = some after) : ParserInvariant after := by
  cases action with
  | makeParser made =>
      cases made with
      | false =>
          cases taken
          exact invariant
      | true =>
          cases taken
          exact invariant.makeParser
  | moveConstruct i =>
      obtain ⟨object, live, rfl⟩ := Option.map_eq_some_iff.mp taken
      have joined : (state.objects.handle? i).join = object := congrArg Option.join live
      apply invariant.objects fun p => Slots.holding_moveConstruct p live
      intro k held there
      rw [Slots.moveConstruct, joined, Slots.handle?_construct] at there
      split_ifs at there with new
      · cases there
        exact ⟨i, live⟩
      · rw [Slots.handle?_assign live] at there
        split_ifs at there with here
        · cases there
        · exact ⟨k, there⟩
  | moveAssign i j =>
      obtain ⟨object, target, rest⟩ := Option.bind_eq_some_iff.mp taken
      obtain ⟨other, source, rfl⟩ := Option.map_eq_some_iff.mp rest
      unfold ParserState.moveAssign
      split_ifs with same
      · exact invariant
      · have joined : (state.objects.handle? j).join = other := congrArg Option.join source
        apply invariant.ending target fun p => Slots.holding_moveAssign p same target source
        intro k held there
        have still : (state.objects.assign j none).handle? i = some object := by
          rw [Slots.handle?_assign source, if_neg same, target]
        rw [Slots.moveAssign, joined, Slots.handle?_assign still] at there
        split_ifs at there with here
        · cases there
          exact ⟨j, source⟩
        · rw [Slots.handle?_assign source] at there
          split_ifs at there with here'
          · cases there
          · exact ⟨k, there⟩
  | registerMacro i stored =>
      obtain ⟨object, live, rfl⟩ := Option.map_eq_some_iff.mp taken
      cases object with
      | none => exact invariant.discard
      | some object =>
          have enough : stored = true := stores object live
          rw [enough]
          exact invariant.store live
  | destroy i =>
      obtain ⟨object, live, rfl⟩ := Option.map_eq_some_iff.mp taken
      apply invariant.ending live
      · intro p
        exact Slots.holding_set p live none
      · intro k held there
        rw [Slots.handle?_destroy live] at there
        split_ifs at there with here
        exact ⟨k, there⟩

/-- A handler that is not stored is destroyed before its ucl_parser. -/
theorem ParserInvariant.lost (invariant : ParserInvariant state) {action : ParserAction}
    {after : ParserState} (loses : ¬ StoresHandler state action)
    (taken : parserStep action state = some after) : ¬ ParserSound after := by
  intro sound
  cases action with
  | registerMacro i stored =>
      obtain ⟨object, live, full⟩ : ∃ object, state.objects.handle? i = some (some object) ∧
          stored = false := by simpa [StoresHandler] using loses
      obtain ⟨found, live', rfl⟩ := Option.map_eq_some_iff.mp taken
      rw [live] at live'
      cases live'
      rw [full] at sound
      have freed : .free object.1 ∈ state.events :=
        sound.handlersLast.1 object.1 state.handlers rfl List.mem_cons_self
      have once := invariant.sound.parsers object.1 (invariant.owned i object live).1
      have held : 0 < state.objects.holding fun both => both.1 = object.1 := by
        apply List.countP_pos_iff.mpr
        exact ⟨some (some object), Slots.held_iff.mpr ⟨i, live⟩, decide_eq_true rfl⟩
      have counted : 0 < state.events.count (.free object.1) := List.count_pos_iff.mpr freed
      omega
  | _ => exact loses trivial

/-- Every ucl_parser and every handler ends once, and no handler before its ucl_parser, in every state of a run
exactly if the lists of handlers never run out of memory. -/
theorem parser_sound_iff (actions : List ParserAction) :
    EveryState parserStep ParserSound actions {} ↔ EveryStep parserStep StoresHandler actions {} :=
  everyState_iff (fun _ invariant => invariant.sound)
    (fun _ _ _ invariant stores taken => invariant.step stores taken)
    (fun _ _ _ invariant loses taken => invariant.lost loses taken)
    parserInvariant_start actions

end Nihil.Ucl

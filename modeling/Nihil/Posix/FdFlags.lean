/-
Module: Nihil.Posix.FdFlags
Layer: Posix
Purpose: setflags, clearflags and replaceflags, and their siblings for the flags of descriptors. Flags belong to
  an open file that several descriptors share, or to one descriptor; a change is two calls of fcntl, and
  what happens between them is lost. The flags are what the changes make of them one after the other, for
  any number of callers at once, exactly if whenever flags are written the bits that the change does not
  decide are still as they were read (`flags_sequential_iff`).
Imports: Nihil.Core.Error, Nihil.Core.Flagset, Nihil.Library.Run
Trusted boundary: F_SETFL and F_SETFD change the bits that can be set, and no others.
Main exports: Flags, FlagChange, FlagCall, FlagState, setflags, clearflags, replaceflags, FlagAction, flagStep,
  Sequential, NothingLost, flags_sequential_iff, returned_iff
-/
import Nihil.Core.Error
import Nihil.Core.Flagset
import Nihil.Library.Run

namespace Nihil.Posix

open Nihil.Library

/-! ### The operations -/

/-- `fd_flags` and `fd_fdflags`. -/
abbrev Flags := Flagset ⟨true, 32⟩

/-- What is done to flags. -/
inductive FlagChange where
  | replace (newflags : Flags)
  | set (newflags : Flags)
  | clear (clrflags : Flags)
deriving DecidableEq

/-- The flags that are written, by the flags that were read. -/
def FlagChange.apply (change : FlagChange) (flags : Flags) : Flags :=
  match change with
  | .replace newflags => newflags
  | .set newflags => flags.or newflags
  | .clear clrflags => flags.and clrflags.complement

/-- How far a call is. -/
inductive FlagStage where
  | started
  | read (flags : Flags)
  | done (result : Except Error Flags)

/-- A call of one of the functions, by its descriptor. -/
structure FlagCall where
  fd : Nat
  change : FlagChange
  stage : FlagStage := .started

/-- `replaceflags` and `replacefdflags`. -/
def replaceflags (fd : Nat) (newflags : Flags) : FlagCall := { fd := fd, change := .replace newflags }

/-- `setflags` and `setfdflags`. -/
def setflags (fd : Nat) (newflags : Flags) : FlagCall := { fd := fd, change := .set newflags }

/-- `clearflags` and `clearfdflags`. -/
def clearflags (fd : Nat) (clrflags : Flags) : FlagCall := { fd := fd, change := .clear clrflags }

/-- The flags that the call writes next, if it does not have to read first. -/
def FlagCall.written (call : FlagCall) : Option Flags :=
  match call.stage, call.change with
  | .started, .replace newflags => some newflags
  | .read flags, change => some (change.apply flags)
  | _, _ => none

/-- The flags: each has an owner, and a descriptor leads to one. -/
structure FlagState where
  owner : Nat → Option Nat
  flags : Nat → Flags
  owners : Nat := 0
  calls : List FlagCall := []
  /-- The flags that each owner had first. -/
  first : Nat → Flags
  /-- The changes that were made, in order. -/
  changes : List (Nat × FlagChange) := []

namespace FlagState

/-- The code EBADF. -/
def ebadf : ErrorCode := { value := 9, message := "Bad file descriptor".toList }

/-- `fcntl`, up to its effect: the owner of the flags that it is about, or its error. -/
def fcntl (state : FlagState) (fd : Nat) (failure : Option ErrorCode) : Except Error Nat :=
  match failure with
  | some ec => .error (Error.ofCode ec)
  | none =>
      match state.owner fd with
      | none => .error (Error.ofCode ebadf)
      | some owner => .ok owner

/-- What F_SETFL makes of some flags: only the settable bits change. -/
def settled (settable old new : Flags) : Flags := (old.and settable.complement).or (new.and settable)

/-- A call goes on. -/
def withStage (state : FlagState) (i : Nat) (call : FlagCall) (stage : FlagStage) : FlagState :=
  { state with calls := state.calls.set i { call with stage := stage } }

/-- `getflags` in a call that was started, by F_GETFL. -/
def getflags (state : FlagState) (i : Nat) (call : FlagCall) (failure : Option ErrorCode) : FlagState :=
  match state.fcntl call.fd failure with
  | .error err => state.withStage i call (.done (.error err))
  | .ok owner => state.withStage i call (.read (state.flags owner))

/-- The call writes its flags by F_SETFL and returns them; replaceflags ignores what it would return. -/
def put (settable : Flags) (state : FlagState) (i : Nat) (call : FlagCall) (newflags : Flags)
    (failure : Option ErrorCode) : FlagState :=
  match state.fcntl call.fd failure with
  | .error err => state.withStage i call (.done (.error err))
  | .ok owner =>
      { state.withStage i call (.done (.ok newflags)) with
        flags := Function.update state.flags owner (settled settable (state.flags owner) newflags)
        changes := state.changes ++ [(owner, call.change)] }

end FlagState

/-- What is done with flags and descriptors, by any number of callers. -/
inductive FlagAction where
  | begin (call : FlagCall)
  | read (i : Nat) (failure : Option ErrorCode)
  | write (i : Nat) (failure : Option ErrorCode)
  /-- A descriptor with flags of its own, such as those of a file that is opened. -/
  | create (fd : Nat) (flags : Flags)
  /-- `dup`: a descriptor with the flags of another one. -/
  | share (fd newfd : Nat)
  | close (fd : Nat)

open FlagState in
/-- One action. It is not allowed for a call that is not there, or is not so far. -/
def flagStep (settable : Flags) (action : FlagAction) (state : FlagState) : Option FlagState :=
  match action with
  | .begin call => some { state with calls := state.calls ++ [{ call with stage := .started }] }
  | .read i failure =>
      (state.calls[i]?).bind fun call =>
        match call.stage, call.change with
        | .started, .replace _ => none
        | .started, _ => some (state.getflags i call failure)
        | _, _ => none
  | .write i failure =>
      (state.calls[i]?).bind fun call => call.written.map fun newflags =>
        state.put settable i call newflags failure
  | .create fd flags =>
      if state.owner fd = none then
        some { state with
          owner := Function.update state.owner fd (some state.owners)
          flags := Function.update state.flags state.owners flags
          owners := state.owners + 1
          first := Function.update state.first state.owners flags }
      else none
  | .share fd newfd =>
      (state.owner fd).map fun owner =>
        { state with owner := Function.update state.owner newfd (some owner) }
  | .close fd => some { state with owner := Function.update state.owner fd none }

/-! ### What it is for -/

/-- What some changes make of flags, one after the other. -/
def changed (settable flags : Flags) (changes : List FlagChange) : Flags :=
  changes.foldl (fun flags change => FlagState.settled settable flags (change.apply flags)) flags

/-- The changes of an owner's flags. -/
def changesOf (owner : Nat) (changes : List (Nat × FlagChange)) : List FlagChange :=
  (changes.filter fun change => change.1 = owner).map Prod.snd

/-- All flags are what the changes make of them one after the other. -/
def Sequential (settable : Flags) (state : FlagState) : Prop :=
  ∀ owner, state.flags owner = changed settable (state.first owner) (changesOf owner state.changes)

/-- A bit that a change decides by itself. -/
def FlagChange.Decides (change : FlagChange) (bit : Nat) : Prop :=
  match change with
  | .replace _ => True
  | .set newflags => newflags.value.getLsbD bit = true
  | .clear clrflags => clrflags.value.getLsbD bit = true

/-- When flags are written, the settable bits that the change does not decide are as they were read. -/
def NothingLost (settable : Flags) (state : FlagState) : FlagAction → Prop
  | .write i none => ∀ call flags owner, state.calls[i]? = some call → call.stage = .read flags →
      state.owner call.fd = some owner → ∀ bit, settable.value.getLsbD bit = true →
      ¬ call.change.Decides bit → flags.value.getLsbD bit = (state.flags owner).value.getLsbD bit
  | _ => True

/-! ### Bits -/

theorem flags_ext {flags other : Flags}
    (same : ∀ bit, flags.value.getLsbD bit = other.value.getLsbD bit) : flags = other := by
  cases flags
  cases other
  congr 1
  apply BitVec.eq_of_getLsbD_eq
  exact fun bit _ => same bit

theorem getLsbD_settled (settable old new : Flags) (bit : Nat) :
    (FlagState.settled settable old new).value.getLsbD bit =
      if settable.value.getLsbD bit then new.value.getLsbD bit else old.value.getLsbD bit := by
  unfold FlagState.settled Flagset.or Flagset.and Flagset.complement
  simp only [BitVec.getLsbD_or, BitVec.getLsbD_and, BitVec.getLsbD_not]
  cases can : settable.value.getLsbD bit with
  | true => simp
  | false =>
      by_cases inside : bit < 32
      · simp [inside]
      · simp [BitVec.getLsbD_of_ge _ _ (Nat.le_of_not_lt inside)]

/-- A bit that the change decides does not depend on what was read. -/
theorem getLsbD_apply_of_decides {change : FlagChange} {bit : Nat} (decides : change.Decides bit)
    (flags other : Flags) :
    (change.apply flags).value.getLsbD bit = (change.apply other).value.getLsbD bit := by
  cases change with
  | replace newflags => rfl
  | set newflags =>
      have set : newflags.value.getLsbD bit = true := decides
      simp [FlagChange.apply, Flagset.or, set]
  | clear clrflags =>
      have cleared : clrflags.value.getLsbD bit = true := decides
      simp [FlagChange.apply, Flagset.and, Flagset.complement, cleared]

/-- Any other bit is written as it was read. -/
theorem getLsbD_apply_of_not_decides {change : FlagChange} {bit : Nat} (leaves : ¬ change.Decides bit)
    (flags : Flags) : (change.apply flags).value.getLsbD bit = flags.value.getLsbD bit := by
  cases change with
  | replace newflags => exact absurd trivial leaves
  | set newflags =>
      have unset : newflags.value.getLsbD bit = false := Bool.not_eq_true _ ▸ leaves
      simp [FlagChange.apply, Flagset.or, unset]
  | clear clrflags =>
      have kept : clrflags.value.getLsbD bit = false := Bool.not_eq_true _ ▸ leaves
      simp only [FlagChange.apply, Flagset.and, Flagset.complement, BitVec.getLsbD_and,
        BitVec.getLsbD_not, kept, Bool.not_false, Bool.and_true]
      by_cases inside : bit < 32
      · simp [inside]
      · simp [BitVec.getLsbD_of_ge _ _ (Nat.le_of_not_lt inside)]

/-- Flags that were read earlier do as well as the present ones, if they agree on the bits that matter. -/
theorem settled_apply_iff (settable old flags : Flags) (change : FlagChange) :
    FlagState.settled settable old (change.apply flags) =
        FlagState.settled settable old (change.apply old) ↔
      ∀ bit, settable.value.getLsbD bit = true → ¬ change.Decides bit →
        flags.value.getLsbD bit = old.value.getLsbD bit := by
  constructor
  · intro same bit can leaves
    have here := congrArg (fun flags : Flags => flags.value.getLsbD bit) same
    simp only [getLsbD_settled, can, if_true] at here
    rwa [getLsbD_apply_of_not_decides leaves, getLsbD_apply_of_not_decides leaves] at here
  · intro agree
    apply flags_ext
    intro bit
    rw [getLsbD_settled, getLsbD_settled]
    split_ifs with can
    · by_cases decides : change.Decides bit
      · exact getLsbD_apply_of_decides decides flags old
      · rw [getLsbD_apply_of_not_decides decides, getLsbD_apply_of_not_decides decides]
        exact agree bit can decides
    · rfl

/-- The flags that a call returns are those that are set then, exactly if it changes no bit that cannot be
set. -/
theorem returned_iff (settable old new : Flags) :
    FlagState.settled settable old new = new ↔
      ∀ bit, settable.value.getLsbD bit = false → new.value.getLsbD bit = old.value.getLsbD bit := by
  constructor
  · intro same bit cannot
    have here := congrArg (fun flags : Flags => flags.value.getLsbD bit) same
    simp only [getLsbD_settled, cannot, Bool.false_eq_true, if_false] at here
    exact here.symm
  · intro agree
    apply flags_ext
    intro bit
    rw [getLsbD_settled]
    split_ifs with can
    · rfl
    · exact (agree bit (Bool.not_eq_true _ ▸ can)).symm

/-! ### Runs -/

/-- All changes were sequential, and everything that is mentioned exists. -/
structure FlagInvariant (settable : Flags) (state : FlagState) : Prop where
  sequential : Sequential settable state
  owner : ∀ fd owner, state.owner fd = some owner → owner < state.owners
  changes : ∀ change ∈ state.changes, change.1 < state.owners

variable {settable : Flags} {state : FlagState}

theorem changesOf_append (owner : Nat) (changes : List (Nat × FlagChange)) (last : Nat × FlagChange) :
    changesOf owner (changes ++ [last]) =
      changesOf owner changes ++ if last.1 = owner then [last.2] else [] := by
  by_cases same : last.1 = owner
  · simp [changesOf, same]
  · simp [changesOf, same]

theorem fcntl_ok_iff {fd owner : Nat} {failure : Option ErrorCode} :
    state.fcntl fd failure = .ok owner ↔ failure = none ∧ state.owner fd = some owner := by
  unfold FlagState.fcntl
  cases failure with
  | some ec => simp
  | none => cases found : state.owner fd <;> simp

/-- After flags were written, everything is sequential exactly if they are what the change makes of the present
flags. -/
theorem FlagInvariant.sequential_put_iff (invariant : FlagInvariant settable state) {i owner : Nat}
    {call : FlagCall} {newflags : Flags} (found : state.owner call.fd = some owner) :
    Sequential settable (state.put settable i call newflags none) ↔
      FlagState.settled settable (state.flags owner) newflags =
        FlagState.settled settable (state.flags owner) (call.change.apply (state.flags owner)) := by
  have reached : state.fcntl call.fd none = .ok owner := fcntl_ok_iff.mpr ⟨rfl, found⟩
  have here := invariant.sequential owner
  have expected : changed settable (state.first owner)
      (changesOf owner (state.changes ++ [(owner, call.change)])) =
      FlagState.settled settable (state.flags owner) (call.change.apply (state.flags owner)) := by
    rw [changesOf_append, if_pos rfl, changed, List.foldl_append, here]
    rfl
  rw [FlagState.put, reached]
  constructor
  · intro sequential
    have there := sequential owner
    simp only [Function.update_self, FlagState.withStage] at there
    exact there.trans expected
  · intro same other
    simp only [FlagState.withStage]
    by_cases isOwner : other = owner
    · subst isOwner
      rw [Function.update_self, same]
      exact expected.symm
    · have elsewhere : changesOf other (state.changes ++ [(owner, call.change)]) =
          changesOf other state.changes := by
        rw [changesOf_append, if_neg (Ne.symm isOwner), List.append_nil]
      rw [Function.update_of_ne isOwner, elsewhere]
      exact invariant.sequential other

/-- What a call writes: the flags that it replaces, or what its change makes of the flags that it read. -/
theorem written_eq_some {call : FlagCall} {newflags : Flags} (ready : call.written = some newflags) :
    (∃ flags, call.stage = .read flags ∧ newflags = call.change.apply flags) ∨
      call.stage = .started ∧ ∀ flags, newflags = call.change.apply flags := by
  rcases call with ⟨fd, change, stage⟩
  cases stage with
  | started =>
      cases change with
      | replace flags =>
          cases ready
          exact Or.inr ⟨rfl, fun _ => rfl⟩
      | set flags => cases ready
      | clear flags => cases ready
  | read flags =>
      cases ready
      exact Or.inl ⟨flags, rfl, rfl⟩
  | done result => cases ready

/-- Flags that are written are sequential exactly if nothing is lost. -/
theorem FlagInvariant.put_iff (invariant : FlagInvariant settable state) {i owner : Nat} {call : FlagCall}
    {newflags : Flags} (called : state.calls[i]? = some call) (ready : call.written = some newflags)
    (found : state.owner call.fd = some owner) :
    Sequential settable (state.put settable i call newflags none) ↔
      NothingLost settable state (.write i none) := by
  rw [invariant.sequential_put_iff found]
  have only : NothingLost settable state (.write i none) ↔ ∀ flags, call.stage = .read flags →
      ∀ bit, settable.value.getLsbD bit = true → ¬ call.change.Decides bit →
        flags.value.getLsbD bit = (state.flags owner).value.getLsbD bit := by
    constructor
    · exact fun nothing flags stage => nothing call flags owner called stage found
    · intro nothing other flags owner' called' stage found'
      rw [called] at called'
      cases called'
      rw [found] at found'
      cases found'
      exact nothing flags stage
  rw [only]
  rcases written_eq_some ready with ⟨flags, stage, rfl⟩ | ⟨stage, same⟩
  · rw [settled_apply_iff, stage]
    constructor
    · rintro agree _ ⟨⟩
      exact agree
    · exact fun agree => agree flags rfl
  · apply iff_of_true
    · rw [← same]
    · intro flags read
      rw [stage] at read
      cases read

theorem FlagInvariant.withStage (invariant : FlagInvariant settable state) (i : Nat) (call : FlagCall)
    (stage : FlagStage) : FlagInvariant settable (state.withStage i call stage) :=
  ⟨invariant.sequential, invariant.owner, invariant.changes⟩

/-- A descriptor with flags of its own. -/
theorem FlagInvariant.create (invariant : FlagInvariant settable state) (fd : Nat) (flags : Flags) :
    FlagInvariant settable { state with
      owner := Function.update state.owner fd (some state.owners)
      flags := Function.update state.flags state.owners flags
      owners := state.owners + 1
      first := Function.update state.first state.owners flags } where
  sequential := by
    intro owner
    change Function.update state.flags state.owners flags owner =
      changed settable (Function.update state.first state.owners flags owner) (changesOf owner state.changes)
    by_cases isNew : owner = state.owners
    · subst isNew
      have unchanged : changesOf state.owners state.changes = [] := by
        rw [changesOf, List.map_eq_nil_iff, List.filter_eq_nil_iff]
        intro change member
        simpa using Nat.ne_of_lt (invariant.changes change member)
      rw [Function.update_self, Function.update_self, unchanged]
      rfl
    · rw [Function.update_of_ne isNew, Function.update_of_ne isNew]
      exact invariant.sequential owner
  owner := by
    intro other owner found
    change Function.update state.owner fd (some state.owners) other = some owner at found
    by_cases same : other = fd
    · rw [same, Function.update_self] at found
      cases found
      exact Nat.lt_succ_self _
    · rw [Function.update_of_ne same] at found
      exact Nat.lt_succ_of_lt (invariant.owner other owner found)
  changes := fun change member => Nat.lt_succ_of_lt (invariant.changes change member)

/-- A descriptor is pointed elsewhere. -/
theorem FlagInvariant.point (invariant : FlagInvariant settable state) (fd : Nat) {target : Option Nat}
    (known : ∀ owner, target = some owner → owner < state.owners) :
    FlagInvariant settable { state with owner := Function.update state.owner fd target } where
  sequential := invariant.sequential
  owner := by
    intro other owner found
    change Function.update state.owner fd target other = some owner at found
    by_cases same : other = fd
    · rw [same, Function.update_self] at found
      exact known owner found
    · rw [Function.update_of_ne same] at found
      exact invariant.owner other owner found
  changes := invariant.changes

/-- A step that loses nothing keeps the flags sequential. -/
theorem FlagInvariant.step (invariant : FlagInvariant settable state) {action : FlagAction}
    {after : FlagState} (nothing : NothingLost settable state action)
    (taken : flagStep settable action state = some after) : FlagInvariant settable after := by
  cases action with
  | begin call =>
      cases taken
      exact ⟨invariant.sequential, invariant.owner, invariant.changes⟩
  | read i failure =>
      obtain ⟨call, called, rest⟩ := Option.bind_eq_some_iff.mp taken
      split at rest
      · cases rest
      · cases rest
        unfold FlagState.getflags
        cases state.fcntl call.fd failure with
        | error err => exact invariant.withStage i call _
        | ok owner => exact invariant.withStage i call _
      · cases rest
  | write i failure =>
      obtain ⟨call, called, rest⟩ := Option.bind_eq_some_iff.mp taken
      obtain ⟨newflags, ready, rfl⟩ := Option.map_eq_some_iff.mp rest
      cases reached : state.fcntl call.fd failure with
      | error err =>
          rw [FlagState.put, reached]
          exact invariant.withStage i call _
      | ok owner =>
          obtain ⟨rfl, found⟩ := fcntl_ok_iff.mp reached
          have sequential := (invariant.put_iff called ready found).mpr nothing
          rw [FlagState.put, reached] at sequential ⊢
          refine ⟨sequential, invariant.owner, fun change member => ?_⟩
          rcases List.mem_append.mp member with earlier | last
          · exact invariant.changes change earlier
          · rw [List.mem_singleton.mp last]
            exact invariant.owner call.fd owner found
  | create fd flags =>
      rw [flagStep] at taken
      split_ifs at taken
      cases taken
      exact invariant.create fd flags
  | share fd newfd =>
      obtain ⟨owner, found, rfl⟩ := Option.map_eq_some_iff.mp taken
      apply invariant.point newfd
      rintro _ ⟨⟩
      exact invariant.owner fd owner found
  | close fd =>
      cases taken
      exact invariant.point fd fun owner found => by cases found

/-- A write that loses something leaves flags that no sequence of the changes makes. -/
theorem FlagInvariant.lost (invariant : FlagInvariant settable state) {action : FlagAction}
    {after : FlagState} (loses : ¬ NothingLost settable state action)
    (taken : flagStep settable action state = some after) : ¬ Sequential settable after := by
  cases action with
  | write i failure =>
      cases failure with
      | some ec => exact absurd trivial loses
      | none =>
          obtain ⟨call, called, rest⟩ := Option.bind_eq_some_iff.mp taken
          obtain ⟨newflags, ready, rfl⟩ := Option.map_eq_some_iff.mp rest
          cases found : state.owner call.fd with
          | some owner => exact fun sequential => loses ((invariant.put_iff called ready found).mp sequential)
          | none =>
              refine absurd ?_ loses
              intro other flags owner called' stage found'
              rw [called] at called'
              cases called'
              rw [found] at found'
              cases found'
  | _ => exact absurd trivial loses

theorem flagInvariant_start (settable : Flags) (flags : Nat → Flags) :
    FlagInvariant settable { owner := fun _ => none, flags := flags, first := flags } where
  sequential := fun _ => rfl
  owner := fun fd owner found => by cases found
  changes := fun change member => absurd member List.not_mem_nil

/-- All flags are what the changes make of them one after the other, in every state of a run, exactly if no step
writes back a bit that has changed since it was read. -/
theorem flags_sequential_iff (settable : Flags) (flags : Nat → Flags) (actions : List FlagAction) :
    EveryState (flagStep settable) (Sequential settable) actions
        { owner := fun _ => none, flags := flags, first := flags } ↔
      EveryStep (flagStep settable) (NothingLost settable) actions
        { owner := fun _ => none, flags := flags, first := flags } :=
  everyState_iff (fun _ invariant => invariant.sequential)
    (fun _ _ _ invariant nothing taken => invariant.step nothing taken)
    (fun _ _ _ invariant loses taken => invariant.lost loses taken)
    (flagInvariant_start settable flags) actions

end Nihil.Posix

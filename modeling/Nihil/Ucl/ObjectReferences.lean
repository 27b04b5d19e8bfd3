/-
Module: Nihil.Ucl.ObjectReferences
Layer: Ucl
Purpose: The references that the wrappers of UCL objects hold. A wrapper takes a reference when it is
  constructed and drops it when it is destroyed; a move hands the reference on. An assignment does not drop
  what its target held, and the copy assignment goes through the move assignment, so the references are
  counted right in exactly the runs in which nothing is assigned to a wrapper that is in use.
Imports: Nihil.Library.Run, Nihil.Library.Slots
Trusted boundary: ucl_object_ref and ucl_object_unref change the count by one; ucl_object_copy returns an
  object with one reference.
Main exports: UclState, WrapperAction, wrapperStep, Counted, Refcounted, KeepsReference,
  wrapper_counted_iff
-/
import Mathlib.Data.List.Basic
import Mathlib.Logic.Function.Basic
import Nihil.Library.Run
import Nihil.Library.Slots

namespace Nihil.Ucl

open Nihil.Library

/-! ### The operations -/

/-- The wrappers, each by its `m_object`, and the ucl_object_t they hold, by their addresses. -/
structure UclState where
  /-- The reference count of the object at an address; none is there if it is zero. -/
  counts : Nat → Nat
  /-- The references that are not held by wrappers. -/
  external : Nat → Nat
  wrappers : Slots Nat := []
  /-- The references that wrappers took so far. -/
  taken : List Nat := []
  /-- The references that wrappers dropped so far. -/
  dropped : List Nat := []

namespace UclState

/-- How many live wrappers hold an object. -/
def holders (state : UclState) (uobj : Nat) : Nat :=
  state.wrappers.holding fun held => held = uobj

/-- `object(ref, uobj)`: ucl_object_ref, and a wrapper. -/
def constructRef (state : UclState) (uobj : Nat) : UclState :=
  { state with
    counts := Function.update state.counts uobj (state.counts uobj + 1)
    wrappers := state.wrappers.construct (some uobj)
    taken := state.taken ++ [uobj] }

/-- `object(noref, uobj)`: the wrapper takes over a reference that somebody else held. -/
def constructNoref (state : UclState) (uobj : Nat) : UclState :=
  { state with
    external := Function.update state.external uobj (state.external uobj - 1)
    wrappers := state.wrappers.construct (some uobj)
    taken := state.taken ++ [uobj] }

/-- The copy constructor, when ucl_object_copy returns the object at `copy`. -/
def constructCopy (state : UclState) (copy : Nat) : UclState :=
  { state with
    counts := Function.update state.counts copy 1
    wrappers := state.wrappers.construct (some copy)
    taken := state.taken ++ [copy] }

/-- The move constructor. -/
def moveConstruct (state : UclState) (i : Nat) : UclState :=
  { state with wrappers := state.wrappers.moveConstruct i }

/-- The move assignment of wrapper `j` to wrapper `i`. -/
def moveAssign (state : UclState) (i j : Nat) : UclState :=
  if i = j then state else { state with wrappers := state.wrappers.moveAssign i j }

/-- `object::~object` of wrapper `i`. -/
def destroy (state : UclState) (i : Nat) (held : Option Nat) : UclState :=
  match held with
  | none => { state with wrappers := state.wrappers.destroy i }
  | some uobj =>
      { state with
        counts := Function.update state.counts uobj (state.counts uobj - 1)
        wrappers := state.wrappers.destroy i
        dropped := state.dropped ++ [uobj] }

/-- The assignment of a copy to wrapper `i`: a temporary wrapper for the copy is moved to the wrapper. -/
def assignCopy (state : UclState) (i copy : Nat) : UclState :=
  let temporary := state.wrappers.length
  ((state.constructCopy copy).moveAssign i temporary).destroy temporary none

/-- Go on with the address of the copy of what a wrapper holds. An empty wrapper and a copy that fails
throw, which leaves everything as it was, and a copy is not made at the address of another object. -/
def withCopy (state : UclState) (held copy : Option Nat) (next : Nat → UclState) : Option UclState :=
  match held, copy with
  | none, _ => some state
  | some _, none => some state
  | some _, some copy => if state.counts copy = 0 then some (next copy) else none

/-- `swap` of wrappers `i` and `j`. -/
def swap (state : UclState) (i j : Nat) (heldByI heldByJ : Option Nat) : UclState :=
  { state with wrappers := (state.wrappers.assign i heldByJ).assign j heldByI }

end UclState

/-- What a program does with its wrappers, and what the rest of it does with UCL objects. The address of a
copy is the one that ucl_object_copy returns, or none if it fails. -/
inductive WrapperAction where
  | constructRef (uobj : Nat)
  | constructNoref (uobj : Nat)
  | copyConstruct (i : Nat) (copy : Option Nat)
  | moveConstruct (i : Nat)
  /-- Wrapper `j` is copied to wrapper `i`. -/
  | copyAssign (i j : Nat) (copy : Option Nat)
  /-- Wrapper `j` is moved to wrapper `i`. -/
  | moveAssign (i j : Nat)
  /-- `ref()` of wrapper `i`. -/
  | ref (i : Nat)
  | swap (i j : Nat)
  | destroy (i : Nat)
  /-- An object without a wrapper is created. -/
  | otherNew (uobj : Nat)
  | otherRef (uobj : Nat)
  | otherUnref (uobj : Nat)
deriving DecidableEq, Repr

/-- One action. It is not allowed for a wrapper that does not live, for an object that does not exist, for
a reference that nobody holds, and for a new object at the address of another one. -/
def wrapperStep (action : WrapperAction) (state : UclState) : Option UclState :=
  match action with
  | .constructRef uobj => if 0 < state.counts uobj then some (state.constructRef uobj) else none
  | .constructNoref uobj => if 0 < state.external uobj then some (state.constructNoref uobj) else none
  | .copyConstruct i copy =>
      (state.wrappers.handle? i).bind fun held => state.withCopy held copy state.constructCopy
  | .moveConstruct i => (state.wrappers.handle? i).map fun _ => state.moveConstruct i
  | .copyAssign i j copy =>
      (state.wrappers.handle? i).bind fun _ => (state.wrappers.handle? j).bind fun held =>
        if i = j then some state else state.withCopy held copy (state.assignCopy i)
  | .moveAssign i j =>
      (state.wrappers.handle? i).bind fun _ => (state.wrappers.handle? j).map fun _ => state.moveAssign i j
  | .ref i => (state.wrappers.handle? i).map fun held =>
      match held with
      | none => state
      | some uobj => state.constructRef uobj
  | .swap i j =>
      (state.wrappers.handle? i).bind fun heldByI => (state.wrappers.handle? j).map fun heldByJ =>
        state.swap i j heldByI heldByJ
  | .destroy i => (state.wrappers.handle? i).map fun held => state.destroy i held
  | .otherNew uobj =>
      if state.counts uobj = 0 then
        some { state with
          counts := Function.update state.counts uobj 1
          external := Function.update state.external uobj 1 }
      else none
  | .otherRef uobj =>
      if 0 < state.counts uobj then
        some { state with
          counts := Function.update state.counts uobj (state.counts uobj + 1)
          external := Function.update state.external uobj (state.external uobj + 1) }
      else none
  | .otherUnref uobj =>
      if 0 < state.external uobj then
        some { state with
          counts := Function.update state.counts uobj (state.counts uobj - 1)
          external := Function.update state.external uobj (state.external uobj - 1) }
      else none

/-! ### Counting -/

/-- The references of the wrappers are counted right. -/
structure Counted (state : UclState) : Prop where
  /-- What the wrappers took and did not drop is what the live ones hold. -/
  outstanding : ∀ uobj, state.taken.count uobj = state.dropped.count uobj + state.holders uobj
  /-- The count of an object is the number of the wrappers and of the others that hold it. -/
  counts : ∀ uobj, state.counts uobj = state.external uobj + state.holders uobj

/-- The references are counted right, so that none is left behind. -/
structure Refcounted (state : UclState) : Prop extends Counted state where
  /-- When all wrappers are destroyed, they dropped what they took, and every object that nobody else holds
  has been released. -/
  released : (∀ slot ∈ state.wrappers, slot = none) → ∀ uobj,
    state.taken.count uobj = state.dropped.count uobj ∧
      (state.external uobj = 0 → state.counts uobj = 0)

theorem Counted.refcounted {state : UclState} (counted : Counted state) : Refcounted state where
  toCounted := counted
  released := by
    intro destroyed uobj
    have unowned : state.holders uobj = 0 := by
      apply List.countP_eq_zero.mpr
      intro slot member
      rw [destroyed slot member]
      simp
    have outstanding := counted.outstanding uobj
    have counts := counted.counts uobj
    omega

/-- Nothing is assigned to a wrapper that is in use, except by itself or where the copy throws. -/
def KeepsReference (state : UclState) : WrapperAction → Prop
  | .moveAssign i j => i = j ∨ state.wrappers.handle? i = some none
  | .copyAssign i j copy =>
      i = j ∨ state.wrappers.handle? i = some none ∨ state.wrappers.handle? j = some none ∨ copy = none
  | _ => True

variable {state : UclState}

theorem counted_start : Counted { counts := fun _ => 0, external := fun _ => 0 } where
  outstanding := fun _ => rfl
  counts := fun _ => rfl

/-- A wrapper for an object whose references, taken and counted, both grew by one. -/
theorem Counted.construct (counted : Counted state) {uobj : Nat} {counts external : Nat → Nat}
    (others : ∀ other, other ≠ uobj →
      counts other = state.counts other ∧ external other = state.external other)
    (grown : counts uobj + state.external uobj = state.counts uobj + external uobj + 1) :
    Counted { state with
      counts := counts
      external := external
      wrappers := state.wrappers.construct (some uobj)
      taken := state.taken ++ [uobj] } := by
  have held (other : Nat) : Slots.holding (fun held => decide (held = other))
      (state.wrappers.construct (some uobj)) = state.holders other + if other = uobj then 1 else 0 := by
    rw [Slots.holding_construct, Slots.tally_some]
    simp [UclState.holders, eq_comm]
  constructor
  · intro other
    have outstanding := counted.outstanding other
    simp only [UclState.holders, held, List.count_append, List.count_singleton, beq_iff_eq] at outstanding ⊢
    split_ifs <;> omega
  · intro other
    have total := counted.counts other
    simp only [UclState.holders, held] at total ⊢
    by_cases same : other = uobj
    · subst same
      rw [if_pos rfl]
      omega
    · obtain ⟨sameCount, sameExternal⟩ := others other same
      rw [if_neg same, sameCount, sameExternal]
      exact total

theorem Counted.constructRef (counted : Counted state) (uobj : Nat) : Counted (state.constructRef uobj) := by
  apply counted.construct
  · intro other differs
    exact ⟨Function.update_of_ne differs _ _, rfl⟩
  · rw [Function.update_self]
    omega

theorem Counted.constructNoref (counted : Counted state) {uobj : Nat} (held : 0 < state.external uobj) :
    Counted (state.constructNoref uobj) := by
  apply counted.construct
  · intro other differs
    exact ⟨rfl, Function.update_of_ne differs _ _⟩
  · rw [Function.update_self]
    omega

theorem Counted.constructCopy (counted : Counted state) {copy : Nat} (fresh : state.counts copy = 0) :
    Counted (state.constructCopy copy) := by
  apply counted.construct
  · intro other differs
    exact ⟨Function.update_of_ne differs _ _, rfl⟩
  · have total := counted.counts copy
    rw [Function.update_self]
    omega

/-- A change of the wrappers that hands references on. -/
theorem Counted.wrappers (counted : Counted state) {wrappers : Slots Nat}
    (held : ∀ p : Nat → Bool, wrappers.holding p = state.wrappers.holding p) :
    Counted { state with wrappers := wrappers } where
  outstanding := fun uobj => by
    rw [UclState.holders, held]
    exact counted.outstanding uobj
  counts := fun uobj => by
    rw [UclState.holders, held]
    exact counted.counts uobj

theorem Counted.moveAssign (counted : Counted state) {i j : Nat} {held : Option Nat}
    (source : state.wrappers.handle? j = some held)
    (keeps : i = j ∨ state.wrappers.handle? i = some none) : Counted (state.moveAssign i j) := by
  unfold UclState.moveAssign
  split_ifs with same
  · exact counted
  · rcases keeps with equal | empty
    · exact absurd equal same
    · apply counted.wrappers
      intro p
      simpa using Slots.holding_moveAssign p same empty source

/-- A move assignment to a wrapper in use loses a reference. -/
theorem Counted.not_moveAssign (counted : Counted state) {i j uobj : Nat} {held : Option Nat}
    (different : i ≠ j) (target : state.wrappers.handle? i = some (some uobj))
    (source : state.wrappers.handle? j = some held) : ¬ Counted (state.moveAssign i j) := by
  intro after
  have lost := Slots.holding_moveAssign (fun held => decide (held = uobj)) different target source
  rw [Slots.tally_some, if_pos (decide_eq_true rfl)] at lost
  have outstanding := counted.outstanding uobj
  have still := after.outstanding uobj
  rw [UclState.moveAssign, if_neg different] at still
  unfold UclState.holders at outstanding still
  simp only at still
  omega

/-- Destroying a wrapper without an object changes nothing that is counted. -/
theorem counted_destroy_none {i : Nat} (live : state.wrappers.handle? i = some none) :
    Counted (state.destroy i none) ↔ Counted state := by
  have held (p : Nat → Bool) : (state.wrappers.destroy i).holding p = state.wrappers.holding p := by
    simpa [Slots.destroy] using Slots.holding_set p live none
  constructor
  · intro after
    exact after.wrappers fun p => (held p).symm
  · intro counted
    exact counted.wrappers held

theorem Counted.destroy (counted : Counted state) {i : Nat} {held : Option Nat}
    (live : state.wrappers.handle? i = some held) : Counted (state.destroy i held) := by
  cases held with
  | none => exact (counted_destroy_none live).mpr counted
  | some uobj =>
      have left (other : Nat) : Slots.holding (fun held => decide (held = other)) (state.wrappers.destroy i) +
          (if uobj = other then 1 else 0) = state.holders other := by
        have replaced := Slots.holding_set (fun held => decide (held = other)) live none
        simpa [Slots.tally_some, UclState.holders, Slots.destroy] using replaced
      constructor
      · intro other
        have outstanding := counted.outstanding other
        have rest := left other
        simp only [UclState.destroy, UclState.holders, List.count_append, List.count_singleton,
          beq_iff_eq] at outstanding rest ⊢
        omega
      · intro other
        have total := counted.counts other
        have rest := left other
        simp only [UclState.destroy]
        by_cases same : other = uobj
        · subst same
          rw [if_pos rfl] at rest
          rw [Function.update_self]
          simp only [UclState.holders] at total rest ⊢
          omega
        · rw [if_neg (Ne.symm same)] at rest
          rw [Function.update_of_ne same]
          simp only [UclState.holders] at total rest ⊢
          omega

theorem Counted.swap (counted : Counted state) {i j : Nat} {heldByI heldByJ : Option Nat}
    (first : state.wrappers.handle? i = some heldByI) (second : state.wrappers.handle? j = some heldByJ) :
    Counted (state.swap i j heldByI heldByJ) := by
  apply counted.wrappers
  intro p
  have replaced := Slots.holding_set p first (some heldByJ)
  by_cases same : i = j
  · subst same
    have equal : heldByI = heldByJ := Option.some.inj (first.symm.trans second)
    subst equal
    have again := Slots.holding_set p
      ((Slots.handle?_assign first heldByI i).trans (if_pos rfl)) (some heldByI)
    simp only [Slots.assign, Option.join_some] at replaced again ⊢
    omega
  · have still := (Slots.handle?_assign first heldByJ j).trans (if_neg (Ne.symm same))
    have again := Slots.holding_set p (still.trans second) (some heldByI)
    simp only [Slots.assign, Option.join_some] at replaced again ⊢
    omega

/-! ### The copy assignment -/

/-- The temporary of a copy assignment holds the copy. -/
theorem handle?_temporary (copy : Nat) :
    (state.constructCopy copy).wrappers.handle? state.wrappers.length = some (some copy) :=
  (Slots.handle?_construct _ _ _).trans (if_pos rfl)

/-- Every other wrapper holds what it did when the temporary is there. -/
theorem handle?_constructCopy {i : Nat} {held : Option Nat} (live : state.wrappers.handle? i = some held)
    (copy : Nat) : i ≠ state.wrappers.length ∧
      (state.constructCopy copy).wrappers.handle? i = some held := by
  have differs : i ≠ state.wrappers.length := Nat.ne_of_lt (Slots.lt_length_of_handle? live)
  exact ⟨differs, (Slots.handle?_construct _ _ _).trans ((if_neg differs).trans live)⟩

/-- The references after a copy assignment are right exactly if they are after the move from the
temporary, which is destroyed empty. -/
theorem counted_assignCopy {i copy : Nat} {held : Option Nat} (live : state.wrappers.handle? i = some held) :
    Counted (state.assignCopy i copy) ↔
      Counted ((state.constructCopy copy).moveAssign i state.wrappers.length) := by
  obtain ⟨differs, still⟩ := handle?_constructCopy live copy
  apply counted_destroy_none
  have source : (state.constructCopy copy).wrappers.handle? state.wrappers.length = some (some copy) :=
    handle?_temporary copy
  rw [UclState.moveAssign, if_neg differs]
  have target : ((state.constructCopy copy).wrappers.assign state.wrappers.length none).handle? i =
      some held :=
    (Slots.handle?_assign source none i).trans ((if_neg differs).trans still)
  simp only [Slots.moveAssign]
  rw [Slots.handle?_assign target, if_neg (Ne.symm differs), Slots.handle?_assign source, if_pos rfl]

/-! ### Steps and runs -/

theorem withCopy_cases {held copy : Option Nat} {next : Nat → UclState} {after : UclState}
    (done : state.withCopy held copy next = some after) :
    after = state ∧ (held = none ∨ copy = none) ∨
      ∃ uobj address, held = some uobj ∧ copy = some address ∧ state.counts address = 0 ∧
        after = next address := by
  cases held with
  | none =>
      cases done
      exact Or.inl ⟨rfl, Or.inl rfl⟩
  | some uobj =>
      cases copy with
      | none =>
          cases done
          exact Or.inl ⟨rfl, Or.inr rfl⟩
      | some address =>
          rw [UclState.withCopy] at done
          split_ifs at done with fresh
          cases done
          exact Or.inr ⟨uobj, address, rfl, rfl, fresh, rfl⟩

/-- A copy assignment to an empty wrapper. -/
theorem Counted.assignCopy (counted : Counted state) {i copy : Nat}
    (target : state.wrappers.handle? i = some none) (fresh : state.counts copy = 0) :
    Counted (state.assignCopy i copy) := by
  apply (counted_assignCopy target).mpr
  apply (counted.constructCopy fresh).moveAssign (handle?_temporary copy)
  exact Or.inr (handle?_constructCopy target copy).2

/-- A copy assignment to a wrapper in use loses a reference. -/
theorem Counted.not_assignCopy (counted : Counted state) {i copy uobj : Nat}
    (target : state.wrappers.handle? i = some (some uobj)) (fresh : state.counts copy = 0) :
    ¬ Counted (state.assignCopy i copy) := by
  obtain ⟨differs, still⟩ := handle?_constructCopy target copy
  rw [counted_assignCopy target]
  exact (counted.constructCopy fresh).not_moveAssign differs still (handle?_temporary copy)

/-- A change of the counts at one object that others make. -/
theorem Counted.other (counted : Counted state) {uobj count external : Nat}
    (balanced : count + state.external uobj = state.counts uobj + external) :
    Counted { state with
      counts := Function.update state.counts uobj count
      external := Function.update state.external uobj external } where
  outstanding := counted.outstanding
  counts := by
    intro other
    have total := counted.counts other
    by_cases same : other = uobj
    · subst same
      simp only [Function.update_self, UclState.holders] at total ⊢
      omega
    · simp only [Function.update_of_ne same, UclState.holders] at total ⊢
      exact total

/-- Every action that assigns to no wrapper in use keeps the references counted right. -/
theorem Counted.step (counted : Counted state) {action : WrapperAction} {after : UclState}
    (keeps : KeepsReference state action) (taken : wrapperStep action state = some after) :
    Counted after := by
  cases action with
  | constructRef uobj =>
      rw [wrapperStep] at taken
      split_ifs at taken
      cases taken
      exact counted.constructRef uobj
  | constructNoref uobj =>
      rw [wrapperStep] at taken
      split_ifs at taken with held
      cases taken
      exact counted.constructNoref held
  | copyConstruct i copy =>
      obtain ⟨held, live, done⟩ := Option.bind_eq_some_iff.mp taken
      rcases withCopy_cases done with ⟨rfl, -⟩ | ⟨uobj, address, -, -, fresh, rfl⟩
      · exact counted
      · exact counted.constructCopy fresh
  | moveConstruct i =>
      obtain ⟨held, live, rfl⟩ := Option.map_eq_some_iff.mp taken
      exact counted.wrappers fun p => Slots.holding_moveConstruct p live
  | copyAssign i j copy =>
      obtain ⟨old, target, rest⟩ := Option.bind_eq_some_iff.mp taken
      obtain ⟨held, source, done⟩ := Option.bind_eq_some_iff.mp rest
      split_ifs at done with same
      · cases done
        exact counted
      · rcases withCopy_cases done with ⟨rfl, -⟩ | ⟨uobj, address, rfl, rfl, fresh, rfl⟩
        · exact counted
        · have empty : state.wrappers.handle? i = some none := by
            simpa [KeepsReference, same, source] using keeps
          exact counted.assignCopy empty fresh
  | moveAssign i j =>
      obtain ⟨old, target, rest⟩ := Option.bind_eq_some_iff.mp taken
      obtain ⟨held, source, rfl⟩ := Option.map_eq_some_iff.mp rest
      exact counted.moveAssign source keeps
  | ref i =>
      obtain ⟨held, live, rfl⟩ := Option.map_eq_some_iff.mp taken
      cases held with
      | none => exact counted
      | some uobj => exact counted.constructRef uobj
  | swap i j =>
      obtain ⟨heldByI, first, rest⟩ := Option.bind_eq_some_iff.mp taken
      obtain ⟨heldByJ, second, rfl⟩ := Option.map_eq_some_iff.mp rest
      exact counted.swap first second
  | destroy i =>
      obtain ⟨held, live, rfl⟩ := Option.map_eq_some_iff.mp taken
      exact counted.destroy live
  | otherNew uobj =>
      rw [wrapperStep] at taken
      split_ifs at taken with fresh
      cases taken
      have total := counted.counts uobj
      exact counted.other (by omega)
  | otherRef uobj =>
      rw [wrapperStep] at taken
      split_ifs at taken
      cases taken
      exact counted.other (by omega)
  | otherUnref uobj =>
      rw [wrapperStep] at taken
      split_ifs at taken with held
      cases taken
      have total := counted.counts uobj
      exact counted.other (by omega)

/-- An assignment to a wrapper in use loses the reference to what the wrapper held. -/
theorem Counted.overwrite (counted : Counted state) {action : WrapperAction} {after : UclState}
    (overwrites : ¬ KeepsReference state action) (taken : wrapperStep action state = some after) :
    ¬ Counted after := by
  cases action with
  | moveAssign i j =>
      obtain ⟨old, target, rest⟩ := Option.bind_eq_some_iff.mp taken
      obtain ⟨held, source, rfl⟩ := Option.map_eq_some_iff.mp rest
      obtain ⟨different, holds⟩ := not_or.mp overwrites
      cases old with
      | none => exact absurd target holds
      | some uobj => exact counted.not_moveAssign different target source
  | copyAssign i j copy =>
      obtain ⟨old, target, rest⟩ := Option.bind_eq_some_iff.mp taken
      obtain ⟨held, source, done⟩ := Option.bind_eq_some_iff.mp rest
      obtain ⟨different, holds, hasSource, copied⟩ : i ≠ j ∧ state.wrappers.handle? i ≠ some none ∧
          state.wrappers.handle? j ≠ some none ∧ copy ≠ none := by
        simpa [KeepsReference, not_or] using overwrites
      rw [if_neg different] at done
      rcases withCopy_cases done with ⟨-, rfl | rfl⟩ | ⟨uobj, address, -, -, fresh, rfl⟩
      · exact absurd source hasSource
      · exact absurd rfl copied
      · cases old with
        | none => exact absurd target holds
        | some kept => exact counted.not_assignCopy target fresh
  | _ => exact absurd trivial overwrites

/-- The references are counted right in every state of a run exactly if no step of the run assigns to a
wrapper that holds an object. -/
theorem wrapper_counted_iff (actions : List WrapperAction) :
    EveryState wrapperStep Refcounted actions { counts := fun _ => 0, external := fun _ => 0 } ↔
      EveryStep wrapperStep KeepsReference actions { counts := fun _ => 0, external := fun _ => 0 } :=
  everyState_iff (fun _ counted => counted.refcounted)
    (fun _ _ _ counted keeps taken => counted.step keeps taken)
    (fun _ _ _ counted overwrites taken after => counted.overwrite overwrites taken after.toCounted)
    counted_start actions

/-- Two objects are wrapped, the second wrapper is moved to the first, and both are destroyed. -/
private def assignedInUse : List WrapperAction :=
  [.otherNew 0, .otherNew 1, .constructNoref 0, .constructNoref 1, .moveAssign 0 1, .destroy 0, .destroy 1]

/-- The first object is never released. -/
theorem wrapper_counted_fails :
    ∃ final, run wrapperStep assignedInUse { counts := fun _ => 0, external := fun _ => 0 } = some final ∧
      final.wrappers = [none, none] ∧ final.external 0 = 0 ∧ final.counts 0 = 1 ∧
      final.taken = [0, 1] ∧ final.dropped = [1] ∧
      ¬ EveryState wrapperStep Refcounted assignedInUse { counts := fun _ => 0, external := fun _ => 0 } := by
  refine ⟨_, rfl, rfl, rfl, rfl, rfl, rfl, fun every => ?_⟩
  have outstanding := (every.last rfl).outstanding 0
  exact absurd outstanding (by decide)

end Nihil.Ucl

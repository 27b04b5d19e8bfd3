/-
Module: Nihil.Ucl.ArrayIteratorBounds
Layer: Ucl
Purpose: Where the iterators of an array can get. Each of `+=` and `-=` checks the end it is meant to move
  towards, and a negative offset moves towards the other one. All iterators stay within their arrays, and
  every operator that would leave the array throws, in exactly the runs in which no offset leads past the
  end that its operator does not check (`array_iterator_bounded_iff`).
Imports: Nihil.Ucl.ArrayIterator, Nihil.Library.Run
Trusted boundary: that of `ArrayIterator`
Main exports: Move, Bounded, Hardened, IteratorState, iteratorStep, array_iterator_bounded_iff
-/
import Nihil.Library.Run
import Nihil.Ucl.ArrayIterator

namespace Nihil.Ucl

open Nihil.Library

/-! ### Moving an iterator -/

/-- The operators that move an iterator, or yield one that is moved. -/
inductive Move where
  | increment
  | postIncrement
  | decrement
  | postDecrement
  | addAssign (n : Difference)
  | subAssign (n : Difference)
  | plus (n : Difference)
  | minus (n : Difference)

namespace Move

/-- How far an operator is to move. -/
def offset : Move → Int
  | .increment | .postIncrement => 1
  | .decrement | .postDecrement => -1
  | .addAssign n | .plus n => n.val
  | .subAssign n | .minus n => -n.val

/-- The operand as an operator leaves it, and the iterator that the operator yields. -/
def apply (arrays : Arrays) (it : ArrayIterator) : Move → ArrayIterator × Except Exception ArrayIterator
  | .increment => let changed := it.increment arrays; (changed.1, ArrayIterator.ofCopy changed)
  | .postIncrement => let changed := it.increment arrays; (changed.1, changed.2.map fun () => it)
  | .decrement => let changed := it.decrement; (changed.1, ArrayIterator.ofCopy changed)
  | .postDecrement => let changed := it.decrement; (changed.1, changed.2.map fun () => it)
  | .addAssign n => let changed := it.addAssign arrays n; (changed.1, ArrayIterator.ofCopy changed)
  | .subAssign n => let changed := it.subAssign n; (changed.1, ArrayIterator.ofCopy changed)
  | .plus n => (it, it.plus arrays n)
  | .minus n => (it, it.minus n)

/-- The operand and the result of an operator when one of them is the moved iterator: the postfix operators
yield the operand as it was, and `+` and `-` do not change it. -/
def placed (it moved : ArrayIterator) : Move → ArrayIterator × Except Exception ArrayIterator
  | .postIncrement | .postDecrement => (moved, .ok it)
  | .plus _ | .minus _ => (it, .ok moved)
  | _ => (moved, .ok moved)

end Move

/-- An operator moves to the index it is to move to if that is in the array or its end. Otherwise it throws
a std::logic_error and leaves its operand as it is. -/
structure Hardened (arrays : Arrays) (it : ArrayIterator) (move : Move) : Prop where
  moves : ∀ address (idx : Size), it.array = some address → idx.val = it.idx.val + move.offset →
    idx.val ≤ (arrays address).size.val → move.apply arrays it = move.placed it { it with idx := idx }
  throws : ∀ address, it.array = some address →
    it.idx.val + move.offset < 0 ∨ (arrays address).size.val < it.idx.val + move.offset →
    ∃ what, move.apply arrays it = (it, .error (.logicError what))

/-- The offset does not lead past the end that the operator does not check. -/
def Move.Guarded (arrays : Arrays) (it : ArrayIterator) : Move → Prop
  | .addAssign n | .plus n => 0 ≤ it.idx.val + n.val
  | .subAssign n | .minus n =>
      ∀ address, it.array = some address → it.idx.val - n.val ≤ (arrays address).size.val
  | _ => True

/-! ### One move -/

namespace Move

/-- What an operator does to its operand, or to the copy that it yields. -/
def change (arrays : Arrays) (it : ArrayIterator) : Move → ArrayIterator × Except Exception Unit
  | .increment | .postIncrement => it.increment arrays
  | .decrement | .postDecrement => it.decrement
  | .addAssign n | .plus n => it.addAssign arrays n
  | .subAssign n | .minus n => it.subAssign n

/-- An operator throws if the index would be past the end that it checks. -/
def Stopped (size : Size) (it : ArrayIterator) (move : Move) : Prop :=
  match move with
  | .increment | .postIncrement | .addAssign _ | .plus _ => size.val < it.idx.val + move.offset
  | .decrement | .postDecrement | .subAssign _ | .minus _ => it.idx.val + move.offset < 0

variable {arrays : Arrays} {it moved : ArrayIterator} {address : Nat} {move : Move}

theorem apply_of_moved (changed : move.change arrays it = (moved, .ok ())) :
    move.apply arrays it = move.placed it moved := by
  cases move <;> simp only [change] at changed <;>
    simp [apply, placed, ArrayIterator.ofCopy, ArrayIterator.plus, ArrayIterator.minus, changed, Except.map]

theorem apply_of_thrown {thrown : Exception} (changed : move.change arrays it = (it, .error thrown)) :
    move.apply arrays it = (it, .error thrown) := by
  cases move <;> simp only [change] at changed <;>
    simp [apply, ArrayIterator.ofCopy, ArrayIterator.plus, ArrayIterator.minus, changed, Except.map]

/-- What is yielded by an operator that does not throw is an iterator. -/
theorem placed_ok (it moved : ArrayIterator) (move : Move) : ∃ yielded, (move.placed it moved).2 = .ok yielded := by
  cases move <;> exact ⟨_, rfl⟩

/-- Within the array every operator checks one end of it. -/
theorem change_of_stopped (within : it.Within arrays address) (stopped : move.Stopped (arrays address).size it) :
    ∃ what, move.change arrays it = (it, .error (.logicError what)) := by
  have nonneg : 0 ≤ it.idx.val := it.idx.property.1
  cases move with
  | increment | postIncrement =>
      have past : (arrays address).size.val < it.idx.val + 1 := stopped
      rw [change, ArrayIterator.increment_eq within, if_pos past]
      exact ⟨_, rfl⟩
  | addAssign n | plus n =>
      have past : (arrays address).size.val < it.idx.val + n.val := stopped
      rw [change, ArrayIterator.addAssign_eq within, if_pos past]
      exact ⟨_, rfl⟩
  | decrement | postDecrement =>
      have before : it.idx.val + -1 < 0 := stopped
      rw [change, ArrayIterator.decrement, if_pos (by omega)]
      exact ⟨_, rfl⟩
  | subAssign n | minus n =>
      have before : it.idx.val + -n.val < 0 := stopped
      rw [change, ArrayIterator.subAssign, if_pos (by omega)]
      exact ⟨_, rfl⟩

/-- An operator that does not throw moves the index, which wraps at the end that was not checked. -/
theorem change_of_not_stopped (within : it.Within arrays address)
    (moves : ¬ move.Stopped (arrays address).size it) :
    move.change arrays it =
      ({ it with idx := IntegerType.uintmax.convert (it.idx.val + move.offset) }, .ok ()) := by
  cases move with
  | increment | postIncrement =>
      have inside : ¬ (arrays address).size.val < it.idx.val + 1 := moves
      rw [change, ArrayIterator.increment_eq within, if_neg inside]
      rfl
  | addAssign n | plus n =>
      have inside : ¬ (arrays address).size.val < it.idx.val + n.val := moves
      rw [change, ArrayIterator.addAssign_eq within, if_neg inside]
      rfl
  | decrement | postDecrement =>
      have inside : ¬ it.idx.val + -1 < 0 := moves
      rw [change, ArrayIterator.decrement, if_neg (by omega)]
      rfl
  | subAssign n | minus n =>
      have inside : ¬ it.idx.val + -n.val < 0 := moves
      rw [change, ArrayIterator.subAssign, if_neg (by omega)]
      rfl

/-- An operator whose index would be outside the array throws, exactly if it is not past the end that the
operator does not check. -/
theorem guarded_iff (within : it.Within arrays address) :
    move.Guarded arrays it ↔
      (it.idx.val + move.offset < 0 ∨ (arrays address).size.val < it.idx.val + move.offset →
        move.Stopped (arrays address).size it) := by
  have le := within.le_size
  have nonneg : 0 ≤ it.idx.val := it.idx.property.1
  cases move <;>
    simp only [Guarded, Stopped, offset, within.ofArray, Option.some.injEq, forall_eq', true_iff] <;> omega

/-- Within the array an operator is hardened if and only if it is guarded. -/
theorem hardened_iff (within : it.Within arrays address) :
    Hardened arrays it move ↔ move.Guarded arrays it := by
  have le := within.le_size
  have nonneg : 0 ≤ it.idx.val := it.idx.property.1
  rw [guarded_iff within]
  constructor
  · intro hardened outside
    by_contra moves
    obtain ⟨what, thrown⟩ := hardened.throws address within.ofArray outside
    obtain ⟨yielded, ok⟩ := placed_ok it { it with idx := IntegerType.uintmax.convert (it.idx.val + move.offset) } move
    rw [apply_of_moved (change_of_not_stopped within moves)] at thrown
    rw [thrown] at ok
    contradiction
  · intro guarded
    constructor
    · intro other idx ofArray target le'
      have same : other = address := Option.some.inj (ofArray.symm.trans within.ofArray)
      subst same
      have inside : 0 ≤ idx.val := idx.property.1
      have moves : ¬ move.Stopped (arrays other).size it := by
        cases move <;> simp only [Stopped, offset] at target ⊢ <;> omega
      apply apply_of_moved
      rw [change_of_not_stopped within moves, ArrayIterator.moveTo_eq target]
    · intro other ofArray outside
      have same : other = address := Option.some.inj (ofArray.symm.trans within.ofArray)
      subst same
      obtain ⟨what, thrown⟩ := change_of_stopped within (guarded outside)
      exact ⟨what, apply_of_thrown thrown⟩

end Move

/-! ### Runs -/

/-- The arrays and the iterators that were obtained so far. -/
structure IteratorState where
  arrays : Arrays
  iterators : List ArrayIterator := []

/-- What a program can do with arrays and iterators. An array is given by its address, an iterator by its
place among those obtained. -/
inductive IteratorAction where
  | begin' (address : Nat)
  | end' (address : Nat)
  | move (i : Nat) (move : Move)
  | pushBack (address : Nat) (v : UclObject)
  | pushFront (address : Nat) (v : UclObject)

/-- The iterator that an operator yields, if it does not throw. -/
def yielded : Except Exception ArrayIterator → List ArrayIterator
  | .ok it => [it]
  | .error _ => []

/-- One action of a program. -/
def iteratorStep : IteratorAction → IteratorState → Option IteratorState
  | .begin' address, state => some { state with iterators := state.iterators ++ [begin' address] }
  | .end' address, state => some { state with iterators := state.iterators ++ [end' state.arrays address] }
  | .move i move, state =>
      state.iterators[i]?.map fun it =>
        let applied := move.apply state.arrays it
        { state with iterators := state.iterators.set i applied.1 ++ yielded applied.2 }
  | .pushBack address v, state =>
      some { state with arrays := Function.update state.arrays address ((state.arrays address).pushBack v) }
  | .pushFront address v, state =>
      some { state with arrays := Function.update state.arrays address ((state.arrays address).pushFront v) }

/-- Every iterator is a position in its array or the end of it. -/
def Bounded (state : IteratorState) : Prop :=
  ∀ it ∈ state.iterators, ∃ address, it.Within state.arrays address

/-- Every operator of the step is hardened. -/
def HardenedStep (state : IteratorState) : IteratorAction → Prop
  | .move i move => ∀ it, state.iterators[i]? = some it → Hardened state.arrays it move
  | _ => True

/-- No operator of the step leads past the end that it does not check. -/
def GuardedStep (state : IteratorState) : IteratorAction → Prop
  | .move i move => ∀ it, state.iterators[i]? = some it → move.Guarded state.arrays it
  | _ => True

/-! ### What a step preserves -/

/-- An operator that is hardened leaves its operand within the array and yields an iterator within it. -/
theorem Hardened.within {arrays : Arrays} {it : ArrayIterator} {address : Nat} {move : Move}
    (hardened : Hardened arrays it move) (within : it.Within arrays address) :
    (move.apply arrays it).1.Within arrays address ∧
      ∀ it' ∈ yielded (move.apply arrays it).2, it'.Within arrays address := by
  by_cases outside : it.idx.val + move.offset < 0 ∨ (arrays address).size.val < it.idx.val + move.offset
  · obtain ⟨what, thrown⟩ := hardened.throws address within.ofArray outside
    rw [thrown]
    exact ⟨within, by simp [yielded]⟩
  · have upper := (arrays address).size.property.2
    have smallest : IntegerType.uintmax.min = 0 := rfl
    have inRange : IntegerType.uintmax.min ≤ it.idx.val + move.offset ∧
        it.idx.val + move.offset ≤ IntegerType.uintmax.max := by omega
    have moved : ArrayIterator.Within arrays { it with idx := ⟨_, inRange⟩ } address :=
      ⟨within.ofArray, by simp only; omega⟩
    rw [hardened.moves address ⟨_, inRange⟩ within.ofArray rfl (by simp only; omega)]
    cases move <;> simp [Move.placed, yielded, moved, within]

/-- An iterator stays within its array when an array does not get smaller. -/
theorem ArrayIterator.Within.update {arrays : Arrays} {it : ArrayIterator} {address : Nat}
    (within : it.Within arrays address) {changed : Nat} {arr : UclArray}
    (grows : (arrays changed).size.val ≤ arr.size.val) :
    it.Within (Function.update arrays changed arr) address := by
  refine ⟨within.ofArray, ?_⟩
  have le := within.le_size
  by_cases same : address = changed
  · subst same
    rw [Function.update_self]
    exact Int.le_trans le grows
  · rw [Function.update_of_ne same]
    exact le

/-- A new iterator that is within an array. -/
theorem Bounded.append {state : IteratorState} (bounded : Bounded state) {it : ArrayIterator} {address : Nat}
    (within : it.Within state.arrays address) : Bounded { state with iterators := state.iterators ++ [it] } := by
  intro other member
  rcases List.mem_append.mp member with old | new
  · exact bounded other old
  · cases List.mem_singleton.mp new
    exact ⟨address, within⟩

/-- An array that does not get smaller. -/
theorem Bounded.update {state : IteratorState} (bounded : Bounded state) {changed : Nat} {arr : UclArray}
    (grows : (state.arrays changed).size.val ≤ arr.size.val) :
    Bounded { state with arrays := Function.update state.arrays changed arr } := by
  intro it member
  obtain ⟨address, within⟩ := bounded it member
  exact ⟨address, within.update grows⟩

/-- A guarded step keeps all iterators within their arrays. -/
theorem bounded_step (state : IteratorState) (action : IteratorAction) (after : IteratorState)
    (bounded : Bounded state) (guarded : GuardedStep state action)
    (taken : iteratorStep action state = some after) : Bounded after := by
  cases action with
  | begin' address =>
      cases taken
      exact bounded.append ⟨rfl, (state.arrays address).size.property.1⟩
  | end' address =>
      cases taken
      exact bounded.append ⟨rfl, Int.le_refl _⟩
  | move i move =>
      obtain ⟨operand, found, rfl⟩ := Option.map_eq_some_iff.mp taken
      obtain ⟨address, within⟩ := bounded operand (List.mem_of_getElem? found)
      have hardened := (Move.hardened_iff within).mpr (guarded operand found)
      obtain ⟨left, yields⟩ := hardened.within within
      intro it member
      rcases List.mem_append.mp member with old | new
      · rcases List.mem_or_eq_of_mem_set old with kept | rfl
        · exact bounded it kept
        · exact ⟨address, left⟩
      · exact ⟨address, yields it new⟩
  | pushBack address v =>
      cases taken
      exact bounded.update (UclArray.size_le_withElements (by simp))
  | pushFront address v =>
      cases taken
      exact bounded.update (UclArray.size_le_withElements (by simp))

theorem guardedStep_iff (state : IteratorState) (action : IteratorAction) (bounded : Bounded state) :
    GuardedStep state action ↔ HardenedStep state action := by
  cases action with
  | move i move =>
      apply forall_congr'
      intro it
      apply imp_congr_right
      intro found
      obtain ⟨address, within⟩ := bounded it (List.mem_of_getElem? found)
      exact (Move.hardened_iff within).symm
  | begin' | end' | pushBack | pushFront => exact Iff.rfl

/-- For all arrays and every run on them, all iterators stay within their arrays and every operator is
hardened if and only if no operator of the run leads past the end that it does not check. -/
theorem array_iterator_bounded_iff (arrays : Arrays) (actions : List IteratorAction) :
    EveryState iteratorStep Bounded actions { arrays := arrays } ∧
        EveryStep iteratorStep HardenedStep actions { arrays := arrays } ↔
      EveryStep iteratorStep GuardedStep actions { arrays := arrays } := by
  have start : Bounded { arrays := arrays } := fun it member => by contradiction
  rw [← everyStep_congr bounded_step guardedStep_iff start actions]
  exact and_iff_right_of_imp (everyState_of_everyStep bounded_step start)

/-- An array of one integer. -/
private def oneElement : UclArray := ⟨[.integer (IntegerType.intmax.convert 42)], by decide⟩

/-- `it += -1` at the beginning of an array does not throw: it leaves the largest index there is. -/
theorem array_iterator_bounded_fails :
    ¬ (EveryState iteratorStep Bounded [.begin' 0, .move 0 (.addAssign ⟨-1, by decide⟩)]
          { arrays := fun _ => oneElement } ∧
        EveryStep iteratorStep HardenedStep [.begin' 0, .move 0 (.addAssign ⟨-1, by decide⟩)]
          { arrays := fun _ => oneElement }) := by
  rintro ⟨bounded, -⟩
  obtain ⟨address, within⟩ :=
    bounded.last rfl { array := some 0, idx := ⟨2 ^ 64 - 1, by decide⟩ } (by decide)
  have le : (2 ^ 64 - 1 : Int) ≤ oneElement.size.val := within.le_size
  exact absurd le (by decide)

end Nihil.Ucl

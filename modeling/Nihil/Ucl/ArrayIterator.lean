/-
Module: Nihil.Ucl.ArrayIterator
Layer: Ucl
Purpose: array_iterator: the operators as the source has them, each in its own right, with the bound checks
  that some of them make. An index is a std::size_t and an offset a std::ptrdiff_t, and their sums wrap.
  An operator that changes its operand returns the operand as it leaves it, also when it throws.
Imports: Nihil.Ucl.ObjectCast
Trusted boundary: ucl_array_size counts the elements of an array; std::size_t and std::ptrdiff_t have 64 bits.
Main exports: UclArray, Arrays, ArrayIterator, increment, decrement, addAssign, subAssign, plus, plusFlipped,
  minus, difference, subscript, addAssign_eq, plus_eq, minus_eq
-/
import Nihil.Ucl.ObjectCast

namespace Nihil.Ucl

/-- std::size_t. -/
abbrev Size := IntegerType.uintmax.Value

/-- std::ptrdiff_t. -/
abbrev Difference := IntegerType.intmax.Value

/-! ### Arrays -/

/-- `array<T>`: the elements of a UCL array, of which there are not more than a difference can count. -/
structure UclArray where
  elements : List UclObject
  fits : elements.length < 2 ^ 63

namespace UclArray

theorem size_inRange (self : UclArray) :
    IntegerType.uintmax.min ≤ self.elements.length ∧ (self.elements.length : Int) ≤ IntegerType.uintmax.max := by
  have fits := self.fits
  have smallest : IntegerType.uintmax.min = 0 := rfl
  have largest : IntegerType.uintmax.max = 2 ^ 64 - 1 := rfl
  omega

/-- `array::size`. -/
def size (self : UclArray) : Size := ⟨self.elements.length, self.size_inRange⟩

/-- `array::at`. -/
def at' (self : UclArray) (valueType : DataType) (idx : Size) : Except Exception UclObject :=
  arrayAt valueType (.array self.elements) idx.val.toNat

/-- The array with other elements. What does not fit is not added. -/
def withElements (self : UclArray) (elements : List UclObject) : UclArray :=
  if fits : elements.length < 2 ^ 63 then ⟨elements, fits⟩ else self

/-- `array::push_back`. -/
def pushBack (self : UclArray) (v : UclObject) : UclArray := self.withElements (self.elements ++ [v])

/-- `array::push_front`. -/
def pushFront (self : UclArray) (v : UclObject) : UclArray := self.withElements (v :: self.elements)

/-- No push makes an array smaller. -/
theorem size_le_withElements {self : UclArray} {elements : List UclObject}
    (le : self.elements.length ≤ elements.length) : self.size.val ≤ (self.withElements elements).size.val := by
  unfold withElements size
  split_ifs
  · exact Int.ofNat_le.mpr le
  · exact Int.le_refl _

end UclArray

/-- The arrays there are, by the addresses of their ucl_object_t. -/
abbrev Arrays := Nat → UclArray

/-! ### The iterator -/

/-- `array_iterator<T>`. -/
structure ArrayIterator where
  array : Option Nat := none
  idx : Size := default
deriving DecidableEq

/-- `array::begin`, of the array at an address. -/
def begin' (address : Nat) : ArrayIterator := { array := some address }

/-- `array::end`. -/
def end' (arrays : Arrays) (address : Nat) : ArrayIterator :=
  { array := some address, idx := (arrays address).size }

/-- A std::logic_error of the iterator. -/
def iteratorError (what : String) : Exception :=
  .logicError ("nihil::ucl::array_iterator: ".toList ++ what.toList)

namespace ArrayIterator

variable (arrays : Arrays)

/-- `get_array`. -/
def getArray (self : ArrayIterator) : Except Exception Nat :=
  match self.array with
  | none => .error (iteratorError "attempt to access an empty iterator")
  | some address => .ok address

/-- `operator*`. -/
def deref (valueType : DataType) (self : ArrayIterator) : Except Exception UclObject := do
  let address ← self.getArray
  arrayDeref valueType (.array (arrays address).elements) self.idx.val.toNat

/-- `operator++`. -/
def increment (self : ArrayIterator) : ArrayIterator × Except Exception Unit :=
  match self.getArray with
  | .error thrown => (self, .error thrown)
  | .ok address =>
      if self.idx = (arrays address).size then (self, .error (iteratorError "iterating past end of array"))
      else ({ self with idx := IntegerType.uintmax.convert (self.idx.val + 1) }, .ok ())

/-- `operator--`. -/
def decrement (self : ArrayIterator) : ArrayIterator × Except Exception Unit :=
  if self.idx.val = 0 then (self, .error (iteratorError "iterating before start of array"))
  else ({ self with idx := IntegerType.uintmax.convert (self.idx.val - 1) }, .ok ())

/-- `operator+=`. -/
def addAssign (lhs : ArrayIterator) (rhs : Difference) : ArrayIterator × Except Exception Unit :=
  match lhs.getArray with
  | .error thrown => (lhs, .error thrown)
  | .ok address =>
      let maxInc := IntegerType.uintmax.convert ((arrays address).size.val - lhs.idx.val)
      if rhs.val > maxInc.val then (lhs, .error (iteratorError "iterating past end of array"))
      else ({ lhs with idx := IntegerType.uintmax.convert (lhs.idx.val + rhs.val) }, .ok ())

/-- `operator-=`. -/
def subAssign (lhs : ArrayIterator) (rhs : Difference) : ArrayIterator × Except Exception Unit :=
  if rhs.val > lhs.idx.val then (lhs, .error (iteratorError "iterating before start of array"))
  else ({ lhs with idx := IntegerType.uintmax.convert (lhs.idx.val - rhs.val) }, .ok ())

/-- A copy of the operand, after an operator changed it. -/
def ofCopy (changed : ArrayIterator × Except Exception Unit) : Except Exception ArrayIterator :=
  changed.2.map fun () => changed.1

/-- `it + n`. -/
def plus (lhs : ArrayIterator) (rhs : Difference) : Except Exception ArrayIterator :=
  ofCopy (lhs.addAssign arrays rhs)

/-- `it - n`. -/
def minus (lhs : ArrayIterator) (rhs : Difference) : Except Exception ArrayIterator :=
  ofCopy (lhs.subAssign rhs)

/-- `n + it`. -/
def plusFlipped (lhs : Difference) (rhs : ArrayIterator) : Except Exception ArrayIterator :=
  rhs.minus lhs

/-- `operator[]`. -/
def subscript (valueType : DataType) (self : ArrayIterator) (idx : Difference) : Except Exception UclObject := do
  let it ← self.plus arrays idx
  it.deref arrays valueType

/-- The array of two iterators, unless they are of different arrays. -/
def sameArray (lhs rhs : ArrayIterator) : Except Exception Unit := do
  let left ← lhs.getArray
  let right ← rhs.getArray
  if left ≠ right then .error (iteratorError "comparing iterators of different arrays") else .ok ()

/-- The difference of two iterators. -/
def difference (lhs rhs : ArrayIterator) : Except Exception Difference := do
  lhs.sameArray rhs
  .ok (IntegerType.intmax.convert (IntegerType.uintmax.convert (lhs.idx.val - rhs.idx.val)).val)

/-- `operator==`. Empty iterators compare equal. -/
def equal (lhs rhs : ArrayIterator) : Except Exception Bool :=
  if lhs.array = none ∧ rhs.array = none then .ok true
  else do
    lhs.sameArray rhs
    .ok (decide (lhs.idx = rhs.idx))

/-- `operator<=>`. -/
def spaceship (lhs rhs : ArrayIterator) : Except Exception Ordering :=
  if lhs.array = none ∧ rhs.array = none then .ok .eq
  else do
    lhs.sameArray rhs
    .ok (compare lhs.idx.val rhs.idx.val)

/-- `lhs < rhs`. -/
def less (lhs rhs : ArrayIterator) : Except Exception Bool := (lhs.spaceship rhs).map Ordering.isLT

/-- `lhs > rhs`. -/
def greater (lhs rhs : ArrayIterator) : Except Exception Bool := (lhs.spaceship rhs).map Ordering.isGT

/-! ### An iterator within its array -/

/-- A position in the array at an address, or its end. -/
structure Within (it : ArrayIterator) (address : Nat) : Prop where
  ofArray : it.array = some address
  le_size : it.idx.val ≤ (arrays address).size.val

variable {arrays} {it : ArrayIterator} {address : Nat}

/-- The index is moved to a number that is a size. -/
theorem moveTo_eq {it : ArrayIterator} {value : Int} {idx : Size} (same : idx.val = value) :
    ({ it with idx := IntegerType.uintmax.convert value } : ArrayIterator) = { it with idx := idx } := by
  have converted : IntegerType.uintmax.convert value = idx :=
    Subtype.ext ((IntegerType.convert_eq (same ▸ idx.property)).trans same.symm)
  rw [converted]

/-- Within the array the check of `operator+=` is on the sum, which may still be negative. -/
theorem addAssign_eq (within : it.Within arrays address) (n : Difference) :
    it.addAssign arrays n =
      if (arrays address).size.val < it.idx.val + n.val then
        (it, .error (iteratorError "iterating past end of array"))
      else ({ it with idx := IntegerType.uintmax.convert (it.idx.val + n.val) }, .ok ()) := by
  have le := within.le_size
  have nonneg := it.idx.property.1
  have upper := (arrays address).size.property.2
  have smallest : IntegerType.uintmax.min = 0 := rfl
  have room : (IntegerType.uintmax.convert ((arrays address).size.val - it.idx.val)).val =
      (arrays address).size.val - it.idx.val := IntegerType.convert_eq (by omega)
  simp only [addAssign, getArray, within.ofArray, room]
  by_cases past : (arrays address).size.val < it.idx.val + n.val
  · rw [if_pos (by omega), if_pos past]
  · rw [if_neg (by omega), if_neg past]

/-- The same of `operator++`, whose check is for the end itself. -/
theorem increment_eq (within : it.Within arrays address) :
    it.increment arrays =
      if (arrays address).size.val < it.idx.val + 1 then
        (it, .error (iteratorError "iterating past end of array"))
      else ({ it with idx := IntegerType.uintmax.convert (it.idx.val + 1) }, .ok ()) := by
  have le := within.le_size
  have atEnd : it.idx = (arrays address).size ↔ it.idx.val = (arrays address).size.val := Subtype.ext_iff
  simp only [increment, getArray, within.ofArray, atEnd]
  by_cases past : (arrays address).size.val < it.idx.val + 1
  · rw [if_pos (by omega), if_pos past]
  · rw [if_neg (by omega), if_neg past]

/-- `it + n` yields the index of the sum. -/
theorem plus_eq (within : it.Within arrays address) {n : Difference} {idx : Size}
    (sum : idx.val = it.idx.val + n.val) (le : idx.val ≤ (arrays address).size.val) :
    it.plus arrays n = .ok { it with idx := idx } := by
  rw [plus, addAssign_eq within, if_neg (by omega), moveTo_eq sum]
  rfl

/-- `it - n` yields the index of the difference, wherever that is. -/
theorem minus_eq {n : Difference} {idx : Size} (difference : idx.val = it.idx.val - n.val) :
    it.minus n = .ok { it with idx := idx } := by
  have nonneg := idx.property.1
  have smallest : IntegerType.uintmax.min = 0 := rfl
  rw [minus, subAssign, if_neg (by omega), moveTo_eq difference]
  rfl

end ArrayIterator

end Nihil.Ucl

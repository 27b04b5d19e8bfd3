/-
Module: Nihil.Ucl.ArrayIteratorLaws
Layer: Ucl
Purpose: The laws of a random access iterator, as equations between what the operators return. They hold
  within an array, with one exception: `n + it` is written as `it - n`, so that it equals `it + n` for no
  offset but zero (`random_access_iff`).
Imports: Nihil.Ucl.ArrayIterator
Trusted boundary: that of `ArrayIterator`
Main exports: FlippedLaw, RandomAccessLaws, InDomain, flipped_iff, randomAccessLaws, random_access_iff
-/
import Nihil.Ucl.ArrayIterator

namespace Nihil.Ucl

/-- Two iterators compare like the number zero and their difference. -/
structure OrderedByDifference (a b : ArrayIterator) (d : Difference) : Prop where
  difference : a.difference b = .ok d
  less : a.less b = .ok (decide (d.val < 0))
  equal : a.equal b = .ok (decide (d.val = 0))
  greater : a.greater b = .ok (decide (0 < d.val))

/-- `n + it == it + n`, where neither side throws. -/
def FlippedLaw (arrays : Arrays) (it : ArrayIterator) (n : Difference) : Prop :=
  (do
    let left ← ArrayIterator.plusFlipped n it
    let right ← it.plus arrays n
    left.equal right) = .ok true

/-- The other laws, for an iterator of the array at an address and two offsets. -/
structure RandomAccessLaws (arrays : Arrays) (address : Nat) (valueType : DataType) (it : ArrayIterator)
    (n m : Difference) : Prop where
  /-- `(it + n) + m == it + (n + m)` -/
  assoc : ∃ sum : Difference, sum.val = n.val + m.val ∧ (do
    let first ← it.plus arrays n
    let left ← first.plus arrays m
    let right ← it.plus arrays sum
    left.equal right) = .ok true
  /-- `(it + n) - n == it` -/
  inverse : (do
    let there ← it.plus arrays n
    let back ← there.minus n
    back.equal it) = .ok true
  /-- `(it + n) - it == n` -/
  distance : (do
    let there ← it.plus arrays n
    there.difference it) = .ok n
  /-- `it[n]` is `*(it + n)` -/
  subscript : it.subscript arrays valueType n = (do
    let there ← it.plus arrays n
    there.deref arrays valueType)
  /-- `it[n]` is `at(index)` -/
  access : ∀ idx : Size, idx.val = it.idx.val + n.val → idx.val < (arrays address).size.val →
    it.subscript arrays valueType n = (arrays address).at' valueType idx
  /-- `<`, `==` and `>` -/
  order : ∀ a b : ArrayIterator, a.Within arrays address → b.Within arrays address →
    ∃ d, OrderedByDifference a b d

/-- The iterator and the two targets are within the array. -/
structure InDomain (arrays : Arrays) (address : Nat) (it : ArrayIterator) (n m : Difference) : Prop where
  within : it.Within arrays address
  first : 0 ≤ it.idx.val + n.val ∧ it.idx.val + n.val ≤ (arrays address).size.val
  second : 0 ≤ it.idx.val + n.val + m.val ∧ it.idx.val + n.val + m.val ≤ (arrays address).size.val

namespace ArrayIterator

variable {arrays : Arrays} {address : Nat} {it a b : ArrayIterator} {n m : Difference}

/-! ### Comparison and difference -/

theorem sameArray_eq (left : a.array = some address) (right : b.array = some address) :
    a.sameArray b = .ok () := by
  simp [sameArray, getArray, left, right, bind, Except.bind]

theorem equal_eq (left : a.array = some address) (right : b.array = some address) :
    a.equal b = .ok (decide (a.idx = b.idx)) := by
  simp [equal, sameArray_eq left right, left, bind, Except.bind]

theorem spaceship_eq (left : a.array = some address) (right : b.array = some address) :
    a.spaceship b = .ok (compare a.idx.val b.idx.val) := by
  simp [spaceship, sameArray_eq left right, left, bind, Except.bind]

/-- A size that is converted to a difference wraps where the number it wrapped from does. -/
theorem convert_size (value : Int) :
    IntegerType.intmax.convert (IntegerType.uintmax.convert value).val = IntegerType.intmax.convert value := by
  apply Subtype.ext
  exact Int.emod_bmod value (2 ^ 64)

/-- The difference of two iterators of an array is the difference of their indices. -/
theorem difference_eq (left : a.Within arrays address) (right : b.Within arrays address) :
    ∃ d : Difference, a.difference b = .ok d ∧ d.val = a.idx.val - b.idx.val := by
  have leftNonneg : 0 ≤ a.idx.val := a.idx.property.1
  have rightNonneg : 0 ≤ b.idx.val := b.idx.property.1
  have leftLe := left.le_size
  have rightLe := right.le_size
  have fits : (arrays address).size.val < 2 ^ 63 := Int.ofNat_lt.mpr (arrays address).fits
  have smallest : IntegerType.intmax.min = -2 ^ 63 := rfl
  have largest : IntegerType.intmax.max = 2 ^ 63 - 1 := rfl
  refine ⟨IntegerType.intmax.convert (a.idx.val - b.idx.val), ?_, IntegerType.convert_eq (by omega)⟩
  simp [difference, sameArray_eq left.ofArray right.ofArray, convert_size, bind, Except.bind]

theorem isLT_compare (x y : Int) : (compare x y).isLT = decide (x < y) := by
  rw [Bool.eq_iff_iff, Ordering.isLT_iff_eq_lt, Int.compare_eq_lt, decide_eq_true_iff]

theorem isGT_compare (x y : Int) : (compare x y).isGT = decide (y < x) := by
  rw [Bool.eq_iff_iff, Ordering.isGT_iff_eq_gt, Int.compare_eq_gt, decide_eq_true_iff]

/-- The comparisons agree with the sign of the difference. -/
theorem orderedByDifference (left : a.Within arrays address) (right : b.Within arrays address) :
    ∃ d, OrderedByDifference a b d := by
  obtain ⟨d, difference, value⟩ := difference_eq left right
  refine ⟨d, difference, ?_, ?_, ?_⟩
  · have sign : a.idx.val < b.idx.val ↔ d.val < 0 := by omega
    simp only [less, spaceship_eq left.ofArray right.ofArray, Except.map, isLT_compare, sign]
  · have sign : a.idx = b.idx ↔ d.val = 0 := by
      rw [IntegerType.value_ext_iff]
      omega
    simp only [equal_eq left.ofArray right.ofArray, sign]
  · have sign : b.idx.val < a.idx.val ↔ 0 < d.val := by omega
    simp only [greater, spaceship_eq left.ofArray right.ofArray, Except.map, isGT_compare, sign]

/-! ### Addition and subtraction -/

/-- A target within the array is the index of an iterator. -/
theorem exists_target {value : Int} (inside : 0 ≤ value ∧ value ≤ (arrays address).size.val) :
    ∃ idx : Size, idx.val = value :=
  ⟨⟨value, inside.1, Int.le_trans inside.2 (arrays address).size.property.2⟩, rfl⟩

/-- `it + n` for a target within the array. -/
theorem plus_within (within : it.Within arrays address)
    (inside : 0 ≤ it.idx.val + n.val ∧ it.idx.val + n.val ≤ (arrays address).size.val) :
    ∃ there : ArrayIterator, it.plus arrays n = .ok there ∧ there.Within arrays address ∧
      there.idx.val = it.idx.val + n.val := by
  obtain ⟨idx, sum⟩ := exists_target inside
  exact ⟨_, plus_eq within sum (by omega), ⟨within.ofArray, by simp only; omega⟩, sum⟩

/-- Two iterators of an array are equal if their indices are. -/
theorem equal_of_idx (left : a.Within arrays address) (right : b.Within arrays address)
    (same : a.idx.val = b.idx.val) : a.equal b = .ok true := by
  have sameIdx : a.idx = b.idx := IntegerType.value_ext_iff.mpr same
  rw [equal_eq left.ofArray right.ofArray, decide_eq_true sameIdx]

/-- `n + it == it + n` for no offset but zero: `n + it` is `it - n`. -/
theorem flipped_iff (within : it.Within arrays address)
    (inside : 0 ≤ it.idx.val + n.val ∧ it.idx.val + n.val ≤ (arrays address).size.val) :
    FlippedLaw arrays it n ↔ n.val = 0 := by
  unfold FlippedLaw
  obtain ⟨there, added, thereWithin, target⟩ := plus_within within inside
  by_cases before : n.val > it.idx.val
  · -- `it - n` throws.
    have nonneg : 0 ≤ it.idx.val := it.idx.property.1
    have thrown : plusFlipped n it = .error (iteratorError "iterating before start of array") := by
      rw [plusFlipped, minus, subAssign, if_pos before]
      rfl
    rw [thrown]
    simp only [bind, Except.bind]
    exact ⟨fun same => by contradiction, fun zero => by omega⟩
  · have le := within.le_size
    have fits : (arrays address).size.val < 2 ^ 63 := Int.ofNat_lt.mpr (arrays address).fits
    have lower : -2 ^ 63 ≤ n.val := n.property.1
    have largest : IntegerType.uintmax.max = 2 ^ 64 - 1 := rfl
    have inRange : 0 ≤ it.idx.val - n.val ∧ it.idx.val - n.val ≤ IntegerType.uintmax.max := by omega
    have flipped : plusFlipped n it = .ok { it with idx := ⟨it.idx.val - n.val, inRange⟩ } := minus_eq rfl
    have ofArray : ({ it with idx := ⟨it.idx.val - n.val, inRange⟩ } : ArrayIterator).array = some address :=
      within.ofArray
    rw [flipped, added]
    simp only [bind, Except.bind]
    rw [equal_eq ofArray thereWithin.ofArray, Except.ok.injEq, decide_eq_true_iff, IntegerType.value_ext_iff,
      target]
    simp only
    omega

/-- `(it + n) + m == it + (n + m)`. -/
theorem plus_assoc (domain : InDomain arrays address it n m) :
    ∃ sum : Difference, sum.val = n.val + m.val ∧ (do
      let first ← it.plus arrays n
      let left ← first.plus arrays m
      let right ← it.plus arrays sum
      left.equal right) = .ok true := by
  obtain ⟨within, firstInside, secondInside⟩ := domain
  have nonneg : 0 ≤ it.idx.val := it.idx.property.1
  have le := within.le_size
  have fits : (arrays address).size.val < 2 ^ 63 := Int.ofNat_lt.mpr (arrays address).fits
  have smallest : IntegerType.intmax.min = -2 ^ 63 := rfl
  have largest : IntegerType.intmax.max = 2 ^ 63 - 1 := rfl
  refine ⟨⟨n.val + m.val, by omega⟩, rfl, ?_⟩
  obtain ⟨first, added, firstWithin, firstIdx⟩ := plus_within within firstInside
  obtain ⟨left, addedAgain, leftWithin, leftIdx⟩ := plus_within firstWithin (firstIdx ▸ secondInside)
  obtain ⟨right, addedAtOnce, rightWithin, rightIdx⟩ :=
    plus_within (n := ⟨n.val + m.val, by omega⟩) within (by simp only; omega)
  simp only [added, addedAgain, addedAtOnce, bind, Except.bind]
  exact equal_of_idx leftWithin rightWithin (by simp only at rightIdx; omega)

/-- `(it + n) - n == it`. -/
theorem plus_minus (within : it.Within arrays address)
    (inside : 0 ≤ it.idx.val + n.val ∧ it.idx.val + n.val ≤ (arrays address).size.val) :
    (do
      let there ← it.plus arrays n
      let back ← there.minus n
      back.equal it) = .ok true := by
  obtain ⟨there, added, thereWithin, target⟩ := plus_within within inside
  have back : there.minus n = .ok { there with idx := it.idx } := minus_eq (by omega)
  have ofArray : ({ there with idx := it.idx } : ArrayIterator).array = some address := thereWithin.ofArray
  simp only [added, back, bind, Except.bind]
  exact equal_of_idx ⟨ofArray, within.le_size⟩ within rfl

/-- `(it + n) - it == n`. -/
theorem plus_difference (within : it.Within arrays address)
    (inside : 0 ≤ it.idx.val + n.val ∧ it.idx.val + n.val ≤ (arrays address).size.val) :
    (do
      let there ← it.plus arrays n
      there.difference it) = .ok n := by
  obtain ⟨there, added, thereWithin, target⟩ := plus_within within inside
  obtain ⟨d, difference, value⟩ := difference_eq thereWithin within
  have same : d = n := IntegerType.value_ext_iff.mpr (by omega)
  simp only [added, bind, Except.bind]
  rw [difference, same]

/-! ### Access -/

/-- Below the size of an array, the operator `*` of an iterator and `at` fetch the same element. -/
theorem arrayDeref_eq_arrayAt (valueType : DataType) {arr : UclObject} {idx : Nat}
    (inside : idx < arr.elements.length) : arrayDeref valueType arr idx = arrayAt valueType arr idx := by
  simp only [arrayDeref, arrayAt, fetchElement, Nat.not_le.mpr inside, if_false,
    List.getElem?_eq_getElem inside]

theorem subscript_eq_at (valueType : DataType) (within : it.Within arrays address) {idx : Size}
    (target : idx.val = it.idx.val + n.val) (inside : idx.val < (arrays address).size.val) :
    it.subscript arrays valueType n = (arrays address).at' valueType idx := by
  have below : idx.val.toNat < (arrays address).elements.length := by
    have length : (arrays address).size.val = (arrays address).elements.length := rfl
    have nonneg : 0 ≤ idx.val := idx.property.1
    omega
  rw [subscript, plus_eq within target (Int.le_of_lt inside)]
  simp only [deref, getArray, within.ofArray, bind, Except.bind]
  exact arrayDeref_eq_arrayAt valueType below

end ArrayIterator

variable {arrays : Arrays} {address : Nat} (valueType : DataType) {it : ArrayIterator} {n m : Difference}

open ArrayIterator in
/-- Within an array all laws hold but the one that a number and an iterator commute. -/
theorem randomAccessLaws (domain : InDomain arrays address it n m) :
    RandomAccessLaws arrays address valueType it n m where
  assoc := plus_assoc domain
  inverse := plus_minus domain.within domain.first
  distance := plus_difference domain.within domain.first
  subscript := rfl
  access := fun _ target inside => subscript_eq_at valueType domain.within target inside
  order := fun _ _ left right => orderedByDifference left right

/-- All laws hold for two offsets if and only if the first one is zero. -/
theorem random_access_iff (domain : InDomain arrays address it n m) :
    FlippedLaw arrays it n ∧ RandomAccessLaws arrays address valueType it n m ↔ n.val = 0 := by
  rw [and_iff_left (randomAccessLaws valueType domain)]
  exact ArrayIterator.flipped_iff domain.within domain.first

/-- The array of the tests. -/
private def threeIntegers : UclArray :=
  ⟨[1, 42, 666].map fun value => .integer (IntegerType.intmax.convert value), by decide⟩

private def one : Difference := IntegerType.intmax.convert 1

private theorem begin_inDomain : InDomain (fun _ => threeIntegers) 0 (begin' 0) one one :=
  ⟨⟨rfl, by decide⟩, by decide, by decide⟩

theorem random_access_iff_begin :
    InDomain (fun _ => threeIntegers) 0 (begin' 0) one one ∧
      (FlippedLaw (fun _ => threeIntegers) (begin' 0) one ∧
        RandomAccessLaws (fun _ => threeIntegers) 0 (.scalar .integer) (begin' 0) one one ↔ one.val = 0) :=
  ⟨begin_inDomain, random_access_iff (.scalar .integer) begin_inDomain⟩

/-- `1 + begin()` throws, and `begin() + 1` is the second position. -/
theorem random_access_fails :
    InDomain (fun _ => threeIntegers) 0 (begin' 0) one one ∧
      ¬ (FlippedLaw (fun _ => threeIntegers) (begin' 0) one ∧
        RandomAccessLaws (fun _ => threeIntegers) 0 (.scalar .integer) (begin' 0) one one) := by
  refine ⟨begin_inDomain, fun laws => ?_⟩
  have thrown : ArrayIterator.plusFlipped one (begin' 0) =
      .error (iteratorError "iterating before start of array") := rfl
  have flipped := laws.1
  rw [FlippedLaw, thrown] at flipped
  contradiction

end Nihil.Ucl

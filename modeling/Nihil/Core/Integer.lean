/-
Module: Nihil.Core.Integer
Layer: Core
Purpose: The integer types of the program and how an input stream extracts a number from a text. A value
  of an integer type carries the proof that the type can represent it, so a stored integer is never out
  of range.
Imports: Nihil.Core.Ctype
Trusted boundary: `extractInteger` follows the documented behaviour of num_get in the classic locale.
Main exports: IntegerType, IntegerType.Value, IntegerType.convert, decimalValue, extractInteger
-/
import Mathlib.Algebra.Group.Int.Defs
import Mathlib.Algebra.Group.Nat.Defs
import Nihil.Core.Ctype

namespace Nihil

theorem two_pow_le_two_pow {m n : Nat} (le : m ≤ n) : (2 : Int) ^ m ≤ 2 ^ n := by
  have natural := Nat.pow_le_pow_right (n := 2) (by decide) le
  exact_mod_cast natural

/-- A fundamental integer type of at most 64 bits. -/
structure IntegerType where
  signed : Bool
  width : Nat
  widthPos : 0 < width
  widthLe : width ≤ 64
deriving DecidableEq

namespace IntegerType

/-- `std::numeric_limits<Integer>::min()`. -/
def min (ty : IntegerType) : Int :=
  if ty.signed then -2 ^ (ty.width - 1) else 0

/-- `std::numeric_limits<Integer>::max()`. -/
def max (ty : IntegerType) : Int :=
  if ty.signed then 2 ^ (ty.width - 1) - 1 else 2 ^ ty.width - 1

/-- The values of an integer type. -/
def Value (ty : IntegerType) : Type :=
  {value : Int // ty.min ≤ value ∧ value ≤ ty.max}

instance (ty : IntegerType) : DecidableEq ty.Value :=
  inferInstanceAs (DecidableEq {value : Int // ty.min ≤ value ∧ value ≤ ty.max})

/-- Values are equal if they are the same number. -/
theorem value_ext_iff {ty : IntegerType} {i j : ty.Value} : i = j ↔ i.val = j.val :=
  Subtype.ext_iff

/-- std::intmax_t. -/
def intmax : IntegerType := { signed := true, width := 64, widthPos := by decide, widthLe := by decide }

/-- std::uintmax_t. -/
def uintmax : IntegerType := { signed := false, width := 64, widthPos := by decide, widthLe := by decide }

/-- Zero is a value of every integer type: it is what a value-initialised integer holds. -/
theorem zero_inRange (ty : IntegerType) : ty.min ≤ 0 ∧ 0 ≤ ty.max := by
  have powPos : ∀ n : Nat, (0 : Int) < 2 ^ n := fun n => Int.pow_pos (by decide)
  have half := powPos (ty.width - 1)
  have whole := powPos ty.width
  cases sign : ty.signed <;> simp only [min, max, sign] <;> constructor <;> simp <;> omega

instance (ty : IntegerType) : Inhabited ty.Value := ⟨⟨0, ty.zero_inRange⟩⟩

/-- The range of a type is twice that of its magnitudes. -/
theorem two_pow_width (ty : IntegerType) : ((2 ^ ty.width : Nat) : Int) = 2 * 2 ^ (ty.width - 1) := by
  obtain ⟨half, width⟩ := Nat.exists_eq_add_of_lt ty.widthPos
  rw [Nat.zero_add] at width
  rw [width, Nat.add_sub_cancel, Int.natCast_pow, Int.pow_succ, Int.mul_comm]
  rfl

/-- A number modulo the range of a type is a value of the type. -/
theorem mod_inRange (ty : IntegerType) (value : Int) :
    let reduced := if ty.signed then value.bmod (2 ^ ty.width) else value % 2 ^ ty.width
    ty.min ≤ reduced ∧ reduced ≤ ty.max := by
  have range := ty.two_pow_width
  cases sign : ty.signed with
  | false =>
      have positive : (0 : Int) < 2 ^ ty.width := Int.pow_pos (by decide)
      have lower := Int.emod_nonneg value (Int.ne_of_gt positive)
      have upper := Int.emod_lt_of_pos value positive
      simp only [min, max, sign, Bool.false_eq_true, if_false]
      omega
  | true =>
      have positive : 0 < 2 ^ ty.width := Nat.pow_pos (by decide)
      have lower := Int.le_bmod (x := value) positive
      have upper := Int.bmod_lt (x := value) positive
      rw [range] at lower upper
      simp only [min, max, sign, if_true]
      omega

/-- A number converted to an integer type. -/
def convert (ty : IntegerType) (value : Int) : ty.Value :=
  ⟨if ty.signed then value.bmod (2 ^ ty.width) else value % 2 ^ ty.width, ty.mod_inRange value⟩

/-- A number in the range of a type stays what it is. -/
theorem convert_eq {ty : IntegerType} {value : Int} (inRange : ty.min ≤ value ∧ value ≤ ty.max) :
    (ty.convert value).val = value := by
  have range := ty.two_pow_width
  obtain ⟨lower, upper⟩ := inRange
  cases sign : ty.signed with
  | false =>
      simp only [min, max, sign, Bool.false_eq_true, if_false] at lower upper
      simp only [convert, sign, Bool.false_eq_true, if_false]
      exact Int.emod_eq_of_lt lower (by omega)
  | true =>
      simp only [min, max, sign, if_true] at lower upper
      simp only [convert, sign, if_true]
      apply Int.bmod_eq_of_le <;> rw [range] <;> omega

end IntegerType

/-- The value of a sequence of decimal digits. -/
def decimalValue (digits : Str) : Nat :=
  digits.foldl (fun value c => 10 * value + (c.toNat - '0'.toNat)) 0

/-- `strm >> i` on a fresh std::istringstream, for a std::intmax_t or a std::uintmax_t `i`: an optional sign
and the digits that follow it are read and the rest of the text is left in the stream. Nothing is
extracted when there is no digit or the number is out of range; a minus sign on an unsigned number
negates it modulo its range. -/
def extractInteger (signed : Bool) (text : Str) : Option Int :=
  let text := skipws isCSpace text
  let negative := text.head? = some '-'
  let digits := (if negative ∨ text.head? = some '+' then text.tail else text).takeWhile isCDigit
  let magnitude := decimalValue digits
  if digits = [] then none
  else if signed then
    let value : Int := if negative then -magnitude else magnitude
    if IntegerType.intmax.min ≤ value ∧ value ≤ IntegerType.intmax.max then some value else none
  else if magnitude ≤ IntegerType.uintmax.max then
    some (if negative then ((2 ^ 64 - magnitude) % 2 ^ 64 : Nat) else magnitude)
  else none

end Nihil

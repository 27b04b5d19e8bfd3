/-
Module: Nihil.Core.ParseSize
Layer: Core
Purpose: parse_size, the parser of sizes such as "1024" or "4g". The arithmetic of the integer type is done
  with a check of its own, so that a result that does not fit is an outcome and never a wrapped value. The
  three guards of the source keep that outcome from happening, and what is returned is the number that the
  text stands for (`parseSize_eq`).
Imports: Nihil.Core.Integer
Trusted boundary: none
Main exports: StandardInteger, SizeAbort, getMultiplier, accumulate, parseSize, unitExponent, sizeSpec,
  accumulate_eq, parseSize_eq
-/
import Mathlib.Algebra.Group.Int.Defs
import Mathlib.Algebra.Group.Nat.Defs
import Mathlib.Data.List.TakeWhile
import Nihil.Core.Integer

namespace Nihil

/-- An integer type of the language has at least the width of a byte. -/
structure StandardInteger extends IntegerType where
  byteLe : 8 ≤ width
deriving DecidableEq

/-- Why `parse_size` ends without a value: it returns an error, or a result of the arithmetic does not fit
into the type it is computed in. -/
inductive SizeAbort where
  | error (err : Error)
  | overflow
deriving DecidableEq, Repr

/-- A result of the arithmetic, in the type it is computed in. -/
def IntegerType.exact (ty : IntegerType) (value : Int) : Except SizeAbort ty.Value :=
  if fits : ty.min ≤ value ∧ value ≤ ty.max then .ok ⟨value, fits⟩ else .error .overflow

/-- `get_multiplier`. A letter falls through to the letters for the smaller units. -/
def getMultiplier (c : Char) : Except SizeAbort IntegerType.uintmax.Value :=
  if c = 'p' ∨ c = 'P' then IntegerType.uintmax.exact (1 * 1024 * 1024 * 1024 * 1024 * 1024)
  else if c = 't' ∨ c = 'T' then IntegerType.uintmax.exact (1 * 1024 * 1024 * 1024 * 1024)
  else if c = 'g' ∨ c = 'G' then IntegerType.uintmax.exact (1 * 1024 * 1024 * 1024)
  else if c = 'm' ∨ c = 'M' then IntegerType.uintmax.exact (1 * 1024 * 1024)
  else if c = 'k' ∨ c = 'K' then IntegerType.uintmax.exact (1 * 1024)
  else .error (.error (.ofErrc .invalidUnit))

/-- The loop of `parse_size` over the digits. -/
def accumulate (ty : IntegerType) (ret : ty.Value) : Str → Except SizeAbort ty.Value
  | [] => .ok ret
  | c :: digits =>
      if ret.val > ty.max / 10 then .error (.error (.ofCode resultOutOfRange))
      else do
        let ret ← ty.exact (ret.val * 10)
        let digit ← ty.exact (c.toNat - '0'.toNat : Nat)
        if ty.max - digit.val < ret.val then .error (.error (.ofCode resultOutOfRange))
        else do
          let ret ← ty.exact (ret.val + digit.val)
          accumulate ty ret digits

/-- `parse_size`. The product with the multiplier is computed in std::uint64_t. -/
def parseSize (ty : IntegerType) (str : Str) : Except SizeAbort ty.Value :=
  let numStr := str.takeWhile isCDigit
  if numStr = [] then .error (.error (.ofErrc .emptyString))
  else do
    let ret ← accumulate ty default numStr
    match str.dropWhile isCDigit with
    | [] => .ok ret
    | [mchar] =>
        let mult ← getMultiplier mchar
        if ret.val > ty.max / mult.val then .error (.error (.ofCode resultOutOfRange))
        else do
          let product ← IntegerType.uintmax.exact (ret.val * mult.val)
          ty.exact product.val
    | _ :: _ :: _ => .error (.error (.ofErrc .invalidUnit))

/-! ### What a size stands for -/

/-- The power of 1024 that a unit stands for. -/
def unitExponent (c : Char) : Option Nat :=
  if c = 'k' ∨ c = 'K' then some 1
  else if c = 'm' ∨ c = 'M' then some 2
  else if c = 'g' ∨ c = 'G' then some 3
  else if c = 't' ∨ c = 'T' then some 4
  else if c = 'p' ∨ c = 'P' then some 5
  else none

/-- The number that a text of digits and at most one unit stands for, or the first of the errors that
applies: no digits, a number beyond the largest one, a bad unit, a product beyond the largest number. -/
def sizeSpec (largest : Int) (str : Str) : Except Error Int :=
  let digits := str.takeWhile isCDigit
  let number : Int := decimalValue digits
  if digits = [] then .error (.ofErrc .emptyString)
  else if number > largest then .error (.ofCode resultOutOfRange)
  else
    match str.dropWhile isCDigit with
    | [] => .ok number
    | [unit] =>
        match unitExponent unit with
        | none => .error (.ofErrc .invalidUnit)
        | some e =>
            if number * 1024 ^ e ≤ largest then .ok (number * 1024 ^ e)
            else .error (.ofCode resultOutOfRange)
    | _ :: _ :: _ => .error (.ofErrc .invalidUnit)

/-! ### The arithmetic fits -/

theorem IntegerType.exact_eq {ty : IntegerType} {value : Int} (nonneg : 0 ≤ value) (le : value ≤ ty.max) :
    ty.exact value = .ok ⟨value, Int.le_trans ty.zero_inRange.1 nonneg, le⟩ :=
  dif_pos _

/-- Every digit is a value of an integer type. -/
theorem StandardInteger.nine_le_max (ty : StandardInteger) : 9 ≤ ty.max := by
  have width := ty.byteLe
  have half := two_pow_le_two_pow (m := 7) (n := ty.width - 1) (by omega)
  have whole := two_pow_le_two_pow (m := 7) (n := ty.width) (by omega)
  cases sign : ty.signed <;> simp only [IntegerType.max, sign] <;> simp <;> omega

theorem StandardInteger.max_le_uintmax (ty : StandardInteger) : ty.max ≤ IntegerType.uintmax.max := by
  have width := ty.widthLe
  have half := two_pow_le_two_pow (m := ty.width - 1) (n := 64) (by omega)
  have whole := two_pow_le_two_pow width
  have largest : IntegerType.uintmax.max = 2 ^ 64 - 1 := rfl
  rw [largest]
  cases sign : ty.signed <;> simp only [IntegerType.max, sign] <;> simp <;> omega

/-! ### The digits -/

/-- The value of a digit behind a number. -/
theorem digit_le_nine {c : Char} (digit : isCDigit c = true) : c.toNat - '0'.toNat ≤ 9 := by
  have upper : c ≤ '9' := by
    have both : '0' ≤ c ∧ c ≤ '9' := by simpa [isCDigit] using digit
    exact both.2
  have bound : c.toNat ≤ '9'.toNat := upper
  have nine : '9'.toNat = 57 := rfl
  have zero : '0'.toNat = 48 := rfl
  omega

/-- Reading more digits makes a number no smaller. -/
theorem le_decimalFold (digits : Str) (value : Nat) :
    value ≤ digits.foldl (fun value c => 10 * value + (c.toNat - '0'.toNat)) value := by
  induction digits generalizing value with
  | nil => exact Nat.le_refl _
  | cons c digits ih =>
      have next := ih (10 * value + (c.toNat - '0'.toNat))
      rw [List.foldl_cons]
      omega

/-- The loop over the digits returns the number, or an error if the number does not fit. Its two guards are
exact: what they let through fits, and what they stop does not. -/
theorem accumulate_eq (ty : StandardInteger) {digits : Str} (allDigits : ∀ c ∈ digits, isCDigit c = true)
    (ret : ty.Value) (value : Nat) (same : ret.val = value) :
    (accumulate ty.toIntegerType ret digits).map Subtype.val =
      if ((digits.foldl (fun value c => 10 * value + (c.toNat - '0'.toNat)) value : Nat) : Int) ≤ ty.max
      then .ok (digits.foldl (fun value c => 10 * value + (c.toNat - '0'.toNat)) value : Nat)
      else .error (.error (.ofCode resultOutOfRange)) := by
  induction digits generalizing ret value with
  | nil =>
      have fits : (value : Int) ≤ ty.max := same ▸ ret.property.2
      simp [accumulate, Except.map, same, fits]
  | cons c digits ih =>
      have small := digit_le_nine (allDigits c List.mem_cons_self)
      have nine := ty.nine_le_max
      have grows := le_decimalFold digits (10 * value + (c.toNat - '0'.toNat))
      rw [accumulate, same, List.foldl_cons]
      generalize c.toNat - '0'.toNat = digit at small grows ⊢
      -- Past either guard the number is beyond the largest one, whatever digits follow.
      by_cases large : (value : Int) > ty.max / 10
      · rw [if_pos large, if_neg (by omega)]
        rfl
      · have scaled : (value : Int) * 10 ≤ ty.max := by omega
        rw [if_neg large, IntegerType.exact_eq (by omega) scaled,
          IntegerType.exact_eq (by omega) (by omega)]
        simp only [bind, Except.bind]
        by_cases beyond : ty.max - (digit : Int) < (value : Int) * 10
        · rw [if_pos beyond, if_neg (by omega)]
          rfl
        · have fits : (value : Int) * 10 + (digit : Int) ≤ ty.max := by omega
          rw [if_neg beyond, IntegerType.exact_eq (by omega) fits]
          apply ih (fun d member => allDigits d (List.mem_cons_of_mem c member))
          simp only
          omega

/-! ### The unit -/

/-- A multiplier is a power of 1024 that fits into 64 bits. -/
theorem getMultiplier_eq (c : Char) :
    match unitExponent c with
    | none => getMultiplier c = .error (.error (.ofErrc .invalidUnit))
    | some e => ∃ mult, getMultiplier c = .ok mult ∧ mult.val = 1024 ^ e := by
  have fits : ∀ value : Int, 0 ≤ value → value ≤ IntegerType.uintmax.max →
      ∃ mult, IntegerType.uintmax.exact value = .ok mult ∧ mult.val = value :=
    fun value nonneg le => ⟨_, IntegerType.exact_eq nonneg le, rfl⟩
  unfold unitExponent getMultiplier
  by_cases k : c = 'k' ∨ c = 'K'
  · rcases k with rfl | rfl <;> exact fits (1 * 1024) (by decide) (by decide)
  by_cases m : c = 'm' ∨ c = 'M'
  · rcases m with rfl | rfl <;> exact fits (1 * 1024 * 1024) (by decide) (by decide)
  by_cases g : c = 'g' ∨ c = 'G'
  · rcases g with rfl | rfl <;> exact fits (1 * 1024 * 1024 * 1024) (by decide) (by decide)
  by_cases t : c = 't' ∨ c = 'T'
  · rcases t with rfl | rfl <;> exact fits (1 * 1024 * 1024 * 1024 * 1024) (by decide) (by decide)
  by_cases p : c = 'p' ∨ c = 'P'
  · rcases p with rfl | rfl <;> exact fits (1 * 1024 * 1024 * 1024 * 1024 * 1024) (by decide) (by decide)
  · simp only [k, m, g, t, p, if_false]

/-- The third guard is exact as well: a product that it lets through fits into 64 bits and into the type. -/
theorem product_eq (ty : StandardInteger) {number mult : Int} (positive : 0 < mult) :
    number > ty.max / mult ↔ ¬ number * mult ≤ ty.max := by
  rw [Int.not_le, gt_iff_lt, Int.ediv_lt_iff_lt_mul positive]

/-! ### parse_size -/

/-- What parse_size does with the text behind the digits. -/
theorem applyUnit_eq (ty : StandardInteger) {ret : ty.Value} (nonneg : 0 ≤ ret.val) (unit : Char) :
    ((do
        let mult ← getMultiplier unit
        if ret.val > ty.max / mult.val then .error (.error (.ofCode resultOutOfRange))
        else do
          let product ← IntegerType.uintmax.exact (ret.val * mult.val)
          ty.exact product.val : Except SizeAbort ty.Value)).map Subtype.val =
      Except.mapError SizeAbort.error
        (match unitExponent unit with
        | none => .error (.ofErrc .invalidUnit)
        | some e =>
            if ret.val * 1024 ^ e ≤ ty.max then .ok (ret.val * 1024 ^ e)
            else .error (.ofCode resultOutOfRange)) := by
  have multiplier := getMultiplier_eq unit
  cases known : unitExponent unit with
  | none =>
      simp only [known] at multiplier
      rw [multiplier]
      rfl
  | some e =>
      simp only [known] at multiplier
      obtain ⟨mult, returned, power⟩ := multiplier
      have positive : 0 < mult.val := power ▸ Int.pow_pos (by decide)
      have guard : ret.val > ty.max / mult.val ↔ ¬ ret.val * mult.val ≤ ty.max := product_eq ty positive
      rw [returned]
      simp only [bind, Except.bind]
      by_cases fits : ret.val * mult.val ≤ ty.max
      · have product : 0 ≤ ret.val * mult.val := Int.mul_nonneg nonneg (Int.le_of_lt positive)
        have wide := Int.le_trans fits ty.max_le_uintmax
        rw [if_neg (fun large => guard.mp large fits), IntegerType.exact_eq product wide]
        simp only
        rw [IntegerType.exact_eq product fits, ← power, if_pos fits]
        rfl
      · rw [if_pos (guard.mpr fits), ← power, if_neg fits]
        rfl

/-- For every integer type and every text parse_size returns the number that the text stands for, or the
first of the errors that applies. No result of its arithmetic fails to fit. -/
theorem parseSize_eq (ty : StandardInteger) (str : Str) :
    (parseSize ty.toIntegerType str).map Subtype.val =
      (sizeSpec ty.max str).mapError SizeAbort.error := by
  have number : (accumulate ty.toIntegerType default (str.takeWhile isCDigit)).map Subtype.val =
      if (decimalValue (str.takeWhile isCDigit) : Int) ≤ ty.max
      then .ok (decimalValue (str.takeWhile isCDigit))
      else .error (.error (.ofCode resultOutOfRange)) :=
    accumulate_eq ty (fun _ member => List.mem_takeWhile_imp member) default 0 rfl
  unfold parseSize sizeSpec
  by_cases empty : str.takeWhile isCDigit = []
  · simp [empty, Except.map, Except.mapError]
  rw [if_neg empty, if_neg empty]
  by_cases fits : (decimalValue (str.takeWhile isCDigit) : Int) ≤ ty.max
  · rw [if_pos fits] at number
    rw [if_neg (by omega)]
    cases outcome : accumulate ty.toIntegerType default (str.takeWhile isCDigit) with
    | error abort => simp [outcome, Except.map] at number
    | ok ret =>
        have same : ret.val = decimalValue (str.takeWhile isCDigit) := by
          simpa [outcome, Except.map] using number
        have nonneg : 0 ≤ ret.val := by omega
        rw [← same]
        cases str.dropWhile isCDigit with
        | nil => rfl
        | cons unit rest =>
            cases rest with
            | nil => exact applyUnit_eq ty nonneg unit
            | cons _ _ => rfl
  · rw [if_neg fits] at number
    rw [if_pos (by omega)]
    cases outcome : accumulate ty.toIntegerType default (str.takeWhile isCDigit) with
    | ok ret => simp [outcome, Except.map] at number
    | error abort =>
        simp only [outcome, Except.map, Except.error.injEq] at number
        rw [number]
        rfl

end Nihil

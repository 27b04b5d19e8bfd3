/-
Module: Nihil.Cli.ParseFlagsInteger
Layer: Cli
Purpose: The arguments that the options of integer type accept. The stream extraction of the source reads
  the longest decimal integer at the front of the argument and leaves what follows it in the stream, where
  nobody looks at it. So an argument is accepted if it begins with an integer of the type, and the option
  does what it should exactly on the arguments where nothing stands behind such an integer
  (`integer_parse_iff`).
Imports: Nihil.Cli.ParseFlags, Nihil.Library.Span
Trusted boundary: that of `extractInteger`
Main exports: DecimalInteger, parseInteger_ok_iff, ParsesInteger, HasSuffix, integer_parse_iff
-/
import Mathlib.Algebra.Group.Int.Defs
import Mathlib.Algebra.Group.Nat.Defs
import Nihil.Cli.ParseFlags
import Nihil.Library.Span

namespace Nihil.Cli

open Nihil.Library

/-! ### Decimal integers -/

/-- One or more digits. -/
structure IsNumeral (digits : Str) : Prop where
  nonempty : digits ≠ []
  inside : ∀ c ∈ digits, isCDigit c = true

/-- The text of a decimal integer and its value. A '-' is for signed types. -/
inductive DecimalInteger (signed : Bool) : Str → Int → Prop where
  | plain {digits : Str} (numeral : IsNumeral digits) :
      DecimalInteger signed digits (decimalValue digits)
  | plus {digits : Str} (numeral : IsNumeral digits) :
      DecimalInteger signed ('+' :: digits) (decimalValue digits)
  | minus {digits : Str} (isSigned : signed = true) (numeral : IsNumeral digits) :
      DecimalInteger signed ('-' :: digits) (-decimalValue digits)

/-- The type that an integer is extracted into, std::intmax_t or std::uintmax_t. -/
def widest (signed : Bool) : IntegerType :=
  if signed then IntegerType.intmax else IntegerType.uintmax

/-- The widest type holds every value of the others. -/
theorem range_widest (ty : IntegerType) :
    (widest ty.signed).min ≤ ty.min ∧ ty.max ≤ (widest ty.signed).max := by
  have width := ty.widthLe
  have half := two_pow_le_two_pow (m := ty.width - 1) (n := 63) (by omega)
  have whole := two_pow_le_two_pow width
  cases sign : ty.signed <;>
    simp [widest, IntegerType.min, IntegerType.max, IntegerType.intmax, IntegerType.uintmax, sign] <;>
    omega

/-! ### The extraction -/

/-- A space is no digit and no sign. -/
theorem space_distinct {c : Char} (space : isCSpace c = true) : isCDigit c = false ∧ c ≠ '+' ∧ c ≠ '-' := by
  have cases' : c = ' ' ∨ c = '\t' ∨ c = '\n' ∨ c = '\x0b' ∨ c = '\x0c' ∨ c = '\r' := by
    simpa [isCSpace] using space
  rcases cases' with rfl | rfl | rfl | rfl | rfl | rfl <;> decide

/-- A sign is no digit. -/
theorem digit_distinct {c : Char} (digit : isCDigit c = true) : c ≠ '+' ∧ c ≠ '-' := by
  constructor <;> rintro rfl <;> exact absurd digit (by decide)

/-- The first character of a numeral is a digit. -/
theorem IsNumeral.head_digit {digits : Str} (numeral : IsNumeral digits) (rest : Str) :
    ∀ c ∈ (digits ++ rest).head?, isCDigit c = true := by
  intro c head
  cases digits with
  | nil => exact absurd rfl numeral.nonempty
  | cons d digits =>
      have same : d = c := by simpa using head
      exact same ▸ numeral.inside d List.mem_cons_self

variable {signed : Bool} {number rest : Str} {value : Int}

theorem DecimalInteger.ne_nil (decimal : DecimalInteger signed number value) : number ≠ [] := by
  cases decimal with
  | plain numeral => exact numeral.nonempty
  | plus | minus => exact List.cons_ne_nil _ _

/-- A decimal integer begins with a digit or a sign, so that no space is skipped in front of it. -/
theorem DecimalInteger.stops_space (decimal : DecimalInteger signed number value) (rest : Str) :
    Stops isCSpace (number ++ rest) := by
  intro c head
  apply Bool.eq_false_iff.mpr
  intro space
  obtain ⟨noDigit, noPlus, noMinus⟩ := space_distinct space
  cases decimal with
  | plain numeral =>
      have digit := numeral.head_digit rest c head
      rw [noDigit] at digit
      contradiction
  | plus => exact noPlus (by simpa using head.symm)
  | minus => exact noMinus (by simpa using head.symm)

/-- What a stream does with a text of a sign or none, a numeral and a rest. -/
theorem extractInteger_numeral {text digits : Str} (skip : skipws isCSpace text = text)
    (behind : (if text.head? = some '-' ∨ text.head? = some '+' then text.tail else text) = digits ++ rest)
    (numeral : IsNumeral digits) (stops : Stops isCDigit rest) (signed : Bool) :
    extractInteger signed text =
      let negative := text.head? = some '-'
      let magnitude := decimalValue digits
      if signed then
        let value : Int := if negative then -magnitude else magnitude
        if IntegerType.intmax.min ≤ value ∧ value ≤ IntegerType.intmax.max then some value else none
      else if magnitude ≤ IntegerType.uintmax.max then
        some (if negative then ((2 ^ 64 - magnitude) % 2 ^ 64 : Nat) else magnitude)
      else none := by
  have run : (digits ++ rest).takeWhile isCDigit = digits := takeWhile_append_stops numeral.inside stops
  simp only [extractInteger, skip, behind, run, if_neg numeral.nonempty]

/-- The stream reads the integer at the front of a text and leaves the rest of the text unread. -/
theorem extractInteger_decimal (decimal : DecimalInteger signed number value) (stops : Stops isCDigit rest) :
    extractInteger signed (number ++ rest) =
      if (widest signed).min ≤ value ∧ value ≤ (widest signed).max then some value else none := by
  have skip : skipws isCSpace (number ++ rest) = number ++ rest := (decimal.stops_space rest).dropWhile_eq
  have zero : IntegerType.uintmax.min = 0 := rfl
  cases decimal with
  | plain numeral =>
      have noMinus : (number ++ rest).head? ≠ some '-' :=
        fun minus => (digit_distinct (numeral.head_digit rest _ minus)).2 rfl
      have noPlus : (number ++ rest).head? ≠ some '+' :=
        fun plus => (digit_distinct (numeral.head_digit rest _ plus)).1 rfl
      rw [extractInteger_numeral skip (if_neg (not_or.mpr ⟨noMinus, noPlus⟩)) numeral stops]
      simp only [noMinus, if_false]
      cases signed <;> simp [widest, zero]
  | plus numeral =>
      rw [extractInteger_numeral skip rfl numeral stops]
      cases signed <;> simp [widest, zero]
  | minus isSigned numeral =>
      subst isSigned
      rw [extractInteger_numeral skip rfl numeral stops]
      simp [widest]

/-- A text that begins with no decimal integer, and with no '-' for an unsigned type, fails. -/
theorem extractInteger_none {text : Str} (skip : skipws isCSpace text = text)
    (sign : signed = false → text.head? ≠ some '-')
    (nothing : ¬ ∃ number rest value, text = number ++ rest ∧ DecimalInteger signed number value ∧
      Stops isCDigit rest) :
    extractInteger signed text = none := by
  have split : ∀ text : Str, text.takeWhile isCDigit ≠ [] → IsNumeral (text.takeWhile isCDigit) :=
    fun text nonempty => ⟨nonempty, fun _ member => List.mem_takeWhile_imp member⟩
  have noDigits :
      (if text.head? = some '-' ∨ text.head? = some '+' then text.tail else text).takeWhile isCDigit = [] := by
    by_contra nonempty
    apply nothing
    cases text with
    | nil => exact absurd rfl nonempty
    | cons c tail =>
        by_cases minus : c = '-'
        · subst minus
          have isSigned : signed = true := by
            cases signed with
            | true => rfl
            | false => exact absurd rfl (sign rfl)
          exact ⟨_, tail.dropWhile isCDigit, _, by simp, .minus isSigned (split tail (by simpa using nonempty)),
            stops_dropWhile tail⟩
        by_cases plus : c = '+'
        · subst plus
          exact ⟨_, tail.dropWhile isCDigit, _, by simp, .plus (split tail (by simpa using nonempty)),
            stops_dropWhile tail⟩
        · have digits : (c :: tail).takeWhile isCDigit ≠ [] := by simpa [minus, plus] using nonempty
          exact ⟨_, (c :: tail).dropWhile isCDigit, _, List.takeWhile_append_dropWhile.symm,
            .plain (split (c :: tail) digits), stops_dropWhile _⟩
  simp only [extractInteger, skip, noDigits, if_true]

/-- What a stream extracts is the decimal integer at the front of the text. -/
theorem extractInteger_some {text : Str} (skip : skipws isCSpace text = text)
    (sign : signed = false → text.head? ≠ some '-') (read : extractInteger signed text = some value) :
    ∃ number rest, text = number ++ rest ∧ DecimalInteger signed number value ∧ Stops isCDigit rest := by
  by_cases found : ∃ number rest value, text = number ++ rest ∧ DecimalInteger signed number value ∧
      Stops isCDigit rest
  · obtain ⟨number, rest, extracted, rfl, decimal, stops⟩ := found
    rw [extractInteger_decimal decimal stops] at read
    split_ifs at read
    cases read
    exact ⟨number, rest, rfl, decimal, stops⟩
  · rw [extractInteger_none skip sign found] at read
    contradiction

/-! ### The arguments that are accepted -/

/-- An unsigned integer does not begin with a '-'. -/
theorem DecimalInteger.head_ne_minus (decimal : DecimalInteger false number value) (rest : Str) :
    (number ++ rest).head? ≠ some '-' := by
  intro minus
  cases decimal with
  | plain numeral => exact (digit_distinct (numeral.head_digit rest _ minus)).2 rfl
  | plus => simp at minus
  | minus isSigned => contradiction

/-- An argument is accepted if it begins with a decimal integer of the type, whatever follows it. -/
theorem parseInteger_ok_iff (ty : IntegerType) (arg : Str) (i : ty.Value) :
    parseInteger ty arg = .ok i ↔
      ∃ number rest, skipws isCSpace arg = number ++ rest ∧ DecimalInteger ty.signed number i.val ∧
        Stops isCDigit rest := by
  have skip : skipws isCSpace (skipws isCSpace arg) = skipws isCSpace arg := (stops_dropWhile arg).dropWhile_eq
  unfold parseInteger
  generalize skipws isCSpace arg = text at skip ⊢
  simp only
  constructor
  · intro parsed
    split_ifs at parsed with empty sign
    cases read : extractInteger ty.signed text with
    | none => simp [read] at parsed
    | some j =>
        simp only [read] at parsed
        split_ifs at parsed
        cases parsed
        exact extractInteger_some skip (fun isUnsigned minus => sign ⟨by simp [isUnsigned], minus⟩) read
  · rintro ⟨number, rest, rfl, decimal, stops⟩
    have nonempty : number ++ rest ≠ [] := by simp [decimal.ne_nil]
    have sign : ¬ ((!ty.signed) = true ∧ (number ++ rest).head? = some '-') := by
      rintro ⟨isUnsigned, minus⟩
      have isUnsigned : ty.signed = false := by simpa using isUnsigned
      rw [isUnsigned] at decimal
      exact decimal.head_ne_minus rest minus
    have wide : (widest ty.signed).min ≤ i.val ∧ i.val ≤ (widest ty.signed).max :=
      ⟨Int.le_trans (range_widest ty).1 i.property.1, Int.le_trans i.property.2 (range_widest ty).2⟩
    rw [if_neg nonempty, if_neg sign, extractInteger_decimal decimal stops, if_pos wide]
    simp only
    rw [dif_neg (Int.not_lt.mpr i.property.2), dif_neg (Int.not_lt.mpr i.property.1)]
    rfl

/-! ### What the options do with them -/

variable {Flags : Type}

/-- What parsing an argument as an integer should do: an argument that is a decimal integer of the type and
nothing else is stored, any other argument is an error, and an error leaves the flags as they are. -/
structure ParsesInteger (ty : IntegerType) (opt : OptionBase Flags) (store : ty.Value → Flags → Flags)
    (arg : Str) (instance' : Flags) : Prop where
  stores : ∀ i : ty.Value, DecimalInteger ty.signed (skipws isCSpace arg) i.val →
    opt.parseArg arg instance' = (store i instance', .ok ())
  refuses : (¬ ∃ i : ty.Value, DecimalInteger ty.signed (skipws isCSpace arg) i.val) →
    ∃ err, opt.parseArg arg instance' = (instance', .error (.error err))

/-- An argument that is a decimal integer of the type with more text behind its digits. -/
def HasSuffix (ty : IntegerType) (arg : Str) : Prop :=
  ∃ (number suffix : Str) (i : ty.Value), skipws isCSpace arg = number ++ suffix ∧
    DecimalInteger ty.signed number i.val ∧ suffix ≠ [] ∧ Stops isCDigit suffix

/-- What both options do, apart from where they store the value. -/
def StoresInteger (ty : IntegerType) (opt : OptionBase Flags) (store : ty.Value → Flags → Flags) : Prop :=
  ∀ arg instance', opt.parseArg arg instance' =
    match parseInteger ty arg with
    | .ok i => (store i instance', .ok ())
    | .error abort => (instance', .error abort)

theorem optionInteger_stores (ty : IntegerType) (name : FlagName) (argumentName : Str)
    (ptr : Member Flags ty.Value) : StoresInteger ty (optionInteger ty name argumentName ptr) ptr.set :=
  fun _ _ => rfl

theorem optionOptional_stores (ty : IntegerType) (name : FlagName) (argumentName : Str)
    (ptr : Member Flags (Option ty.Value)) :
    StoresInteger ty (optionOptional (optionInteger ty) default name argumentName ptr)
      (fun i => ptr.set (some i)) := by
  intro arg instance'
  simp only [optionOptional, optionInteger, Member.whole]
  cases parseInteger ty arg <;> rfl

/-- Only the first character of a decimal integer may be no digit. -/
theorem DecimalInteger.tail_digits (decimal : DecimalInteger signed number value) :
    ∀ c ∈ number.tail, isCDigit c = true := by
  intro c member
  cases decimal with
  | plain numeral => exact numeral.inside c (List.mem_of_mem_tail member)
  | plus numeral | minus _ numeral => exact numeral.inside c member

/-- No proper part of a decimal integer is one that ends where its digits end. -/
theorem DecimalInteger.suffix_eq_nil {suffix : Str} {other : Int}
    (whole : DecimalInteger signed (number ++ suffix) other) (part : DecimalInteger signed number value)
    (stops : Stops isCDigit suffix) : suffix = [] := by
  cases suffix with
  | nil => rfl
  | cons c suffix =>
      have behind : c ∈ (number ++ c :: suffix).tail := by
        rw [List.tail_append_of_ne_nil part.ne_nil]
        exact List.mem_append_right _ List.mem_cons_self
      have digit := whole.tail_digits c behind
      rw [stops_cons.mp stops] at digit
      contradiction

/-- An option of integer type parses an argument as it should unless the argument has a suffix. -/
theorem parsesInteger_iff {ty : IntegerType} {opt : OptionBase Flags} {store : ty.Value → Flags → Flags}
    (storesInteger : StoresInteger ty opt store) (arg : Str) (instance' : Flags) :
    ParsesInteger ty opt store arg instance' ↔ ¬ HasSuffix ty arg := by
  constructor
  · rintro contract ⟨number, suffix, i, text, decimal, nonempty, stops⟩
    have parsed := (parseInteger_ok_iff ty arg i).mpr ⟨number, suffix, text, decimal, stops⟩
    have noInteger : ¬ ∃ i : ty.Value, DecimalInteger ty.signed (skipws isCSpace arg) i.val :=
      fun ⟨j, whole⟩ => nonempty ((text ▸ whole).suffix_eq_nil decimal stops)
    obtain ⟨err, refused⟩ := contract.refuses noInteger
    rw [storesInteger, parsed] at refused
    simp at refused
  · intro noSuffix
    constructor
    · intro i decimal
      have parsed := (parseInteger_ok_iff ty arg i).mpr ⟨_, [], (List.append_nil _).symm, decimal, stops_nil⟩
      rw [storesInteger, parsed]
    · intro noInteger
      rw [storesInteger]
      cases outcome : parseInteger ty arg with
      | error abort =>
          obtain ⟨err, rfl⟩ := parseInteger_error outcome
          exact ⟨err, rfl⟩
      | ok i =>
          obtain ⟨number, suffix, text, decimal, stops⟩ := (parseInteger_ok_iff ty arg i).mp outcome
          by_cases empty : suffix = []
          · rw [empty, List.append_nil] at text
            exact absurd ⟨i, text ▸ decimal⟩ noInteger
          · exact absurd ⟨number, suffix, i, text, decimal, empty, stops⟩ noSuffix

variable {Optional : Type}

/-- For every integer type, every argument and all flags, the option of the type and the option of the
optional type both parse the argument as they should if and only if it is not an integer of the type with a
suffix. -/
theorem integer_parse_iff (ty : IntegerType) (name : FlagName) (argumentName : Str)
    (ptr : Member Flags ty.Value) (optionalPtr : Member Optional (Option ty.Value)) (arg : Str)
    (instance' : Flags) (optional : Optional) :
    ParsesInteger ty (optionInteger ty name argumentName ptr) ptr.set arg instance' ∧
        ParsesInteger ty (optionOptional (optionInteger ty) default name argumentName optionalPtr)
          (fun i => optionalPtr.set (some i)) arg optional ↔
      ¬ HasSuffix ty arg := by
  rw [parsesInteger_iff (optionInteger_stores ty name argumentName ptr),
    parsesInteger_iff (optionOptional_stores ty name argumentName optionalPtr), and_self]

/-- std::int16_t, the type of the tests. -/
def int16 : IntegerType := { signed := true, width := 16, widthPos := by decide, widthLe := by decide }

/-- The argument "42abc" is stored as 42. -/
theorem integer_parse_fails :
    ¬ ParsesInteger int16 (optionInteger int16 { shortFlag := some 'i' } "n".toList (Member.whole _))
      (Member.whole _).set "42abc".toList default := by
  intro contract
  have noInteger : ¬ ∃ i : int16.Value,
      DecimalInteger int16.signed (skipws isCSpace "42abc".toList) i.val := by
    rintro ⟨i, decimal⟩
    have digit := decimal.tail_digits 'a' (by decide)
    contradiction
  obtain ⟨err, refused⟩ := contract.refuses noInteger
  have stored : parseInteger int16 "42abc".toList = .ok ⟨42, by decide⟩ := by decide
  rw [optionInteger_stores, stored] at refused
  simp at refused

end Nihil.Cli

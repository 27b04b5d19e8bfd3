/-
Module: Nihil.Core.Ctype
Layer: Core
Purpose: The character classes of the C locale that the program asks for, and skipws. A class is a
  predicate on characters, as `ctype_is` makes one from a mask and a locale, so that skipws is generic in
  the locale it is given.
Imports: Nihil.Core.Error (Str)
Trusted boundary: the members of the two classes in the C locale.
Main exports: CtypeIs, isCSpace, isCDigit, skipws
-/
import Nihil.Core.Error

namespace Nihil

/-- `ctype_is`: the test for one class of characters in one locale. -/
abbrev CtypeIs := Char → Bool

/-- `is_c_space`. -/
def isCSpace : CtypeIs := fun c =>
  c = ' ' ∨ c = '\t' ∨ c = '\n' ∨ c = '\x0b' ∨ c = '\x0c' ∨ c = '\r'

/-- `is_c_digit`. -/
def isCDigit : CtypeIs := fun c => '0' ≤ c ∧ c ≤ '9'

/-- `skipws`: the text from its first character that is not a space. -/
def skipws (isSpace : CtypeIs) (text : Str) : Str :=
  text.dropWhile isSpace

end Nihil

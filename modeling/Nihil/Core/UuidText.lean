/-
Module: Nihil.Core.UuidText
Layer: Core
Purpose: The text of a uuid. `from_string` and `is_valid_uuid` accept thirty-two hexadecimal digits with
  hyphens anywhere among them and, if the text begins with a brace, one brace at either end. `to_string`
  writes one such text, which is read back and keeps the order of the uuids.
Imports: Nihil.Core.Uuid, Nihil.Library.Lexicographic
Trusted boundary: none
Main exports: hex2char, isHex, Uuid.isValidUuid, Uuid.fromString, Uuid.toString, hexPair, Uuid.digits,
  fromString_iff, text, toString_eq, hexCode, text_lt_iff, toString_laws
-/
import Nihil.Core.Uuid
import Nihil.Library.Lexicographic

namespace Nihil

open Nihil.Library

/-- `hex2char`. -/
def hex2char (ch : Char) : BitVec 8 :=
  if '0' ≤ ch ∧ ch ≤ '9' then BitVec.ofNat 8 (ch.toNat - '0'.toNat)
  else if 'a' ≤ ch ∧ ch ≤ 'f' then BitVec.ofNat 8 (10 + ch.toNat - 'a'.toNat)
  else if 'A' ≤ ch ∧ ch ≤ 'F' then BitVec.ofNat 8 (10 + ch.toNat - 'A'.toNat)
  else 0

/-- `is_hex`. -/
def isHex (ch : Char) : Bool :=
  ('0' ≤ ch ∧ ch ≤ '9') ∨ ('a' ≤ ch ∧ ch ≤ 'f') ∨ ('A' ≤ ch ∧ ch ≤ 'F')

namespace Uuid

/-- The loop of `is_valid_uuid` over the characters between the braces: the number of bytes that it has seen,
unless it returns false. -/
def validLoop : Str → Bool → Nat → Option Nat
  | [], _, index => some index
  | c :: str, firstDigit, index =>
      if c = '-' then validLoop str firstDigit index
      else if index ≥ 16 ∨ isHex c = false then none
      else if firstDigit then validLoop str false index
      else validLoop str true (index + 1)

/-- The loop of `from_string`. -/
def fromStringLoop : Str → Bool → Nat → Vector (BitVec 8) 16 → Option (Nat × Vector (BitVec 8) 16)
  | [], _, index, data => some (index, data)
  | c :: str, firstDigit, index, data =>
      if c = '-' then fromStringLoop str firstDigit index data
      else if bound : index ≥ 16 ∨ isHex c = false then none
      else
        have inside : index < 16 := by omega
        if firstDigit then fromStringLoop str false index (data.set index (hex2char c <<< 4))
        else fromStringLoop str true (index + 1) (data.set index (data[index] ||| hex2char c))

/-- The characters that the loops run over, for a string that is not empty and whose braces are closed. -/
def betweenBraces (str : Str) : Option Str :=
  if str = [] then none
  else
    let hasBraces := if str.head? = some '\x7b' then 1 else 0
    if hasBraces = 1 ∧ str.getLast? ≠ some '\x7d' then none
    else some ((str.take (str.length - hasBraces)).drop hasBraces)

/-- `uuid::is_valid_uuid`. -/
def isValidUuid (str : Str) : Bool :=
  match betweenBraces str with
  | none => false
  | some body =>
      match validLoop body true 0 with
      | none => false
      | some index => if index < 16 then false else true

/-- `uuid::from_string`. -/
def fromString (str : Str) : Option Uuid :=
  match betweenBraces str with
  | none => none
  | some body =>
      match fromStringLoop body true 0 (Vector.replicate 16 0) with
      | none => none
      | some (index, data) => if index < 16 then none else some ⟨data⟩

/-- `empty_guid`. -/
def emptyGuid : Str := "00000000-0000-0000-0000-000000000000".toList

/-- `guid_encoder`. -/
def guidEncoder : Vector Char 16 :=
  #v['0', '1', '2', '3', '4', '5', '6', '7', '8', '9', 'a', 'b', 'c', 'd', 'e', 'f']

theorem masked_lt : ∀ digit : BitVec 8, (digit &&& 0x0F).toNat < 16 := by decide

/-- The digit for four bits. -/
def guidEncode (digit : BitVec 8) : Char := guidEncoder.get ⟨(digit &&& 0x0F).toNat, masked_lt digit⟩

/-- The loop of `to_string`; `data.at(index)` throws outside the array. -/
def toStringLoop (data : Vector (BitVec 8) 16) (i index : Nat) (uustr : Str) : Option Str :=
  if i < 36 then
    if i = 8 ∨ i = 13 ∨ i = 18 ∨ i = 23 then toStringLoop data (i + 1) index uustr
    else
      match data[index]? with
      | none => none
      | some byte =>
          let uustr := uustr.set i (guidEncode (byte >>> 4))
          let uustr := uustr.set (i + 1) (guidEncode byte)
          toStringLoop data (i + 2) (index + 1) uustr
  else some uustr
termination_by 36 - i

/-- `to_string`. -/
def toString (self : Uuid) : Option Str := toStringLoop self.data 0 0 emptyGuid

end Uuid

/-! ### Digits -/

/-- The two digits of a byte. -/
def hexPair (byte : BitVec 8) : Str := [Uuid.guidEncode (byte >>> 4), Uuid.guidEncode byte]

/-- The thirty-two digits of a uuid. -/
def Uuid.digits (self : Uuid) : Str := self.data.toList.flatMap hexPair

/-- The bytes of a text of digits, two digits to a byte. -/
def readPairs : Str → Option (List (BitVec 8))
  | [] => some []
  | [_] => none
  | c :: c' :: str =>
      if isHex c ∧ isHex c' then (readPairs str).map ((hex2char c <<< 4 ||| hex2char c') :: ·) else none

theorem isHex_guidEncode : ∀ digit : BitVec 8, isHex (Uuid.guidEncode digit) := by decide

theorem hexPair_read : ∀ byte : BitVec 8,
    hex2char (Uuid.guidEncode (byte >>> 4)) <<< 4 ||| hex2char (Uuid.guidEncode byte) = byte := by decide

/-- What holds of the characters below 128 holds of any character that is one of them. -/
theorem of_ascii {p : Char → Prop} (ascii : ∀ n < 128, p (Char.ofNat n)) {c : Char}
    (small : c.toNat < 128) : p c := by
  rw [← Char.ofNat_toNat c]
  exact ascii c.toNat small

theorem isHex_small {c : Char} (hex : isHex c) : c.toNat < 128 := by
  simp only [isHex, decide_eq_true_eq] at hex
  have bound : ∀ {upper : Char}, upper.toNat < 128 → c ≤ upper → c.toNat < 128 := fun small upTo =>
    Nat.lt_of_le_of_lt (Char.le_def.mp upTo) small
  obtain ⟨_, upTo⟩ | ⟨_, upTo⟩ | ⟨_, upTo⟩ := hex
  · exact bound (by decide) upTo
  · exact bound (by decide) upTo
  · exact bound (by decide) upTo

/-- What a digit is: in lower case it is the one that is written for its value, which has four bits. -/
structure Digit (c : Char) : Prop where
  lower : c.toLower = Uuid.guidEncode (hex2char c)
  value : hex2char (Uuid.guidEncode (hex2char c)) = hex2char c
  four_bits : ((hex2char c).setWidth 4).setWidth 8 = hex2char c

theorem digit_of_isHex {c : Char} (hex : isHex c) : Digit c := by
  have lower : ∀ n < 128, isHex (Char.ofNat n) →
      (Char.ofNat n).toLower = Uuid.guidEncode (hex2char (Char.ofNat n)) := by decide
  have value : ∀ n < 128, isHex (Char.ofNat n) →
      hex2char (Uuid.guidEncode (hex2char (Char.ofNat n))) = hex2char (Char.ofNat n) := by decide
  have four_bits : ∀ n < 128, isHex (Char.ofNat n) →
      ((hex2char (Char.ofNat n)).setWidth 4).setWidth 8 = hex2char (Char.ofNat n) := by decide
  have digits : ∀ n < 128, isHex (Char.ofNat n) → Digit (Char.ofNat n) := fun n small hex =>
    ⟨lower n small hex, value n small hex, four_bits n small hex⟩
  exact of_ascii (p := fun c => isHex c → Digit c) digits (isHex_small hex) hex

theorem isHex_of_toLower {c : Char} {digit : BitVec 8} (lower : c.toLower = Uuid.guidEncode digit) :
    isHex c := by
  have digits : ∀ digit, (Uuid.guidEncode digit).toNat < 128 := by decide
  have ascii : ∀ n < 128, isHex (Char.ofNat n).toLower → isHex (Char.ofNat n) := by decide
  have lowered : isHex c.toLower := lower ▸ isHex_guidEncode digit
  have small : c.toNat < 128 := by
    by_contra large
    have not_upper : ¬ (c.val ≥ 'A'.val ∧ c.val ≤ 'Z'.val) := fun upper =>
      large (Nat.lt_of_le_of_lt upper.2 (by decide))
    have same : c.toLower = c := dif_neg not_upper
    exact large (same ▸ lower ▸ digits digit)
  exact of_ascii (p := fun c => isHex c.toLower → isHex c) ascii small lowered

/-- Two digits are read as a byte exactly if they are the ones that are written for it. -/
theorem pair_eq_iff {c c' : Char} (digit : Digit c) (digit' : Digit c') (byte : BitVec 8) :
    hex2char c <<< 4 ||| hex2char c' = byte
      ↔ c.toLower = Uuid.guidEncode (byte >>> 4) ∧ c'.toLower = Uuid.guidEncode byte := by
  have halves : ∀ high low : BitVec 4,
      Uuid.guidEncode ((high.setWidth 8 <<< 4 ||| low.setWidth 8) >>> 4) = Uuid.guidEncode (high.setWidth 8)
        ∧ Uuid.guidEncode (high.setWidth 8 <<< 4 ||| low.setWidth 8) = Uuid.guidEncode (low.setWidth 8) := by
    decide
  rw [digit.lower, digit'.lower]
  constructor
  · intro same
    have written := halves ((hex2char c).setWidth 4) ((hex2char c').setWidth 4)
    rw [digit.four_bits, digit'.four_bits, same] at written
    exact ⟨written.1.symm, written.2.symm⟩
  · rintro ⟨high, low⟩
    rw [← digit.value, ← digit'.value, high, low, hexPair_read]

/-- Pairs of digits are read exactly if they are, in lower case, those that are written for the bytes. -/
theorem readPairs_eq_some_iff (str : Str) (bytes : List (BitVec 8)) :
    readPairs str = some bytes ↔ str.map Char.toLower = bytes.flatMap hexPair := by
  fun_induction readPairs str generalizing bytes with
  | case1 =>
      cases bytes with
      | nil => simp
      | cons byte bytes => simp [hexPair]
  | case2 c =>
      cases bytes with
      | nil => simp
      | cons byte bytes => simp [hexPair]
  | case3 c c' str hex ih =>
      obtain ⟨first, second⟩ := hex
      cases bytes with
      | nil => simp
      | cons byte bytes =>
          have pair := pair_eq_iff (digit_of_isHex first) (digit_of_isHex second) byte
          simp only [Option.map_eq_some_iff, List.cons.injEq, List.map_cons, List.flatMap_cons, hexPair,
            List.cons_append, List.nil_append]
          constructor
          · rintro ⟨rest, read, same, rfl⟩
            obtain ⟨high, low⟩ := pair.mp same
            exact ⟨high, low, (ih rest).mp read⟩
          · rintro ⟨high, low, written⟩
            exact ⟨bytes, (ih bytes).mpr written, pair.mpr ⟨high, low⟩, rfl⟩
  | case4 c c' str other =>
      cases bytes with
      | nil => simp
      | cons byte bytes =>
          simp only [List.map_cons, List.flatMap_cons, hexPair, List.cons_append, List.nil_append,
            List.cons.injEq, reduceCtorEq, false_iff]
          intro same
          exact other ⟨isHex_of_toLower same.1, isHex_of_toLower same.2.1⟩

/-! ### The loops -/

namespace Uuid

/-- Hyphens do not count. -/
theorem fromStringLoop_filter (str : Str) (firstDigit : Bool) (index : Nat) (data : Vector (BitVec 8) 16) :
    fromStringLoop (str.filter (· ≠ '-')) firstDigit index data
      = fromStringLoop str firstDigit index data := by
  induction str generalizing firstDigit index data with
  | nil => rfl
  | cons c str ih =>
      by_cases hyphen : c = '-'
      · subst hyphen
        simpa [fromStringLoop] using ih firstDigit index data
      · simp only [ne_eq, decide_not] at ih ⊢
        simp [fromStringLoop, hyphen, ih]

/-- The validity check runs as the reading loop does, without the bytes. -/
theorem validLoop_eq (str : Str) (firstDigit : Bool) (index : Nat) (data : Vector (BitVec 8) 16) :
    validLoop str firstDigit index = (fromStringLoop str firstDigit index data).map Prod.fst := by
  induction str generalizing firstDigit index data with
  | nil => rfl
  | cons c str ih =>
      unfold validLoop fromStringLoop
      split
      case isTrue => exact ih firstDigit index data
      case isFalse =>
        split
        case isTrue => rfl
        case isFalse =>
          cases firstDigit with
          | true => exact ih false index _
          | false => exact ih true (index + 1) _

/-- The bytes that the reading loop ends with, if it has read sixteen. -/
def complete : Option (Nat × Vector (BitVec 8) 16) → Option (List (BitVec 8))
  | none => none
  | some (index, data) => if index < 16 then none else some data.toList

theorem fromStringLoop_digit {c : Char} (hyphenless : c ≠ '-') (str : Str) (firstDigit : Bool) (index : Nat)
    (data : Vector (BitVec 8) 16) :
    fromStringLoop (c :: str) firstDigit index data
      = if inside : index < 16 then
          if isHex c then
            if firstDigit then fromStringLoop str false index (data.set index (hex2char c <<< 4))
            else fromStringLoop str true (index + 1) (data.set index (data[index] ||| hex2char c))
          else none
        else none := by
  rw [fromStringLoop, if_neg hyphenless]
  by_cases inside : index < 16
  · by_cases hex : isHex c
    · have bound : ¬ (index ≥ 16 ∨ isHex c = false) := by simp [inside, hex]
      rw [dif_neg bound, dif_pos inside, if_pos hex]
    · have bound : index ≥ 16 ∨ isHex c = false := Or.inr (by simpa using hex)
      rw [dif_pos bound, dif_pos inside, if_neg hex]
  · have bound : index ≥ 16 ∨ isHex c = false := Or.inl (Nat.le_of_not_lt inside)
    rw [dif_pos bound, dif_neg inside]

/-- At the first digit of a byte, the loop reads pairs of digits into the rest of the array. -/
theorem complete_fromStringLoop (str : Str) (hyphenless : '-' ∉ str) (index : Nat) (upTo : index ≤ 16)
    (data : Vector (BitVec 8) 16) :
    complete (fromStringLoop str true index data)
      = (readPairs str).bind fun bytes =>
          if index + bytes.length = 16 then some (data.toList.take index ++ bytes) else none := by
  fun_induction readPairs str generalizing index data with
  | case1 =>
      simp only [fromStringLoop, complete, Option.bind_some, List.length_nil, Nat.add_zero, List.append_nil]
      by_cases full : index = 16
      · subst full
        rw [if_neg (Nat.lt_irrefl 16), if_pos rfl, List.take_of_length_le (by simp)]
      · rw [if_pos (Nat.lt_of_le_of_ne upTo full), if_neg full]
  | case2 c =>
      have first : c ≠ '-' := fun same => hyphenless (same ▸ List.mem_singleton_self _)
      rw [fromStringLoop_digit first]
      by_cases inside : index < 16
      · rw [dif_pos inside]
        by_cases hex : isHex c
        · rw [if_pos hex, if_pos rfl]
          simp [fromStringLoop, complete, inside]
        · rw [if_neg hex]
          rfl
      · rw [dif_neg inside]
        rfl
  | case3 c c' str hex ih =>
      simp only [List.mem_cons, not_or] at hyphenless
      obtain ⟨first, second, rest⟩ := hyphenless
      rw [fromStringLoop_digit (Ne.symm first)]
      by_cases inside : index < 16
      · rw [dif_pos inside, if_pos hex.1, if_pos rfl, fromStringLoop_digit (Ne.symm second), dif_pos inside,
          if_pos hex.2, if_neg Bool.false_ne_true, ih rest (index + 1) inside, Option.bind_map]
        have taken : ∀ byte, ((data.set index (hex2char c <<< 4)).set index byte).toList.take (index + 1)
            = data.toList.take index ++ [byte] := by
          intro byte
          rw [Vector.toList_set, List.take_succ_eq_append_getElem (by simpa using inside),
            List.getElem_set_self, List.take_set_of_le (Nat.le_refl _), Vector.toList_set,
            List.take_set_of_le (Nat.le_refl _)]
        simp only [Function.comp_def, List.length_cons, taken, Vector.getElem_set_self, List.append_assoc,
          List.singleton_append]
        congr 1
        funext bytes
        have count : index + 1 + bytes.length = index + (bytes.length + 1) := by omega
        rw [count]
      · have full : index = 16 := Nat.le_antisymm upTo (Nat.le_of_not_lt inside)
        rw [dif_neg inside]
        cases readPairs str with
        | none => rfl
        | some bytes => simp [complete, full]
  | case4 c c' str other =>
      simp only [List.mem_cons, not_or] at hyphenless
      obtain ⟨first, second, rest⟩ := hyphenless
      rw [fromStringLoop_digit (Ne.symm first), Option.bind_none]
      by_cases inside : index < 16
      · rw [dif_pos inside]
        by_cases hex : isHex c
        · have last : ¬ isHex c' = true := fun hex' => other ⟨hex, hex'⟩
          rw [if_pos hex, if_pos rfl, fromStringLoop_digit (Ne.symm second), dif_pos inside, if_neg last]
          rfl
        · rw [if_neg hex]
          rfl
      · rw [dif_neg inside]
        rfl

/-! ### What is accepted -/

/-- The body of a text: all of it, or what is between the braces of a text that begins with one. -/
theorem betweenBraces_eq_some_iff (str body : Str) :
    betweenBraces str = some body
      ↔ str ≠ [] ∧ str.head? ≠ some '\x7b' ∧ str = body ∨ str = '\x7b' :: (body ++ ['\x7d']) := by
  by_cases empty : str = []
  · simp [betweenBraces, empty]
  by_cases brace : str.head? = some '\x7b'
  · by_cases closed : str.getLast? = some '\x7d'
    · obtain ⟨front, ends⟩ : ∃ front, str = front ++ ['\x7d'] :=
        ⟨str.dropLast, (List.dropLast_append_getLast? _ closed).symm⟩
      subst ends
      cases front with
      | nil => simp at brace
      | cons c front =>
          have begins : c = '\x7b' := by simpa using brace
          have ends : ('\x7b' :: (front ++ ['\x7d'])).getLast? = some '\x7d' := by
            rw [← List.cons_append]
            exact List.getLast?_concat
          simp [betweenBraces, begins, ends]
    · have unequal : str ≠ '\x7b' :: (body ++ ['\x7d']) := by
        intro same
        rw [same, ← List.cons_append, List.getLast?_concat] at closed
        exact closed rfl
      simp [betweenBraces, empty, brace, closed, unequal]
  · have unequal : str ≠ '\x7b' :: (body ++ ['\x7d']) := by
      intro same
      rw [same] at brace
      exact brace rfl
    simp [betweenBraces, empty, brace, unequal]

/-- What `from_string` gives for a body: the uuid of its digits. -/
theorem complete_body (body : Str) (uuid : Uuid) :
    complete (fromStringLoop body true 0 (Vector.replicate 16 0)) = some uuid.data.toList
      ↔ (body.filter (· ≠ '-')).map Char.toLower = uuid.digits := by
  have hyphenless : '-' ∉ body.filter (· ≠ '-') := by simp
  rw [← fromStringLoop_filter, complete_fromStringLoop _ hyphenless 0 (Nat.zero_le 16), digits,
    ← readPairs_eq_some_iff]
  cases readPairs (body.filter (· ≠ '-')) with
  | none => simp
  | some bytes =>
      simp only [Option.bind_some, Nat.zero_add, List.take_zero, List.nil_append, Option.some.injEq,
        Option.ite_none_right_eq_some, and_iff_right_iff_imp]
      intro same
      simp [same]

theorem fromString_eq_some_iff (str : Str) (uuid : Uuid) :
    fromString str = some uuid
      ↔ ∃ body, betweenBraces str = some body
        ∧ complete (fromStringLoop body true 0 (Vector.replicate 16 0)) = some uuid.data.toList := by
  unfold fromString
  cases betweenBraces str with
  | none => simp
  | some body =>
      simp only [Option.some.injEq, exists_eq_left']
      generalize fromStringLoop body true 0 (Vector.replicate 16 0) = read
      cases read with
      | none => simp [complete]
      | some state =>
          obtain ⟨index, data⟩ := state
          have data_eq : (⟨data⟩ : Uuid) = uuid ↔ data.toList = uuid.data.toList := by
            rw [Vector.toList_inj, Uuid.ext_iff]
          simp [complete, data_eq]

/-- The digits of a uuid are not empty and have no brace among them. -/
theorem digits_facts (uuid : Uuid) : uuid.digits ≠ [] ∧ ∀ c ∈ uuid.digits, isHex c := by
  have length : uuid.data.toList.length = 16 := Vector.length_toList
  constructor
  · intro none_at_all
    rw [digits] at none_at_all
    cases bytes : uuid.data.toList with
    | nil => simp [bytes] at length
    | cons byte rest => simp [bytes, hexPair] at none_at_all
  · intro c mem
    simp only [digits, List.mem_flatMap, hexPair, List.mem_cons, List.not_mem_nil, or_false] at mem
    obtain ⟨byte, _, rfl | rfl⟩ := mem
    · exact isHex_guidEncode _
    · exact isHex_guidEncode _

/-- `from_string` accepts, and `is_valid_uuid` with it, the texts whose digits are, in lower case and without
the hyphens, those of a uuid, between braces or without any, and gives that uuid. -/
theorem fromString_iff (str : Str) :
    (∀ uuid, fromString str = some uuid
        ↔ ∃ body, (str = body ∨ str = '\x7b' :: (body ++ ['\x7d']))
            ∧ (body.filter (· ≠ '-')).map Char.toLower = uuid.digits)
      ∧ isValidUuid str = (fromString str).isSome := by
  constructor
  · intro uuid
    simp only [fromString_eq_some_iff, complete_body, betweenBraces_eq_some_iff]
    constructor
    · rintro ⟨body, whole | braces, read⟩
      · exact ⟨body, Or.inl whole.2.2, read⟩
      · exact ⟨body, Or.inr braces, read⟩
    · rintro ⟨body, rfl | braces, read⟩
      · obtain ⟨nonempty, hex⟩ := digits_facts uuid
        refine ⟨str, Or.inl ⟨?_, ?_, rfl⟩, read⟩
        · intro empty
          rw [empty] at read
          exact nonempty read.symm
        · intro brace
          cases str with
          | nil => cases brace
          | cons c str =>
              cases Option.some.inj brace
              have digit : '\x7b' ∈ uuid.digits := by
                rw [← read]
                simp
              exact absurd (hex _ digit) (by decide)
      · exact ⟨body, Or.inr braces, read⟩
  · unfold isValidUuid fromString
    cases betweenBraces str with
    | none => rfl
    | some body =>
        simp only [validLoop_eq body true 0 (Vector.replicate 16 0)]
        cases fromStringLoop body true 0 (Vector.replicate 16 0) with
        | none => rfl
        | some state =>
            simp only [Option.map_some]
            split_ifs
            · rfl
            · rfl

/-! ### What is written -/

/-- The text of a uuid: its digits in groups of eight, four, four, four and twelve. -/
def text (self : Uuid) : Str :=
  let group (first count : Nat) : Str := ((self.data.toList.drop first).take count).flatMap hexPair
  group 0 4 ++ '-' :: (group 4 2 ++ '-' :: (group 6 2 ++ '-' :: (group 8 2 ++ '-' :: group 10 6)))

theorem toStringLoop_digits {data : Vector (BitVec 8) 16} {i index : Nat} (below : i < 36)
    (digits : ¬ (i = 8 ∨ i = 13 ∨ i = 18 ∨ i = 23)) (inside : index < 16) (uustr : Str) :
    toStringLoop data i index uustr
      = toStringLoop data (i + 2) (index + 1)
          ((uustr.set i (guidEncode (data[index] >>> 4))).set (i + 1) (guidEncode data[index])) := by
  rw [toStringLoop, if_pos below, if_neg digits, Vector.getElem?_eq_getElem inside]

theorem toStringLoop_hyphen {data : Vector (BitVec 8) 16} {i index : Nat} (below : i < 36)
    (hyphen : i = 8 ∨ i = 13 ∨ i = 18 ∨ i = 23) (uustr : Str) :
    toStringLoop data i index uustr = toStringLoop data (i + 1) index uustr := by
  rw [toStringLoop, if_pos below, if_pos hyphen]

theorem toStringLoop_end (data : Vector (BitVec 8) 16) (index : Nat) (uustr : Str) :
    toStringLoop data 36 index uustr = some uustr := by
  rw [toStringLoop, if_neg (by decide)]

theorem emptyGuid_eq :
    emptyGuid = ['0', '0', '0', '0', '0', '0', '0', '0', '-', '0', '0', '0', '0', '-', '0', '0', '0', '0', '-',
      '0', '0', '0', '0', '-', '0', '0', '0', '0', '0', '0', '0', '0', '0', '0', '0', '0'] := by
  decide

/-- `to_string` writes the text of the uuid and reads no byte outside it. -/
theorem toString_eq (self : Uuid) : self.toString = some self.text := by
  obtain ⟨⟨⟨bytes⟩, size⟩⟩ := self
  match bytes, size with
  | [b₀, b₁, b₂, b₃, b₄, b₅, b₆, b₇, b₈, b₉, b₁₀, b₁₁, b₁₂, b₁₃, b₁₄, b₁₅], size =>
      simp (disch := decide) only [toString, toStringLoop_digits, toStringLoop_hyphen, toStringLoop_end,
        Nat.reduceAdd, emptyGuid_eq, List.set_cons_zero, List.set_cons_succ]
      simp only [text, hexPair, Vector.toList_mk, List.drop_zero, List.drop_succ_cons, List.take_succ_cons,
        List.take_zero, List.flatMap_cons, List.flatMap_nil, List.cons_append, List.nil_append]
      rfl

/-- The digits of a text of bytes, as they are read. -/
theorem filter_toLower_hexPairs (bytes : List (BitVec 8)) :
    ((bytes.flatMap hexPair).filter (· ≠ '-')).map Char.toLower = bytes.flatMap hexPair := by
  have digit : ∀ byte, guidEncode byte ≠ '-' ∧ (guidEncode byte).toLower = guidEncode byte := by decide
  induction bytes with
  | nil => rfl
  | cons byte bytes ih =>
      have high := digit (byte >>> 4)
      have low := digit byte
      simp only [ne_eq, decide_not] at ih
      simp [hexPair, high, low, ih]

/-- The groups of the bytes, one behind another. -/
theorem groups_eq (self : Uuid) :
    self.data.toList
      = (self.data.toList.drop 0).take 4 ++ ((self.data.toList.drop 4).take 2
        ++ ((self.data.toList.drop 6).take 2 ++ ((self.data.toList.drop 8).take 2
        ++ (self.data.toList.drop 10).take 6))) := by
  have size : self.data.toList.length = 16 := Vector.length_toList
  generalize self.data.toList = bytes at size
  match bytes, size with
  | [_, _, _, _, _, _, _, _, _, _, _, _, _, _, _, _], _ => rfl

theorem digits_text (self : Uuid) : (self.text.filter (· ≠ '-')).map Char.toLower = self.digits := by
  have hyphen : ∀ str : Str, ('-' :: str).filter (· ≠ '-') = str.filter (· ≠ '-') := by simp
  rw [digits, groups_eq]
  simp only [text, List.filter_append, List.map_append, List.flatMap_append, hyphen, filter_toLower_hexPairs]

end Uuid

/-! ### Order -/

/-- The digit of four bits keeps their order. -/
theorem guidEncode_low : ∀ byte : BitVec 8,
    Uuid.guidEncode byte = Uuid.guidEncode ((byte.setWidth 4).setWidth 8) := by decide

theorem guidEncode_lt : ∀ digit digit' : BitVec 4,
    (Uuid.guidEncode (digit.setWidth 8) < Uuid.guidEncode (digit'.setWidth 8) ↔ digit < digit')
      ∧ (Uuid.guidEncode (digit.setWidth 8) = Uuid.guidEncode (digit'.setWidth 8) ↔ digit = digit') := by
  decide

/-- A byte is compared by its high half, and by its low half where the high halves are equal. -/
theorem lt_iff_halves (byte byte' : BitVec 8) :
    byte < byte' ↔ (byte >>> 4).setWidth 4 < (byte' >>> 4).setWidth 4
      ∨ (byte >>> 4).setWidth 4 = (byte' >>> 4).setWidth 4 ∧ byte.setWidth 4 < byte'.setWidth 4 := by
  simp only [BitVec.lt_def, ← BitVec.toNat_inj, BitVec.toNat_setWidth, BitVec.toNat_ushiftRight,
    Nat.shiftRight_eq_div_pow]
  omega

theorem eq_iff_halves (byte byte' : BitVec 8) :
    byte = byte' ↔ (byte >>> 4).setWidth 4 = (byte' >>> 4).setWidth 4
      ∧ byte.setWidth 4 = byte'.setWidth 4 := by
  simp only [← BitVec.toNat_inj, BitVec.toNat_setWidth, BitVec.toNat_ushiftRight, Nat.shiftRight_eq_div_pow]
  omega

/-- The two digits of a byte keep the order of the bytes. -/
def hexCode : FixedCode (BitVec 8) Char where
  word := hexPair
  width := 2
  length_word _ := rfl
  word_inj byte byte' same := by
    simp only [hexPair, List.cons.injEq, and_true] at same
    rw [guidEncode_low, guidEncode_low (byte' >>> 4), guidEncode_low byte, guidEncode_low byte',
      (guidEncode_lt _ _).2, (guidEncode_lt _ _).2] at same
    exact (eq_iff_halves byte byte').mpr same
  word_lt_iff byte byte' := by
    simp only [hexPair, List.cons_lt_cons_iff]
    rw [guidEncode_low, guidEncode_low (byte' >>> 4), guidEncode_low byte, guidEncode_low byte',
      (guidEncode_lt _ _).1, (guidEncode_lt _ _).1, (guidEncode_lt _ _).2, lt_iff_halves]
    simp

/-- A group of digits and what follows its hyphen are compared as the bytes are. -/
theorem group_lt_iff {group group' bytes bytes' : List (BitVec 8)} {str str' : Str}
    (length : group.length = group'.length) (rest : str < str' ↔ bytes < bytes') :
    group.flatMap hexPair ++ '-' :: str < group'.flatMap hexPair ++ '-' :: str'
      ↔ group ++ bytes < group' ++ bytes' := by
  have words : (group.flatMap hexPair).length = (group'.flatMap hexPair).length := by
    have widths := hexCode.length_flatMap group
    have widths' := hexCode.length_flatMap group'
    exact widths.trans (length ▸ widths'.symm)
  have first : group.flatMap hexPair < group'.flatMap hexPair ↔ group < group' :=
    hexCode.flatMap_lt_iff length
  have same : group.flatMap hexPair = group'.flatMap hexPair ↔ group = group' := hexCode.flatMap_inj length
  have hyphen : '-' :: str < '-' :: str' ↔ str < str' := by simp
  rw [append_lt_append_iff words, append_lt_append_iff length, first, same, hyphen, rest]

namespace Uuid

theorem text_lt_iff (lhs rhs : Uuid) : lhs.text < rhs.text ↔ lhs.less rhs := by
  have lengths : ∀ first count, ((lhs.data.toList.drop first).take count).length
      = ((rhs.data.toList.drop first).take count).length := by
    intro first count
    simp
  have last : ((lhs.data.toList.drop 10).take 6).flatMap hexPair
        < ((rhs.data.toList.drop 10).take 6).flatMap hexPair
      ↔ (lhs.data.toList.drop 10).take 6 < (rhs.data.toList.drop 10).take 6 :=
    hexCode.flatMap_lt_iff (lengths 10 6)
  rw [less, decide_eq_true_iff, groups_eq lhs, groups_eq rhs]
  exact group_lt_iff (lengths 0 4) (group_lt_iff (lengths 4 2) (group_lt_iff (lengths 6 2)
    (group_lt_iff (lengths 8 2) last)))

/-- The text of a uuid is read back as the uuid. -/
theorem fromString_text (self : Uuid) : fromString self.text = some self :=
  ((fromString_iff self.text).1 self).mpr ⟨self.text, Or.inl rfl, self.digits_text⟩

/-- `to_string` gives a text that `from_string` takes back to the uuid. Two uuids are equal, or in order,
exactly if their texts are. -/
theorem toString_laws (lhs rhs : Uuid) :
    ∃ str str', lhs.toString = some str ∧ rhs.toString = some str' ∧ fromString str = some lhs
      ∧ (lhs = rhs ↔ str = str') ∧ (lhs.less rhs ↔ str < str') := by
  refine ⟨lhs.text, rhs.text, lhs.toString_eq, rhs.toString_eq, lhs.fromString_text, ?_,
    (lhs.text_lt_iff rhs).symm⟩
  constructor
  · intro same
    rw [same]
  · intro same
    have read := lhs.fromString_text
    rw [same, rhs.fromString_text] at read
    exact (Option.some.inj read).symm

end Uuid

end Nihil

/-
Module: Nihil.Core.Flagset
Layer: Core
Purpose: flagset and its formatter. The loop of the formatter runs over numeric_limits::digits bits, which
  leaves out the sign bit, and it prints the tens of a bit number only above ten, so that bit ten is printed
  as bit zero. `printed_iff` says for which values the text names the bits that are set; from such a text
  the value can be read back.
Imports: Nihil.Core.Error, Nihil.Library.Words
Trusted boundary: none
Main exports: BaseType, Flagset, format, setBits, flagsText, readFlags, Printed, Printable, format_eq,
  format_eq_flagsText_iff, readFlags_flagsText, printed_iff
-/
import Mathlib.Data.List.Basic
import Nihil.Core.Error
import Nihil.Library.Words

namespace Nihil

open Nihil.Library

/-- An integral type, whose values are in two's complement. -/
structure BaseType where
  signed : Bool
  width : Nat
deriving DecidableEq, Repr

/-- `std::numeric_limits<base_type>::digits`, which does not count a sign bit. -/
def BaseType.digits (self : BaseType) : Nat :=
  if self.signed then self.width - 1 else self.width

/-- `flagset`. -/
structure Flagset (base : BaseType) where
  value : BitVec base.width
deriving DecidableEq

variable {base : BaseType}

/-- `flagset::from_int`. -/
def Flagset.fromInt (value : BitVec base.width) : Flagset base := ⟨value⟩

/-- `operator|=` and `operator|`. -/
def Flagset.or (lhs rhs : Flagset base) : Flagset base := ⟨lhs.value ||| rhs.value⟩

/-- `operator&=` and `operator&`. -/
def Flagset.and (lhs rhs : Flagset base) : Flagset base := ⟨lhs.value &&& rhs.value⟩

/-- `operator~`. -/
def Flagset.complement (self : Flagset base) : Flagset base := ⟨~~~self.value⟩

/-! ### The formatter -/

/-- `Char{'0'} + n`. -/
def zeroPlus (n : Nat) : Char := Char.ofNat ('0'.toNat + n)

/-- What the formatter prints for one bit. -/
def bitText (bit : Nat) : Str :=
  (if bit > 10 then [zeroPlus (bit / 10)] else []) ++ [zeroPlus (bit % 10)]

/-- The loop of `format`, with the number of bits that are left. -/
def formatLoop {width : Nat} (value : BitVec width) : Nat → Bool → Str
  | 0, _ => []
  | bit + 1, printedAny =>
      let thisBit := BitVec.twoPow width bit
      if value &&& thisBit = 0 then formatLoop value bit printedAny
      else (if printedAny then [','] else []) ++ bitText bit ++ formatLoop value bit true

/-- `std::formatter<flagset>::format`. -/
def Flagset.format (flags : Flagset base) : Str :=
  '<' :: (formatLoop flags.value base.digits false ++ ['>'])

/-! ### What it is for -/

/-- The set bits below a bit, in descending order. -/
def bitsBelow {width : Nat} (value : BitVec width) (bound : Nat) : List Nat :=
  (List.range bound).reverse.filter fun bit => value.getLsbD bit

/-- The set bits of the representation. -/
def setBits {width : Nat} (value : BitVec width) : List Nat := bitsBelow value width

/-- The decimal numbers of the set bits. -/
def flagsText (flags : Flagset base) : Str :=
  '<' :: (joinWords ',' ((setBits flags.value).map (Nat.toDigits 10)) ++ ['>'])

/-- The flags with some bits. -/
def ofBits (base : BaseType) (bits : List Nat) : Flagset base :=
  .fromInt (bits.foldr (fun bit value => BitVec.twoPow base.width bit ||| value) 0)

/-- Read a text of bit numbers. -/
def readFlags (base : BaseType) (text : Str) : Flagset base :=
  ofBits base ((splitWords ',' text.tail.dropLast).map fun digits => Nat.ofDigitChars 10 digits 0)

/-- The text names the set bits, and the value can be read back from it. -/
structure Printed (flags : Flagset base) : Prop where
  text : flags.format = flagsText flags
  readBack : readFlags base flags.format = flags

/-- Neither the sign bit nor bit ten is set, and no bit that has three decimal digits. -/
def Printable (flags : Flagset base) : Prop :=
  ∀ bit, flags.value.getLsbD bit = true → bit < base.digits ∧ bit ≠ 10 ∧ bit < 100

/-! ### The text of the formatter -/

theorem bitsBelow_succ {width : Nat} (value : BitVec width) (bit : Nat) :
    bitsBelow value (bit + 1) =
      if value.getLsbD bit then bit :: bitsBelow value bit else bitsBelow value bit := by
  rw [bitsBelow, List.range_succ, List.reverse_append, List.reverse_singleton, List.singleton_append,
    List.filter_cons]
  rfl

theorem mem_bitsBelow {width : Nat} {value : BitVec width} {bound bit : Nat} :
    bit ∈ bitsBelow value bound ↔ bit < bound ∧ value.getLsbD bit = true := by
  simp [bitsBelow]

theorem mem_setBits {width : Nat} {value : BitVec width} {bit : Nat} :
    bit ∈ setBits value ↔ value.getLsbD bit = true := by
  rw [setBits, mem_bitsBelow, and_iff_right_iff_imp]
  exact BitVec.lt_of_getLsbD

theorem and_twoPow_eq_zero_iff {width : Nat} (value : BitVec width) {bit : Nat} (inside : bit < width) :
    value &&& BitVec.twoPow width bit = 0 ↔ value.getLsbD bit = false := by
  rw [BitVec.and_twoPow]
  split_ifs with set
  · apply iff_of_false
    · intro zero
      have cleared := congrArg (fun value : BitVec width => value.getLsbD bit) zero
      simp [inside] at cleared
    · simp [set]
  · exact iff_of_true rfl (Bool.not_eq_true _ ▸ set)

/-- The loop prints the set bits, each with a comma in front of it if one was printed before. -/
theorem formatLoop_eq {width : Nat} (value : BitVec width) {bound : Nat} (inside : bound ≤ width) :
    formatLoop value bound false = joinWords ',' ((bitsBelow value bound).map bitText) ∧
      formatLoop value bound true = (bitsBelow value bound).flatMap fun bit => ',' :: bitText bit := by
  induction bound with
  | zero => exact ⟨rfl, rfl⟩
  | succ bit ih =>
      obtain ⟨first, later⟩ := ih (Nat.le_of_succ_le inside)
      have clear := and_twoPow_eq_zero_iff value (Nat.lt_of_succ_le inside)
      rw [formatLoop, formatLoop, bitsBelow_succ]
      simp only [clear]
      cases set : value.getLsbD bit with
      | false => exact ⟨first, later⟩
      | true =>
          simp only [Bool.true_eq_false, if_false, if_true, List.map_cons, List.flatMap_cons, later,
            joinWords_cons, List.flatMap_map, Bool.false_eq_true, List.nil_append]
          exact ⟨trivial, rfl⟩

theorem BaseType.digits_le (base : BaseType) : base.digits ≤ base.width := by
  unfold digits
  split
  · exact Nat.sub_le _ _
  · exact Nat.le_refl _

theorem format_eq (flags : Flagset base) :
    flags.format = '<' :: (joinWords ',' ((bitsBelow flags.value base.digits).map bitText) ++ ['>']) := by
  rw [Flagset.format, (formatLoop_eq flags.value base.digits_le).1]

/-! ### The text that is wanted -/

theorem zeroPlus_ne_comma (n : Nat) : zeroPlus n ≠ ',' := by
  intro same
  have zero : '0'.toNat = 48 := rfl
  by_cases valid : ('0'.toNat + n).isValidChar
  · rw [zeroPlus, Char.ofNat, dif_pos valid] at same
    have code : '0'.toNat + n = 44 := congrArg Char.toNat same
    omega
  · rw [zeroPlus, Char.ofNat, dif_neg valid] at same
    exact absurd same (by decide)

theorem bitText_isWord (bit : Nat) : IsWord ',' (bitText bit) := by
  unfold bitText
  constructor
  · simp
  · intro comma
    have ones := (zeroPlus_ne_comma (bit % 10)).symm
    have tens := (zeroPlus_ne_comma (bit / 10)).symm
    split_ifs at comma <;> simp [ones, tens] at comma

theorem digits_isWord (bit : Nat) : IsWord ',' (Nat.toDigits 10 bit) := by
  refine ⟨Nat.toDigits_ne_nil, fun comma => ?_⟩
  have digit := Nat.isDigit_of_mem_toDigits (by decide) (by decide) comma
  exact absurd digit (by decide)

/-- The number of a bit is printed right below a hundred, except for ten. -/
theorem bitText_eq_iff (bit : Nat) : bitText bit = Nat.toDigits 10 bit ↔ bit ≠ 10 ∧ bit < 100 := by
  have small : ∀ bit < 100, bit ≠ 10 → bitText bit = Nat.toDigits 10 bit := by decide +kernel
  constructor
  · intro same
    constructor
    · rintro rfl
      revert same
      decide
    · have short : (bitText bit).length ≤ 2 := by
        unfold bitText
        split <;> simp
      rw [same] at short
      exact (Nat.length_toDigits_le_iff (by decide) (by decide)).mp short
  · rintro ⟨notTen, twoDigits⟩
    exact small bit twoDigits notTen

/-- Bits that are clear make no difference. -/
theorem bitsBelow_eq_of_clear {width bound more : Nat} {value : BitVec width} (le : bound ≤ more)
    (clear : ∀ bit, value.getLsbD bit = true → bit < bound) :
    bitsBelow value more = bitsBelow value bound := by
  induction le with
  | refl => rfl
  | @step bit reached ih =>
      have unset : ¬ value.getLsbD bit = true := fun set => Nat.not_lt_of_le reached (clear bit set)
      rw [bitsBelow_succ, if_neg unset, ih]

/-- The text of the formatter is the text that is wanted exactly for the values that can be printed. -/
theorem format_eq_flagsText_iff (flags : Flagset base) : flags.format = flagsText flags ↔ Printable flags := by
  rw [format_eq, flagsText]
  constructor
  · intro same
    have joined := List.append_cancel_right (List.cons.inj same).2
    have words := congrArg (splitWords ',') joined
    rw [splitWords_joinWords, splitWords_joinWords] at words
    · have count : (bitsBelow flags.value base.digits).length = (setBits flags.value).length := by
        simpa only [List.length_map] using congrArg List.length words
      have below : (bitsBelow flags.value base.digits).Sublist (setBits flags.value) :=
        ((List.range_sublist.mpr base.digits_le).reverse).filter _
      have all := below.eq_of_length count
      rw [all] at words
      intro bit set
      have inside := mem_setBits.mpr set
      have printed := List.map_inj_left.mp words bit inside
      rw [← all, mem_bitsBelow] at inside
      exact ⟨inside.1, (bitText_eq_iff bit).mp printed⟩
    · intro word member
      obtain ⟨bit, -, rfl⟩ := List.mem_map.mp member
      exact digits_isWord bit
    · intro word member
      obtain ⟨bit, -, rfl⟩ := List.mem_map.mp member
      exact bitText_isWord bit
  · intro printable
    rw [setBits, bitsBelow_eq_of_clear base.digits_le fun bit set => (printable bit set).1]
    congr 3
    apply List.map_congr_left
    intro bit member
    obtain ⟨-, notTen, twoDigits⟩ := printable bit (mem_bitsBelow.mp member).2
    exact (bitText_eq_iff bit).mpr ⟨notTen, twoDigits⟩

/-! ### Reading back -/

theorem getLsbD_ofBits (bits : List Nat) (bit : Nat) :
    (ofBits base bits).value.getLsbD bit = true ↔ bit < base.width ∧ bit ∈ bits := by
  unfold ofBits Flagset.fromInt
  induction bits with
  | nil => simp
  | cons first bits ih =>
      simp only [List.foldr_cons, BitVec.getLsbD_or, Bool.or_eq_true, ih, BitVec.getLsbD_twoPow,
        Bool.and_eq_true, decide_eq_true_eq, List.mem_cons]
      constructor
      · rintro (⟨inside, rfl⟩ | ⟨inside, member⟩)
        · exact ⟨inside, Or.inl rfl⟩
        · exact ⟨inside, Or.inr member⟩
      · rintro ⟨inside, rfl | member⟩
        · exact Or.inl ⟨inside, rfl⟩
        · exact Or.inr ⟨inside, member⟩

theorem ofBits_setBits (flags : Flagset base) : ofBits base (setBits flags.value) = flags := by
  have same : (ofBits base (setBits flags.value)).value = flags.value := by
    apply BitVec.eq_of_getLsbD_eq
    intro bit inside
    rw [Bool.eq_iff_iff, getLsbD_ofBits, mem_setBits, and_iff_right inside]
  exact congrArg Flagset.mk same

/-- The value can be read back from the decimal numbers of its bits. -/
theorem readFlags_flagsText (flags : Flagset base) : readFlags base (flagsText flags) = flags := by
  have words : splitWords ',' (joinWords ',' ((setBits flags.value).map (Nat.toDigits 10))) =
      (setBits flags.value).map (Nat.toDigits 10) := by
    apply splitWords_joinWords
    intro word member
    obtain ⟨bit, -, rfl⟩ := List.mem_map.mp member
    exact digits_isWord bit
  rw [readFlags, flagsText, List.tail_cons, List.dropLast_concat, words, List.map_map]
  have numbers : ((fun digits => Nat.ofDigitChars 10 digits 0) ∘ Nat.toDigits 10) = id := by
    funext bit
    exact Nat.ofDigitChars_ten_toDigits
  rw [numbers, List.map_id]
  exact ofBits_setBits flags

theorem printed_of_printable {flags : Flagset base} (printable : Printable flags) : Printed flags := by
  have text := (format_eq_flagsText_iff flags).mpr printable
  refine ⟨text, ?_⟩
  rw [text]
  exact readFlags_flagsText flags

/-- For every base type, the formatter names the set bits of a value exactly if it can be printed; among
such values different ones have different texts. -/
theorem printed_iff (base : BaseType) :
    (∀ flags : Flagset base, Printed flags ↔ Printable flags) ∧
      ∀ flags other : Flagset base, Printable flags → Printable other → flags.format = other.format →
        flags = other := by
  constructor
  · intro flags
    exact ⟨fun printed => (format_eq_flagsText_iff flags).mp printed.text, printed_of_printable⟩
  · intro flags other printable otherPrintable same
    have readBack := (printed_of_printable printable).readBack
    rw [same, (printed_of_printable otherPrintable).readBack] at readBack
    exact readBack.symm

/-- Bit ten of an unsigned type is printed as bit zero. -/
theorem not_printed_bitTen : ¬ Printed (Flagset.fromInt 1024#16 : Flagset ⟨false, 16⟩) := by
  intro printed
  have text := printed.text
  revert text
  decide

end Nihil

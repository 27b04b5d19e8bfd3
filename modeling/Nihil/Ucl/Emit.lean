/-
Module: Nihil.Ucl.Emit
Layer: Ucl
Purpose: emit_wrapper: the callbacks through which libucl writes a document to an output iterator. A
  callback returns zero whatever happens, so a text that could not be made is missing without a sign. This
  happens to the integers that are longer than the buffer they are converted in, and to the counts that the
  difference type of the iterator cannot represent; in every sequence of callbacks without one of these the
  output is complete (`emit_complete_iff`).
Imports: Nihil.Ucl.Object, Nihil.Library.OutputIterator
Trusted boundary: std::to_chars writes the decimal digits of a number, if there is room for them, and
  std::ranges::fill_n writes nothing for a negative count.
Main exports: EmitWrapper, EmitterFunctions, getFunctions, EmitterCall, runCalls, decimalText, fillCount,
  Fits, EmitterCall.Fits, runCalls_eq, emit_complete_iff
-/
import Mathlib.Algebra.Group.Int.Defs
import Mathlib.Algebra.Group.Nat.Defs
import Nihil.Library.OutputIterator
import Nihil.Ucl.Object

namespace Nihil.Ucl

open Nihil.Library

/-! ### Numbers and their text -/

/-- `static_cast<char>` of an unsigned char. -/
def castChar (c : UInt8) : Char := Char.ofNat c.toNat

/-- The decimal representation of a number. -/
def decimalText (value : Int) : Str :=
  if value < 0 then '-' :: Nat.toDigits 10 value.natAbs else Nat.toDigits 10 value.natAbs

/-- `std::to_chars` with a buffer of the given size. -/
def toChars (capacity : Nat) (value : Int) : Option Str :=
  if (decimalText value).length ≤ capacity then some (decimalText value) else none

/-- `std::numeric_limits<std::int64_t>::digits10`. -/
def digits10 : Nat := 18

/-- How many characters `std::ranges::fill_n` writes for a std::size_t, which it takes as a value of the
difference type of the output iterator. -/
def fillCount (difference : IntegerType) (n : IntegerType.uintmax.Value) : Nat :=
  (difference.convert n.val).val.toNat

/-! ### emit_wrapper -/

/-- `wrapper_magic`. -/
def wrapperMagic : UInt64 := 0x57524150

/-- `emit_wrapper<Iterator>`. -/
structure EmitWrapper (ι : Type) where
  iterator : ι
  magic : UInt64 := wrapperMagic

namespace EmitWrapper

variable {ι σ : Type} (difference : IntegerType) (out : OutputIterator ι σ Char)

/-- `check_magic`. -/
def checkMagic (self : EmitWrapper ι) : Except Exception (EmitWrapper ι) :=
  if self.magic ≠ wrapperMagic then .error (.runtimeError "Invalid emit_wrapper pointer".toList) else .ok self

/-- The try block that is the body of every callback: nothing is thrown, and the result is always zero. -/
def callback (body : EmitWrapper ι × σ → EmitWrapper ι × σ) (world : EmitWrapper ι × σ) :
    Int × EmitWrapper ι × σ :=
  match world.1.checkMagic with
  | .error _ => (0, world)
  | .ok self => (0, body (self, world.2))

/-- An algorithm that writes a text and returns the advanced iterator, which the wrapper keeps. -/
def write (text : Str) (world : EmitWrapper ι × σ) : EmitWrapper ι × σ :=
  let cursor := out.putAll text (world.1.iterator, world.2)
  ({ world.1 with iterator := cursor.1 }, cursor.2)

/-- `append_character`. -/
def appendCharacter (c : UInt8) (nchars : IntegerType.uintmax.Value) :
    EmitWrapper ι × σ → Int × EmitWrapper ι × σ :=
  callback (write out (List.replicate (fillCount difference nchars) (castChar c)))

/-- `append_len`. -/
def appendLen (str : List UInt8) : EmitWrapper ι × σ → Int × EmitWrapper ι × σ :=
  callback (write out (str.map castChar))

/-- `append_int`. -/
def appendInt (value : IntegerType.intmax.Value) : EmitWrapper ι × σ → Int × EmitWrapper ι × σ :=
  callback fun world =>
    match toChars digits10 value.val with
    | some chars => write out chars world
    | none => world

end EmitWrapper

/-- `ucl_emitter_functions`, as functions on what `ud` points to and on the output. -/
structure EmitterFunctions (ω : Type) where
  appendCharacter : UInt8 → IntegerType.uintmax.Value → ω → Int × ω
  appendLen : List UInt8 → ω → Int × ω
  appendInt : IntegerType.intmax.Value → ω → Int × ω

/-- `emit_wrapper::get_functions`, for an output iterator with the given difference type. -/
def getFunctions {ι σ : Type} (difference : IntegerType) (out : OutputIterator ι σ Char) :
    EmitterFunctions (EmitWrapper ι × σ) where
  appendCharacter := EmitWrapper.appendCharacter difference out
  appendLen := EmitWrapper.appendLen out
  appendInt := EmitWrapper.appendInt out

/-- A call of one of the functions. -/
inductive EmitterCall where
  | appendCharacter (c : UInt8) (nchars : IntegerType.uintmax.Value)
  | appendLen (str : List UInt8)
  | appendInt (value : IntegerType.intmax.Value)
deriving DecidableEq

/-- Make one call. -/
def EmitterCall.run {ω : Type} (functions : EmitterFunctions ω) : EmitterCall → ω → Int × ω
  | .appendCharacter c nchars => functions.appendCharacter c nchars
  | .appendLen str => functions.appendLen str
  | .appendInt value => functions.appendInt value

/-- Make one call after the other, as libucl does without looking at the results. -/
def runCalls {ω : Type} (functions : EmitterFunctions ω) (calls : List EmitterCall) (world : ω) : ω :=
  calls.foldl (fun world call => (call.run functions world).2) world

/-- The text that a call is to append. -/
def EmitterCall.text : EmitterCall → Str
  | .appendCharacter c nchars => List.replicate nchars.val.toNat (castChar c)
  | .appendLen str => str.map castChar
  | .appendInt value => decimalText value.val

/-- An integer with at most as many characters as the buffer has. -/
def Fits (value : IntegerType.intmax.Value) : Prop :=
  -10 ^ 17 < value.val ∧ value.val < 10 ^ 18

instance (value : IntegerType.intmax.Value) : Decidable (Fits value) :=
  inferInstanceAs (Decidable (_ ∧ _))

/-- A call whose integer has at most as many characters as the buffer has, or whose count is a value of the
difference type. -/
def EmitterCall.Fits (difference : IntegerType) : EmitterCall → Prop
  | .appendCharacter _ nchars => nchars.val ≤ difference.max
  | .appendLen _ => True
  | .appendInt value => Ucl.Fits value

/-- What is delivered by a sequence of calls is the concatenation of their texts, whatever the output iterator
with this difference type. -/
def Complete (difference : IntegerType) (calls : List EmitterCall) : Prop :=
  ∀ (ι σ : Type) (out : OutputIterator ι σ Char) (it : ι) (state : σ),
    let final := runCalls (getFunctions difference out) calls ({ iterator := it }, state)
    (final.1.iterator, final.2) = out.putAll (calls.flatMap EmitterCall.text) (it, state)

/-! ### What is written -/

/-- The text that a call does append. -/
def EmitterCall.written (difference : IntegerType) : EmitterCall → Str
  | .appendCharacter c nchars => List.replicate (fillCount difference nchars) (castChar c)
  | .appendLen str => str.map castChar
  | .appendInt value => (toChars digits10 value.val).getD []

/-- The length of a number in characters. -/
theorem length_decimalText_le_iff (value : Int) :
    (decimalText value).length ≤ digits10 ↔ -10 ^ 17 < value ∧ value < 10 ^ 18 := by
  unfold decimalText digits10
  by_cases negative : value < 0
  · have digits := Nat.length_toDigits_le_iff (n := value.natAbs) (k := 17) (b := 10) (by decide) (by decide)
    rw [if_pos negative, List.length_cons, Nat.add_le_add_iff_right, digits]
    omega
  · have digits := Nat.length_toDigits_le_iff (n := value.natAbs) (k := 18) (b := 10) (by decide) (by decide)
    rw [if_neg negative, digits]
    omega

/-- A number has at least one character. -/
theorem decimalText_ne_nil (value : Int) : decimalText value ≠ [] := by
  unfold decimalText
  split_ifs <;> simp

/-- A call of append_int writes the whole text or none of it. -/
theorem EmitterCall.written_appendInt (difference : IntegerType) (value : IntegerType.intmax.Value) :
    (EmitterCall.appendInt value).written difference = if Ucl.Fits value then decimalText value.val else [] := by
  have room := length_decimalText_le_iff value.val
  simp only [written, toChars]
  by_cases fits : Ucl.Fits value
  · rw [if_pos (room.mpr fits), if_pos fits]
    rfl
  · rw [if_neg (fun le => fits (room.mp le)), if_neg fits]
    rfl

/-- A count that the difference type can represent stays what it is. -/
theorem fillCount_eq {difference : IntegerType} {n : IntegerType.uintmax.Value}
    (fits : n.val ≤ difference.max) : fillCount difference n = n.val.toNat := by
  have inRange : difference.min ≤ n.val := Int.le_trans difference.zero_inRange.1 n.property.1
  rw [fillCount, IntegerType.convert_eq ⟨inRange, fits⟩]

/-- Any other one becomes smaller. -/
theorem fillCount_lt {difference : IntegerType} {n : IntegerType.uintmax.Value}
    (beyond : difference.max < n.val) : fillCount difference n < n.val.toNat := by
  have converted : (difference.convert n.val).val ≤ difference.max := (difference.convert n.val).property.2
  have some_count : 0 < n.val := Int.lt_of_le_of_lt difference.zero_inRange.2 beyond
  exact (Int.toNat_lt_toNat some_count).mpr (Int.lt_of_le_of_lt converted beyond)

/-! ### Sequences of calls -/

section

variable {ι σ : Type} (difference : IntegerType) (out : OutputIterator ι σ Char)

/-- One call with a wrapper that is what it seems to be. -/
theorem EmitterCall.run_eq (call : EmitterCall) (it : ι) (state : σ) :
    call.run (getFunctions difference out) ({ iterator := it }, state) =
      (0, EmitWrapper.write out (call.written difference) ({ iterator := it }, state)) := by
  cases call with
  | appendCharacter | appendLen => rfl
  | appendInt value =>
      simp only [run, getFunctions, EmitWrapper.appendInt, written]
      cases toChars digits10 value.val <;> rfl

/-- A sequence of calls writes what its calls do, one after the other. -/
theorem runCalls_eq (calls : List EmitterCall) (it : ι) (state : σ) :
    runCalls (getFunctions difference out) calls ({ iterator := it }, state) =
      EmitWrapper.write out (calls.flatMap (EmitterCall.written difference)) ({ iterator := it }, state) := by
  induction calls generalizing it state with
  | nil => rfl
  | cons call calls ih =>
      have first : runCalls (getFunctions difference out) (call :: calls) ({ iterator := it }, state) =
          runCalls (getFunctions difference out) calls
            (call.run (getFunctions difference out) ({ iterator := it }, state)).2 := rfl
      rw [first, call.run_eq, EmitWrapper.write, ih, EmitWrapper.write, List.flatMap_cons, EmitWrapper.write,
        OutputIterator.putAll_append]

end

variable {difference : IntegerType}

/-- A call that fits writes its text. -/
theorem EmitterCall.written_eq {call : EmitterCall} (fits : call.Fits difference) :
    call.written difference = call.text := by
  cases call with
  | appendCharacter c nchars => rw [written, text, fillCount_eq fits]
  | appendLen str => rfl
  | appendInt value =>
      have whole : Ucl.Fits value := fits
      rw [written_appendInt, if_pos whole]
      rfl

/-- A call that does not fit writes less than its text. -/
theorem EmitterCall.length_written_lt {call : EmitterCall} (exceeds : ¬ call.Fits difference) :
    (call.written difference).length < call.text.length := by
  cases call with
  | appendCharacter c nchars =>
      rw [written, text, List.length_replicate, List.length_replicate]
      exact fillCount_lt (Int.not_le.mp exceeds)
  | appendLen str => exact absurd trivial exceeds
  | appendInt value =>
      have tooLong : ¬ Ucl.Fits value := exceeds
      rw [written_appendInt, if_neg tooLong]
      exact List.length_pos_of_ne_nil (decimalText_ne_nil value.val)

/-- No sequence of calls writes more than it is to. -/
theorem length_flatMap_written_le (calls : List EmitterCall) :
    (calls.flatMap (EmitterCall.written difference)).length ≤ (calls.flatMap EmitterCall.text).length := by
  induction calls with
  | nil => exact Nat.le_refl _
  | cons call calls ih =>
      rw [List.flatMap_cons, List.flatMap_cons, List.length_append, List.length_append]
      apply Nat.add_le_add _ ih
      by_cases fits : call.Fits difference
      · exact Nat.le_of_eq (congrArg List.length (EmitterCall.written_eq fits))
      · exact Nat.le_of_lt (EmitterCall.length_written_lt fits)

/-- What the calls write is what they are to write, if and only if all of them fit. -/
theorem flatMap_written_eq_iff (calls : List EmitterCall) :
    calls.flatMap (EmitterCall.written difference) = calls.flatMap EmitterCall.text ↔
      ∀ call ∈ calls, call.Fits difference := by
  induction calls with
  | nil => simp
  | cons call calls ih =>
      rw [List.flatMap_cons, List.flatMap_cons, List.forall_mem_cons]
      by_cases fits : call.Fits difference
      · rw [EmitterCall.written_eq fits, List.append_cancel_left_eq, ih, and_iff_right fits]
      · apply iff_of_false _ (fun all => fits all.1)
        intro same
        -- The rest of the output is not long enough to make up for what is missing.
        have lengths := congrArg List.length same
        have shorter := EmitterCall.length_written_lt fits
        have rest : (calls.flatMap (EmitterCall.written difference)).length ≤
            (calls.flatMap EmitterCall.text).length := length_flatMap_written_le calls
        rw [List.length_append, List.length_append] at lengths
        omega

/-- For every sequence of callbacks the output is complete, through every output iterator, if and only if
every integer has at most 18 characters and the difference type of the iterator has every count. -/
theorem emit_complete_iff (difference : IntegerType) (calls : List EmitterCall) :
    Complete difference calls ↔ ∀ call ∈ calls, call.Fits difference := by
  rw [← flatMap_written_eq_iff]
  constructor
  · intro complete
    have appended := complete Unit (List Char) (backInserter Char).toOutputIterator () []
    have contents := congrArg Prod.snd appended
    simp only [runCalls_eq, EmitWrapper.write] at contents
    have written := (backInserter Char).contents_putAll (calls.flatMap (EmitterCall.written difference)) ((), [])
    have texts := (backInserter Char).contents_putAll (calls.flatMap EmitterCall.text) ((), [])
    simp only [backInserter, id, List.nil_append] at written texts contents
    rw [← written, ← texts]
    exact contents
  · intro same ι σ out it state
    simp only [runCalls_eq, EmitWrapper.write, same]

/-- The number 10^18 is not delivered. -/
theorem emit_complete_fails :
    ¬ Complete IntegerType.intmax [.appendInt ⟨10 ^ 18, by decide⟩] := by
  intro complete
  have appended := complete Unit (List Char) (backInserter Char).toOutputIterator () []
  exact absurd (congrArg Prod.snd appended) (by decide)

end Nihil.Ucl

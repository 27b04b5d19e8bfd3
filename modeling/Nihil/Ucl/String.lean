/-
Module: Nihil.Ucl.String
Layer: Ucl
Purpose: The construction of UCL strings. Every constructor and every make_string ends in one call with a
  pointer and a length, and a length of zero means a NUL-terminated string there. An empty sequence of chars
  therefore comes back as it was supplied only if the pointer to it points to a NUL. A char array is read up
  to its first NUL, or past its end, by make_string, and if it is const also by the constructor
  (`roundTrip_iff`).
Imports: Nihil.Ucl.Object
Trusted boundary: ucl_object_fromstring_common and the two accessors of libucl, as its header describes
  them. There is always memory for an object. No range but an array converts to a `char const *`.
Main exports: CharPtr, StringView, fromStringCommon, Made, constructView, makeView, Supply, Overload, build,
  value, HoldsText, RoundTrip, Supply.Safe, roundTrip_iff
-/
import Mathlib.Data.List.TakeWhile
import Nihil.Ucl.Object

namespace Nihil.Ucl

/-! ### Pointers to chars -/

def nul : Char := Char.ofNat 0

/-- A pointer to chars: null, or what is readable from there to the end of its buffer. -/
abbrev CharPtr := Option Str

def CharPtr.readable (ptr : CharPtr) : Str := ptr.getD []

/-- A std::string_view, or where a contiguous range of chars is. -/
structure StringView where
  data : CharPtr
  size : Nat
  fits : size ≤ data.readable.length

/-- The chars of a view. -/
def StringView.text (self : StringView) : Str :=
  self.data.readable.take self.size

/-- A pointer to a NUL-terminated string. -/
abbrev CString := {bytes : Str // nul ∈ bytes}

/-- The chars of a C string. -/
def CString.text (self : CString) : Str :=
  self.val.takeWhile (· != nul)

/-- `std::string_view(char const *)`. -/
def CString.view (self : CString) : StringView where
  data := some self.val
  size := self.text.length
  fits := (List.takeWhile_sublist _).length_le

/-- The literal `""`. -/
def emptyLiteral : CString := ⟨[nul], List.mem_singleton_self _⟩

/-- A std::string, which has a NUL behind its chars. -/
def viewOfString (chars : Str) : StringView where
  data := some (chars ++ [nul])
  size := chars.length
  fits := by simp [CharPtr.readable]

/-- An array of chars, as `string_view(begin, end)`. -/
def viewOfArray (elements : Str) : StringView where
  data := some elements
  size := elements.length
  fits := Nat.le_refl _

/-- `ucl_object_fromstring_common(str, len, UCL_STRING_RAW)`: the string that is stored, if there is one.
Without a NUL to find, it reads past the end of the buffer. -/
inductive FromString where
  | null
  | readsPastEnd
  | stored (value : Str)
deriving DecidableEq, Repr

def fromStringCommon (str : CharPtr) (len : Nat) : FromString :=
  match str with
  | none => .null
  | some bytes =>
      if len = 0 then
        if nul ∈ bytes then .stored (bytes.takeWhile (· != nul)) else .readsPastEnd
      else if len ≤ bytes.length then .stored (bytes.take len)
      else .readsPastEnd

/-! ### Constructors and make_string -/

/-- What comes out of a construction: undefined behaviour, a std::system_error, an unexpected error, or a
string. -/
inductive Made where
  | undefined
  | thrown (ec : ErrorCode)
  | unexpected (err : Error)
  | made (uobj : UclObject)

/-- Construct from a pointer and a length, with what happens if there is no object. -/
def fromPointer (failed : Made) (data : CharPtr) (size : Nat) : Made :=
  match fromStringCommon data size with
  | .null => failed
  | .readsPastEnd => .undefined
  | .stored value => .made (.string value)

section

variable (errno : ErrorCode)

/-- `string(std::string_view)`. -/
def constructView (value : StringView) : Made :=
  fromPointer (.thrown errno) value.data value.size

/-- `string()`. -/
def constructDefault : Made := constructView errno emptyLiteral.view

/-- `string(char const *)`. -/
def constructCString (value : CString) : Made := constructView errno value.view

/-- A char array where a `char const *` is expected: it is read up to a NUL. -/
def decayed (fromCString : CString → Made) (elements : Str) : Made :=
  if terminated : nul ∈ elements then fromCString ⟨elements, terminated⟩ else .undefined

/-- `string(Range const &)` for a contiguous range. -/
def constructContiguous (range : StringView) : Made := constructView errno range

/-- `string(Range)` for a range that is not contiguous: a temporary std::string, which is contiguous. -/
def constructRange (range : Str) : Made := constructContiguous errno (viewOfString range)

/-- `make_string(std::string_view)`. -/
def makeView (s : StringView) : Made :=
  fromPointer
    (.unexpected { value := .condition .failedToCreateObject, causes := [.generic errno] }) s.data s.size

/-- `make_string()`. -/
def makeDefault : Made := makeView errno emptyLiteral.view

/-- `make_string(char const *)`. -/
def makeCString (s : CString) : Made := makeView errno s.view

/-- `make_string(Range &&)` for a contiguous range that is not an array. -/
def makeContiguous (range : StringView) : Made := makeView errno range

/-- `make_string(Range &&)` for an array: `std::string_view(std::forward<Range>(range))` reads it as a C
string. -/
def makeArray (elements : Str) : Made := decayed (makeCString errno) elements

/-- `make_string(Range &&)` for a range that is not contiguous. -/
def makeRange (range : Str) : Made := makeContiguous errno (viewOfString range)

/-- How a sequence of chars is supplied. A pair of iterators is a std::ranges::subrange. -/
inductive Supply where
  | default
  | view (value : StringView)
  | cString (value : CString)
  /-- A contiguous range that is no array. -/
  | contiguous (range : StringView)
  /-- An array of chars that is not const. -/
  | array (elements : Str) (nonempty : elements ≠ [])
  /-- An array of chars that is const, as the range of all its elements: the overloads for `char const *` are
  no templates and come first. -/
  | constArray (elements : Str) (nonempty : elements ≠ [])
  | nonContiguous (chars : Str)
  | contiguousIterators (range : StringView)
  | iterators (chars : Str)

/-- The sequence of chars. -/
def Supply.text : Supply → Str
  | .default => []
  | .view value => value.text
  | .cString value => value.text
  | .contiguous range => range.text
  | .array elements _ => elements
  | .constArray elements _ => elements
  | .nonContiguous chars => chars
  | .contiguousIterators range => range.text
  | .iterators chars => chars

inductive Overload where
  | constructor
  | makeString
deriving DecidableEq, Repr

/-- Construct a string in either way. -/
def build : Overload → Supply → Made
  | .constructor, .default => constructDefault errno
  | .constructor, .view value => constructView errno value
  | .constructor, .cString value => constructCString errno value
  | .constructor, .contiguous range => constructContiguous errno range
  | .constructor, .array elements _ => constructContiguous errno (viewOfArray elements)
  | .constructor, .constArray elements _ => decayed (constructCString errno) elements
  | .constructor, .nonContiguous chars => constructRange errno chars
  | .constructor, .contiguousIterators range => constructContiguous errno range
  | .constructor, .iterators chars => constructRange errno chars
  | .makeString, .default => makeDefault errno
  | .makeString, .view value => makeView errno value
  | .makeString, .cString value => makeCString errno value
  | .makeString, .contiguous range => makeContiguous errno range
  | .makeString, .array elements _ => makeArray errno elements
  | .makeString, .constArray elements _ => decayed (makeCString errno) elements
  | .makeString, .nonContiguous chars => makeRange errno chars
  | .makeString, .contiguousIterators range => makeContiguous errno range
  | .makeString, .iterators chars => makeRange errno chars

end

/-! ### Accessors -/

/-- `string::value`. -/
def value : UclObject → Except Exception Str
  | .string value => .ok value
  | _ => .error (.runtimeError "ucl_object_tolstring_safe() failed".toList)

/-- `string::size`. -/
def size (self : UclObject) : Except Exception Nat :=
  (value self).map List.length

/-- `string::empty`. -/
def empty (self : UclObject) : Except Exception Bool :=
  (size self).map fun size => decide (size = 0)

/-- `string::data`: a pointer to the stored chars, which have a NUL behind them. -/
def data : UclObject → Except Exception CharPtr
  | .string value => .ok (some (value ++ [nul]))
  | _ => .error (.runtimeError "ucl_object_tostring_safe() failed".toList)

/-- The chars from `begin()` to `end()`, which is `size()` behind it. -/
def iterate (self : UclObject) : Except Exception Str :=
  match data self, size self with
  | .ok first, .ok size => .ok (first.readable.take size)
  | .error thrown, _ => .error thrown
  | _, .error thrown => .error thrown

/-! ### Round trip -/

/-- A string holds a sequence of chars, through all of its accessors. -/
structure HoldsText (uobj : UclObject) (s : Str) : Prop where
  value : value uobj = .ok s
  size : size uobj = .ok s.length
  empty : empty uobj = .ok (decide (s = []))
  iterate : iterate uobj = .ok s

/-- The construction succeeds and the string holds what was supplied. -/
def RoundTrip (errno : ErrorCode) (overload : Overload) (supply : Supply) : Prop :=
  ∃ uobj, build errno overload supply = .made uobj ∧ HoldsText uobj supply.text

/-- The view is not empty or points to a NUL. -/
def StringView.Safe (self : StringView) : Prop :=
  self.text ≠ [] ∨ self.data.readable.head? = some nul

/-- What is supplied by a pointer into a buffer is not empty or points to a NUL, and an array is not const and
not given to `make_string`. -/
def Supply.Safe : Overload → Supply → Prop
  | _, .view value => value.Safe
  | _, .contiguous range => range.Safe
  | _, .contiguousIterators range => range.Safe
  | overload, .array _ _ => overload ≠ .makeString
  | _, .constArray _ _ => False
  | _, _ => True

theorem holdsText_string (s : Str) : HoldsText (.string s) s where
  value := rfl
  size := rfl
  empty := by simp [empty, size, value, Except.map, List.length_eq_zero_iff]
  iterate := by simp [iterate, data, size, value, Except.map, CharPtr.readable]

theorem holdsText_string_iff {stored s : Str} : HoldsText (.string stored) s ↔ stored = s := by
  constructor
  · intro holds
    cases holds.value
    rfl
  · rintro rfl
    exact holdsText_string stored

/-- A construction from a view that cannot fail otherwise. -/
theorem fromPointer_iff {failed : Made} (fails : ∀ uobj, failed ≠ .made uobj) (view : StringView) :
    (∃ uobj, fromPointer failed view.data view.size = .made uobj ∧ HoldsText uobj view.text) ↔
      view.Safe := by
  obtain ⟨data, size, fits⟩ := view
  cases data with
  | none =>
      have nothing : size = 0 := Nat.le_zero.mp fits
      subst nothing
      apply iff_of_false
      · rintro ⟨uobj, made, -⟩
        exact fails uobj made
      · rintro (filled | terminated)
        · exact filled rfl
        · cases terminated
  | some bytes =>
      by_cases none : size = 0
      · subst none
        have blank : StringView.text ⟨some bytes, 0, fits⟩ = [] := rfl
        have safe : StringView.Safe ⟨some bytes, 0, fits⟩ ↔ bytes.head? = some nul :=
          or_iff_right (not_not.mpr blank)
        rw [safe, blank]
        by_cases terminated : nul ∈ bytes
        · simp only [fromPointer, fromStringCommon, if_true, terminated, Made.made.injEq, exists_eq_left',
            holdsText_string_iff]
          cases bytes with
          | nil => exact absurd terminated List.not_mem_nil
          | cons first bytes => by_cases here : first = nul <;> simp [here]
        · apply iff_of_false
          · rintro ⟨uobj, made, -⟩
            simp [fromPointer, fromStringCommon, terminated] at made
          · intro first
            exact terminated (List.mem_of_mem_head? first)
      · have inside : size ≤ bytes.length := fits
        have filled : StringView.text ⟨some bytes, size, fits⟩ ≠ [] := by
          intro blank
          have short : (bytes.take size).length = 0 := congrArg List.length blank
          rw [List.length_take] at short
          omega
        apply iff_of_true _ (Or.inl filled)
        simp only [fromPointer, fromStringCommon, none, if_false, inside, if_true]
        exact ⟨_, rfl, holdsText_string _⟩

theorem CString.safe (self : CString) : self.view.Safe := by
  obtain ⟨bytes, terminated⟩ := self
  cases bytes with
  | nil => exact absurd terminated List.not_mem_nil
  | cons first bytes =>
      by_cases here : first = nul
      · right
        exact congrArg some here
      · left
        simp [StringView.text, CString.view, CString.text, CharPtr.readable, here]

theorem CString.text_view (self : CString) : self.view.text = self.text :=
  (List.prefix_iff_eq_take.mp (List.takeWhile_prefix _)).symm

theorem text_viewOfString (chars : Str) : (viewOfString chars).text = chars := by
  simp [StringView.text, viewOfString, CharPtr.readable]

theorem viewOfString_safe (chars : Str) : (viewOfString chars).Safe := by
  cases chars with
  | nil => exact Or.inr rfl
  | cons first chars =>
      left
      rw [text_viewOfString]
      exact List.cons_ne_nil _ _

/-- A construction from a view succeeds and gives what the view holds exactly if the view is safe. -/
theorem constructView_iff (errno : ErrorCode) (view : StringView) :
    (∃ uobj, constructView errno view = .made uobj ∧ HoldsText uobj view.text) ↔ view.Safe :=
  fromPointer_iff (fun _ => Made.noConfusion) view

theorem makeView_iff (errno : ErrorCode) (view : StringView) :
    (∃ uobj, makeView errno view = .made uobj ∧ HoldsText uobj view.text) ↔ view.Safe :=
  fromPointer_iff (fun _ => Made.noConfusion) view

section

variable {fromView : StringView → Made}
  (made_iff : ∀ view : StringView,
    (∃ uobj, fromView view = .made uobj ∧ HoldsText uobj view.text) ↔ view.Safe)

include made_iff

theorem made_of_cString (value : CString) :
    ∃ uobj, fromView value.view = .made uobj ∧ HoldsText uobj value.text := by
  have made := (made_iff value.view).mpr value.safe
  rwa [value.text_view] at made

theorem made_of_string (chars : Str) :
    ∃ uobj, fromView (viewOfString chars) = .made uobj ∧ HoldsText uobj chars := by
  have made := (made_iff (viewOfString chars)).mpr (viewOfString_safe chars)
  rwa [text_viewOfString] at made

/-- An array that is read as a C string never comes back whole. -/
theorem not_holdsText_decayed (elements : Str) :
    ¬ ∃ uobj, decayed (fun value => fromView value.view) elements = .made uobj ∧ HoldsText uobj elements := by
  rintro ⟨uobj, made, holds⟩
  unfold decayed at made
  split at made
  · rename_i terminated
    obtain ⟨other, again, cut⟩ := made_of_cString made_iff ⟨elements, terminated⟩
    have same : uobj = other := Made.made.inj (made.symm.trans again)
    have whole : elements = CString.text ⟨elements, terminated⟩ := by
      rw [← same] at cut
      exact Except.ok.inj (holds.value.symm.trans cut.value)
    have inside : nul ∈ CString.text ⟨elements, terminated⟩ := whole ▸ terminated
    have different := List.mem_takeWhile_imp inside
    simp at different
  · cases made

theorem made_of_array {elements : Str} (nonempty : elements ≠ []) :
    ∃ uobj, fromView (viewOfArray elements) = .made uobj ∧ HoldsText uobj elements := by
  have whole : (viewOfArray elements).text = elements := List.take_length
  have safe : (viewOfArray elements).Safe := Or.inl (whole.trans_ne nonempty)
  have made := (made_iff (viewOfArray elements)).mpr safe
  rwa [whole] at made

end

/-- Construction gives back what was supplied exactly where a pointer to nothing points to a NUL, and an
array is not const and not given to make_string. -/
theorem roundTrip_iff (errno : ErrorCode) (overload : Overload) (supply : Supply) :
    RoundTrip errno overload supply ↔ supply.Safe overload := by
  have constructed := constructView_iff errno
  have making := makeView_iff errno
  cases overload with
  | constructor =>
      cases supply with
      | default => exact iff_of_true (made_of_cString constructed emptyLiteral) trivial
      | view value => exact constructed value
      | cString value => exact iff_of_true (made_of_cString constructed value) trivial
      | contiguous range => exact constructed range
      | array elements nonempty =>
          exact iff_of_true (made_of_array constructed nonempty) Overload.noConfusion
      | constArray elements nonempty => exact iff_of_false (not_holdsText_decayed constructed elements) id
      | nonContiguous chars => exact iff_of_true (made_of_string constructed chars) trivial
      | contiguousIterators range => exact constructed range
      | iterators chars => exact iff_of_true (made_of_string constructed chars) trivial
  | makeString =>
      cases supply with
      | default => exact iff_of_true (made_of_cString making emptyLiteral) trivial
      | view value => exact making value
      | cString value => exact iff_of_true (made_of_cString making value) trivial
      | contiguous range => exact making range
      | array elements nonempty =>
          apply iff_of_false (not_holdsText_decayed making elements)
          intro safe
          exact safe rfl
      | constArray elements nonempty => exact iff_of_false (not_holdsText_decayed making elements) id
      | nonContiguous chars => exact iff_of_true (made_of_string making chars) trivial
      | contiguousIterators range => exact making range
      | iterators chars => exact iff_of_true (made_of_string making chars) trivial

/-- An empty view into a longer string gives the rest of the string. -/
theorem not_roundTrip_emptySlice :
    ¬ RoundTrip ⟨0, []⟩ .constructor (.view ⟨some ("llo".toList ++ [nul]), 0, Nat.zero_le _⟩) := by
  rintro ⟨uobj, made, holds⟩
  have rest : build ⟨0, []⟩ .constructor (.view ⟨some ("llo".toList ++ [nul]), 0, Nat.zero_le _⟩) =
      .made (.string "llo".toList) := rfl
  rw [rest, Made.made.injEq] at made
  subst made
  have shown := holds.value
  revert shown
  decide

end Nihil.Ucl

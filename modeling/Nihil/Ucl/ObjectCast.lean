/-
Module: Nihil.Ucl.ObjectCast
Layer: Ucl
Purpose: object_cast, the check of a UCL value against a target type and the construction of the target,
  and access to the elements of what it returns. The check is specialised for arrays only: for a map the
  general one lets every value pass, because maps and plain objects have the same type tag, and the
  constructor that runs next throws. `convertCheck_ok_iff` says what the check accepts, `conforms_iff` what
  it leaves open.
Imports: Nihil.Ucl.Object
Trusted boundary: an exception in the coroutine leaves it (`unhandled_exception` rethrows).
Main exports: DataType, convertCheck, construct, objectCast, arrayAt, mapFind, Conforms, ElementAccess,
  CastSpec, castSpec_iff
-/
import Nihil.Ucl.Object

namespace Nihil.Ucl

/-! ### Target types -/

/-- The scalar data types. -/
inductive Scalar where
  | integer
  | real
  | string
  | boolean
deriving DecidableEq, Repr

/-- The data types a value can be cast to. -/
inductive DataType where
  | object
  | scalar (kind : Scalar)
  | array (valueType : DataType)
  | map (mappedType : DataType)
deriving DecidableEq, Repr

def Scalar.uclType : Scalar → ObjectType
  | .integer => .integer
  | .real => .real
  | .string => .string
  | .boolean => .boolean

/-- `To::ucl_type`. -/
def DataType.uclType : DataType → ObjectType
  | .object => .object
  | .scalar kind => kind.uclType
  | .array _ => .array
  | .map _ => .object

/-! ### object_cast -/

/-- `convert_check<To>::check` for basic types. -/
def convertCheckBasic (toType : ObjectType) (uobj : UclObject) : Except TypeMismatch Unit :=
  -- Converting from anything to object is permitted.
  if toType = .object then .ok ()
  else if uobj.type = toType then .ok ()
  else .error ⟨toType, uobj.type⟩

/-- The loop of `convert_check<array<T>>::check`, which returns the first error. -/
def checkElements (check : UclObject → Except TypeMismatch Unit) :
    List UclObject → Except TypeMismatch Unit
  | [] => .ok ()
  | elem :: elements =>
      match check elem with
      | .error err => .error err
      | .ok () => checkElements check elements

/-- `convert_check<To>::check`. There is a specialisation for arrays and none for maps. -/
def convertCheck : DataType → UclObject → Except TypeMismatch Unit
  | .array valueType, uobj =>
      if uobj.type ≠ .array then .error ⟨.array, uobj.type⟩
      else checkElements (convertCheck valueType) uobj.elements
  | .object, uobj => convertCheckBasic DataType.object.uclType uobj
  | .scalar kind, uobj => convertCheckBasic (DataType.scalar kind).uclType uobj
  | .map mappedType, uobj => convertCheckBasic (DataType.map mappedType).uclType uobj

/-- The constructor `To(ref, uobj)`, which throws a type_mismatch unless `To` is object. -/
def construct (target : DataType) (uobj : UclObject) : Except TypeMismatch UclObject :=
  match target with
  | .object => .ok uobj
  | target => ensureUclType uobj target.uclType

/-- `object_cast<To>`: a `To` or an unexpected type_mismatch, unless the constructor throws. -/
def objectCast (target : DataType) (uobj : UclObject) :
    Except Exception (Except TypeMismatch UclObject) :=
  match convertCheck target uobj with
  | .error err => .ok (.error err)
  | .ok () =>
      match construct target uobj with
      | .error err => .error (.typeMismatch err)
      | .ok result => .ok (.ok result)

/-! ### Element access -/

/-- A wrapper of type `T` for an element that was fetched. -/
def wrap (valueType : DataType) (uobj : UclObject) : Except Exception UclObject :=
  match construct valueType uobj with
  | .error err => .error (.typeMismatch err)
  | .ok result => .ok result

/-- An element of an array by its index, with the exceptions for an index past the end and for an element
that libucl does not find. -/
def fetchElement (pastEnd missing : Exception) (valueType : DataType) (arr : UclObject) (idx : Nat) :
    Except Exception UclObject :=
  if idx ≥ arr.elements.length then .error pastEnd
  else
    match arr.elements[idx]? with
    | none => .error missing
    | some uobj => wrap valueType uobj

/-- `array<T>::at`. -/
def arrayAt : DataType → UclObject → Nat → Except Exception UclObject :=
  fetchElement (.outOfRange "UCL array index out of range".toList)
    (.runtimeError "failed to fetch UCL array index".toList)

/-- `array_iterator<T>::operator*` at an index. -/
def arrayDeref : DataType → UclObject → Nat → Except Exception UclObject :=
  fetchElement (.logicError "nihil::ucl::array_iterator: access past end of array".toList)
    (.runtimeError "nihil::ucl::array_iterator: failed to fetch UCL array index".toList)

/-- `map<T>::find`. -/
def mapFind (mappedType : DataType) (map : UclObject) (key : Str) :
    Except Exception (Option UclObject) :=
  match map.members.find? (·.1 == key) with
  | none => .ok none
  | some member => (wrap mappedType member.2).map some

/-- `map_iterator<T>::operator*` after a number of advances. -/
def mapDeref (mappedType : DataType) (map : UclObject) (position : Nat) :
    Except Exception (Str × UclObject) :=
  match map.members[position]? with
  | none => .error (.logicError "map_iterator::operator* called on end()".toList)
  | some member => (wrap mappedType member.2).map (member.1, ·)

/-! ### What a cast promises -/

/-- The shape a target type asks for. -/
def Conforms : DataType → UclObject → Prop
  | .object, _ => True
  | .scalar kind, uobj => uobj.type = kind.uclType
  | .array valueType, uobj =>
      uobj.type = .array ∧ ∀ elem ∈ uobj.elements, Conforms valueType elem
  | .map mappedType, uobj =>
      uobj.type = .object ∧ ∀ member ∈ uobj.members, Conforms mappedType member.2

/-- Access to the elements of an array or a map, and to the elements of these, never throws a
type_mismatch. -/
def ElementAccess : DataType → UclObject → Prop
  | .object, _ => True
  | .scalar _, _ => True
  | .array valueType, arr =>
      (∀ idx err, arrayAt valueType arr idx ≠ .error (.typeMismatch err) ∧
        arrayDeref valueType arr idx ≠ .error (.typeMismatch err)) ∧
      ∀ idx elem, arrayAt valueType arr idx = .ok elem ∨ arrayDeref valueType arr idx = .ok elem →
        ElementAccess valueType elem
  | .map mappedType, map =>
      (∀ key err, mapFind mappedType map key ≠ .error (.typeMismatch err)) ∧
      (∀ position err, mapDeref mappedType map position ≠ .error (.typeMismatch err)) ∧
      (∀ key elem, mapFind mappedType map key = .ok (some elem) → ElementAccess mappedType elem) ∧
      ∀ position key elem, mapDeref mappedType map position = .ok (key, elem) →
        ElementAccess mappedType elem

/-- A value that conforms is returned, and its elements are accessible; any other value is an unexpected
type_mismatch. In no case is anything thrown. -/
structure CastSpec (target : DataType) (uobj : UclObject) : Prop where
  conforming : Conforms target uobj → objectCast target uobj = .ok (.ok uobj) ∧ ElementAccess target uobj
  mismatch : ¬ Conforms target uobj → ∃ err, objectCast target uobj = .ok (.error err)

/-- A target type with object in the place of every map. -/
def DataType.withoutMaps : DataType → DataType
  | .object => .object
  | .scalar kind => .scalar kind
  | .array valueType => .array valueType.withoutMaps
  | .map _ => .object

/-- The values that stand where the target type, below any number of arrays, has a map conform to it. -/
def MapsConform : DataType → UclObject → Prop
  | .object, _ => True
  | .scalar _, _ => True
  | .array valueType, uobj => ∀ elem ∈ uobj.elements, MapsConform valueType elem
  | .map mappedType, uobj => Conforms (.map mappedType) uobj

/-! ### The check and the constructor -/

theorem checkElements_ok_iff (check : UclObject → Except TypeMismatch Unit) (elements : List UclObject) :
    checkElements check elements = .ok () ↔ ∀ elem ∈ elements, check elem = .ok () := by
  induction elements with
  | nil => simp [checkElements]
  | cons elem elements ih =>
      cases outcome : check elem with
      | error err => simp [checkElements, outcome]
      | ok _ => simp [checkElements, outcome, ih]

theorem convertCheckBasic_ok_iff (type : ObjectType) (uobj : UclObject) :
    convertCheckBasic type uobj = .ok () ↔ type = .object ∨ uobj.type = type := by
  unfold convertCheckBasic
  split_ifs with toObject same <;> simp [toObject]
  · exact same
  · exact same

theorem Scalar.uclType_ne_object (kind : Scalar) : kind.uclType ≠ .object := by
  cases kind <;> decide

/-- The check accepts the values that conform to the target with every map read as object. -/
theorem convertCheck_ok_iff (target : DataType) (uobj : UclObject) :
    convertCheck target uobj = .ok () ↔ Conforms target.withoutMaps uobj := by
  induction target generalizing uobj with
  | object => simp [convertCheck, convertCheckBasic_ok_iff, DataType.uclType, DataType.withoutMaps, Conforms]
  | scalar kind =>
      simp [convertCheck, convertCheckBasic_ok_iff, DataType.uclType, DataType.withoutMaps, Conforms,
        kind.uclType_ne_object]
  | map mappedType _ =>
      simp [convertCheck, convertCheckBasic_ok_iff, DataType.uclType, DataType.withoutMaps, Conforms]
  | array valueType ih =>
      by_cases isArray : uobj.type = .array
      · simp [convertCheck, isArray, checkElements_ok_iff, ih, DataType.withoutMaps, Conforms]
      · simp [convertCheck, isArray, DataType.withoutMaps, Conforms]

/-- What the check leaves open is whether the maps conform. -/
theorem conforms_iff (target : DataType) (uobj : UclObject) :
    Conforms target uobj ↔ Conforms target.withoutMaps uobj ∧ MapsConform target uobj := by
  induction target generalizing uobj with
  | object => simp [DataType.withoutMaps, Conforms, MapsConform]
  | scalar kind => simp [DataType.withoutMaps, Conforms, MapsConform]
  | map mappedType _ => simp [DataType.withoutMaps, Conforms, MapsConform]
  | array valueType ih =>
      simp only [DataType.withoutMaps, Conforms, MapsConform, ih, forall_and, and_assoc]

/-- A value that conforms is accepted by the constructor. -/
theorem construct_of_conforms {target : DataType} {uobj : UclObject} (conforms : Conforms target uobj) :
    construct target uobj = .ok uobj := by
  cases target with
  | object => rfl
  | scalar kind => exact ensureUclType_eq conforms
  | array valueType => exact ensureUclType_eq conforms.1
  | map mappedType => exact ensureUclType_eq conforms.1

theorem wrap_of_conforms {valueType : DataType} {uobj : UclObject} (conforms : Conforms valueType uobj) :
    wrap valueType uobj = .ok uobj := by
  rw [wrap, construct_of_conforms conforms]

/-! ### Access to the elements of a value that conforms -/

/-- An access by index gives an element of the array, or the exception for an index past the end. -/
theorem fetchElement_cases (pastEnd missing : Exception) {valueType : DataType} {arr : UclObject}
    (conforms : ∀ elem ∈ arr.elements, Conforms valueType elem) (idx : Nat) :
    (∃ elem ∈ arr.elements, fetchElement pastEnd missing valueType arr idx = .ok elem) ∨
      fetchElement pastEnd missing valueType arr idx = .error pastEnd := by
  by_cases past : idx ≥ arr.elements.length
  · right
    exact if_pos past
  · left
    have found := List.getElem?_eq_getElem (Nat.lt_of_not_le past)
    have member := List.getElem_mem (Nat.lt_of_not_le past)
    refine ⟨_, member, ?_⟩
    simp only [fetchElement, past, if_false, found, wrap_of_conforms (conforms _ member)]

/-- What is fetched conforms, and a type_mismatch is thrown only if it is the exception for an index past
the end. -/
theorem fetchElement_safe {pastEnd : Exception} (missing : Exception) (other : ∀ err, pastEnd ≠ .typeMismatch err)
    {valueType : DataType} {arr : UclObject}
    (conforms : ∀ elem ∈ arr.elements, Conforms valueType elem) (idx : Nat) :
    (∀ err, fetchElement pastEnd missing valueType arr idx ≠ .error (.typeMismatch err)) ∧
      ∀ elem, fetchElement pastEnd missing valueType arr idx = .ok elem → Conforms valueType elem := by
  rcases fetchElement_cases pastEnd missing conforms idx with ⟨elem, member, fetched⟩ | thrown
  · rw [fetched]
    exact ⟨fun err => by simp, fun found same => by
      cases same
      exact conforms elem member⟩
  · rw [thrown]
    exact ⟨fun err same => other err (Except.error.inj same), fun found same => by contradiction⟩

theorem mapFind_safe {mappedType : DataType} {map : UclObject}
    (conforms : ∀ member ∈ map.members, Conforms mappedType member.2) (key : Str) :
    (∀ err, mapFind mappedType map key ≠ .error (.typeMismatch err)) ∧
      ∀ elem, mapFind mappedType map key = .ok (some elem) → Conforms mappedType elem := by
  unfold mapFind
  cases found : map.members.find? (·.1 == key) with
  | none => simp
  | some member =>
      have conforming := conforms member (List.mem_of_find?_eq_some found)
      simp only [wrap_of_conforms conforming, Except.map]
      exact ⟨fun err => by simp, fun elem same => by
        cases same
        exact conforming⟩

theorem mapDeref_safe {mappedType : DataType} {map : UclObject}
    (conforms : ∀ member ∈ map.members, Conforms mappedType member.2) (position : Nat) :
    (∀ err, mapDeref mappedType map position ≠ .error (.typeMismatch err)) ∧
      ∀ key elem, mapDeref mappedType map position = .ok (key, elem) → Conforms mappedType elem := by
  unfold mapDeref
  cases found : map.members[position]? with
  | none => simp
  | some member =>
      have conforming := conforms member (List.mem_of_getElem? found)
      simp only [wrap_of_conforms conforming, Except.map]
      exact ⟨fun err => by simp, fun key elem same => by
        cases same
        exact conforming⟩

private theorem outOfRange_ne (what : Str) (err : TypeMismatch) :
    Exception.outOfRange what ≠ .typeMismatch err := by simp

private theorem logicError_ne (what : Str) (err : TypeMismatch) :
    Exception.logicError what ≠ .typeMismatch err := by simp

/-- Access to a value that conforms never throws a type_mismatch, at any depth. -/
theorem elementAccess_of_conforms {target : DataType} {uobj : UclObject}
    (conforms : Conforms target uobj) : ElementAccess target uobj := by
  induction target generalizing uobj with
  | object => trivial
  | scalar kind => trivial
  | array valueType ih =>
      have byIndex := fetchElement_safe (.runtimeError "failed to fetch UCL array index".toList)
        (outOfRange_ne "UCL array index out of range".toList) conforms.2
      have byIterator := fetchElement_safe
        (.runtimeError "nihil::ucl::array_iterator: failed to fetch UCL array index".toList)
        (logicError_ne "nihil::ucl::array_iterator: access past end of array".toList) conforms.2
      constructor
      · exact fun idx err => ⟨(byIndex idx).1 err, (byIterator idx).1 err⟩
      · rintro idx elem (same | same)
        · exact ih ((byIndex idx).2 elem same)
        · exact ih ((byIterator idx).2 elem same)
  | map mappedType ih =>
      have found := mapFind_safe conforms.2
      have visited := mapDeref_safe conforms.2
      exact ⟨fun key => (found key).1, fun position => (visited position).1,
        fun key elem same => ih ((found key).2 elem same),
        fun position key elem same => ih ((visited position).2 key elem same)⟩

/-! ### What holds -/

/-- Behind the check the cast returns or throws; it has no unexpected error left to return. -/
theorem objectCast_of_accepted {target : DataType} {uobj : UclObject}
    (accepted : convertCheck target uobj = .ok ()) (err : TypeMismatch) :
    objectCast target uobj ≠ .ok (.error err) := by
  unfold objectCast
  rw [accepted]
  cases construct target uobj <;> simp

theorem objectCast_of_rejected {target : DataType} {uobj : UclObject}
    (rejected : convertCheck target uobj ≠ .ok ()) : ∃ err, objectCast target uobj = .ok (.error err) := by
  unfold objectCast
  cases outcome : convertCheck target uobj with
  | error err => exact ⟨err, rfl⟩
  | ok _ => exact absurd outcome rejected

theorem objectCast_of_conforms {target : DataType} {uobj : UclObject}
    (conforms : Conforms target uobj) : objectCast target uobj = .ok (.ok uobj) := by
  have accepted := (convertCheck_ok_iff target uobj).mpr ((conforms_iff target uobj).mp conforms).1
  rw [objectCast, accepted, construct_of_conforms conforms]

/-- The cast keeps its promise exactly when the value fails the check, or every value that stands in the
place of a map conforms to it. -/
theorem castSpec_iff (target : DataType) (uobj : UclObject) :
    CastSpec target uobj ↔ (Conforms target.withoutMaps uobj → MapsConform target uobj) := by
  constructor
  · intro spec shape
    by_contra badMap
    have nonconforming : ¬ Conforms target uobj :=
      fun conforms => badMap ((conforms_iff target uobj).mp conforms).2
    obtain ⟨err, unexpected⟩ := spec.mismatch nonconforming
    exact objectCast_of_accepted ((convertCheck_ok_iff target uobj).mpr shape) err unexpected
  · intro maps
    constructor
    · exact fun conforms => ⟨objectCast_of_conforms conforms, elementAccess_of_conforms conforms⟩
    · intro nonconforming
      apply objectCast_of_rejected
      intro accepted
      have shape := (convertCheck_ok_iff target uobj).mp accepted
      exact nonconforming ((conforms_iff target uobj).mpr ⟨shape, maps shape⟩)

private def anInteger : UclObject := .integer ⟨42, by decide⟩

/-- A cast of an integer to a map of integers throws. -/
theorem castSpec_fails :
    objectCast (.map (.scalar .integer)) anInteger = .error (.typeMismatch ⟨.object, .integer⟩) ∧
      ¬ CastSpec (.map (.scalar .integer)) anInteger := by
  have throws : objectCast (.map (.scalar .integer)) anInteger =
      .error (.typeMismatch ⟨.object, .integer⟩) := rfl
  refine ⟨throws, fun spec => ?_⟩
  have nonconforming : ¬ Conforms (.map (.scalar .integer)) anInteger :=
    fun conforms => absurd conforms.1 (by decide)
  obtain ⟨err, unexpected⟩ := spec.mismatch nonconforming
  rw [throws] at unexpected
  contradiction

end Nihil.Ucl

/-
Module: Nihil.Ucl.Object
Layer: Ucl
Purpose: UCL values and their types, and the exceptions of the wrappers. A value is what a ucl_object_t
  stands for: a scalar, an array of values or an object whose members are in the order in which libucl
  iterates over them.
Imports: Nihil.Core.Integer
Trusted boundary: libucl's accessors, as the readings of a value given here.
Main exports: ObjectType, TypeMismatch, Exception, UclObject, ensureUclType
-/
import Nihil.Core.Integer

namespace Nihil.Ucl

/-- `object_type`. -/
inductive ObjectType where
  | object
  | array
  | integer
  | real
  | string
  | boolean
  | time
  | userdata
  | null
deriving DecidableEq, Repr

/-- `str(object_type)`, the name of a type. -/
def ObjectType.str : ObjectType → Str
  | .object => "object".toList
  | .array => "array".toList
  | .integer => "integer".toList
  | .real => "real".toList
  | .string => "string".toList
  | .boolean => "boolean".toList
  | .time => "time".toList
  | .userdata => "userdata".toList
  | .null => "null".toList

/-- `type_mismatch`. -/
structure TypeMismatch where
  expectedType : ObjectType
  actualType : ObjectType
deriving DecidableEq, Repr

/-- The text of a `type_mismatch`. -/
def TypeMismatch.what (self : TypeMismatch) : Str :=
  "expected type '".toList ++ self.expectedType.str ++ "' != actual type '".toList ++
    self.actualType.str ++ "'".toList

/-- The exceptions which leave the functions of the wrappers. -/
inductive Exception where
  | typeMismatch (err : TypeMismatch)
  | outOfRange (what : Str)
  | runtimeError (what : Str)
  | logicError (what : Str)
deriving DecidableEq, Repr

/-- What a ucl_object_t stands for. A real is given by its bits. -/
inductive UclObject where
  | object (members : List (Str × UclObject))
  | array (elements : List UclObject)
  | integer (value : IntegerType.intmax.Value)
  | real (bits : UInt64)
  | string (value : Str)
  | boolean (value : Bool)
  | time (bits : UInt64)
  | userdata
  | null

namespace UclObject

/-- `ucl_object_type`. -/
def type : UclObject → ObjectType
  | .object _ => .object
  | .array _ => .array
  | .integer _ => .integer
  | .real _ => .real
  | .string _ => .string
  | .boolean _ => .boolean
  | .time _ => .time
  | .userdata => .userdata
  | .null => .null

/-- The elements that `ucl_array_size` counts and `ucl_array_find_index` finds. -/
def elements : UclObject → List UclObject
  | .array elements => elements
  | _ => []

/-- The members that `ucl_object_lookup_len` finds and `ucl_object_iterate_safe` visits. -/
def members : UclObject → List (Str × UclObject)
  | .object members => members
  | _ => []

end UclObject

/-- `ensure_ucl_type`: the object itself, or a type_mismatch which is thrown. -/
def ensureUclType (uobj : UclObject) (type : ObjectType) : Except TypeMismatch UclObject :=
  if uobj.type ≠ type then .error ⟨type, uobj.type⟩ else .ok uobj

theorem ensureUclType_eq {uobj : UclObject} {type : ObjectType} (same : uobj.type = type) :
    ensureUclType uobj type = .ok uobj := by
  simp [ensureUclType, same]

end Nihil.Ucl

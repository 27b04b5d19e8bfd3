/-
Module: Nihil.Config.Store
Layer: Config
Purpose: The options of a configuration and the store in which they are registered. A store carries the
  proof that every option is under its own name, once, so that no later result asks for it. An option
  stands for the object and for the std::string that it is bound to.
Imports: Nihil.Library.OrderedMap, Nihil.Ucl.ObjectCast
Trusted boundary: every option is bound to a std::string of its own, which only the option changes.
Main exports: ConfigAbort, ConfigOption, Store, Store.registerOption, Store.fetch, Store.setOption,
  Store.runSets, registerAll
-/
import Nihil.Library.OrderedMap
import Nihil.Ucl.ObjectCast

namespace Nihil.Config

open Nihil.Library
open Nihil.Ucl

/-- Why an operation ends without a result: it returns an error or it throws. -/
inductive ConfigAbort where
  | error (err : Error)
  | thrown (exception : Exception)
deriving DecidableEq, Repr

/-! ### Options -/

/-- `nihil::config::string`. -/
structure ConfigOption where
  name : Str
  description : Str
  storage : Str
  isDefault : Bool := true
deriving DecidableEq, Repr

namespace ConfigOption

/-- `option::string`, the setter: `set_string`, and the option is not default any more. -/
def setString (self : ConfigOption) (newValue : Str) : ConfigOption :=
  { self with storage := newValue, isDefault := false }

/-- `make_string`, when the allocation of the UCL object succeeds or fails with a code. -/
def makeString (allocation : Except ErrorCode Unit) (s : Str) : Except Error UclObject :=
  match allocation with
  | .error ec => .error { value := .condition .failedToCreateObject, causes := [.generic ec] }
  | .ok () => .ok (.string s)

/-- `option::ucl`, the getter. -/
def getUcl (allocate : Str → Except ErrorCode Unit) (self : ConfigOption) : Except Error UclObject :=
  makeString (allocate self.storage) self.storage

/-- `ucl::string::value`. -/
def stringValue : UclObject → Except Exception Str
  | .string value => .ok value
  | _ => .error (.runtimeError "ucl_object_tolstring_safe() failed".toList)

/-- `option::ucl`, the setter: `set_ucl` casts the object to a string and assigns its value. -/
def setUcl (self : ConfigOption) (uclobj : UclObject) : Except ConfigAbort ConfigOption :=
  match objectCast (.scalar .string) uclobj with
  | .error exception => .error (.thrown exception)
  | .ok (.error m) =>
      .error (.error (.ofText
        ('\'' :: self.name ++ "': expected string, not ".toList ++ m.actualType.str)))
  | .ok (.ok obj) =>
      match stringValue obj with
      | .error exception => .error (.thrown exception)
      | .ok value => .ok { self with storage := value, isDefault := false }

/-- A string is assigned, and the option is not default any more. -/
theorem setUcl_string (self : ConfigOption) (value : Str) :
    self.setUcl (.string value) = .ok (self.setString value) := rfl

end ConfigOption

/-! ### The store -/

/-- `store`: the options by their names. -/
structure Store where
  options : OrderedMap Str ConfigOption := []
  distinct : (options.map Prod.fst).Nodup := by exact List.nodup_nil
  named : ∀ entry ∈ options, entry.2.name = entry.1 := by simp

namespace Store

/-- `store::register_option`. -/
def registerOption (self : Store) (object : ConfigOption) : Except Error Store :=
  let inserted := self.options.emplace object.name object
  if inserted.2 then
    .ok {
      options := inserted.1
      distinct := OrderedMap.distinct_emplace object.name object self.distinct
      named := fun entry member => by
        rcases OrderedMap.mem_emplace member with rfl | old
        · rfl
        · exact self.named entry old }
  else
    .error (.ofText ("attempt to register duplicate configuration option '".toList ++ object.name ++ ['\'']))

/-- `store::fetch`. -/
def fetch (self : Store) (name : Str) : Except Error ConfigOption :=
  match self.options.find? name with
  | some option => .ok option
  | none => .error (.ofText ("unknown configuration option '".toList ++ name ++ ['\'']))

/-- `store::all`, in the order of the names. -/
def all (self : Store) : List ConfigOption :=
  self.options.map Prod.snd

/-- The registered option of that name is changed, as through the pointer that `fetch` returns. -/
def assign (self : Store) (option : ConfigOption) : Store where
  options := self.options.update option.name fun _ => option
  distinct := by
    rw [OrderedMap.keys_update]
    exact self.distinct
  named := fun entry member => by
    rcases OrderedMap.mem_update member with old | ⟨_, rfl⟩
    · exact self.named entry old
    · rfl

/-- `get_option(name)`, and `option::string` on what it returns. -/
def setOption (self : Store) (name newValue : Str) : Except Error Store :=
  match self.fetch name with
  | .error err => .error err
  | .ok option => .ok (self.assign (option.setString newValue))

/-- A run of sets. A set that fails changes nothing. -/
def runSets (self : Store) (sets : List (Str × Str)) : Store :=
  sets.foldl (fun store set =>
    match store.setOption set.1 set.2 with
    | .error _ => store
    | .ok after => after) self

theorem runSets_cons (self : Store) (set : Str × Str) (sets : List (Str × Str)) :
    self.runSets (set :: sets) =
      (match self.setOption set.1 set.2 with
        | .error _ => self
        | .ok after => after).runSets sets :=
  rfl

end Store

/-- What a program constructs an option from, with the value that its string has so far. -/
structure Declaration where
  name : Str
  description : Str
  storage : Str

/-- The constructor of `string`. -/
def Declaration.option (self : Declaration) : ConfigOption :=
  { name := self.name, description := self.description, storage := self.storage }

/-- Options are constructed one after the other, and each registers itself. -/
def registerAll : List Declaration → Store → Except Error Store
  | [], store => .ok store
  | declaration :: declared, store =>
      match store.registerOption declaration.option with
      | .error err => .error err
      | .ok store => registerAll declared store

end Nihil.Config

/-
Module: Nihil.Ucl.MapPop
Layer: Ucl
Purpose: map<T>::pop. The key is removed before the wrapper for the element is constructed, and the
  constructor throws for an element of another type; then the key is gone and nobody holds the reference
  that came with it. So pop is atomic exactly if the element that it finds is one that a `T` can wrap
  (`pop_atomic_iff`).
Imports: Nihil.Library.OrderedMap, Nihil.Ucl.ObjectCast, Nihil.Ucl.ObjectReferences
Trusted boundary: ucl_object_pop_keyl removes the key and hands its reference to the caller, or returns null
  and changes nothing.
Main exports: UclMap, MapState, MapState.pop, Balanced, Popped, PopAtomic, pop_atomic_iff
-/
import Nihil.Library.OrderedMap
import Nihil.Ucl.ObjectCast
import Nihil.Ucl.ObjectReferences

namespace Nihil.Ucl

open Nihil.Library

/-! ### pop -/

/-- The members of a UCL object, each by the address of its element. A key is stored once. -/
structure UclMap where
  members : OrderedMap Str Nat
  distinct : (members.map Prod.fst).Nodup

namespace UclMap

/-- `ucl_object_lookup_len`. -/
def lookup (self : UclMap) (key : Str) : Option Nat :=
  self.members.find? key

def erase (self : UclMap) (key : Str) : UclMap where
  members := self.members.erase key
  distinct := OrderedMap.distinct_erase key self.distinct

/-- How many members refer to an element. -/
def stored (self : UclMap) (uobj : Nat) : Nat :=
  (self.members.map Prod.snd).count uobj

theorem lookup_erase (self : UclMap) (key other : Str) :
    (self.erase key).lookup other = if other = key then none else self.lookup other :=
  OrderedMap.find?_erase key other self.distinct

/-- A key that is removed gives up one reference to its element. -/
theorem stored_erase {self : UclMap} {key : Str} {uobj : Nat} (found : self.lookup key = some uobj)
    (other : Nat) : self.stored other = (self.erase key).stored other + if uobj = other then 1 else 0 := by
  have counted := ((OrderedMap.erase_perm found).map Prod.snd).count_eq other
  rw [stored, counted, List.map_cons, List.count_cons]
  simp only [stored, erase, beq_iff_eq]

end UclMap

/-- A map object, what the elements stand for, and the references to them. Those of the members are among
the ones that no wrapper holds. -/
structure MapState where
  map : UclMap
  value : Nat → UclObject
  ucl : UclState

namespace MapState

/-- `ucl_object_pop_keyl`. -/
def popKeyl (self : MapState) (key : Str) : Option Nat × MapState :=
  match self.map.lookup key with
  | none => (none, self)
  | some uobj => (some uobj, { self with map := self.map.erase key })

/-- `map<T>::pop`. -/
def pop (T : DataType) (self : MapState) (key : Str) : Except Exception (Option Nat) × MapState :=
  match self.popKeyl key with
  | (none, self) => (.ok none, self)
  | (some uobj, self) =>
      -- `T(noref, uobj)`, which throws before there is a wrapper
      match construct T (self.value uobj) with
      | .error err => (.error (.typeMismatch err), self)
      | .ok _ => (.ok (some uobj), { self with ucl := self.ucl.constructNoref uobj })

/-- How many references to an element neither the map nor a wrapper holds. -/
def loose (self : MapState) (uobj : Nat) : Nat :=
  self.ucl.external uobj - self.map.stored uobj

end MapState

/-! ### Atomicity -/

/-- The references are counted right, and there is one for every member. -/
structure Balanced (state : MapState) : Prop where
  counted : Counted state.ucl
  stored : ∀ uobj, state.map.stored uobj ≤ state.ucl.external uobj

/-- An element was taken out of the map and is held by a new wrapper. -/
structure Popped (before : MapState) (key : Str) (uobj : Nat) (after : MapState) : Prop where
  found : before.map.lookup key = some uobj
  gone : after.map.lookup key = none
  others : ∀ other, other ≠ key → after.map.lookup other = before.map.lookup other
  value : after.value = before.value
  wrappers : after.ucl.wrappers = before.ucl.wrappers.construct (some uobj)
  balanced : Balanced before → Balanced after
  loose : Balanced before → after.loose = before.loose

/-- `pop` finds no such key and changes nothing, or takes the element of the key out, or throws and changes
nothing. -/
def PopAtomic (T : DataType) (key : Str) (before : MapState) : Prop :=
  match before.pop T key with
  | (.ok none, after) => before.map.lookup key = none ∧ after = before
  | (.ok (some uobj), after) => Popped before key uobj after
  | (.error thrown, after) => (∃ err, thrown = .typeMismatch err) ∧ after = before

/-- The constructor of `T` accepts a value. -/
theorem construct_ok_iff (T : DataType) (uobj : UclObject) :
    (∃ result, construct T uobj = .ok result) ↔ T = .object ∨ uobj.type = T.uclType := by
  have checked (type : ObjectType) : (∃ result, ensureUclType uobj type = .ok result) ↔ uobj.type = type := by
    unfold ensureUclType
    split_ifs with differs
    · exact iff_of_false (fun ⟨_, accepted⟩ => nomatch accepted) differs
    · exact iff_of_true ⟨uobj, rfl⟩ (not_not.mp differs)
  cases T with
  | object => exact iff_of_true ⟨uobj, rfl⟩ (Or.inl rfl)
  | scalar kind => exact (checked _).trans (or_iff_right DataType.noConfusion).symm
  | array valueType => exact (checked _).trans (or_iff_right DataType.noConfusion).symm
  | map mappedType => exact (checked _).trans (or_iff_right DataType.noConfusion).symm

variable {before : MapState} {key : Str} {uobj : Nat}

theorem pop_of_absent (T : DataType) (absent : before.map.lookup key = none) :
    before.pop T key = (.ok none, before) := by
  simp only [MapState.pop, MapState.popKeyl, absent]

theorem pop_of_accepted {T : DataType} {result : UclObject} (found : before.map.lookup key = some uobj)
    (accepted : construct T (before.value uobj) = .ok result) :
    before.pop T key =
      (.ok (some uobj), { before with
        map := before.map.erase key
        ucl := before.ucl.constructNoref uobj }) := by
  simp only [MapState.pop, MapState.popKeyl, found, accepted]

theorem pop_of_mismatch {T : DataType} {err : TypeMismatch} (found : before.map.lookup key = some uobj)
    (mismatch : construct T (before.value uobj) = .error err) :
    before.pop T key = (.error (.typeMismatch err), { before with map := before.map.erase key }) := by
  simp only [MapState.pop, MapState.popKeyl, found, mismatch]

/-- What the references of a member that was found become. -/
theorem external_constructNoref (uobj other : Nat) (ucl : UclState) :
    (ucl.constructNoref uobj).external other = ucl.external other - if uobj = other then 1 else 0 := by
  simp only [UclState.constructNoref, Function.update_apply]
  by_cases same : other = uobj
  · rw [if_pos same, if_pos same.symm, same]
  · rw [if_neg same, if_neg (Ne.symm same)]
    rfl

theorem popped_of_found (found : before.map.lookup key = some uobj) :
    Popped before key uobj
      { before with map := before.map.erase key, ucl := before.ucl.constructNoref uobj } where
  found := found
  gone := by rw [UclMap.lookup_erase, if_pos rfl]
  others := fun other differs => by rw [UclMap.lookup_erase, if_neg differs]
  value := rfl
  wrappers := rfl
  balanced := by
    intro balanced
    constructor
    · apply balanced.counted.constructNoref
      have enough := balanced.stored uobj
      have split := UclMap.stored_erase found uobj
      rw [if_pos rfl] at split
      omega
    · intro other
      have enough := balanced.stored other
      have split := UclMap.stored_erase found other
      change (before.map.erase key).stored other ≤ _
      rw [external_constructNoref]
      omega
  loose := by
    intro balanced
    funext other
    have split := UclMap.stored_erase found other
    change _ - (before.map.erase key).stored other = _ - before.map.stored other
    rw [external_constructNoref]
    omega

/-- `pop` is atomic exactly if an element that it finds has the type of `T`, or `T` is object. -/
theorem pop_atomic_iff (T : DataType) (key : Str) (before : MapState) :
    PopAtomic T key before ↔
      ∀ uobj, before.map.lookup key = some uobj → T = .object ∨ (before.value uobj).type = T.uclType := by
  unfold PopAtomic
  cases found : before.map.lookup key with
  | none =>
      rw [pop_of_absent T found]
      exact iff_of_true ⟨rfl, rfl⟩ (fun _ found => nomatch found)
  | some uobj =>
      have only : (∀ other, some uobj = some other →
            T = .object ∨ (before.value other).type = T.uclType) ↔
          ∃ result, construct T (before.value uobj) = .ok result := by
        rw [construct_ok_iff]
        constructor
        · intro all
          exact all uobj rfl
        · rintro one other ⟨⟩
          exact one
      rw [only]
      cases outcome : construct T (before.value uobj) with
      | ok result =>
          rw [pop_of_accepted found outcome]
          exact iff_of_true (popped_of_found found) ⟨result, rfl⟩
      | error err =>
          rw [pop_of_mismatch found outcome]
          apply iff_of_false
          · rintro ⟨-, unchanged⟩
            have kept : before.map.erase key = before.map := congrArg MapState.map unchanged
            have gone := UclMap.lookup_erase before.map key key
            rw [kept, found, if_pos rfl] at gone
            cases gone
          · rintro ⟨result, accepted⟩
            cases accepted

/-- A reference that came with a key that is gone is nobody's. -/
theorem loose_of_mismatch {T : DataType} {err : TypeMismatch} (balanced : Balanced before)
    (found : before.map.lookup key = some uobj)
    (mismatch : construct T (before.value uobj) = .error err) :
    (before.pop T key).2.loose uobj = before.loose uobj + 1 := by
  rw [pop_of_mismatch found mismatch]
  have enough := balanced.stored uobj
  have split := UclMap.stored_erase found uobj
  rw [if_pos rfl] at split
  unfold MapState.loose
  simp only
  omega

/-- A map<integer> over an object with a string under "a": the key is gone after the exception. -/
theorem not_pop_atomic_string :
    ¬ PopAtomic (.scalar .integer) ['a']
      { map := ⟨[(['a'], 0)], by decide⟩
        value := fun _ => .string []
        ucl := {
          counts := fun uobj => if uobj = 0 then 1 else 0
          external := fun uobj => if uobj = 0 then 1 else 0 } } := by
  rintro ⟨-, unchanged⟩
  have kept := congrArg (fun state : MapState => state.map.lookup ['a']) unchanged
  revert kept
  decide

end Nihil.Ucl

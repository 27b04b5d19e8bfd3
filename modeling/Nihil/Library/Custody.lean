/-
Module: Nihil.Library.Custody
Layer: Library
Purpose: Resources that the objects of a move-only class are responsible for. A resource is in use at some
  number, and a number is all that an object holds; when the resource ends its number is free again and may
  be given to another resource, so resources are told apart by a serial number of their own. In a sound
  custody every resource that was handed to an object is owned by one object, was ended once, or was
  released once. Each operation has one theorem; the one move that is not sound overwrites a number.
Imports: Nihil.Library.Slots
Trusted boundary: none
Main exports: Custody, owners, adopt, otherBegin, otherEnd, construct, moveConstruct, moveAssign, endAt,
  replace, release, ExactlyOne, Sound, Sound.adopt, Sound.moveAssign, Sound.assign, Sound.endOwned,
  Sound.endForeign, Sound.release, not_exactlyOne_moveAssign, Sound.not_endAt
-/
import Mathlib.Data.List.Basic
import Mathlib.Logic.Function.Basic
import Nihil.Library.Slots

namespace Nihil.Library

/-- The resources in use at each number, the objects with the numbers that they hold, and what became of
the resources that were handed to them. -/
structure Custody where
  table : Nat → Option Nat
  next : Nat := 0
  objects : Slots Nat := []
  /-- The resources that objects were made for. -/
  handed : List Nat := []
  /-- What every call that ends a resource found at its number. -/
  ended : List (Option Nat) := []
  /-- The resources that objects gave back. -/
  released : List Nat := []

namespace Custody

/-- Whether a number is the number of a resource. -/
def refersTo (table : Nat → Option Nat) (resource number : Nat) : Bool :=
  table number = some resource

/-- How many live objects hold the number of a resource. -/
def owners (c : Custody) (resource : Nat) : Nat :=
  c.objects.holding (refersTo c.table resource)

/-! ### Operations -/

/-- A new resource at some number, and an object for it. -/
def adopt (c : Custody) (number : Nat) : Custody :=
  { c with
    table := Function.update c.table number (some c.next)
    next := c.next + 1
    objects := c.objects.construct (some number)
    handed := c.handed ++ [c.next] }

/-- A new resource that no object is made for. -/
def otherBegin (c : Custody) (number : Nat) : Custody :=
  { c with table := Function.update c.table number (some c.next), next := c.next + 1 }

/-- A resource ends that no object holds. -/
def otherEnd (c : Custody) (number : Nat) : Custody :=
  { c with table := Function.update c.table number none }

/-- Construct an object without a number. -/
def construct (c : Custody) : Custody :=
  { c with objects := c.objects.construct none }

def moveConstruct (c : Custody) (i : Nat) : Custody :=
  { c with objects := c.objects.moveConstruct i }

def moveAssign (c : Custody) (i j : Nat) : Custody :=
  { c with objects := c.objects.moveAssign i j }

/-- Replace an object: by one without a number, or by one that is destroyed. -/
def replace (c : Custody) (i : Nat) (slot : Option (Option Nat)) : Custody :=
  { c with objects := c.objects.set i slot }

/-- End the resource at a number. -/
def endAt (c : Custody) (number : Nat) : Custody :=
  { c with table := Function.update c.table number none, ended := c.ended ++ [c.table number] }

/-- Give the resource at a number back. -/
def release (c : Custody) (number : Nat) : Custody :=
  { c with released := c.released ++ (c.table number).toList }

/-! ### Soundness -/

/-- Every resource that was handed to an object is owned by one object, or was ended once, or was released
once, and only one of these. -/
def ExactlyOne (c : Custody) : Prop :=
  ∀ resource ∈ c.handed,
    c.owners resource + c.ended.count (some resource) + c.released.count resource = 1

/-- Every number that a live object holds is the number of a resource that was handed to an object and is
in use. -/
def Valid (c : Custody) : Prop :=
  ∀ i number, c.objects.handle? i = some (some number) →
    ∃ resource ∈ c.handed, c.table number = some resource

/-- The resources so far are the ones below the next one. -/
structure Bounded (c : Custody) : Prop where
  table : ∀ number resource, c.table number = some resource → resource < c.next
  handed : ∀ resource ∈ c.handed, resource < c.next
  ended : ∀ resource, some resource ∈ c.ended → resource < c.next
  released : ∀ resource ∈ c.released, resource < c.next

structure Sound (c : Custody) : Prop where
  exactlyOne : c.ExactlyOne
  valid : c.Valid
  bounded : c.Bounded

/-- At the start there are no objects. -/
theorem sound_start {table : Nat → Option Nat} {next : Nat}
    (bounded : ∀ number resource, table number = some resource → resource < next) :
    Sound { table := table, next := next } where
  exactlyOne := fun resource member => absurd member List.not_mem_nil
  valid := fun i number live => by simp [Slots.handle?] at live
  bounded :=
    { table := bounded
      handed := fun resource member => absurd member List.not_mem_nil
      ended := fun resource member => absurd member List.not_mem_nil
      released := fun resource member => absurd member List.not_mem_nil }

variable {c : Custody}

/-- What a number that is not held refers to does not matter to the owners. -/
theorem owners_update {number : Nat} {content : Option Nat}
    (notHeld : ∀ i, c.objects.handle? i ≠ some (some number)) (resource : Nat) :
    c.objects.holding (refersTo (Function.update c.table number content) resource) =
      c.owners resource := by
  apply Slots.holding_congr
  intro i held live
  have other : held ≠ number := by
    rintro rfl
    exact notHeld i live
  rw [refersTo, refersTo, Function.update_of_ne other]

/-- A number that is free is not held. -/
theorem Valid.not_held (valid : c.Valid) {number : Nat} (free : c.table number = none) (i : Nat) :
    c.objects.handle? i ≠ some (some number) := by
  intro live
  obtain ⟨resource, -, found⟩ := valid i number live
  rw [free] at found
  contradiction

theorem Bounded.owners_next (bounded : c.Bounded) : c.owners c.next = 0 := by
  apply (Slots.holding_eq_zero_iff _ _).mpr
  intro i number live
  have other : c.table number ≠ some c.next :=
    fun found => Nat.lt_irrefl _ (bounded.table number c.next found)
  simp [refersTo, other]

/-! ### Beginnings -/

theorem Bounded.begin (bounded : c.Bounded) (number : Nat) (objects : Slots Nat) {handed : List Nat}
    (known : ∀ resource ∈ handed, resource ≤ c.next) :
    Bounded { c with
      table := Function.update c.table number (some c.next)
      next := c.next + 1
      objects := objects
      handed := handed } where
  table := by
    intro other resource found
    by_cases same : other = number
    · subst same
      simp only [Function.update_self, Option.some.injEq] at found
      exact found ▸ Nat.lt_succ_self _
    · have earlier := (Function.update_of_ne same _ _).symm.trans found
      exact Nat.lt_succ_of_lt (bounded.table other resource earlier)
  handed := fun resource member => Nat.lt_succ_of_le (known resource member)
  ended := fun resource member => Nat.lt_succ_of_lt (bounded.ended resource member)
  released := fun resource member => Nat.lt_succ_of_lt (bounded.released resource member)

/-- The table is updated at a number that was free, so that what is held stays valid. -/
theorem Valid.begin (valid : c.Valid) {number : Nat} (free : c.table number = none) (content : Option Nat)
    {i held : Nat} (live : c.objects.handle? i = some (some held)) :
    ∃ resource ∈ c.handed, Function.update c.table number content held = some resource := by
  obtain ⟨resource, member, found⟩ := valid i held live
  have other : held ≠ number := by
    rintro rfl
    rw [free] at found
    contradiction
  exact ⟨resource, member, by rw [Function.update_of_ne other, found]⟩

theorem Sound.otherBegin (sound : c.Sound) {number : Nat} (free : c.table number = none) :
    (c.otherBegin number).Sound where
  exactlyOne := by
    intro resource member
    rw [owners, Custody.otherBegin, owners_update (sound.valid.not_held free)]
    exact sound.exactlyOne resource member
  valid := fun i held live => sound.valid.begin free _ live
  bounded := sound.bounded.begin number c.objects fun resource member =>
    Nat.le_of_lt (sound.bounded.handed resource member)

theorem Sound.adopt (sound : c.Sound) {number : Nat} (free : c.table number = none) :
    (c.adopt number).Sound where
  exactlyOne := by
    intro resource member
    have owned : (c.adopt number).owners resource =
        c.owners resource + if resource = c.next then 1 else 0 := by
      rw [owners, Custody.adopt, Slots.holding_construct, owners_update (sound.valid.not_held free),
        Slots.tally_some]
      simp [refersTo, eq_comm]
    rw [owned]
    rcases List.mem_append.mp member with earlier | new
    · have below := sound.bounded.handed resource earlier
      rw [if_neg (Nat.ne_of_lt below)]
      exact sound.exactlyOne resource earlier
    · rw [List.mem_singleton.mp new, if_pos rfl, sound.bounded.owners_next]
      have notEnded : c.ended.count (some c.next) = 0 :=
        List.count_eq_zero.mpr fun ended => Nat.lt_irrefl _ (sound.bounded.ended c.next ended)
      have notReleased : c.released.count c.next = 0 :=
        List.count_eq_zero.mpr fun released => Nat.lt_irrefl _ (sound.bounded.released c.next released)
      simp only [Custody.adopt, notEnded, notReleased]
  valid := by
    intro i held live
    rw [Custody.adopt, Slots.handle?_construct] at live
    split_ifs at live with new
    · cases live
      exact ⟨c.next, List.mem_append_right _ (List.mem_singleton_self _), Function.update_self ..⟩
    · obtain ⟨resource, member, found⟩ := sound.valid.begin free (some c.next) live
      exact ⟨resource, List.mem_append_left _ member, found⟩
  bounded := sound.bounded.begin number _ fun resource member => by
    rcases List.mem_append.mp member with earlier | new
    · exact Nat.le_of_lt (sound.bounded.handed resource earlier)
    · exact Nat.le_of_eq (List.mem_singleton.mp new)

/-! ### Moves -/

/-- A change of the objects that keeps the owners and holds no new number. -/
theorem Sound.objects (sound : c.Sound) {objects : Slots Nat}
    (owned : ∀ p : Nat → Bool, objects.holding p = c.objects.holding p)
    (held : ∀ i number, objects.handle? i = some (some number) →
      ∃ k, c.objects.handle? k = some (some number)) : Sound { c with objects := objects } where
  exactlyOne := by
    intro resource member
    rw [owners, owned]
    exact sound.exactlyOne resource member
  valid := by
    intro i number live
    obtain ⟨k, earlier⟩ := held i number live
    exact sound.valid k number earlier
  bounded := ⟨sound.bounded.table, sound.bounded.handed, sound.bounded.ended, sound.bounded.released⟩

theorem Sound.construct (sound : c.Sound) : c.construct.Sound := by
  apply sound.objects
  · intro p
    simp
  · intro i number live
    rw [Slots.handle?_construct] at live
    split_ifs at live with new
    · cases live
    · exact ⟨i, live⟩

theorem Sound.moveConstruct (sound : c.Sound) {i : Nat} {held : Option Nat}
    (live : c.objects.handle? i = some held) : (c.moveConstruct i).Sound := by
  apply sound.objects
  · exact fun p => Slots.holding_moveConstruct p live
  · intro k number found
    rw [Slots.moveConstruct, Slots.handle?_construct, Slots.handle?_assign live] at found
    split_ifs at found with new same
    · refine ⟨i, ?_⟩
      rw [live] at found ⊢
      exact found
    · cases found
    · exact ⟨k, found⟩

/-- A move assignment to an object that holds no number. -/
theorem Sound.moveAssign (sound : c.Sound) {i j : Nat} {held : Option Nat} (different : i ≠ j)
    (target : c.objects.handle? i = some none) (source : c.objects.handle? j = some held) :
    (c.moveAssign i j).Sound := by
  have still : (c.objects.assign j none).handle? i = some none := by
    rw [Slots.handle?_assign source, if_neg different, target]
  apply sound.objects
  · intro p
    have kept := Slots.holding_moveAssign p different target source
    simpa using kept
  · intro k number found
    rw [Slots.moveAssign, Slots.handle?_assign still, Slots.handle?_assign source] at found
    split_ifs at found with hit cleared
    · refine ⟨j, ?_⟩
      rw [source] at found ⊢
      exact found
    · cases found
    · exact ⟨k, found⟩

/-- A move assignment to an object that holds a number loses the resource at that number. -/
theorem not_exactlyOne_moveAssign (sound : c.Sound) {i j number : Nat} {held : Option Nat}
    (different : i ≠ j) (target : c.objects.handle? i = some (some number))
    (source : c.objects.handle? j = some held) : ¬ (c.moveAssign i j).ExactlyOne := by
  intro exactly
  obtain ⟨resource, member, found⟩ := sound.valid i number target
  have before := sound.exactlyOne resource member
  have after := exactly resource member
  have lost := Slots.holding_moveAssign (refersTo c.table resource) different target source
  rw [Slots.tally_some, if_pos (by simpa [refersTo] using found)] at lost
  unfold owners at before after
  simp only [Custody.moveAssign] at after
  omega

/-- An object that is assigned to itself is left as it is, and otherwise the target holds no number. -/
theorem Sound.assign (sound : c.Sound) {i j : Nat} {held : Option Nat}
    (source : c.objects.handle? j = some held) (keeps : i = j ∨ c.objects.handle? i = some none) :
    (if i = j then c else c.moveAssign i j).Sound := by
  split_ifs with same
  · exact sound
  · exact sound.moveAssign same (keeps.resolve_left same) source

theorem not_exactlyOne_assign (sound : c.Sound) {i j : Nat} {old held : Option Nat}
    (target : c.objects.handle? i = some old) (source : c.objects.handle? j = some held)
    (overwrites : ¬ (i = j ∨ c.objects.handle? i = some none)) :
    ¬ (if i = j then c else c.moveAssign i j).ExactlyOne := by
  obtain ⟨different, holds⟩ := not_or.mp overwrites
  rw [if_neg different]
  cases old with
  | none => exact absurd target holds
  | some number => exact not_exactlyOne_moveAssign sound different target source

/-! ### Ends -/

theorem Bounded.otherEnd (bounded : c.Bounded) (number : Nat) : (c.otherEnd number).Bounded where
  table := by
    intro other resource found
    by_cases same : other = number
    · subst same
      simp [Custody.otherEnd] at found
    · exact bounded.table other resource ((Function.update_of_ne same _ _).symm.trans found)
  handed := bounded.handed
  ended := bounded.ended
  released := bounded.released

/-- What ends at a number was there. -/
theorem Bounded.endAt (bounded : c.Bounded) (number : Nat) : (c.endAt number).Bounded where
  table := (bounded.otherEnd number).table
  handed := bounded.handed
  ended := by
    intro resource member
    rcases List.mem_append.mp member with earlier | new
    · exact bounded.ended resource earlier
    · exact bounded.table number resource (List.mem_singleton.mp new).symm
  released := bounded.released

/-- A resource that no object holds ends. -/
theorem Sound.otherEnd (sound : c.Sound) {number : Nat}
    (notHeld : ∀ i, c.objects.handle? i ≠ some (some number)) : (c.otherEnd number).Sound where
  exactlyOne := by
    intro resource member
    rw [owners, Custody.otherEnd, owners_update notHeld]
    exact sound.exactlyOne resource member
  valid := by
    intro i held live
    obtain ⟨resource, member, found⟩ := sound.valid i held live
    have other : held ≠ number := by
      rintro rfl
      exact notHeld i live
    exact ⟨resource, member, (Function.update_of_ne other _ _).trans found⟩
  bounded := sound.bounded.otherEnd number

/-- What is left when an object with a number is replaced by one without: the resource at the number has
no owner, and every other one keeps its owners. -/
theorem owners_replace {i number : Nat} (live : c.objects.handle? i = some (some number))
    {slot : Option (Option Nat)} (empty : slot.join = none) (resource : Nat) :
    (c.replace i slot).owners resource + (if c.table number = some resource then 1 else 0) =
      c.owners resource := by
  have replaced := Slots.holding_set (refersTo c.table resource) live slot
  rw [empty, Slots.tally_none, Slots.tally_some] at replaced
  simpa [owners, replace, refersTo] using replaced

theorem handle?_replace {i k number : Nat} {held : Option Nat} (live : c.objects.handle? i = some held)
    {slot : Option (Option Nat)} (empty : slot.join = none)
    (found : (c.replace i slot).objects.handle? k = some (some number)) :
    k ≠ i ∧ c.objects.handle? k = some (some number) := by
  rw [replace, Slots.handle?_set (Slots.lt_length_of_handle? live)] at found
  split_ifs at found with same
  · rw [found] at empty
    cases empty
  · exact ⟨same, found⟩

/-- After an object with a number was replaced no other one holds the number. -/
theorem Sound.not_held_replace (sound : c.Sound) {i number : Nat}
    (live : c.objects.handle? i = some (some number)) {slot : Option (Option Nat)}
    (empty : slot.join = none) (k : Nat) : (c.replace i slot).objects.handle? k ≠ some (some number) := by
  intro found
  obtain ⟨resource, member, used⟩ := sound.valid i number live
  have once := sound.exactlyOne resource member
  have left := owners_replace live empty resource
  rw [if_pos used] at left
  have none_ : (c.replace i slot).owners resource = 0 := by omega
  have miss := (Slots.holding_eq_zero_iff _ _).mp none_ k number found
  simp [replace, refersTo, used] at miss

/-- An object ends the resource at the number that it holds and is left without the number. -/
theorem Sound.endOwned (sound : c.Sound) {i number : Nat}
    (live : c.objects.handle? i = some (some number)) {slot : Option (Option Nat)}
    (empty : slot.join = none) : ((c.endAt number).replace i slot).Sound := by
  have notHeld := sound.not_held_replace live empty
  constructor
  · intro resource member
    have left := owners_replace live empty resource
    have once := sound.exactlyOne resource member
    have owned : ((c.endAt number).replace i slot).owners resource =
        (c.replace i slot).owners resource :=
      owners_update (c := c.replace i slot) notHeld resource
    rw [owned]
    simp only [replace, endAt, List.count_append, List.count_singleton, beq_iff_eq] at left ⊢
    omega
  · intro k held found
    obtain ⟨-, earlier⟩ := handle?_replace (c := c) live empty found
    obtain ⟨resource, member, used⟩ := sound.valid k held earlier
    have other : held ≠ number := by
      rintro rfl
      exact notHeld k found
    exact ⟨resource, member, (Function.update_of_ne other _ _).trans used⟩
  · obtain ⟨table, handed, ended, released⟩ := sound.bounded.endAt number
    exact ⟨table, handed, ended, released⟩

/-- A resource ends that was handed to no object. -/
theorem Sound.endForeign (sound : c.Sound) {number : Nat}
    (foreign : ∀ resource ∈ c.handed, c.table number ≠ some resource) : (c.endAt number).Sound := by
  have notHeld : ∀ i, c.objects.handle? i ≠ some (some number) := by
    intro i live
    obtain ⟨resource, member, found⟩ := sound.valid i number live
    exact foreign resource member found
  have rest := sound.otherEnd notHeld
  constructor
  · intro resource member
    have once := rest.exactlyOne resource member
    have owned : (c.endAt number).owners resource = (c.otherEnd number).owners resource := rfl
    have uncounted : (c.endAt number).ended.count (some resource) = c.ended.count (some resource) := by
      simp [endAt, List.count_append, foreign resource member]
    rw [owned, uncounted]
    exact once
  · exact rest.valid
  · exact sound.bounded.endAt number

/-- Ending a resource that was handed to an object, without the object giving up its number, leaves an
object with a number that is not in use, or a resource that is in two states. -/
theorem Sound.not_endAt (sound : c.Sound) {number resource : Nat} (member : resource ∈ c.handed)
    (found : c.table number = some resource) (exactly : (c.endAt number).ExactlyOne)
    (valid : (c.endAt number).Valid) : False := by
  have notHeld : ∀ i, c.objects.handle? i ≠ some (some number) := by
    intro i live
    obtain ⟨other, -, used⟩ := valid i number live
    simp [endAt] at used
  have before := sound.exactlyOne resource member
  have after := exactly resource member
  have owned : (c.endAt number).owners resource = c.owners resource := owners_update notHeld resource
  rw [owned] at after
  simp only [endAt, found, List.count_append, List.count_singleton_self] at after
  omega

/-- An object gives the resource at its number back and is left without the number. -/
theorem Sound.release (sound : c.Sound) {i number : Nat}
    (live : c.objects.handle? i = some (some number)) {slot : Option (Option Nat)}
    (empty : slot.join = none) : ((c.release number).replace i slot).Sound := by
  constructor
  · intro resource member
    have left := owners_replace live empty resource
    have once := sound.exactlyOne resource member
    have counted : (c.table number).toList.count resource =
        if c.table number = some resource then 1 else 0 := by
      cases used : c.table number with
      | none => simp
      | some found => simp [List.count_singleton]
    have owned : ((c.release number).replace i slot).owners resource =
        (c.replace i slot).owners resource := rfl
    rw [owned]
    simp only [replace, Custody.release, List.count_append, counted] at left ⊢
    omega
  · intro k held found
    exact sound.valid k held (handle?_replace (c := c) live empty found).2
  · refine ⟨sound.bounded.table, sound.bounded.handed, sound.bounded.ended, ?_⟩
    intro resource member
    rcases List.mem_append.mp member with earlier | new
    · exact sound.bounded.released resource earlier
    · exact sound.bounded.table number resource (Option.mem_toList.mp new)

/-- An object without a number is replaced. -/
theorem Sound.replaceEmpty (sound : c.Sound) {i : Nat} (live : c.objects.handle? i = some none)
    {slot : Option (Option Nat)} (empty : slot.join = none) : (c.replace i slot).Sound := by
  apply sound.objects
  · intro p
    have replaced := Slots.holding_set p live slot
    simpa [empty] using replaced
  · intro k number found
    exact ⟨k, (handle?_replace live empty found).2⟩

/-- When all objects are destroyed, what was not released was ended exactly once. -/
theorem ExactlyOne.ended_of_destroyed (exactly : c.ExactlyOne) (destroyed : ∀ slot ∈ c.objects, slot = none)
    {resource : Nat} (member : resource ∈ c.handed) (kept : resource ∉ c.released) :
    c.ended.count (some resource) = 1 := by
  have unowned : c.owners resource = 0 := by
    apply List.countP_eq_zero.mpr
    intro slot found
    rw [destroyed slot found]
    simp
  have once := exactly resource member
  rw [unowned, List.count_eq_zero.mpr kept] at once
  omega

end Custody

end Nihil.Library

/-
Module: Nihil.Library.Slots
Layer: Library
Purpose: The objects of a move-only class and the handles that they hold. An object keeps its place when it
  is destroyed, so that a place never means two objects. `holding` counts the live objects whose handle has
  a property, and `Stands` says that some live object holds a handle for a value; every change of an object
  changes both by what the object held before and after.
Trusted boundary: none
Main exports: Slots, handle?, construct, assign, destroy, moveConstruct, moveAssign, swap, Held, holding, tally,
  held_iff, holding_construct, holding_set, holding_eq_zero_iff, holding_moveConstruct, holding_moveAssign,
  Stands, Apart, stands_construct, stands_set, stands_moveConstruct
-/
import Mathlib.Data.List.Basic

namespace Nihil.Library

universe u v

/-- The objects in the order of their construction: `none` for one that was destroyed, and otherwise the
handle that it holds, if it holds one. -/
abbrev Slots (ρ : Type u) := List (Option (Option ρ))

namespace Slots

variable {ρ : Type u}

/-- What a live object holds. -/
def handle? (slots : Slots ρ) (i : Nat) : Option (Option ρ) := slots[i]?.join

/-- Construct an object. -/
def construct (slots : Slots ρ) (handle : Option ρ) : Slots ρ := slots ++ [some handle]

/-- Give an object another handle, or none. -/
def assign (slots : Slots ρ) (i : Nat) (handle : Option ρ) : Slots ρ := slots.set i (some handle)

def destroy (slots : Slots ρ) (i : Nat) : Slots ρ := slots.set i none

/-- Construct an object from a live one, which is left without a handle. -/
def moveConstruct (slots : Slots ρ) (i : Nat) : Slots ρ :=
  (slots.assign i none).construct (slots.handle? i).join

/-- Assign the handle of object `j` to object `i` and leave `j` without one; the handle that `i` held is
overwritten. -/
def moveAssign (slots : Slots ρ) (i j : Nat) : Slots ρ :=
  (slots.assign j none).assign i (slots.handle? j).join

/-- Exchange what two objects hold. -/
def swap (slots : Slots ρ) (i j : Nat) : Slots ρ :=
  (slots.assign i (slots.handle? j).join).assign j (slots.handle? i).join

/-- A live object holds the handle. -/
def Held (slots : Slots ρ) (handle : ρ) : Prop := some (some handle) ∈ slots

instance [DecidableEq ρ] (slots : Slots ρ) (handle : ρ) : Decidable (slots.Held handle) :=
  inferInstanceAs (Decidable (some (some handle) ∈ slots))

/-- What one object adds to the count. -/
def tally (p : ρ → Bool) (handle : Option ρ) : Nat := if handle.any p then 1 else 0

/-- How many live objects hold a handle with the property. -/
def holding (p : ρ → Bool) (slots : Slots ρ) : Nat := slots.countP fun slot => slot.join.any p

@[simp] theorem tally_none (p : ρ → Bool) : tally p none = 0 := rfl

theorem tally_some (p : ρ → Bool) (handle : ρ) : tally p (some handle) = if p handle then 1 else 0 := rfl

theorem handle?_eq_some_iff {slots : Slots ρ} {i : Nat} {held : Option ρ} :
    slots.handle? i = some held ↔ ∃ inside : i < slots.length, slots[i] = some held := by
  rw [handle?, Option.join_eq_some_iff, List.getElem?_eq_some_iff]

theorem lt_length_of_handle? {slots : Slots ρ} {i : Nat} {held : Option ρ}
    (live : slots.handle? i = some held) : i < slots.length := by
  obtain ⟨inside, -⟩ := handle?_eq_some_iff.mp live
  exact inside

theorem held_iff {slots : Slots ρ} {handle : ρ} :
    slots.Held handle ↔ ∃ i, slots.handle? i = some (some handle) := by
  simp only [handle?_eq_some_iff]
  exact List.mem_iff_getElem

theorem handle?_set {slots : Slots ρ} {i : Nat} (inside : i < slots.length) (slot : Option (Option ρ))
    (k : Nat) : handle? (slots.set i slot) k = if k = i then slot else slots.handle? k := by
  unfold handle?
  split_ifs with same
  · rw [same, List.getElem?_set_self inside]
    rfl
  · rw [List.getElem?_set_ne (Ne.symm same)]

theorem handle?_construct (slots : Slots ρ) (handle : Option ρ) (k : Nat) :
    (slots.construct handle).handle? k =
      if k = slots.length then some handle else slots.handle? k := by
  unfold handle? construct
  rcases Nat.lt_trichotomy k slots.length with before | rfl | behind
  · rw [List.getElem?_append_left before, if_neg (Nat.ne_of_lt before)]
  · simp
  · rw [if_neg (Nat.ne_of_gt behind), List.getElem?_eq_none (Nat.le_of_lt behind), List.getElem?_eq_none]
    simpa using Nat.succ_le_of_lt behind

@[simp] theorem holding_construct (p : ρ → Bool) (slots : Slots ρ) (handle : Option ρ) :
    (slots.construct handle).holding p = slots.holding p + tally p handle := by
  simp [holding, construct, tally, List.countP_append, List.countP_cons]

/-- Replacing a live object takes away what it held and adds what it holds now. -/
theorem holding_set (p : ρ → Bool) {slots : Slots ρ} {i : Nat} {held : Option ρ}
    (live : slots.handle? i = some held) (slot : Option (Option ρ)) :
    holding p (slots.set i slot) + tally p held = slots.holding p + tally p slot.join := by
  obtain ⟨inside, here⟩ := handle?_eq_some_iff.mp live
  have counted : held.any p = true → 0 < slots.countP fun slot => slot.join.any p := by
    intro hit
    apply List.countP_pos_iff.mpr
    exact ⟨some held, here ▸ List.getElem_mem inside, hit⟩
  unfold holding tally
  rw [List.countP_set inside, here]
  have joined : (some held).join = held := rfl
  rw [joined]
  by_cases hit : held.any p = true
  · have positive := counted hit
    rw [if_pos hit]
    omega
  · rw [if_neg hit]
    omega

/-- No live object holds a handle with the property. -/
theorem holding_eq_zero_iff (p : ρ → Bool) (slots : Slots ρ) :
    slots.holding p = 0 ↔ ∀ i handle, slots.handle? i = some (some handle) → p handle = false := by
  unfold holding
  rw [List.countP_eq_zero]
  constructor
  · intro none_ i handle live
    simpa using none_ _ (held_iff.mpr ⟨i, live⟩)
  · intro miss slot member
    rcases slot with _ | _ | handle
    · exact Bool.false_ne_true
    · exact Bool.false_ne_true
    · obtain ⟨i, live⟩ := held_iff.mp member
      simp [miss i handle live]

/-- If only one live object holds a handle with the property, then there is only one. -/
theorem eq_of_holding_le_one {p : ρ → Bool} {slots : Slots ρ} (once : slots.holding p ≤ 1) {i j : Nat}
    {handle handle' : ρ} (live : slots.handle? i = some (some handle)) (hit : p handle = true)
    (live' : slots.handle? j = some (some handle')) (hit' : p handle' = true) : j = i := by
  by_contra different
  have cleared := holding_set p live (some none)
  have counted : tally p (some handle) = 1 := if_pos hit
  have empty : holding p (slots.set i (some none)) = 0 := by
    rw [counted] at cleared
    change holding p (slots.set i (some none)) + 1 = slots.holding p + 0 at cleared
    omega
  have still : handle? (slots.set i (some none)) j = some (some handle') := by
    rw [handle?_set (lt_length_of_handle? live), if_neg different, live']
  exact absurd hit' (by rw [(holding_eq_zero_iff p _).mp empty j handle' still]; exact Bool.false_ne_true)

/-- Two properties that agree on the handles that are held are counted alike. -/
theorem holding_congr {p q : ρ → Bool} {slots : Slots ρ}
    (agree : ∀ i handle, slots.handle? i = some (some handle) → p handle = q handle) :
    slots.holding p = slots.holding q := by
  unfold holding
  apply List.countP_congr
  intro slot member
  rcases slot with _ | _ | handle
  · exact Iff.rfl
  · exact Iff.rfl
  · obtain ⟨i, live⟩ := held_iff.mp member
    simp [agree i handle live]

/-! ### Moves -/

theorem handle?_assign {slots : Slots ρ} {i : Nat} {held : Option ρ}
    (live : slots.handle? i = some held) (handle : Option ρ) (k : Nat) :
    (slots.assign i handle).handle? k = if k = i then some handle else slots.handle? k :=
  handle?_set (lt_length_of_handle? live) (some handle) k

theorem handle?_destroy {slots : Slots ρ} {i : Nat} {held : Option ρ} (live : slots.handle? i = some held)
    (k : Nat) : (slots.destroy i).handle? k = if k = i then none else slots.handle? k :=
  handle?_set (lt_length_of_handle? live) none k

theorem handle?_length (slots : Slots ρ) : slots.handle? slots.length = none := by
  rw [handle?, List.getElem?_eq_none (Nat.le_refl _)]
  rfl

/-- A move construction hands a handle on. -/
theorem holding_moveConstruct (p : ρ → Bool) {slots : Slots ρ} {i : Nat} {held : Option ρ}
    (live : slots.handle? i = some held) : (slots.moveConstruct i).holding p = slots.holding p := by
  have cleared := holding_set p live (some none)
  have joined : (slots.handle? i).join = held := by
    rw [live]
    rfl
  rw [moveConstruct, holding_construct, joined, assign]
  exact cleared

/-- A move assignment takes away what the target held. -/
theorem holding_moveAssign (p : ρ → Bool) {slots : Slots ρ} {i j : Nat} {old held : Option ρ}
    (different : i ≠ j) (target : slots.handle? i = some old) (source : slots.handle? j = some held) :
    (slots.moveAssign i j).holding p + tally p old = slots.holding p := by
  have cleared := holding_set p source (some none)
  have still : (slots.assign j none).handle? i = some old := by
    rw [handle?_assign source, if_neg different, target]
  have assigned := holding_set p still (some held)
  have joined : (slots.handle? j).join = held := by
    rw [source]
    rfl
  rw [moveAssign, joined, assign, assigned]
  exact cleared

/-- An object that is assigned to itself keeps its handle. -/
theorem holding_moveAssign_self (p : ρ → Bool) {slots : Slots ρ} {i : Nat} {held : Option ρ}
    (live : slots.handle? i = some held) : (slots.moveAssign i i).holding p = slots.holding p := by
  have cleared := holding_set p live (some none)
  have still : (slots.assign i none).handle? i = some none := by rw [handle?_assign live, if_pos rfl]
  have assigned := holding_set p still (some held)
  have joined : (slots.handle? i).join = held := congrArg Option.join live
  have joined' : (some held).join = held := rfl
  have joined'' : (some (none : Option ρ)).join = none := rfl
  rw [joined'', tally_none] at cleared
  rw [tally_none, joined'] at assigned
  rw [moveAssign, joined]
  exact assigned.trans cleared

theorem holding_swap (p : ρ → Bool) {slots : Slots ρ} {i j : Nat} {held held' : Option ρ}
    (live : slots.handle? i = some held) (live' : slots.handle? j = some held') :
    (slots.swap i j).holding p = slots.holding p := by
  have first := holding_set p live (some held')
  have still : (slots.assign i held').handle? j = some held' := by
    rw [handle?_assign live]
    split_ifs
    · rfl
    · exact live'
  have second := holding_set p still (some held)
  have joined : (slots.handle? i).join = held := congrArg Option.join live
  have joined' : (slots.handle? j).join = held' := congrArg Option.join live'
  rw [swap, joined, joined']
  change holding p ((slots.assign i held').set j (some held)) + tally p held' =
    holding p (slots.assign i held') + tally p held at second
  change holding p (slots.assign i held') + tally p held = holding p slots + tally p held' at first
  exact Nat.add_right_cancel (second.trans first)

/-! ### What the handles stand for -/

variable {ν : Type v}

/-- A live object holds a handle that stands for the value. -/
def Stands (f : ρ → Option ν) (slots : Slots ρ) (value : ν) : Prop :=
  ∃ i handle, slots.handle? i = some (some handle) ∧ f handle = some value

/-- No two live objects hold handles that stand for one value. -/
def Apart (f : ρ → Option ν) (slots : Slots ρ) : Prop :=
  ∀ i j handle handle' value, slots.handle? i = some (some handle) → slots.handle? j = some (some handle') →
    f handle = some value → f handle' = some value → i = j

theorem stands_construct (f : ρ → Option ν) (slots : Slots ρ) (handle : Option ρ) (value : ν) :
    (slots.construct handle).Stands f value ↔ slots.Stands f value ∨ handle.bind f = some value := by
  constructor
  · rintro ⟨i, found, live, named⟩
    rw [handle?_construct] at live
    split_ifs at live with new
    · cases live
      exact Or.inr named
    · exact Or.inl ⟨i, found, live, named⟩
  · rintro (⟨i, found, live, named⟩ | named)
    · have old : i ≠ slots.length := Nat.ne_of_lt (lt_length_of_handle? live)
      exact ⟨i, found, by rw [handle?_construct, if_neg old, live], named⟩
    · obtain ⟨found, rfl, named⟩ := Option.bind_eq_some_iff.mp named
      exact ⟨slots.length, found, by rw [handle?_construct, if_pos rfl], named⟩

/-- Replacing an object takes away what it alone stood for, and adds what it stands for now. -/
theorem stands_set {f : ρ → Option ν} {slots : Slots ρ} (apart : slots.Apart f) {i : Nat} {held : Option ρ}
    (live : slots.handle? i = some held) (slot : Option (Option ρ)) (value : ν) :
    Stands f (slots.set i slot) value ↔
      slots.Stands f value ∧ held.bind f ≠ some value ∨ slot.join.bind f = some value := by
  have inside := lt_length_of_handle? live
  constructor
  · rintro ⟨k, found, there, named⟩
    rw [handle?_set inside] at there
    split_ifs at there with here
    · right
      rw [there]
      exact named
    · refine Or.inl ⟨⟨k, found, there, named⟩, fun same => here ?_⟩
      obtain ⟨old, rfl, named'⟩ := Option.bind_eq_some_iff.mp same
      exact apart k i found old value there live named named'
  · rintro (⟨⟨k, found, there, named⟩, gone⟩ | named)
    · have elsewhere : k ≠ i := by
        rintro rfl
        rw [live] at there
        cases there
        exact gone named
      exact ⟨k, found, by rw [handle?_set inside, if_neg elsewhere, there], named⟩
    · obtain ⟨found, joined, named⟩ := Option.bind_eq_some_iff.mp named
      exact ⟨i, found, by rw [handle?_set inside, if_pos rfl, Option.join_eq_some_iff.mp joined], named⟩

/-- A move construction hands on what a handle stands for. -/
theorem stands_moveConstruct {f : ρ → Option ν} {slots : Slots ρ} (apart : slots.Apart f) {i : Nat}
    {held : Option ρ} (live : slots.handle? i = some held) (value : ν) :
    (slots.moveConstruct i).Stands f value ↔ slots.Stands f value := by
  have joined : (slots.handle? i).join = held := congrArg Option.join live
  rw [moveConstruct, joined, stands_construct, assign, stands_set apart live]
  constructor
  · rintro ((⟨stands, -⟩ | none_) | named)
    · exact stands
    · cases none_
    · obtain ⟨found, rfl, named⟩ := Option.bind_eq_some_iff.mp named
      exact ⟨i, found, live, named⟩
  · intro stands
    by_cases named : held.bind f = some value
    · exact Or.inr named
    · exact Or.inl (Or.inl ⟨stands, named⟩)

end Slots

end Nihil.Library

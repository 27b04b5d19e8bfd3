/-
Module: Nihil.Library.OrderedMap
Layer: Library
Purpose: Ordered maps as lists of key and value pairs in key order, the functional reading of a C++ std::map.
  `find?` reads, `emplace` adds a binding unless the key is taken, `update` changes the value of a present
  key in place, `erase` removes a binding. Every law below is a law of the map alone: none asks for the list
  to be sorted, so the order only decides in which order the entries are listed.
Trusted boundary: none
Main exports: OrderedMap, OrderedMap.find?, OrderedMap.emplace, OrderedMap.update,
  OrderedMap.erase, OrderedMap.find?_erase, OrderedMap.erase_perm, OrderedMap.mapValues,
  OrderedMap.find?_emplace, OrderedMap.find?_update, OrderedMap.find?_of_mem, OrderedMap.distinct_emplace
-/
import Mathlib.Data.List.Basic
import Mathlib.Data.List.Perm.Basic

namespace Nihil.Library

universe u v w

/-- The entries of an ordered map. -/
abbrev OrderedMap (κ : Type u) (β : Type v) := List (κ × β)

namespace OrderedMap

variable {κ : Type u} {β : Type v} [DecidableEq κ]

/-- The value stored under a key. -/
def find? (key : κ) : OrderedMap κ β → Option β
  | [] => none
  | (k, value) :: entries => if key = k then some value else find? key entries

/-- Change the value stored under a key; a map without the key is left alone. -/
def update (key : κ) (f : β → β) : OrderedMap κ β → OrderedMap κ β
  | [] => []
  | (k, value) :: entries =>
      if key = k then (k, f value) :: entries else (k, value) :: update key f entries

/-- Remove the binding of a key; a map without the key is left alone. -/
def erase (key : κ) : OrderedMap κ β → OrderedMap κ β
  | [] => []
  | (k, value) :: entries => if key = k then entries else (k, value) :: erase key entries

/-- Put a binding in front of the first larger key. -/
def place [LT κ] [DecidableLT κ] (key : κ) (value : β) : OrderedMap κ β → OrderedMap κ β
  | [] => [(key, value)]
  | (k, other) :: entries =>
      if key < k then (key, value) :: (k, other) :: entries
      else (k, other) :: place key value entries

/-- Add a binding unless the key is taken. The flag says whether it was added. -/
def emplace [LT κ] [DecidableLT κ] (key : κ) (value : β) (entries : OrderedMap κ β) :
    OrderedMap κ β × Bool :=
  match entries.find? key with
  | some _ => (entries, false)
  | none => (entries.place key value, true)

@[simp] theorem find?_nil (key : κ) : find? key ([] : OrderedMap κ β) = none := rfl

theorem find?_cons (key k : κ) (value : β) (entries : OrderedMap κ β) :
    find? key ((k, value) :: entries) = if key = k then some value else find? key entries := rfl

/-- An update is seen under its own key and nowhere else. -/
theorem find?_update (key probe : κ) (f : β → β) (entries : OrderedMap κ β) :
    (entries.update key f).find? probe =
      if probe = key then (entries.find? probe).map f else entries.find? probe := by
  induction entries with
  | nil => simp [update]
  | cons entry entries ih =>
      obtain ⟨k, value⟩ := entry
      by_cases hit : key = k
      · subst hit
        by_cases same : probe = key <;> simp [update, find?_cons, same]
      · by_cases same : probe = k
        · subst same
          simp [update, hit, find?_cons, Ne.symm hit]
        · simp [update, hit, find?_cons, same, ih]

/-! ### Changing every value -/

/-- Apply a function to every value. -/
def mapValues {γ : Type w} (f : β → γ) (entries : OrderedMap κ β) : OrderedMap κ γ :=
  entries.map fun entry => (entry.1, f entry.2)

variable {γ : Type w} {f : β → γ}

theorem find?_mapValues (key : κ) (entries : OrderedMap κ β) :
    (entries.mapValues f).find? key = (entries.find? key).map f := by
  induction entries with
  | nil => rfl
  | cons entry entries ih =>
      obtain ⟨k, value⟩ := entry
      by_cases hit : key = k
      · simp [mapValues, find?_cons, hit]
      · simpa [mapValues, find?_cons, hit] using ih

/-- A change of one value can be made before or after. -/
theorem mapValues_update {g : β → β} {g' : γ → γ} (commutes : ∀ value, f (g value) = g' (f value)) (key : κ)
    (entries : OrderedMap κ β) : (entries.update key g).mapValues f = (entries.mapValues f).update key g' := by
  induction entries with
  | nil => rfl
  | cons entry entries ih =>
      obtain ⟨k, value⟩ := entry
      by_cases hit : key = k
      · simp [mapValues, update, hit, commutes]
      · simpa [mapValues, update, hit] using ih

omit [DecidableEq κ] in
theorem mapValues_place [LT κ] [DecidableLT κ] (key : κ) (value : β) (entries : OrderedMap κ β) :
    (entries.place key value).mapValues f = (entries.mapValues f).place key (f value) := by
  induction entries with
  | nil => rfl
  | cons entry entries ih =>
      obtain ⟨k, other⟩ := entry
      by_cases less : key < k
      · simp [mapValues, place, less]
      · simpa [mapValues, place, less] using ih

/-! ### Entries -/

theorem mem_of_find? {key : κ} {value : β} {entries : OrderedMap κ β}
    (found : entries.find? key = some value) : (key, value) ∈ entries := by
  induction entries with
  | nil => contradiction
  | cons entry entries ih =>
      obtain ⟨k, other⟩ := entry
      rw [find?_cons] at found
      split_ifs at found with same
      · cases found
        exact same ▸ List.mem_cons_self
      · exact List.mem_cons_of_mem _ (ih found)

/-- In a map whose keys are distinct every entry is found. -/
theorem find?_of_mem {key : κ} {value : β} {entries : OrderedMap κ β}
    (distinct : (entries.map Prod.fst).Nodup) (member : (key, value) ∈ entries) :
    entries.find? key = some value := by
  induction entries with
  | nil => contradiction
  | cons entry entries ih =>
      obtain ⟨k, other⟩ := entry
      obtain ⟨fresh, rest⟩ := List.nodup_cons.mp distinct
      rcases List.mem_cons.mp member with same | later
      · cases same
        rw [find?_cons, if_pos rfl]
      · have differs : key ≠ k := by
          rintro rfl
          exact fresh (List.mem_map.mpr ⟨_, later, rfl⟩)
        rw [find?_cons, if_neg differs]
        exact ih rest later

theorem isSome_find?_iff {key : κ} {entries : OrderedMap κ β} :
    (entries.find? key).isSome ↔ key ∈ entries.map Prod.fst := by
  induction entries with
  | nil => simp
  | cons entry entries ih =>
      obtain ⟨k, other⟩ := entry
      rw [find?_cons]
      by_cases same : key = k <;> simp [same, ih]

theorem keys_update (key : κ) (f : β → β) (entries : OrderedMap κ β) :
    (entries.update key f).map Prod.fst = entries.map Prod.fst := by
  induction entries with
  | nil => rfl
  | cons entry entries ih =>
      obtain ⟨k, other⟩ := entry
      by_cases hit : key = k <;> simp [update, hit, ih]

theorem mem_update {key : κ} {f : β → β} {entries : OrderedMap κ β} {entry : κ × β}
    (member : entry ∈ entries.update key f) : entry ∈ entries ∨ ∃ value, entry = (key, f value) := by
  induction entries with
  | nil => contradiction
  | cons first entries ih =>
      obtain ⟨k, other⟩ := first
      rw [update] at member
      split_ifs at member with hit
      · rcases List.mem_cons.mp member with same | later
        · exact .inr ⟨other, hit ▸ same⟩
        · exact .inl (List.mem_cons_of_mem _ later)
      · rcases List.mem_cons.mp member with same | later
        · exact .inl (same ▸ List.mem_cons_self)
        · exact (ih later).imp_left (List.mem_cons_of_mem _)

omit [DecidableEq κ] in
theorem mapValues_congr {g : β → γ} {entries : OrderedMap κ β}
    (same : ∀ entry ∈ entries, f entry.2 = g entry.2) : entries.mapValues f = entries.mapValues g := by
  refine List.map_congr_left fun entry mem => ?_
  rw [same entry mem]

/-- Two functions that differ at one key give maps that differ at that key. -/
theorem mapValues_eq_update {g : β → γ} {key : κ} {value : γ} {entries : OrderedMap κ β}
    (distinct : (entries.map Prod.fst).Nodup) (here : ∀ entry ∈ entries, entry.1 = key → g entry.2 = value)
    (others : ∀ entry ∈ entries, entry.1 ≠ key → g entry.2 = f entry.2) :
    entries.mapValues g = (entries.mapValues f).update key fun _ => value := by
  induction entries with
  | nil => rfl
  | cons entry entries ih =>
      obtain ⟨k, other⟩ := entry
      obtain ⟨fresh, distinct⟩ := List.nodup_cons.mp distinct
      have rest : ∀ entry ∈ entries, entry.1 ≠ k := fun entry mem same =>
        fresh (List.mem_map.mpr ⟨entry, mem, same⟩)
      by_cases hit : key = k
      · subst hit
        have tail : mapValues g entries = mapValues f entries :=
          mapValues_congr fun entry mem => others entry (List.mem_cons_of_mem _ mem) (rest entry mem)
        simpa [mapValues, update, here _ List.mem_cons_self rfl] using tail
      · have tail := ih distinct (fun entry mem => here entry (List.mem_cons_of_mem _ mem))
          fun entry mem => others entry (List.mem_cons_of_mem _ mem)
        simpa [mapValues, update, hit, others _ List.mem_cons_self (Ne.symm hit)] using tail

/-! ### Removal -/

theorem mapValues_erase (key : κ) (entries : OrderedMap κ β) :
    (entries.erase key).mapValues f = (entries.mapValues f).erase key := by
  induction entries with
  | nil => rfl
  | cons entry entries ih =>
      obtain ⟨k, other⟩ := entry
      by_cases hit : key = k
      · simp [mapValues, erase, hit]
      · simpa [mapValues, erase, hit] using ih

theorem erase_sublist (key : κ) (entries : OrderedMap κ β) : (entries.erase key).Sublist entries := by
  induction entries with
  | nil => exact List.Sublist.refl _
  | cons entry entries ih =>
      obtain ⟨k, other⟩ := entry
      by_cases hit : key = k
      · rw [erase, if_pos hit]
        exact List.sublist_cons_self _ _
      · rw [erase, if_neg hit]
        exact ih.cons_cons _

theorem distinct_erase (key : κ) {entries : OrderedMap κ β} (distinct : (entries.map Prod.fst).Nodup) :
    ((entries.erase key).map Prod.fst).Nodup :=
  distinct.sublist ((erase_sublist key entries).map Prod.fst)

/-- In a map whose keys are distinct exactly the key is gone. -/
theorem find?_erase (key probe : κ) {entries : OrderedMap κ β}
    (distinct : (entries.map Prod.fst).Nodup) :
    (entries.erase key).find? probe = if probe = key then none else entries.find? probe := by
  induction entries with
  | nil => simp [erase]
  | cons entry entries ih =>
      obtain ⟨k, other⟩ := entry
      obtain ⟨fresh, rest⟩ := List.nodup_cons.mp distinct
      by_cases hit : key = k
      · subst hit
        rw [erase, if_pos rfl, find?_cons]
        split_ifs with same
        · rw [same, ← Option.not_isSome_iff_eq_none, isSome_find?_iff]
          exact fresh
        · rfl
      · rw [erase, if_neg hit, find?_cons, find?_cons, ih rest]
        by_cases here : probe = k
        · rw [if_pos here, if_neg (fun same => hit (same.symm.trans here)), if_pos here]
        · rw [if_neg here, if_neg here]

theorem erase_perm {key : κ} {value : β} {entries : OrderedMap κ β}
    (found : entries.find? key = some value) : entries.Perm ((key, value) :: entries.erase key) := by
  induction entries with
  | nil => contradiction
  | cons entry entries ih =>
      obtain ⟨k, other⟩ := entry
      rw [find?_cons] at found
      by_cases hit : key = k
      · rw [if_pos hit] at found
        cases found
        rw [erase, if_pos hit, hit]
      · rw [if_neg hit] at found
        rw [erase, if_neg hit]
        exact ((ih found).cons _).trans (List.Perm.swap _ _ _)

section Ordered

variable [LT κ] [DecidableLT κ]

theorem find?_place {key : κ} (value : β) {entries : OrderedMap κ β}
    (fresh : entries.find? key = none) (probe : κ) :
    (entries.place key value).find? probe =
      if probe = key then some value else entries.find? probe := by
  induction entries with
  | nil => rfl
  | cons entry entries ih =>
      obtain ⟨k, other⟩ := entry
      have differs : key ≠ k := by
        rintro rfl
        simp [find?_cons] at fresh
      have restFresh : find? key entries = none := by
        simpa [find?_cons, differs] using fresh
      by_cases less : key < k
      · simp [place, less, find?_cons]
      · by_cases same : probe = key
        · subst same
          simp [place, less, find?_cons, differs, ih restFresh]
        · simp [place, less, find?_cons, same, ih restFresh]

/-- `emplace` never overwrites: a taken key keeps its value. -/
theorem find?_emplace (key probe : κ) (value : β) (entries : OrderedMap κ β) :
    (entries.emplace key value).1.find? probe =
      if probe = key then some ((entries.find? key).getD value) else entries.find? probe := by
  cases found : entries.find? key with
  | some old =>
      by_cases same : probe = key
      · subst same
        simp [emplace, found]
      · simp [emplace, found, same]
  | none => simp [emplace, found, find?_place value found probe]

omit [DecidableEq κ] in
theorem place_perm (key : κ) (value : β) (entries : OrderedMap κ β) :
    (entries.place key value).Perm ((key, value) :: entries) := by
  induction entries with
  | nil => exact List.Perm.refl _
  | cons entry entries ih =>
      obtain ⟨k, other⟩ := entry
      by_cases less : key < k
      · rw [place, if_pos less]
      · rw [place, if_neg less]
        exact (ih.cons _).trans (List.Perm.swap _ _ _)

/-- The keys of a map stay distinct when a binding is added unless its key is taken. -/
theorem distinct_emplace (key : κ) (value : β) {entries : OrderedMap κ β}
    (distinct : (entries.map Prod.fst).Nodup) : ((entries.emplace key value).1.map Prod.fst).Nodup := by
  unfold emplace
  cases found : entries.find? key with
  | some old => exact distinct
  | none =>
      have fresh : key ∉ entries.map Prod.fst := by
        rw [← isSome_find?_iff, found]
        simp
      exact ((place_perm key value entries).map Prod.fst).nodup_iff.mpr (List.nodup_cons.mpr ⟨fresh, distinct⟩)

theorem mem_emplace {key : κ} {value : β} {entries : OrderedMap κ β} {entry : κ × β}
    (member : entry ∈ (entries.emplace key value).1) : entry = (key, value) ∨ entry ∈ entries := by
  unfold emplace at member
  cases found : entries.find? key with
  | some old =>
      rw [found] at member
      exact .inr member
  | none =>
      rw [found] at member
      exact List.mem_cons.mp ((place_perm key value entries).mem_iff.mp member)

end Ordered

end OrderedMap

end Nihil.Library

/-
Module: Nihil.Config.OptionLifetime
Layer: Config
Purpose: The global store as the program has it: a map from views of the options' names to pointers to the
  options, which register themselves when they are constructed and unregister when they are destroyed. In
  every run the map holds exactly the options that are alive, so that no key and no pointer in it dangles,
  and the program ends itself exactly when a name is taken. If every option has a string of its own, the
  options are the store of Nihil.Config.Store.
Imports: Nihil.Config.Store, Nihil.Library.Heap, Nihil.Library.Progress
Trusted boundary: an object is destroyed at most once; a pointer that get_option returned is used at once.
Main exports: OptionObject, Process, Process.registerOption, Process.unregisterOption, Process.fetch,
  ConfigEvent, configStep, Registered, Registered.create, Registered.erase, Registered.set_alive, store_sound
-/
import Mathlib.Data.List.Basic
import Nihil.Config.Store
import Nihil.Library.Heap
import Nihil.Library.Progress

namespace Nihil.Config

open Nihil.Library
open Nihil.Ucl

/-! ### The process -/

/-- An object of the class `string`. `storage` is the string that it refers to. -/
structure OptionObject where
  name : Str
  description : Str
  storage : Nat
  isDefault : Bool := true

/-- What became of the program. A program that reads what is not there any more has no defined behaviour. -/
inductive Status where
  | running
  | exited (message : Str)
  | undefined
deriving DecidableEq

/-- The options that are alive, the program's strings, and the store's map: in each entry the option whose
name the key is a view of, and the option that the value points to. -/
structure Process where
  objects : Heap OptionObject
  strings : Nat → Str
  options : List (Nat × Nat) := []
  status : Status := .running

/-- A program before its first option. -/
def Process.start (strings : Nat → Str) : Process := { objects := Heap.empty, strings := strings }

namespace Process

/-- `option::name` -/
def name? (self : Process) (object : Nat) : Option Str := (self.objects.cells object).map OptionObject.name

/-- The map with the texts of its keys, which any lookup may compare with. -/
def keys (self : Process) : Option (OrderedMap Str (Nat × Nat)) :=
  self.options.mapM fun entry => (self.name? entry.1).map fun name => (name, entry)

/-- `store::register_option` -/
def registerOption (self : Process) (object : Nat) : Option (Except Error Process) := do
  let name ← self.name? object
  let keys ← self.keys
  let inserted := keys.emplace name (object, object)
  if inserted.2 then return .ok { self with options := inserted.1.map Prod.snd }
  else return .error (.ofText ("attempt to register duplicate configuration option '".toList ++ name ++ ['\'']))

/-- `store::unregister_option` -/
def unregisterOption (self : Process) (object : Nat) : Option (Except Error Process) := do
  let name ← self.name? object
  let keys ← self.keys
  match keys.find? name with
  | none => return .error (.ofText
      ("attempt to unregister non-existent configuration option '".toList ++ name ++ ['\'']))
  | some _ => return .ok { self with options := (keys.erase name).map Prod.snd }

/-- `store::fetch` -/
def fetch (self : Process) (name : Str) : Option (Except Error Nat) := do
  let keys ← self.keys
  match keys.find? name with
  | some entry => return .ok entry.2
  | none => return .error (.ofText ("unknown configuration option '".toList ++ name ++ ['\'']))

/-- The constructors of `string` and `option`. -/
def construct (self : Process) (object : OptionObject) : Process :=
  let this := self.objects.next
  let self := { self with objects := self.objects.create object }
  match self.registerOption this with
  | none => { self with status := .undefined }
  | some (.ok self) => self
  | some (.error err) =>
      { self with status := .exited ("INTERNAL ERROR: failed to register configuration option '".toList
          ++ object.name ++ "': ".toList ++ err.fullStr ++ ['\n']) }

/-- `~option`, which does not look at the result of `unregister_option`. -/
def destroy (self : Process) (object : Nat) : Process :=
  match self.unregisterOption object with
  | none => { self with status := .undefined }
  | some (.error _) => { self with objects := self.objects.put object none }
  | some (.ok self) => { self with objects := self.objects.put object none }

/-- What an option is at the moment. -/
def optionOf (self : Process) (this : OptionObject) : ConfigOption :=
  { name := this.name, description := this.description, storage := self.strings this.storage,
    isDefault := this.isDefault }

def option? (self : Process) (object : Nat) : Option ConfigOption :=
  (self.objects.cells object).map self.optionOf

/-- A setter: the string that the option refers to gets a value, and the option is not default any more. -/
def assign (self : Process) (object : Nat) (this : OptionObject) (value : Str) : Process :=
  { self with
    objects := self.objects.put object (some { this with isDefault := false })
    strings := Function.update self.strings this.storage value }

/-- `get_option(name)`, and a setter on the option if there is one. -/
def set (self : Process) (name : Str) (setter : ConfigOption → Except ConfigAbort ConfigOption) : Process :=
  match self.fetch name with
  | none => { self with status := .undefined }
  | some (.error _) => self
  | some (.ok object) =>
      match self.objects.cells object with
      | none => { self with status := .undefined }
      | some this =>
          match setter (self.optionOf this) with
          | .error _ => self
          | .ok option => self.assign object this option.storage

end Process

/-- What a program does. -/
inductive ConfigEvent where
  | construct (storage : Nat) (name description : Str)
  | destroy (object : Nat)
  /-- `get_option(name)`, and `string(value)` on it. -/
  | setString (name value : Str)
  /-- `get_option(name)`, and `ucl(value)` on it, as `read_from` does. -/
  | setUcl (name : Str) (value : UclObject)
  /-- The program assigns to one of its strings. -/
  | assignString (cell : Nat) (value : Str)

/-- One step of a program that still runs. -/
def configStep (event : ConfigEvent) (self : Process) : Option Process :=
  if self.status = .running then
    match event with
    | .construct storage name description =>
        some (self.construct { name := name, description := description, storage := storage })
    | .destroy object => if (self.objects.cells object).isSome then some (self.destroy object) else none
    | .setString name value => some (self.set name fun option => .ok (option.setString value))
    | .setUcl name value => some (self.set name fun option => option.setUcl value)
    | .assignString cell value => some { self with strings := Function.update self.strings cell value }
  else none

/-! ### The map is exact -/

/-- The map has an entry for a name exactly if an option of that name is alive, and both its key and its
value are that option. -/
structure Registered (process : Process) (keys : OrderedMap Str (Nat × Nat)) : Prop where
  options : process.options = keys.map Prod.snd
  distinct : (keys.map Prod.fst).Nodup
  exact : ∀ name entry, keys.find? name = some entry ↔ entry.1 = entry.2 ∧ process.name? entry.2 = some name

/-- What the keys of the map are views of can be read. -/
def Readable (process : Process) (keys : OrderedMap Str (Nat × Nat)) : Prop :=
  ∀ pair ∈ keys, process.name? pair.2.1 = some pair.1

theorem keys_of_readable {process : Process} {keys : OrderedMap Str (Nat × Nat)}
    (options : process.options = keys.map Prod.snd) (readable : Readable process keys) :
    process.keys = some keys := by
  rw [Process.keys, options]
  clear options
  induction keys with
  | nil => rfl
  | cons pair keys ih =>
      have head := readable pair List.mem_cons_self
      have rest := ih fun pair mem => readable pair (List.mem_cons_of_mem _ mem)
      simp [List.mapM_cons, head, rest]

theorem name?_create {process after : Process} {object : OptionObject}
    (created : after.objects = process.objects.create object) (place : Nat) :
    after.name? place = if place = process.objects.next then some object.name else process.name? place := by
  simp only [Process.name?, created, Heap.cells_create, Function.update_apply]
  split_ifs <;> rfl

theorem name?_put {process after : Process} {object : Nat} {this : OptionObject} {content : Option OptionObject}
    (changed : after.objects = process.objects.put object content)
    (alive : process.objects.cells object = some this) (place : Nat) :
    after.name? place = if place = object then content.map OptionObject.name else process.name? place := by
  simp only [Process.name?, changed, Heap.cells_put alive, Function.update_apply]
  split_ifs <;> rfl

theorem next_not_alive (process : Process) : process.name? process.objects.next = none := by
  rw [Process.name?, Heap.cells_next, Option.map_none]

namespace Registered

variable {process : Process} {keys : OrderedMap Str (Nat × Nat)}

theorem of_mem (registered : Registered process keys) {pair : Str × Nat × Nat} (mem : pair ∈ keys) :
    pair.2.1 = pair.2.2 ∧ process.name? pair.2.2 = some pair.1 :=
  (registered.exact _ _).mp (OrderedMap.find?_of_mem registered.distinct mem)

theorem readable (registered : Registered process keys) : Readable process keys := by
  intro pair mem
  obtain ⟨same, name⟩ := registered.of_mem mem
  rw [same, name]

theorem keys_eq (registered : Registered process keys) : process.keys = some keys :=
  keys_of_readable registered.options registered.readable

theorem find?_of_alive (registered : Registered process keys) {object : Nat} {name : Str}
    (alive : process.name? object = some name) : keys.find? name = some (object, object) :=
  (registered.exact name (object, object)).mpr ⟨rfl, alive⟩

theorem find?_eq_none_iff (registered : Registered process keys) (name : Str) :
    keys.find? name = none ↔ ∀ object, process.name? object ≠ some name := by
  constructor
  · intro absent object alive
    have found := registered.find?_of_alive alive
    rw [absent] at found
    cases found
  · intro absent
    cases found : keys.find? name with
    | none => rfl
    | some entry => exact absurd ((registered.exact name entry).mp found).2 (absent entry.2)

/-- A name stands for one option. -/
theorem unique (registered : Registered process keys) {object other : Nat} {name : Str}
    (alive : process.name? object = some name) (alive' : process.name? other = some name) : object = other := by
  have found := registered.find?_of_alive alive
  rw [registered.find?_of_alive alive', Option.some.injEq, Prod.mk.injEq] at found
  exact found.1.symm

/-- `fetch` finds exactly the options that are alive. -/
theorem fetch_eq_ok_iff (registered : Registered process keys) (name : Str) (object : Nat) :
    process.fetch name = some (.ok object) ↔ process.name? object = some name := by
  simp only [Process.fetch, registered.keys_eq, Option.bind_eq_bind, Option.bind_some]
  cases found : keys.find? name with
  | none => simp [(registered.find?_eq_none_iff name).mp found object]
  | some entry =>
      obtain ⟨-, alive⟩ := (registered.exact name entry).mp found
      constructor
      · intro fetched
        cases fetched
        exact alive
      · intro alive'
        have found' := registered.find?_of_alive alive'
        rw [found, Option.some.injEq] at found'
        simp [found']

/-! ### Constructors and destructors -/

/-- The keys can be read while a new option registers itself. -/
theorem keys_create (registered : Registered process keys) (object : OptionObject) :
    ({ process with objects := process.objects.create object } : Process).keys = some keys := by
  refine keys_of_readable registered.options fun pair mem => ?_
  have read := registered.readable pair mem
  have older : pair.2.1 ≠ process.objects.next := by
    intro same
    rw [same, next_not_alive] at read
    cases read
  rw [name?_create rfl, if_neg older, read]

/-- The option whose name is taken ends the program. -/
theorem construct_taken (registered : Registered process keys) (object : OptionObject)
    {entry : Nat × Nat} (taken : keys.find? object.name = some entry) :
    ∃ message, (process.construct object).status = .exited message := by
  have name : ({ process with objects := process.objects.create object } : Process).name?
      process.objects.next = some object.name := by rw [name?_create rfl, if_pos rfl]
  have keys' := registered.keys_create object
  simp [Process.construct, Process.registerOption, name, keys', OrderedMap.emplace, taken]

theorem construct_fresh (registered : Registered process keys) {object : OptionObject}
    (fresh : keys.find? object.name = none) :
    process.construct object =
      { process with
        objects := process.objects.create object
        options := (keys.place object.name (process.objects.next, process.objects.next)).map Prod.snd } := by
  have name : ({ process with objects := process.objects.create object } : Process).name?
      process.objects.next = some object.name := by rw [name?_create rfl, if_pos rfl]
  have keys' := registered.keys_create object
  simp [Process.construct, Process.registerOption, name, keys', OrderedMap.emplace, fresh]

/-- A new option of a name that is free is added to the map. -/
theorem create (registered : Registered process keys) {object : OptionObject}
    (fresh : keys.find? object.name = none) :
    Registered (process.construct object)
      (keys.place object.name (process.objects.next, process.objects.next)) := by
  rw [registered.construct_fresh fresh]
  refine ⟨rfl, ?_, fun name entry => ?_⟩
  · have distinct := OrderedMap.distinct_emplace object.name (process.objects.next, process.objects.next)
      registered.distinct
    simpa [OrderedMap.emplace, fresh] using distinct
  · rw [OrderedMap.find?_place _ fresh, name?_create rfl]
    have absent := (registered.find?_eq_none_iff object.name).mp fresh
    obtain ⟨key, value⟩ := entry
    by_cases same : name = object.name
    · subst same
      rw [if_pos rfl]
      constructor
      · intro new
        cases new
        simp
      · rintro ⟨agree, alive⟩
        obtain rfl : key = value := agree
        split_ifs at alive with here
        · rw [← here]
        · exact absurd alive (absent key)
    · rw [if_neg same, registered.exact]
      refine and_congr_right fun _ => ?_
      split_ifs with here
      · rw [here, next_not_alive]
        simp [Ne.symm same]
      · exact Iff.rfl

theorem destroy_eq (registered : Registered process keys) {object : Nat} {name : Str}
    (alive : process.name? object = some name) :
    process.destroy object =
      { process with
        objects := process.objects.put object none
        options := (keys.erase name).map Prod.snd } := by
  have found := registered.find?_of_alive alive
  simp [Process.destroy, Process.unregisterOption, alive, registered.keys_eq, found]

/-- An option that is destroyed takes its own entry along, and no other. -/
theorem erase (registered : Registered process keys) {object : Nat} {this : OptionObject}
    (alive : process.objects.cells object = some this) :
    Registered (process.destroy object) (keys.erase this.name) := by
  have name : process.name? object = some this.name := by rw [Process.name?, alive, Option.map_some]
  rw [registered.destroy_eq name]
  refine ⟨rfl, OrderedMap.distinct_erase this.name registered.distinct, fun probe entry => ?_⟩
  rw [OrderedMap.find?_erase _ _ registered.distinct, name?_put rfl alive, Option.map_none]
  by_cases same : probe = this.name
  · subst same
    rw [if_pos rfl]
    constructor
    · intro gone
      cases gone
    · rintro ⟨-, still⟩
      split_ifs at still with here
      exact absurd (registered.unique still name) here
  · rw [if_neg same, registered.exact]
    refine and_congr_right fun _ => ?_
    split_ifs with here
    · rw [here, name]
      simp [Ne.symm same]
    · exact Iff.rfl

/-- The map does not depend on anything but the names. -/
theorem of_same (registered : Registered process keys) {after : Process}
    (options : after.options = process.options)
    (names : ∀ object, after.name? object = process.name? object) : Registered after keys where
  options := options.trans registered.options
  distinct := registered.distinct
  exact name entry := by rw [registered.exact, names]

/-! ### Setters -/

theorem set_unknown (registered : Registered process keys) {name : Str} (absent : keys.find? name = none)
    (setter : ConfigOption → Except ConfigAbort ConfigOption) : process.set name setter = process := by
  simp [Process.set, Process.fetch, registered.keys_eq, absent]

/-- A setter reaches the option of the name. -/
theorem set_alive (registered : Registered process keys) {object : Nat} {this : OptionObject}
    (alive : process.objects.cells object = some this)
    (setter : ConfigOption → Except ConfigAbort ConfigOption) :
    process.set this.name setter =
      match setter (process.optionOf this) with
      | .error _ => process
      | .ok option => process.assign object this option.storage := by
  have named : process.name? object = some this.name := by rw [Process.name?, alive, Option.map_some]
  have fetched := (registered.fetch_eq_ok_iff this.name object).mpr named
  simp only [Process.set, fetched, alive]

/-- An entry of the map is an option that is alive. -/
theorem alive_of_find? (registered : Registered process keys) {name : Str} {entry : Nat × Nat}
    (found : keys.find? name = some entry) :
    ∃ object this, entry = (object, object) ∧ process.objects.cells object = some this ∧ this.name = name := by
  obtain ⟨same, named⟩ := (registered.exact name entry).mp found
  obtain ⟨this, alive, named⟩ := Option.map_eq_some_iff.mp named
  exact ⟨entry.2, this, Prod.ext same rfl, alive, named⟩

theorem name?_assign {object : Nat} {this : OptionObject} (alive : process.objects.cells object = some this)
    (value : Str) (place : Nat) : (process.assign object this value).name? place = process.name? place := by
  rw [name?_put rfl alive]
  split_ifs with here
  · rw [here, Process.name?, alive, Option.map_some, Option.map_some]
  · rfl

/-- The map and the status do not depend on what the options' values are. -/
theorem set (registered : Registered process keys) (name : Str)
    (setter : ConfigOption → Except ConfigAbort ConfigOption) :
    Registered (process.set name setter) keys ∧ (process.set name setter).status = process.status := by
  cases found : keys.find? name with
  | none =>
      rw [registered.set_unknown found]
      exact ⟨registered, rfl⟩
  | some entry =>
      obtain ⟨object, this, -, alive, rfl⟩ := registered.alive_of_find? found
      rw [registered.set_alive alive]
      cases setter (process.optionOf this) with
      | error abort => exact ⟨registered, rfl⟩
      | ok option => exact ⟨registered.of_same rfl (name?_assign alive option.storage), rfl⟩

end Registered

/-! ### Runs -/

/-- The program's behaviour is defined, and its map is exact while it runs. -/
structure Sane (process : Process) : Prop where
  defined : process.status ≠ .undefined
  registered : process.status = .running → ∃ keys, Registered process keys

theorem Sane.of_registered {process : Process} {keys : OrderedMap Str (Nat × Nat)}
    (running : process.status = .running) (registered : Registered process keys) : Sane process where
  defined := by simp [running]
  registered _ := ⟨keys, registered⟩

/-- The program goes on exactly if the name of the new option is free. -/
theorem construct_running_iff {process : Process} {keys : OrderedMap Str (Nat × Nat)}
    (running : process.status = .running) (registered : Registered process keys) (object : OptionObject) :
    (process.construct object).status = .running ↔ ∀ other, process.name? other ≠ some object.name := by
  rw [← registered.find?_eq_none_iff]
  cases found : keys.find? object.name with
  | none => simp [registered.construct_fresh found, running]
  | some entry =>
      obtain ⟨message, exited⟩ := registered.construct_taken object found
      simp [exited]

theorem sane_construct {process : Process} {keys : OrderedMap Str (Nat × Nat)}
    (running : process.status = .running) (registered : Registered process keys) (object : OptionObject) :
    Sane (process.construct object) := by
  cases found : keys.find? object.name with
  | none =>
      refine .of_registered ?_ (registered.create found)
      rw [registered.construct_fresh found]
      exact running
  | some entry =>
      obtain ⟨message, exited⟩ := registered.construct_taken object found
      exact { defined := by simp [exited], registered := by simp [exited] }

theorem sane_keeps : Keeps configStep Sane := by
  intro process event after sane taken
  unfold configStep at taken
  split_ifs at taken with running
  obtain ⟨keys, registered⟩ := sane.registered running
  cases event with
  | construct storage name description =>
      cases taken
      exact sane_construct running registered _
  | destroy object =>
      cases alive : process.objects.cells object with
      | none => simp [alive] at taken
      | some this =>
          obtain rfl : process.destroy object = after := by simpa [alive] using taken
          have name : process.name? object = some this.name := by rw [Process.name?, alive, Option.map_some]
          refine .of_registered ?_ (registered.erase alive)
          rw [registered.destroy_eq name]
          exact running
  | setString name value =>
      cases taken
      obtain ⟨registered', same⟩ := registered.set name _
      exact .of_registered (same.trans running) registered'
  | setUcl name value =>
      cases taken
      obtain ⟨registered', same⟩ := registered.set name _
      exact .of_registered (same.trans running) registered'
  | assignString cell value =>
      cases taken
      exact .of_registered running (registered.of_same rfl fun _ => rfl)

theorem registered_start (strings : Nat → Str) : Registered (Process.start strings) [] := by
  refine ⟨rfl, List.nodup_nil, fun name entry => ?_⟩
  simp [Process.start, Process.name?, Heap.empty]

/-- In every run the program reads no key and no option that is gone. As long as it runs, `fetch` finds
exactly the options that are alive, under their own names, everything in the map is alive, and the next
constructor ends the program exactly if its name is taken. -/
theorem store_sound (strings : Nat → Str) {events : List ConfigEvent} {process : Process}
    (ran : run configStep events (Process.start strings) = some process) :
    process.status ≠ .undefined
      ∧ (process.status = .running →
          (∀ name object, process.fetch name = some (.ok object) ↔ process.name? object = some name)
          ∧ (∀ name, (∀ object, process.name? object ≠ some name) → process.fetch name =
              some (.error (.ofText ("unknown configuration option '".toList ++ name ++ ['\'']))))
          ∧ (∀ entry ∈ process.options, entry.1 = entry.2 ∧ (process.name? entry.2).isSome)
          ∧ ∀ object, (process.construct object).status = .running ↔
              ∀ other, process.name? other ≠ some object.name) := by
  have sane := run_keeps sane_keeps (.of_registered rfl (registered_start strings)) ran
  refine ⟨sane.defined, fun running => ?_⟩
  obtain ⟨keys, registered⟩ := sane.registered running
  refine ⟨registered.fetch_eq_ok_iff, fun name absent => ?_, fun entry mem => ?_,
    construct_running_iff running registered⟩
  · have unknown := (registered.find?_eq_none_iff name).mpr absent
    simp [Process.fetch, registered.keys_eq, unknown]
  · rw [registered.options] at mem
    obtain ⟨pair, inside, rfl⟩ := List.mem_map.mp mem
    obtain ⟨same, alive⟩ := registered.of_mem inside
    exact ⟨same, by rw [alive]; rfl⟩

theorem store_sound_two :
    ∃ process, run configStep
        [.construct 0 "a".toList [], .construct 1 "b".toList [], .setString "a".toList ['x'], .destroy 0]
        (Process.start fun _ => []) = some process
      ∧ process.fetch "b".toList = some (.ok 1) := by
  obtain ⟨process, ran, running, alive⟩ : ∃ process, run configStep
        [.construct 0 "a".toList [], .construct 1 "b".toList [], .setString "a".toList ['x'], .destroy 0]
        (Process.start fun _ => []) = some process
      ∧ process.status = .running ∧ process.name? 1 = some "b".toList := ⟨_, rfl, rfl, rfl⟩
  exact ⟨process, ran, (((store_sound _ ran).2 running).1 "b".toList 1).mpr alive⟩

end Nihil.Config

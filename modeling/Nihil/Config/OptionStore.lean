/-
Module: Nihil.Config.OptionStore
Layer: Config
Purpose: The program with its objects, strings and pointers refines the store of values. If no two options
  that are alive refer to one string, and the program leaves the strings of its options alone, then every run
  is a run of the store: what the options are, in the order of the map, is what the store holds, and where
  the program ends itself the store refuses.
Imports: Nihil.Config.OptionLifetime
Trusted boundary: as for Nihil.Config.OptionLifetime
Main exports: Store.unregisterOption, StoreAction, storeStep, actionsOf, OwnString, Represents, step_represents,
  run_represents
-/
import Nihil.Config.OptionLifetime

namespace Nihil.Config

open Nihil.Library
open Nihil.Ucl

/-! ### Runs of the store of values -/

/-- `store::unregister_option`, for an option that is registered or not. -/
def Store.unregisterOption (self : Store) (name : Str) : Store where
  options := self.options.erase name
  distinct := OrderedMap.distinct_erase name self.distinct
  named entry mem := self.named entry ((OrderedMap.erase_sublist name self.options).subset mem)

/-- `get_option(name)`, and a setter on what it returns. -/
def Store.set (self : Store) (name : Str) (setter : ConfigOption → Except ConfigAbort ConfigOption) : Store :=
  match self.fetch name with
  | .error _ => self
  | .ok option =>
      match setter option with
      | .error _ => self
      | .ok option => self.assign option

inductive StoreAction where
  | register (declaration : Declaration)
  | unregister (name : Str)
  | setString (name value : Str)
  | setUcl (name : Str) (value : UclObject)

/-- The store does not go on where it refuses a name. -/
def storeStep (action : StoreAction) (self : Store) : Option Store :=
  match action with
  | .register declaration => (self.registerOption declaration.option).toOption
  | .unregister name => some (self.unregisterOption name)
  | .setString name value => some (self.set name fun option => .ok (option.setString value))
  | .setUcl name value => some (self.set name fun option => option.setUcl value)

/-- What an event of the program is for the store. -/
def actionOf (process : Process) : ConfigEvent → Option StoreAction
  | .construct storage name description =>
      some (.register { name := name, description := description, storage := process.strings storage })
  | .destroy object => (process.name? object).map .unregister
  | .setString name value => some (.setString name value)
  | .setUcl name value => some (.setUcl name value)
  | .assignString _ _ => none

/-- The actions of a run of the program. -/
def actionsOf : List ConfigEvent → Process → List StoreAction
  | [], _ => []
  | event :: events, process =>
      (actionOf process event).toList ++
        match configStep event process with
        | none => []
        | some after => actionsOf events after

/-! ### The relation -/

/-- No option that is alive refers to the string. -/
def Process.Unbound (process : Process) (cell : Nat) : Prop :=
  ∀ object this, process.objects.cells object = some this → this.storage ≠ cell

/-- A new option gets a string that no option has, and the program does not assign to a string that an option
has. -/
def OwnString (process : Process) : ConfigEvent → Prop
  | .construct storage _ _ => process.Unbound storage
  | .assignString cell _ => process.Unbound cell
  | _ => True

/-- The program's options are those of the store, in the same order, and no two share a string. -/
structure Represents (process : Process) (store : Store) (keys : OrderedMap Str (Nat × Nat)) : Prop where
  registered : Registered process keys
  options : (keys.mapValues fun entry => process.option? entry.2) = store.options.mapValues some
  own : ∀ object other this that, process.objects.cells object = some this →
    process.objects.cells other = some that → this.storage = that.storage → object = other

namespace Represents

variable {process : Process} {store : Store} {keys : OrderedMap Str (Nat × Nat)}

theorem find?_eq (represents : Represents process store keys) (name : Str) :
    store.options.find? name = (keys.find? name).bind fun entry => process.option? entry.2 := by
  have both := congrArg (OrderedMap.find? name) represents.options
  rw [OrderedMap.find?_mapValues, OrderedMap.find?_mapValues] at both
  cases found : store.options.find? name with
  | none =>
      rw [found, Option.map_none, Option.map_eq_none_iff] at both
      rw [both, Option.bind_none]
  | some option =>
      rw [found, Option.map_some] at both
      obtain ⟨entry, at_, same⟩ := Option.map_eq_some_iff.mp both
      rw [at_, Option.bind_some, same]

theorem find?_eq_none_iff (represents : Represents process store keys) (name : Str) :
    store.options.find? name = none ↔ keys.find? name = none := by
  have both := congrArg (OrderedMap.find? name) represents.options
  rw [OrderedMap.find?_mapValues, OrderedMap.find?_mapValues] at both
  rw [← Option.map_eq_none_iff (f := some), ← both, Option.map_eq_none_iff]

/-- The store has what an option is that is alive. -/
theorem find?_alive (represents : Represents process store keys) {object : Nat} {this : OptionObject}
    (alive : process.objects.cells object = some this) :
    store.options.find? this.name = some (process.optionOf this) := by
  have named : process.name? object = some this.name := by rw [Process.name?, alive, Option.map_some]
  rw [represents.find?_eq, represents.registered.find?_of_alive named, Option.bind_some, Process.option?, alive,
    Option.map_some]

/-! ### Constructors and destructors -/

theorem option?_create {after : Process} {object : OptionObject}
    (created : after.objects = process.objects.create object) (strings : after.strings = process.strings)
    (place : Nat) :
    after.option? place =
      if place = process.objects.next then some (process.optionOf object) else process.option? place := by
  have same : after.optionOf = process.optionOf := by
    funext this
    rw [Process.optionOf, Process.optionOf, strings]
  simp only [Process.option?, created, Heap.cells_create, Function.update_apply, same]
  split_ifs <;> rfl

theorem objects_construct (registered : Registered process keys) {object : OptionObject}
    (fresh : keys.find? object.name = none) :
    (process.construct object).objects = process.objects.create object
      ∧ (process.construct object).strings = process.strings := by
  rw [registered.construct_fresh fresh]
  exact ⟨rfl, rfl⟩

/-- The store takes an option whose name is free. -/
theorem construct (represents : Represents process store keys) (object : OptionObject)
    (unbound : process.Unbound object.storage) (fresh : keys.find? object.name = none) :
    ∃ after, store.registerOption (process.optionOf object) = .ok after
      ∧ Represents (process.construct object) after
          (keys.place object.name (process.objects.next, process.objects.next)) := by
  have absent := (represents.find?_eq_none_iff object.name).mpr fresh
  have inserted : store.options.emplace object.name (process.optionOf object) =
      (store.options.place object.name (process.optionOf object), true) := by
    simp [OrderedMap.emplace, absent]
  obtain ⟨objects, strings⟩ := objects_construct represents.registered fresh
  have places := option?_create objects strings
  refine ⟨_, if_pos (congrArg Prod.snd inserted), represents.registered.create fresh, ?_, ?_⟩
  · have older : (keys.mapValues fun entry => (process.construct object).option? entry.2) =
        keys.mapValues fun entry => process.option? entry.2 := by
      refine OrderedMap.mapValues_congr fun pair mem => ?_
      rw [places, if_neg]
      intro same
      have named := (represents.registered.of_mem mem).2
      rw [same, next_not_alive] at named
      cases named
    have new : (process.construct object).option? process.objects.next = some (process.optionOf object) := by
      rw [places, if_pos rfl]
    rw [OrderedMap.mapValues_place, older, new, represents.options, ← OrderedMap.mapValues_place]
    exact congrArg (OrderedMap.mapValues some) (congrArg Prod.fst inserted).symm
  · rw [objects]
    intro place other this that first second shared
    rw [Heap.cells_create, Function.update_apply] at first second
    split_ifs at first second with isNew isNew'
    · rw [isNew, isNew']
    · cases first
      exact absurd shared.symm (unbound other that second)
    · cases second
      exact absurd shared (unbound place this first)
    · exact represents.own place other this that first second shared

/-- The store refuses an option whose name is taken. -/
theorem construct_taken (represents : Represents process store keys) (object : OptionObject)
    {entry : Nat × Nat} (taken : keys.find? object.name = some entry) :
    ∃ err, store.registerOption (process.optionOf object) = .error err := by
  obtain ⟨place, this, rfl, alive, named⟩ := represents.registered.alive_of_find? taken
  have found := represents.find?_alive alive
  rw [named] at found
  have refused : store.options.emplace object.name (process.optionOf object) = (store.options, false) := by
    simp [OrderedMap.emplace, found]
  have notInserted : ¬ (store.options.emplace object.name (process.optionOf object)).2 = true := by
    simp [refused]
  exact ⟨_, if_neg notInserted⟩

theorem option?_put {after : Process} {object : Nat} {this : OptionObject} {content : Option OptionObject}
    (changed : after.objects = process.objects.put object content) (strings : after.strings = process.strings)
    (alive : process.objects.cells object = some this) (place : Nat) :
    after.option? place = if place = object then content.map process.optionOf else process.option? place := by
  have same : after.optionOf = process.optionOf := by
    funext this
    rw [Process.optionOf, Process.optionOf, strings]
  simp only [Process.option?, changed, Heap.cells_put alive, Function.update_apply, same]
  split_ifs <;> rfl

theorem objects_destroy (registered : Registered process keys) {object : Nat} {this : OptionObject}
    (alive : process.objects.cells object = some this) :
    (process.destroy object).objects = process.objects.put object none
      ∧ (process.destroy object).strings = process.strings := by
  have named : process.name? object = some this.name := by rw [Process.name?, alive, Option.map_some]
  rw [registered.destroy_eq named]
  exact ⟨rfl, rfl⟩

theorem destroy (represents : Represents process store keys) {object : Nat} {this : OptionObject}
    (alive : process.objects.cells object = some this) :
    Represents (process.destroy object) (store.unregisterOption this.name) (keys.erase this.name) := by
  have registered := represents.registered.erase alive
  obtain ⟨objects, strings⟩ := objects_destroy represents.registered alive
  refine ⟨registered, ?_, ?_⟩
  · have others : ((keys.erase this.name).mapValues fun entry => (process.destroy object).option? entry.2) =
        (keys.erase this.name).mapValues fun entry => process.option? entry.2 := by
      refine OrderedMap.mapValues_congr fun pair mem => ?_
      rw [option?_put objects strings alive, if_neg]
      intro same
      have named := (registered.of_mem mem).2
      rw [name?_put objects alive, if_pos same] at named
      cases named
    rw [others, OrderedMap.mapValues_erase, represents.options, ← OrderedMap.mapValues_erase]
    rfl
  · rw [objects]
    intro place other first second there there' shared
    rw [Heap.cells_put alive, Function.update_apply] at there there'
    split_ifs at there there'
    exact represents.own place other first second there there' shared

/-! ### Setters -/

theorem option?_assign_self {object : Nat} {this : OptionObject}
    (alive : process.objects.cells object = some this) (value : Str) :
    (process.assign object this value).option? object = some ((process.optionOf this).setString value) := by
  have here : (process.assign object this value).objects.cells object =
      some { this with isDefault := false } := by
    rw [Process.assign, Heap.cells_put alive, Function.update_self]
  rw [Process.option?, here, Option.map_some]
  simp [Process.optionOf, Process.assign, ConfigOption.setString]

/-- An option with another string is not concerned. -/
theorem option?_assign_other (represents : Represents process store keys) {object other : Nat}
    {this : OptionObject} (alive : process.objects.cells object = some this) (different : other ≠ object)
    (value : Str) : (process.assign object this value).option? other = process.option? other := by
  have there : (process.assign object this value).objects.cells other = process.objects.cells other := by
    rw [Process.assign, Heap.cells_put alive, Function.update_of_ne different]
  rw [Process.option?, there, Process.option?]
  refine Option.map_congr fun that alive' => ?_
  have apart : that.storage ≠ this.storage := fun shared =>
    different (represents.own other object that this alive' alive shared)
  simp [Process.optionOf, Process.assign, apart]

theorem assign (represents : Represents process store keys) {object : Nat} {this : OptionObject}
    (alive : process.objects.cells object = some this) (value : Str) :
    Represents (process.assign object this value) (store.assign ((process.optionOf this).setString value))
      keys := by
  have named : process.name? object = some this.name := by rw [Process.name?, alive, Option.map_some]
  refine ⟨represents.registered.of_same rfl (Registered.name?_assign alive value), ?_, ?_⟩
  · have here : ∀ pair ∈ keys, pair.1 = this.name → (process.assign object this value).option? pair.2.2 =
        some ((process.optionOf this).setString value) := by
      intro pair mem same
      have owner := (represents.registered.of_mem mem).2
      rw [same] at owner
      rw [represents.registered.unique owner named, option?_assign_self alive]
    have others : ∀ pair ∈ keys, pair.1 ≠ this.name →
        (process.assign object this value).option? pair.2.2 = process.option? pair.2.2 := by
      intro pair mem differs
      refine represents.option?_assign_other alive (fun same => differs ?_) value
      have owner := (represents.registered.of_mem mem).2
      rw [same, named, Option.some.injEq] at owner
      exact owner.symm
    calc (keys.mapValues fun entry => (process.assign object this value).option? entry.2)
        = (keys.mapValues fun entry => process.option? entry.2).update this.name
            fun _ => some ((process.optionOf this).setString value) :=
          OrderedMap.mapValues_eq_update represents.registered.distinct here others
      _ = (store.options.mapValues some).update this.name
            fun _ => some ((process.optionOf this).setString value) := by rw [represents.options]
      _ = (store.options.update this.name fun _ => (process.optionOf this).setString value).mapValues some :=
          (OrderedMap.mapValues_update (f := some) (fun _ => rfl) this.name store.options).symm
  · have storage : ∀ place that, (process.assign object this value).objects.cells place = some that →
        ∃ before, process.objects.cells place = some before ∧ before.storage = that.storage := by
      intro place that there
      rw [Process.assign, Heap.cells_put alive, Function.update_apply] at there
      split_ifs at there with here
      · cases there
        exact ⟨this, here ▸ alive, rfl⟩
      · exact ⟨that, there, rfl⟩
    intro place other first second there there' shared
    obtain ⟨before, alive₁, same₁⟩ := storage place first there
    obtain ⟨before', alive₂, same₂⟩ := storage other second there'
    exact represents.own place other before before' alive₁ alive₂ (same₁.trans (shared.trans same₂.symm))

/-- A setter assigns a string, and the option is not default any more. -/
def Assigns (setter : ConfigOption → Except ConfigAbort ConfigOption) : Prop :=
  ∀ option after, setter option = .ok after → after = option.setString after.storage

theorem assigns_setUcl (value : UclObject) : Assigns fun option => option.setUcl value := by
  intro option after set
  unfold ConfigOption.setUcl at set
  split at set
  · cases set
  · cases set
  · split at set
    · cases set
    · cases set
      rfl

theorem set (represents : Represents process store keys) (name : Str)
    {setter : ConfigOption → Except ConfigAbort ConfigOption} (assigns : Assigns setter) :
    Represents (process.set name setter) (store.set name setter) keys := by
  cases found : keys.find? name with
  | none =>
      have absent := (represents.find?_eq_none_iff name).mpr found
      rw [represents.registered.set_unknown found, Store.set, Store.fetch, absent]
      exact represents
  | some entry =>
      obtain ⟨object, this, -, alive, rfl⟩ := represents.registered.alive_of_find? found
      rw [represents.registered.set_alive alive, Store.set, Store.fetch, represents.find?_alive alive]
      simp only
      cases applied : setter (process.optionOf this) with
      | error abort => exact represents
      | ok after =>
          have assigned := represents.assign alive after.storage
          rwa [← assigns _ _ applied] at assigned

/-! ### What can be seen -/

/-- `store::all` -/
theorem all_eq (represents : Represents process store keys) :
    (process.options.map fun entry => process.option? entry.2) = store.all.map some := by
  have both := congrArg (List.map Prod.snd) represents.options
  simpa [OrderedMap.mapValues, represents.registered.options, Store.all, Function.comp_def] using both

theorem fetch_eq (represents : Represents process store keys) (name : Str) (option : ConfigOption) :
    store.fetch name = .ok option ↔
      ∃ object, process.fetch name = some (.ok object) ∧ process.option? object = some option := by
  have stored : store.fetch name = .ok option ↔ store.options.find? name = some option := by
    unfold Store.fetch
    cases store.options.find? name <;> simp
  simp only [stored, represents.find?_eq, Option.bind_eq_some_iff, represents.registered.fetch_eq_ok_iff]
  constructor
  · rintro ⟨entry, found, value⟩
    exact ⟨entry.2, ((represents.registered.exact name entry).mp found).2, value⟩
  · rintro ⟨object, named, value⟩
    exact ⟨(object, object), represents.registered.find?_of_alive named, value⟩

end Represents

/-! ### Runs -/

theorem run_one (action : StoreAction) (store : Store) :
    run storeStep [action] store = storeStep action store := by
  cases taken : storeStep action store <;> simp [run, taken]

/-- A step of the program is a step of the store, or the program ends itself and the store refuses. -/
theorem step_represents {process after : Process} {store : Store} {keys : OrderedMap Str (Nat × Nat)}
    {event : ConfigEvent} (represents : Represents process store keys) (own : OwnString process event)
    (taken : configStep event process = some after) :
    (after.status = .running ∧ ∃ store' keys', run storeStep (actionOf process event).toList store = some store'
        ∧ Represents after store' keys')
      ∨ (after.status ≠ .running ∧ run storeStep (actionOf process event).toList store = none) := by
  have registered := represents.registered
  unfold configStep at taken
  split_ifs at taken with running
  cases event with
  | construct storage name description =>
      cases taken
      let object : OptionObject := { name := name, description := description, storage := storage }
      have same : actionOf process (.construct storage name description) = some (.register
          { name := object.name, description := object.description,
            storage := process.strings object.storage }) := rfl
      rw [same, Option.toList_some, run_one, storeStep]
      cases found : keys.find? name with
      | none =>
          obtain ⟨store', taken, represents'⟩ := represents.construct object own found
          have goes := (construct_running_iff running registered object).mpr
            ((registered.find?_eq_none_iff name).mp found)
          refine Or.inl ⟨goes, store', _, ?_, represents'⟩
          exact congrArg Except.toOption taken
      | some entry =>
          obtain ⟨err, refused⟩ := represents.construct_taken object found
          obtain ⟨message, exited⟩ := registered.construct_taken object found
          have ended : (process.construct object).status ≠ .running := by simp [exited]
          exact Or.inr ⟨ended, congrArg Except.toOption refused⟩
  | destroy object =>
      cases alive : process.objects.cells object with
      | none => simp [alive] at taken
      | some this =>
          obtain rfl : process.destroy object = after := by simpa [alive] using taken
          have named : process.name? object = some this.name := by rw [Process.name?, alive, Option.map_some]
          refine Or.inl ⟨?_, store.unregisterOption this.name, _, ?_, represents.destroy alive⟩
          · rw [registered.destroy_eq named]
            exact running
          · rw [actionOf, named, Option.map_some, Option.toList_some, run_one, storeStep]
  | setString name value =>
      cases taken
      refine Or.inl ⟨(registered.set name _).2.trans running, _, keys, run_one _ store,
        represents.set name fun option after set => ?_⟩
      cases set
      rfl
  | setUcl name value =>
      cases taken
      exact Or.inl ⟨(registered.set name _).2.trans running, _, keys, run_one _ store,
        represents.set name (Represents.assigns_setUcl value)⟩
  | assignString cell value =>
      cases taken
      have options : ∀ pair ∈ keys, ({ process with strings := Function.update process.strings cell value } :
          Process).option? pair.2.2 = process.option? pair.2.2 := by
        intro pair mem
        rw [Process.option?, Process.option?]
        refine Option.map_congr fun that alive => ?_
        simp [Process.optionOf, own pair.2.2 that alive]
      refine Or.inl ⟨running, store, keys, rfl, registered.of_same rfl fun _ => rfl, ?_, represents.own⟩
      exact (OrderedMap.mapValues_congr options).trans represents.options

theorem run_represents_from {events : List ConfigEvent} {process final : Process} {store : Store}
    {keys : OrderedMap Str (Nat × Nat)} (running : process.status = .running)
    (represents : Represents process store keys) (own : EveryStep configStep OwnString events process)
    (ran : run configStep events process = some final) :
    (final.status = .running ∧ ∃ store' keys', run storeStep (actionsOf events process) store = some store'
        ∧ Represents final store' keys')
      ∨ (final.status ≠ .running ∧ run storeStep (actionsOf events process) store = none) := by
  induction events generalizing process store keys with
  | nil =>
      cases ran
      exact Or.inl ⟨running, store, keys, rfl, represents⟩
  | cons event events ih =>
      cases taken : configStep event process with
      | none => simp [run, taken] at ran
      | some after =>
          simp only [run, taken] at ran
          simp only [actionsOf, taken, run_append]
          obtain ⟨met, rest⟩ := own after taken
          rcases step_represents represents met taken with
            ⟨running', store', keys', stepped, represents'⟩ | ⟨ended, refused⟩
          · rw [stepped, Option.bind_some]
            exact ih running' represents' rest ran
          · rw [refused, Option.bind_none]
            cases events with
            | nil =>
                cases ran
                exact Or.inr ⟨ended, rfl⟩
            | cons event' events => simp [run, configStep, ended] at ran

/-- In a run in which every option has a string of its own, the program does what the store of values does
under the same actions: while it runs, the options that `all` and `fetch` reach are those of the store, and
where it ends itself the store refuses an option. -/
theorem run_represents (strings : Nat → Str) {events : List ConfigEvent} {process : Process}
    (own : EveryStep configStep OwnString events (Process.start strings))
    (ran : run configStep events (Process.start strings) = some process) :
    (process.status = .running → ∃ store,
        run storeStep (actionsOf events (Process.start strings)) {} = some store
        ∧ (process.options.map fun entry => process.option? entry.2) = store.all.map some
        ∧ ∀ name option, store.fetch name = .ok option ↔
            ∃ object, process.fetch name = some (.ok object) ∧ process.option? object = some option)
      ∧ (process.status ≠ .running →
          run storeStep (actionsOf events (Process.start strings)) {} = none) := by
  have start : Represents (Process.start strings) {} [] :=
    ⟨registered_start strings, rfl, fun object other this that alive => by cases alive⟩
  rcases run_represents_from rfl start own ran with
    ⟨running, store, keys, stepped, represents⟩ | ⟨ended, refused⟩
  · exact ⟨fun _ => ⟨store, stepped, represents.all_eq, represents.fetch_eq⟩, fun ended => absurd running ended⟩
  · exact ⟨fun running => absurd running ended, fun _ => refused⟩

/-- Two options with strings of their own, of which one is destroyed. -/
theorem run_represents_two :
    ∃ process store,
      run configStep
          [.construct 0 "a".toList [], .construct 1 "b".toList [], .setString "a".toList ['x'],
            .setString "b".toList ['y'], .destroy 0]
          (Process.start fun _ => []) = some process
        ∧ run storeStep
            [.register { name := "a".toList, description := [], storage := [] },
              .register { name := "b".toList, description := [], storage := [] },
              .setString "a".toList ['x'], .setString "b".toList ['y'], .unregister "a".toList]
            {} = some store
        ∧ (process.options.map fun entry => process.option? entry.2) = store.all.map some
        ∧ store.all.map ConfigOption.storage = [['y']] := by
  let events : List ConfigEvent :=
    [.construct 0 "a".toList [], .construct 1 "b".toList [], .setString "a".toList ['x'],
      .setString "b".toList ['y'], .destroy 0]
  obtain ⟨process, ran, running⟩ : ∃ process, run configStep events (Process.start fun _ => []) = some process
      ∧ process.status = .running := ⟨_, rfl, rfl⟩
  have own : EveryStep configStep OwnString events (Process.start fun _ => []) := by
    refine .cons rfl (fun object this alive => by cases alive) (.cons rfl (fun object this alive => ?_)
      (.cons rfl trivial (.cons rfl trivial (.cons rfl trivial trivial))))
    have first : Function.update (fun _ => none) 0
        (some { name := "a".toList, description := [], storage := 0 }) object = some this := alive
    rw [Function.update_apply] at first
    split_ifs at first
    cases first
    decide
  obtain ⟨store, stepped, all, -⟩ := (run_represents _ own ran).1 running
  have stored : (run storeStep (actionsOf events (Process.start fun _ => [])) {}).map
      (fun store => store.all.map ConfigOption.storage) = some [['y']] := rfl
  rw [stepped] at stored
  exact ⟨process, store, ran, stepped, all, Option.some.inj stored⟩

end Nihil.Config

/-
Module: Nihil.Config.ReadWrite
Layer: Config
Purpose: write_to and read_from. The options that are not default go to the file as a UCL map of strings,
  and every member of the map in the file is assigned to the option of its name. After a write and a read
  an option that was not default has its value back, and a default one is untouched (`config_round_trip`).
Imports: Nihil.Config.Store, Nihil.Posix.WriteFile
Trusted boundary: `Environment`: libucl's allocation, emitter and parser, and read_file. `Faithful` says what
  a round trip asks of them.
Main exports: Environment, configMap, writeTo, applyMembers, readFrom, Faithful, configMap_eq,
  applyMembers_strings, config_round_trip
-/
import Nihil.Config.Store
import Nihil.Posix.WriteFile

namespace Nihil.Config

open Nihil.Library
open Nihil.Posix
open Nihil.Ucl

/-- The functions below that are not about options. A text is the sequence of its bytes. -/
structure Environment where
  /-- How the allocation of a UCL string turns out. -/
  allocate : Str → Except ErrorCode Unit
  /-- std::format with "{:c}" of a UCL map. -/
  format : UclObject → List UInt8
  /-- `ucl::parse`, which returns a map. -/
  parse : List UInt8 → Except Error UclObject
  /-- How the system calls of `safe_write_file` turn out. -/
  calls : (size : Nat) → SystemCalls size
  /-- `read_file`. -/
  readFile : Str → FileStore Str UInt8 → Except Error (List UInt8)

variable (env : Environment)

/-! ### write_to -/

/-- The loop of `write_to` over the options, which inserts what is not default. -/
def collect : List ConfigOption → List (Str × UclObject) → Except Error (List (Str × UclObject))
  | [], members => .ok members
  | option :: options, members =>
      if option.isDefault then collect options members
      else
        match option.getUcl env.allocate with
        | .error err => .error err
        | .ok uobj => collect options (members ++ [(option.name, uobj)])

/-- The UCL map of all options that are not default. -/
def configMap (store : Store) : Except Error UclObject :=
  (collect env store.all []).map UclObject.object

/-- `write_to`. -/
def writeTo (filename : Str) (store : Store) (files : FileStore Str UInt8) :
    Except Error Unit × FileStore Str UInt8 :=
  match configMap env store with
  | .error err => (.error err, files)
  | .ok uclconfig =>
      let uclText := env.format uclconfig
      safeWriteFile uclText (env.calls uclText.length) filename files

/-! ### read_from -/

/-- The loop of `read_from` over the members of the map. -/
def applyMembers : List (Str × UclObject) → Store → Except ConfigAbort Unit × Store
  | [], store => (.ok (), store)
  | (key, value) :: members, store =>
      match store.fetch key with
      | .error err => (.error (.error err), store)
      | .ok option =>
          match option.setUcl value with
          | .error abort => (.error abort, store)
          | .ok option => applyMembers members (store.assign option)

/-- `read_from`. A file that does not exist has no values. -/
def readFrom (filename : Str) (files : FileStore Str UInt8) (store : Store) :
    Except ConfigAbort Unit × Store :=
  match env.readFile filename files with
  | .error err =>
      if err.rootCause.isErrc enoent.value then (.ok (), store)
      else
        (.error (.error {
          value := .text ("cannot read ".toList ++ filename)
          causes := err.value :: err.causes }), store)
  | .ok configText =>
      match env.parse configText with
      | .error err => (.error (.error err), store)
      | .ok uclconfig => applyMembers uclconfig.members store

/-- What a round trip of a map through a file asks of the environment: the map that is parsed from the text
has the members of the map that was formatted, in any order, and a file that was written successfully holds
that text, which is what is read from it. -/
structure Faithful (filename : Str) (files : FileStore Str UInt8) (uclconfig : UclObject) : Prop where
  parses : ∃ members, env.parse (env.format uclconfig) = .ok (.object members) ∧
    members.Perm uclconfig.members
  stores : SafeWriteSpec (env.format uclconfig) filename files
    (safeWriteFile (env.format uclconfig) (env.calls (env.format uclconfig).length) filename files)
  reads : ∀ (after : FileStore Str UInt8) content, after filename = some content →
    env.readFile filename after = .ok content

/-! ### What the store holds -/

theorem Store.find?_name {store : Store} {name : Str} {option : ConfigOption}
    (found : store.options.find? name = some option) : option.name = name :=
  store.named _ (OrderedMap.mem_of_find? found)

theorem Store.find?_assign (store : Store) (option : ConfigOption) (probe : Str) :
    (store.assign option).options.find? probe =
      if probe = option.name then (store.options.find? probe).map fun _ => option
      else store.options.find? probe :=
  OrderedMap.find?_update option.name probe _ store.options

/-- The member of the configuration that an option stands for. -/
def memberOf (option : ConfigOption) : Str × UclObject :=
  (option.name, .string option.storage)

/-- The options that are written. -/
def changed (store : Store) : List ConfigOption :=
  store.all.filter fun option => !option.isDefault

variable {env}

/-- The loop of write_to adds one member for each option that is not default. -/
theorem collect_eq {options : List ConfigOption} {members after : List (Str × UclObject)}
    (collected : collect env options members = .ok after) :
    after = members ++ (options.filter fun option => !option.isDefault).map memberOf := by
  induction options generalizing members with
  | nil =>
      cases collected
      simp
  | cons option options ih =>
      rw [collect] at collected
      by_cases default' : option.isDefault
      · rw [if_pos default'] at collected
        simp [ih collected, default']
      · rw [if_neg default'] at collected
        cases allocated : env.allocate option.storage with
        | error ec => simp [ConfigOption.getUcl, ConfigOption.makeString, allocated] at collected
        | ok _ =>
            simp only [ConfigOption.getUcl, ConfigOption.makeString, allocated] at collected
            simp [ih collected, default', memberOf]

theorem configMap_eq {store : Store} {uclconfig : UclObject} (collected : configMap env store = .ok uclconfig) :
    uclconfig = .object ((changed store).map memberOf) := by
  unfold configMap at collected
  cases outcome : collect env store.all [] with
  | error err => simp [outcome, Except.map] at collected
  | ok members =>
      simp only [outcome, Except.map, Except.ok.injEq] at collected
      rw [← collected, collect_eq outcome]
      rfl

theorem map_name_all (store : Store) : store.all.map ConfigOption.name = store.options.map Prod.fst := by
  rw [Store.all, List.map_map]
  exact List.map_congr_left store.named

/-- The members that are written have distinct keys. -/
theorem distinct_changed (store : Store) : (((changed store).map memberOf).map Prod.fst).Nodup := by
  have names : ((changed store).map memberOf).map Prod.fst = (changed store).map ConfigOption.name := by
    rw [List.map_map]
    rfl
  rw [names]
  apply List.Nodup.sublist (List.filter_sublist.map ConfigOption.name)
  rw [map_name_all]
  exact store.distinct

/-- An option of the store is one of all options, under its name. -/
theorem mem_all_iff {store : Store} {option : ConfigOption} :
    option ∈ store.all ↔ store.options.find? option.name = some option := by
  constructor
  · intro member
    obtain ⟨⟨name, _⟩, entry, rfl⟩ := List.mem_map.mp member
    have own := store.named _ entry
    simp only at own ⊢
    rw [own]
    exact OrderedMap.find?_of_mem store.distinct entry
  · exact fun found => List.mem_map.mpr ⟨_, OrderedMap.mem_of_find? found, rfl⟩

/-! ### Reading a map of strings -/

/-- Reading members with distinct keys that are strings for registered options succeeds. Each of them is
assigned, and no other option changes. -/
theorem applyMembers_strings {members : List (Str × UclObject)} {store : Store}
    (distinct : (members.map Prod.fst).Nodup) (strings : ∀ member ∈ members, ∃ value, member.2 = .string value)
    (known : ∀ member ∈ members, (store.options.find? member.1).isSome) :
    (applyMembers members store).1 = .ok () ∧
      (∀ name value option, (name, .string value) ∈ members → store.options.find? name = some option →
        (applyMembers members store).2.options.find? name = some (option.setString value)) ∧
      ∀ name, name ∉ members.map Prod.fst →
        (applyMembers members store).2.options.find? name = store.options.find? name := by
  induction members generalizing store with
  | nil => exact ⟨rfl, fun _ _ _ member => by contradiction, fun _ _ => rfl⟩
  | cons member members ih =>
      obtain ⟨key, object⟩ := member
      obtain ⟨value, rfl⟩ := strings (key, object) List.mem_cons_self
      obtain ⟨option, found⟩ := Option.isSome_iff_exists.mp (known _ List.mem_cons_self)
      obtain ⟨fresh, rest⟩ := List.nodup_cons.mp distinct
      have own : option.name = key := Store.find?_name found
      have ownAfter : (option.setString value).name = key := own
      have here : (store.assign (option.setString value)).options.find? key =
          some (option.setString value) := by
        rw [Store.find?_assign, ownAfter, if_pos rfl, found]
        rfl
      have elsewhere : ∀ name, name ≠ key →
          (store.assign (option.setString value)).options.find? name = store.options.find? name := by
        intro name differs
        rw [Store.find?_assign, ownAfter, if_neg differs]
      have step : applyMembers ((key, .string value) :: members) store =
          applyMembers members (store.assign (option.setString value)) := by
        simp only [applyMembers, Store.fetch, found, ConfigOption.setUcl_string]
      have knownAfter : ∀ member ∈ members,
          ((store.assign (option.setString value)).options.find? member.1).isSome := by
        intro member later
        by_cases same : member.1 = key
        · rw [same, here]
          rfl
        · rw [elsewhere _ same]
          exact known member (List.mem_cons_of_mem _ later)
      obtain ⟨succeeds, assigned, kept⟩ :=
        ih rest (fun member later => strings member (List.mem_cons_of_mem _ later)) knownAfter
      rw [step]
      refine ⟨succeeds, ?_, ?_⟩
      · intro name other option' member' found'
        rcases List.mem_cons.mp member' with same | later
        · cases same
          rw [kept key fresh, here, ← Option.some.inj (found.symm.trans found')]
        · have differs : name ≠ key := by
            rintro rfl
            exact fresh (List.mem_map.mpr ⟨_, later, rfl⟩)
          exact assigned name other option' later ((elsewhere name differs).trans found')
      · intro name absent
        obtain ⟨differs, absent⟩ := not_or.mp (fun present => absent (List.mem_cons.mpr present))
        rw [kept name absent, elsewhere name differs]

/-! ### Registering and setting -/

theorem registerOption_ok {store after : Store} {object : ConfigOption}
    (registered : store.registerOption object = .ok after) :
    after.options = (store.options.emplace object.name object).1 := by
  unfold Store.registerOption at registered
  simp only at registered
  split_ifs at registered
  cases registered
  rfl

/-- Every declared option is registered under its name, and all of them are default. -/
theorem registerAll_spec {declared : List Declaration} {before after : Store}
    (registered : registerAll declared before = .ok after) :
    (∀ name, (after.options.find? name).isSome ↔
        (before.options.find? name).isSome ∨ name ∈ declared.map Declaration.name) ∧
      ((∀ entry ∈ before.options, entry.2.isDefault = true) →
        ∀ entry ∈ after.options, entry.2.isDefault = true) := by
  induction declared generalizing before with
  | nil =>
      cases registered
      simp
  | cons declaration declared ih =>
      rw [registerAll] at registered
      cases outcome : before.registerOption declaration.option with
      | error err => simp [outcome] at registered
      | ok store =>
          simp only [outcome] at registered
          have entries := registerOption_ok outcome
          obtain ⟨names, stillDefault⟩ := ih registered
          constructor
          · intro name
            rw [names, entries, OrderedMap.find?_emplace, List.map_cons, List.mem_cons]
            have own : declaration.option.name = declaration.name := rfl
            by_cases same : name = declaration.name <;> simp [own, same]
          · intro allDefault
            apply stillDefault
            intro entry member
            rw [entries] at member
            rcases OrderedMap.mem_emplace member with rfl | old
            · rfl
            · exact allDefault entry old

/-- A run of sets registers and removes nothing. -/
theorem isSome_runSets (store : Store) (sets : List (Str × Str)) (name : Str) :
    ((store.runSets sets).options.find? name).isSome = (store.options.find? name).isSome := by
  induction sets generalizing store with
  | nil => rfl
  | cons set sets ih =>
      rw [Store.runSets_cons, ih]
      cases outcome : store.setOption set.1 set.2 with
      | error _ => rfl
      | ok after =>
          unfold Store.setOption at outcome
          cases fetched : store.fetch set.1 with
          | error _ => simp [fetched] at outcome
          | ok option =>
              simp only [fetched, Except.ok.injEq] at outcome
              rw [← outcome]
              simp only [Store.find?_assign]
              split_ifs <;> simp

/-! ### The round trip -/

/-- What reading a file into a store of default options should restore: the value and the flag of every
option that was not default. A default option is left as it is in that store. -/
def Restores (original fresh after : Store) : Prop :=
  ∀ name option, original.options.find? name = some option →
    if option.isDefault then
      after.options.find? name = fresh.options.find? name ∧
        ∃ untouched, after.options.find? name = some untouched ∧ untouched.isDefault = true
    else
      ∃ restored, after.options.find? name = some restored ∧
        restored.storage = option.storage ∧ restored.isDefault = false

/-- Applying the members that stand for the changed options of a store, in any order, restores them. -/
theorem restores_of_perm {original fresh : Store} {members : List (Str × UclObject)}
    (permuted : members.Perm (((changed original).map memberOf)))
    (sameNames : ∀ name, (original.options.find? name).isSome → (fresh.options.find? name).isSome)
    (allDefault : ∀ entry ∈ fresh.options, entry.2.isDefault = true) :
    (applyMembers members fresh).1 = .ok () ∧ Restores original fresh (applyMembers members fresh).2 := by
  have source : ∀ member ∈ members, ∃ option ∈ original.all,
      option.isDefault = false ∧ member = memberOf option := by
    intro member present
    obtain ⟨option, kept, same⟩ := List.mem_map.mp (permuted.mem_iff.mp present)
    obtain ⟨registered, notDefault⟩ := List.mem_filter.mp kept
    exact ⟨option, registered, by simpa using notDefault, same.symm⟩
  have distinct : (members.map Prod.fst).Nodup :=
    (permuted.map Prod.fst).nodup_iff.mpr (distinct_changed original)
  have strings : ∀ member ∈ members, ∃ value, member.2 = .string value := by
    intro member present
    obtain ⟨option, -, -, rfl⟩ := source member present
    exact ⟨option.storage, rfl⟩
  have known : ∀ member ∈ members, (fresh.options.find? member.1).isSome := by
    intro member present
    obtain ⟨option, registered, -, rfl⟩ := source member present
    apply sameNames
    rw [memberOf, mem_all_iff.mp registered]
    rfl
  obtain ⟨succeeds, assigned, kept⟩ := applyMembers_strings distinct strings known
  refine ⟨succeeds, ?_⟩
  intro name option found
  have own : option.name = name := Store.find?_name found
  obtain ⟨target, targetFound⟩ := Option.isSome_iff_exists.mp (sameNames name (by rw [found]; rfl))
  by_cases default' : option.isDefault
  · rw [if_pos default']
    have absent : name ∉ members.map Prod.fst := by
      intro present
      obtain ⟨member, inside, same⟩ := List.mem_map.mp present
      obtain ⟨other, registered, notDefault, rfl⟩ := source member inside
      have otherFound : original.options.find? name = some other := same ▸ mem_all_iff.mp registered
      rw [found] at otherFound
      cases otherFound
      rw [default'] at notDefault
      contradiction
    have untouched := kept name absent
    exact ⟨untouched, target, untouched.trans targetFound, allDefault _ (OrderedMap.mem_of_find? targetFound)⟩
  · rw [if_neg default']
    have written : (name, .string option.storage) ∈ members := by
      apply permuted.mem_iff.mpr
      apply List.mem_map.mpr
      refine ⟨option, List.mem_filter.mpr ⟨mem_all_iff.mpr (own ▸ found), by simpa using default'⟩, ?_⟩
      rw [memberOf, own]
    exact ⟨_, assigned name option.storage target written targetFound, rfl, rfl⟩

/-- A configuration that was written is read back into a store of the same names in which all options are
default. -/
theorem readFrom_writeTo {filename : Str} {files : FileStore Str UInt8} {original fresh : Store}
    (written : (writeTo env filename original files).1 = .ok ())
    (faithful : ∀ uclconfig, configMap env original = .ok uclconfig → Faithful env filename files uclconfig)
    (sameNames : ∀ name, (original.options.find? name).isSome → (fresh.options.find? name).isSome)
    (allDefault : ∀ entry ∈ fresh.options, entry.2.isDefault = true) :
    (readFrom env filename (writeTo env filename original files).2 fresh).1 = .ok () ∧
      Restores original fresh (readFrom env filename (writeTo env filename original files).2 fresh).2 := by
  unfold writeTo at written ⊢
  cases collected : configMap env original with
  | error err => simp [collected] at written
  | ok uclconfig =>
      simp only [collected] at written ⊢
      obtain ⟨⟨members, parsed, permuted⟩, stores, reads⟩ := faithful uclconfig collected
      rw [SafeWriteSpec, written] at stores
      have loop : readFrom env filename (safeWriteFile (env.format uclconfig)
          (env.calls (env.format uclconfig).length) filename files).2 fresh = applyMembers members fresh := by
        simp only [readFrom, reads _ _ stores, parsed]
        rfl
      rw [loop]
      rw [configMap_eq collected] at permuted
      exact restores_of_perm permuted sameNames allDefault

/-- For every set of options with distinct names and every run of sets on them, if the options that are not
default are written and then read into a store of the same names in which all options are default, reading
succeeds and restores exactly the options that were written. -/
theorem config_round_trip {filename : Str} {files : FileStore Str UInt8}
    {declared declaredAgain : List Declaration} {registered fresh : Store} (sets : List (Str × Str))
    (first : registerAll declared {} = .ok registered) (second : registerAll declaredAgain {} = .ok fresh)
    (sameNames : ∀ name, name ∈ declared.map Declaration.name ↔ name ∈ declaredAgain.map Declaration.name)
    (faithful : ∀ uclconfig, configMap env (registered.runSets sets) = .ok uclconfig →
      Faithful env filename files uclconfig)
    (written : (writeTo env filename (registered.runSets sets) files).1 = .ok ()) :
    let result := readFrom env filename (writeTo env filename (registered.runSets sets) files).2 fresh
    result.1 = .ok () ∧ Restores (registered.runSets sets) fresh result.2 := by
  obtain ⟨firstNames, -⟩ := registerAll_spec first
  obtain ⟨secondNames, allDefault⟩ := registerAll_spec second
  apply readFrom_writeTo written faithful
  · intro name known
    rw [isSome_runSets, firstNames] at known
    rw [secondNames]
    simpa [sameNames] using known
  · exact allDefault (by simp)

/-- Two options, and a set of one of them. -/
private def twoOptions : List Declaration :=
  [⟨"test_option".toList, "This is a test option".toList, []⟩, ⟨"other".toList, [], "unset".toList⟩]

private def oneSet : List (Str × Str) := [("test_option".toList, "testing".toList)]

/-- The configuration that results, as libucl writes it. -/
private def oneMember : UclObject := .object [("test_option".toList, .string "testing".toList)]

private def oneLine : List UInt8 := "test_option = \"testing\";\n".toUTF8.toList

private def plainEnvironment : Environment where
  allocate := fun _ => .ok ()
  format := fun _ => oneLine
  parse := fun text => if text = oneLine then .ok oneMember else .error (.ofText "parse error".toList)
  calls := fun size => {
    openCall := .ok ()
    writeCall := .ok ⟨size, Nat.le_refl size, id⟩
    renameCall := .ok ()
    unlinkCall := .ok () }
  readFile := fun filename files =>
    match files filename with
    | some content => .ok content
    | none => .error (.ofCode enoent)

private def registeredTwo : Store :=
  match registerAll twoOptions {} with
  | .ok store => store
  | .error _ => {}

private theorem registerAll_two : registerAll twoOptions {} = .ok registeredTwo := by
  rfl

private theorem plainEnvironment_faithful (filename : Str) (uclconfig : UclObject)
    (collected : configMap plainEnvironment (registeredTwo.runSets oneSet) = .ok uclconfig) :
    Faithful plainEnvironment filename (fun _ => none) uclconfig := by
  have same : uclconfig = oneMember := configMap_eq collected
  subst same
  refine ⟨⟨_, if_pos rfl, List.Perm.refl _⟩, ?_, fun after content found => ?_⟩
  · rw [safeWrite_spec_iff]
    rintro count - written -
    cases written
    change List.drop oneLine.length [] = List.drop oneLine.length oneLine
    rw [List.drop_nil, List.drop_length]
  · change (match after filename with
      | some content => .ok content
      | none => .error (Error.ofCode enoent)) = Except.ok content
    rw [found]

theorem config_round_trip_two :
    let result := readFrom plainEnvironment "a.conf".toList
      (writeTo plainEnvironment "a.conf".toList (registeredTwo.runSets oneSet) fun _ => none).2 registeredTwo
    result.1 = .ok () ∧ Restores (registeredTwo.runSets oneSet) registeredTwo result.2 :=
  config_round_trip oneSet registerAll_two registerAll_two (fun _ => Iff.rfl)
    (plainEnvironment_faithful "a.conf".toList) rfl

end Nihil.Config

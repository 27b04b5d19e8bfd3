/-
Module: Nihil.Cli.RegistryInvariant
Layer: Cli
Purpose: The invariant of the command registry. The live objects have different addresses, the registry lists
  the real ones in the order of their construction, and every address that a pointer owns is that of a stub
  which make_shared created. The destructor of such a stub finds no entry to erase, because a live object has
  its address. Construction, destruction and the release of pointers keep the invariant.
Imports: Nihil.Cli.Registry
Trusted boundary: none
Main exports: CommandObject.entry, World.reals, ownedAddresses, World.Sound, SameRegistry, Sound.command?_eq,
  Sound.construct, Sound.constructStub, Sound.makeShared, Sound.destroyCommand, Sound.release,
  Sound.destroyTree
-/
import Mathlib.Data.List.Nodup
import Nihil.Cli.Registry

namespace Nihil.Cli

open Nihil.Library

variable {H : Type}

/-- The pointer to an object that register_command makes. -/
def CommandObject.entry (self : CommandObject H) : SharedCommand :=
  { address := self.address, owns := false }

/-- The live commands that were constructed with a handler, in the order of their construction. -/
def World.reals (world : World H) : List (CommandObject H) :=
  world.objects.filter (·.origin = .real)

/-- The addresses of what some pointers own. -/
def ownedAddresses (pointers : List SharedCommand) : List Nat :=
  (pointers.filter SharedCommand.owns).map SharedCommand.address

@[simp] theorem ownedAddresses_nil : ownedAddresses [] = [] := rfl

@[simp] theorem ownedAddresses_append (first second : List SharedCommand) :
    ownedAddresses (first ++ second) = ownedAddresses first ++ ownedAddresses second := by
  simp [ownedAddresses]

theorem ownedAddresses_cons_of_owns {pointer : SharedCommand} (owns : pointer.owns = true)
    (pointers : List SharedCommand) :
    ownedAddresses (pointer :: pointers) = pointer.address :: ownedAddresses pointers := by
  simp [ownedAddresses, owns]

theorem ownedAddresses_cons_of_borrowed {pointer : SharedCommand} (borrowed : pointer.owns = false)
    (pointers : List SharedCommand) : ownedAddresses (pointer :: pointers) = ownedAddresses pointers := by
  simp [ownedAddresses, borrowed]

theorem ownedAddresses_perm {first second : List SharedCommand} (reordered : first.Perm second) :
    (ownedAddresses first).Perm (ownedAddresses second) :=
  (reordered.filter _).map _

namespace World

/-- The invariant, for the addresses that are owned by some pointer. -/
structure Sound (world : World H) (owners : List Nat) : Prop where
  distinct : (world.objects.map CommandObject.address).Nodup
  listed : world.registry = world.reals.map CommandObject.entry
  owned : owners.Nodup
  stubs : ∀ address ∈ owners, ∃ object ∈ world.objects, object.address = address ∧ object.origin = .shared

/-- The registry was not touched, and no real command was constructed or destroyed. -/
structure SameRegistry (before after : World H) : Prop where
  registry : after.registry = before.registry
  changes : after.changes = before.changes
  reals : after.reals = before.reals
  trees : after.trees = before.trees

theorem SameRegistry.refl (world : World H) : SameRegistry world world := ⟨rfl, rfl, rfl, rfl⟩

theorem SameRegistry.trans {first second third : World H} (one : SameRegistry first second)
    (two : SameRegistry second third) : SameRegistry first third where
  registry := two.registry.trans one.registry
  changes := two.changes.trans one.changes
  reals := two.reals.trans one.reals
  trees := two.trees.trans one.trees

variable {world : World H} {owners : List Nat}

theorem sound_empty : Sound ({} : World H) [] where
  distinct := List.nodup_nil
  listed := rfl
  owned := List.nodup_nil
  stubs := by simp

theorem mem_reals {object : CommandObject H} :
    object ∈ world.reals ↔ object ∈ world.objects ∧ object.origin = .real := by
  simp [reals]

/-! ### Addresses -/

/-- An address means one object. -/
theorem Sound.eq_of_address (sound : world.Sound owners) {first second : CommandObject H}
    (member : first ∈ world.objects) (member' : second ∈ world.objects)
    (same : first.address = second.address) : first = second :=
  List.inj_on_of_nodup_map sound.distinct member member' same

theorem Sound.command?_eq (sound : world.Sound owners) {object : CommandObject H}
    (member : object ∈ world.objects) : world.command? object.address = some object.command := by
  cases found : world.objects.find? (·.address == object.address) with
  | none =>
      have missing := List.find?_eq_none.mp found object member
      simp at missing
  | some other =>
      have same : other.address = object.address := by simpa using List.find?_some found
      have equal := sound.eq_of_address (List.mem_of_find?_eq_some found) member same
      rw [command?, found, equal]
      rfl

theorem exists_of_command? {address : Nat} {command : Command H}
    (live : world.command? address = some command) :
    ∃ object ∈ world.objects, object.address = address ∧ object.command = command := by
  obtain ⟨object, found, same⟩ := Option.map_eq_some_iff.mp live
  exact ⟨object, List.mem_of_find?_eq_some found, by simpa using List.find?_some found, same⟩

/-- Nothing that is owned is a real command. -/
theorem Sound.ne_of_real (sound : world.Sound owners) {object : CommandObject H}
    (member : object ∈ world.reals) {address : Nat} (owned : address ∈ owners) :
    object.address ≠ address := by
  rintro rfl
  obtain ⟨live, real⟩ := mem_reals.mp member
  obtain ⟨stub, liveStub, same, shared⟩ := sound.stubs _ owned
  have equal := sound.eq_of_address liveStub live same
  rw [equal, real] at shared
  cases shared

/-- No entry of the registry is owned. -/
theorem Sound.ne_of_registry (sound : world.Sound owners) {entry : SharedCommand}
    (member : entry ∈ world.registry) {address : Nat} (owned : address ∈ owners) :
    entry.address ≠ address := by
  rw [sound.listed] at member
  obtain ⟨object, real, rfl⟩ := List.mem_map.mp member
  exact sound.ne_of_real real owned

theorem Sound.perm (sound : world.Sound owners) {owners' : List Nat} (reordered : owners.Perm owners') :
    world.Sound owners' where
  distinct := sound.distinct
  listed := sound.listed
  owned := reordered.nodup_iff.mp sound.owned
  stubs address member := sound.stubs address (reordered.mem_iff.mpr member)

/-- A pointer that is given up. -/
theorem Sound.tail {address : Nat} (sound : world.Sound (address :: owners)) : world.Sound owners where
  distinct := sound.distinct
  listed := sound.listed
  owned := sound.owned.of_cons
  stubs other member := sound.stubs other (List.mem_cons_of_mem _ member)

theorem Sound.not_mem_tail {address : Nat} (sound : world.Sound (address :: owners)) : address ∉ owners :=
  (List.nodup_cons.mp sound.owned).1

/-- The kept trees play no part. -/
theorem Sound.withTrees (sound : world.Sound owners) (trees : List SharedNode) :
    Sound { world with trees := trees } owners :=
  ⟨sound.distinct, sound.listed, sound.owned, sound.stubs⟩

/-! ### Construction -/

variable {allocator : Allocator} {command : Command H} {origin : Origin}

theorem objects_allocate : (world.allocate allocator command origin).1.objects =
    world.objects ++ [{ address := (world.allocate allocator command origin).2, command, origin }] := rfl

theorem reals_allocate : (world.allocate allocator command origin).1.reals =
    world.reals ++ [{ address := (world.allocate allocator command origin).2, command, origin }].filter
      (·.origin = .real) := by
  rw [reals, objects_allocate, List.filter_append]
  rfl

theorem sameRegistry_allocate (notReal : origin ≠ .real) :
    SameRegistry world (world.allocate allocator command origin).1 where
  registry := rfl
  changes := rfl
  reals := by
    rw [reals_allocate]
    simp [notReal]
  trees := rfl

/-- A command that lives is read as before. -/
theorem command?_allocate {address : Nat} {read : Command H} (live : world.command? address = some read) :
    (world.allocate allocator command origin).1.command? address = some read := by
  obtain ⟨object, found, same⟩ := Option.map_eq_some_iff.mp live
  rw [command?, objects_allocate, List.find?_append, found]
  exact congrArg some same

theorem Sound.distinct_allocate (sound : world.Sound owners) :
    ((world.allocate allocator command origin).1.objects.map CommandObject.address).Nodup := by
  have fresh := allocator.fresh world.constructed (world.objects.map CommandObject.address)
  have added := List.nodup_cons.mpr ⟨fresh, sound.distinct⟩
  rw [objects_allocate, List.map_append]
  exact List.nodup_append_comm.mp added

theorem Sound.stubs_allocate (sound : world.Sound owners) : ∀ address ∈ owners,
    ∃ object ∈ (world.allocate allocator command origin).1.objects,
      object.address = address ∧ object.origin = .shared := by
  intro address owned
  obtain ⟨object, member, found⟩ := sound.stubs address owned
  exact ⟨object, List.mem_append_left _ member, found⟩

/-- An object that is not registered. -/
theorem Sound.allocate (sound : world.Sound owners) (notReal : origin ≠ .real) :
    (world.allocate allocator command origin).1.Sound owners where
  distinct := sound.distinct_allocate
  listed := by
    rw [(sameRegistry_allocate notReal).registry, (sameRegistry_allocate notReal).reals, sound.listed]
  owned := sound.owned
  stubs := sound.stubs_allocate

/-- The new command is the last of the registry. -/
theorem Sound.construct (sound : world.Sound owners) (allocator : Allocator) (path usage : Str) (handler : Option H) :
    (world.construct allocator path usage handler).Sound owners where
  distinct := sound.distinct_allocate
  listed := by
    have reals : (world.construct allocator path usage handler).reals = _ := reals_allocate
    rw [reals, List.map_append, ← sound.listed]
    rfl
  owned := sound.owned
  stubs := sound.stubs_allocate

theorem Sound.constructStub (sound : world.Sound owners) (allocator : Allocator) (path : Str) :
    (world.constructStub allocator path).Sound owners :=
  sound.allocate (by simp)

/-- The new stub is owned by its pointer. -/
theorem Sound.makeShared (sound : world.Sound owners) (allocator : Allocator) (path : Str) :
    (world.makeShared allocator path).1.Sound ((world.makeShared allocator path).2.address :: owners) where
  distinct := sound.distinct_allocate
  listed := by
    have plain : (world.allocate allocator (Command.stub path) .shared).1.Sound owners :=
      sound.allocate (by simp)
    exact plain.listed
  owned := by
    refine List.nodup_cons.mpr ⟨fun taken => ?_, sound.owned⟩
    obtain ⟨object, member, same, -⟩ := sound.stubs _ taken
    exact allocator.fresh _ _ (List.mem_map.mpr ⟨object, member, same⟩)
  stubs := by
    intro address owned
    rcases List.mem_cons.mp owned with rfl | earlier
    · exact ⟨_, List.mem_append_right _ (List.mem_singleton_self _), rfl, rfl⟩
    · exact sound.stubs_allocate address earlier

theorem sameRegistry_makeShared (allocator : Allocator) (path : Str) :
    SameRegistry world (world.makeShared allocator path).1 :=
  sameRegistry_allocate (by simp)

theorem Sound.command?_makeShared (sound : world.Sound owners) (allocator : Allocator) (path : Str) :
    (world.makeShared allocator path).1.command? (world.makeShared allocator path).2.address =
      some (Command.stub path) :=
  (sound.makeShared allocator path).command?_eq
    (List.mem_append_right world.objects (List.mem_singleton_self _))

/-! ### Destruction -/

/-- Where a key occurs once, erasing the first entry with it leaves none. -/
theorem eraseP_eq_filter {α : Type} {key : α → Nat} {entries : List α} (distinct : (entries.map key).Nodup)
    (probe : Nat) : entries.eraseP (key · == probe) = entries.filter (key · != probe) := by
  induction entries with
  | nil => rfl
  | cons entry entries ih =>
      obtain ⟨fresh, rest⟩ := List.nodup_cons.mp distinct
      by_cases hit : key entry = probe
      · have others : ∀ other ∈ entries, key other ≠ probe := by
          intro other member same
          exact fresh (List.mem_map.mpr ⟨other, member, same.trans hit.symm⟩)
        rw [List.eraseP_cons_of_pos (by simpa using hit), List.filter_cons_of_neg (by simpa using hit),
          List.filter_eq_self.mpr (by simpa using others)]
      · rw [List.eraseP_cons_of_neg (by simpa using hit), List.filter_cons_of_pos (by simpa using hit), ih rest]

/-- Where an address occurs once, the first entry with it is the only one that is erased. -/
theorem unregisterCommand_registry (distinct : (world.registry.map SharedCommand.address).Nodup) (cmd : Nat) :
    (world.unregisterCommand cmd).registry = world.registry.filter (·.address != cmd) := by
  have erased : (world.unregisterCommand cmd).registry = world.registry.eraseP (·.address == cmd) := by
    rw [List.eraseP_eq_eraseIdx, unregisterCommand]
    cases world.registry.findIdx? (·.address == cmd) <;> rfl
  rw [erased, eraseP_eq_filter distinct]

/-- The destructor of a command that is not in the registry leaves the registry alone. -/
theorem unregisterCommand_of_not_mem {cmd : Nat} (absent : cmd ∉ world.registry.map SharedCommand.address) :
    world.unregisterCommand cmd = world := by
  have missing : world.registry.findIdx? (·.address == cmd) = none := by
    rw [List.findIdx?_eq_none_iff]
    intro entry member
    simpa using fun same => absent (List.mem_map.mpr ⟨entry, member, same⟩)
  rw [unregisterCommand, missing]

theorem unregisterCommand_objects (cmd : Nat) : (world.unregisterCommand cmd).objects = world.objects := by
  unfold unregisterCommand
  split <;> rfl

theorem unregisterCommand_trees (cmd : Nat) : (world.unregisterCommand cmd).trees = world.trees := by
  unfold unregisterCommand
  split <;> rfl

theorem Sound.distinct_registry (sound : world.Sound owners) :
    (world.registry.map SharedCommand.address).Nodup := by
  rw [sound.listed, List.map_map]
  exact sound.distinct.sublist (List.filter_sublist.map _)

theorem objects_destroyCommand (address : Nat) :
    (world.destroyCommand address).objects = world.objects.filter (·.address != address) := by
  rw [destroyCommand, unregisterCommand_objects]

theorem reals_destroyCommand (address : Nat) :
    (world.destroyCommand address).reals = world.reals.filter (·.address != address) := by
  rw [reals, objects_destroyCommand, List.filter_comm]
  rfl

/-- What lives at another address stays. -/
theorem mem_destroyCommand {address : Nat} {object : CommandObject H} (member : object ∈ world.objects)
    (other : object.address ≠ address) : object ∈ (world.destroyCommand address).objects := by
  rw [objects_destroyCommand]
  exact List.mem_filter.mpr ⟨member, by simpa using other⟩

/-- The destructor of a command that no pointer owns. -/
theorem Sound.destroyCommand (sound : world.Sound owners) {address : Nat} (free : address ∉ owners) :
    (world.destroyCommand address).Sound owners where
  distinct := by
    rw [objects_destroyCommand]
    exact sound.distinct.sublist (List.filter_sublist.map _)
  listed := by
    have erased : (world.destroyCommand address).registry = world.registry.filter (·.address != address) :=
      unregisterCommand_registry sound.distinct_registry address
    rw [erased, reals_destroyCommand, sound.listed, List.filter_map]
    rfl
  owned := sound.owned
  stubs := by
    intro other owned
    obtain ⟨object, member, same, shared⟩ := sound.stubs other owned
    refine ⟨object, mem_destroyCommand member ?_, same, shared⟩
    rintro rfl
    exact free (same ▸ owned)

/-- The destructor of a stub that a pointer owns does not touch the registry. -/
theorem Sound.sameRegistry_destroyCommand {address : Nat} (sound : world.Sound (address :: owners)) :
    SameRegistry world (world.destroyCommand address) := by
  have notReal : ∀ object ∈ world.reals, object.address ≠ address :=
    fun object member => sound.ne_of_real member List.mem_cons_self
  have unregistered : world.unregisterCommand address = world := by
    apply unregisterCommand_of_not_mem
    rw [sound.listed, List.map_map]
    rintro found
    obtain ⟨object, member, same⟩ := List.mem_map.mp found
    exact notReal object member same
  refine ⟨?_, ?_, ?_, ?_⟩
  · rw [World.destroyCommand, unregistered]
  · rw [World.destroyCommand, unregistered]
  · rw [reals_destroyCommand, List.filter_eq_self.mpr (by simpa using notReal)]
  · rw [World.destroyCommand, unregistered]

/-! ### Pointers -/

/-- A pointer is destroyed. -/
theorem Sound.release {pointer : SharedCommand}
    (sound : world.Sound (ownedAddresses [pointer] ++ owners)) :
    (world.release pointer).Sound owners ∧ SameRegistry world (world.release pointer) := by
  cases owns : pointer.owns with
  | false =>
      rw [ownedAddresses_cons_of_borrowed owns] at sound
      rw [World.release, if_neg (by simp [owns])]
      exact ⟨sound, SameRegistry.refl world⟩
  | true =>
      rw [ownedAddresses_cons_of_owns owns] at sound
      rw [World.release, if_pos owns]
      exact ⟨sound.tail.destroyCommand sound.not_mem_tail, sound.sameRegistry_destroyCommand⟩

/-- Every command that the pointer does not own is read as before. -/
theorem Sound.command?_release {pointer : SharedCommand}
    (sound : world.Sound (ownedAddresses [pointer] ++ owners)) {address : Nat} {read : Command H}
    (live : world.command? address = some read) (other : pointer.owns = true → address ≠ pointer.address) :
    (world.release pointer).command? address = some read := by
  have released := sound.release.1
  obtain ⟨object, member, rfl, rfl⟩ := exists_of_command? live
  apply released.command?_eq
  rw [World.release]
  split_ifs with owns
  · exact mem_destroyCommand member (other owns)
  · exact member

/-- All pointers of a list are destroyed. -/
theorem Sound.releaseAll {pointers : List SharedCommand}
    (sound : world.Sound (ownedAddresses pointers ++ owners)) :
    (pointers.foldl World.release world).Sound owners ∧
      SameRegistry world (pointers.foldl World.release world) := by
  induction pointers generalizing world with
  | nil => exact ⟨sound, SameRegistry.refl world⟩
  | cons pointer pointers ih =>
      have split : ownedAddresses (pointer :: pointers) =
          ownedAddresses [pointer] ++ ownedAddresses pointers := ownedAddresses_append [pointer] pointers
      rw [split, List.append_assoc] at sound
      obtain ⟨released, same⟩ := sound.release
      obtain ⟨final, rest⟩ := ih released
      exact ⟨final, same.trans rest⟩

/-- The destructor of a tree. -/
theorem Sound.destroyTree {tree : SharedNode}
    (sound : world.Sound (ownedAddresses tree.values ++ owners)) :
    (world.destroyTree tree).Sound owners ∧ SameRegistry world (world.destroyTree tree) := by
  have reordered := (ownedAddresses_perm tree.values.reverse_perm).symm.append_right owners
  exact (sound.perm reordered).releaseAll

end World

end Nihil.Cli

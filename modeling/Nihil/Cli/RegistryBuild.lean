/-
Module: Nihil.Cli.RegistryBuild
Layer: Cli
Purpose: build_command_tree over the objects of a program. While it walks the registry it constructs and
  destroys stubs, and none of that touches the registry. Read through its pointers the tree under construction
  is the one that the insertions of the registered commands make (`Denotes`), and `registry_listing` says of
  every run what the registry lists and what a build does to it.
Imports: Nihil.Cli.RegistryInvariant, Nihil.Cli.CommandTreeInsert, Nihil.Library.Run
Trusted boundary: none
Main exports: Denotes, Building, Building.getOrCreateChild, Building.setCommand, Building.insert,
  InvocablesFrom, Building.buildLoop, Built, Sound.buildCommandTree, Listed, registry_listing
-/
import Nihil.Cli.CommandTreeInsert
import Nihil.Cli.RegistryInvariant
import Nihil.Library.Run

namespace Nihil.Cli

open Nihil.Library

variable {H : Type}

namespace World

/-- Read through its pointers, the tree holds these commands. -/
def Denotes (world : World H) (tree : SharedNode) (commands : CommandTreeNode H) : Prop :=
  tree.map (fun pointer => world.command? pointer.address) = commands.map some

/-- A tree under construction, beside other pointers that own something. -/
structure Building (world : World H) (owners : List Nat) (tree : SharedNode) (commands : CommandTreeNode H) :
    Prop where
  sound : world.Sound (ownedAddresses tree.values ++ owners)
  borrowed : ∀ pointer ∈ tree.values, pointer.owns = false → pointer ∈ world.registry
  denotes : world.Denotes tree commands

variable {world : World H} {owners : List Nat} {tree : SharedNode} {commands : CommandTreeNode H}

theorem Denotes.label (denotes : world.Denotes tree commands) (ptr : NodePtr) :
    (tree.label ptr).map (fun pointer => world.command? pointer.address) = (commands.label ptr).map some := by
  rw [← Trie.label_map, ← Trie.label_map, denotes]

theorem Denotes.exists_pointer (denotes : world.Denotes tree commands) {ptr : NodePtr} {command : Command H}
    (present : commands.label ptr = some command) :
    ∃ pointer, tree.label ptr = some pointer ∧ world.command? pointer.address = some command := by
  have same := denotes.label ptr
  rw [present] at same
  exact Option.map_eq_some_iff.mp same

theorem Denotes.nodeCommand (denotes : world.Denotes tree commands) {ptr : NodePtr} {command : Command H}
    (present : commands.label ptr = some command) : world.nodeCommand tree ptr = some command := by
  obtain ⟨pointer, held, read⟩ := denotes.exists_pointer present
  rw [World.nodeCommand, held]
  exact read

/-- Both trees have the same nodes. -/
theorem Denotes.reach_eq_none_iff (denotes : world.Denotes tree commands) (ptr : NodePtr) :
    tree.reach ptr = none ↔ commands.reach ptr = none := by
  have same := congrArg (Trie.reach · ptr) denotes
  simp only [Trie.reach_map] at same
  rw [← Option.map_eq_none_iff, same, Option.map_eq_none_iff]

/-- Every pointer of the tree leads to a live command. -/
theorem Denotes.live (denotes : world.Denotes tree commands) {pointer : SharedCommand}
    (member : pointer ∈ tree.values) : ∃ command, world.command? pointer.address = some command := by
  have same := congrArg Trie.values denotes
  rw [Trie.values_map, Trie.values_map] at same
  have read : world.command? pointer.address ∈ commands.values.map some :=
    same ▸ List.mem_map_of_mem member
  obtain ⟨command, -, found⟩ := List.mem_map.mp read
  exact ⟨command, found.symm⟩

/-- What a change to the objects keeps of what the tree reads. -/
theorem map_eq_of_kept {after : World H} (denotes : world.Denotes tree commands)
    (kept : ∀ pointer ∈ tree.values, ∀ command, world.command? pointer.address = some command →
      after.command? pointer.address = some command) : after.Denotes tree commands := by
  rw [Denotes, ← denotes]
  apply Trie.map_congr
  intro pointer member
  obtain ⟨command, read⟩ := denotes.live member
  rw [read, kept pointer member command read]

/-! ### get_or_create_child -/

theorem Denotes.stubPath (denotes : world.Denotes tree commands) {self : NodePtr} {held : Command H}
    (present : commands.label self = some held) (child : Str) :
    world.stubPath tree self child = some (Cli.stubPath commands self child) := by
  cases self with
  | nil => rfl
  | cons first rest =>
      obtain ⟨above, label⟩ := exists_label_of_prefix (List.dropLast_prefix (first :: rest)) present
      simp only [World.stubPath, parent, denotes.nodeCommand label, Cli.stubPath, commandPath, label]
      rfl

/-- A new stub below a node. -/
theorem Building.grow (building : world.Building owners tree commands) {self : NodePtr} {held : Command H}
    (present : commands.label self = some held) (allocator : Allocator) (child path : Str) :
    (world.makeShared allocator path).1.Building owners
      (tree.grow self child (world.makeShared allocator path).2)
      (commands.grow self child (Command.stub path)) := by
  obtain ⟨pointer, label, -⟩ := building.denotes.exists_pointer present
  obtain ⟨node, reached, -⟩ := Trie.label_eq_some_iff.mp label
  have values := Trie.values_grow reached child (world.makeShared allocator path).2
  have owned := ownedAddresses_perm values
  rw [ownedAddresses_cons_of_owns rfl] at owned
  constructor
  · exact (building.sound.makeShared allocator path).perm (owned.symm.append_right owners)
  · intro other member borrowed
    rcases List.mem_cons.mp (values.mem_iff.mp member) with rfl | earlier
    · cases borrowed
    · exact building.borrowed other earlier borrowed
  · have kept : (world.makeShared allocator path).1.Denotes tree commands :=
      map_eq_of_kept building.denotes fun _ _ _ read => command?_allocate read
    rw [Denotes, Trie.map_grow, Trie.map_grow, kept, building.sound.command?_makeShared allocator path]

theorem Building.getOrCreateChild (building : world.Building owners tree commands) {self : NodePtr}
    {held : Command H} (present : commands.label self = some held) (allocator : Allocator) (child : Str) :
    ∃ world' tree', world.getOrCreateChild allocator tree self child =
        some (world', tree', self ++ [child]) ∧
      world'.Building owners tree' (Cli.getOrCreateChild commands self child).1 ∧
      SameRegistry world world' := by
  cases reached : commands.reach (self ++ [child]) with
  | some below =>
      cases reached' : tree.reach (self ++ [child]) with
      | none =>
          rw [building.denotes.reach_eq_none_iff, reached] at reached'
          cases reached'
      | some below' =>
          refine ⟨world, tree, ?_, ?_, SameRegistry.refl world⟩
          · rw [World.getOrCreateChild, reached']
          · rw [Cli.getOrCreateChild, reached]
            exact building
  | none =>
      have missing := (building.denotes.reach_eq_none_iff (self ++ [child])).mpr reached
      have grown := building.grow present allocator child (Cli.stubPath commands self child)
      have ran : world.getOrCreateChild allocator tree self child =
          some ((world.makeShared allocator (Cli.stubPath commands self child)).1,
            tree.grow self child (world.makeShared allocator (Cli.stubPath commands self child)).2,
            self ++ [child]) := by
        rw [World.getOrCreateChild, missing, building.denotes.stubPath present]
        rfl
      have commands' : (Cli.getOrCreateChild commands self child).1 =
          commands.grow self child (Command.stub (Cli.stubPath commands self child)) := by
        rw [Cli.getOrCreateChild, reached]
      exact ⟨_, _, ran, commands' ▸ grown, sameRegistry_makeShared allocator _⟩

/-! ### insert -/

/-- The walk to a node. -/
theorem Building.walkTo (building : world.Building owners tree commands) {self : NodePtr}
    {held : Command H} (present : commands.label self = some held) (allocator : Allocator) (words : List Str) :
    ∃ world' tree', world.walkTo allocator tree self words = some (world', tree', self ++ words) ∧
      world'.Building owners tree' (Cli.walkTo commands self words).1 ∧ SameRegistry world world' := by
  induction words generalizing world tree commands self held with
  | nil =>
      refine ⟨world, tree, ?_, building, SameRegistry.refl world⟩
      rw [World.walkTo, List.append_nil]
  | cons word words ih =>
      obtain ⟨world₁, tree₁, ran, building₁, same₁⟩ := building.getOrCreateChild present allocator word
      obtain ⟨ptrEq, grown⟩ := getOrCreateChild_grown present word
      obtain ⟨child, childLabel⟩ := grown.exists_of_prefix _ (List.prefix_refl _)
      obtain ⟨world₂, tree₂, rest, building₂, same₂⟩ := ih building₁ childLabel
      refine ⟨world₂, tree₂, ?_, ?_, same₁.trans same₂⟩
      · rw [World.walkTo, ran, List.append_cons self word words]
        exact rest
      · rw [walkTo_cons, ptrEq]
        exact building₂

/-- The node that is found gets the pointer of the registry, and the pointer that it held is destroyed. -/
theorem Building.assign (building : world.Building owners tree commands) {self : NodePtr}
    {held : SharedCommand} (holds : tree.label self = some held) {object : CommandObject H}
    (real : object ∈ world.reals) :
    (world.release held).Building owners (tree.assign self object.entry) (commands.assign self object.command) ∧
      SameRegistry world (world.release held) := by
  obtain ⟨node, reached, rfl⟩ := Trie.label_eq_some_iff.mp holds
  obtain ⟨others, before, after⟩ := Trie.values_assign reached
  have sound : world.Sound (ownedAddresses [node.value] ++ (ownedAddresses others ++ owners)) := by
    rw [← List.append_assoc, ← ownedAddresses_append]
    exact building.sound.perm ((ownedAddresses_perm before).append_right owners)
  obtain ⟨released, same⟩ := sound.release
  have values := after object.entry
  have owned := (ownedAddresses_perm values).symm.append_right owners
  rw [ownedAddresses_cons_of_borrowed rfl] at owned
  have listed : object.entry ∈ world.registry := by
    rw [building.sound.listed]
    exact List.mem_map_of_mem real
  have borrowed : ∀ pointer ∈ (tree.assign self object.entry).values, pointer.owns = false →
      pointer ∈ world.registry := by
    intro pointer member borrows
    rcases List.mem_cons.mp (values.mem_iff.mp member) with rfl | other
    · exact listed
    · exact building.borrowed pointer (before.mem_iff.mpr (List.mem_cons_of_mem _ other)) borrows
  have denotes : world.Denotes (tree.assign self object.entry) (commands.assign self object.command) := by
    rw [Denotes, Trie.map_assign, Trie.map_assign, building.denotes]
    exact congrArg (Trie.assign self · _) (building.sound.command?_eq (mem_reals.mp real).1)
  refine ⟨⟨released.perm owned, ?_, map_eq_of_kept denotes ?_⟩, same⟩
  · rw [same.registry]
    exact borrowed
  · intro pointer member command read
    apply sound.command?_release read
    intro owns
    rw [ownedAddresses_cons_of_owns owns, ownedAddresses_nil, List.singleton_append] at sound
    cases borrows : pointer.owns with
    | false => exact sound.ne_of_registry (borrowed pointer member borrows) List.mem_cons_self
    | true =>
        -- the pointer is not the new one, and no other pointer owns what the old one did
        rintro shared
        apply sound.not_mem_tail
        rcases List.mem_cons.mp (values.mem_iff.mp member) with rfl | other
        · cases borrows
        · rw [← shared]
          exact List.mem_append_left _
            (List.mem_map_of_mem (List.mem_filter.mpr ⟨other, borrows⟩))

theorem Building.setCommand (building : world.Building owners tree commands) {self : NodePtr}
    {current : Command H} (present : commands.label self = some current) {object : CommandObject H}
    (real : object ∈ world.reals) :
    ∃ world' tree', world.setCommand tree self object.entry =
        some (world', tree', (Cli.setCommand commands self object.command).2) ∧
      world'.Building owners tree' (Cli.setCommand commands self object.command).1 ∧
      SameRegistry world world' := by
  obtain ⟨held, holds, read⟩ := building.denotes.exists_pointer present
  rw [World.setCommand, holds, Cli.setCommand, present, Option.any_some]
  cases invocable : current.invocable with
  | true =>
      refine ⟨world, tree, ?_, building, SameRegistry.refl world⟩
      simp only [Option.bind_eq_bind, Option.bind_some, read, invocable, if_true]
      rfl
  | false =>
      obtain ⟨assigned, same⟩ := building.assign holds real
      refine ⟨world.release held, tree.assign self object.entry, ?_, assigned, same⟩
      simp only [Option.bind_eq_bind, Option.bind_some, read, invocable]
      rfl

/-- An insertion of a registered command does to the tree what the insertion of the command does. -/
theorem Building.insert (building : world.Building owners tree commands) (allocator : Allocator)
    {object : CommandObject H} (real : object ∈ world.reals) :
    ∃ world' tree', world.insert allocator tree object.entry =
        some (world', tree', (CommandTree.insert { rootNode := commands } object.command).2) ∧
      world'.Building owners tree' (CommandTree.insert { rootNode := commands } object.command).1.rootNode ∧
      SameRegistry world world' := by
  have read : world.command? object.entry.address = some object.command :=
    building.sound.command?_eq (mem_reals.mp real).1
  obtain ⟨world₁, tree₁, walked, building₁, same₁⟩ :=
    building.walkTo (label_root commands) allocator object.command.words
  obtain ⟨ptrEq, grown⟩ := walkTo_grown (label_root commands) object.command.words
  obtain ⟨current, present⟩ := grown.exists_of_prefix _ (List.prefix_refl _)
  rw [List.nil_append] at walked ptrEq present
  generalize reached : (Cli.walkTo commands [] object.command.words).1 = root at building₁ present
  obtain ⟨world₂, tree₂, set, building₂, same₂⟩ :=
    building₁.setCommand present (same₁.reals ▸ real)
  have walk : Cli.walkTo commands [] object.command.words = (root, object.command.words) :=
    Prod.ext reached ptrEq
  refine ⟨world₂, tree₂, ?_, ?_, same₁.trans same₂⟩
  · rw [World.insert, CommandTree.insert, walk, read]
    simp only [Option.bind_eq_bind, Option.bind_some, walked, set]
  · rw [CommandTree.insert, walk]
    exact building₂

end World

/-! ### Duplicates -/

/-- Every invocable command of a tree is one that was inserted, and it is at its own words. -/
def InvocablesFrom (done : List (Command H)) (root : CommandTreeNode H) : Prop :=
  ∀ ptr command, root.label ptr = some command → command.invocable = true →
    command ∈ done ∧ command.words = ptr

theorem invocablesFrom_leaf (path : Str) :
    InvocablesFrom [] (Trie.leaf (Command.stub path) : CommandTreeNode H) := by
  intro ptr command label invocable
  cases ptr with
  | nil =>
      have same : Command.stub path = command := Option.some.inj label
      rw [← same, Command.invocable_stub] at invocable
      cases invocable
  | cons word words => simp [Trie.label, Trie.reach_cons] at label

theorem InvocablesFrom.insert {done : List (Command H)} {tree : CommandTree H}
    (known : InvocablesFrom done tree.rootNode) {command : Command H} (noThrow : (tree.insert command).2 = none) :
    InvocablesFrom (done ++ [command]) (tree.insert command).1.rootNode := by
  have free : ∀ old, tree.rootNode.label command.words = some old → old.invocable = false := by
    intro old label
    by_contra invocable
    rw [insert_duplicate label (by simpa using invocable)] at noThrow
    cases noThrow
  have inserted := (insert_inserted free).2
  intro ptr found label invocable
  by_cases here : ptr = command.words
  · subst here
    rw [inserted.placed] at label
    cases label
    exact ⟨by simp, rfl⟩
  · cases before : tree.rootNode.label ptr with
    | some old =>
        have kept := inserted.kept ptr old here before
        rw [label] at kept
        cases kept
        obtain ⟨member, words⟩ := known ptr found before invocable
        exact ⟨List.mem_append_left _ member, words⟩
    | none =>
        obtain ⟨-, above, word, -, stub⟩ := inserted.created ptr found here before label
        rw [stub, Command.invocable_stub] at invocable
        cases invocable

/-- An insertion throws only for the path of an invocable command that was inserted before. -/
theorem InvocablesFrom.duplicate {done : List (Command H)} {tree : CommandTree H}
    (known : InvocablesFrom done tree.rootNode) {command : Command H} {thrown : LogicError}
    (throws : (tree.insert command).2 = some thrown) :
    ∃ earlier ∈ done, earlier.path = command.path ∧ earlier.invocable = true := by
  by_contra unique
  have free : ∀ old, tree.rootNode.label command.words = some old → old.invocable = false := by
    intro old label
    by_contra invocable
    have isInvocable : old.invocable = true := by simpa using invocable
    obtain ⟨member, words⟩ := known _ old label isInvocable
    exact unique ⟨old, member, splitWords_injective ' ' words, isInvocable⟩
  rw [(insert_inserted free).1] at throws
  cases throws

/-! ### build_command_tree -/

/-- The registry entries that were inserted: all of them, or those in front of one whose path an invocable
command among the earlier ones has. -/
def Inserts (done todo : List (CommandObject H)) (built : Build H) : Prop :=
  match built.thrown with
  | none => built.inserted = todo.map CommandObject.entry
  | some _ => ∃ before duplicate after, todo = before ++ duplicate :: after ∧
      built.inserted = before.map CommandObject.entry ∧
      ∃ earlier ∈ done ++ before, earlier.command.path = duplicate.command.path ∧
        earlier.command.invocable = true

theorem Inserts.cons {done todo : List (CommandObject H)} {object : CommandObject H} {built : Build H}
    (inserts : Inserts (done ++ [object]) todo built) :
    Inserts done (object :: todo) { built with inserted := object.entry :: built.inserted } := by
  unfold Inserts at inserts ⊢
  cases thrown : built.thrown with
  | none =>
      rw [thrown] at inserts
      simp only [inserts, List.map_cons]
  | some thrown =>
      rw [thrown] at inserts
      obtain ⟨before, duplicate, after, split, inserted, earlier, member, found⟩ := inserts
      refine ⟨object :: before, duplicate, after, by simp [split], by simp [inserted], earlier, ?_, found⟩
      simpa using member

namespace World

variable {world : World H} {owners : List Nat} {tree : SharedNode} {commands : CommandTreeNode H}

/-- The loop ends at an insertion that throws. -/
theorem buildLoop_of_thrown {allocator : Allocator} {position left : Nat} {command : SharedCommand}
    {world' : World H} {tree' : SharedNode} {thrown : LogicError}
    (entry : world.registry[position]? = some command)
    (ran : world.insert allocator tree command = some (world', tree', some thrown)) :
    world.buildLoop allocator world.changes tree position (left + 1) =
      some { world := world', tree := tree', inserted := [], thrown := some thrown } := by
  rw [World.buildLoop, if_neg (by simp), entry]
  simp only [Option.bind_eq_bind, Option.bind_some, ran]
  rfl

/-- After an insertion the loop goes on with the next entry. -/
theorem buildLoop_of_inserted {allocator : Allocator} {position left : Nat} {command : SharedCommand}
    {world' : World H} {tree' : SharedNode} {built : Build H}
    (entry : world.registry[position]? = some command)
    (ran : world.insert allocator tree command = some (world', tree', none))
    (rest : world'.buildLoop allocator world.changes tree' (position + 1) left = some built) :
    world.buildLoop allocator world.changes tree position (left + 1) =
      some { built with inserted := command :: built.inserted } := by
  rw [World.buildLoop, if_neg (by simp), entry]
  simp only [Option.bind_eq_bind, Option.bind_some, ran, rest]
  rfl

/-- The loop over the registry: induction on the entries that are left. -/
theorem Building.buildLoop (building : world.Building owners tree commands) (allocator : Allocator)
    {done todo : List (CommandObject H)} (split : world.reals = done ++ todo)
    (known : InvocablesFrom (done.map CommandObject.command) commands) :
    ∃ built commands', world.buildLoop allocator world.changes tree done.length todo.length = some built ∧
      CommandTree.insertAll { rootNode := commands } (todo.map CommandObject.command) =
        ({ rootNode := commands' }, built.thrown) ∧
      built.world.Building owners built.tree commands' ∧ SameRegistry world built.world ∧
      Inserts done todo built := by
  induction todo generalizing world tree commands done with
  | nil =>
      refine ⟨{ world := world, tree := tree, inserted := [], thrown := none }, commands, ?_, rfl, building,
        SameRegistry.refl world, rfl⟩
      simp [World.buildLoop]
  | cons object todo ih =>
      have real : object ∈ world.reals := by simp [split]
      obtain ⟨world₁, tree₁, ran, building₁, same₁⟩ := building.insert allocator real
      have entry : world.registry[done.length]? = some object.entry := by
        rw [building.sound.listed, split]
        simp
      cases result : CommandTree.insert { rootNode := commands } object.command with
      | mk next thrown =>
          rw [result] at ran building₁
          cases thrown with
          | some thrown =>
              refine ⟨{ world := world₁, tree := tree₁, inserted := [], thrown := some thrown }, next.rootNode,
                buildLoop_of_thrown entry ran, ?_, building₁, same₁, [], object, todo, rfl, rfl, ?_⟩
              · rw [List.map_cons, CommandTree.insertAll, result]
              · have throws : (CommandTree.insert { rootNode := commands } object.command).2 = some thrown := by
                  rw [result]
                obtain ⟨earlier, member, found⟩ := known.duplicate throws
                obtain ⟨origin, among, rfl⟩ := List.mem_map.mp member
                exact ⟨origin, by simpa using among, found⟩
          | none =>
              have noThrow : (CommandTree.insert { rootNode := commands } object.command).2 = none := by
                rw [result]
              have known₁ : InvocablesFrom ((done ++ [object]).map CommandObject.command) next.rootNode := by
                have grown := known.insert noThrow
                rw [result] at grown
                rw [List.map_append]
                exact grown
              have split₁ : world₁.reals = (done ++ [object]) ++ todo := by
                rw [same₁.reals, split]
                simp
              obtain ⟨built, commands', rest, inserted, building', same', inserts⟩ := ih building₁ split₁ known₁
              rw [same₁.changes, List.length_append, List.length_singleton] at rest
              refine ⟨{ built with inserted := object.entry :: built.inserted }, commands',
                buildLoop_of_inserted entry ran rest, ?_, building', same₁.trans same', inserts.cons⟩
              rw [List.map_cons, CommandTree.insertAll, result]
              exact inserted

end World

/-- What a build does: it does not touch the registry. It inserts every entry once, in their order, and the
tree is the one that these insertions make, unless it throws for a path that an invocable command among the
entries already inserted has. -/
structure Built (world : World H) (built : Build H) : Prop where
  registry : built.world.registry = world.registry
  changes : built.world.changes = world.changes
  complete : built.thrown = none → built.inserted = world.registry ∧
    ∃ tree, buildCommandTree (world.reals.map CommandObject.command) = .ok tree ∧
      built.world.Denotes built.tree tree.rootNode
  duplicate : ∀ thrown, built.thrown = some thrown →
    buildCommandTree (world.reals.map CommandObject.command) = .error thrown ∧
    ∃ before duplicate after, world.reals = before ++ duplicate :: after ∧
      built.inserted = before.map CommandObject.entry ∧
      ∃ earlier ∈ before, earlier.command.path = duplicate.command.path ∧ earlier.command.invocable = true

namespace World

variable {world : World H} {owners : List Nat}

/-- `command_tree()`. -/
theorem Sound.building_root (sound : world.Sound owners) (allocator : Allocator) :
    (world.makeShared allocator []).1.Building owners (Trie.leaf (world.makeShared allocator []).2)
      (CommandTree.empty : CommandTree H).rootNode where
  sound := sound.makeShared allocator []
  borrowed := by
    intro pointer member borrowed
    cases List.mem_singleton.mp member
    cases borrowed
  denotes := by
    rw [Denotes, CommandTree.empty, Trie.map_leaf, Trie.map_leaf, sound.command?_makeShared]

/-- A build succeeds or throws, and what is left of it owns its own stubs. -/
theorem Sound.buildCommandTree (sound : world.Sound owners) (allocator : Allocator) :
    ∃ built, world.buildCommandTree allocator = some built ∧ Built world built ∧
      SameRegistry world built.world ∧
      match built.thrown with
      | none => built.world.Sound (ownedAddresses built.tree.values ++ owners)
      | some _ => built.world.Sound owners := by
  have begun := sound.building_root allocator
  have same₀ : SameRegistry world (world.makeShared allocator []).1 := sameRegistry_makeShared allocator []
  have split : (world.makeShared allocator []).1.reals = [] ++ world.reals := same₀.reals
  obtain ⟨built, commands, ran, inserted, building, same, inserts⟩ :=
    begun.buildLoop allocator split (invocablesFrom_leaf [])
  have entries : (world.makeShared allocator []).1.registry.length = world.reals.length := by
    rw [begun.sound.listed, List.length_map, same₀.reals]
  rw [List.length_nil, ← entries] at ran
  have untouched := same₀.trans same
  have insertions : CommandTree.empty.insertAll (world.reals.map CommandObject.command) =
      ({ rootNode := commands }, built.thrown) := inserted
  have tree : Cli.buildCommandTree (world.reals.map CommandObject.command) =
      match built.thrown with
      | none => .ok { rootNode := commands }
      | some thrown => .error thrown := by
    rw [Cli.buildCommandTree, insertions]
    cases built.thrown <;> rfl
  cases thrown : built.thrown with
  | none =>
      simp only [thrown, Inserts] at tree inserts
      refine ⟨built, ?_, ⟨untouched.registry, untouched.changes, ?_, ?_⟩, untouched, ?_⟩
      · simp only [World.buildCommandTree, ran, Option.bind_eq_bind, Option.bind_some, thrown]
        rfl
      · intro _
        refine ⟨?_, { rootNode := commands }, tree, building.denotes⟩
        rw [inserts, sound.listed]
      · simp [thrown]
      · rw [thrown]
        exact building.sound
  | some err =>
      simp only [thrown, Inserts] at tree inserts
      obtain ⟨destroyed, left⟩ := building.sound.destroyTree
      have untouched' := untouched.trans left
      refine ⟨{ built with world := built.world.destroyTree built.tree }, ?_,
        ⟨untouched'.registry, untouched'.changes, ?_, ?_⟩, untouched', ?_⟩
      · simp only [World.buildCommandTree, ran, Option.bind_eq_bind, Option.bind_some, thrown]
        rfl
      · simp [thrown]
      · intro thrown' same'
        rw [thrown] at same'
        cases same'
        exact ⟨tree, inserts⟩
      · simp only [thrown]
        exact destroyed

end World

/-! ### Runs -/

/-- What the pointers of the kept trees own. -/
def keptAddresses (trees : List SharedNode) : List Nat :=
  trees.flatMap fun tree => ownedAddresses tree.values

/-- The registry lists the live commands that were constructed with a handler, each once and in the order of
their construction. -/
structure Listed (world : World H) : Prop where
  entries : world.registry = world.reals.map CommandObject.entry
  once : (world.registry.map SharedCommand.address).Nodup

variable {world after : World H}

theorem sound_destroy (sound : world.Sound (keptAddresses world.trees)) {address : Nat}
    (live : world.objects.any (fun object => object.address == address && object.origin != .shared) = true) :
    (world.destroyCommand address).Sound (keptAddresses (world.destroyCommand address).trees) := by
  obtain ⟨object, member, found⟩ := List.any_eq_true.mp live
  obtain ⟨rfl, notShared⟩ : object.address = address ∧ object.origin ≠ .shared := by simpa using found
  have free : object.address ∉ keptAddresses world.trees := by
    intro owned
    obtain ⟨stub, liveStub, same, shared⟩ := sound.stubs _ owned
    exact notShared (sound.eq_of_address liveStub member same ▸ shared)
  have trees : (world.destroyCommand object.address).trees = world.trees := World.unregisterCommand_trees _
  rw [trees]
  exact sound.destroyCommand free

theorem sound_build (sound : world.Sound (keptAddresses world.trees)) {allocator : Allocator}
    (taken : registryStep allocator .build world = some after) :
    after.Sound (keptAddresses after.trees) := by
  obtain ⟨built, ran, -, same, owns⟩ := sound.buildCommandTree allocator
  rw [registryStep, ran, Option.map_some] at taken
  cases thrown : built.thrown with
  | none =>
      simp only [thrown] at owns taken
      cases taken
      have kept : (keptAddresses (built.world.trees ++ [built.tree])).Perm
          (ownedAddresses built.tree.values ++ keptAddresses world.trees) := by
        simpa [keptAddresses, same.trees] using List.perm_append_comm
      exact (owns.perm kept.symm).withTrees _
  | some err =>
      simp only [thrown] at owns taken
      cases taken
      rw [same.trees]
      exact owns

theorem sound_destroyTree (sound : world.Sound (keptAddresses world.trees)) {i : Nat} {tree : SharedNode}
    (kept : world.trees[i]? = some tree) :
    (world.destroyTree tree).Sound (keptAddresses (world.trees.eraseIdx i)) := by
  obtain ⟨inside, rfl⟩ := List.getElem?_eq_some_iff.mp kept
  have split := (List.getElem_cons_eraseIdx_perm inside).flatMap_right fun tree => ownedAddresses tree.values
  exact (sound.perm split.symm).destroyTree.1

/-- Every action keeps the invariant. -/
theorem sound_registryStep (sound : world.Sound (keptAddresses world.trees)) {allocator : Allocator}
    {action : RegistryAction H} (taken : registryStep allocator action world = some after) :
    after.Sound (keptAddresses after.trees) := by
  cases action with
  | construct path usage handler =>
      cases taken
      exact sound.construct allocator path usage handler
  | constructStub path =>
      cases taken
      exact sound.constructStub allocator path
  | destroy address =>
      rw [registryStep] at taken
      split_ifs at taken with live
      cases taken
      exact sound_destroy sound live
  | build => exact sound_build sound taken
  | destroyTree i =>
      obtain ⟨tree, kept, rfl⟩ := Option.map_eq_some_iff.mp taken
      exact (sound_destroyTree sound kept).withTrees _

/-- In every state of every run the registry lists the live commands that were constructed with a handler, and
a build of the tree is defined, leaves the registry as it is and inserts every entry once, unless it throws
for a duplicate path. -/
theorem registry_listing (allocator : Allocator) (actions : List (RegistryAction H)) :
    EveryState (registryStep allocator)
      (fun world => Listed world ∧ ∃ built, world.buildCommandTree allocator = some built ∧ Built world built)
      actions {} := by
  have always : EveryState (registryStep allocator)
      (fun world : World H => world.Sound (keptAddresses world.trees)) actions {} :=
    everyState_of_preserved (fun _ _ _ sound taken => sound_registryStep sound taken) World.sound_empty actions
  refine always.mono fun world sound => ⟨⟨sound.listed, sound.distinct_registry⟩, ?_⟩
  obtain ⟨built, ran, spec, -⟩ := sound.buildCommandTree allocator
  exact ⟨built, ran, spec⟩

private def behindTheOthers : Allocator where
  address _ live := live.foldr max 0 + 1
  fresh := by
    intro _ live taken
    have bound : ∀ address ∈ live, address ≤ live.foldr max 0 := by
      clear taken
      induction live with
      | nil => simp
      | cons first live ih =>
          intro address member
          rcases List.mem_cons.mp member with rfl | later
          · exact Nat.le_max_left _ _
          · exact Nat.le_trans (ih address later) (Nat.le_max_right _ _)
    exact Nat.not_succ_le_self _ (bound _ taken)

-- The root is the only stub that is left; the two on the way to the commands were replaced.
example : (run (registryStep behindTheOthers)
    [.construct "pool add".toList [] (some 1), .construct "pool".toList [] (some 2), .build] {}).map
      (fun world => (world.registry.map SharedCommand.address, world.objects.map CommandObject.address)) =
    some ([1, 2], [1, 2, 3]) := by
  decide

end Nihil.Cli

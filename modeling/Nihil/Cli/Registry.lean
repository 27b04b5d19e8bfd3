/-
Module: Nihil.Cli.Registry
Layer: Cli
Purpose: The command registry and the objects it points to. A command object has an address for as long as it
  lives; the address may be used again afterwards. The registry and the trees hold shared pointers: the ones
  that register_command makes have a null deleter, the ones to the stubs of a tree destroy them. Every
  destructor calls unregister_command, also that of a stub, and it compares addresses. A function is `none`
  where the behaviour is undefined: a read of a command that does not live, and a use of an iterator of the
  registry after the vector was changed.
Imports: Nihil.Cli.CommandTree
Trusted boundary: `Allocator`, the addresses of new objects; a vector and a tree have the memory they need; a
  run is over before the registry itself is destroyed. The pointer that make_shared returns is only moved, so
  that it is the one owner of its stub.
Main exports: Origin, CommandObject, SharedCommand, Allocator, World, registerCommand, unregisterCommand, construct,
  constructStub, destroyCommand, getOrCreateChild, setCommand, insert, Build, buildCommandTree, destroyTree,
  RegistryAction, registryStep
-/
import Nihil.Cli.CommandTree

namespace Nihil.Cli

open Nihil.Library

/-- How a command object was constructed: with path, usage and handler, or with a path only, and in the second
case by the program or by std::make_shared. -/
inductive Origin where
  | real
  | stub
  | shared
deriving DecidableEq, Repr

/-- A live object of type nihil::command. -/
structure CommandObject (H : Type) where
  address : Nat
  command : Command H
  origin : Origin
deriving DecidableEq, Repr

/-- std::shared_ptr<command>. Without ownership the deleter is the null deleter. -/
structure SharedCommand where
  address : Nat
  owns : Bool
deriving DecidableEq, Repr

/-- command_tree_node, with everything below it, by the pointers in the nodes. -/
abbrev SharedNode := Trie Str SharedCommand

/-- Where the next object goes, given how many were constructed so far and the addresses of those that live. -/
structure Allocator where
  address : Nat → List Nat → Nat
  fresh : ∀ constructed live, address constructed live ∉ live

/-- The objects of a program, and its registry. -/
structure World (H : Type) where
  /-- The live command objects, in the order of their construction. -/
  objects : List (CommandObject H) := []
  /-- `get_registry()`. -/
  registry : List SharedCommand := []
  /-- How often the registry was changed; a change invalidates the iterators. -/
  changes : Nat := 0
  /-- How many command objects were constructed. -/
  constructed : Nat := 0
  /-- The command trees that are kept. -/
  trees : List SharedNode := []

/-- What build_command_tree leaves: the tree, the registry entries that were inserted into it, in this order,
and the exception it throws. -/
structure Build (H : Type) where
  world : World H
  tree : SharedNode
  inserted : List SharedCommand
  thrown : Option LogicError

variable {H : Type}

namespace World

/-! ### Commands -/

/-- The command at an address, if one lives there. -/
def command? (world : World H) (address : Nat) : Option (Command H) :=
  (world.objects.find? (·.address == address)).map CommandObject.command

/-- `register_command`. -/
def registerCommand (world : World H) (cmd : Nat) : World H :=
  { world with
    registry := world.registry ++ [{ address := cmd, owns := false }]
    changes := world.changes + 1 }

/-- `unregister_command`. -/
def unregisterCommand (world : World H) (cmd : Nat) : World H :=
  match world.registry.findIdx? (·.address == cmd) with
  | none => world
  | some it => { world with registry := world.registry.eraseIdx it, changes := world.changes + 1 }

/-- A new command object, and its address. -/
def allocate (allocator : Allocator) (world : World H) (command : Command H) (origin : Origin) :
    World H × Nat :=
  let address := allocator.address world.constructed (world.objects.map CommandObject.address)
  let object := { address := address, command := command, origin := origin }
  ({ world with objects := world.objects ++ [object], constructed := world.constructed + 1 }, address)

/-- The constructor with a handler, which registers the command. An empty std::function is no handler. -/
def construct (allocator : Allocator) (world : World H) (path usage : Str) (handler : Option H) : World H :=
  let (world, address) :=
    world.allocate allocator { path := path, usage := usage, handler := handler } .real
  world.registerCommand address

/-- The constructor without a handler. -/
def constructStub (allocator : Allocator) (world : World H) (path : Str) : World H :=
  (world.allocate allocator (Command.stub path) .stub).1

/-- `command::~command`. -/
def destroyCommand (world : World H) (address : Nat) : World H :=
  let world := world.unregisterCommand address
  { world with objects := world.objects.filter (·.address != address) }

/-! ### Pointers -/

/-- `std::make_shared<nihil::command>(path)`. -/
def makeShared (allocator : Allocator) (world : World H) (path : Str) : World H × SharedCommand :=
  let (world, address) := world.allocate allocator (Command.stub path) .shared
  (world, { address := address, owns := true })

/-- The destructor of a pointer. -/
def release (world : World H) (pointer : SharedCommand) : World H :=
  if pointer.owns then world.destroyCommand pointer.address else world

/-- `command_tree_node::command` of the node at a pointer. -/
def nodeCommand (world : World H) (root : SharedNode) (self : NodePtr) : Option (Command H) :=
  (root.label self).bind fun pointer => world.command? pointer.address

/-- The path given to a stub that is created as a child of `self`. -/
def stubPath (world : World H) (root : SharedNode) (self : NodePtr) (child : Str) : Option Str :=
  match parent self with
  | some parent => do
      let command ← world.nodeCommand root parent
      return command.path ++ " ".toList ++ child
  | none => some child

/-! ### The tree -/

/-- `command_tree_node::get_or_create_child`. -/
def getOrCreateChild (allocator : Allocator) (world : World H) (root : SharedNode) (self : NodePtr)
    (child : Str) : Option (World H × SharedNode × NodePtr) :=
  match root.reach (self ++ [child]) with
  | some _ => some (world, root, self ++ [child])
  | none => do
      let path ← world.stubPath root self child
      let (world, stub) := world.makeShared allocator path
      return (world, root.grow self child stub, self ++ [child])

/-- The overload of `command_tree_node::command` that sets a node's command. The pointer that the node held
is destroyed. -/
def setCommand (world : World H) (root : SharedNode) (self : NodePtr) (command : SharedCommand) :
    Option (World H × SharedNode × Option LogicError) := do
  let held ← root.label self
  let current ← world.command? held.address
  if current.invocable then
    return (world, root, some { what := "duplicate command".toList })
  else
    return (world.release held, root.assign self command, none)

/-- The loop of `command_tree::insert`. -/
def walkTo (allocator : Allocator) (world : World H) (root : SharedNode) (self : NodePtr) :
    List Str → Option (World H × SharedNode × NodePtr)
  | [] => some (world, root, self)
  | word :: words => do
      let (world, root, self) ← world.getOrCreateChild allocator root self word
      walkTo allocator world root self words

/-- `command_tree::insert`. The last component is the exception it throws. -/
def insert (allocator : Allocator) (world : World H) (root : SharedNode) (command : SharedCommand) :
    Option (World H × SharedNode × Option LogicError) := do
  let inserted ← world.command? command.address
  let (world, root, thisNode) ← world.walkTo allocator root [] inserted.words
  world.setCommand root thisNode command

/-- The loop of `build_command_tree`, from the entry at a position to the end iterator that many entries
behind it. The iterators are those of a registry that was changed `changes` times. -/
def buildLoop (allocator : Allocator) (changes : Nat) (world : World H) (tree : SharedNode)
    (position : Nat) : Nat → Option (Build H)
  | 0 =>
      if world.changes ≠ changes then none
      else some { world := world, tree := tree, inserted := [], thrown := none }
  | left + 1 =>
      if world.changes ≠ changes then none
      else do
        let command ← world.registry[position]?
        let (world, tree, thrown) ← world.insert allocator tree command
        match thrown with
        | some thrown => return { world := world, tree := tree, inserted := [], thrown := some thrown }
        | none => do
            let rest ← buildLoop allocator changes world tree (position + 1) left
            return { rest with inserted := command :: rest.inserted }

/-- The destructor of a tree. The children of a node are destroyed before the pointer it holds. -/
def destroyTree (world : World H) (tree : SharedNode) : World H :=
  tree.values.reverse.foldl release world

/-- `build_command_tree`. When an insertion throws, the tree is destroyed. -/
def buildCommandTree (allocator : Allocator) (world : World H) : Option (Build H) := do
  let (world, root) := world.makeShared allocator []
  let built ← world.buildLoop allocator world.changes (Trie.leaf root) 0 world.registry.length
  match built.thrown with
  | none => return built
  | some _ => return { built with world := built.world.destroyTree built.tree }

end World

/-! ### Runs -/

/-- What a program does with its commands and its trees. -/
inductive RegistryAction (H : Type) where
  /-- `command(path, usage, handler)`. -/
  | construct (path usage : Str) (handler : Option H)
  /-- `command(path)`. -/
  | constructStub (path : Str)
  /-- A command that the program constructed is destroyed. -/
  | destroy (address : Nat)
  /-- `build_command_tree()`, and the tree is kept. -/
  | build
  /-- A tree that was kept is destroyed. -/
  | destroyTree (i : Nat)
deriving DecidableEq, Repr

/-- One action. It is not allowed for a command that does not live or that a tree owns, and for a tree that
does not exist. -/
def registryStep (allocator : Allocator) (action : RegistryAction H) (world : World H) :
    Option (World H) :=
  match action with
  | .construct path usage handler => some (world.construct allocator path usage handler)
  | .constructStub path => some (world.constructStub allocator path)
  | .destroy address =>
      if world.objects.any fun object => object.address == address && object.origin != .shared then
        some (world.destroyCommand address)
      else none
  | .build =>
      (world.buildCommandTree allocator).map fun built =>
        match built.thrown with
        | none => { built.world with trees := built.world.trees ++ [built.tree] }
        | some _ => built.world
  | .destroyTree i =>
      world.trees[i]?.map fun tree => { world.destroyTree tree with trees := world.trees.eraseIdx i }

end Nihil.Cli

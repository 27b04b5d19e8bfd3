/-
Module: Nihil.Cli.CommandTree
Layer: Cli
Purpose: command_tree and command_tree_node. A node holds a command and an ordered map from words to its
  children, so a tree of nodes is a trie of commands. Nodes never move once they are in the tree; a node
  pointer is therefore the sequence of words that leads to the node from the root, `m_parent` is that
  sequence without its last word, and `m_this_word` is its last word.
Imports: Nihil.Cli.Command, Nihil.Library.Trie
Trusted boundary: none
Main exports: CommandTreeNode, NodePtr, getOrCreateChild, setCommand, CommandTree, CommandTree.insert,
  CommandTree.insertAll, CommandTree.find, buildCommandTree
-/
import Nihil.Cli.Command
import Nihil.Library.Trie

namespace Nihil.Cli

open Nihil.Library

/-- command_tree_node, with everything below it. -/
abbrev CommandTreeNode (H : Type) := Trie Str (Command H)

/-- A command_tree_node pointer. -/
abbrev NodePtr := List Str

variable {H : Type}

/-- `command_tree_node::command`. -/
def CommandTreeNode.command (self : CommandTreeNode H) : Command H := self.value

/-- `command_tree_node::all_children`: every node below this one, depth first. -/
def CommandTreeNode.allChildren (self : CommandTreeNode H) : List (CommandTreeNode H) :=
  self.descendants

/-- `command_tree_node::children`: the nodes directly below this one, in the order of their words. -/
def CommandTreeNode.directChildren (self : CommandTreeNode H) : List (CommandTreeNode H) :=
  self.children.map Prod.snd

/-- `m_parent`: null for the root node. -/
def parent : NodePtr → Option NodePtr
  | [] => none
  | word :: words => some (word :: words).dropLast

/-- The path of the command held by a node. -/
def commandPath (root : CommandTreeNode H) (self : NodePtr) : Str :=
  ((root.label self).map Command.path).getD []

/-- The path given to a stub that is created as a child of `self`. -/
def stubPath (root : CommandTreeNode H) (self : NodePtr) (child : Str) : Str :=
  match parent self with
  | some parent => commandPath root parent ++ " ".toList ++ child
  | none => child

/-- `command_tree_node::get_or_create_child`. The emplace cannot fail, because `get_child` has just found
the word to be free. -/
def getOrCreateChild (root : CommandTreeNode H) (self : NodePtr) (child : Str) :
    CommandTreeNode H × NodePtr :=
  match root.reach (self ++ [child]) with
  | some _ => (root, self ++ [child])
  | none => (root.grow self child (Command.stub (stubPath root self child)), self ++ [child])

/-- The overload of `command_tree_node::command` that sets a node's command. The second component is the
exception it throws. -/
def setCommand (root : CommandTreeNode H) (self : NodePtr) (command : Command H) :
    CommandTreeNode H × Option LogicError :=
  if (root.label self).any Command.invocable then
    (root, some { what := "duplicate command".toList })
  else
    (root.assign self command, none)

/-- The loop of `command_tree::insert`, from node `self` along the words that are left. -/
def walkTo (root : CommandTreeNode H) (self : NodePtr) : List Str → CommandTreeNode H × NodePtr
  | [] => (root, self)
  | word :: words =>
      let (root, self) := getOrCreateChild root self word
      walkTo root self words

/-- command_tree. -/
structure CommandTree (H : Type) where
  rootNode : CommandTreeNode H

/-- A default-constructed tree: the root node holds a stub with an empty path. -/
def CommandTree.empty : CommandTree H :=
  { rootNode := Trie.leaf (Command.stub []) }

/-- `command_tree::insert`. The second component is the exception it throws. -/
def CommandTree.insert (self : CommandTree H) (command : Command H) :
    CommandTree H × Option LogicError :=
  let (root, thisNode) := walkTo self.rootNode [] command.words
  let (root, thrown) := setCommand root thisNode command
  ({ rootNode := root }, thrown)

/-- Insertions one after the other, up to the first that throws. -/
def CommandTree.insertAll (self : CommandTree H) : List (Command H) → CommandTree H × Option LogicError
  | [] => (self, none)
  | command :: commands =>
      match self.insert command with
      | (self, some thrown) => (self, some thrown)
      | (self, none) => self.insertAll commands

/-- `command_tree::find`. The take_while view walks down the tree while it is measured; the second
component is the range that is returned. -/
def CommandTree.find (self : CommandTree H) (args : List Str) : CommandTreeNode H × List Str :=
  let (thisNode, rest) := self.rootNode.follow args
  let taken := args.length - rest.length
  (thisNode, args.drop taken)

/-- `build_command_tree` over the commands of the registry. -/
def buildCommandTree (registry : List (Command H)) : Except LogicError (CommandTree H) :=
  match CommandTree.empty.insertAll registry with
  | (tree, none) => .ok tree
  | (_, some thrown) => .error thrown

end Nihil.Cli

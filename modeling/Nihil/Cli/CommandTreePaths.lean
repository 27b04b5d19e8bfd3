/-
Module: Nihil.Cli.CommandTreePaths
Layer: Cli
Purpose: The path invariant of the command tree: the words that lead to a node, joined by single spaces, are
  the path of the command the node holds. Real commands and stubs on the first two levels keep it. A stub
  further down does not: `get_or_create_child` names it after `m_parent`, the parent of the node it is
  created under, where the node itself would be right. So the invariant holds of a tree exactly when every
  deeper node has been given a command of its own.
Imports: Nihil.Cli.CommandTreeInsert
Trusted boundary: none
Main exports: PathInvariant, pathInvariant_iff
-/
import Nihil.Cli.CommandTreeInsert

namespace Nihil.Cli

open Nihil.Library

variable {H : Type}

/-- The command held by a node has the words that lead to the node as its path. -/
def PathInvariant (root : CommandTreeNode H) : Prop :=
  ∀ (ptr : NodePtr) (node : CommandTreeNode H),
    root.reach ptr = some node → node.command.path = joinWords ' ' ptr

/-- Every prefix of two or more words of an inserted path is an inserted path itself. -/
def PrefixesInserted (commands : List (Command H)) : Prop :=
  ∀ command ∈ commands, ∀ ptr, ptr <+: command.words → 2 ≤ ptr.length →
    ∃ inserted ∈ commands, inserted.words = ptr

/-- After any run of insertions the path invariant holds if and only if no stub is left below the first
level. -/
theorem pathInvariant_iff {commands : List (Command H)}
    (wellFormed : ∀ command ∈ commands, IsCommandPath command.path) :
    PathInvariant (runInserts CommandTree.empty commands).rootNode ↔ PrefixesInserted commands := by
  have invariant := treeInvariant_runInserts wellFormed
  constructor
  · intro paths command member ptr onTheWay deep
    obtain ⟨found, label⟩ := (invariant.present ptr).mpr (Or.inr ⟨command, member, onTheWay⟩)
    obtain ⟨node, reached, rfl⟩ := Trie.label_eq_some_iff.mp label
    have path : node.value.path = joinWords ' ' ptr := paths ptr node reached
    rcases invariant.provenance ptr node.value label with ⟨inserted, words⟩ | ⟨_, _, shallow | short⟩
    · exact ⟨node.value, inserted, words⟩
    · omega
    · rw [path] at short
      omega
  · intro prefixes ptr node reached
    have label := Trie.label_eq_some_iff.mpr ⟨node, reached, rfl⟩
    rcases invariant.provenance ptr node.value label with
      ⟨inserted, words⟩ | ⟨others, _, shallow | short⟩
    · rw [← words]
      exact (wellFormed _ inserted).words_spec.2.symm
    · exact shallow.2
    · rcases (invariant.present ptr).mp ⟨node.value, label⟩ with root | ⟨command, member, onTheWay⟩
      · simp [root] at short
      · obtain ⟨inserted, insertedMember, words⟩ := prefixes command member ptr onTheWay short.1
        exact absurd words (others inserted insertedMember)

private def removeCommand : Command Unit :=
  { path := "tank volume remove".toList, usage := [], handler := some () }

/-- One command of three words: its grandparent, not its parent, gives the stub in the middle its path,
which comes out as " volume". -/
theorem pathInvariant_fails :
    ¬ PathInvariant (runInserts CommandTree.empty [removeCommand]).rootNode := by
  intro paths
  have label : (runInserts CommandTree.empty [removeCommand]).rootNode.label
      ["tank".toList, "volume".toList] = some (Command.stub " volume".toList) := by decide
  obtain ⟨node, reached, held⟩ := Trie.label_eq_some_iff.mp label
  have path : node.value.path = joinWords ' ' _ := paths _ node reached
  rw [held] at path
  exact absurd path (by decide)

theorem pathInvariant_iff_removeCommand :
    PathInvariant (runInserts CommandTree.empty [removeCommand]).rootNode ↔
      PrefixesInserted [removeCommand] :=
  pathInvariant_iff (by
    intro command member
    rw [List.mem_singleton.mp member]
    exact ⟨["tank".toList, "volume".toList, "remove".toList], by decide, by decide⟩)

end Nihil.Cli

/-
Module: Nihil.Cli.CommandTreeRegistration
Layer: Cli
Purpose: Registering commands with distinct paths. Such commands go into the tree in any order without an
  exception, each ends up at its own words, every other node is a stub, the depth-first listing of the
  root yields each of them once, and the order leaves no trace in where a command is found. A further
  command for words that are taken by an invocable command is refused without any effect.
Imports: Nihil.Cli.CommandTreeInsert
Trusted boundary: none
Main exports: DistinctCommands, insertAll_distinct, Registered, registered_of_treeInvariant, SameCommand,
  registration_correct
-/
import Mathlib.Data.List.Nodup
import Nihil.Cli.CommandTreeInsert

namespace Nihil.Cli

open Nihil.Library

variable {H : Type}

/-- Commands with well-formed paths of at least one word, no two of them with the same path. -/
structure DistinctCommands (commands : List (Command H)) : Prop where
  wellFormed : ∀ command ∈ commands, IsCommandPath command.path
  nonempty : ∀ command ∈ commands, command.path ≠ []
  distinct : (commands.map Command.path).Nodup

theorem DistinctCommands.perm {commands other : List (Command H)} (distinct : DistinctCommands commands)
    (reordered : other.Perm commands) : DistinctCommands other where
  wellFormed command member := distinct.wellFormed command (reordered.subset member)
  nonempty command member := distinct.nonempty command (reordered.subset member)
  distinct := (reordered.map _).nodup_iff.mpr distinct.distinct

/-- Among commands with well-formed paths the words determine the path. -/
theorem path_eq_of_words_eq {first second : Command H} (wellFormed : IsCommandPath first.path)
    (wellFormed' : IsCommandPath second.path) (words : first.words = second.words) :
    first.path = second.path := by
  rw [← wellFormed.words_spec.2, ← wellFormed'.words_spec.2, words]

theorem DistinctCommands.eq_of_words_eq {commands : List (Command H)}
    (distinct : DistinctCommands commands) {first second : Command H} (member : first ∈ commands)
    (member' : second ∈ commands) (words : first.words = second.words) : first = second :=
  List.inj_on_of_nodup_map distinct.distinct member member'
    (path_eq_of_words_eq (distinct.wellFormed first member) (distinct.wellFormed second member') words)

/-- One insertion of a command whose path is new to the tree. -/
theorem insert_new {done : List (Command H)} {tree : CommandTree H} {command : Command H}
    (invariant : TreeInvariant done tree.rootNode)
    (wellFormed : ∀ other ∈ done, IsCommandPath other.path) (wellFormedNew : IsCommandPath command.path)
    (isNew : command.path ∉ done.map Command.path) :
    (tree.insert command).2 = none ∧
      Inserted tree.rootNode (tree.insert command).1.rootNode command := by
  refine insert_inserted fun old label => ?_
  rcases invariant.provenance _ old label with ⟨member, words⟩ | ⟨_, stub, _⟩
  · have path := path_eq_of_words_eq (wellFormed old member) wellFormedNew words
    exact absurd (List.mem_map.mpr ⟨old, member, path⟩) isNew
  · exact stub

/-- Commands with distinct paths are inserted without an exception, and the depth-first listing gains
exactly the invocable ones. -/
theorem insertAll_distinct {done commands : List (Command H)} {tree : CommandTree H}
    (invariant : TreeInvariant done tree.rootNode)
    (wellFormed : ∀ command ∈ done ++ commands, IsCommandPath command.path)
    (distinct : ((done ++ commands).map Command.path).Nodup) :
    ∃ after, tree.insertAll commands = (after, none) ∧
      (after.rootNode.values.filter Command.invocable).Perm
        (commands.filter Command.invocable ++ tree.rootNode.values.filter Command.invocable) := by
  induction commands generalizing done tree with
  | nil => exact ⟨tree, rfl, by simp⟩
  | cons command commands ih =>
      have earlier : ∀ other ∈ done, IsCommandPath other.path :=
        fun other member => wellFormed other (List.mem_append_left _ member)
      have isNew : command.path ∉ done.map Command.path := by
        rw [List.map_append, List.map_cons, List.nodup_append] at distinct
        intro member
        exact distinct.2.2 command.path member command.path (by simp) rfl
      have path := wellFormed command (by simp)
      obtain ⟨noThrow, inserted⟩ := insert_new invariant earlier path isNew
      have step := invariant.insert earlier path
      cases result : tree.insert command with
      | mk next thrown =>
          rw [result] at noThrow inserted step
          rw [List.append_cons] at wellFormed distinct
          obtain ⟨after, rest, listed⟩ := ih step wellFormed distinct
          subst noThrow
          refine ⟨after, by rw [CommandTree.insertAll, result]; exact rest, ?_⟩
          have split : (command :: commands).filter Command.invocable =
              [command].filter Command.invocable ++ commands.filter Command.invocable := by
            rw [← List.filter_append, List.singleton_append]
          rw [split, List.append_assoc]
          exact (listed.trans (inserted.listing.append_left _)).trans (List.perm_append_comm_assoc _ _ _)

/-- Where the commands are in a tree they were registered in. -/
structure Registered (commands : List (Command H)) (tree : CommandTree H) : Prop where
  atPath : ∀ command ∈ commands, tree.rootNode.label command.words = some command
  elsewhere : ∀ ptr held, tree.rootNode.label ptr = some held →
    (∀ command ∈ commands, command.words ≠ ptr) → held.invocable = false
  present : ∀ ptr, (∃ held, tree.rootNode.label ptr = some held) ↔
    ptr = [] ∨ ∃ command ∈ commands, ptr <+: command.words

theorem registered_of_treeInvariant {commands : List (Command H)} {tree : CommandTree H}
    (distinct : DistinctCommands commands) (invariant : TreeInvariant commands tree.rootNode) :
    Registered commands tree where
  atPath command member := by
    obtain ⟨held, label⟩ :=
      (invariant.present command.words).mpr (Or.inr ⟨command, member, List.prefix_refl _⟩)
    rcases invariant.provenance _ held label with ⟨heldMember, words⟩ | ⟨others, _⟩
    · rw [label, distinct.eq_of_words_eq heldMember member words]
    · exact absurd rfl (others command member)
  elsewhere ptr held label others := by
    rcases invariant.provenance ptr held label with ⟨member, words⟩ | ⟨_, stub, _⟩
    · exact absurd words (others held member)
    · exact stub
  present := invariant.present

/-- Two lookups agree: the same command, a stub in both places, or no node in both places. -/
def SameCommand : Option (Command H) → Option (Command H) → Prop
  | none, none => True
  | some first, some second =>
      first = second ∨ (first.invocable = false ∧ second.invocable = false)
  | _, _ => False

/-- Trees the same commands are registered in agree everywhere. -/
theorem Registered.sameCommand {commands other : List (Command H)} {first second : CommandTree H}
    (one : Registered commands first) (two : Registered other second) (reordered : other.Perm commands)
    (ptr : NodePtr) : SameCommand (first.rootNode.label ptr) (second.rootNode.label ptr) := by
  have samePresence : (∃ held, first.rootNode.label ptr = some held) ↔
      ∃ held, second.rootNode.label ptr = some held := by
    rw [one.present, two.present]
    simp only [reordered.mem_iff]
  by_cases inserted : ∃ command ∈ commands, command.words = ptr
  · obtain ⟨command, member, rfl⟩ := inserted
    rw [one.atPath command member, two.atPath command (reordered.mem_iff.mpr member)]
    exact Or.inl rfl
  · have notFirst : ∀ command ∈ commands, command.words ≠ ptr :=
      fun command member words => inserted ⟨command, member, words⟩
    have notSecond : ∀ command ∈ other, command.words ≠ ptr :=
      fun command member => notFirst command (reordered.mem_iff.mp member)
    cases label : first.rootNode.label ptr with
    | none =>
        cases label' : second.rootNode.label ptr with
        | none => trivial
        | some held =>
            obtain ⟨_, other⟩ := samePresence.mpr ⟨held, label'⟩
            simp [label] at other
    | some held =>
        obtain ⟨held', label'⟩ := samePresence.mp ⟨held, label⟩
        rw [label']
        exact Or.inr ⟨one.elsewhere ptr held label notFirst, two.elsewhere ptr held' label' notSecond⟩

/-- Registering invocable commands with distinct paths never throws, puts each at its own words and nowhere
else, lists each of them once below the root, depends on their order nowhere, and protects their nodes
from later insertions. -/
theorem registration_correct {commands : List (Command H)} (distinct : DistinctCommands commands)
    (invocable : ∀ command ∈ commands, command.invocable = true) :
    ∃ tree, CommandTree.empty.insertAll commands = (tree, none) ∧
      (∀ command ∈ commands, tree.rootNode.label command.words = some command) ∧
      (∀ ptr held, tree.rootNode.label ptr = some held →
        (∀ command ∈ commands, command.words ≠ ptr) → held.invocable = false) ∧
      ((tree.rootNode.allChildren.map CommandTreeNode.command).filter Command.invocable).Perm commands ∧
      (∀ other, other.Perm commands → ∃ tree', CommandTree.empty.insertAll other = (tree', none) ∧
        ∀ ptr, SameCommand (tree.rootNode.label ptr) (tree'.rootNode.label ptr)) ∧
      ∀ further old, tree.rootNode.label further.words = some old → old.invocable = true →
        tree.insert further = (tree, some { what := "duplicate command".toList }) := by
  have inserts : ∀ commands : List (Command H), DistinctCommands commands →
      ∃ tree, CommandTree.empty.insertAll commands = (tree, none) ∧ Registered commands tree ∧
        (tree.rootNode.values.filter Command.invocable).Perm (commands.filter Command.invocable) := by
    intro commands distinct
    obtain ⟨tree, inserted, listed⟩ :=
      insertAll_distinct treeInvariant_empty distinct.wellFormed distinct.distinct
    have invariant := runInserts_of_insertAll inserted ▸ treeInvariant_runInserts distinct.wellFormed
    have emptyListing :
        (CommandTree.empty : CommandTree H).rootNode.values.filter Command.invocable = [] := rfl
    rw [emptyListing, List.append_nil] at listed
    exact ⟨tree, inserted, registered_of_treeInvariant distinct invariant, listed⟩
  obtain ⟨tree, inserted, registered, listed⟩ := inserts commands distinct
  refine ⟨tree, inserted, registered.atPath, registered.elsewhere, ?_, ?_, ?_⟩
  · have rootStub : tree.rootNode.value.invocable = false := by
      refine registered.elsewhere [] _ (label_root _) fun command member words => ?_
      have joined := (distinct.wellFormed command member).words_spec.2
      rw [words] at joined
      exact distinct.nonempty command member joined.symm
    rw [List.filter_eq_self.mpr invocable, Trie.values_eq_cons_descendants, List.filter_cons,
      rootStub] at listed
    exact listed
  · intro other reordered
    obtain ⟨tree', inserted', registered', _⟩ := inserts other (distinct.perm reordered)
    exact ⟨tree', inserted', registered.sameCommand registered' reordered⟩
  · intro further old label oldInvocable
    exact insert_duplicate label oldInvocable

private def poolCommands : List (Command Nat) :=
  [{ path := "pool add".toList, usage := [], handler := some 1 },
    { path := "pool".toList, usage := [], handler := some 2 }]

theorem registration_correct_poolCommands :
    ∃ tree, CommandTree.empty.insertAll poolCommands = (tree, none) ∧
      ((tree.rootNode.allChildren.map CommandTreeNode.command).filter Command.invocable).Perm
        poolCommands := by
  have distinct : DistinctCommands poolCommands := by
    refine ⟨?_, by decide, by decide⟩
    intro command member
    simp only [poolCommands, List.mem_cons, List.not_mem_nil, or_false] at member
    rcases member with rfl | rfl
    · exact ⟨["pool".toList, "add".toList], by decide, by decide⟩
    · exact ⟨["pool".toList], by decide, by decide⟩
  obtain ⟨tree, inserted, _, _, listed, _⟩ := registration_correct distinct (by decide)
  exact ⟨tree, inserted, listed⟩

end Nihil.Cli

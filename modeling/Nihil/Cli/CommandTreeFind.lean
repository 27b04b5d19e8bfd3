/-
Module: Nihil.Cli.CommandTreeFind
Layer: Cli
Purpose: command_tree::find against its purpose: the node at the longest prefix of the arguments that is a
  prefix of an inserted path, and the arguments after that prefix. The node is always the right one. The
  range is not: `find` drops as many arguments as were left over, not as many as were matched, so the two
  components agree only when exactly half of the arguments were matched.
Imports: Nihil.Cli.CommandTreeInsert
Trusted boundary: none
Main exports: longestMatch, find_node, find_rest, FindSpec, find_spec_iff
-/
import Nihil.Cli.CommandTreeInsert

namespace Nihil.Cli

open Nihil.Library

variable {H : Type}

/-- The length of the longest prefix of the arguments that is a prefix of an inserted path. -/
def longestMatch (commands : List (Command H)) (args : List Str) : Nat :=
  Nat.findGreatest (fun length => ∃ command ∈ commands, args.take length <+: command.words) args.length

theorem longestMatch_le (commands : List (Command H)) (args : List Str) :
    longestMatch commands args ≤ args.length :=
  Nat.findGreatest_le _

/-- The walk of `find` stops at the longest match. -/
theorem TreeInvariant.matched_eq {commands : List (Command H)} {root : CommandTreeNode H}
    (invariant : TreeInvariant commands root) (args : List Str) :
    root.matched args = longestMatch commands args := by
  have agree : ∀ length, 0 < length → length ≤ args.length →
      ((root.reach (args.take length)).isSome ↔
        ∃ command ∈ commands, args.take length <+: command.words) := by
    intro length positive bound
    have nonempty : args.take length ≠ [] := by
      intro empty
      have size := congrArg List.length empty
      simp only [List.length_take, List.length_nil] at size
      omega
    rw [← Trie.exists_label_iff, invariant.present]
    simp [nonempty]
  refine Nat.findGreatest_eq_iff.mpr ⟨longestMatch_le commands args, fun nonzero => ?_, ?_⟩
  · exact (agree _ (Nat.pos_of_ne_zero nonzero) (longestMatch_le commands args)).mpr
      (Nat.findGreatest_of_ne_zero rfl nonzero)
  · intro length longer bound present
    exact Nat.findGreatest_is_greatest longer bound ((agree length (by omega) bound).mp present)

variable {commands : List (Command H)} {tree : CommandTree H}

/-- The tree built by insertions none of which throws. -/
theorem treeInvariant_insertAll (wellFormed : ∀ command ∈ commands, IsCommandPath command.path)
    (inserted : CommandTree.empty.insertAll commands = (tree, none)) :
    TreeInvariant commands tree.rootNode :=
  runInserts_of_insertAll inserted ▸ treeInvariant_runInserts wellFormed

/-- `find` returns the node at the longest match. -/
theorem find_node (invariant : TreeInvariant commands tree.rootNode) (args : List Str) :
    tree.rootNode.reach (args.take (longestMatch commands args)) = some (tree.find args).1 := by
  rw [← invariant.matched_eq, ← Trie.follow_spec]
  exact Trie.follow_reach tree.rootNode args

/-- `find` returns the last arguments, as many as were matched. -/
theorem find_rest (invariant : TreeInvariant commands tree.rootNode) (args : List Str) :
    (tree.find args).2 = args.drop (args.length - longestMatch commands args) := by
  have bound := longestMatch_le commands args
  simp only [CommandTree.find, Trie.follow_spec, invariant.matched_eq, List.length_take]
  rw [Nat.min_eq_left bound]

/-- What `find` is for. -/
structure FindSpec (commands : List (Command H)) (tree : CommandTree H) (args : List Str)
    (result : CommandTreeNode H × List Str) : Prop where
  node : tree.rootNode.reach (args.take (longestMatch commands args)) = some result.1
  rest : result.2 = args.drop (longestMatch commands args)
  length_rest : result.2.length = args.length - longestMatch commands args

/-- `find` meets its purpose exactly when half of the arguments were matched. -/
theorem find_spec_iff (wellFormed : ∀ command ∈ commands, IsCommandPath command.path)
    (inserted : CommandTree.empty.insertAll commands = (tree, none)) (args : List Str) :
    FindSpec commands tree args (tree.find args) ↔
      args.length = 2 * longestMatch commands args := by
  have invariant := treeInvariant_insertAll wellFormed inserted
  have bound := longestMatch_le commands args
  constructor
  · intro spec
    have size := spec.length_rest
    rw [find_rest invariant, List.length_drop] at size
    omega
  · intro half
    refine ⟨find_node invariant args, ?_, ?_⟩
    · rw [find_rest invariant]
      exact congrArg (args.drop ·) (by omega)
    · rw [find_rest invariant, List.length_drop]
      omega

private def listCommand : Command Unit := { path := "list".toList, usage := [], handler := some () }

/-- One argument matched, two left over: the argument after the command word is lost. -/
theorem find_spec_fails :
    CommandTree.empty.insertAll [listCommand] = (runInserts CommandTree.empty [listCommand], none) ∧
      ¬ FindSpec [listCommand] (runInserts CommandTree.empty [listCommand])
        ["list".toList, "-v".toList, "tank".toList]
        ((runInserts CommandTree.empty [listCommand]).find
          ["list".toList, "-v".toList, "tank".toList]) := by
  refine ⟨rfl, fun spec => ?_⟩
  exact absurd spec.rest (by decide)

theorem find_spec_iff_listCommand :
    FindSpec [listCommand] (runInserts CommandTree.empty [listCommand])
        ["list".toList, "-v".toList]
        ((runInserts CommandTree.empty [listCommand]).find ["list".toList, "-v".toList]) ↔
      ["list".toList, "-v".toList].length =
        2 * longestMatch [listCommand] ["list".toList, "-v".toList] :=
  find_spec_iff
    (by
      intro command member
      rw [List.mem_singleton.mp member]
      exact ⟨["list".toList], by decide, by decide⟩)
    (by rfl) _

end Nihil.Cli

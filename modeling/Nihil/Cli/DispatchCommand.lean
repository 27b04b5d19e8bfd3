/-
Module: Nihil.Cli.DispatchCommand
Layer: Cli
Purpose: dispatch_command, and the arguments it calls a handler with. `argv` is the list of the `argc`
  argument strings; a pointer into it is the list of the strings from there on. The handler should get its
  own command word and every argument after it. It gets them when exactly half of the arguments were
  matched, or when there is one argument in all, because the number of arguments is computed from the range
  that `command_tree::find` returns.
Imports: Nihil.Cli.CommandTreeFind, Nihil.Cli.CommandTreeRegistration
Trusted boundary: `exec`, the behaviour of the handlers.
Main exports: dispatchCommand, matchedCommand, DispatchSpec, dispatchCommand_calls, dispatch_spec_iff
-/
import Nihil.Cli.CommandTreeFind
import Nihil.Cli.CommandTreeRegistration

namespace Nihil.Cli

open Nihil.Library

variable {H : Type} (exec : H → Int → List Str → HandlerExit)

/-- `print_commands`: the paths of the commands directly below a node. -/
def printCommands (node : CommandTreeNode H) (process : ProcessState H) : ProcessState H :=
  node.directChildren.foldl
    (fun process child => process.println ("  ".toList ++ child.command.path)) process

/-- The number of arguments passed on to the command, from the length of the range `find` returned. -/
def handlerArgc (argc nrest : Int) : Int :=
  -- Keep the first argument, because getopt() wants it
  if nrest < argc then nrest + 1 else nrest

/-- `dispatch_command`. The first component is the exit status, or the exception that leaves the function:
a duplicate command in the registry, or an exception of the handler that is not a usage_error. -/
def dispatchCommand (registry : List (Command H)) (argv : List Str) (process : ProcessState H) :
    Except Str Int × ProcessState H :=
  let argc : Int := argv.length
  let process := { process with optreset := 1, optind := 1 }
  match buildCommandTree registry with
  | .error thrown => (.error thrown.what, process)
  | .ok tree =>
      let (node, rest) := tree.find argv
      let command := CommandTreeNode.command node
      let oldProgname := process.progname
      let process := { process with
        progname := some (oldProgname.getD [] ++ " ".toList ++ command.path) }
      let nrest := handlerArgc argc rest.length
      let (ret, process) := command.invoke exec nrest (argv.drop (argc - nrest).toNat) process
      -- progname_guard: restore the old name, also when the handler threw
      let process := { process with progname := oldProgname <|> process.progname }
      match ret with
      | .error thrown => (.error thrown, process)
      | .ok (.ok status) => (.ok status, process)
      | .ok (.error err) =>
          if err.condition = some .incompleteCommand then
            let process := process.println (process.progname.getD [] ++ ": usage:".toList)
            (.ok exUsage, printCommands node process)
          else
            (.ok 1, process.println err.fullStr)

/-- Printing leaves the record of handler calls alone. -/
theorem calls_printCommands (node : CommandTreeNode H) (process : ProcessState H) :
    (printCommands node process).calls = process.calls := by
  unfold printCommands
  induction node.directChildren generalizing process with
  | nil => rfl
  | cons child children ih => rw [List.foldl_cons, ih, ProcessState.calls_println]

/-- The registered command at the longest match, if one was registered for exactly these words. -/
def matchedCommand (registry : List (Command H)) (argv : List Str) : Option (Command H) :=
  registry.find? fun command => command.words = argv.take (longestMatch registry argv)

/-- The node reached holds the matched command or, where none was registered, a stub. -/
theorem Registered.matchedCommand_eq {registry : List (Command H)} {tree : CommandTree H}
    (registered : Registered registry tree) {argv : List Str} {node : CommandTreeNode H}
    (reached : tree.rootNode.reach (argv.take (longestMatch registry argv)) = some node) :
    (∃ command, matchedCommand registry argv = some command ∧ node.value = command) ∨
      (matchedCommand registry argv = none ∧ node.value.invocable = false) := by
  have label := Trie.label_eq_some_iff.mpr ⟨node, reached, rfl⟩
  cases found : matchedCommand registry argv with
  | some command =>
      have words : command.words = argv.take (longestMatch registry argv) := by
        simpa using List.find?_some found
      have atPath := registered.atPath command (List.mem_of_find?_eq_some found)
      rw [words, label] at atPath
      exact Or.inl ⟨command, rfl, Option.some.inj atPath⟩
  | none =>
      refine Or.inr ⟨rfl, registered.elsewhere _ _ label fun command member words => ?_⟩
      have none_matches := List.find?_eq_none.mp found command member
      simp [words] at none_matches

/-- What `dispatch_command` is for: an invocable command gets its last word and all the arguments after it,
once; without one no handler runs and the status is `EX_USAGE`. -/
def DispatchSpec (registry : List (Command H)) (argv : List Str) (process : ProcessState H)
    (result : Except Str Int × ProcessState H) : Prop :=
  let k := longestMatch registry argv
  match (matchedCommand registry argv).bind Command.handler with
  | some handler =>
      let argc' : Int := argv.length - k + 1
      let argv' := argv.drop (k - 1)
      1 ≤ k ∧
        result.2.calls = process.calls ++ [{ handler := handler, argc := argc', argv := argv' }] ∧
        ∃ status, exec handler argc' argv' = .returned status ∧ result.1 = .ok status
  | none => result.2.calls = process.calls ∧ result.1 = .ok exUsage

/-- Handlers that return normally, whatever they are called with. -/
def HandlersReturn (registry : List (Command H)) : Prop :=
  ∀ command ∈ registry, ∀ handler, command.handler = some handler →
    ∀ argc argv, ∃ status, exec handler argc argv = .returned status

variable {exec}

/-- The one handler call of a dispatch, or the lack of it, and the exit status. -/
theorem dispatchCommand_calls {registry : List (Command H)} (distinct : DistinctCommands registry)
    (returns : HandlersReturn exec registry) (argv : List Str) (process : ProcessState H) :
    match (matchedCommand registry argv).bind Command.handler with
    | some handler =>
        let argc' := handlerArgc argv.length (longestMatch registry argv)
        let argv' := argv.drop (argv.length - argc').toNat
        (dispatchCommand exec registry argv process).2.calls =
            process.calls ++ [{ handler := handler, argc := argc', argv := argv' }] ∧
          ∃ status, exec handler argc' argv' = .returned status ∧
            (dispatchCommand exec registry argv process).1 = .ok status
    | none =>
        (dispatchCommand exec registry argv process).2.calls = process.calls ∧
          (dispatchCommand exec registry argv process).1 = .ok exUsage := by
  obtain ⟨tree, inserted, _⟩ :=
    insertAll_distinct treeInvariant_empty distinct.wellFormed distinct.distinct
  have invariant := treeInvariant_insertAll distinct.wellFormed inserted
  have registered := registered_of_treeInvariant distinct invariant
  have reached := find_node invariant argv
  have build : buildCommandTree registry = .ok tree := by rw [buildCommandTree, inserted]
  have restLength : (tree.find argv).2.length = longestMatch registry argv := by
    have bound := longestMatch_le registry argv
    rw [find_rest invariant, List.length_drop]
    omega
  cases found : tree.find argv with
  | mk node rest =>
      rw [found] at reached restLength
      simp only [dispatchCommand, build, found, restLength, CommandTreeNode.command, Command.invoke]
      rcases registered.matchedCommand_eq reached with ⟨command, matched, held⟩ | ⟨unmatched, stub⟩
      · rw [matched, held, Option.bind_some]
        cases handlerEq : command.handler with
        | none => simp [calls_printCommands]
        | some handler =>
            have member := List.mem_of_find?_eq_some matched
            obtain ⟨status, returned⟩ := returns command member handler handlerEq
              (handlerArgc argv.length (longestMatch registry argv))
              (argv.drop (argv.length - handlerArgc argv.length (longestMatch registry argv)).toNat)
            simp [returned]
      · have noHandler : node.value.handler = none := by
          simpa [Command.invocable] using stub
        simp [unmatched, noHandler, calls_printCommands]

/-- A matched command has at least one word, so at least one argument was matched. -/
theorem DistinctCommands.longestMatch_pos {registry : List (Command H)}
    (distinct : DistinctCommands registry) {argv : List Str} {command : Command H}
    (matched : matchedCommand registry argv = some command) : 1 ≤ longestMatch registry argv := by
  by_contra zero
  have words : command.words = argv.take (longestMatch registry argv) := by
    simpa using List.find?_some matched
  have member := List.mem_of_find?_eq_some matched
  have joined := (distinct.wellFormed command member).words_spec.2
  rw [words, Nat.lt_one_iff.mp (Nat.lt_of_not_le zero)] at joined
  exact distinct.nonempty command member joined.symm

/-- The number of arguments that is computed from the matched ones instead of the others is right if half
of the arguments were matched, or if the one argument there is was. -/
theorem handlerArgc_eq_iff {argc k : Nat} (positive : 1 ≤ k) (bound : k ≤ argc) :
    handlerArgc argc k = (argc : Int) - k + 1 ↔ argc = 2 * k ∨ argc = 1 := by
  unfold handlerArgc
  split <;> omega

/-- `dispatch_command` meets its purpose exactly when no invocable command was matched, half of the
arguments were matched, or there is a single argument. -/
theorem dispatch_spec_iff {registry : List (Command H)} (distinct : DistinctCommands registry)
    (returns : HandlersReturn exec registry) (argv : List Str) (process : ProcessState H) :
    DispatchSpec exec registry argv process (dispatchCommand exec registry argv process) ↔
      ((∀ command, matchedCommand registry argv = some command → command.invocable = false) ∨
        argv.length = 2 * longestMatch registry argv ∨ argv.length = 1) := by
  have calls := dispatchCommand_calls distinct returns argv process
  have bound := longestMatch_le registry argv
  unfold DispatchSpec
  cases matched : (matchedCommand registry argv).bind Command.handler with
  | none =>
      rw [matched] at calls
      refine ⟨fun _ => Or.inl fun command isMatched => ?_, fun _ => calls⟩
      rw [isMatched, Option.bind_some] at matched
      simp [Command.invocable, matched]
  | some handler =>
      rw [matched] at calls
      obtain ⟨command, isMatched, handlerEq⟩ := Option.bind_eq_some_iff.mp matched
      have invocable : ¬ ∀ command, matchedCommand registry argv = some command →
          command.invocable = false := by
        intro none_invocable
        have stub := none_invocable command isMatched
        simp [Command.invocable, handlerEq] at stub
      have positive := distinct.longestMatch_pos isMatched
      have argcEq := handlerArgc_eq_iff positive bound
      simp only [invocable, false_or]
      obtain ⟨calls, status, returned, result⟩ := calls
      constructor
      · rintro ⟨_, wanted, _⟩
        rw [calls, List.append_cancel_left_eq] at wanted
        exact argcEq.mp (congrArg HandlerCall.argc (List.head_eq_of_cons_eq wanted))
      · intro sizes
        have dropped : ((argv.length : Int) - (argv.length - longestMatch registry argv + 1)).toNat =
            longestMatch registry argv - 1 := by omega
        rw [argcEq.mpr sizes, dropped] at calls returned
        exact ⟨positive, calls, status, returned, result⟩

private def showCommand : Command Unit := { path := "show".toList, usage := [], handler := some () }

private def succeed (_ : Unit) (_ : Int) (_ : List Str) : HandlerExit := .returned 0

private def idle : ProcessState Unit :=
  { progname := some "prog".toList, optreset := 0, optind := 3, stderr := [], calls := [] }

/-- "show -v tank" reaches the handler of "show" as "-v tank". -/
theorem dispatch_spec_fails :
    ¬ DispatchSpec succeed [showCommand] ["show".toList, "-v".toList, "tank".toList] idle
      (dispatchCommand succeed [showCommand] ["show".toList, "-v".toList, "tank".toList] idle) := by
  have matched : (matchedCommand [showCommand] ["show".toList, "-v".toList, "tank".toList]).bind
      Command.handler = some () := by decide
  intro spec
  simp only [DispatchSpec, matched] at spec
  exact absurd spec.2.1 (by decide)

theorem dispatch_spec_iff_showCommand :
    DispatchSpec succeed [showCommand] ["show".toList, "-v".toList] idle
        (dispatchCommand succeed [showCommand] ["show".toList, "-v".toList] idle) ↔
      ((∀ command, matchedCommand [showCommand] ["show".toList, "-v".toList] = some command →
          command.invocable = false) ∨
        ["show".toList, "-v".toList].length =
          2 * longestMatch [showCommand] ["show".toList, "-v".toList] ∨
        ["show".toList, "-v".toList].length = 1) := by
  refine dispatch_spec_iff ⟨?_, by decide, by decide⟩ (fun _ _ _ _ _ _ => ⟨0, rfl⟩) _ _
  intro command member
  rw [List.mem_singleton.mp member]
  exact ⟨["show".toList], by decide, by decide⟩

end Nihil.Cli

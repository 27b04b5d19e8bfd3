/-
Module: Nihil.Cli.Command
Layer: Cli
Purpose: nihil::command. A command has a path, a usage line and, unless it is a stub, a handler. Handlers
  are code of the program that uses the library, so their type `H` is a parameter and what they do is a
  function `exec` from the arguments they are called with to the way the call ends. `ProcessState` is the
  state of the process that dispatching touches; it also records every handler call.
Imports: Nihil.Core.Error, Nihil.Library.Words
Trusted boundary: `exec`, the behaviour of the handlers.
Main exports: Command, Command.invocable, Command.invoke, HandlerExit, HandlerCall, ProcessState,
  IsCommandPath, Command.words
-/
import Nihil.Core.Error
import Nihil.Library.Words

namespace Nihil.Cli

open Nihil.Library

/-- `EX_USAGE` of sysexits.h. -/
def exUsage : Int := 64

/-- The ways a call of a handler ends: it returns an exit status, it throws usage_error, or it throws
something else. -/
inductive HandlerExit where
  | returned (status : Int)
  | usageError (what : Str)
  | exception (what : Str)
deriving DecidableEq, Repr

/-- nihil::command, with the handlers of the program drawn from `H`. -/
structure Command (H : Type) where
  path : Str
  usage : Str
  handler : Option H
deriving DecidableEq, Repr

/-- The constructor that creates a stub command. -/
def Command.stub {H : Type} (path : Str) : Command H :=
  { path := path, usage := [], handler := none }

/-- Test if a command can be invoked. -/
def Command.invocable {H : Type} (self : Command H) : Bool :=
  self.handler.isSome

@[simp] theorem Command.path_stub {H : Type} (path : Str) : (Command.stub path : Command H).path = path :=
  rfl

@[simp] theorem Command.invocable_stub {H : Type} (path : Str) :
    (Command.stub path : Command H).invocable = false := rfl

/-- One call of a handler, with the arguments it received. `argv` lists the strings from the pointer the
handler was given to the end of the argument vector. -/
structure HandlerCall (H : Type) where
  handler : H
  argc : Int
  argv : List Str
deriving DecidableEq, Repr

/-- The state of the process that dispatching a command reads or changes: the program name, the getopt(3)
variables, the lines written to the standard error stream and, for the record, the handler calls made. -/
structure ProcessState (H : Type) where
  progname : Option Str
  optreset : Int
  optind : Int
  stderr : List Str
  calls : List (HandlerCall H)
deriving DecidableEq, Repr

/-- `std::println(std::cerr, ...)`. -/
def ProcessState.println {H : Type} (self : ProcessState H) (line : Str) : ProcessState H :=
  { self with stderr := self.stderr ++ [line] }

@[simp] theorem ProcessState.calls_println {H : Type} (self : ProcessState H) (line : Str) :
    (self.println line).calls = self.calls := rfl

variable {H : Type} (exec : H → Int → List Str → HandlerExit)

/-- `command::invoke`. The outer `Except` is a C++ exception, the inner one the std::expected that is
returned. -/
def Command.invoke (self : Command H) (argc : Int) (argv : List Str) (process : ProcessState H) :
    Except Str (Except Error Int) × ProcessState H :=
  match self.handler with
  | none => (.ok (.error (Error.ofErrc .incompleteCommand)), process)
  | some handler =>
      let process := { process with
        calls := process.calls ++ [{ handler := handler, argc := argc, argv := argv }] }
      match exec handler argc argv with
      | .returned status => (.ok (.ok status), process)
      | .usageError what =>
          let process := process.println what
          let process := process.println
            ("usage: ".toList ++ self.path ++ " ".toList ++ self.usage)
          (.ok (.ok exUsage), process)
      | .exception what => (.error what, process)

/-- The words of a command's path, `path() | std::views::split(' ')`. -/
def Command.words {H : Type} (self : Command H) : List Str :=
  splitWords ' ' self.path

/-- A path made of non-empty words joined by single spaces. -/
def IsCommandPath (path : Str) : Prop :=
  ∃ words, (∀ word ∈ words, IsWord ' ' word) ∧ path = joinWords ' ' words

/-- The words of a well-formed path are the ones it was joined from. -/
theorem IsCommandPath.words_spec {H : Type} {command : Command H} (wellFormed : IsCommandPath command.path) :
    (∀ word ∈ command.words, IsWord ' ' word) ∧ joinWords ' ' command.words = command.path := by
  obtain ⟨words, areWords, joined⟩ := wellFormed
  have split : command.words = words := by
    rw [Command.words, joined, splitWords_joinWords areWords]
  rw [split]
  exact ⟨areWords, joined.symm⟩

end Nihil.Cli

/-
Module: Nihil.Posix.Spawn
Layer: Posix
Purpose: The actions of spawn and what they do to descriptor tables. In the parent each make function opens
  a pipe or a file at whatever numbers are free; the child gets a copy of the table, and there every action
  duplicates its own end to the target number and closes the numbers it was opened at. It closes them also
  when one of them is the target.
Imports: Nihil.Library.DescriptorTable
Trusted boundary: the calls of the kernel are the operations of the descriptor table.
Main exports: OpenFile, FdPipeBase, FdFile, SpawnAction, Made, Parent, Parent.Step, Parent.Reachable,
  runInChild, runActions
-/
import Mathlib.Data.List.Basic
import Mathlib.Logic.Relation
import Nihil.Library.DescriptorTable

namespace Nihil.Posix

open Nihil.Library

/-- What a descriptor can refer to. Pipes and files are told apart by a serial number. -/
inductive OpenFile where
  | readEnd (serial : Nat)
  | writeEnd (serial : Nat)
  | file (serial : Nat)
  | inherited (serial : Nat)
deriving DecidableEq, Repr

/-! ### The actions -/

/-- `fd_pipe_base`, with the numbers its two fd objects own. -/
structure FdPipeBase where
  fdno : Nat
  childFd : Nat
  parentFd : Nat
deriving DecidableEq, Repr

/-- The constructor of `fd_read_pipe`: the reading side is the child's. -/
def fdReadPipe (fdno readFd writeFd : Nat) : FdPipeBase :=
  { fdno := fdno, childFd := readFd, parentFd := writeFd }

/-- The constructor of `fd_write_pipe`: the writing side is the child's. -/
def fdWritePipe (fdno readFd writeFd : Nat) : FdPipeBase :=
  { fdno := fdno, childFd := writeFd, parentFd := readFd }

/-- `fd_file`. -/
structure FdFile where
  fdno : Nat
  fileFd : Nat
deriving DecidableEq, Repr

/-- An action of spawn. A capture does in the child what its pipe does. -/
inductive SpawnAction where
  | fdReadPipe (pipe : FdPipeBase)
  | fdWritePipe (pipe : FdPipeBase)
  | fdCapture (pipe : FdPipeBase)
  | fdFile (file : FdFile)
deriving DecidableEq, Repr

namespace SpawnAction

/-- The target number. -/
def fdno : SpawnAction → Nat
  | .fdReadPipe pipe => pipe.fdno
  | .fdWritePipe pipe => pipe.fdno
  | .fdCapture pipe => pipe.fdno
  | .fdFile file => file.fdno

/-- The number of the child's side. -/
def childFd : SpawnAction → Nat
  | .fdReadPipe pipe => pipe.childFd
  | .fdWritePipe pipe => pipe.childFd
  | .fdCapture pipe => pipe.childFd
  | .fdFile file => file.fileFd

/-- The numbers the action owns. -/
def held : SpawnAction → List Nat
  | .fdReadPipe pipe => [pipe.childFd, pipe.parentFd]
  | .fdWritePipe pipe => [pipe.childFd, pipe.parentFd]
  | .fdCapture pipe => [pipe.childFd, pipe.parentFd]
  | .fdFile file => [file.fileFd]

end SpawnAction

/-! ### In the child -/

/-- `fd_pipe_base::run_in_child`; a failed dup2 ends the child. -/
def FdPipeBase.runInChild (self : FdPipeBase) (table : DescriptorTable OpenFile) :
    Option (DescriptorTable OpenFile) :=
  match table.dup2 self.childFd self.fdno with
  | none => none
  | some table => some ((table.close self.parentFd).close self.childFd)

/-- `fd_file::run_in_child`. -/
def FdFile.runInChild (self : FdFile) (table : DescriptorTable OpenFile) :
    Option (DescriptorTable OpenFile) :=
  match table.dup2 self.fileFd self.fdno with
  | none => none
  | some table => some (table.close self.fileFd)

/-- `run_in_child` of an action. -/
def SpawnAction.runInChild : SpawnAction → DescriptorTable OpenFile → Option (DescriptorTable OpenFile)
  | .fdReadPipe pipe, table => pipe.runInChild table
  | .fdWritePipe pipe, table => pipe.runInChild table
  | .fdCapture pipe, table => pipe.runInChild table
  | .fdFile file, table => file.runInChild table

/-- The child's part of `spawn`: run_in_child of all actions in order. -/
def runActions : List SpawnAction → DescriptorTable OpenFile → Option (DescriptorTable OpenFile)
  | [], table => some table
  | action :: actions, table =>
      match action.runInChild table with
      | none => none
      | some table => runActions actions table

/-! ### In the parent -/

/-- An action that was made, with the open file of the child's side. -/
structure Made where
  action : SpawnAction
  childFile : OpenFile
deriving DecidableEq, Repr

/-- The parent: its descriptor table, the actions it holds, and the next serial number. -/
structure Parent where
  table : DescriptorTable OpenFile
  made : List Made := []
  serial : Nat := 0

namespace Parent

/-- The numbers owned by the actions. -/
def held (self : Parent) : List Nat :=
  self.made.flatMap (·.action.held)

/-- Call pipe() and make an action of the two numbers. -/
def makePipe (self : Parent) (make : Nat → Nat → Made) : Parent :=
  let opened := self.table.openFile (.readEnd self.serial)
  let piped := opened.2.openFile (.writeEnd self.serial)
  { table := piped.2, made := self.made ++ [make opened.1 piped.1], serial := self.serial + 1 }

/-- `make_fd_read_pipe`, when pipe() succeeds. -/
def makeFdReadPipe (self : Parent) (fdno : Nat) : Parent :=
  self.makePipe fun readFd writeFd =>
    ⟨.fdReadPipe (fdReadPipe fdno readFd writeFd), .readEnd self.serial⟩

/-- `make_fd_write_pipe`. -/
def makeFdWritePipe (self : Parent) (fdno : Nat) : Parent :=
  self.makePipe fun readFd writeFd =>
    ⟨.fdWritePipe (fdWritePipe fdno readFd writeFd), .writeEnd self.serial⟩

/-- `make_capture`. -/
def makeCapture (self : Parent) (fdno : Nat) : Parent :=
  self.makePipe fun readFd writeFd =>
    ⟨.fdCapture (fdWritePipe fdno readFd writeFd), .writeEnd self.serial⟩

/-- `make_fd_file`, when open() succeeds. -/
def makeFdFile (self : Parent) (fdno : Nat) : Parent :=
  let opened := self.table.openFile (.file self.serial)
  { table := opened.2, made := self.made ++ [⟨.fdFile ⟨fdno, opened.1⟩, .file self.serial⟩],
    serial := self.serial + 1 }

/-- What the parent does before it spawns: it makes actions, and otherwise changes its table as it likes,
but not at the numbers that the actions own. -/
inductive Step : Parent → Parent → Prop where
  | makeFdReadPipe (parent : Parent) (fdno : Nat) : Step parent (parent.makeFdReadPipe fdno)
  | makeFdWritePipe (parent : Parent) (fdno : Nat) : Step parent (parent.makeFdWritePipe fdno)
  | makeCapture (parent : Parent) (fdno : Nat) : Step parent (parent.makeCapture fdno)
  | makeFdFile (parent : Parent) (fdno : Nat) : Step parent (parent.makeFdFile fdno)
  | other (parent : Parent) (table : DescriptorTable OpenFile)
      (kept : ∀ fd ∈ parent.held, table.get fd = parent.table.get fd) :
      Step parent { parent with table := table }

/-- The parents that come about from a process with some descriptor table and no actions yet. -/
def Reachable (start : DescriptorTable OpenFile) (parent : Parent) : Prop :=
  Relation.ReflTransGen Step { table := start } parent

end Parent

end Nihil.Posix

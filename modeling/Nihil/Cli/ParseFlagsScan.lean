/-
Module: Nihil.Cli.ParseFlagsScan
Layer: Cli
Purpose: The option section of an argument vector, read without running anything. The options set is only
  asked which option a letter names and whether it takes an argument; that decides where every cluster,
  attached argument and detached argument begins and ends. Running the calls that were read, in order, is
  what posix_parse does (`optionLoop_eq_run`), so the shape of a command line and the effect of its options
  can be reasoned about one at a time.
Imports: Nihil.Cli.ParseFlags
Trusted boundary: none
Main exports: takesArgument, takesNext, Taken, Group, SectionEnd, scanCluster, scan, Group.run,
  SectionEnd.run, optionLoop_eq_run
-/
import Nihil.Cli.ParseFlags

namespace Nihil.Cli

variable {Flags : Type}

/-- Whether a letter is a flag that takes an argument. -/
def takesArgument (self : Options Flags) (c : Char) : Bool :=
  (self.option c).any OptionBase.hasArgument

/-- Whether a cluster ends with a flag that takes the next element as its argument. -/
def takesNext (self : Options Flags) : Str → Bool
  | [] => false
  | c :: letters => if takesArgument self c then letters.isEmpty else takesNext self letters

/-! ### The outer loop, one element at a time -/

/-- What the outer loop does after the loop over one cluster. -/
def resume (self : Options Flags) (rest : List Str) : ClusterExit Flags → Except Abort (Flags × List Str)
  | .finished ret => optionLoop self rest ret
  | .failed abort => .error abort
  | .wantsArgument opt ret =>
      match rest with
      | [] => .error (.ofText (opt.name.str ++ ": argument required".toList))
      | arg :: rest =>
          match opt.parseArg arg ret with
          | (ret, .ok ()) => optionLoop self rest ret
          | (_, .error abort) => .error (abort.named opt.name)

theorem optionLoop_cluster {self : Options Flags} {c : Char} (notDash : c ≠ '-') (letters : Str) (rest : List Str)
    (ret : Flags) :
    optionLoop self (('-' :: c :: letters) :: rest) ret =
      resume self rest (clusterLoop self (c :: letters) ret) := by
  rw [optionLoop]
  · cases clusterLoop self (c :: letters) ret with
    | finished _ => rfl
    | failed _ => rfl
    | wantsArgument opt ret => cases rest <;> rfl
  · simpa using notDash

/-! ### Groups -/

/-- An option that was given an argument: the rest of its own element, or the next element. -/
structure Taken (Flags : Type) where
  letter : Char
  opt : OptionBase Flags
  arg : Str
  attached : Bool

/-- One option element, with the argument its last option took from the next element, if it did: the
letters of the options without argument, with the options they name, and the option with an argument. -/
structure Group (Flags : Type) where
  calls : List (Char × OptionBase Flags)
  taken : Option (Taken Flags)

/-- Where the option section ends: at the end of the vector or an element that is not an option, behind
the terminator, at a letter that names no option, or at an option that lacks its argument. -/
inductive SectionEnd (Flags : Type) where
  | stopped (rest : List Str)
  | terminator (element : Str) (rest : List Str)
  | unknownOption (calls : List (Char × OptionBase Flags)) (letter : Char)
  | argumentRequired (calls : List (Char × OptionBase Flags)) (opt : OptionBase Flags)

/-- How the letters of a cluster end. -/
inductive ClusterEnd (Flags : Type) where
  | finished
  | attached (letter : Char) (opt : OptionBase Flags) (arg : Str)
  | wantsArgument (letter : Char) (opt : OptionBase Flags)
  | unknownOption (letter : Char)

/-- Read the letters of one cluster. -/
def scanCluster (self : Options Flags) : Str → List (Char × OptionBase Flags) × ClusterEnd Flags
  | [] => ([], .finished)
  | c :: letters =>
      match self.option c with
      | none => ([], .unknownOption c)
      | some opt =>
          if opt.hasArgument then
            ([], if letters = [] then .wantsArgument c opt else .attached c opt letters)
          else ((c, opt) :: (scanCluster self letters).1, (scanCluster self letters).2)

/-- Put a group in front of a section. -/
def prependGroup (group : Group Flags) (rest : List (Group Flags) × SectionEnd Flags) :
    List (Group Flags) × SectionEnd Flags :=
  (group :: rest.1, rest.2)

/-- Read the option section of an argument vector. -/
def scan (self : Options Flags) : List Str → List (Group Flags) × SectionEnd Flags
  | [] => ([], .stopped [])
  | arg1 :: rest =>
      match arg1 with
      | '-' :: '-' :: _ => ([], .terminator arg1 rest)
      | '-' :: c :: letters =>
          match scanCluster self (c :: letters) with
          | (calls, .finished) => prependGroup ⟨calls, none⟩ (scan self rest)
          | (calls, .attached letter opt arg) =>
              prependGroup ⟨calls, some ⟨letter, opt, arg, true⟩⟩ (scan self rest)
          | (calls, .unknownOption letter) => ([], .unknownOption calls letter)
          | (calls, .wantsArgument letter opt) =>
              match rest with
              | [] => ([], .argumentRequired calls opt)
              | arg :: rest => prependGroup ⟨calls, some ⟨letter, opt, arg, false⟩⟩ (scan self rest)
      | _ => ([], .stopped (arg1 :: rest))

/-! ### Running what was read -/

/-- Run parse() of the options of the letters. -/
def runCalls : List (Char × OptionBase Flags) → Flags → Except Abort Flags
  | [], ret => .ok ret
  | (_, opt) :: calls, ret =>
      match opt.parse ret with
      | (ret, .ok ()) => runCalls calls ret
      | (_, .error abort) => .error (abort.named opt.name)

/-- Run parse() of an option with its argument. -/
def Taken.run (self : Taken Flags) (ret : Flags) : Except Abort Flags :=
  match self.opt.parseArg self.arg ret with
  | (ret, .ok ()) => .ok ret
  | (_, .error abort) => .error (abort.named self.opt.name)

/-- Run the option at the end of a group, if it has one that took an argument. -/
def runTaken (taken : Option (Taken Flags)) (ret : Flags) : Except Abort Flags :=
  match taken with
  | none => .ok ret
  | some taken => taken.run ret

def Group.run (self : Group Flags) (ret : Flags) : Except Abort Flags :=
  (runCalls self.calls ret).bind (runTaken self.taken)

def runGroups (groups : List (Group Flags)) (ret : Flags) : Except Abort Flags :=
  groups.foldlM (fun ret group => group.run ret) ret

/-- What the end of the section does: it leaves the rest for the arguments, or an error. -/
def SectionEnd.run (self : SectionEnd Flags) (ret : Flags) : Except Abort (Flags × List Str) :=
  match self with
  | .stopped rest => .ok (ret, rest)
  | .terminator _ rest => .ok (ret, rest)
  | .unknownOption calls letter =>
      (runCalls calls ret).bind fun _ => .error (.ofText ('-' :: letter :: ": unknown option".toList))
  | .argumentRequired calls opt =>
      (runCalls calls ret).bind fun _ => .error (.ofText (opt.name.str ++ ": argument required".toList))

/-- The section that was read, run from its first group to its end. -/
def runSection (read : List (Group Flags) × SectionEnd Flags) (ret : Flags) :
    Except Abort (Flags × List Str) :=
  (runGroups read.1 ret).bind read.2.run

/-- What the loop over the letters does after the options without argument. -/
def ClusterEnd.exit (self : ClusterEnd Flags) (ret : Flags) : ClusterExit Flags :=
  match self with
  | .finished => .finished ret
  | .attached letter opt arg =>
      match Taken.run ⟨letter, opt, arg, true⟩ ret with
      | .ok ret => .finished ret
      | .error abort => .failed abort
  | .wantsArgument _ opt => .wantsArgument opt ret
  | .unknownOption letter => .failed (.ofText ('-' :: letter :: ": unknown option".toList))

variable {self : Options Flags}

theorem clusterLoop_eq_run (letters : Str) (ret : Flags) :
    clusterLoop self letters ret =
      match runCalls (scanCluster self letters).1 ret with
      | .ok ret => (scanCluster self letters).2.exit ret
      | .error abort => .failed abort := by
  induction letters generalizing ret with
  | nil => rfl
  | cons c letters ih =>
      cases found : self.option c with
      | none => simp [clusterLoop, scanCluster, found, runCalls, ClusterEnd.exit]
      | some opt =>
          cases takes : opt.hasArgument with
          | true =>
              cases letters with
              | nil => simp [clusterLoop, scanCluster, found, takes, runCalls, ClusterEnd.exit]
              | cons d letters =>
                  simp only [clusterLoop, scanCluster, found, takes, if_true, runCalls,
                    ClusterEnd.exit, Taken.run, reduceCtorEq, if_false]
                  cases opt.parseArg (d :: letters) ret with
                  | mk after result => cases result <;> rfl
          | false =>
              simp only [clusterLoop, scanCluster, found, takes, Bool.false_eq_true, if_false, runCalls]
              cases opt.parse ret with
              | mk after result =>
                  cases result with
                  | error abort => rfl
                  | ok _ => exact ih after

theorem runSection_nil (ending : SectionEnd Flags) (ret : Flags) :
    runSection ([], ending) ret = ending.run ret := rfl

theorem runSection_prependGroup (group : Group Flags)
    (rest : List (Group Flags) × SectionEnd Flags) (ret : Flags) :
    runSection (prependGroup group rest) ret = (group.run ret).bind (runSection rest) := by
  simp only [runSection, prependGroup, runGroups, List.foldlM_cons]
  cases group.run ret <;> rfl

/-- One step of the outer loop: the calls of the cluster, then what its last letter asks for. -/
theorem optionLoop_scanCluster {c : Char} (notDash : c ≠ '-') (letters : Str) (rest : List Str)
    (ret : Flags) :
    optionLoop self (('-' :: c :: letters) :: rest) ret =
      (runCalls (scanCluster self (c :: letters)).1 ret).bind fun after =>
        resume self rest ((scanCluster self (c :: letters)).2.exit after) := by
  rw [optionLoop_cluster notDash, clusterLoop_eq_run]
  cases runCalls (scanCluster self (c :: letters)).1 ret <;> rfl

/-- The outer loop runs the option section as it was read. -/
theorem optionLoop_eq_run (argv : List Str) (ret : Flags) :
    optionLoop self argv ret = runSection (scan self argv) ret := by
  fun_induction scan self argv generalizing ret with
  | case1 => rfl
  | case2 => rfl
  | case3 rest c letters notDash calls scanned ih =>
      simp only [optionLoop_scanCluster notDash, scanned, runSection_prependGroup, Group.run]
      cases runCalls calls ret with
      | error abort => rfl
      | ok after => exact ih after
  | case4 rest c letters notDash calls letter opt arg scanned ih =>
      simp only [optionLoop_scanCluster notDash, scanned, runSection_prependGroup, Group.run]
      cases runCalls calls ret with
      | error abort => rfl
      | ok after =>
          simp only [Except.bind, ClusterEnd.exit, runTaken]
          cases Taken.run ⟨letter, opt, arg, true⟩ after with
          | error abort => rfl
          | ok final => exact ih final
  | case5 rest c letters notDash calls letter scanned =>
      simp only [optionLoop_scanCluster notDash, scanned, runSection_nil, SectionEnd.run]
      cases runCalls calls ret <;> rfl
  | case6 c letters notDash calls letter opt scanned =>
      simp only [optionLoop_scanCluster notDash, scanned, runSection_nil, SectionEnd.run]
      cases runCalls calls ret <;> rfl
  | case7 c letters notDash calls letter opt scanned arg rest ih =>
      simp only [optionLoop_scanCluster notDash, scanned, runSection_prependGroup, Group.run]
      cases runCalls calls ret with
      | error abort => rfl
      | ok after =>
          simp only [Except.bind, ClusterEnd.exit, resume, runTaken, Taken.run]
          cases opt.parseArg arg after with
          | mk final result =>
              cases result with
              | error abort => rfl
              | ok _ => exact ih final
  | case8 arg1 rest notDashes notFlag =>
      rw [optionLoop]
      · rfl
      · exact notDashes
      · exact notFlag

end Nihil.Cli

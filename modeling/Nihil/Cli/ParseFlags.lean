/-
Module: Nihil.Cli.ParseFlags
Layer: Cli
Purpose: parse_flags: flag names, the options of each type, the options set and posix_parse. A pointer to
  a member of `Flags` is a getter and a setter with their laws, and an option is a record of what its
  virtual functions do, so that posix_parse is generic in both. The defaults of the two parse() functions
  dereference the short flag of the option; when it has none that is undefined behaviour, which is an
  outcome of its own.
Imports: Nihil.Core.Error, Nihil.Core.Integer, Nihil.Library.OrderedMap
Trusted boundary: the global locale is the classic one.
Main exports: FlagName, Member, Abort, OptionBase, optionBool, optionString, optionInteger,
  optionOptional, Options, Options.addFlag, posixParse
-/
import Nihil.Core.Error
import Nihil.Core.Integer
import Nihil.Library.OrderedMap

namespace Nihil.Cli

open Nihil.Library

/-! ### Names, members and outcomes -/

/-- `flag_name`: a short flag, a long flag, both, or neither for an argument. -/
structure FlagName where
  shortFlag : Option Char := none
  longFlag : Option Str := none
deriving DecidableEq, Repr

/-- `flag_name::is_argument`. -/
def FlagName.isArgument (self : FlagName) : Bool :=
  self.shortFlag.isNone && self.longFlag.isNone

/-- `flag_name::str`, the flag as a human-readable string. -/
def FlagName.str (self : FlagName) : Str :=
  match self.shortFlag, self.longFlag with
  | some s, some l => '-' :: s :: ("|--".toList ++ l)
  | some s, none => ['-', s]
  | none, some l => "--".toList ++ l
  | none, none => []

/-- A pointer to a data member. -/
structure Member (Flags α : Type) where
  get : Flags → α
  set : α → Flags → Flags
  get_set : ∀ value instance', get (set value instance') = value
  set_get : ∀ instance', set (get instance') instance' = instance'
  set_set : ∀ value other instance', set value (set other instance') = set value instance'

/-- The member of a structure that has nothing else, such as `proxy::m_base_value`. -/
def Member.whole (α : Type) : Member α α where
  get := id
  set := fun value _ => value
  get_set := fun _ _ => rfl
  set_get := fun _ => rfl
  set_set := fun _ _ _ => rfl

/-- Why a parse ends without a result: an error is returned, or an absent short flag is dereferenced. -/
inductive Abort where
  | error (err : Error)
  | undefined
deriving DecidableEq, Repr

/-- `error(what)` as the result of a parse. -/
def Abort.ofText (what : Str) : Abort := .error (Error.ofText what)

/-- A failed parse() as posix_parse reports it: the error is prefixed with the name of the option. -/
def Abort.named (name : FlagName) : Abort → Abort
  | .error err => .ofText (name.str ++ ": ".toList ++ err.fullStr)
  | .undefined => .undefined

variable {Flags : Type}

/-! ### Options -/

/-- `option_base`. The two parse() functions take the instance and return it as they leave it. -/
structure OptionBase (Flags : Type) where
  name : FlagName
  argumentName : Option Str
  parse : Flags → Flags × Except Abort Unit
  parseArg : Str → Flags → Flags × Except Abort Unit
  required : Bool

/-- `option_base::has_argument`. -/
def OptionBase.hasArgument (self : OptionBase Flags) : Bool :=
  self.argumentName.isSome

/-- The outcome of the two defaults: an error that names the short flag. -/
def refuse (name : FlagName) (what : Str) : Except Abort Unit :=
  match name.shortFlag with
  | some c => .error (.ofText ("option -".toList ++ c :: what))
  | none => .error .undefined

/-- The constructors of `option_base`, with the defaults of its virtual functions. -/
def OptionBase.base (name : FlagName) (argumentName : Option Str) : OptionBase Flags where
  name := name
  argumentName := argumentName
  parse := fun instance' => (instance', refuse name " requires an argument".toList)
  parseArg := fun _ instance' => (instance', refuse name " does not take an argument".toList)
  required := true

/-- `option<Flags, bool>`. -/
def optionBool (name : FlagName) (ptr : Member Flags Bool) : OptionBase Flags :=
  { OptionBase.base name none with
    parse := fun instance' => (ptr.set true instance', .ok ()) }

/-- `option<Flags, std::string>`. The constructor without a name is the one at `flag_name()`. -/
def optionString (name : FlagName) (argumentName : Str) (ptr : Member Flags Str) : OptionBase Flags :=
  { OptionBase.base name (some argumentName) with
    parseArg := fun arg instance' => (ptr.set arg instance', .ok ()) }

/-- The value `option<Flags, Integer>::parse` stores, or its error. -/
def parseInteger (ty : IntegerType) (arg : Str) : Except Abort ty.Value :=
  let arg := skipws isCSpace arg
  if arg = [] then .error (.ofText "expected an integer".toList)
  else if !ty.signed ∧ arg.head? = some '-' then
    .error (.ofText "expected a non-negative integer".toList)
  else
    match extractInteger ty.signed arg with
    | none => .error (.ofText "expected an integer".toList)
    | some i =>
        if large : i > ty.max then .error (.ofText "value too large".toList)
        else if small : i < ty.min then .error (.ofText "value too small".toList)
        else .ok ⟨i, Int.not_lt.mp small, Int.not_lt.mp large⟩

/-- An argument that is not accepted is an error. -/
theorem parseInteger_error {ty : IntegerType} {arg : Str} {abort : Abort}
    (failed : parseInteger ty arg = .error abort) : ∃ err, abort = .error err := by
  unfold parseInteger at failed
  simp only at failed
  split_ifs at failed with empty sign
  · exact ⟨_, (Except.error.inj failed).symm⟩
  · exact ⟨_, (Except.error.inj failed).symm⟩
  · cases read : extractInteger ty.signed (skipws isCSpace arg) with
    | none =>
        simp only [read] at failed
        exact ⟨_, (Except.error.inj failed).symm⟩
    | some i =>
        simp only [read] at failed
        split_ifs at failed
        · exact ⟨_, (Except.error.inj failed).symm⟩
        · exact ⟨_, (Except.error.inj failed).symm⟩

/-- `option<Flags, Integer>`. -/
def optionInteger (ty : IntegerType) (name : FlagName) (argumentName : Str)
    (ptr : Member Flags ty.Value) : OptionBase Flags :=
  { OptionBase.base name (some argumentName) with
    parseArg := fun arg instance' =>
      match parseInteger ty arg with
      | .ok i => (ptr.set i instance', .ok ())
      | .error abort => (instance', .error abort) }

/-- `option<Flags, std::optional<Base>>`. `base` constructs `m_base`, the `option<proxy, Base>` under the
same name, and `p` is the value-initialised proxy it parses into. -/
def optionOptional {Base : Type} (base : FlagName → Str → Member Base Base → OptionBase Base) (p : Base)
    (name : FlagName) (argumentName : Str) (ptr : Member Flags (Option Base)) : OptionBase Flags :=
  { OptionBase.base name (some argumentName) with
    required := false
    parseArg := fun arg instance' =>
      match (base name argumentName (Member.whole Base)).parseArg arg p with
      | (p, .ok ()) => (ptr.set (some p) instance', .ok ())
      | (_, .error abort) => (instance', .error abort) }

/-! ### The options set -/

/-- `options`. -/
structure Options (Flags : Type) where
  /-- All flags, used for generating usage. -/
  allFlags : List (OptionBase Flags) := []
  /-- Flags which have a short option. -/
  shortFlags : OrderedMap Char (OptionBase Flags) := []
  /-- Flags which have a long option. -/
  longFlags : OrderedMap Str (OptionBase Flags) := []
  /-- Options which are arguments rather than flags. -/
  arguments : List (OptionBase Flags) := []

namespace Options

/-- `options::option`: fetch an option by its letter. -/
def option (self : Options Flags) (c : Char) : Option (OptionBase Flags) :=
  self.shortFlags.find? c

/-- `options::add_flag`. A letter or a long flag that is taken keeps the option it has. -/
def addFlag (self : Options Flags) (flag : OptionBase Flags) : Options Flags :=
  if flag.name.isArgument then { self with arguments := self.arguments ++ [flag] }
  else
    { self with
      allFlags := self.allFlags ++ [flag]
      shortFlags := match flag.name.shortFlag with
        | some c => (self.shortFlags.emplace c flag).1
        | none => self.shortFlags
      longFlags := match flag.name.longFlag with
        | some l => (self.longFlags.emplace l flag).1
        | none => self.longFlags }

/-- The constructor of `options`. -/
def ofFlags (flags : List (OptionBase Flags)) : Options Flags :=
  flags.foldl addFlag {}

end Options

/-! ### posix_parse -/

/-- How the loop over the letters of one element ends. -/
inductive ClusterExit (Flags : Type) where
  /-- All letters are eaten, or the rest of the element was the argument of the last one. -/
  | finished (ret : Flags)
  /-- The element ends with an option that takes its argument from the next element. -/
  | wantsArgument (opt : OptionBase Flags) (ret : Flags)
  | failed (abort : Abort)

/-- The inner loop of `posix_parse`, over the letters after the '-'. -/
def clusterLoop (self : Options Flags) : Str → Flags → ClusterExit Flags
  | [], ret => .finished ret
  | c :: arg1, ret =>
      match self.option c with
      | none => .failed (.ofText ('-' :: c :: ": unknown option".toList))
      | some opt =>
          if opt.hasArgument then
            if arg1 = [] then .wantsArgument opt ret
            else
              match opt.parseArg arg1 ret with
              | (ret, .ok ()) => .finished ret
              | (_, .error abort) => .failed (abort.named opt.name)
          else
            match opt.parse ret with
            | (ret, .ok ()) => clusterLoop self arg1 ret
            | (_, .error abort) => .failed (abort.named opt.name)

/-- The outer loop of `posix_parse`, over the elements of the option section. Returns the elements that
are left for the arguments. -/
def optionLoop (self : Options Flags) : List Str → Flags → Except Abort (Flags × List Str)
  | [], ret => .ok (ret, [])
  | arg1 :: rest, ret =>
      match arg1 with
      -- The special flag '--' terminates parsing; only the second character is looked at.
      | '-' :: '-' :: _ => .ok (ret, rest)
      | '-' :: c :: letters =>
          match clusterLoop self (c :: letters) ret with
          | .finished ret => optionLoop self rest ret
          | .failed abort => .error abort
          | .wantsArgument opt ret =>
              match rest with
              | [] => .error (.ofText (opt.name.str ++ ": argument required".toList))
              | arg :: rest =>
                  match opt.parseArg arg ret with
                  | (ret, .ok ()) => optionLoop self rest ret
                  | (_, .error abort) => .error (abort.named opt.name)
      -- An empty element, a '-' by itself and an element that does not start with '-' are arguments.
      | _ => .ok (ret, arg1 :: rest)

/-- The loop of `posix_parse` over the arguments. -/
def argumentLoop : List (OptionBase Flags) → List Str → Flags → Except Abort Flags
  | [], [], ret => .ok ret
  | argument :: _, [], ret =>
      if argument.required then .error (.ofText "not enough arguments".toList) else .ok ret
  | [], _ :: _, _ => .error (.ofText "too many arguments".toList)
  | argument :: arguments, arg :: rest, ret =>
      match argument.parseArg arg ret with
      | (ret, .ok ()) => argumentLoop arguments rest ret
      | (_, .error abort) => .error abort

/-- `posix_parse`. -/
def posixParse [Inhabited Flags] (self : Options Flags) (argv : List Str) : Except Abort Flags :=
  match optionLoop self argv default with
  | .error abort => .error abort
  | .ok (ret, rest) => argumentLoop self.arguments rest ret

end Nihil.Cli

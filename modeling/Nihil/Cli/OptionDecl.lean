/-
Module: Nihil.Cli.OptionDecl
Layer: Cli
Purpose: The options that a program can declare: a boolean flag, or an option for a string, an integer or an
  optional value of such a type, each with a member of `Flags`. What parse() of a declared option makes of
  its argument does not depend on the flags, and all it does to them is to set the member
  (`parseArg_toOption`). In the set of the declared options a letter is the first declaration that has it.
Imports: Nihil.Cli.ParseFlags
Trusted boundary: none
Main exports: ValueType, OptionDecl, OptionDecl.toOption, OptionDecl.given, optionsOf, declared, positionals,
  Member.Independent, option_optionsOf, arguments_optionsOf
-/
import Nihil.Cli.ParseFlags

namespace Nihil.Cli

open Nihil.Library

variable {Flags : Type}

/-! ### Members -/

/-- Two members do not overlap: it makes no difference which one is set first. -/
def Member.Independent {α β : Type} (p : Member Flags α) (q : Member Flags β) : Prop :=
  ∀ value other instance',
    p.set value (q.set other instance') = q.set other (p.set value instance')

theorem Member.Independent.symm {α β : Type} {p : Member Flags α} {q : Member Flags β}
    (independent : p.Independent q) : q.Independent p :=
  fun value other instance' => (independent other value instance').symm

/-- Setting a member leaves the others. -/
theorem Member.Independent.get_set {α β : Type} {p : Member Flags α} {q : Member Flags β}
    (independent : p.Independent q) (other : β) (instance' : Flags) :
    p.get (q.set other instance') = p.get instance' := by
  have same : q.set other instance' = p.set (p.get instance') (q.set other instance') := by
    rw [independent, p.set_get]
  rw [same, p.get_set]

/-! ### Types of values -/

/-- The types of the options that take an argument. -/
inductive ValueType where
  | string
  | integer (ty : IntegerType)
  | optional (base : ValueType)
deriving DecidableEq

namespace ValueType

def Value : ValueType → Type
  | .string => Str
  | .integer ty => ty.Value
  | .optional base => Option base.Value

/-- What a value-initialised object of the type holds. -/
def initial : (type : ValueType) → type.Value
  | .string => ([] : Str)
  | .integer ty => (default : ty.Value)
  | .optional _ => none

/-- `option<Flags, T>` for a type of values. -/
def option : (type : ValueType) → {Flags : Type} → FlagName → Str → Member Flags type.Value →
    OptionBase Flags
  | .string, _, name, argumentName, ptr => optionString name argumentName ptr
  | .integer ty, _, name, argumentName, ptr => optionInteger ty name argumentName ptr
  | .optional base, _, name, argumentName, ptr =>
      optionOptional (fun name argumentName ptr => base.option name argumentName ptr) base.initial name
        argumentName ptr

/-- The value that parse() makes of an argument, or its error. -/
def parse : (type : ValueType) → Str → Except Abort type.Value
  | .string, arg => .ok arg
  | .integer ty, arg => parseInteger ty arg
  | .optional base, arg => (base.parse arg).map some

/-- parse() sets the member or leaves the flags as they are, and its argument alone decides which. -/
theorem parseArg_option (type : ValueType) (name : FlagName) (argumentName : Str)
    (ptr : Member Flags type.Value) (arg : Str) (instance' : Flags) :
    (type.option name argumentName ptr).parseArg arg instance' =
      match type.parse arg with
      | .ok value => (ptr.set value instance', .ok ())
      | .error abort => (instance', .error abort) := by
  induction type generalizing Flags with
  | string => rfl
  | integer ty =>
      simp only [option, optionInteger, parse]
      cases parseInteger ty arg <;> rfl
  | optional base ih =>
      simp only [option, optionOptional, ih, parse]
      cases base.parse arg <;> rfl

theorem name_option (type : ValueType) (name : FlagName) (argumentName : Str)
    (ptr : Member Flags type.Value) : (type.option name argumentName ptr).name = name := by
  cases type <;> rfl

theorem argumentName_option (type : ValueType) (name : FlagName) (argumentName : Str)
    (ptr : Member Flags type.Value) :
    (type.option name argumentName ptr).argumentName = some argumentName := by
  cases type <;> rfl

/-- The errors of parse() are returned. -/
theorem parse_error {type : ValueType} {arg : Str} {abort : Abort}
    (refused : type.parse arg = .error abort) : ∃ err, abort = .error err := by
  induction type generalizing abort with
  | string => cases refused
  | integer ty => exact parseInteger_error refused
  | optional base ih =>
      rw [parse] at refused
      cases parsed : base.parse arg with
      | ok value =>
          rw [parsed] at refused
          cases refused
      | error other =>
          rw [parsed] at refused
          cases refused
          exact ih parsed

end ValueType

/-! ### Declarations -/

/-- A declared option: `option(name, &Flags::member)`, with the name of its argument if it has one. -/
inductive OptionDecl (Flags : Type) where
  | bool (name : FlagName) (ptr : Member Flags Bool)
  | value (type : ValueType) (name : FlagName) (argumentName : Str) (ptr : Member Flags type.Value)

namespace OptionDecl

def name : OptionDecl Flags → FlagName
  | .bool name _ => name
  | .value _ name _ _ => name

/-- The option that is constructed. -/
def toOption : OptionDecl Flags → OptionBase Flags
  | .bool name ptr => optionBool name ptr
  | .value type name argumentName ptr => type.option name argumentName ptr

/-- The type of the member. -/
def Stored : OptionDecl Flags → Type
  | .bool _ _ => Bool
  | .value type _ _ _ => type.Value

/-- The member that the option writes. -/
def ptr : (self : OptionDecl Flags) → Member Flags self.Stored
  | .bool _ ptr => ptr
  | .value _ _ _ ptr => ptr

def hasArgument : OptionDecl Flags → Bool
  | .bool _ _ => false
  | .value _ _ _ _ => true

/-- What the option stores when it is given an argument, or none. -/
def given : (self : OptionDecl Flags) → Option Str → Except Abort self.Stored
  | .bool _ _, none => .ok true
  | .bool name _, some _ =>
      match refuse name " does not take an argument".toList with
      | .ok () => .ok true
      | .error abort => .error abort
  | .value type name _ _, none =>
      match refuse name " requires an argument".toList with
      | .ok () => .ok type.initial
      | .error abort => .error abort
  | .value type _ _ _, some arg => type.parse arg

@[simp] theorem name_toOption (self : OptionDecl Flags) : self.toOption.name = self.name := by
  cases self with
  | bool name ptr => rfl
  | value type name argumentName ptr => exact type.name_option name argumentName ptr

@[simp] theorem hasArgument_toOption (self : OptionDecl Flags) :
    self.toOption.hasArgument = self.hasArgument := by
  cases self with
  | bool name ptr => rfl
  | value type name argumentName ptr =>
      rw [OptionBase.hasArgument, toOption, type.argumentName_option]
      rfl

theorem refuse_ne_ok (name : FlagName) (what : Str) : ∃ abort, refuse name what = .error abort := by
  unfold refuse
  cases name.shortFlag with
  | none => exact ⟨_, rfl⟩
  | some c => exact ⟨_, rfl⟩

/-- parse() without an argument. -/
theorem parse_toOption (self : OptionDecl Flags) (instance' : Flags) :
    self.toOption.parse instance' =
      match self.given none with
      | .ok stored => (self.ptr.set stored instance', .ok ())
      | .error abort => (instance', .error abort) := by
  cases self with
  | bool name ptr => rfl
  | value type name argumentName ptr =>
      have plain : (type.option name argumentName ptr).parse instance' =
          (instance', refuse name " requires an argument".toList) := by
        cases type <;> rfl
      obtain ⟨abort, refused⟩ := refuse_ne_ok name " requires an argument".toList
      have answer : (value type name argumentName ptr).given none = .error abort := by
        rw [given, refused]
      rw [answer, toOption, plain, refused]

/-- parse() with an argument. -/
theorem parseArg_toOption (self : OptionDecl Flags) (arg : Str) (instance' : Flags) :
    self.toOption.parseArg arg instance' =
      match self.given (some arg) with
      | .ok stored => (self.ptr.set stored instance', .ok ())
      | .error abort => (instance', .error abort) := by
  cases self with
  | bool name ptr =>
      obtain ⟨abort, refused⟩ := refuse_ne_ok name " does not take an argument".toList
      have plain : (optionBool name ptr).parseArg arg instance' =
          (instance', refuse name " does not take an argument".toList) := rfl
      have answer : (bool name ptr).given (some arg) = .error abort := by
        rw [given, refused]
      rw [answer, toOption, plain, refused]
  | value type name argumentName ptr =>
      rw [toOption, type.parseArg_option]
      have answer : (value type name argumentName ptr).given (some arg) = type.parse arg := rfl
      rw [answer]
      cases type.parse arg <;> rfl

/-- An option that is given an argument if it takes one does not dereference what is not there. -/
theorem given_error {self : OptionDecl Flags} {arg : Option Str} {abort : Abort}
    (takes : arg.isSome = self.hasArgument) (refused : self.given arg = .error abort) :
    ∃ err, abort = .error err := by
  cases self with
  | bool name ptr =>
      cases arg with
      | none => cases refused
      | some arg => cases takes
  | value type name argumentName ptr =>
      cases arg with
      | none => cases takes
      | some arg => exact ValueType.parse_error refused

/-- Two declarations write different members. -/
def Independent (self other : OptionDecl Flags) : Prop :=
  self.ptr.Independent other.ptr

end OptionDecl

/-! ### The set of the declared options -/

/-- `options(decls...)`. -/
def optionsOf (decls : List (OptionDecl Flags)) : Options Flags :=
  Options.ofFlags (decls.map OptionDecl.toOption)

/-- The declaration that a letter names. -/
def declared (decls : List (OptionDecl Flags)) (letter : Char) : Option (OptionDecl Flags) :=
  decls.find? fun decl => decl.name.shortFlag = some letter

/-- The declared arguments, in order. -/
def positionals (decls : List (OptionDecl Flags)) : List (OptionDecl Flags) :=
  decls.filter fun decl => decl.name.isArgument

theorem declared_cons (decl : OptionDecl Flags) (decls : List (OptionDecl Flags)) (letter : Char) :
    declared (decl :: decls) letter =
      if decl.name.shortFlag = some letter then some decl else declared decls letter := by
  unfold declared
  rw [List.find?_cons]
  by_cases named : decl.name.shortFlag = some letter <;> simp [named]

theorem positionals_cons (decl : OptionDecl Flags) (decls : List (OptionDecl Flags)) :
    positionals (decl :: decls) =
      if decl.name.isArgument then decl :: positionals decls else positionals decls :=
  List.filter_cons

theorem declared_some {decls : List (OptionDecl Flags)} {letter : Char} {decl : OptionDecl Flags}
    (found : declared decls letter = some decl) :
    decl ∈ decls ∧ decl.name.shortFlag = some letter ∧ decl.name.isArgument = false := by
  have short : decl.name.shortFlag = some letter := by
    simpa using List.find?_some found
  refine ⟨List.mem_of_find?_eq_some found, short, ?_⟩
  simp [FlagName.isArgument, short]

/-- A letter keeps the option it has. -/
theorem option_addFlag (self : Options Flags) (flag : OptionBase Flags) (letter : Char) :
    (self.addFlag flag).option letter =
      (self.option letter).or (if flag.name.shortFlag = some letter then some flag else none) := by
  unfold Options.addFlag Options.option
  cases short : flag.name.shortFlag with
  | none => split <;> simp
  | some c =>
      have notArgument : flag.name.isArgument = false := by simp [FlagName.isArgument, short]
      simp only [notArgument, Bool.false_eq_true, if_false, OrderedMap.find?_emplace, Option.some.injEq]
      by_cases same : letter = c
      · subst same
        rw [if_pos rfl, if_pos rfl]
        cases OrderedMap.find? letter self.shortFlags <;> rfl
      · rw [if_neg same, if_neg (Ne.symm same), Option.or_none]

theorem arguments_addFlag (self : Options Flags) (flag : OptionBase Flags) :
    (self.addFlag flag).arguments =
      self.arguments ++ if flag.name.isArgument then [flag] else [] := by
  unfold Options.addFlag
  split <;> simp

/-- A letter is the first declaration that has it. -/
theorem option_optionsOf (decls : List (OptionDecl Flags)) (letter : Char) :
    (optionsOf decls).option letter = (declared decls letter).map OptionDecl.toOption := by
  have added (self : Options Flags) :
      ((decls.map OptionDecl.toOption).foldl Options.addFlag self).option letter =
        (self.option letter).or ((declared decls letter).map OptionDecl.toOption) := by
    induction decls generalizing self with
    | nil => simp [declared]
    | cons decl decls ih =>
        rw [List.map_cons, List.foldl_cons, ih, option_addFlag, Option.or_assoc, OptionDecl.name_toOption,
          declared_cons]
        by_cases named : decl.name.shortFlag = some letter <;> simp [named]
  exact (added {}).trans (Option.none_or)

theorem option_eq_some_iff {decls : List (OptionDecl Flags)} {letter : Char} {opt : OptionBase Flags} :
    (optionsOf decls).option letter = some opt ↔
      ∃ decl, declared decls letter = some decl ∧ decl.toOption = opt := by
  rw [option_optionsOf, Option.map_eq_some_iff]

theorem arguments_optionsOf (decls : List (OptionDecl Flags)) :
    (optionsOf decls).arguments = (positionals decls).map OptionDecl.toOption := by
  have added (self : Options Flags) :
      ((decls.map OptionDecl.toOption).foldl Options.addFlag self).arguments =
        self.arguments ++ (positionals decls).map OptionDecl.toOption := by
    induction decls generalizing self with
    | nil => simp [positionals]
    | cons decl decls ih =>
        rw [List.map_cons, List.foldl_cons, ih, arguments_addFlag, OptionDecl.name_toOption,
          positionals_cons]
        by_cases argument : decl.name.isArgument = true <;> simp [argument]
  exact added {}

end Nihil.Cli

/-
Module: Nihil.Cli.ParseFlagsDefaults
Layer: Cli
Purpose: Where a run of posix_parse dereferences a short flag that is not there. The option section never
  does: it calls parse() of an option in the form that the type of the option overrides, so that it ends
  with a result or with an error that is returned (`optionLoop_returns`). The loop over the arguments calls
  parse() with a string whatever the type is, and for a boolean option without a name that is the default,
  which reads the short flag. So the behaviour is undefined exactly if a string gets to a boolean argument.
Imports: Nihil.Cli.ParseFlagsPositionals, Nihil.Cli.ParseFlagsInteger (parseInteger_ok_iff)
Trusted boundary: that of `extractInteger`
Main exports: Returns, Leaves, MeetsBool, ReachesBool, optionLoop_returns, argumentLoop_undefined_iff,
  posixParse_undefined_iff, posixParse_defined_iff
-/
import Nihil.Cli.ParseFlagsPositionals
import Nihil.Cli.ParseFlagsInteger

namespace Nihil.Cli

open Nihil.Library

/-! ### Outcomes that are returned -/

/-- The outcome is a result for which `value` holds, or an error is returned and `failure` holds. Undefined
behaviour is neither. -/
def Returns {α : Type} (outcome : Except Abort α) (value : α → Prop) (failure : Prop) : Prop :=
  match outcome with
  | .ok result => value result
  | .error (.error _) => failure
  | .error .undefined => False

/-- One computation after the other. -/
theorem Returns.bind {α β : Type} {outcome : Except Abort α} {next : α → Except Abort β} {value : α → Prop}
    {value' : β → Prop} {failure failure' : Prop} (first : Returns outcome value failure)
    (fails : failure → failure') (continues : ∀ result, value result → Returns (next result) value' failure') :
    Returns (outcome.bind next) value' failure' := by
  cases outcome with
  | ok result => exact continues result first
  | error abort =>
      cases abort with
      | error err => exact fails first
      | undefined => exact absurd first id

variable {Flags : Type}

/-! ### What reaches a boolean argument -/

/-- What the end of an option section leaves for the arguments. -/
def SectionEnd.left : SectionEnd Flags → Option (List Str)
  | .stopped rest => some rest
  | .terminator _ rest => some rest
  | .unknownOption _ _ => none
  | .argumentRequired _ _ => none

/-- The argument of the last option of a group, if it took one, is accepted. -/
def Group.Accepted (decls : List (OptionDecl Flags)) (self : Group Flags) : Prop :=
  ∀ taken ∈ self.taken, ∃ decl, declared decls taken.letter = some decl ∧
    ∃ stored, decl.given (some taken.arg) = .ok stored

/-- The option section of a vector has no error and leaves `rest` for the arguments: every letter names an
option, and every option that takes an argument has one and accepts it. -/
structure Leaves (decls : List (OptionDecl Flags)) (argv rest : List Str) : Prop where
  left : (scan (optionsOf decls) argv).2.left = some rest
  accepted : ∀ group ∈ (scan (optionsOf decls) argv).1, group.Accepted decls

/-- A string is in the place of a boolean argument, and the strings in front of it are accepted. -/
def MeetsBool (arguments : List (OptionDecl Flags)) (rest : List Str) : Prop :=
  ∃ (i : Nat) (arg : Str) (decl : OptionDecl Flags), rest[i]? = some arg ∧ arguments[i]? = some decl ∧
    decl.hasArgument = false ∧ Accepts (arguments.take i) (rest.take i)

/-- A string that the option section leaves gets to a boolean argument. -/
def ReachesBool (decls : List (OptionDecl Flags)) (argv : List Str) : Prop :=
  ∃ rest, Leaves decls argv rest ∧ MeetsBool (positionals decls) rest

theorem not_meetsBool_nil_right (arguments : List (OptionDecl Flags)) : ¬ MeetsBool arguments [] := by
  rintro ⟨i, arg, decl, string, -⟩
  cases string

theorem not_meetsBool_nil_left (rest : List Str) : ¬ MeetsBool ([] : List (OptionDecl Flags)) rest := by
  rintro ⟨i, arg, decl, -, place, -⟩
  cases place

theorem meetsBool_cons {decl : OptionDecl Flags} {arguments : List (OptionDecl Flags)} {arg : Str}
    {rest : List Str} :
    MeetsBool (decl :: arguments) (arg :: rest) ↔
      decl.hasArgument = false ∨
        (∃ stored, decl.given (some arg) = .ok stored) ∧ MeetsBool arguments rest := by
  constructor
  · rintro ⟨i, string, other, inside, place, plain, accepts⟩
    cases i with
    | zero =>
        cases place
        exact Or.inl plain
    | succ i =>
        rw [List.take_succ_cons, List.take_succ_cons, accepts_cons] at accepts
        exact Or.inr ⟨accepts.1, i, string, other, inside, place, plain, accepts.2⟩
  · rintro (plain | ⟨first, i, string, other, inside, place, plain, accepts⟩)
    · exact ⟨0, arg, decl, rfl, rfl, plain, fun _ _ _ string => nomatch string⟩
    · refine ⟨i + 1, string, other, inside, place, plain, ?_⟩
      rw [List.take_succ_cons, List.take_succ_cons, accepts_cons]
      exact ⟨first, accepts⟩

/-! ### The option section -/

/-- A letter of the options set is the letter of a declaration. -/
theorem names_optionsOf {decls : List (OptionDecl Flags)} {letter : Char} {opt : OptionBase Flags}
    {withArgument : Bool} (named : Names (optionsOf decls) letter opt withArgument) :
    ∃ decl, declared decls letter = some decl ∧ decl.toOption = opt ∧ decl.hasArgument = withArgument := by
  obtain ⟨found, takes⟩ := named
  obtain ⟨decl, named, rfl⟩ := option_eq_some_iff.mp found
  exact ⟨decl, named, rfl, decl.hasArgument_toOption.symm.trans takes⟩

/-- The letters in front of the place where a section breaks off. -/
def SectionEnd.calls : SectionEnd Flags → List (Char × OptionBase Flags)
  | .stopped _ => []
  | .terminator _ _ => []
  | .unknownOption calls _ => calls
  | .argumentRequired calls _ => calls

theorem scan_calls (self : Options Flags) (argv : List Str) :
    ∀ call ∈ (scan self argv).2.calls, Names self call.1 call.2 false := by
  fun_induction scan self argv with
  | case1 | case2 | case8 => exact fun call member => absurd member List.not_mem_nil
  | case3 rest c letters notDash calls scanned ih => exact ih
  | case4 rest c letters notDash calls letter opt arg scanned ih => exact ih
  | case5 rest c letters notDash calls letter scanned =>
      exact (ClusterSpec.of_scanned scanned).1
  | case6 c letters notDash calls letter opt scanned =>
      exact (ClusterSpec.of_scanned scanned).1
  | case7 c letters notDash calls letter opt scanned arg rest ih => exact ih

variable {decls : List (OptionDecl Flags)}

/-- A boolean option overrides the parse() that is called for it, which has no error. -/
theorem runCalls_returns {calls : List (Char × OptionBase Flags)}
    (named : ∀ call ∈ calls, Names (optionsOf decls) call.1 call.2 false) (ret : Flags) :
    Returns (runCalls calls ret) (fun _ => True) False := by
  induction calls generalizing ret with
  | nil => exact trivial
  | cons call calls ih =>
      obtain ⟨letter, opt⟩ := call
      obtain ⟨decl, -, rfl, plain⟩ := names_optionsOf (named (letter, opt) List.mem_cons_self)
      cases decl with
      | bool name ptr => exact ih (fun other later => named other (List.mem_cons_of_mem _ later)) _
      | value type name argumentName ptr => cases plain

/-- The other options override the parse() with an argument, and its errors are returned. -/
theorem runTaken_returns {group : Group Flags}
    (last : ∀ taken ∈ group.taken, Names (optionsOf decls) taken.letter taken.opt true) (ret : Flags) :
    Returns (runTaken group.taken ret) (fun _ => group.Accepted decls) (¬ group.Accepted decls) := by
  obtain ⟨calls, taken⟩ := group
  cases taken with
  | none =>
      intro taken member
      cases member
  | some taken =>
      obtain ⟨letter, opt, arg, attached⟩ := taken
      obtain ⟨decl, named, rfl, takes⟩ := names_optionsOf (last _ rfl)
      rw [runTaken, Taken.run, decl.parseArg_toOption]
      cases answer : decl.given (some arg) with
      | ok stored =>
          rintro _ ⟨⟩
          exact ⟨decl, named, stored, answer⟩
      | error abort =>
          have fits : (some arg).isSome = decl.hasArgument := takes.symm
          obtain ⟨err, rfl⟩ := OptionDecl.given_error fits answer
          intro accepted
          obtain ⟨other, named', stored, answer'⟩ := accepted _ rfl
          cases named.symm.trans named'
          cases answer.symm.trans answer'

theorem runGroups_returns {groups : List (Group Flags)}
    (lookedUp : ∀ group ∈ groups, group.LookedUp (optionsOf decls)) (ret : Flags) :
    Returns (runGroups groups ret) (fun _ => ∀ group ∈ groups, group.Accepted decls)
      (¬ ∀ group ∈ groups, group.Accepted decls) := by
  induction groups generalizing ret with
  | nil => exact fun group member => absurd member List.not_mem_nil
  | cons group groups ih =>
      obtain ⟨plain, last⟩ := lookedUp group List.mem_cons_self
      have rest := ih fun other later => lookedUp other (List.mem_cons_of_mem _ later)
      have split : (∀ other ∈ group :: groups, other.Accepted decls) ↔
          group.Accepted decls ∧ ∀ other ∈ groups, other.Accepted decls := List.forall_mem_cons
      have first : Returns (group.run ret) (fun _ => group.Accepted decls) (¬ group.Accepted decls) :=
        (runCalls_returns plain ret).bind False.elim fun after _ => runTaken_returns last after
      rw [runGroups, List.foldlM_cons, split]
      apply first.bind
      · exact fun refused both => refused both.1
      · intro after accepted
        rw [and_iff_right accepted]
        exact rest after

/-- The option section ends with a result, and then it leaves the strings that it should, or it returns an
error, and then it should leave none. -/
theorem optionLoop_returns (argv : List Str) (ret : Flags) :
    Returns (optionLoop (optionsOf decls) argv ret) (fun result => Leaves decls argv result.2)
      (∀ rest, ¬ Leaves decls argv rest) := by
  have lookedUp := (scan_spec (optionsOf decls) argv).1
  have plain := scan_calls (optionsOf decls) argv
  have broken : (scan (optionsOf decls) argv).2.left = none → ∀ rest, ¬ Leaves decls argv rest := by
    intro nothing rest leaves
    rw [leaves.left] at nothing
    cases nothing
  rw [optionLoop_eq_run, runSection]
  apply (runGroups_returns lookedUp ret).bind
  · exact fun refused rest leaves => refused leaves.accepted
  · intro after accepted
    cases ending : (scan (optionsOf decls) argv).2 with
    | stopped rest => exact ⟨by rw [ending]; rfl, accepted⟩
    | terminator element rest => exact ⟨by rw [ending]; rfl, accepted⟩
    | unknownOption calls letter =>
        rw [ending] at plain broken
        exact (runCalls_returns plain after).bind False.elim fun _ _ => broken rfl
    | argumentRequired calls opt =>
        rw [ending] at plain broken
        exact (runCalls_returns plain after).bind False.elim fun _ _ => broken rfl

/-! ### The loop over the arguments -/

/-- A boolean option without a name does not override the parse() that the loop over the arguments calls,
and the default reads the short flag. -/
theorem given_undefined_iff {decl : OptionDecl Flags} (argument : decl.name.isArgument = true) (arg : Str) :
    decl.given (some arg) = .error .undefined ↔ decl.hasArgument = false := by
  cases decl with
  | bool name ptr =>
      have absent := (Bool.and_eq_true_iff.mp argument).1
      have nameless : name.shortFlag = none := Option.isNone_iff_eq_none.mp absent
      have refused : refuse name " does not take an argument".toList = .error .undefined := by
        simp only [refuse, nameless]
      apply iff_of_true _ rfl
      simp only [OptionDecl.given, refused]
  | value type name argumentName ptr =>
      apply iff_of_false _ (by simp [OptionDecl.hasArgument])
      intro refused
      obtain ⟨err, returned⟩ := ValueType.parse_error refused
      cases returned

/-- The loop is undefined exactly if it gets to a boolean argument: induction on the strings, which are
stored one by one. -/
theorem argumentLoop_undefined_iff {arguments : List (OptionDecl Flags)}
    (nameless : ∀ decl ∈ arguments, decl.name.isArgument = true) (rest : List Str) (ret : Flags) :
    argumentLoop (arguments.map OptionDecl.toOption) rest ret = .error .undefined ↔
      MeetsBool arguments rest := by
  induction rest generalizing arguments ret with
  | nil =>
      apply iff_of_false _ (not_meetsBool_nil_right arguments)
      intro undefined
      cases arguments with
      | nil => cases undefined
      | cons decl arguments =>
          rw [List.map_cons, argumentLoop] at undefined
          split at undefined <;> cases undefined
  | cons arg rest ih =>
      cases arguments with
      | nil =>
          apply iff_of_false _ (not_meetsBool_nil_left (arg :: rest))
          intro undefined
          cases undefined
      | cons decl arguments =>
          -- a boolean argument ends the loop here; any other refuses its string or leaves the rest to it
          have undefined := given_undefined_iff (nameless decl List.mem_cons_self) arg
          rw [List.map_cons, argumentLoop_cons, meetsBool_cons, ← undefined]
          cases answer : decl.given (some arg) with
          | error abort => simp
          | ok stored =>
              have later := ih (fun other inside => nameless other (List.mem_cons_of_mem _ inside))
                (decl.ptr.set stored ret)
              simpa using later

/-! ### Whole runs -/

/-- The behaviour of posix_parse is undefined exactly if a string gets to a boolean argument. -/
theorem posixParse_undefined_iff [Inhabited Flags] (decls : List (OptionDecl Flags)) (argv : List Str) :
    posixParse (optionsOf decls) argv = .error .undefined ↔ ReachesBool decls argv := by
  have returns : Returns (optionLoop (optionsOf decls) argv default)
      (fun result => Leaves decls argv result.2) (∀ rest, ¬ Leaves decls argv rest) :=
    optionLoop_returns argv default
  unfold posixParse
  cases outcome : optionLoop (optionsOf decls) argv default with
  | error abort =>
      rw [outcome] at returns
      cases abort with
      | undefined => cases returns
      | error err =>
          apply iff_of_false
          · intro undefined
            cases undefined
          · rintro ⟨rest, leaves, -⟩
            exact returns rest leaves
  | ok result =>
      obtain ⟨ret, rest⟩ := result
      rw [outcome] at returns
      simp only [arguments_optionsOf]
      have nameless : ∀ decl ∈ positionals decls, decl.name.isArgument = true :=
        fun decl member => (List.mem_filter.mp member).2
      rw [argumentLoop_undefined_iff nameless]
      constructor
      · exact fun meets => ⟨rest, returns, meets⟩
      · rintro ⟨other, leaves, meets⟩
        cases returns.left.symm.trans leaves.left
        exact meets

/-- Every option that takes an argument accepts "0". -/
theorem given_zero {decl : OptionDecl Flags} (takes : decl.hasArgument = true) :
    ∃ stored, decl.given (some ['0']) = .ok stored := by
  have accepted (type : ValueType) : ∃ value, type.parse ['0'] = .ok value := by
    induction type with
    | string => exact ⟨_, rfl⟩
    | integer ty =>
        have numeral : IsNumeral ['0'] := by
          refine ⟨List.cons_ne_nil _ _, fun c member => ?_⟩
          rw [List.mem_singleton.mp member]
          rfl
        exact ⟨_, (parseInteger_ok_iff ty _ ⟨0, ty.zero_inRange⟩).mpr
          ⟨['0'], [], rfl, .plain numeral, stops_nil⟩⟩
    | optional base ih =>
        obtain ⟨value, parsed⟩ := ih
        exact ⟨some value, by rw [ValueType.parse, parsed]; rfl⟩
  cases decl with
  | bool name ptr => cases takes
  | value type name argumentName ptr => exact accepted type

/-- With a "0" for every argument there is one for the first boolean argument. -/
theorem meetsBool_zeros {arguments : List (OptionDecl Flags)}
    (boolean : ∃ decl ∈ arguments, decl.hasArgument = false) :
    MeetsBool arguments (List.replicate arguments.length ['0']) := by
  induction arguments with
  | nil =>
      obtain ⟨decl, member, -⟩ := boolean
      cases member
  | cons decl arguments ih =>
      rw [List.length_cons, List.replicate_succ, meetsBool_cons]
      cases takes : decl.hasArgument with
      | false => exact Or.inl rfl
      | true =>
          obtain ⟨other, member, plain⟩ := boolean
          rcases List.mem_cons.mp member with rfl | later
          · rw [takes] at plain
            cases plain
          · exact Or.inr ⟨given_zero takes, ih ⟨other, later, plain⟩⟩

/-- Elements "0" are no options, so all of them are left. -/
theorem leaves_zeros (count : Nat) :
    Leaves decls (List.replicate count ['0']) (List.replicate count ['0']) := by
  cases count with
  | zero => exact ⟨rfl, fun group member => absurd member List.not_mem_nil⟩
  | succ count => exact ⟨rfl, fun group member => absurd member List.not_mem_nil⟩

/-- For all declared options a run of posix_parse dereferences no absent short flag if and only if no string
gets to a boolean argument; and no run does, whatever the argument vector, if and only if no option without
a name is boolean. -/
theorem posixParse_defined_iff [Inhabited Flags] (decls : List (OptionDecl Flags)) :
    (∀ argv, posixParse (optionsOf decls) argv ≠ .error .undefined ↔ ¬ ReachesBool decls argv) ∧
      ((∀ argv, posixParse (optionsOf decls) argv ≠ .error .undefined) ↔
        ∀ decl ∈ decls, decl.name.isArgument = true → decl.hasArgument = true) := by
  have single (argv : List Str) :
      posixParse (optionsOf decls) argv ≠ .error .undefined ↔ ¬ ReachesBool decls argv :=
    not_congr (posixParse_undefined_iff decls argv)
  refine ⟨single, ?_⟩
  simp only [single]
  constructor
  · intro never decl member argument
    by_contra plain
    have boolean : ∃ decl ∈ positionals decls, decl.hasArgument = false :=
      ⟨decl, List.mem_filter.mpr ⟨member, argument⟩, Bool.eq_false_iff.mpr plain⟩
    exact never _ ⟨_, leaves_zeros (positionals decls).length, meetsBool_zeros boolean⟩
  · rintro takes argv ⟨rest, -, i, arg, decl, -, place, plain, -⟩
    obtain ⟨member, argument⟩ := List.mem_filter.mp (List.mem_of_getElem? place)
    rw [takes decl member argument] at plain
    cases plain

/-- One boolean option without a name, and one string. -/
theorem posixParse_defined_fails :
    posixParse (optionsOf [.bool {} (Member.whole Bool)]) ["x".toList] = .error .undefined := by
  decide

end Nihil.Cli

/-
Module: Nihil.Cli.ParseFlagsPositionals
Layer: Cli
Purpose: How posix_parse binds what the option section leaves to the declared arguments. The option section
  keeps every member that no flag writes (`optionLoop_keeps`). If the required arguments come first, the
  loop over the arguments succeeds exactly if there are enough strings, not too many, and each is accepted;
  then string number i is what argument number i holds, and the other arguments hold their defaults
  (`positional_binding`).
Imports: Nihil.Cli.ParseFlagsAccount, Nihil.Cli.OptionDecl
Trusted boundary: none
Main exports: RequiredFirst, requiredCount, Accepts, Bound, Keeps, optionLoop_keeps, argumentLoop_ok_iff,
  argumentLoop_stored, positional_binding
-/
import Mathlib.Data.List.Pairwise
import Nihil.Cli.ParseFlagsAccount
import Nihil.Cli.OptionDecl

namespace Nihil.Cli

variable {Flags : Type}

/-! ### What is promised -/

/-- Every required argument precedes every optional one. -/
def RequiredFirst (arguments : List (OptionDecl Flags)) : Prop :=
  arguments.Pairwise fun earlier later =>
    later.toOption.required = true → earlier.toOption.required = true

def requiredCount (arguments : List (OptionDecl Flags)) : Nat :=
  arguments.countP fun decl => decl.toOption.required

/-- Every string is accepted by the argument in its place. -/
def Accepts (arguments : List (OptionDecl Flags)) (rest : List Str) : Prop :=
  ∀ (i : Nat) (arg : Str) (decl : OptionDecl Flags), rest[i]? = some arg → arguments[i]? = some decl →
    ∃ stored, decl.given (some arg) = .ok stored

/-- Every string is what the argument in its place holds, and the other arguments hold what they held in
the value-initialised flags. -/
structure Bound [Inhabited Flags] (arguments : List (OptionDecl Flags)) (rest : List Str) (flags : Flags) :
    Prop where
  stored : ∀ (i : Nat) (arg : Str) (decl : OptionDecl Flags), rest[i]? = some arg →
    arguments[i]? = some decl → decl.given (some arg) = .ok (decl.ptr.get flags)
  unset : ∀ (i : Nat) (decl : OptionDecl Flags), rest.length ≤ i → arguments[i]? = some decl →
    decl.ptr.get flags = decl.ptr.get default

theorem accepts_cons {decl : OptionDecl Flags} {arguments : List (OptionDecl Flags)} {arg : Str}
    {rest : List Str} :
    Accepts (decl :: arguments) (arg :: rest) ↔
      (∃ stored, decl.given (some arg) = .ok stored) ∧ Accepts arguments rest := by
  constructor
  · intro accepts
    exact ⟨accepts 0 arg decl rfl rfl, fun i => accepts (i + 1)⟩
  · rintro ⟨first, others⟩ i other later string place
    cases i with
    | zero =>
        cases string
        cases place
        exact first
    | succ i => exact others i other later string place

/-! ### The option section keeps what no flag writes -/

/-- An option does not change what a member holds. -/
structure Keeps {α : Type} (member : Member Flags α) (opt : OptionBase Flags) : Prop where
  parse : ∀ instance', member.get (opt.parse instance').1 = member.get instance'
  parseArg : ∀ arg instance', member.get (opt.parseArg arg instance').1 = member.get instance'

/-- A declared option changes its own member only. -/
theorem keeps_toOption {α : Type} {member : Member Flags α} {decl : OptionDecl Flags}
    (independent : member.Independent decl.ptr) : Keeps member decl.toOption where
  parse := fun instance' => by
    rw [decl.parse_toOption]
    cases decl.given none with
    | ok stored => exact independent.get_set stored instance'
    | error abort => rfl
  parseArg := fun arg instance' => by
    rw [decl.parseArg_toOption]
    cases decl.given (some arg) with
    | ok stored => exact independent.get_set stored instance'
    | error abort => rfl

section

variable {α : Type} {member : Member Flags α}

theorem runCalls_keeps {calls : List (Char × OptionBase Flags)} (keeps : ∀ call ∈ calls, Keeps member call.2)
    {ret after : Flags} (ran : runCalls calls ret = .ok after) : member.get after = member.get ret := by
  induction calls generalizing ret with
  | nil =>
      cases ran
      rfl
  | cons call calls ih =>
      obtain ⟨c, opt⟩ := call
      have kept := (keeps (c, opt) List.mem_cons_self).parse ret
      rw [runCalls] at ran
      cases outcome : opt.parse ret with
      | mk next result =>
          rw [outcome] at ran kept
          cases result with
          | error abort => cases ran
          | ok _ =>
              have rest := ih (fun other later => keeps other (List.mem_cons_of_mem _ later)) ran
              exact rest.trans kept

theorem runTaken_keeps {taken : Option (Taken Flags)} (keeps : ∀ opt ∈ taken, Keeps member opt.opt)
    {ret after : Flags} (ran : runTaken taken ret = .ok after) : member.get after = member.get ret := by
  cases taken with
  | none =>
      cases ran
      rfl
  | some taken =>
      have kept := (keeps taken rfl).parseArg taken.arg ret
      rw [runTaken, Taken.run] at ran
      cases outcome : taken.opt.parseArg taken.arg ret with
      | mk next result =>
          rw [outcome] at ran kept
          cases result with
          | error abort => cases ran
          | ok _ =>
              cases ran
              exact kept

/-- Groups whose options keep a member keep it. -/
theorem runGroups_keeps {self : Options Flags} {groups : List (Group Flags)}
    (keeps : ∀ letter opt, self.option letter = some opt → Keeps member opt)
    (lookedUp : ∀ group ∈ groups, group.LookedUp self) {ret after : Flags}
    (ran : runGroups groups ret = .ok after) : member.get after = member.get ret := by
  induction groups generalizing ret with
  | nil =>
      cases ran
      rfl
  | cons group groups ih =>
      obtain ⟨plain, last⟩ := lookedUp group List.mem_cons_self
      have rest : ∀ other ∈ groups, other.LookedUp self :=
        fun other later => lookedUp other (List.mem_cons_of_mem _ later)
      rw [runGroups, List.foldlM_cons] at ran
      cases outcome : group.run ret with
      | error abort =>
          rw [outcome] at ran
          cases ran
      | ok next =>
          rw [outcome] at ran
          have later : member.get after = member.get next := ih rest ran
          rw [later]
          rw [Group.run] at outcome
          cases called : runCalls group.calls ret with
          | error abort =>
              rw [called] at outcome
              cases outcome
          | ok middle =>
              rw [called] at outcome
              have calls := runCalls_keeps
                (fun call inside => keeps call.1 call.2 (plain call inside).1) called
              have taken := runTaken_keeps
                (fun taken inside => keeps taken.letter taken.opt (last taken inside).1) outcome
              exact taken.trans calls

/-- The option section keeps a member that no declared flag writes. -/
theorem optionLoop_keeps {decls : List (OptionDecl Flags)}
    (independent : ∀ decl ∈ decls, decl.name.isArgument = false → member.Independent decl.ptr)
    {argv rest : List Str} {start ret : Flags}
    (parsed : optionLoop (optionsOf decls) argv start = .ok (ret, rest)) :
    member.get ret = member.get start := by
  have keeps : ∀ letter opt, (optionsOf decls).option letter = some opt → Keeps member opt := by
    intro letter opt found
    obtain ⟨decl, named, rfl⟩ := option_eq_some_iff.mp found
    obtain ⟨inside, -, flag⟩ := declared_some named
    exact keeps_toOption (independent decl inside flag)
  rw [optionLoop_eq_run] at parsed
  have spec := scan_spec (optionsOf decls) argv
  cases read : scan (optionsOf decls) argv with
  | mk groups ending =>
      rw [read] at parsed spec
      exact runGroups_keeps keeps spec.1 (runSection_ok parsed).1

end

/-! ### The loop over the arguments -/

/-- One step of the loop over declared arguments. -/
theorem argumentLoop_cons (decl : OptionDecl Flags) (arguments : List (OptionBase Flags)) (arg : Str)
    (rest : List Str) (ret : Flags) :
    argumentLoop (decl.toOption :: arguments) (arg :: rest) ret =
      match decl.given (some arg) with
      | .ok stored => argumentLoop arguments rest (decl.ptr.set stored ret)
      | .error abort => .error abort := by
  rw [argumentLoop, decl.parseArg_toOption]
  cases decl.given (some arg) <;> rfl

/-- A loop that succeeds stored its first string and went on. -/
theorem argumentLoop_cons_ok {decl : OptionDecl Flags} {arguments : List (OptionBase Flags)} {arg : Str}
    {rest : List Str} {ret flags : Flags}
    (success : argumentLoop (decl.toOption :: arguments) (arg :: rest) ret = .ok flags) :
    ∃ stored, decl.given (some arg) = .ok stored ∧
      argumentLoop arguments rest (decl.ptr.set stored ret) = .ok flags := by
  rw [argumentLoop_cons] at success
  cases answer : decl.given (some arg) with
  | error abort =>
      rw [answer] at success
      cases success
  | ok stored =>
      rw [answer] at success
      exact ⟨stored, rfl, success⟩

/-- Behind an optional argument nothing is required. -/
theorem requiredCount_eq_zero {decl : OptionDecl Flags} {arguments : List (OptionDecl Flags)}
    (ordered : RequiredFirst (decl :: arguments)) (optional : ¬ decl.toOption.required = true) :
    requiredCount arguments = 0 := by
  apply List.countP_eq_zero.mpr
  intro later member required
  exact optional ((List.pairwise_cons.mp ordered).1 later member required)

theorem requiredCount_cons (decl : OptionDecl Flags) (arguments : List (OptionDecl Flags)) :
    requiredCount (decl :: arguments) =
      requiredCount arguments + if decl.toOption.required then 1 else 0 :=
  List.countP_cons

theorem argumentLoop_ok_iff {arguments : List (OptionDecl Flags)} (ordered : RequiredFirst arguments)
    (rest : List Str) (ret : Flags) :
    (∃ flags, argumentLoop (arguments.map OptionDecl.toOption) rest ret = .ok flags) ↔
      requiredCount arguments ≤ rest.length ∧ rest.length ≤ arguments.length ∧ Accepts arguments rest := by
  induction rest generalizing arguments ret with
  | nil =>
      have accepts : Accepts arguments [] := fun _ _ _ string => nomatch string
      cases arguments with
      | nil => exact iff_of_true ⟨ret, rfl⟩ ⟨Nat.le_refl _, Nat.le_refl _, accepts⟩
      | cons decl arguments =>
          rw [List.map_cons, argumentLoop, requiredCount_cons]
          by_cases required : decl.toOption.required = true
          · rw [if_pos required, if_pos required]
            apply iff_of_false
            · rintro ⟨flags, success⟩
              cases success
            · rintro ⟨enough, -⟩
              exact absurd enough (Nat.not_succ_le_zero _)
          · rw [if_neg required, if_neg required, requiredCount_eq_zero ordered required]
            exact iff_of_true ⟨ret, rfl⟩ ⟨Nat.le_refl _, Nat.zero_le _, accepts⟩
  | cons arg rest ih =>
      cases arguments with
      | nil =>
          apply iff_of_false
          · rintro ⟨flags, success⟩
            cases success
          · rintro ⟨-, room, -⟩
            exact absurd room (Nat.not_succ_le_zero _)
      | cons decl arguments =>
          rw [List.map_cons, argumentLoop_cons, accepts_cons]
          cases answer : decl.given (some arg) with
          | error abort =>
              apply iff_of_false
              · rintro ⟨flags, success⟩
                cases success
              · rintro ⟨-, -, ⟨stored, accepted⟩, -⟩
                cases accepted
          | ok stored =>
              have rest_iff := ih (List.pairwise_cons.mp ordered).2 (decl.ptr.set stored ret)
              have enough : requiredCount (decl :: arguments) ≤ (arg :: rest).length ↔
                  requiredCount arguments ≤ rest.length := by
                rw [requiredCount_cons, List.length_cons]
                by_cases required : decl.toOption.required = true
                · rw [if_pos required, Nat.add_le_add_iff_right]
                · rw [if_neg required, requiredCount_eq_zero ordered required]
                  exact iff_of_true (Nat.zero_le _) (Nat.zero_le _)
              rw [enough, List.length_cons, List.length_cons, Nat.add_le_add_iff_right]
              exact rest_iff.trans (and_congr_right fun _ => and_congr_right fun _ =>
                (and_iff_right ⟨stored, rfl⟩).symm)

/-- The loop keeps a member that the arguments it reaches do not write. -/
theorem argumentLoop_keeps {α : Type} {member : Member Flags α} {arguments : List (OptionDecl Flags)}
    {rest : List Str} (independent : ∀ decl ∈ arguments.take rest.length, member.Independent decl.ptr)
    {ret flags : Flags} (success : argumentLoop (arguments.map OptionDecl.toOption) rest ret = .ok flags) :
    member.get flags = member.get ret := by
  induction rest generalizing arguments ret with
  | nil =>
      cases arguments with
      | nil =>
          cases success
          rfl
      | cons decl arguments =>
          rw [List.map_cons, argumentLoop] at success
          split at success
          · cases success
          · cases success
            rfl
  | cons arg rest ih =>
      cases arguments with
      | nil => cases success
      | cons decl arguments =>
          obtain ⟨stored, -, continues⟩ := argumentLoop_cons_ok success
          rw [List.length_cons, List.take_succ_cons] at independent
          have later := ih (fun other reached => independent other (List.mem_cons_of_mem _ reached)) continues
          exact later.trans ((independent decl List.mem_cons_self).get_set stored ret)

/-- Every string is what the argument in its place holds afterwards. -/
theorem argumentLoop_stored {arguments : List (OptionDecl Flags)}
    (distinct : arguments.Pairwise OptionDecl.Independent) {rest : List Str} {ret flags : Flags}
    (success : argumentLoop (arguments.map OptionDecl.toOption) rest ret = .ok flags) {i : Nat} {arg : Str}
    {decl : OptionDecl Flags} (string : rest[i]? = some arg) (place : arguments[i]? = some decl) :
    decl.given (some arg) = .ok (decl.ptr.get flags) := by
  induction rest generalizing arguments ret i with
  | nil => cases string
  | cons first rest ih =>
      cases arguments with
      | nil => cases place
      | cons head arguments =>
          obtain ⟨apart, others⟩ := List.pairwise_cons.mp distinct
          obtain ⟨stored, answer, continues⟩ := argumentLoop_cons_ok success
          cases i with
          | zero =>
              cases string
              cases place
              have kept := argumentLoop_keeps
                (fun other reached => apart other (List.mem_of_mem_take reached)) continues
              rw [answer, kept, decl.ptr.get_set]
          | succ i => exact ih others continues string place

/-! ### Binding -/

/-- If all declared options write different members and the required arguments come first, and the option
section leaves some strings without an error, then posix_parse succeeds exactly if there are as many
strings as required arguments or more, but not more than arguments, and each is accepted by the argument in
its place; every argument then holds its string, or its default if there is none for it. -/
theorem positional_binding [Inhabited Flags] (decls : List (OptionDecl Flags))
    (distinct : decls.Pairwise OptionDecl.Independent) (ordered : RequiredFirst (positionals decls))
    (argv rest : List Str) (ret : Flags)
    (parsed : optionLoop (optionsOf decls) argv default = .ok (ret, rest)) :
    ((∃ flags, posixParse (optionsOf decls) argv = .ok flags) ↔
      requiredCount (positionals decls) ≤ rest.length ∧ rest.length ≤ (positionals decls).length ∧
        Accepts (positionals decls) rest) ∧
      ∀ flags, posixParse (optionsOf decls) argv = .ok flags → Bound (positionals decls) rest flags := by
  have tail : posixParse (optionsOf decls) argv =
      argumentLoop ((positionals decls).map OptionDecl.toOption) rest ret := by
    rw [posixParse, parsed, arguments_optionsOf]
  have apart : (positionals decls).Pairwise OptionDecl.Independent := distinct.filter _
  rw [tail]
  refine ⟨argumentLoop_ok_iff ordered rest ret, ?_⟩
  intro flags success
  constructor
  · intro i arg decl string place
    exact argumentLoop_stored apart success string place
  · intro i decl beyond place
    have behind : decl ∈ (positionals decls).drop rest.length := by
      apply List.mem_iff_getElem?.mpr
      exact ⟨i - rest.length, by rw [List.getElem?_drop, Nat.add_sub_cancel' beyond, place]⟩
    have inside := List.mem_filter.mp (List.mem_of_getElem? place)
    have unreached : decl.ptr.get flags = decl.ptr.get ret := by
      apply argumentLoop_keeps _ success
      intro other reached
      exact (apart.rel_of_mem_take_of_mem_drop reached behind).symm
    rw [unreached]
    apply optionLoop_keeps _ parsed
    intro other member flag
    have symmetric : Std.Symm fun first second : OptionDecl Flags => first.Independent second :=
      ⟨fun _ _ independent => independent.symm⟩
    apply distinct.forall inside.1 member
    rintro rfl
    rw [flag] at inside
    cases inside.2

/-- A flag -v, a string and an optional string. -/
private def echoOptions : List (OptionDecl (Bool × Str × Option Str)) :=
  [.bool { shortFlag := some 'v' }
      ⟨fun flags => flags.1, fun value flags => (value, flags.2), fun _ _ => rfl, fun _ => rfl,
        fun _ _ _ => rfl⟩,
    .value .string {} "first".toList
      ⟨fun flags => flags.2.1, fun value flags => (flags.1, value, flags.2.2), fun _ _ => rfl, fun _ => rfl,
        fun _ _ _ => rfl⟩,
    .value (.optional .string) {} "second".toList
      ⟨fun flags => flags.2.2, fun value flags => (flags.1, flags.2.1, value), fun _ _ => rfl, fun _ => rfl,
        fun _ _ _ => rfl⟩]

theorem positional_binding_echo :
    ((∃ flags, posixParse (optionsOf echoOptions) ["-v".toList, "a".toList] = .ok flags) ↔
      requiredCount (positionals echoOptions) ≤ 1 ∧ 1 ≤ (positionals echoOptions).length ∧
        Accepts (positionals echoOptions) ["a".toList]) ∧
      ∀ flags, posixParse (optionsOf echoOptions) ["-v".toList, "a".toList] = .ok flags →
        Bound (positionals echoOptions) ["a".toList] flags := by
  have distinct : echoOptions.Pairwise OptionDecl.Independent := by
    refine .cons ?_ (.cons ?_ (.cons ?_ .nil))
    · intro other member
      rcases List.mem_pair.mp member with rfl | rfl
      · exact fun _ _ _ => rfl
      · exact fun _ _ _ => rfl
    · intro other member
      rw [List.mem_singleton.mp member]
      exact fun _ _ _ => rfl
    · intro other member
      cases member
  have ordered : RequiredFirst (positionals echoOptions) :=
    .cons (fun _ _ _ => rfl) (.cons (fun _ member => nomatch member) .nil)
  exact positional_binding echoOptions distinct ordered _ ["a".toList] (true, [], none) rfl

end Nihil.Cli

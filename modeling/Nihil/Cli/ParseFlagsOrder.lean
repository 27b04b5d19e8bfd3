/-
Module: Nihil.Cli.ParseFlagsOrder
Layer: Cli
Purpose: The order of options. An option group is a flag "-c", or "-c" of an option that takes an argument
  and the element behind it, whatever it looks like. What a group stores does not depend on the flags, so
  two adjacent groups with different members can change places (`optionLoop_swap`), and the last occurrence
  of an option decides (`posixParse_lastOccurrence`).
Imports: Nihil.Cli.ParseFlagsPositionals
Trusted boundary: none
Main exports: OptionGroup, sectionOf, EndsSection, SameOutcome, optionLoop_group, optionLoop_swap,
  posixParse_lastOccurrence, option_order
-/
import Nihil.Cli.ParseFlagsPositionals

namespace Nihil.Cli

variable {Flags : Type} {decls : List (OptionDecl Flags)}

/-! ### Groups -/

/-- A letter of a declared option, with an argument if the option takes one. -/
structure OptionGroup (decls : List (OptionDecl Flags)) where
  letter : Char
  notDash : letter ≠ '-'
  decl : OptionDecl Flags
  named : declared decls letter = some decl
  arg : Option Str
  takes : arg.isSome = decl.hasArgument

/-- The elements of a group. -/
def OptionGroup.strings (self : OptionGroup decls) : List Str :=
  ['-', self.letter] :: self.arg.toList

/-- The elements of groups. -/
def sectionOf (groups : List (OptionGroup decls)) : List Str :=
  groups.flatMap OptionGroup.strings

/-- What a group stores. -/
def OptionGroup.given (self : OptionGroup decls) : Except Abort self.decl.Stored :=
  self.decl.given self.arg

/-- No option starts here: the vector ends, or its next element is the terminator or not an option. -/
def EndsSection : List Str → Prop
  | [] => True
  | element :: _ => ∀ c letters, element = '-' :: c :: letters → c = '-'

/-- Two parses succeed with equal flags, or both fail. Undefined behaviour is neither. -/
def SameOutcome : Except Abort Flags → Except Abort Flags → Prop
  | .ok flags, .ok other => flags = other
  | .error (.error _), .error (.error _) => True
  | .error .undefined, .error .undefined => True
  | _, _ => False

theorem SameOutcome.refl (outcome : Except Abort Flags) : SameOutcome outcome outcome := by
  rcases outcome with (err | _) | flags
  · trivial
  · trivial
  · rfl

/-- Where the option section ends the flags stay as they are. -/
theorem EndsSection.optionLoop_eq {tail : List Str} (ends : EndsSection tail) (self : Options Flags) :
    ∃ rest, ∀ ret, optionLoop self tail ret = .ok (ret, rest) := by
  cases tail with
  | nil => exact ⟨[], fun _ => rfl⟩
  | cons element tail =>
      by_cases option : ∃ c letters, element = '-' :: c :: letters
      · obtain ⟨c, letters, rfl⟩ := option
        obtain rfl : c = '-' := ends c letters rfl
        exact ⟨tail, fun _ => rfl⟩
      · refine ⟨element :: tail, fun ret => ?_⟩
        rw [optionLoop]
        · intro letters dashes
          exact option ⟨'-', letters, dashes⟩
        · intro c letters dash
          exact option ⟨c, letters, dash⟩

/-! ### Running groups -/

/-- One group in front of an argument vector. -/
theorem optionLoop_group (group : OptionGroup decls) (rest : List Str) (ret : Flags) :
    optionLoop (optionsOf decls) (group.strings ++ rest) ret =
      match group.given with
      | .ok stored => optionLoop (optionsOf decls) rest (group.decl.ptr.set stored ret)
      | .error abort => .error (abort.named group.decl.name) := by
  obtain ⟨letter, notDash, decl, named, arg, takes⟩ := group
  have found : (optionsOf decls).option letter = some decl.toOption :=
    option_eq_some_iff.mpr ⟨decl, named, rfl⟩
  cases arg with
  | none =>
      have plain : decl.toOption.hasArgument = false := by
        rw [decl.hasArgument_toOption, ← takes]
        rfl
      simp only [OptionGroup.strings, OptionGroup.given, Option.toList_none, List.singleton_append]
      rw [optionLoop_cluster notDash, clusterLoop, found]
      simp only [plain, Bool.false_eq_true, if_false, decl.parse_toOption]
      cases decl.given none with
      | ok stored => rfl
      | error abort => simp only [resume, decl.name_toOption]
  | some arg =>
      have takesArgument : decl.toOption.hasArgument = true := by
        rw [decl.hasArgument_toOption, ← takes]
        rfl
      simp only [OptionGroup.strings, OptionGroup.given, Option.toList_some]
      rw [List.cons_append, List.singleton_append, optionLoop_cluster notDash, clusterLoop, found]
      simp only [takesArgument, if_true, resume, decl.parseArg_toOption]
      cases decl.given (some arg) with
      | ok stored => rfl
      | error abort => simp only [decl.name_toOption]

/-- What the end of a group leaves undone is an error, not undefined behaviour. -/
theorem OptionGroup.given_error {group : OptionGroup decls} {abort : Abort}
    (refused : group.given = .error abort) (name : FlagName) : ∃ err, abort.named name = .error err := by
  obtain ⟨err, rfl⟩ := OptionDecl.given_error group.takes refused
  exact ⟨_, rfl⟩

/-- Groups in front of an argument vector fail, or they change the flags in the same way whatever the
vector is. -/
theorem optionLoop_section (groups : List (OptionGroup decls)) (ret : Flags) :
    (∃ abort, ∀ rest, optionLoop (optionsOf decls) (sectionOf groups ++ rest) ret = .error abort) ∨
      ∃ after, ∀ rest, optionLoop (optionsOf decls) (sectionOf groups ++ rest) ret =
        optionLoop (optionsOf decls) rest after := by
  induction groups generalizing ret with
  | nil => exact Or.inr ⟨ret, fun _ => rfl⟩
  | cons group groups ih =>
      simp only [sectionOf, List.flatMap_cons, List.append_assoc, optionLoop_group]
      cases group.given with
      | error abort => exact Or.inl ⟨_, fun _ => rfl⟩
      | ok stored => exact ih (group.decl.ptr.set stored ret)

/-! ### Exchanging adjacent groups -/

/-- Two groups with different members in front of an argument vector, in either order. -/
theorem optionLoop_swap {first second : OptionGroup decls} (independent : first.decl.Independent second.decl)
    (rest : List Str) (ret : Flags) :
    optionLoop (optionsOf decls) (first.strings ++ (second.strings ++ rest)) ret =
        optionLoop (optionsOf decls) (second.strings ++ (first.strings ++ rest)) ret ∨
      ∃ err other,
        optionLoop (optionsOf decls) (first.strings ++ (second.strings ++ rest)) ret = .error (.error err) ∧
          optionLoop (optionsOf decls) (second.strings ++ (first.strings ++ rest)) ret =
            .error (.error other) := by
  simp only [optionLoop_group]
  cases given : first.given with
  | ok stored =>
      cases given' : second.given with
      | ok other =>
          left
          simp only
          rw [independent]
      | error abort =>
          obtain ⟨err, refused⟩ := second.given_error given' second.decl.name
          exact Or.inr ⟨err, err, by simp only [refused], by simp only [refused]⟩
  | error abort =>
      obtain ⟨err, refused⟩ := first.given_error given first.decl.name
      cases given' : second.given with
      | ok other => exact Or.inr ⟨err, err, by simp only [refused], by simp only [refused]⟩
      | error abort' =>
          obtain ⟨err', refused'⟩ := second.given_error given' second.decl.name
          exact Or.inr ⟨err, err', by simp only [refused], by simp only [refused']⟩

/-- Exchanging two adjacent groups with different members keeps the outcome. -/
theorem posixParse_swap [Inhabited Flags] (before : List (OptionGroup decls)) {first second : OptionGroup decls}
    (independent : first.decl.Independent second.decl) (rest : List Str) :
    SameOutcome
      (posixParse (optionsOf decls) (sectionOf before ++ (first.strings ++ (second.strings ++ rest))))
      (posixParse (optionsOf decls) (sectionOf before ++ (second.strings ++ (first.strings ++ rest)))) := by
  unfold posixParse
  rcases optionLoop_section before default with ⟨abort, fails⟩ | ⟨after, continues⟩
  · rw [fails, fails]
    exact SameOutcome.refl _
  · rw [continues, continues]
    rcases optionLoop_swap independent rest after with same | ⟨err, other, one, two⟩
    · rw [same]
      exact SameOutcome.refl _
    · rw [one, two]
      trivial

/-! ### The last occurrence -/

/-- Groups of other letters keep what a member holds that only one declaration writes. -/
theorem optionLoop_section_keeps {α : Type} {member : Member Flags α} {groups : List (OptionGroup decls)}
    (independent : ∀ group ∈ groups, member.Independent group.decl.ptr) {tail rest : List Str}
    (ends : EndsSection tail) {ret after : Flags}
    (parsed : optionLoop (optionsOf decls) (sectionOf groups ++ tail) ret = .ok (after, rest)) :
    member.get after = member.get ret := by
  induction groups generalizing ret with
  | nil =>
      obtain ⟨left, done⟩ := ends.optionLoop_eq (optionsOf decls)
      have same : (Except.ok (ret, left) : Except Abort _) = .ok (after, rest) := (done ret).symm.trans parsed
      cases same
      rfl
  | cons group groups ih =>
      rw [sectionOf, List.flatMap_cons, List.append_assoc, optionLoop_group] at parsed
      cases given : group.given with
      | error abort =>
          rw [given] at parsed
          cases parsed
      | ok stored =>
          rw [given] at parsed
          have later := ih (fun other inside => independent other (List.mem_cons_of_mem _ inside)) parsed
          exact later.trans ((independent group List.mem_cons_self).get_set stored ret)

/-- What holds of the declarations at the other places holds of every other declaration. -/
theorem independent_of_split {decl : OptionDecl Flags} {front back : List (OptionDecl Flags)}
    (split : decls = front ++ decl :: back) (alone : ∀ other ∈ front ++ back, decl.Independent other) :
    ∀ other ∈ decls, other ≠ decl → decl.Independent other := by
  intro other member differs
  rw [split] at member
  apply alone
  rcases List.mem_append.mp member with early | late
  · exact List.mem_append_left _ early
  · rcases List.mem_cons.mp late with same | later
    · exact absurd same differs
    · exact List.mem_append_right _ later

/-- Groups of other letters keep the member of a group that no other declaration writes. -/
theorem optionLoop_otherLetters {group : OptionGroup decls} {after : List (OptionGroup decls)}
    (last : ∀ later ∈ after, later.letter ≠ group.letter)
    (others : ∀ other ∈ decls, other ≠ group.decl → group.decl.Independent other) {tail rest : List Str}
    (ends : EndsSection tail) {start ret : Flags}
    (parsed : optionLoop (optionsOf decls) (sectionOf after ++ tail) start = .ok (ret, rest)) :
    group.decl.ptr.get ret = group.decl.ptr.get start := by
  apply optionLoop_section_keeps _ ends parsed
  intro later member
  obtain ⟨inside, laterShort, -⟩ := declared_some later.named
  apply others later.decl inside
  intro same
  rw [same, (declared_some group.named).2.1] at laterShort
  exact last later member (Option.some.inj laterShort).symm

/-- The arguments keep the member of a flag that no other declaration writes. -/
theorem argumentLoop_keeps_flag {decl : OptionDecl Flags} (flag : decl.name.isArgument = false)
    (others : ∀ other ∈ decls, other ≠ decl → decl.Independent other) {rest : List Str} {ret flags : Flags}
    (success : argumentLoop ((positionals decls).map OptionDecl.toOption) rest ret = .ok flags) :
    decl.ptr.get flags = decl.ptr.get ret := by
  apply argumentLoop_keeps _ success
  intro positional reachable
  obtain ⟨inside, argument⟩ := List.mem_filter.mp (List.mem_of_mem_take reachable)
  apply others positional inside
  rintro rfl
  rw [flag] at argument
  cases argument

/-- If parsing succeeds and no other declaration writes the member of an option, the member holds what the
last occurrence of the option gives. -/
theorem posixParse_lastOccurrence [Inhabited Flags] (before after : List (OptionGroup decls))
    (group : OptionGroup decls) (last : ∀ later ∈ after, later.letter ≠ group.letter)
    {front back : List (OptionDecl Flags)} (split : decls = front ++ group.decl :: back)
    (alone : ∀ other ∈ front ++ back, group.decl.Independent other) {tail : List Str}
    (ends : EndsSection tail) {flags : Flags}
    (success : posixParse (optionsOf decls)
      (sectionOf before ++ (group.strings ++ (sectionOf after ++ tail))) = .ok flags) :
    group.given = .ok (group.decl.ptr.get flags) := by
  obtain ⟨-, -, flag⟩ := declared_some group.named
  have others := independent_of_split split alone
  unfold posixParse at success
  rcases optionLoop_section before default with ⟨abort, fails⟩ | ⟨reached, continues⟩
  · rw [fails] at success
    cases success
  · rw [continues, optionLoop_group] at success
    cases given : group.given with
    | error abort =>
        rw [given] at success
        cases success
    | ok stored =>
        rw [given] at success
        simp only at success
        cases parsed : optionLoop (optionsOf decls) (sectionOf after ++ tail)
            (group.decl.ptr.set stored reached) with
        | error abort =>
            rw [parsed] at success
            cases success
        | ok result =>
            obtain ⟨ret, rest⟩ := result
            rw [parsed] at success
            have kept := optionLoop_otherLetters last others ends parsed
            have bound : group.decl.ptr.get flags = group.decl.ptr.get ret := by
              simp only [arguments_optionsOf] at success
              exact argumentLoop_keeps_flag flag others success
            rw [bound, kept, group.decl.ptr.get_set]

/-- The order of options: exchanging two adjacent groups that write different members keeps the outcome,
and an option that occurs several times has the value of its last occurrence if nothing else writes its
member. -/
theorem option_order [Inhabited Flags] (decls : List (OptionDecl Flags)) :
    (∀ (before after : List (OptionGroup decls)) (first second : OptionGroup decls) (tail : List Str),
      first.decl.Independent second.decl →
        SameOutcome
          (posixParse (optionsOf decls) (sectionOf (before ++ first :: second :: after) ++ tail))
          (posixParse (optionsOf decls) (sectionOf (before ++ second :: first :: after) ++ tail))) ∧
      ∀ (before after : List (OptionGroup decls)) (group : OptionGroup decls)
        (front back : List (OptionDecl Flags)) (tail : List Str) (flags : Flags),
        (∀ later ∈ after, later.letter ≠ group.letter) → decls = front ++ group.decl :: back →
        (∀ other ∈ front ++ back, group.decl.Independent other) → EndsSection tail →
        posixParse (optionsOf decls) (sectionOf (before ++ group :: after) ++ tail) = .ok flags →
          group.given = .ok (group.decl.ptr.get flags) := by
  constructor
  · intro before after first second tail independent
    simp only [sectionOf, List.flatMap_append, List.flatMap_cons, List.append_assoc]
    exact posixParse_swap before independent _
  · intro before after group front back tail flags last split alone ends success
    simp only [sectionOf, List.flatMap_append, List.flatMap_cons, List.append_assoc] at success
    exact posixParse_lastOccurrence before after group last split alone ends success

/-- The flag -v and the option -o. -/
private def copyOptions : List (OptionDecl (Bool × Str)) :=
  [.bool { shortFlag := some 'v' }
      ⟨Prod.fst, fun value flags => (value, flags.2), fun _ _ => rfl, fun _ => rfl, fun _ _ _ => rfl⟩,
    .value .string { shortFlag := some 'o' } "file".toList
      ⟨Prod.snd, fun value flags => (flags.1, value), fun _ _ => rfl, fun _ => rfl, fun _ _ _ => rfl⟩]

private def verbose : OptionGroup copyOptions where
  letter := 'v'
  notDash := by decide
  decl := _
  named := rfl
  arg := none
  takes := rfl

private def output (file : Str) : OptionGroup copyOptions where
  letter := 'o'
  notDash := by decide
  decl := _
  named := rfl
  arg := some file
  takes := rfl

theorem option_order_copy :
    SameOutcome
        (posixParse (optionsOf copyOptions) (sectionOf ([] ++ verbose :: output "-v".toList :: []) ++ []))
        (posixParse (optionsOf copyOptions) (sectionOf ([] ++ output "-v".toList :: verbose :: []) ++ [])) ∧
      posixParse (optionsOf copyOptions) ["-o".toList, "a".toList, "-o".toList, "b".toList] =
        .ok (false, "b".toList) ∧
      (output "b".toList).given = .ok "b".toList := by
  obtain ⟨exchange, lastOccurrence⟩ := option_order copyOptions
  refine ⟨exchange [] [] verbose (output "-v".toList) [] (fun _ _ _ => rfl), rfl, ?_⟩
  apply lastOccurrence [output "a".toList] [] (output "b".toList) [verbose.decl] [] [] (false, "b".toList)
  · intro later member
    cases member
  · rfl
  · intro other member
    rw [List.mem_singleton.mp member]
    exact fun _ _ _ => rfl
  · trivial
  · rfl

end Nihil.Cli

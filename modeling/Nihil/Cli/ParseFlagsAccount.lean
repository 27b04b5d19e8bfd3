/-
Module: Nihil.Cli.ParseFlagsAccount
Layer: Cli
Purpose: What becomes of every element of an argument vector. The account of a vector lists the option
  elements with the arguments they took, the terminator and the stored arguments, in the order of the
  vector. After a successful parse it holds every element once, and running it gives the result
  (`account_of_success`). What the terminator says is another matter: the test for it looks at two
  characters, so an element "--name" ends the option section too and is dropped.
Imports: Nihil.Cli.ParseFlagsScan
Trusted boundary: none
Main exports: Account, account, Accounted, terminatorOf, account_of_success, accounted_iff
-/
import Nihil.Cli.ParseFlagsScan

namespace Nihil.Cli

variable {Flags : Type}

/-! ### Accounts -/

/-- An argument that was stored, with the option it was stored by. -/
abbrev Positional (Flags : Type) := Str × OptionBase Flags

/-- What the elements of an argument vector are used for. -/
structure Account (Flags : Type) where
  groups : List (Group Flags)
  terminator : Option Str
  positionals : List (Positional Flags)

/-- The elements of one group: the cluster, with an attached argument, and the detached argument. -/
def Group.elements (self : Group Flags) : List Str :=
  match self.taken with
  | none => ['-' :: self.calls.map Prod.fst]
  | some taken =>
      if taken.attached then ['-' :: (self.calls.map Prod.fst ++ taken.letter :: taken.arg)]
      else ['-' :: (self.calls.map Prod.fst ++ [taken.letter]), taken.arg]

def Account.elements (self : Account Flags) : List Str :=
  self.groups.flatMap Group.elements ++ (self.terminator.toList ++ self.positionals.map Prod.fst)

/-- Store the arguments. -/
def runPositionals (positionals : List (Positional Flags)) (ret : Flags) : Except Abort Flags :=
  positionals.foldlM (fun ret positional =>
    match positional.2.parseArg positional.1 ret with
    | (ret, .ok ()) => .ok ret
    | (_, .error abort) => .error abort) ret

/-- Run parse() of every option of an account, in order. -/
def Account.run (self : Account Flags) (ret : Flags) : Except Abort Flags :=
  (runGroups self.groups ret).bind (runPositionals self.positionals)

/-- The account of an argument vector, as the option section is read and the rest goes to the arguments
in order. -/
def account (self : Options Flags) (argv : List Str) : Account Flags :=
  let read := scan self argv
  match read.2 with
  | .stopped rest => ⟨read.1, none, rest.zip self.arguments⟩
  | .terminator element rest => ⟨read.1, some element, rest.zip self.arguments⟩
  | .unknownOption _ _ => ⟨read.1, none, []⟩
  | .argumentRequired _ _ => ⟨read.1, none, []⟩

/-- A letter names an option of the set, and the option takes an argument or not. -/
def Names (self : Options Flags) (letter : Char) (opt : OptionBase Flags) (withArgument : Bool) : Prop :=
  self.option letter = some opt ∧ opt.hasArgument = withArgument

/-- Every option of a group is the one its letter names, and the last one alone takes an argument. -/
structure Group.LookedUp (opts : Options Flags) (self : Group Flags) : Prop where
  calls : ∀ call ∈ self.calls, Names opts call.1 call.2 false
  taken : ∀ taken ∈ self.taken, Names opts taken.letter taken.opt true

/-- Every element of the vector is accounted for exactly once in a parse with result `ret`. -/
structure Accounted (opts : Options Flags) (argv : List Str) (start ret : Flags) : Prop where
  /-- The elements of the account are the elements of the vector. -/
  elements : (account opts argv).elements = argv
  /-- The letters of every option element were looked up. -/
  lookedUp : ∀ group ∈ (account opts argv).groups, group.LookedUp opts
  /-- The terminator is the string "--". -/
  terminator : ∀ element ∈ (account opts argv).terminator, element = "--".toList
  /-- The stored arguments belong to the first arguments of the options set, in order. -/
  positionals : (account opts argv).positionals.map Prod.snd <+: opts.arguments
  /-- parse() ran for all of them, and its results are the result of the parse. -/
  ran : (account opts argv).run start = .ok ret

/-! ### The terminator -/

/-- The element that ends the option section, if one does. -/
def terminatorOf (self : Options Flags) : List Str → Option Str
  | [] => none
  | arg1 :: rest =>
      match arg1 with
      | '-' :: '-' :: _ => some arg1
      | '-' :: c :: letters =>
          if takesNext self (c :: letters) then
            match rest with
            | [] => none
            | _ :: rest => terminatorOf self rest
          else terminatorOf self rest
      | _ => none

variable {self : Options Flags}

/-! ### What was read -/

/-- What reading a cluster says: its letters in order, with the options they name, and whether the next
element is taken. -/
def ClusterSpec (self : Options Flags) (letters : Str) :
    List (Char × OptionBase Flags) × ClusterEnd Flags → Prop
  | (calls, ending) =>
      (∀ call ∈ calls, Names self call.1 call.2 false) ∧
        match ending with
        | .finished => calls.map Prod.fst = letters ∧ takesNext self letters = false
        | .attached letter opt arg =>
            calls.map Prod.fst ++ letter :: arg = letters ∧ takesNext self letters = false ∧
              Names self letter opt true
        | .wantsArgument letter opt =>
            calls.map Prod.fst ++ [letter] = letters ∧ takesNext self letters = true ∧
              Names self letter opt true
        | .unknownOption _ => True

/-- A letter of an option without argument in front of a cluster. -/
theorem ClusterSpec.cons {c : Char} {opt : OptionBase Flags} {letters : Str}
    {calls : List (Char × OptionBase Flags)} {ending : ClusterEnd Flags}
    (named : Names self c opt false) (spec : ClusterSpec self letters (calls, ending)) :
    ClusterSpec self (c :: letters) ((c, opt) :: calls, ending) := by
  obtain ⟨plain, tail⟩ := spec
  have skip : takesNext self (c :: letters) = takesNext self letters := by
    simp [takesNext, takesArgument, named.1, named.2]
  constructor
  · intro call member
    rcases List.mem_cons.mp member with rfl | later
    · exact named
    · exact plain call later
  · cases ending with
    | finished => exact ⟨congrArg (c :: ·) tail.1, skip.trans tail.2⟩
    | attached letter opt arg => exact ⟨congrArg (c :: ·) tail.1, skip.trans tail.2.1, tail.2.2⟩
    | wantsArgument letter opt => exact ⟨congrArg (c :: ·) tail.1, skip.trans tail.2.1, tail.2.2⟩
    | unknownOption letter => trivial

theorem scanCluster_spec (self : Options Flags) (letters : Str) :
    ClusterSpec self letters (scanCluster self letters) := by
  induction letters with
  | nil => exact ⟨fun call member => absurd member List.not_mem_nil, rfl, rfl⟩
  | cons c letters ih =>
      cases found : self.option c with
      | none => simp [scanCluster, found, ClusterSpec]
      | some opt =>
          cases takes : opt.hasArgument with
          | false =>
              have step : scanCluster self (c :: letters) =
                  ((c, opt) :: (scanCluster self letters).1, (scanCluster self letters).2) := by
                simp [scanCluster, found, takes]
              rw [step]
              exact ClusterSpec.cons ⟨found, takes⟩ ih
          | true =>
              cases letters <;>
                simp [scanCluster, found, takes, ClusterSpec, takesNext, takesArgument, Names]

theorem ClusterSpec.of_scanned {letters : Str} {read : List (Char × OptionBase Flags) × ClusterEnd Flags}
    (scanned : scanCluster self letters = read) : ClusterSpec self letters read := by
  rw [← scanned]
  exact scanCluster_spec self letters

/-- What reading the option section says: the groups and what is left are the vector, and the section is
ended by the terminator if there is one. -/
def SectionSpec (self : Options Flags) (argv : List Str) :
    List (Group Flags) × SectionEnd Flags → Prop
  | (groups, ending) =>
      (∀ group ∈ groups, group.LookedUp self) ∧
        match ending with
        | .stopped rest =>
            groups.flatMap Group.elements ++ rest = argv ∧ terminatorOf self argv = none
        | .terminator element rest =>
            groups.flatMap Group.elements ++ element :: rest = argv ∧
              terminatorOf self argv = some element
        | .unknownOption _ _ => True
        | .argumentRequired _ _ => True

/-- A group in front of a section. -/
theorem SectionSpec.prepend {group : Group Flags} {argv : List Str} (rest : List Str)
    {read : List (Group Flags) × SectionEnd Flags} (lookedUp : group.LookedUp self)
    (elements : argv = group.elements ++ rest) (terminator : terminatorOf self argv = terminatorOf self rest)
    (spec : SectionSpec self rest read) : SectionSpec self argv (prependGroup group read) := by
  obtain ⟨groups, ending⟩ := read
  obtain ⟨earlier, tail⟩ := spec
  constructor
  · intro other member
    rcases List.mem_cons.mp member with rfl | later
    · exact lookedUp
    · exact earlier other later
  · cases ending with
    | stopped left =>
        exact ⟨by rw [elements, ← tail.1, List.flatMap_cons, List.append_assoc], terminator.trans tail.2⟩
    | terminator element left =>
        exact ⟨by rw [elements, ← tail.1, List.flatMap_cons, List.append_assoc], terminator.trans tail.2⟩
    | unknownOption calls letter => trivial
    | argumentRequired calls opt => trivial

/-- Behind a cluster that does not take the next element the terminator is looked for in the rest. -/
theorem terminatorOf_cluster {c : Char} (notDash : c ≠ '-') {letters : Str} (rest : List Str)
    (takes : takesNext self (c :: letters) = false) :
    terminatorOf self (('-' :: c :: letters) :: rest) = terminatorOf self rest := by
  cases rest <;> simp [terminatorOf, takes]

theorem terminatorOf_cluster_argument {c : Char} (notDash : c ≠ '-') {letters : Str} (arg : Str)
    (rest : List Str) (takes : takesNext self (c :: letters) = true) :
    terminatorOf self (('-' :: c :: letters) :: arg :: rest) = terminatorOf self rest := by
  simp [terminatorOf, takes]

theorem scan_spec (self : Options Flags) (argv : List Str) :
    SectionSpec self argv (scan self argv) := by
  fun_induction scan self argv with
  | case1 => exact ⟨fun group member => absurd member List.not_mem_nil, rfl, rfl⟩
  | case2 => exact ⟨fun group member => absurd member List.not_mem_nil, rfl, rfl⟩
  | case3 rest c letters notDash calls scanned ih =>
      obtain ⟨plain, text, takes⟩ := ClusterSpec.of_scanned scanned
      apply SectionSpec.prepend rest ⟨plain, by simp⟩ _ _ ih
      · simp [Group.elements, text]
      · exact terminatorOf_cluster notDash rest takes
  | case4 rest c letters notDash calls letter opt arg scanned ih =>
      obtain ⟨plain, text, takes, named⟩ := ClusterSpec.of_scanned scanned
      apply SectionSpec.prepend rest ⟨plain, by simpa using named⟩ _ _ ih
      · simp [Group.elements, text]
      · exact terminatorOf_cluster notDash rest takes
  | case5 => exact ⟨fun group member => absurd member List.not_mem_nil, trivial⟩
  | case6 => exact ⟨fun group member => absurd member List.not_mem_nil, trivial⟩
  | case7 c letters notDash calls letter opt scanned arg rest ih =>
      obtain ⟨plain, text, takes, named⟩ := ClusterSpec.of_scanned scanned
      apply SectionSpec.prepend rest ⟨plain, by simpa using named⟩ _ _ ih
      · simp [Group.elements, text]
      · exact terminatorOf_cluster_argument notDash arg rest takes
  | case8 arg1 rest notDashes notFlag =>
      constructor
      · exact fun group member => absurd member List.not_mem_nil
      · exact ⟨rfl, by rw [terminatorOf]; exacts [notDashes, notFlag]⟩

/-! ### After a successful parse -/

/-- A loop over the arguments that succeeds stored every element that was left. -/
theorem argumentLoop_ok {arguments : List (OptionBase Flags)} {rest : List Str} {ret final : Flags}
    (success : argumentLoop arguments rest ret = .ok final) :
    runPositionals (rest.zip arguments) ret = .ok final ∧ (rest.zip arguments).map Prod.fst = rest ∧
      (rest.zip arguments).map Prod.snd <+: arguments := by
  induction rest generalizing arguments ret with
  | nil =>
      cases arguments with
      | nil => exact ⟨success, rfl, List.nil_prefix⟩
      | cons argument arguments =>
          rw [argumentLoop] at success
          split at success
          · contradiction
          · exact ⟨success, rfl, List.nil_prefix⟩
  | cons arg rest ih =>
      cases arguments with
      | nil => contradiction
      | cons argument arguments =>
          rw [argumentLoop] at success
          cases outcome : argument.parseArg arg ret with
          | mk after result =>
              rw [outcome] at success
              cases result with
              | error abort => contradiction
              | ok _ =>
                  obtain ⟨ran, elements, declared⟩ := ih success
                  refine ⟨?_, congrArg (arg :: ·) elements, ?_⟩
                  · simpa [runPositionals, outcome, bind, Except.bind] using ran
                  · exact (List.prefix_cons_inj argument).mpr declared

/-- A section that runs without error ends at the terminator or at the first element that is no option. -/
theorem runSection_ok {groups : List (Group Flags)} {ending : SectionEnd Flags} {start ret : Flags}
    {rest : List Str} (success : runSection (groups, ending) start = .ok (ret, rest)) :
    runGroups groups start = .ok ret ∧
      (ending = .stopped rest ∨ ∃ element, ending = .terminator element rest) := by
  rw [runSection] at success
  cases ran : runGroups groups start with
  | error abort =>
      rw [ran] at success
      contradiction
  | ok after =>
      rw [ran] at success
      cases ending with
      | stopped left =>
          cases success
          exact ⟨rfl, Or.inl rfl⟩
      | terminator element left =>
          cases success
          exact ⟨rfl, Or.inr ⟨element, rfl⟩⟩
      | unknownOption calls letter =>
          simp only [Except.bind, SectionEnd.run] at success
          cases outcome : runCalls calls after <;> simp [outcome] at success
      | argumentRequired calls opt =>
          simp only [Except.bind, SectionEnd.run] at success
          cases outcome : runCalls calls after <;> simp [outcome] at success

/-- The parts of a successful parse make up the account, whatever ended the option section. -/
theorem Accounted.of_parts {argv rest : List Str} {start after ret : Flags} {groups : List (Group Flags)}
    {terminator : Option Str}
    (whole : account self argv = ⟨groups, terminator, rest.zip self.arguments⟩)
    (text : groups.flatMap Group.elements ++ (terminator.toList ++ rest) = argv)
    (lookedUp : ∀ group ∈ groups, group.LookedUp self)
    (dashes : ∀ element ∈ terminator, element = "--".toList)
    (ran : runGroups groups start = .ok after)
    (stored : argumentLoop self.arguments rest after = .ok ret) : Accounted self argv start ret := by
  obtain ⟨positionals, elements, declared⟩ := argumentLoop_ok stored
  constructor <;> rw [whole]
  · rw [Account.elements, elements]
    exact text
  · exact lookedUp
  · exact dashes
  · exact declared
  · rw [Account.run, ran]
    exact positionals

/-- What a section that was read to its end says about the account: its groups, the element that ended
the section, and what is left are the vector. -/
theorem account_of_scan {argv rest : List Str} {groups : List (Group Flags)} {ending : SectionEnd Flags}
    (read : scan self argv = (groups, ending))
    (ends : ending = .stopped rest ∨ ∃ element, ending = .terminator element rest) :
    ∃ terminator, account self argv = ⟨groups, terminator, rest.zip self.arguments⟩ ∧
      groups.flatMap Group.elements ++ (terminator.toList ++ rest) = argv ∧
      terminatorOf self argv = terminator := by
  have spec := scan_spec self argv
  rw [read] at spec
  obtain ⟨-, text⟩ := spec
  rcases ends with rfl | ⟨element, rfl⟩
  · refine ⟨none, ?_, text.1, text.2⟩
    simp only [account, read]
  · refine ⟨some element, ?_, text.1, text.2⟩
    simp only [account, read]

/-- The conservation law: after a successful parse the account holds every element once, every option was
looked up and ran, and only what the terminator says is left open. -/
theorem account_of_success [Inhabited Flags] {argv : List Str} {ret : Flags}
    (success : posixParse self argv = .ok ret) :
    (account self argv).terminator = terminatorOf self argv ∧
      ((∀ element ∈ (account self argv).terminator, element = "--".toList) →
        Accounted self argv default ret) := by
  rw [posixParse, optionLoop_eq_run] at success
  cases read : scan self argv with
  | mk groups ending =>
      have lookedUp : ∀ group ∈ groups, group.LookedUp self := by
        have spec := scan_spec self argv
        rw [read] at spec
        exact spec.1
      rw [read] at success
      cases outcome : runSection (groups, ending) default with
      | error abort =>
          rw [outcome] at success
          contradiction
      | ok result =>
          obtain ⟨after, rest⟩ := result
          rw [outcome] at success
          obtain ⟨ran, ends⟩ := runSection_ok outcome
          obtain ⟨terminator, whole, text, same⟩ := account_of_scan read ends
          constructor
          · rw [whole]
            exact same.symm
          · intro dashes
            rw [whole] at dashes
            exact Accounted.of_parts whole text lookedUp dashes ran success

/-- After a successful parse every element is accounted for if and only if the element that ends the
option section, if one does, is "--". -/
theorem accounted_iff [Inhabited Flags] (self : Options Flags) (argv : List Str) (ret : Flags)
    (success : posixParse self argv = .ok ret) :
    Accounted self argv default ret ↔
      ∀ element, terminatorOf self argv = some element → element = "--".toList := by
  obtain ⟨same, accounted⟩ := account_of_success success
  constructor
  · intro whole element ends
    exact whole.terminator element (same.trans ends)
  · intro dashes
    apply accounted
    intro element ends
    exact dashes element (same.symm.trans ends)

/-- The flags -a and -b, the option -o with an argument, and an argument of the program. -/
private def packOptions : Options (Bool × Bool × Str × Str) :=
  Options.ofFlags
    [optionBool { shortFlag := some 'a' }
        ⟨fun flags => flags.1, fun value flags => (value, flags.2), fun _ _ => rfl, fun _ => rfl,
          fun _ _ _ => rfl⟩,
      optionBool { shortFlag := some 'b' }
        ⟨fun flags => flags.2.1, fun value flags => (flags.1, value, flags.2.2), fun _ _ => rfl, fun _ => rfl,
          fun _ _ _ => rfl⟩,
      optionString { shortFlag := some 'o' } "file".toList
        ⟨fun flags => flags.2.2.1, fun value flags => (flags.1, flags.2.1, value, flags.2.2.2), fun _ _ => rfl,
          fun _ => rfl, fun _ _ _ => rfl⟩,
      optionString {} "input".toList
        ⟨fun flags => flags.2.2.2, fun value flags => (flags.1, flags.2.1, flags.2.2.1, value), fun _ _ => rfl,
          fun _ => rfl, fun _ _ _ => rfl⟩]

private def packVector : List Str :=
  ["-ab".toList, "-o".toList, "out".toList, "--".toList, "-in".toList]

/-- A cluster, a detached argument, the terminator and an argument behind it that looks like a flag. -/
theorem accounted_iff_pack :
    posixParse packOptions packVector = .ok (true, true, "out".toList, "-in".toList) ∧
      Accounted packOptions packVector default (true, true, "out".toList, "-in".toList) := by
  refine ⟨by decide, (accounted_iff packOptions packVector _ (by decide)).mpr ?_⟩
  intro element ends
  have dashes : terminatorOf packOptions packVector = some "--".toList := by decide
  exact Option.some.inj (ends.symm.trans dashes)

private def longOption : Options Bool :=
  Options.ofFlags [optionBool { longFlag := some "verbose".toList } (Member.whole Bool)]

/-- The declared long flag "--verbose" is dropped: the parse succeeds and the flag is not set. -/
theorem accounted_fails :
    posixParse longOption ["--verbose".toList] = .ok false ∧
      ¬ Accounted longOption ["--verbose".toList] default false := by
  refine ⟨by decide, fun whole => ?_⟩
  have dashes := whole.terminator "--verbose".toList rfl
  exact absurd dashes (by decide)

end Nihil.Cli

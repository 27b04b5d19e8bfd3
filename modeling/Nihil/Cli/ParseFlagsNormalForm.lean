/-
Module: Nihil.Cli.ParseFlagsNormalForm
Layer: Cli
Purpose: An argument vector and its normal form, in which every flag is an element of its own and every
  attached argument has become the next element, parse the same. The normal form is a rewriting of the
  vector alone: it asks the options set which letters take an argument and calls nothing. A '-' in the
  place of a flag has no element of its own, because "--" is the terminator, so it stays behind the flag
  in front of it.
Imports: Nihil.Cli.ParseFlagsScan (takesArgument, takesNext, resume)
Trusted boundary: none
Main exports: splitCluster, normalForm, optionLoop_splitCluster, posixParse_normalForm
-/
import Nihil.Cli.ParseFlagsScan

namespace Nihil.Cli

variable {Flags : Type}

/-! ### The normal form -/

/-- The elements a cluster is split into. The letters for which `keep` holds stay in the element of the
flag in front of them, with what follows. -/
def splitCluster (keep : Char → Bool) (self : Options Flags) : Str → List Str
  | [] => []
  | c :: letters =>
      if takesArgument self c then ['-', c] :: (if letters = [] then [] else [letters])
      else if letters.head?.any keep then ['-' :: c :: letters]
      else ['-', c] :: splitCluster keep self letters

/-- The option section of an argument vector with every cluster split, up to the terminator or the first
element that is not an option. -/
def normalForm (keep : Char → Bool) (self : Options Flags) : List Str → List Str
  | [] => []
  | arg1 :: rest =>
      match arg1 with
      | '-' :: '-' :: _ => arg1 :: rest
      | '-' :: c :: letters =>
          splitCluster keep self (c :: letters) ++
            if takesNext self (c :: letters) then
              match rest with
              | [] => []
              | arg :: rest => arg :: normalForm keep self rest
            else normalForm keep self rest
      | _ => arg1 :: rest

/-! ### One cluster -/

variable {self : Options Flags}

/-- A letter that takes no argument either stops the parse or is eaten, whatever letters follow it. -/
theorem clusterLoop_of_not_takesArgument {c : Char} (takes : takesArgument self c = false)
    (ret : Flags) :
    (∃ abort, ∀ letters, clusterLoop self (c :: letters) ret = .failed abort) ∨
      ∃ after, ∀ letters, clusterLoop self (c :: letters) ret = clusterLoop self letters after := by
  cases found : self.option c with
  | none =>
      left
      exact ⟨.ofText ('-' :: c :: ": unknown option".toList), fun letters => by
        simp only [clusterLoop, found]⟩
  | some opt =>
      have plain : opt.hasArgument = false := by simpa [takesArgument, found] using takes
      cases outcome : opt.parse ret with
      | mk after result =>
          cases result with
          | error abort =>
              left
              exact ⟨abort.named opt.name, fun letters => by simp [clusterLoop, found, plain, outcome]⟩
          | ok _ =>
              right
              exact ⟨after, fun letters => by simp [clusterLoop, found, plain, outcome]⟩

/-- A letter that takes an argument names an option that has one. -/
theorem exists_option_of_takesArgument {c : Char} (takes : takesArgument self c = true) :
    ∃ opt, self.option c = some opt ∧ opt.hasArgument = true := by
  cases found : self.option c with
  | none => simp [takesArgument, found] at takes
  | some opt => exact ⟨opt, rfl, by simpa [takesArgument, found] using takes⟩

/-- An argument that is attached to its flag is used like one in the next element. -/
theorem resume_of_takesArgument {c : Char} (takes : takesArgument self c = true) {letters : Str}
    (attached : letters ≠ []) (rest : List Str) (ret : Flags) :
    resume self (letters :: rest) (clusterLoop self [c] ret) =
      resume self rest (clusterLoop self (c :: letters) ret) := by
  obtain ⟨opt, found, withArgument⟩ := exists_option_of_takesArgument takes
  simp only [clusterLoop, found, withArgument, attached, if_true, if_false, resume]
  cases opt.parseArg letters ret with
  | mk after result =>
      cases result with
      | error abort => rfl
      | ok _ => rfl

/-- Parsing the elements a cluster is split into is parsing the cluster, if every '-' stays attached. -/
theorem optionLoop_splitCluster {keep : Char → Bool} (keepsDash : keep '-' = true) (letters : Str)
    {c : Char} (notDash : c ≠ '-') (rest : List Str) (ret : Flags) :
    optionLoop self (splitCluster keep self (c :: letters) ++ rest) ret =
      resume self rest (clusterLoop self (c :: letters) ret) := by
  induction letters generalizing c ret with
  | nil =>
      have single : splitCluster keep self [c] = [['-', c]] := by simp [splitCluster]
      rw [single]
      exact optionLoop_cluster notDash [] rest ret
  | cons d letters ih =>
      cases takes : takesArgument self c with
      | true =>
          have split : splitCluster keep self (c :: d :: letters) = [['-', c], d :: letters] := by
            simp [splitCluster, takes]
          rw [split]
          exact (optionLoop_cluster notDash [] _ ret).trans
            (resume_of_takesArgument takes (List.cons_ne_nil d letters) rest ret)
      | false =>
          cases kept : keep d with
          | true =>
              have whole : splitCluster keep self (c :: d :: letters) = ['-' :: c :: d :: letters] := by
                simp [splitCluster, takes, kept]
              rw [whole]
              exact optionLoop_cluster notDash (d :: letters) rest ret
          | false =>
              have split : splitCluster keep self (c :: d :: letters) =
                  ['-', c] :: splitCluster keep self (d :: letters) := by
                rw [splitCluster]
                simp [takes, kept]
              have dNotDash : d ≠ '-' := by
                intro dash
                rw [dash, keepsDash] at kept
                contradiction
              rw [split, List.cons_append, optionLoop_cluster notDash]
              rcases clusterLoop_of_not_takesArgument takes ret with ⟨abort, failed⟩ | ⟨after, eaten⟩
              · rw [failed, failed]
                rfl
              · rw [eaten, eaten]
                exact ih dNotDash after

/-- The next element is taken only by a cluster that ends with a flag that takes an argument. -/
theorem takesNext_eq (self : Options Flags) (letters : Str) (ret : Flags) :
    match clusterLoop self letters ret with
    | .finished _ => takesNext self letters = false
    | .wantsArgument _ _ => takesNext self letters = true
    | .failed _ => True := by
  induction letters generalizing ret with
  | nil => rfl
  | cons c letters ih =>
      cases takes : takesArgument self c with
      | false =>
          rcases clusterLoop_of_not_takesArgument takes ret with ⟨abort, failed⟩ | ⟨after, eaten⟩
          · rw [failed]
            trivial
          · have skip : takesNext self (c :: letters) = takesNext self letters := by
              simp [takesNext, takes]
            rw [eaten, skip]
            exact ih after
      | true =>
          obtain ⟨opt, found, withArgument⟩ := exists_option_of_takesArgument takes
          cases letters with
          | nil => simp [clusterLoop, found, withArgument, takesNext, takes]
          | cons d letters =>
              cases outcome : opt.parseArg (d :: letters) ret with
              | mk after result =>
                  cases result <;> simp [clusterLoop, found, withArgument, outcome, takesNext, takes]

/-- What follows a cluster may be replaced by anything that parses the same. -/
theorem resume_congr {letters : Str} {rest other : List Str} (ret : Flags)
    (taken : takesNext self letters = true →
      (rest = [] ∧ other = []) ∨ ∃ arg tail tail', rest = arg :: tail ∧ other = arg :: tail' ∧
        ∀ after, optionLoop self tail after = optionLoop self tail' after)
    (left : takesNext self letters = false →
      ∀ after, optionLoop self rest after = optionLoop self other after) :
    resume self rest (clusterLoop self letters ret) = resume self other (clusterLoop self letters ret) := by
  have next := takesNext_eq self letters ret
  cases exit : clusterLoop self letters ret with
  | failed abort => rfl
  | finished after =>
      rw [exit] at next
      exact left next after
  | wantsArgument opt after =>
      rw [exit] at next
      rcases taken next with ⟨rfl, rfl⟩ | ⟨arg, tail, tail', rfl, rfl, same⟩
      · rfl
      · simp only [resume]
        cases opt.parseArg arg after with
        | mk final result =>
            cases result with
            | error abort => rfl
            | ok _ => exact same final

/-! ### The whole vector -/

/-- The option section of the normal form leaves the same flags and the same arguments behind. -/
theorem optionLoop_normalForm (keep : Char → Bool) (keepsDash : keep '-' = true) (argv : List Str)
    (ret : Flags) :
    optionLoop self (normalForm keep self argv) ret = optionLoop self argv ret := by
  fun_induction normalForm keep self argv generalizing ret with
  | case1 => rfl
  | case2 => rfl
  | case3 rest c letters notDash ihArgument ihRest =>
      rw [optionLoop_splitCluster keepsDash letters notDash, optionLoop_cluster notDash]
      apply resume_congr
      · intro next
        rw [if_pos next]
        cases rest with
        | nil => exact Or.inl ⟨rfl, rfl⟩
        | cons arg rest => exact Or.inr ⟨arg, normalForm keep self rest, rest, rfl, rfl, ihArgument⟩
      · intro next after
        rw [if_neg (by simp [next])]
        exact ihRest after
  | case4 => rfl

/-- An argument vector and its normal form have the same outcome: equal flags or the same error. -/
theorem posixParse_normalForm [Inhabited Flags] (self : Options Flags) (argv : List Str) :
    posixParse self (normalForm (· == '-') self argv) = posixParse self argv := by
  simp only [posixParse, optionLoop_normalForm (· == '-') rfl]

private def singleFlag : Options Bool :=
  Options.ofFlags [optionBool { shortFlag := some 'a' } (Member.whole Bool)]

/-- A '-' that gets an element of its own becomes the terminator: "-a-" is refused, but "-a" and "--" are
accepted. -/
theorem posixParse_splitDash :
    singleFlag.option '-' = none ∧
      normalForm (fun _ => false) singleFlag ["-a-".toList] = ["-a".toList, "--".toList] ∧
      posixParse singleFlag ["-a-".toList] = .error (.ofText "--: unknown option".toList) ∧
      posixParse singleFlag (normalForm (fun _ => false) singleFlag ["-a-".toList]) = .ok true := by
  refine ⟨?_, ?_, ?_, ?_⟩ <;> decide

end Nihil.Cli

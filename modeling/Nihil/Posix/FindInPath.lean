/-
Module: Nihil.Posix.FindInPath
Layer: Posix
Purpose: find_in_path and open_in_path. Both go through the elements of a path string, return the first
  candidate that succeeds, and keep the last error other than ENOENT. Splitting an empty path string gives
  no element at all, so that the current directory is not searched although an empty element stands for it;
  `path_search_iff` says when both follow the search rule, and that they choose the same candidate.
Imports: Nihil.Library.Words, Nihil.Posix.WriteFile
Trusted boundary: the outcomes of access(2) and of open(2) with O_EXEC on every path.
Main exports: isAbsolute, tryReturn, openExec, searchLoop, findInPath, openInPath, candidates, searchResult,
  FollowsRule, searchLoop_eq, path_search_iff
-/
import Nihil.Library.Words
import Nihil.Posix.WriteFile

namespace Nihil.Posix

open Nihil.Library

variable {α δ : Type}

/-! ### The functions -/

/-- `std::filesystem::path::is_absolute`. -/
def isAbsolute (file : Str) : Bool := file.head? = some '/'

/-- An element of the path string as a directory. An empty one means cwd. -/
def directory (dir : Str) : Str :=
  if dir = [] then ".".toList else dir

/-- `try_return`. -/
def tryReturn (access : Str → Except ErrorCode Unit) (file : Str) : Except Error Str :=
  match access file with
  | .ok () => .ok file
  | .error ec => .error (Error.ofCode ec)

/-- `open(file, open_exec)`. -/
def openExec (open' : Str → Except ErrorCode δ) (file : Str) : Except Error δ :=
  match open' file with
  | .ok fd => .ok fd
  | .error ec => .error (Error.ofCode ec)

/-- `std::errc::no_such_file_or_directory` is what caused an error. -/
def isMissing (err : Error) : Bool := err.rootCause.isErrc enoent.value

/-- The loop of both functions over the elements of the path string. -/
def searchLoop (attempt : Str → Except Error α) (file : Str) : List Str → Error → Except Error α
  | [], err => .error err
  | dir :: dirs, err =>
      match attempt (appendPath (directory dir) file) with
      | .ok found => .ok found
      | .error failed =>
          -- If we get an error other than ENOENT, cache it to return to the caller.
          searchLoop attempt file dirs (if !isMissing failed then failed else err)

/-- A file that is searched for with one way of trying a candidate. -/
def searchPath (attempt : Str → Except Error α) (file path : Str) : Except Error α :=
  if isAbsolute file then attempt file
  else searchLoop attempt file (splitWords ':' path) (Error.ofCode enoent)

/-- `find_in_path`. -/
def findInPath (access : Str → Except ErrorCode Unit) (file path : Str) : Except Error Str :=
  searchPath (tryReturn access) file path

/-- `open_in_path`. -/
def openInPath (open' : Str → Except ErrorCode δ) (file path : Str) : Except Error δ :=
  searchPath (openExec open') file path

/-! ### The search rule -/

/-- The candidates for a file: one for every element of the path string, which has at least one. -/
def candidates (file path : Str) : List Str :=
  (path.splitOn ':').map fun dir => appendPath (directory dir) file

/-- The error of a candidate that failed with another one than ENOENT. -/
def otherError (attempt : Str → Except Error α) (candidate : Str) : Option Error :=
  match attempt candidate with
  | .ok _ => none
  | .error err => if isMissing err then none else some err

/-- The first candidate that succeeds, or the error of the last one that failed with another error than
ENOENT, or ENOENT. -/
def searchResult (attempt : Str → Except Error α) (candidates : List Str) : Except Error α :=
  match candidates.findSome? fun candidate => (attempt candidate).toOption with
  | some found => .ok found
  | none => .error ((candidates.filterMap (otherError attempt)).getLastD (Error.ofCode enoent))

/-- A search tries an absolute file itself and otherwise its candidates. -/
def FollowsRule (attempt : Str → Except Error α) (file path : Str) (result : Except Error α) : Prop :=
  result = if isAbsolute file then attempt file else searchResult attempt (candidates file path)

/-- The file is missing in the current directory. -/
def MissingHere (attempt : Str → Except Error α) (file : Str) : Prop :=
  ∃ err, attempt (appendPath ".".toList file) = .error err ∧ isMissing err = true

/-! ### The loop -/

theorem searchLoop_eq (attempt : Str → Except Error α) (file : Str) (dirs : List Str) (err : Error) :
    let tried := dirs.map fun dir => appendPath (directory dir) file
    searchLoop attempt file dirs err =
      match tried.findSome? fun candidate => (attempt candidate).toOption with
      | some found => .ok found
      | none => .error ((tried.filterMap (otherError attempt)).getLastD err) := by
  induction dirs generalizing err with
  | nil => rfl
  | cons dir dirs ih =>
      simp only [searchLoop, List.map_cons, List.findSome?_cons, List.filterMap_cons, otherError]
      cases outcome : attempt (appendPath (directory dir) file) with
      | ok found => rfl
      | error failed =>
          simp only [Except.toOption, ih]
          cases missing : isMissing failed with
          | true => rfl
          | false => simp only [Bool.not_false, if_true, Bool.false_eq_true, if_false, List.getLastD_cons]

/-- The loop over the elements that `std::views::split` finds. -/
theorem searchLoop_splitWords {path : Str} (nonempty : path ≠ []) (attempt : Str → Except Error α)
    (file : Str) :
    searchLoop attempt file (splitWords ':' path) (Error.ofCode enoent) =
      searchResult attempt (candidates file path) := by
  rw [splitWords, if_neg nonempty, searchLoop_eq]
  rfl

theorem isMissing_enoent : isMissing (Error.ofCode enoent) = true := by decide

/-- One candidate that is missing gives the error that no candidate at all gives. -/
theorem searchResult_singleton_iff (attempt : Str → Except Error α) (candidate : Str) :
    .error (Error.ofCode enoent) = searchResult attempt [candidate] ↔
      ∃ err, attempt candidate = .error err ∧ isMissing err = true := by
  unfold searchResult
  simp only [List.findSome?_singleton, List.filterMap_cons, List.filterMap_nil, otherError]
  cases outcome : attempt candidate with
  | ok found =>
      apply iff_of_false
      · intro same
        cases same
      · rintro ⟨err, failed, -⟩
        cases failed
  | error err =>
      simp only [Except.toOption, Except.error.injEq, exists_eq_left']
      cases missing : isMissing err with
      | true => exact iff_of_true rfl rfl
      | false =>
          apply iff_of_false
          · intro same
            have present : isMissing (Error.ofCode enoent) = false := same ▸ missing
            rw [isMissing_enoent] at present
            cases present
          · exact Bool.false_ne_true

/-- A search follows the rule unless the path string is empty and the file is not missing in the current
directory. -/
theorem searchPath_follows_iff (attempt : Str → Except Error α) (file path : Str) :
    FollowsRule attempt file path (searchPath attempt file path) ↔
      isAbsolute file = true ∨ path ≠ [] ∨ MissingHere attempt file := by
  unfold FollowsRule searchPath
  by_cases absolute : isAbsolute file = true
  · rw [if_pos absolute, if_pos absolute]
    exact iff_of_true rfl (Or.inl absolute)
  · rw [if_neg absolute, if_neg absolute, or_iff_right absolute]
    by_cases empty : path = []
    · subst empty
      exact (searchResult_singleton_iff attempt _).trans (or_iff_right (not_not.mpr rfl)).symm
    · exact iff_of_true (searchLoop_splitWords empty attempt file) (Or.inl empty)

/-! ### Both functions -/

/-- Both ways of trying a candidate, if access(2) succeeds where open(2) does and fails with its error. -/
theorem openExec_eq (open' : Str → Except ErrorCode δ) (candidate : Str) :
    openExec open' candidate =
      (tryReturn (fun path => (open' path).map fun _ => ()) candidate).bind (openExec open') := by
  unfold tryReturn
  cases outcome : open' candidate with
  | ok fd => simp only [outcome, Except.map, Except.bind]
  | error ec => simp only [openExec, outcome, Except.map, Except.bind]

/-- Two ways of trying that agree on every candidate find the same one. -/
theorem searchPath_bind {attempt : Str → Except Error α} {next : α → Except Error δ}
    {attempt' : Str → Except Error δ} (agree : ∀ candidate, attempt' candidate = (attempt candidate).bind next)
    (succeeds : ∀ candidate found, attempt candidate = .ok found → ∃ other, next found = .ok other)
    (file path : Str) : searchPath attempt' file path = (searchPath attempt file path).bind next := by
  have loops : ∀ dirs err, searchLoop attempt' file dirs err =
      (searchLoop attempt file dirs err).bind next := by
    intro dirs
    induction dirs with
    | nil => exact fun _ => rfl
    | cons dir dirs ih =>
        intro err
        rw [searchLoop, searchLoop, agree]
        cases outcome : attempt (appendPath (directory dir) file) with
        | error failed => exact ih _
        | ok found =>
            obtain ⟨other, reached⟩ := succeeds _ _ outcome
            simp only [Except.bind, reached]
  unfold searchPath
  split_ifs
  · exact agree file
  · exact loops _ _

/-- find_in_path and open_in_path follow the search rule exactly if the file is absolute, the path string is
not empty or the file is missing in the current directory; and open_in_path opens what find_in_path returns
where access(2) succeeds or fails as open(2) does. -/
theorem path_search_iff (access : Str → Except ErrorCode Unit) (open' : Str → Except ErrorCode δ)
    (file path : Str) :
    (FollowsRule (tryReturn access) file path (findInPath access file path) ↔
      isAbsolute file = true ∨ path ≠ [] ∨ MissingHere (tryReturn access) file) ∧
    (FollowsRule (openExec open') file path (openInPath open' file path) ↔
      isAbsolute file = true ∨ path ≠ [] ∨ MissingHere (openExec open') file) ∧
    openInPath open' file path =
      (findInPath (fun candidate => (open' candidate).map fun _ => ()) file path).bind (openExec open') := by
  refine ⟨searchPath_follows_iff _ file path, searchPath_follows_iff _ file path, ?_⟩
  apply searchPath_bind (openExec_eq open')
  intro candidate found tried
  unfold tryReturn at tried
  cases outcome : open' candidate with
  | error ec =>
      simp only [outcome, Except.map] at tried
      cases tried
  | ok fd =>
      simp only [outcome, Except.map, Except.ok.injEq] at tried
      exact ⟨fd, by rw [openExec, ← tried, outcome]⟩

/-- With an empty path string an executable in the current directory is not found. -/
theorem not_follows_emptyPath :
    ¬ FollowsRule (tryReturn fun _ => .ok ()) "sh".toList [] (findInPath (fun _ => .ok ()) "sh".toList []) := by
  unfold FollowsRule
  decide

end Nihil.Posix

/-
Module: Nihil.Posix.WriteFile
Layer: Posix
Purpose: write_file and safe_write_file over a store of files. The temporary file is opened without
  truncation and written with a single write(2) whose count nobody looks at, so what is renamed over the
  target is the part that was written followed by what an older temporary file held from there on. On every
  error the target is left alone.
Imports: Nihil.Core.Error, Nihil.Library.FileStore
Trusted boundary: `SystemCalls`, the outcomes of open, write, rename and unlink; a file is known by its path.
Main exports: OpenFlag, SystemCalls, tmpfilePath, writeFile, safeWriteFile, SafeWriteSpec,
  safeWriteFile_of_failure, safeWriteFile_of_success, safeWrite_spec_iff
-/
import Mathlib.Data.List.DropRight
import Nihil.Core.Error
import Nihil.Library.FileStore

namespace Nihil.Posix

open Nihil.Library

/-! ### Paths -/

/-- `std::filesystem::path::filename`: what follows the last slash. -/
def pathFilename (path : Str) : Str :=
  path.rtakeWhile (· != '/')

/-- `std::filesystem::path::remove_filename`: everything up to the last slash. -/
def removeFilename (path : Str) : Str :=
  path.rdropWhile (· != '/')

/-- `std::filesystem::path::operator/=`: an absolute path replaces, otherwise a slash is put in between
if the left side ends with a file name. -/
def appendPath (path other : Str) : Str :=
  if other.head? = some '/' then other
  else if pathFilename path ≠ [] then path ++ '/' :: other
  else path ++ other

/-- The temporary file of `safe_write_file`. -/
def tmpfilePath (filename : Str) : Str :=
  appendPath (removeFilename filename) (pathFilename filename ++ ".tmp".toList)

theorem removeFilename_append_pathFilename (path : Str) :
    removeFilename path ++ pathFilename path = path := by
  have halves : path.reverse.takeWhile (· != '/') ++ path.reverse.dropWhile (· != '/') = path.reverse :=
    List.takeWhile_append_dropWhile
  have reversed := congrArg List.reverse halves
  rwa [List.reverse_append, List.reverse_reverse] at reversed

/-- The temporary file is in the directory of the target, under the target's name with ".tmp" appended. -/
theorem tmpfilePath_eq (filename : Str) : tmpfilePath filename = filename ++ ".tmp".toList := by
  have notAbsolute : (pathFilename filename ++ ".tmp".toList).head? ≠ some '/' := by
    cases name : pathFilename filename with
    | nil => decide
    | cons first rest =>
        have member : first ∈ pathFilename filename := by rw [name]; simp
        have notSlash := List.mem_rtakeWhile_imp member
        simpa using notSlash
  have noFilename : pathFilename (removeFilename filename) = [] :=
    List.rtakeWhile_eq_nil_iff.mpr (List.rdropWhile_last_not _ _)
  rw [tmpfilePath, appendPath, if_neg notAbsolute, if_neg (by simp [noFilename]), ← List.append_assoc,
    removeFilename_append_pathFilename]

theorem tmpfilePath_ne (filename : Str) : filename ≠ tmpfilePath filename := by
  rw [tmpfilePath_eq]
  intro same
  have size := congrArg List.length same
  rw [List.length_append] at size
  have suffix : ".tmp".toList.length = 4 := rfl
  omega

/-! ### The functions -/

/-- The flags of `open` used here. -/
inductive OpenFlag where
  | write
  | create
  | truncate
deriving DecidableEq, Repr

/-- How the system calls of one `safe_write_file` turn out, for `size` bytes to write: each succeeds or
fails with an error code, and a successful write of a non-empty buffer writes at least one byte. -/
structure SystemCalls (size : Nat) where
  openCall : Except ErrorCode Unit
  writeCall : Except ErrorCode {count : Nat // count ≤ size ∧ (0 < size → 0 < count)}
  renameCall : Except ErrorCode Unit
  unlinkCall : Except ErrorCode Unit

variable (range : List UInt8)

/-- The code ENOENT. -/
def enoent : ErrorCode := { value := 2, message := "No such file or directory".toList }

/-- `open`. Without O_CREAT a file that does not exist is an error; without O_TRUNC an existing file keeps
its content. -/
def openFile (calls : SystemCalls range.length) (filename : Str) (flags : List OpenFlag)
    (files : FileStore Str UInt8) : Except Error Unit × FileStore Str UInt8 :=
  match calls.openCall with
  | .error ec => (.error (Error.ofCode ec), files)
  | .ok () =>
      if OpenFlag.create ∈ flags ∨ (files filename).isSome then
        (.ok (), files.openForWriting filename (OpenFlag.truncate ∈ flags))
      else
        (.error (Error.ofCode enoent), files)

/-- `fd::write`: a single write(2) at the beginning of the file that was opened. -/
def writeFd (calls : SystemCalls range.length) (filename : Str) (files : FileStore Str UInt8) :
    Except Error Nat × FileStore Str UInt8 :=
  match calls.writeCall with
  | .error ec => (.error (Error.ofCode ec), files)
  | .ok count => (.ok count, files.overwrite filename (range.take count))

/-- `write_file`. Returns the number of bytes written. -/
def writeFile (calls : SystemCalls range.length) (filename : Str) (files : FileStore Str UInt8) :
    Except Error Nat × FileStore Str UInt8 :=
  match openFile range calls filename [.write, .create] files with
  | (.error err, files) => (.error err, files)
  | (.ok (), files) => writeFd range calls filename files

/-- `rename`. -/
def renameFile (calls : SystemCalls range.length) (oldp newp : Str) (files : FileStore Str UInt8) :
    Except Error Unit × FileStore Str UInt8 :=
  match calls.renameCall with
  | .error ec => (.error (Error.ofCode ec), files)
  | .ok () => (.ok (), files.rename oldp newp)

/-- `unlink`, with its result ignored. -/
def unlinkFile (calls : SystemCalls range.length) (path : Str) (files : FileStore Str UInt8) :
    FileStore Str UInt8 :=
  match calls.unlinkCall with
  | .error _ => files
  | .ok () => files.remove path

/-- `safe_write_file`. The guard removes the temporary file on every way out but the last. -/
def safeWriteFile (calls : SystemCalls range.length) (filename : Str) (files : FileStore Str UInt8) :
    Except Error Unit × FileStore Str UInt8 :=
  let tmpfile := tmpfilePath filename
  match writeFile range calls tmpfile files with
  | (.error err, files) => (.error err, unlinkFile range calls tmpfile files)
  | (.ok _, files) =>
      match renameFile range calls tmpfile filename files with
      | (.error err, files) => (.error err, unlinkFile range calls tmpfile files)
      | (.ok (), files) => (.ok (), files)

/-! ### What it is for -/

/-- On success the target holds exactly the bytes of the range; on an error it is as it was. -/
def SafeWriteSpec (filename : Str) (before : FileStore Str UInt8)
    (result : Except Error Unit × FileStore Str UInt8) : Prop :=
  match result.1 with
  | .ok () => result.2 filename = some range
  | .error _ => result.2 filename = before filename

variable {range}

theorem unlinkFile_of_ne (calls : SystemCalls range.length) {path other : Str}
    (files : FileStore Str UInt8) (differs : other ≠ path) :
    unlinkFile range calls path files other = files other := by
  unfold unlinkFile
  cases calls.unlinkCall with
  | error _ => rfl
  | ok _ => exact FileStore.remove_of_ne files differs

/-- What `write_file` does, by the outcomes of its two system calls: the file is opened without
truncation and its beginning is overwritten. -/
theorem writeFile_eq (calls : SystemCalls range.length) (filename : Str) (files : FileStore Str UInt8) :
    writeFile range calls filename files =
      match calls.openCall, calls.writeCall with
      | .error ec, _ => (.error (Error.ofCode ec), files)
      | .ok _, .error ec => (.error (Error.ofCode ec), files.openForWriting filename false)
      | .ok _, .ok count =>
          (.ok count, (files.openForWriting filename false).overwrite filename (range.take count)) := by
  unfold writeFile openFile writeFd
  cases calls.openCall with
  | error ec => rfl
  | ok _ => cases calls.writeCall <;> simp

/-- `write_file` changes no file but its own. -/
theorem writeFile_of_ne (calls : SystemCalls range.length) {filename other : Str}
    (files : FileStore Str UInt8) (differs : other ≠ filename) :
    (writeFile range calls filename files).2 other = files other := by
  rw [writeFile_eq]
  cases calls.openCall with
  | error _ => rfl
  | ok _ =>
      cases calls.writeCall with
      | error _ => exact FileStore.openForWriting_of_ne false files differs
      | ok count =>
          exact (FileStore.overwrite_of_ne _ _ differs).trans
            (FileStore.openForWriting_of_ne false files differs)

/-- Unless all three calls succeed, `safe_write_file` returns an error and the target is as it was. -/
theorem safeWriteFile_of_failure {calls : SystemCalls range.length} (filename : Str)
    (files : FileStore Str UInt8)
    (failure : ∀ count, calls.openCall = .ok () → calls.writeCall = .ok count →
      calls.renameCall ≠ .ok ()) :
    ∃ err, (safeWriteFile range calls filename files).1 = .error err ∧
      (safeWriteFile range calls filename files).2 filename = files filename := by
  have differs := tmpfilePath_ne filename
  have frame := writeFile_of_ne calls files differs
  unfold safeWriteFile
  cases step : writeFile range calls (tmpfilePath filename) files with
  | mk result after =>
      rw [step] at frame
      have restored := (unlinkFile_of_ne calls after differs).trans frame
      cases result with
      | error err =>
          simp only [step]
          exact ⟨err, rfl, restored⟩
      | ok _ =>
          cases renameEq : calls.renameCall with
          | error ec =>
              simp only [step, renameFile, renameEq]
              exact ⟨Error.ofCode ec, rfl, restored⟩
          | ok _ =>
              rw [writeFile_eq] at step
              cases openEq : calls.openCall with
              | error _ => simp [openEq] at step
              | ok _ =>
                  cases writeEq : calls.writeCall with
                  | error _ => simp [openEq, writeEq] at step
                  | ok count => exact absurd renameEq (failure count openEq writeEq)

/-- When all three calls succeed the target holds what was written, followed by what an older temporary
file held from there on. -/
theorem safeWriteFile_of_success {calls : SystemCalls range.length} (filename : Str)
    (files : FileStore Str UInt8)
    {count : {count : Nat // count ≤ range.length ∧ (0 < range.length → 0 < count)}}
    (opened : calls.openCall = .ok ()) (written : calls.writeCall = .ok count)
    (renamed : calls.renameCall = .ok ()) :
    (safeWriteFile range calls filename files).1 = .ok () ∧
      (safeWriteFile range calls filename files).2 filename =
        some (overwritten (range.take count) ((files (tmpfilePath filename)).getD [])) := by
  have step := writeFile_eq calls (tmpfilePath filename) files
  simp only [opened, written] at step
  simp only [safeWriteFile, step, renameFile, renamed, true_and]
  rw [FileStore.rename_new, FileStore.overwrite_self, FileStore.openForWriting_self]
  rfl

/-- `safe_write_file` keeps its promise exactly when one of the calls fails or the older temporary file
held, from where the write stopped, just the rest of the range. -/
theorem safeWrite_spec_iff (calls : SystemCalls range.length) (filename : Str)
    (files : FileStore Str UInt8) :
    SafeWriteSpec range filename files (safeWriteFile range calls filename files) ↔
      ∀ count, calls.openCall = .ok () → calls.writeCall = .ok count → calls.renameCall = .ok () →
        ((files (tmpfilePath filename)).getD []).drop count = range.drop count := by
  by_cases success : ∃ count, calls.openCall = .ok () ∧ calls.writeCall = .ok count ∧
      calls.renameCall = .ok ()
  · obtain ⟨count, opened, written, renamed⟩ := success
    obtain ⟨result, content⟩ := safeWriteFile_of_success filename files opened written renamed
    have restOfRange : overwritten (range.take count) ((files (tmpfilePath filename)).getD []) = range ↔
        ((files (tmpfilePath filename)).getD []).drop count = range.drop count :=
      overwritten_take_eq_iff count.property.1
    simp only [SafeWriteSpec, result, content, Option.some.injEq, restOfRange]
    constructor
    · intro rest other _ otherWritten _
      rw [written] at otherWritten
      cases otherWritten
      exact rest
    · intro rest
      exact rest count opened written renamed
  · have failure : ∀ count, calls.openCall = .ok () → calls.writeCall = .ok count →
        calls.renameCall ≠ .ok () :=
      fun count opened written renamed => success ⟨count, opened, written, renamed⟩
    obtain ⟨err, result, content⟩ := safeWriteFile_of_failure filename files failure
    simp only [SafeWriteSpec, result, content, true_iff]
    exact fun count opened written renamed => absurd renamed (failure count opened written)

private def leftover : FileStore Str UInt8 :=
  fun name => if name = "conf.tmp".toList then some [1, 2, 3, 4, 5] else none

private def completeCalls : SystemCalls 2 :=
  { openCall := .ok (), writeCall := .ok ⟨2, by decide⟩, renameCall := .ok (), unlinkCall := .ok () }

/-- The tail of a longer temporary file, left behind by an earlier run, ends up in the target, and the
result is success. -/
theorem safeWrite_spec_fails :
    ¬ SafeWriteSpec [7, 8] "conf".toList leftover
      (safeWriteFile [7, 8] completeCalls "conf".toList leftover) := by
  have content : (safeWriteFile [7, 8] completeCalls "conf".toList leftover).2 "conf".toList =
      some [7, 8, 3, 4, 5] := by decide
  intro spec
  change (safeWriteFile [7, 8] completeCalls "conf".toList leftover).2 "conf".toList = some [7, 8] at spec
  rw [content] at spec
  exact absurd spec (by decide)

end Nihil.Posix

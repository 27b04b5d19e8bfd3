/-
Module: Nihil.Posix.ReadFile
Layer: Posix
Purpose: The two loops that read a descriptor into an output iterator, read_file and
  fd_capture::run_in_parent. Each turn reads into the same buffer and copies what was read to the iterator
  by value. Through an iterator whose copies have a position each, the second chunk is therefore written over
  the first, and the output is what was read only up to one chunk (`delivers_iff`).
Imports: Nihil.Core.Error, Nihil.Library.FileStore, Nihil.Library.OutputProgram
Trusted boundary: a descriptor is the results of the calls of read(2) on it; behind them is the end of file.
Main exports: ReadResult, readFd, readFile, runInParent, copiesOf, readFile_eq_runOutputs,
  runInParent_eq_runOutputs, Chunk, delivers_iff
-/
import Nihil.Core.Error
import Nihil.Library.FileStore
import Nihil.Library.OutputProgram

namespace Nihil.Posix

open Nihil.Library

def bufsize : Nat := 1024

/-- What a call of read(2) with the buffer returns. -/
abbrev ReadResult := Except ErrorCode {bytes : List UInt8 // bytes.length ≤ bufsize}

/-- `read`: the part of the buffer that was read, and the buffer. -/
def readFd (result : ReadResult) (buffer : List UInt8) : Except Error (List UInt8) × List UInt8 :=
  match result with
  | .error ec => (.error (Error.ofCode ec), buffer)
  | .ok bytes =>
      let buffer := overwritten bytes.val buffer
      (.ok (buffer.take bytes.val.length), buffer)

section

variable {ι σ : Type} (out : OutputIterator ι σ UInt8)

/-- The loop of `read_file`. -/
def readLoop : List ReadResult → List UInt8 → ι × σ → Except Error Unit × ι × σ
  | [], _, cursor => (.ok (), cursor)
  | result :: file, buffer, cursor =>
      match readFd result buffer with
      | (.error err, _) => (.error err, cursor)
      | (.ok readBuf, buffer) =>
          if readBuf.isEmpty then (.ok (), cursor)
          else readLoop file buffer (out.copy readBuf cursor)

/-- `read_file`, with the outcome of `open`. -/
def readFile (file : Except ErrorCode (List ReadResult)) (cursor : ι × σ) : Except Error Unit × ι × σ :=
  match file with
  | .error ec => (.error (Error.ofCode ec), cursor)
  | .ok file => readLoop out file (List.replicate bufsize 0) cursor

/-- The loop of `fd_capture::run_in_parent`, which gives errors up. -/
def captureLoop : List ReadResult → List UInt8 → ι × σ → ι × σ
  | [], _, cursor => cursor
  | result :: fd, buffer, cursor =>
      match readFd result buffer with
      | (.error _, _) => cursor
      | (.ok ret, buffer) =>
          if ret.isEmpty then cursor
          else captureLoop fd buffer (out.copy ret cursor)

/-- `fd_capture::run_in_parent`, after the write end of the pipe was closed. -/
def runInParent (fd : List ReadResult) (cursor : ι × σ) : ι × σ :=
  captureLoop out fd (List.replicate bufsize 0) cursor

/-! ### The copies of a loop -/

@[simp] theorem readFd_ok (bytes : {bytes : List UInt8 // bytes.length ≤ bufsize}) (buffer : List UInt8) :
    readFd (.ok bytes) buffer = (.ok bytes.val, overwritten bytes.val buffer) := by
  have start : (overwritten bytes.val buffer).take bytes.val.length = bytes.val := List.take_left
  simp only [readFd, start]

/-- What both loops do with their iterator: they copy up to the end of file or an error. -/
def copiesOf : List ReadResult → List (Output UInt8)
  | [] => []
  | .error _ :: _ => []
  | .ok bytes :: results => if bytes.val.isEmpty then [] else .copy bytes.val :: copiesOf results

/-- How `read_file` ends. -/
def outcomeOf : List ReadResult → Except Error Unit
  | [] => .ok ()
  | .error ec :: _ => .error (Error.ofCode ec)
  | .ok bytes :: results => if bytes.val.isEmpty then .ok () else outcomeOf results

theorem readLoop_eq_runOutputs (file : List ReadResult) (buffer : List UInt8) (cursor : ι × σ) :
    readLoop out file buffer cursor = (outcomeOf file, runOutputs out (copiesOf file) cursor) := by
  induction file generalizing buffer cursor with
  | nil => rfl
  | cons result file ih =>
      cases result with
      | error ec => rfl
      | ok bytes =>
          simp only [readLoop, readFd_ok, outcomeOf, copiesOf]
          split
          · rfl
          · exact ih _ _

theorem readFile_eq_runOutputs (file : List ReadResult) (cursor : ι × σ) :
    readFile out (.ok file) cursor = (outcomeOf file, runOutputs out (copiesOf file) cursor) :=
  readLoop_eq_runOutputs out file _ cursor

theorem captureLoop_eq_runOutputs (fd : List ReadResult) (buffer : List UInt8) (cursor : ι × σ) :
    captureLoop out fd buffer cursor = runOutputs out (copiesOf fd) cursor := by
  induction fd generalizing buffer cursor with
  | nil => rfl
  | cons result fd ih =>
      cases result with
      | error ec => rfl
      | ok bytes =>
          simp only [captureLoop, readFd_ok, copiesOf]
          split
          · rfl
          · exact ih _ _

theorem runInParent_eq_runOutputs (fd : List ReadResult) (cursor : ι × σ) :
    runInParent out fd cursor = runOutputs out (copiesOf fd) cursor :=
  captureLoop_eq_runOutputs out fd _ cursor

end

/-! ### Chunks -/

/-- What a call of read(2) returns before the end of file. -/
abbrev Chunk := {bytes : List UInt8 // bytes ≠ [] ∧ bytes.length ≤ bufsize}

/-- A descriptor on which the chunks are read, then the end of file. -/
def descriptorOf (chunks : List Chunk) : List ReadResult :=
  chunks.map fun chunk => .ok ⟨chunk.val, chunk.property.2⟩

/-- The content of the file or pipe. -/
def contentOf (chunks : List Chunk) : List UInt8 :=
  (chunks.map Subtype.val).flatten

/-- A chunk is not the end of the file. -/
theorem chunk_not_isEmpty (chunk : Chunk) : ¬ chunk.val.isEmpty = true := by
  simpa using chunk.property.1

theorem copiesOf_descriptorOf (chunks : List Chunk) :
    copiesOf (descriptorOf chunks) = chunks.map fun chunk => .copy chunk.val := by
  induction chunks with
  | nil => rfl
  | cons chunk chunks ih =>
      have rest : copiesOf (List.map (fun chunk : Chunk => .ok ⟨chunk.val, chunk.property.2⟩) chunks) =
          chunks.map fun chunk => .copy chunk.val := ih
      rw [descriptorOf, List.map_cons, copiesOf, if_neg (chunk_not_isEmpty chunk), rest, List.map_cons]

theorem outcomeOf_descriptorOf (chunks : List Chunk) : outcomeOf (descriptorOf chunks) = .ok () := by
  induction chunks with
  | nil => rfl
  | cons chunk chunks ih =>
      rw [descriptorOf, List.map_cons, outcomeOf, if_neg (chunk_not_isEmpty chunk)]
      exact ih

theorem textOf_copies (chunks : List Chunk) :
    textOf (chunks.map fun chunk => Output.copy chunk.val) = contentOf chunks := by
  induction chunks with
  | nil => rfl
  | cons chunk chunks ih =>
      rw [List.map_cons, textOf_cons, ih]
      rfl

/-- Chunks keep their place only if there is at most one of them. -/
theorem copies_keepsPlace_iff (chunks : List Chunk) :
    (chunks.map fun chunk => Output.copy chunk.val).Pairwise KeepsPlace ↔ chunks.length ≤ 1 := by
  match chunks with
  | [] => exact iff_of_true List.Pairwise.nil (Nat.zero_le 1)
  | [chunk] => exact iff_of_true (List.pairwise_singleton _ _) (Nat.le_refl 1)
  | first :: second :: rest =>
      apply iff_of_false
      · intro keeps
        rcases (List.pairwise_cons.mp keeps).1 _ List.mem_cons_self with empty | blank
        · exact first.property.1 empty
        · exact second.property.1 blank
      · simp only [List.length_cons]
        omega

section

variable {ι σ : Type} (out : PositionIterator ι σ UInt8) (chunks : List Chunk)

/-- The content arrives at successive positions. -/
def Arrived (after : ι × σ) : Prop :=
  out.contents after.2 = writeAt (fun _ => none) (out.position out.start out.blank) (contentOf chunks)

/-- `read_file` succeeds and delivers the content. -/
def ReadFileDelivers : Prop :=
  let (result, after) := readFile out.toOutputIterator (.ok (descriptorOf chunks)) (out.start, out.blank)
  result = .ok () ∧ Arrived out chunks after

/-- `fd_capture::run_in_parent` delivers the content. -/
def CaptureDelivers : Prop :=
  Arrived out chunks (runInParent out.toOutputIterator (descriptorOf chunks) (out.start, out.blank))

theorem arrived_iff :
    Arrived out chunks
        (runOutputs out.toOutputIterator (copiesOf (descriptorOf chunks)) (out.start, out.blank)) ↔
      out.shared = true ∨ chunks.length ≤ 1 := by
  rw [← copies_keepsPlace_iff, ← PositionIterator.successive_iff, copiesOf_descriptorOf]
  unfold Arrived PositionIterator.Successive
  rw [textOf_copies]

/-- Both deliver what was read exactly if the copies of the iterator share their position or at most one
chunk was read. -/
theorem delivers_iff :
    (ReadFileDelivers out chunks ↔ out.shared = true ∨ chunks.length ≤ 1) ∧
      (CaptureDelivers out chunks ↔ out.shared = true ∨ chunks.length ≤ 1) := by
  constructor
  · unfold ReadFileDelivers
    rw [readFile_eq_runOutputs, outcomeOf_descriptorOf]
    exact (and_iff_right rfl).trans (arrived_iff out chunks)
  · unfold CaptureDelivers
    rw [runInParent_eq_runOutputs]
    exact arrived_iff out chunks

end

/-- A pointer and two chunks: the second is written over the first. -/
theorem not_delivers_pointer :
    ¬ ReadFileDelivers (PositionIterator.pointer UInt8)
        [⟨[97], by decide, by decide⟩, ⟨[98], by decide, by decide⟩] ∧
      ¬ CaptureDelivers (PositionIterator.pointer UInt8)
        [⟨[97], by decide, by decide⟩, ⟨[98], by decide, by decide⟩] := by
  constructor
  · rintro ⟨-, arrived⟩
    have first := congrFun arrived 0
    revert first
    decide
  · intro arrived
    have first := congrFun arrived 0
    revert first
    decide

end Nihil.Posix

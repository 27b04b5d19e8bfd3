/-
Module: Nihil.Posix.Tempfile
Layer: Posix
Purpose: tempfile and temporary_file over a store of named files that other programs use as well. A name is
  tried until its open does not fail with EEXIST, so that a file is only ever created; what is removed
  later is whatever has the name then. The temporary files that have a name are those of live objects,
  under the names that these will unlink, in exactly the runs in which nobody else touches such a name and
  no unlink fails (`tempfile_tidy_iff`).
Imports: Nihil.Core.Error, Nihil.Library.Run, Nihil.Library.Slots, Nihil.Posix.WriteFile
Trusted boundary: ::open with O_CREAT and O_EXCL creates a file or fails; ::unlink removes a name or fails;
  a file is known by its path. The path of an object that was moved from is not looked at.
Main exports: randomName, tempfileName, Holder, TempfileState, tempfile, TempfileAction, tempfileStep, Tidy,
  Undisturbed, tempfile_tidy_iff
-/
import Nihil.Core.Error
import Nihil.Library.Run
import Nihil.Library.Slots
import Nihil.Posix.WriteFile

namespace Nihil.Posix

open Nihil.Library

/-! ### Names -/

/-- The characters of a random name. -/
def randchars : Str :=
  "abcdefghijklmnopqrstuvwxyzABCDEFGHIJKLMNOPQRSTUVWXYZ0123456789".toList

/-- What the distribution gives for one name. -/
abbrev Draws := Fin 12 → Fin randchars.length

/-- `random_name`. -/
def randomName (draws : Draws) : Str := List.ofFn fun i => randchars.get (draws i)

/-- The directory, by the value of TMPDIR. -/
def tempDir (tmpdir : Option Str) : Str := tmpdir.getD "/tmp".toList

/-- The name that one round of the loop tries. -/
def tempfileName (tmpdir : Option Str) (draws : Draws) : Str :=
  appendPath (tempDir tmpdir) (randomName draws ++ ".tmp".toList)

theorem tempfileName_ne_nil (tmpdir : Option Str) (draws : Draws) : tempfileName tmpdir draws ≠ [] := by
  unfold tempfileName appendPath
  split_ifs <;> simp

/-! ### Files and objects -/

/-- A file, whatever names it has. -/
inductive File where
  /-- The file that was created when tempfile had created `serial` files before. -/
  | temporary (serial : Nat)
  | other (id : Nat)
deriving DecidableEq, Repr

/-- What is responsible for a temporary file that is open. -/
inductive Holder where
  /-- A call of tempfile that was asked to unlink the file and did not do so yet. -/
  | call (file : Nat) (filename : Str)
  /-- A temporary_file, by the file of its `m_fd` and its `m_path`. -/
  | object (file : Nat) (path : Str)
deriving DecidableEq, Repr

/-- The temporary file that is open. -/
def Holder.file : Holder → Nat
  | .call file _ => file
  | .object file _ => file

/-- The name that will be unlinked. -/
def Holder.name? : Holder → Option Str
  | .call _ filename => some filename
  | .object _ path => if path = [] then none else some path

/-- What holds a file that was just opened: the call itself if it must unlink the file, and the object that
it returns otherwise. -/
def Holder.ofOpened (unlinks : Bool) (file : Nat) (filename : Str) : Holder :=
  if unlinks then .call file filename else .object file filename

/-- The name that will be unlinked, and the file that it is for. -/
def Holder.listed? (holder : Holder) : Option (Str × Nat) := holder.name?.map fun name => (name, holder.file)

/-- A temporary_file; there is nothing if `m_fd` is invalid. -/
abbrev TemporaryFile := Option (Nat × Str)

/-- `temporary_file::fd`. -/
def TemporaryFile.fd (object : TemporaryFile) : Except LogicError Nat :=
  match object with
  | none => .error ⟨"fd() called on empty temporary_file".toList⟩
  | some (file, _) => .ok file

/-- `temporary_file::path`. A released object has no path. -/
def TemporaryFile.path (object : TemporaryFile) : Except LogicError Str :=
  match object with
  | none => .error ⟨"path() called on unlinked temporary_file".toList⟩
  | some (_, path) =>
      if path = [] then .error ⟨"path() called on unlinked temporary_file".toList⟩ else .ok path

/-- The names of all files, the temporary files of the process and what was done to them. -/
structure TempfileState where
  files : Str → Option File
  holders : Slots Holder := []
  /-- How many files tempfile created. -/
  created : Nat := 0
  /-- The temporary files whose descriptor was closed. -/
  closed : List Nat := []
  /-- The files that the calls of unlink took a name from. -/
  unlinked : List File := []

namespace TempfileState

/-- The code EEXIST. -/
def eexist : ErrorCode := { value := 17, message := "File exists".toList }

/-- `open` with open_readwrite, open_create and open_exclusive: an error of the call, EEXIST, or a file that
did not exist before. -/
def openExclusive (state : TempfileState) (filename : Str) (failure : Option ErrorCode) :
    Except Error TempfileState :=
  match failure with
  | some ec => .error (Error.ofCode ec)
  | none =>
      if (state.files filename).isSome then .error (Error.ofCode eexist)
      else .ok { state with
        files := Function.update state.files filename (some (.temporary state.created))
        created := state.created + 1 }

/-- `unlink`. -/
def unlink (state : TempfileState) (path : Str) (failure : Option ErrorCode) :
    Except Error TempfileState :=
  match failure with
  | some ec => .error (Error.ofCode ec)
  | none =>
      match state.files path with
      | none => .error (Error.ofCode enoent)
      | some file =>
          .ok { state with
            files := Function.update state.files path none
            unlinked := state.unlinked ++ [file] }

/-- A call whose result is ignored. -/
def ignoring (state : TempfileState) (result : Except Error TempfileState) : TempfileState :=
  match result with
  | .ok after => after
  | .error _ => state

/-- Unlink the name of a holder, if there is one. -/
def unlinkName (state : TempfileState) (holder : Holder) (failure : Option ErrorCode) : TempfileState :=
  match holder.name? with
  | none => state
  | some name => state.ignoring (state.unlink name failure)

/-- What is left of object `i` after `m_fd.close()`. -/
def closeAt (state : TempfileState) (i file : Nat) (slot : Option (Option Holder)) : TempfileState :=
  { state with holders := state.holders.set i slot, closed := state.closed ++ [file] }

/-- `temporary_file::release` of object `i`. -/
def release (state : TempfileState) (i : Nat) (object : TemporaryFile) (failure : Option ErrorCode) :
    Except LogicError TempfileState :=
  match object with
  | none => .error ⟨"release() called on already-released tempfile".toList⟩
  | some (file, path) => .ok ((state.unlinkName (.object file path) failure).closeAt i file (some none))

/-- `temporary_file::~temporary_file` of object `i`. -/
def destroy (state : TempfileState) (i : Nat) (object : TemporaryFile) (failure : Option ErrorCode) :
    TempfileState :=
  match object with
  | none => { state with holders := state.holders.destroy i }
  | some (file, path) => (state.unlinkName (.object file path) failure).closeAt i file none

/-- The call of tempfile at `i` unlinks its file and returns. -/
def finish (state : TempfileState) (i file : Nat) (filename : Str) (failure : Option ErrorCode) :
    TempfileState :=
  let unlinked := state.unlinkName (.call file filename) failure
  { unlinked with holders := unlinked.holders.assign i (some (.object file [])) }

/-- A file that was just opened is held. -/
def hold (opened : TempfileState) (file : Nat) (filename : Str) (unlinks : Bool) : TempfileState :=
  { opened with holders := opened.holders.construct (some (Holder.ofOpened unlinks file filename)) }

end TempfileState

/-- How one round of the loop goes: the name that is drawn and the error of open, if it is not decided by
whether the name is in use. -/
structure Round where
  draws : Draws
  failure : Option ErrorCode

open TempfileState in
/-- `tempfile`, by the rounds of its loop and the outcome of the unlink; there is no result if the loop goes on
behind the rounds. -/
def tempfile (tmpdir : Option Str) (unlinks : Bool) (unlinkFailure : Option ErrorCode) :
    List Round → TempfileState → Option (Except Error TempfileState)
  | [], _ => none
  | round :: rounds, state =>
      let filename := tempfileName tmpdir round.draws
      match state.openExclusive filename round.failure with
      | .error err =>
          if err.isErrc eexist.value then tempfile tmpdir unlinks unlinkFailure rounds state
          else some (.error err)
      | .ok opened =>
          let held := opened.hold state.created filename unlinks
          some (.ok (if unlinks then held.finish state.holders.length state.created filename unlinkFailure
            else held))

/-- What a process does with temporary files, and what anybody does with names of files. -/
inductive TempfileAction where
  /-- One round of the loop of some call of tempfile. -/
  | attempt (tmpdir : Option Str) (unlinks : Bool) (round : Round)
  /-- The call at `i` unlinks its file and returns. -/
  | finish (i : Nat) (failure : Option ErrorCode)
  | moveConstruct (i : Nat)
  | release (i : Nat) (failure : Option ErrorCode)
  | destroy (i : Nat) (failure : Option ErrorCode)
  /-- Somebody else gives a name to a file, or takes it away. -/
  | other (name : Str) (file : Option File)

/-- A file that exists. -/
def TempfileState.Exists (state : TempfileState) : File → Prop
  | .temporary serial => serial < state.created
  | .other _ => True

instance (state : TempfileState) : (file : File) → Decidable (state.Exists file)
  | .temporary serial => inferInstanceAs (Decidable (serial < state.created))
  | .other _ => inferInstanceAs (Decidable True)

/-- The temporary_file of a holder; a call has none yet. -/
def Holder.object? : Option Holder → Option TemporaryFile
  | none => some none
  | some (.object file path) => some (some (file, path))
  | some (.call _ _) => none

/-- One action. It is not allowed for an object that does not live, and for a file that does not exist. -/
def tempfileStep (action : TempfileAction) (state : TempfileState) : Option TempfileState :=
  match action with
  | .attempt tmpdir unlinks round =>
      match state.openExclusive (tempfileName tmpdir round.draws) round.failure with
      | .error _ => some state
      | .ok opened => some (opened.hold state.created (tempfileName tmpdir round.draws) unlinks)
  | .finish i failure =>
      match state.holders.handle? i with
      | some (some (.call file filename)) => some (state.finish i file filename failure)
      | _ => none
  | .moveConstruct i =>
      ((state.holders.handle? i).bind Holder.object?).map fun _ =>
        { state with holders := state.holders.moveConstruct i }
  | .release i failure =>
      ((state.holders.handle? i).bind Holder.object?).map fun object =>
        match state.release i object failure with
        | .ok after => after
        | .error _ => state
  | .destroy i failure =>
      ((state.holders.handle? i).bind Holder.object?).map fun object => state.destroy i object failure
  | .other name file =>
      if ∀ found, file = some found → state.Exists found then
        some { state with files := Function.update state.files name file }
      else none

variable {state : TempfileState}

/-- An open that succeeds creates a file under a name that was not in use. -/
theorem openExclusive_ok_iff {filename : Str} {failure : Option ErrorCode} {opened : TempfileState} :
    state.openExclusive filename failure = .ok opened ↔
      failure = none ∧ state.files filename = none ∧ opened = { state with
        files := Function.update state.files filename (some (.temporary state.created))
        created := state.created + 1 } := by
  unfold TempfileState.openExclusive
  cases failure with
  | some ec => simp
  | none =>
      cases used : state.files filename with
      | some file => simp
      | none => simp [eq_comm]

/-- A call of tempfile that returns an object takes one step for every name that it tries, and one more if it
unlinks the file. -/
theorem tempfile_run {tmpdir : Option Str} {unlinks : Bool} {unlinkFailure : Option ErrorCode}
    {rounds : List Round} {after : TempfileState}
    (returned : tempfile tmpdir unlinks unlinkFailure rounds state = some (.ok after)) :
    ∃ tried, tried <+: rounds ∧
      run tempfileStep (tried.map (.attempt tmpdir unlinks) ++
        if unlinks then [.finish state.holders.length unlinkFailure] else []) state = some after := by
  induction rounds with
  | nil => cases returned
  | cons round rounds ih =>
      rw [tempfile] at returned
      cases done : state.openExclusive (tempfileName tmpdir round.draws) round.failure with
      | error err =>
          simp only [done] at returned
          split_ifs at returned with used
          · obtain ⟨tried, earlier, ran⟩ := ih returned
            refine ⟨round :: tried, List.cons_prefix_cons.mpr ⟨rfl, earlier⟩, ?_⟩
            simp only [List.map_cons, List.cons_append, run, tempfileStep, done]
            exact ran
          · cases Option.some.inj returned
      | ok opened =>
          have same : opened.holders = state.holders := by
            obtain ⟨-, -, rfl⟩ := openExclusive_ok_iff.mp done
            rfl
          refine ⟨[round], List.cons_prefix_cons.mpr ⟨rfl, List.nil_prefix⟩, ?_⟩
          simp only [done] at returned
          cases Option.some.inj returned
          cases unlinks with
          | false => simp [run, tempfileStep, done]
          | true =>
              have held : (opened.hold state.created (tempfileName tmpdir round.draws) true).holders.handle?
                  state.holders.length =
                  some (some (.call state.created (tempfileName tmpdir round.draws))) := by
                rw [TempfileState.hold, ← same, Slots.handle?_construct, if_pos rfl]
                rfl
              simp [run, tempfileStep, done, held]

/-! ### What it is for -/

/-- The temporary files that have names are those of live objects, each is closed once, and nothing else is
unlinked. -/
structure Tidy (state : TempfileState) : Prop where
  /-- A name leads to a temporary file exactly if something will unlink that name for that file. -/
  names : ∀ name file, state.files name = some (.temporary file) ↔
    state.holders.Stands Holder.listed? (name, file)
  /-- What tempfile opened is open for one live object, or was closed once. -/
  closedOnce : ∀ file < state.created,
    state.holders.holding (fun holder => holder.file = file) + state.closed.count file = 1
  /-- No file of somebody else is unlinked. -/
  unlinkedOwn : ∀ file ∈ state.unlinked, ∃ serial, file = .temporary serial

/-- The names of temporary files are left alone by everybody else, and they can be unlinked. -/
def Undisturbed (state : TempfileState) : TempfileAction → Prop
  | .finish _ failure => failure = none
  | .release i failure | .destroy i failure =>
      ∀ holder, state.holders.handle? i = some (some holder) → holder.name? ≠ none → failure = none
  | .other name file =>
      file = state.files name ∨
        ∀ serial, state.files name ≠ some (.temporary serial) ∧ file ≠ some (.temporary serial)
  | _ => True

/-- A tidy state whose temporary files are those that were created. -/
structure TempfileInvariant (state : TempfileState) : Prop where
  tidy : Tidy state
  held : ∀ i holder, state.holders.handle? i = some (some holder) → holder.file < state.created
  closed : ∀ file ∈ state.closed, file < state.created

theorem Holder.listed?_of_name? {holder : Holder} {name : Str} (named : holder.name? = some name) :
    holder.listed? = some (name, holder.file) := by
  rw [Holder.listed?, named]
  rfl

theorem Holder.listed?_eq_some_iff {holder : Holder} {name : Str} {file : Nat} :
    holder.listed? = some (name, file) ↔ holder.name? = some name ∧ holder.file = file := by
  unfold Holder.listed?
  constructor
  · intro named
    obtain ⟨found, named', same⟩ := Option.map_eq_some_iff.mp named
    cases same
    exact ⟨named', rfl⟩
  · rintro ⟨named, rfl⟩
    rw [named]
    rfl

@[simp] theorem Holder.file_ofOpened (unlinks : Bool) (file : Nat) (filename : Str) :
    (Holder.ofOpened unlinks file filename).file = file := by
  cases unlinks <;> rfl

theorem Holder.listed?_ofOpened (unlinks : Bool) (file : Nat) {filename : Str} (proper : filename ≠ []) :
    (Holder.ofOpened unlinks file filename).listed? = some (filename, file) := by
  rw [Holder.listed?_eq_some_iff]
  cases unlinks with
  | false => exact ⟨if_neg proper, rfl⟩
  | true => exact ⟨rfl, rfl⟩

theorem tempfileInvariant_start (others : Str → Option Nat) :
    TempfileInvariant { files := fun name => (others name).map .other } where
  tidy := by
    constructor
    · intro name file
      constructor
      · intro found
        obtain ⟨id, -, same⟩ := Option.map_eq_some_iff.mp found
        cases same
      · rintro ⟨i, holder, live, -⟩
        cases live
    · exact fun file before => absurd before (Nat.not_lt_zero file)
    · exact fun file member => absurd member List.not_mem_nil
  held := fun i holder live => by cases live
  closed := fun file member => absurd member List.not_mem_nil

/-- Two live objects never hold the same temporary file. -/
theorem TempfileInvariant.apart (invariant : TempfileInvariant state) :
    state.holders.Apart Holder.listed? := by
  rintro i j holder holder' ⟨name, file⟩ live live' named named'
  have same : holder.file = file := (Holder.listed?_eq_some_iff.mp named).2
  have same' : holder'.file = file := (Holder.listed?_eq_some_iff.mp named').2
  have created : file < state.created := same ▸ invariant.held i holder live
  have once := invariant.tidy.closedOnce file created
  exact Slots.eq_of_holding_le_one (Nat.le_of_add_right_le (Nat.le_of_eq once)) live'
    (decide_eq_true same') live (decide_eq_true same)

/-! ### Unlinking -/

/-- Nothing happens, or the name is taken from the file that has it. -/
theorem unlinkName_cases (state : TempfileState) (holder : Holder) (failure : Option ErrorCode) :
    state.unlinkName holder failure = state ∨
      ∃ name file, state.unlinkName holder failure =
        { state with
          files := Function.update state.files name none
          unlinked := state.unlinked ++ [file] } := by
  unfold TempfileState.unlinkName
  cases holder.name? with
  | none => exact Or.inl rfl
  | some name =>
      cases failure with
      | some ec => exact Or.inl rfl
      | none =>
          cases found : state.files name with
          | none =>
              left
              simp only [TempfileState.unlink, found]
              rfl
          | some file =>
              right
              refine ⟨name, file, ?_⟩
              simp only [TempfileState.unlink, found]
              rfl

@[simp] theorem holders_unlinkName (state : TempfileState) (holder : Holder) (failure : Option ErrorCode) :
    (state.unlinkName holder failure).holders = state.holders := by
  obtain same | ⟨name, file, same⟩ := unlinkName_cases state holder failure <;> rw [same]

@[simp] theorem created_unlinkName (state : TempfileState) (holder : Holder) (failure : Option ErrorCode) :
    (state.unlinkName holder failure).created = state.created := by
  obtain same | ⟨name, file, same⟩ := unlinkName_cases state holder failure <;> rw [same]

@[simp] theorem closed_unlinkName (state : TempfileState) (holder : Holder) (failure : Option ErrorCode) :
    (state.unlinkName holder failure).closed = state.closed := by
  obtain same | ⟨name, file, same⟩ := unlinkName_cases state holder failure <;> rw [same]

/-- An unlink that does not fail takes the name from the file of the holder. -/
theorem TempfileInvariant.unlinkName_eq (invariant : TempfileInvariant state) {i : Nat} {holder : Holder}
    (live : state.holders.handle? i = some (some holder)) {name : Str} (named : holder.name? = some name) :
    state.unlinkName holder none =
      { state with
        files := Function.update state.files name none
        unlinked := state.unlinked ++ [.temporary holder.file] } := by
  have found : state.files name = some (.temporary holder.file) :=
    (invariant.tidy.names name holder.file).mpr ⟨i, holder, live, Holder.listed?_of_name? named⟩
  simp only [TempfileState.unlinkName, TempfileState.unlink, named, found]
  rfl

theorem unlinkName_of_unnamed (state : TempfileState) {holder : Holder} (unnamed : holder.name? = none)
    (failure : Option ErrorCode) : state.unlinkName holder failure = state := by
  rw [TempfileState.unlinkName, unnamed]

theorem unlinkName_of_failed (state : TempfileState) (holder : Holder) (ec : ErrorCode) :
    state.unlinkName holder (some ec) = state := by
  unfold TempfileState.unlinkName
  cases holder.name? <;> rfl

/-- When a holder has unlinked its name, the other names of temporary files are left. -/
theorem TempfileInvariant.names_unlinkName (invariant : TempfileInvariant state) {i : Nat} {holder : Holder}
    (live : state.holders.handle? i = some (some holder)) {failure : Option ErrorCode}
    (done : holder.name? ≠ none → failure = none) {slot : Option (Option Holder)}
    (unnamed : slot.join.bind Holder.listed? = none) (name : Str) (file : Nat) :
    (state.unlinkName holder failure).files name = some (.temporary file) ↔
      Slots.Stands Holder.listed? (state.holders.set i slot) (name, file) := by
  rw [Slots.stands_set invariant.apart live, unnamed, ← invariant.tidy.names]
  simp only [reduceCtorEq, or_false, Option.bind_some, ne_eq, Holder.listed?_eq_some_iff]
  cases named : holder.name? with
  | none =>
      rw [unlinkName_of_unnamed state named]
      simp
  | some own =>
      have succeeded : failure = none := done (by rw [named]; exact Option.some_ne_none own)
      rw [succeeded, invariant.unlinkName_eq live named]
      have found : state.files own = some (.temporary holder.file) :=
        (invariant.tidy.names own holder.file).mpr ⟨i, holder, live, Holder.listed?_of_name? named⟩
      by_cases same : name = own
      · subst same
        simp [found]
      · have different : ¬ own = name := Ne.symm same
        simp [Function.update_of_ne same, different]

/-- When the unlink failed, the name still leads to the temporary file, and nothing will unlink it. -/
theorem TempfileInvariant.not_names_unlinkName (invariant : TempfileInvariant state) {i : Nat}
    {holder : Holder} (live : state.holders.handle? i = some (some holder)) {failure : Option ErrorCode}
    (undone : ¬ (holder.name? ≠ none → failure = none)) {slot : Option (Option Holder)}
    (unnamed : slot.join.bind Holder.listed? = none) :
    ¬ ∀ name file, (state.unlinkName holder failure).files name = some (.temporary file) ↔
      Slots.Stands Holder.listed? (state.holders.set i slot) (name, file) := by
  intro names
  obtain ⟨named, failed⟩ := Classical.not_imp.mp undone
  obtain ⟨own, named⟩ := Option.ne_none_iff_exists'.mp named
  obtain ⟨ec, rfl⟩ := Option.ne_none_iff_exists'.mp failed
  have entry := Holder.listed?_of_name? named
  have found : state.files own = some (.temporary holder.file) :=
    (invariant.tidy.names own holder.file).mpr ⟨i, holder, live, entry⟩
  have left := (names own holder.file).mp (by rw [unlinkName_of_failed]; exact found)
  rw [Slots.stands_set invariant.apart live, unnamed] at left
  rcases left with ⟨-, other⟩ | none_
  · exact other entry
  · cases none_

/-- What an unlink takes a name from is a temporary file. -/
theorem TempfileInvariant.unlinked_unlinkName (invariant : TempfileInvariant state) {i : Nat}
    {holder : Holder} (live : state.holders.handle? i = some (some holder)) (failure : Option ErrorCode) :
    ∀ file ∈ (state.unlinkName holder failure).unlinked, ∃ serial, file = .temporary serial := by
  cases failure with
  | some ec =>
      rw [unlinkName_of_failed]
      exact invariant.tidy.unlinkedOwn
  | none =>
      cases named : holder.name? with
      | none =>
          rw [unlinkName_of_unnamed state named]
          exact invariant.tidy.unlinkedOwn
      | some own =>
          rw [invariant.unlinkName_eq live named]
          intro file member
          rcases List.mem_append.mp member with earlier | new
          · exact invariant.tidy.unlinkedOwn file earlier
          · exact ⟨holder.file, List.mem_singleton.mp new⟩

/-! ### The steps -/

/-- An object or a call is replaced by an object without its temporary file, which is closed. -/
theorem TempfileInvariant.closeAt (invariant : TempfileInvariant state) {i : Nat} {holder : Holder}
    (live : state.holders.handle? i = some (some holder)) {failure : Option ErrorCode}
    (done : holder.name? ≠ none → failure = none) {slot : Option (Option Holder)} (empty : slot.join = none) :
    TempfileInvariant ((state.unlinkName holder failure).closeAt i holder.file slot) where
  tidy := by
    constructor
    · intro name file
      have unnamed : slot.join.bind Holder.listed? = none := by rw [empty]; rfl
      simpa [TempfileState.closeAt] using invariant.names_unlinkName live done unnamed name file
    · intro file created
      have replaced := Slots.holding_set (fun held : Holder => held.file = file) live slot
      have once := invariant.tidy.closedOnce file (by simpa [TempfileState.closeAt] using created)
      rw [empty, Slots.tally_some] at replaced
      simp only [TempfileState.closeAt, holders_unlinkName, closed_unlinkName, List.count_append,
        List.count_singleton, beq_iff_eq, decide_eq_true_eq, Slots.tally_none] at replaced ⊢
      split_ifs at replaced ⊢ <;> omega
    · exact invariant.unlinked_unlinkName live failure
  held := by
    intro k found there
    simp only [TempfileState.closeAt, holders_unlinkName, created_unlinkName] at there ⊢
    rw [Slots.handle?_set (Slots.lt_length_of_handle? live)] at there
    split_ifs at there with here
    · rw [there] at empty
      cases empty
    · exact invariant.held k found there
  closed := by
    intro file member
    simp only [TempfileState.closeAt, closed_unlinkName, created_unlinkName] at member ⊢
    rcases List.mem_append.mp member with earlier | new
    · exact invariant.closed file earlier
    · rw [List.mem_singleton.mp new]
      exact invariant.held i holder live

/-- The call of tempfile has unlinked its file, which the object that it returns holds. -/
theorem TempfileInvariant.finish (invariant : TempfileInvariant state) {i file : Nat} {filename : Str}
    (live : state.holders.handle? i = some (some (.call file filename))) :
    TempfileInvariant (state.finish i file filename none) where
  tidy := by
    constructor
    · intro name found
      have unnamed : (some (some (Holder.object file []))).join.bind Holder.listed? = none := rfl
      simpa [TempfileState.finish, Slots.assign] using
        invariant.names_unlinkName live (fun _ => rfl) unnamed name found
    · intro found created
      have replaced := Slots.holding_set (fun held : Holder => held.file = found) live
        (some (some (.object file [])))
      have once := invariant.tidy.closedOnce found (by simpa [TempfileState.finish] using created)
      have same : Slots.holding (fun held : Holder => decide (held.file = found))
          (state.holders.set i (some (some (.object file [])))) =
          state.holders.holding fun held : Holder => decide (held.file = found) :=
        Nat.add_right_cancel replaced
      simpa only [TempfileState.finish, holders_unlinkName, closed_unlinkName, Slots.assign, same] using once
    · exact invariant.unlinked_unlinkName live none
  held := by
    intro k holder there
    simp only [TempfileState.finish, holders_unlinkName, created_unlinkName] at there ⊢
    rw [Slots.handle?_assign live] at there
    split_ifs at there with here
    · cases there
      exact invariant.held i (.call file filename) live
    · exact invariant.held k holder there
  closed := by
    intro found member
    simp only [TempfileState.finish, closed_unlinkName, created_unlinkName] at member ⊢
    exact invariant.closed found member

/-- A file that did not exist before is created and held. -/
theorem TempfileInvariant.hold (invariant : TempfileInvariant state) {filename : Str}
    (proper : filename ≠ []) {opened : TempfileState} {failure : Option ErrorCode}
    (done : state.openExclusive filename failure = .ok opened) (unlinks : Bool) :
    TempfileInvariant (opened.hold state.created filename unlinks) := by
  obtain ⟨-, free, rfl⟩ := openExclusive_ok_iff.mp done
  have entry := Holder.listed?_ofOpened unlinks state.created proper
  refine ⟨⟨?_, ?_, invariant.tidy.unlinkedOwn⟩, ?_, ?_⟩
  · intro name file
    simp only [TempfileState.hold, Slots.stands_construct, Option.bind_some, entry,
      ← invariant.tidy.names]
    by_cases same : name = filename
    · subst same
      simp [free]
    · have different : ¬ filename = name := Ne.symm same
      simp [Function.update_of_ne same, different]
  · intro file before
    simp only [TempfileState.hold, Slots.holding_construct, Slots.tally_some, Holder.file_ofOpened,
      decide_eq_true_eq]
    rcases Nat.lt_succ_iff_lt_or_eq.mp before with earlier | rfl
    · rw [if_neg (Nat.ne_of_gt earlier)]
      exact invariant.tidy.closedOnce file earlier
    · have unheld : state.holders.holding (fun holder => holder.file = state.created) = 0 := by
        apply (Slots.holding_eq_zero_iff _ _).mpr
        intro i holder live
        simpa using Nat.ne_of_lt (invariant.held i holder live)
      have unclosed : state.closed.count state.created = 0 := by
        apply List.count_eq_zero.mpr
        exact fun member => Nat.lt_irrefl _ (invariant.closed _ member)
      rw [unheld, unclosed, if_pos rfl]
  · intro i holder live
    simp only [TempfileState.hold, Slots.handle?_construct] at live ⊢
    by_cases new : i = state.holders.length
    · rw [if_pos new] at live
      cases live
      rw [Holder.file_ofOpened]
      exact Nat.lt_succ_self _
    · rw [if_neg new] at live
      exact Nat.lt_succ_of_lt (invariant.held i holder live)
  · exact fun file member => Nat.lt_succ_of_lt (invariant.closed file member)

theorem TempfileInvariant.moveConstruct (invariant : TempfileInvariant state) {i : Nat}
    {held : Option Holder} (live : state.holders.handle? i = some held) :
    TempfileInvariant { state with holders := state.holders.moveConstruct i } where
  tidy := by
    constructor
    · intro name file
      exact (invariant.tidy.names name file).trans
        (Slots.stands_moveConstruct invariant.apart live (name, file)).symm
    · intro file created
      change Slots.holding _ (state.holders.moveConstruct i) + _ = 1
      rw [Slots.holding_moveConstruct _ live]
      exact invariant.tidy.closedOnce file created
    · exact invariant.tidy.unlinkedOwn
  held := by
    intro k holder there
    have joined : (state.holders.handle? i).join = held := congrArg Option.join live
    simp only [Slots.moveConstruct, joined, Slots.handle?_construct] at there
    split_ifs at there with new
    · cases there
      exact invariant.held i holder live
    · rw [Slots.handle?_assign live] at there
      split_ifs at there with here
      · cases there
      · exact invariant.held k holder there
  closed := invariant.closed

/-- Somebody else changes what a name means. -/
theorem TempfileInvariant.other (invariant : TempfileInvariant state) {name : Str} {file : Option File}
    (apart : Undisturbed state (.other name file)) :
    TempfileInvariant { state with files := Function.update state.files name file } where
  tidy := by
    constructor
    · intro found serial
      rw [← invariant.tidy.names]
      by_cases same : found = name
      · subst same
        change Function.update state.files found file found = _ ↔ _
        rw [Function.update_self]
        rcases apart with unchanged | apart
        · rw [unchanged]
        · exact iff_of_false (apart serial).2 (apart serial).1
      · change Function.update state.files name file found = _ ↔ _
        rw [Function.update_of_ne same]
    · exact invariant.tidy.closedOnce
    · exact invariant.tidy.unlinkedOwn
  held := invariant.held
  closed := invariant.closed

/-- A live temporary_file without its temporary file. -/
theorem TempfileInvariant.destroyEmpty (invariant : TempfileInvariant state) {i : Nat}
    (live : state.holders.handle? i = some none) :
    TempfileInvariant { state with holders := state.holders.destroy i } where
  tidy := by
    constructor
    · intro name file
      have replaced := Slots.stands_set invariant.apart live none (name, file)
      refine (invariant.tidy.names name file).trans (Iff.trans ?_ replaced.symm)
      simp
    · intro file created
      have replaced := Slots.holding_set (fun held : Holder => held.file = file) live none
      have same : (state.holders.destroy i).holding (fun held : Holder => held.file = file) =
          state.holders.holding fun held : Holder => held.file = file := replaced
      change Slots.holding _ (state.holders.destroy i) + _ = 1
      rw [same]
      exact invariant.tidy.closedOnce file created
    · exact invariant.tidy.unlinkedOwn
  held := by
    intro k holder there
    simp only [Slots.handle?_destroy live] at there
    split_ifs at there with here
    exact invariant.held k holder there
  closed := invariant.closed

theorem Holder.object?_eq_some_iff {held : Option Holder} {object : TemporaryFile} :
    Holder.object? held = some object ↔ held = object.map fun both => .object both.1 both.2 := by
  constructor
  · intro found
    rcases held with _ | _ | _
    · cases found
      rfl
    · cases found
    · cases found
      rfl
  · rintro rfl
    cases object <;> rfl

/-- The temporary_file that an action is about. -/
theorem object_of_bind {i : Nat} {object : TemporaryFile}
    (found : (state.holders.handle? i).bind Holder.object? = some object) :
    state.holders.handle? i = some (object.map fun both => .object both.1 both.2) := by
  obtain ⟨held, live, same⟩ := Option.bind_eq_some_iff.mp found
  rw [live, Holder.object?_eq_some_iff.mp same]

/-- Every action that disturbs no temporary file keeps the files tidy. -/
theorem TempfileInvariant.step (invariant : TempfileInvariant state) {action : TempfileAction}
    {after : TempfileState} (apart : Undisturbed state action)
    (taken : tempfileStep action state = some after) : TempfileInvariant after := by
  cases action with
  | attempt tmpdir unlinks round =>
      rw [tempfileStep] at taken
      cases done : state.openExclusive (tempfileName tmpdir round.draws) round.failure with
      | error err =>
          simp only [done] at taken
          cases taken
          exact invariant
      | ok opened =>
          simp only [done] at taken
          cases taken
          exact invariant.hold (tempfileName_ne_nil tmpdir round.draws) done unlinks
  | finish i failure =>
      rw [tempfileStep] at taken
      split at taken
      · next file filename live =>
          cases taken
          rw [show failure = none from apart]
          exact invariant.finish live
      · cases taken
  | moveConstruct i =>
      obtain ⟨object, found, rfl⟩ := Option.map_eq_some_iff.mp taken
      exact invariant.moveConstruct (object_of_bind found)
  | release i failure =>
      obtain ⟨object, found, rfl⟩ := Option.map_eq_some_iff.mp taken
      have live := object_of_bind found
      cases object with
      | none => exact invariant
      | some both => exact invariant.closeAt live (apart _ live) rfl
  | destroy i failure =>
      obtain ⟨object, found, rfl⟩ := Option.map_eq_some_iff.mp taken
      have live := object_of_bind found
      cases object with
      | none => exact invariant.destroyEmpty live
      | some both => exact invariant.closeAt live (apart _ live) rfl
  | other name file =>
      rw [tempfileStep] at taken
      split_ifs at taken with known
      cases taken
      exact invariant.other apart

theorem forall_of_empty {i : Nat} (live : state.holders.handle? i = some none) {p : Holder → Prop}
    (holder : Holder) (live' : state.holders.handle? i = some (some holder)) : p holder := by
  rw [live] at live'
  cases live'

theorem forall_of_live {i : Nat} {held : Holder} (live : state.holders.handle? i = some (some held))
    {p : Holder → Prop} (here : p held) (holder : Holder)
    (live' : state.holders.handle? i = some (some holder)) : p holder := by
  rw [live] at live'
  cases live'
  exact here

/-- An unlink that fails, or somebody else who changes what the name of a temporary file means or gives a
temporary file another name, leaves the files untidy. -/
theorem TempfileInvariant.disturbed (invariant : TempfileInvariant state) {action : TempfileAction}
    {after : TempfileState} (disturbs : ¬ Undisturbed state action)
    (taken : tempfileStep action state = some after) : ¬ Tidy after := by
  intro tidy
  cases action with
  | attempt tmpdir unlinks round => exact disturbs trivial
  | moveConstruct i => exact disturbs trivial
  | finish i failure =>
      rw [tempfileStep] at taken
      split at taken
      · next file filename live =>
          cases taken
          have undone : ¬ ((Holder.call file filename).name? ≠ none → failure = none) :=
            fun done => disturbs (done (Option.some_ne_none filename))
          have unnamed : (some (some (Holder.object file []))).join.bind Holder.listed? = none := rfl
          apply invariant.not_names_unlinkName live undone unnamed
          intro name found
          simpa [TempfileState.finish, Slots.assign] using tidy.names name found
      · cases taken
  | release i failure =>
      obtain ⟨object, found, rfl⟩ := Option.map_eq_some_iff.mp taken
      have live := object_of_bind found
      cases object with
      | none => exact disturbs (forall_of_empty live)
      | some both =>
          have undone : ¬ ((Holder.object both.1 both.2).name? ≠ none → failure = none) :=
            fun done => disturbs (forall_of_live live done)
          have unnamed : (some (none : Option Holder)).join.bind Holder.listed? = none := rfl
          apply invariant.not_names_unlinkName live undone unnamed
          intro name found
          simpa [TempfileState.release, TempfileState.closeAt] using tidy.names name found
  | destroy i failure =>
      obtain ⟨object, found, rfl⟩ := Option.map_eq_some_iff.mp taken
      have live := object_of_bind found
      cases object with
      | none => exact disturbs (forall_of_empty live)
      | some both =>
          have undone : ¬ ((Holder.object both.1 both.2).name? ≠ none → failure = none) :=
            fun done => disturbs (forall_of_live live done)
          have unnamed : (none : Option (Option Holder)).join.bind Holder.listed? = none := rfl
          apply invariant.not_names_unlinkName live undone unnamed
          intro name found
          simpa [TempfileState.destroy, TempfileState.closeAt] using tidy.names name found
  | other name file =>
      rw [tempfileStep] at taken
      split_ifs at taken with known
      cases taken
      apply disturbs
      by_cases unchanged : file = state.files name
      · exact Or.inl unchanged
      · refine Or.inr fun serial => ?_
        have names := fun found => (tidy.names name found).trans (invariant.tidy.names name found).symm
        simp only [Function.update_self] at names
        constructor
        · intro before
          exact unchanged (((names serial).mpr before).trans before.symm)
        · intro given
          exact unchanged (given.trans ((names serial).mp given).symm)

/-- The temporary files that have names are those of live objects in every state of a run exactly if no step
of it disturbs them. -/
theorem tempfile_tidy_iff (others : Str → Option Nat) (actions : List TempfileAction) :
    EveryState tempfileStep Tidy actions { files := fun name => (others name).map .other } ↔
      EveryStep tempfileStep Undisturbed actions { files := fun name => (others name).map .other } :=
  everyState_iff (fun _ invariant => invariant.tidy)
    (fun _ _ _ invariant apart taken => invariant.step apart taken)
    (fun _ _ _ invariant disturbs taken => invariant.disturbed disturbs taken)
    (tempfileInvariant_start others) actions

end Nihil.Posix

/-
Module: Nihil.Posix.SpawnTargets
Layer: Posix
Purpose: Which numbers the child of spawn has open, and at which files. Running one action closes the
  numbers it owns, lets the target refer to the child's side, and keeps every other number
  (`get_runInChild`). So a target survives exactly if no number that its own action or a later one owns is
  that target.
Imports: Nihil.Posix.Spawn
Trusted boundary: none
Main exports: Parent.Holds, Parent.holds_of_reachable, get_runInChild, TargetsFree, TargetsOpen,
  targetsOpen_iff, spawn_targets_iff
-/
import Mathlib.Data.List.Nodup
import Mathlib.Data.List.Perm.Subperm
import Nihil.Posix.Spawn

namespace Nihil.Posix

open Nihil.Library

/-! ### The numbers the parent's actions own -/

/-- The actions own different numbers, all of them open, and the child's side of each is what it was made
for. -/
structure Parent.Holds (parent : Parent) : Prop where
  nodup : parent.held.Nodup
  opened : ∀ fd ∈ parent.held, parent.table.get fd ≠ none
  childFile : ∀ made ∈ parent.made, parent.table.get made.action.childFd = some made.childFile

/-- The numbers of an action, the child's side first. -/
theorem SpawnAction.childFd_mem_held (action : SpawnAction) : action.childFd ∈ action.held := by
  cases action <;> exact List.mem_cons_self

theorem Made.held_subset {made : Made} {parent : Parent} (member : made ∈ parent.made) {fd : Nat}
    (owned : fd ∈ made.action.held) : fd ∈ parent.held :=
  List.mem_flatMap.mpr ⟨made, member, owned⟩

/-- A new action, made of numbers that were free, in a table that keeps every open number. -/
theorem Parent.Holds.add {parent : Parent} (holds : parent.Holds) {made : Made}
    {table : DescriptorTable OpenFile} (serial : Nat)
    (fresh : ∀ fd ∈ made.action.held, parent.table.get fd = none) (distinct : made.action.held.Nodup)
    (opened : ∀ fd ∈ made.action.held, table.get fd ≠ none)
    (childFile : table.get made.action.childFd = some made.childFile)
    (kept : ∀ fd, parent.table.get fd ≠ none → table.get fd = parent.table.get fd) :
    Parent.Holds { table := table, made := parent.made ++ [made], serial := serial } := by
  have held : Parent.held { table := table, made := parent.made ++ [made], serial := serial } =
      parent.held ++ made.action.held := by
    simp [Parent.held]
  constructor
  · rw [held]
    apply List.Nodup.append holds.nodup distinct
    intro fd earlier later
    exact holds.opened fd earlier (fresh fd later)
  · rw [held]
    intro fd member
    rcases List.mem_append.mp member with earlier | later
    · rw [kept fd (holds.opened fd earlier)]
      exact holds.opened fd earlier
    · exact opened fd later
  · intro other member
    rcases List.mem_append.mp member with earlier | later
    · have owned := Made.held_subset earlier other.action.childFd_mem_held
      exact (kept _ (holds.opened _ owned)).trans (holds.childFile other earlier)
    · cases List.mem_singleton.mp later
      exact childFile

/-- pipe() opens two different numbers that were free, for its two ends. -/
theorem openFile_openFile (table : DescriptorTable OpenFile) (first second : OpenFile) :
    let opened := table.openFile first
    let piped := opened.2.openFile second
    table.get opened.1 = none ∧ table.get piped.1 = none ∧ opened.1 ≠ piped.1 ∧
      piped.2.get opened.1 = some first ∧ piped.2.get piped.1 = some second ∧
      ∀ fd, table.get fd ≠ none → piped.2.get fd = table.get fd := by
  intro opened piped
  have firstFree : table.get opened.1 = none := table.get_lowestFree
  have secondFree : opened.2.get piped.1 = none := opened.2.get_lowestFree
  have afterFirst := table.get_openFile first
  have afterSecond := opened.2.get_openFile second
  have differs : opened.1 ≠ piped.1 := by
    intro same
    rw [← same, afterFirst, if_pos rfl] at secondFree
    contradiction
  rw [afterFirst, if_neg (Ne.symm differs)] at secondFree
  refine ⟨firstFree, secondFree, differs, ?_, ?_, ?_⟩
  · rw [afterSecond, if_neg differs, afterFirst, if_pos rfl]
  · rw [afterSecond, if_pos rfl]
  · intro fd isOpen
    rw [afterSecond, if_neg, afterFirst, if_neg]
    · rintro rfl
      exact isOpen firstFree
    · rintro rfl
      exact isOpen secondFree

/-- An action that owns the two numbers of a pipe, its child's side being one of the ends. -/
structure MadeOfPipe (serial readFd writeFd : Nat) (made : Made) : Prop where
  held : made.action.held = [readFd, writeFd] ∨ made.action.held = [writeFd, readFd]
  childFile : (made.action.childFd = readFd ∧ made.childFile = .readEnd serial) ∨
    (made.action.childFd = writeFd ∧ made.childFile = .writeEnd serial)

theorem Parent.Holds.makePipe {parent : Parent} (holds : parent.Holds) {make : Nat → Nat → Made}
    (madeOfPipe : ∀ readFd writeFd, MadeOfPipe parent.serial readFd writeFd (make readFd writeFd)) :
    (parent.makePipe make).Holds := by
  obtain ⟨readFree, writeFree, differs, readOpen, writeOpen, kept⟩ :=
    openFile_openFile parent.table (.readEnd parent.serial) (.writeEnd parent.serial)
  have shape := madeOfPipe (parent.table.openFile (.readEnd parent.serial)).1
    ((parent.table.openFile (.readEnd parent.serial)).2.openFile (.writeEnd parent.serial)).1
  apply holds.add
  · rcases shape.held with held | held <;> simp [held, readFree, writeFree]
  · rcases shape.held with held | held <;> simp [held, differs, Ne.symm differs]
  · rcases shape.held with held | held <;> simp [held, readOpen, writeOpen]
  · rcases shape.childFile with ⟨number, file⟩ | ⟨number, file⟩
    · rw [number, file]
      exact readOpen
    · rw [number, file]
      exact writeOpen
  · exact kept

theorem Parent.Holds.makeFdFile {parent : Parent} (holds : parent.Holds) (fdno : Nat) :
    (parent.makeFdFile fdno).Holds := by
  have free : parent.table.get (parent.table.openFile (.file parent.serial)).1 = none :=
    parent.table.get_lowestFree
  have opened := parent.table.get_openFile (.file parent.serial)
  apply holds.add
  · simpa [SpawnAction.held] using free
  · simp [SpawnAction.held]
  · simp [SpawnAction.held, opened]
  · simp [SpawnAction.childFd, opened]
  · intro fd isOpen
    rw [opened, if_neg]
    rintro rfl
    exact isOpen free

/-- Every step of the parent keeps the numbers of its actions apart and open. -/
theorem Parent.Holds.step {parent after : Parent} (holds : parent.Holds)
    (step : Parent.Step parent after) : after.Holds := by
  cases step with
  | makeFdReadPipe fdno =>
      exact holds.makePipe fun readFd writeFd => ⟨Or.inl rfl, Or.inl ⟨rfl, rfl⟩⟩
  | makeFdWritePipe fdno =>
      exact holds.makePipe fun readFd writeFd => ⟨Or.inr rfl, Or.inr ⟨rfl, rfl⟩⟩
  | makeCapture fdno =>
      exact holds.makePipe fun readFd writeFd => ⟨Or.inr rfl, Or.inr ⟨rfl, rfl⟩⟩
  | makeFdFile fdno => exact holds.makeFdFile fdno
  | other table kept =>
      constructor
      · exact holds.nodup
      · intro fd owned
        rw [kept fd owned]
        exact holds.opened fd owned
      · intro made member
        rw [kept _ (Made.held_subset member made.action.childFd_mem_held)]
        exact holds.childFile made member

theorem Parent.holds_of_reachable {start : DescriptorTable OpenFile} {parent : Parent}
    (reached : Parent.Reachable start parent) : parent.Holds := by
  induction reached with
  | refl => exact ⟨List.nodup_nil, fun fd owned => absurd owned List.not_mem_nil,
      fun made member => absurd member List.not_mem_nil⟩
  | tail _ step ih => exact ih.step step

/-! ### One action in the child -/

/-- What an action does to the table: its own numbers are free, its target refers to the child's side, and
nothing else changes. -/
theorem get_runInChild {action : SpawnAction} {table after : DescriptorTable OpenFile}
    (ran : action.runInChild table = some after) (fd : Nat) :
    after.get fd =
      if fd ∈ action.held then none
      else if fd = action.fdno then table.get action.childFd else table.get fd := by
  have pipe : ∀ {pipe : FdPipeBase} {after : DescriptorTable OpenFile},
      pipe.runInChild table = some after → after.get fd =
        if fd ∈ [pipe.childFd, pipe.parentFd] then none
        else if fd = pipe.fdno then table.get pipe.childFd else table.get fd := by
    intro pipe after ran
    unfold FdPipeBase.runInChild at ran
    cases duplicated : table.dup2 pipe.childFd pipe.fdno with
    | none => simp [duplicated] at ran
    | some middle =>
        simp only [duplicated, Option.some.injEq] at ran
        rw [← ran, DescriptorTable.get_close, DescriptorTable.get_close,
          DescriptorTable.get_dup2 duplicated]
        by_cases child : fd = pipe.childFd <;> by_cases other : fd = pipe.parentFd <;> simp [child, other]
  cases action with
  | fdReadPipe base => exact pipe ran
  | fdWritePipe base => exact pipe ran
  | fdCapture base => exact pipe ran
  | fdFile file =>
      change file.runInChild table = some after at ran
      unfold FdFile.runInChild at ran
      cases duplicated : table.dup2 file.fileFd file.fdno with
      | none => simp [duplicated] at ran
      | some middle =>
          simp only [duplicated, Option.some.injEq] at ran
          rw [← ran, DescriptorTable.get_close, DescriptorTable.get_dup2 duplicated]
          by_cases own : fd = file.fileFd
          · simp [SpawnAction.held, own]
          · have notOwn : fd ∉ (SpawnAction.fdFile file).held := by simpa [SpawnAction.held] using own
            rw [if_neg own, if_neg notOwn]
            rfl

/-! ### All actions -/

/-- The condition on the numbers: no target is a number that its own action or a later one owns. -/
def TargetsFree : List SpawnAction → Prop
  | [] => True
  | action :: actions => (∀ owner ∈ action :: actions, action.fdno ∉ owner.held) ∧ TargetsFree actions

/-- Every target refers to the child's side of its own action. -/
def TargetsOpen (actions : List Made) (child : DescriptorTable OpenFile) : Prop :=
  ∀ made ∈ actions, child.get made.action.fdno = some made.childFile

theorem runActions_cons {action : SpawnAction} {actions : List SpawnAction}
    {table child : DescriptorTable OpenFile} (ran : runActions (action :: actions) table = some child) :
    ∃ after, action.runInChild table = some after ∧ runActions actions after = some child := by
  rw [runActions] at ran
  cases first : action.runInChild table with
  | none => simp [first] at ran
  | some after =>
      rw [first] at ran
      exact ⟨after, rfl, ran⟩

/-- A number that no action owns and none has as its target stays what it is. -/
theorem get_runActions_of_untouched {actions : List SpawnAction} {table child : DescriptorTable OpenFile}
    (ran : runActions actions table = some child) {fd : Nat}
    (notOwned : ∀ action ∈ actions, fd ∉ action.held)
    (notTarget : fd ∉ actions.map SpawnAction.fdno) : child.get fd = table.get fd := by
  induction actions generalizing table with
  | nil =>
      cases ran
      rfl
  | cons action actions ih =>
      obtain ⟨after, first, rest⟩ := runActions_cons ran
      rw [List.map_cons, List.mem_cons, not_or] at notTarget
      have later := ih rest (fun other member => notOwned other (List.mem_cons_of_mem action member))
        notTarget.2
      rw [later, get_runInChild first, if_neg (notOwned action List.mem_cons_self),
        if_neg notTarget.1]

/-- A number that is closed and no target any more stays closed. -/
theorem get_runActions_of_closed {actions : List SpawnAction} {table child : DescriptorTable OpenFile}
    (ran : runActions actions table = some child) {fd : Nat} (closed : table.get fd = none)
    (notTarget : fd ∉ actions.map SpawnAction.fdno) : child.get fd = none := by
  induction actions generalizing table with
  | nil =>
      cases ran
      exact closed
  | cons action actions ih =>
      obtain ⟨after, first, rest⟩ := runActions_cons ran
      rw [List.map_cons, List.mem_cons, not_or] at notTarget
      apply ih rest _ notTarget.2
      rw [get_runInChild first, if_neg notTarget.1, closed, ite_self]

/-- A number that one of the actions owns and none of them has as its target ends up closed. -/
theorem get_runActions_of_owned {actions : List SpawnAction} {table child : DescriptorTable OpenFile}
    (ran : runActions actions table = some child) {fd : Nat} {owner : SpawnAction}
    (member : owner ∈ actions) (owned : fd ∈ owner.held)
    (notTarget : fd ∉ actions.map SpawnAction.fdno) : child.get fd = none := by
  induction actions generalizing table with
  | nil => contradiction
  | cons action actions ih =>
      obtain ⟨after, first, rest⟩ := runActions_cons ran
      rw [List.map_cons, List.mem_cons, not_or] at notTarget
      rcases List.mem_cons.mp member with rfl | later
      · apply get_runActions_of_closed rest _ notTarget.2
        rw [get_runInChild first, if_pos owned]
      · exact ih rest later notTarget.2

/-- The targets are open, each at the child's side of its action, exactly if no target is a number that its
own action or a later one owns. -/
theorem targetsOpen_iff {actions : List Made} {table child : DescriptorTable OpenFile}
    (childFile : ∀ made ∈ actions, table.get made.action.childFd = some made.childFile)
    (disjoint : actions.Pairwise fun made later => made.action.held.Disjoint later.action.held)
    (distinct : (actions.map fun made => made.action.fdno).Nodup)
    (ran : runActions (actions.map Made.action) table = some child) :
    TargetsOpen actions child ↔ TargetsFree (actions.map Made.action) := by
  induction actions generalizing table with
  | nil => simp [TargetsOpen, TargetsFree]
  | cons made actions ih =>
      obtain ⟨after, first, rest⟩ := runActions_cons ran
      obtain ⟨apart, disjoint⟩ := List.pairwise_cons.mp disjoint
      obtain ⟨notTarget, distinct⟩ := List.nodup_cons.mp distinct
      have notTargetLater : made.action.fdno ∉ (actions.map Made.action).map SpawnAction.fdno := by
        simpa using notTarget
      -- Later actions still find their own side, as long as this target is none of their numbers.
      have later (free : ∀ owner ∈ (made :: actions).map Made.action, made.action.fdno ∉ owner.held) :
          TargetsOpen actions child ↔ TargetsFree (actions.map Made.action) := by
        apply ih _ disjoint distinct rest
        intro other member
        have owned := other.action.childFd_mem_held
        have notTargeted : other.action.childFd ≠ made.action.fdno := by
          intro same
          exact free other.action (List.mem_map_of_mem (List.mem_cons_of_mem made member))
            (same ▸ owned)
        rw [get_runInChild first, if_neg (fun mine => apart other member mine owned),
          if_neg notTargeted]
        exact childFile other (List.mem_cons_of_mem made member)
      constructor
      · intro targets
        have here := targets made List.mem_cons_self
        have free : ∀ owner ∈ (made :: actions).map Made.action, made.action.fdno ∉ owner.held := by
          intro owner member owned
          rcases List.mem_cons.mp member with rfl | behind
          · have closed : after.get made.action.fdno = none := by
              rw [get_runInChild first, if_pos owned]
            rw [get_runActions_of_closed rest closed notTargetLater] at here
            contradiction
          · rw [get_runActions_of_owned rest behind owned notTargetLater] at here
            contradiction
        exact ⟨free, (later free).mp fun other member =>
          targets other (List.mem_cons_of_mem made member)⟩
      · rintro ⟨free, freeLater⟩ other member
        rcases List.mem_cons.mp member with rfl | behind
        · rw [get_runActions_of_untouched rest _ notTargetLater, get_runInChild first,
            if_neg (free _ List.mem_cons_self), if_pos rfl]
          · exact childFile _ List.mem_cons_self
          · exact fun owner member => free owner (List.mem_cons_of_mem _ member)
        · exact (later free).mpr freeLater other behind

/-- For every table of the parent and every way it makes its actions, and every selection of these with
different targets in any order: after run_in_child of all of them in the child's copy of the table, every
target is open at the child's side of its action exactly if no target is a number that its own action or a
later one owns. -/
theorem spawn_targets_iff (start : DescriptorTable OpenFile) (parent : Parent)
    (reached : Parent.Reachable start parent) (actions : List Made) (taken : actions.Subperm parent.made)
    (distinct : (actions.map fun made => made.action.fdno).Nodup) (child : DescriptorTable OpenFile)
    (ran : runActions (actions.map Made.action) parent.table = some child) :
    TargetsOpen actions child ↔ TargetsFree (actions.map Made.action) := by
  have holds := Parent.holds_of_reachable reached
  have apart : parent.made.Pairwise fun made later => made.action.held.Disjoint later.action.held :=
    (List.nodup_flatMap.mp holds.nodup).2
  have disjoint : actions.Pairwise fun made later => made.action.held.Disjoint later.action.held := by
    obtain ⟨selected, same, sublist⟩ := taken
    exact (same.pairwise_iff List.disjoint_symm).mp (apart.sublist sublist)
  exact targetsOpen_iff (fun made member => holds.childFile made (taken.subset member)) disjoint distinct ran

/-- Three standard streams. -/
private def standardStreams : DescriptorTable OpenFile :=
  ⟨[some (.inherited 0), some (.inherited 1), some (.inherited 2)]⟩

/-- A pipe to read from for the child's standard input, and a file for its standard output. -/
private def pipeAndFile : Parent :=
  (Parent.makeFdReadPipe { table := standardStreams } 0).makeFdFile 1

theorem spawn_targets_iff_pipeAndFile :
    TargetsOpen pipeAndFile.made
        ⟨[some (.readEnd 0), some (.file 1), some (.inherited 2), none, none, none]⟩ ↔
      TargetsFree (pipeAndFile.made.map Made.action) :=
  spawn_targets_iff standardStreams pipeAndFile
    (.tail (.single (.makeFdReadPipe _ 0)) (.makeFdFile _ 1)) pipeAndFile.made (List.Subperm.refl _)
    (by decide) _ (by decide)

/-- The same process with its standard input closed. -/
private def closedInput : DescriptorTable OpenFile :=
  ⟨[none, some (.inherited 1), some (.inherited 2)]⟩

private def pipeAtTarget : Parent :=
  Parent.makeFdReadPipe { table := closedInput } 0

/-- With its standard input closed, the parent gets the reading end at number 0, which is the target; the
dup2 does nothing, and closing the child's side leaves the child without standard input. -/
theorem spawn_targets_fail :
    Parent.Reachable closedInput pipeAtTarget ∧
      ∃ child, runActions (pipeAtTarget.made.map Made.action) pipeAtTarget.table = some child ∧
        child.get 0 = none ∧ ¬ TargetsOpen pipeAtTarget.made child := by
  refine ⟨.single (.makeFdReadPipe _ 0), ⟨[none, some (.inherited 1), some (.inherited 2), none]⟩,
    by decide, rfl, fun targets => ?_⟩
  have here := targets _ List.mem_cons_self
  contradiction

end Nihil.Posix

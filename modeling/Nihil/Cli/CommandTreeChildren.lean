/-
Module: Nihil.Cli.CommandTreeChildren
Layer: Cli
Purpose: command_tree_node::all_children as the coroutine that it is. It yields a child and then what a
  generator of the child's own children yields, so that at any time one frame is suspended in another down to
  the child that was yielded last, and each holds the place of the next one. A loop over it is a loop over
  the list of all nodes below, and every frame of the chain is gone behind it.
Imports: Nihil.Cli.CommandTree, Nihil.Core.GeneratorLoop
Trusted boundary: there is memory for the frames. Inside of a frame, `begin` has left the inner generator
  without a handle, so that only the iterator of the inner loop is recorded.
Main exports: ChildrenPoint, resumeAllChildren, destroyAllChildren, allChildren, Suspended, Reached,
  resume_suspended, runs_allChildren, rangeFor_allChildren
-/
import Nihil.Cli.CommandTree
import Nihil.Core.GeneratorLoop

namespace Nihil.Cli

open Nihil.Library
open Nihil.Generator

variable {H : Type}

/-- Where the body of `all_children` goes on. -/
inductive ChildrenPoint (H : Type) where
  /-- In front of the loop over `m_children`. -/
  | loop (children : List (Str × CommandTreeNode H))
  /-- Behind `co_yield node`. -/
  | yielded (node : CommandTreeNode H) (rest : List (Str × CommandTreeNode H))
  /-- Behind `co_yield child`, in the inner loop, whose iterator has this handle. -/
  | nested (it : Nat) (rest : List (Str × CommandTreeNode H))

abbrev ChildrenFrame (H : Type) := Frame (ChildrenPoint H) (CommandTreeNode H) Empty

/-! ### The coroutine -/

/-- `coroutine_handle::destroy`. If the frame is suspended in the inner loop, the iterator is destroyed and with
it the frame of the inner generator. -/
def destroyAllChildren : Nat → Nat → Heap (ChildrenFrame H) → Option (Heap (ChildrenFrame H))
  | 0, _, _ => none
  | fuel + 1, handle, frames => do
      let frame ← frames.cells handle
      match frame.rest with
      | some (.nested it _) =>
          let frames ← destroyAllChildren fuel it frames
          return frames.put handle none
      | _ => return frames.put handle none

/-- The frame is suspended, or at its end. -/
def suspendAt (handle : Nat) (resumed : Resumed (ChildrenPoint H) (CommandTreeNode H) Empty)
    (frames : Heap (ChildrenFrame H)) : Option (Heap (ChildrenFrame H)) := do
  let frame ← frames.cells handle
  return frames.put handle (some (frame.suspend true resumed))

/-- The next turn of the loop over `m_children`. -/
def nextChild : List (Str × CommandTreeNode H) → Resumed (ChildrenPoint H) (CommandTreeNode H) Empty
  | [] => .returns
  | (_, node) :: rest => .yields (.lvalue node) (.yielded node rest)

/-- A turn of the inner loop, behind `begin` or `operator++`. At its end the iterator is destroyed. -/
def nextNested (fuel handle it : Nat) (rest : List (Str × CommandTreeNode H))
    (frames : Heap (ChildrenFrame H)) : Option (Heap (ChildrenFrame H)) := do
  let inner ← frames.cells it
  match inner.rest with
  | none =>
      let frames ← destroyAllChildren fuel it frames
      suspendAt handle (nextChild rest) frames
  | some _ =>
      let child ← inner.value.get true
      suspendAt handle (.yields (.lvalue child) (.nested it rest)) frames

/-- `coroutine_handle::resume`, for so many frames in each other at most. -/
def resumeAllChildren : Nat → Nat → Heap (ChildrenFrame H) → Option (Heap (ChildrenFrame H))
  | 0, _, _ => none
  | fuel + 1, handle, frames => do
      let frame ← frames.cells handle
      match ← frame.rest with
      | .loop children => suspendAt handle (nextChild children) frames
      | .yielded node rest =>
          let it := frames.next
          let frames ← resumeAllChildren fuel it (frames.create { rest := some (.loop node.children) })
          nextNested fuel handle it rest frames
      | .nested it rest =>
          let frames ← resumeAllChildren fuel it frames
          nextNested fuel handle it rest frames

/-- `all_children` -/
def allChildren (fuel : Nat) : Coroutine (ChildrenPoint H) (CommandTreeNode H) Empty where
  resume := resumeAllChildren fuel
  destroy := destroyAllChildren fuel

/-! ### Frames in each other -/

/-- A frame from which these nodes are still to come, with the places of the frames that are suspended in it.
The fuel is enough for the frames that are, and for those that will be. -/
inductive Suspended (cells : Nat → Option (ChildrenFrame H)) :
    Nat → Nat → List (CommandTreeNode H) → List Nat → Prop where
  | loop {fuel handle : Nat} {frame : ChildrenFrame H} {children : List (Str × CommandTreeNode H)}
      (found : cells handle = some frame) (here : frame.rest = some (.loop children))
      (fits : Trie.forestHeight children ≤ fuel) :
      Suspended cells (fuel + 1) handle (Trie.forestDescendants children) [handle]
  | yielded {fuel handle : Nat} {frame : ChildrenFrame H} {node : CommandTreeNode H}
      {rest : List (Str × CommandTreeNode H)} (found : cells handle = some frame)
      (here : frame.rest = some (.yielded node rest)) (below : node.height ≤ fuel)
      (fits : Trie.forestHeight rest ≤ fuel) :
      Suspended cells (fuel + 1) handle (node.allChildren ++ Trie.forestDescendants rest) [handle]
  | nested {fuel handle it : Nat} {frame : ChildrenFrame H} {values : List (CommandTreeNode H)}
      {places : List Nat} {rest : List (Str × CommandTreeNode H)} (found : cells handle = some frame)
      (here : frame.rest = some (.nested it rest)) (inner : Suspended cells fuel it values places)
      (apart : handle ∉ places) (fits : Trie.forestHeight rest ≤ fuel) :
      Suspended cells (fuel + 1) handle (values ++ Trie.forestDescendants rest) (handle :: places)

/-- A frame that was resumed: it is at its end, or suspended where it yielded the first of the nodes. -/
inductive Reached (cells : Nat → Option (ChildrenFrame H)) :
    Nat → Nat → List (CommandTreeNode H) → List Nat → Prop where
  | ended {fuel handle : Nat} {frame : ChildrenFrame H} (found : cells handle = some frame)
      (here : frame.rest = none) : Reached cells (fuel + 1) handle [] [handle]
  | yielded {fuel handle : Nat} {frame : ChildrenFrame H} {point : ChildrenPoint H} {value : CommandTreeNode H}
      {values : List (CommandTreeNode H)} {places : List Nat} (found : cells handle = some frame)
      (here : frame.rest = some point) (held : frame.value = .pointer value)
      (suspended : Suspended cells fuel handle values places) :
      Reached cells fuel handle (value :: values) places

section Frames

variable {frames after : Heap (ChildrenFrame H)} {frame : ChildrenFrame H} {fuel handle it : Nat}
variable {values : List (CommandTreeNode H)} {places : List Nat} {rest : List (Str × CommandTreeNode H)}

/-- Only the frames at its places matter. -/
theorem Suspended.of_agree {cells cells' : Nat → Option (ChildrenFrame H)}
    (suspended : Suspended cells fuel handle values places)
    (agree : ∀ place ∈ places, cells' place = cells place) : Suspended cells' fuel handle values places := by
  induction suspended with
  | loop found here fits => exact .loop (by rw [agree _ List.mem_cons_self, found]) here fits
  | yielded found here below fits => exact .yielded (by rw [agree _ List.mem_cons_self, found]) here below fits
  | nested found here inner apart fits ih =>
      exact .nested (by rw [agree _ List.mem_cons_self, found]) here
        (ih fun place member => agree place (List.mem_cons_of_mem _ member)) apart fits

/-- When a frame is destroyed the frames in it are gone with it. -/
theorem destroy_suspended (suspended : Suspended frames.cells fuel handle values places) :
    Disposable (allChildren fuel) handle (Heap.without frames.cells places) frames := by
  induction suspended with
  | loop found here fits =>
      refine ⟨_, by simp [allChildren, destroyAllChildren, found, here]; rfl, ?_⟩
      rw [Heap.cells_put found, Heap.without_cons, Heap.without_nil]
  | yielded found here below fits =>
      refine ⟨_, by simp [allChildren, destroyAllChildren, found, here]; rfl, ?_⟩
      rw [Heap.cells_put found, Heap.without_cons, Heap.without_nil]
  | @nested fuel handle it frame values places rest found here inner apart fits ih =>
      obtain ⟨gone, destroyed, cells⟩ := ih
      have found' : gone.cells handle = some frame := by rw [cells, Heap.without, if_neg apart, found]
      have destroyed' : destroyAllChildren fuel it frames = some gone := destroyed
      refine ⟨_, by simp [allChildren, destroyAllChildren, found, here, destroyed']; rfl, ?_⟩
      rw [Heap.cells_put found', cells, Heap.without_cons]

theorem Reached.leaves (reached : Reached frames.cells fuel handle values places) :
    Disposable (allChildren fuel) handle (Heap.without frames.cells places) frames := by
  cases reached with
  | ended found here =>
      refine ⟨_, by simp [allChildren, destroyAllChildren, found, here]; rfl, ?_⟩
      rw [Heap.cells_put found, Heap.without_cons, Heap.without_nil]
  | yielded found here held suspended => exact destroy_suspended suspended

/-- What a resumption does: the first of the nodes is yielded, and nothing changes but the places of the frame
and of the frames in it. -/
def Steps (frames : Heap (ChildrenFrame H)) (fuel handle : Nat) (values : List (CommandTreeNode H))
    (places : List Nat) (ran : Option (Heap (ChildrenFrame H))) : Prop :=
  ∃ after places', ran = some after ∧ Heap.without after.cells places' = Heap.without frames.cells places
    ∧ Reached after.cells fuel handle values places'

theorem steps_nextChild (found : frames.cells handle = some frame) (fits : Trie.forestHeight rest ≤ fuel) :
    Steps frames (fuel + 1) handle (Trie.forestDescendants rest) [handle]
      (suspendAt handle (nextChild rest) frames) := by
  let frame' := frame.suspend true (nextChild rest)
  have cells : (frames.put handle (some frame')).cells = Function.update frames.cells handle (some frame') :=
    Heap.cells_put found _
  have found' : (frames.put handle (some frame')).cells handle = some frame' := by
    rw [cells, Function.update_self]
  refine ⟨frames.put handle (some frame'), [handle], by simp [suspendAt, found, frame'], ?_, ?_⟩
  · rw [cells, Heap.without_update List.mem_cons_self]
  · cases rest with
    | nil => exact .ended found' rfl
    | cons child rest =>
        obtain ⟨word, node⟩ := child
        rw [Trie.forestHeight] at fits
        exact .yielded found' rfl rfl
          (.yielded found' rfl (Nat.le_trans (Nat.le_max_left _ _) fits)
            (Nat.le_trans (Nat.le_max_right _ _) fits))

theorem steps_nextNested (found : frames.cells handle = some frame)
    (reached : Reached frames.cells fuel it values places) (apart : handle ∉ places)
    (fits : Trie.forestHeight rest ≤ fuel) :
    Steps frames (fuel + 1) handle (values ++ Trie.forestDescendants rest) (handle :: places)
      (nextNested fuel handle it rest frames) := by
  obtain ⟨gone, destroyed, cells⟩ := reached.leaves
  cases reached with
  | @ended _ _ inner foundInner here =>
      have found' : gone.cells handle = some frame := by rw [cells, Heap.without, if_neg apart, found]
      obtain ⟨after, places', ran, same, reached⟩ := steps_nextChild found' fits
      refine ⟨after, places', ?_, ?_, reached⟩
      · rw [← ran]
        have destroyed' : destroyAllChildren _ it frames = some gone := destroyed
        simp [nextNested, foundInner, here, destroyed']
      · rw [same, Heap.without_cons, Heap.without_nil, cells, ← Heap.without_cons]
  | @yielded _ _ inner point child values _ foundInner here held suspended =>
      let frame' := frame.suspend true (.yields (.lvalue child) (.nested it rest))
      have cells : (frames.put handle (some frame')).cells =
          Function.update frames.cells handle (some frame') := Heap.cells_put found _
      have found' : (frames.put handle (some frame')).cells handle = some frame' := by
        rw [cells, Function.update_self]
      refine ⟨frames.put handle (some frame'), handle :: places, ?_, ?_, ?_⟩
      · simp [nextNested, foundInner, here, held, Held.get, suspendAt, found, frame']
      · rw [cells, Heap.without_update List.mem_cons_self]
      · have kept : Suspended (frames.put handle (some frame')).cells fuel it values places := by
          apply suspended.of_agree
          intro place member
          rw [cells, Function.update_of_ne]
          rintro rfl
          exact apart member
        exact .yielded found' rfl rfl (.nested found' rfl kept apart fits)

/-- A turn of the inner loop, with the resumption in front of it. -/
theorem steps_nested (found : frames.cells handle = some frame) (apart : handle ∉ places)
    (fits : Trie.forestHeight rest ≤ fuel) {ran : Option (Heap (ChildrenFrame H))}
    (steps : Steps frames fuel it values places ran) :
    Steps frames (fuel + 1) handle (values ++ Trie.forestDescendants rest) (handle :: places)
      (ran.bind fun frames => nextNested fuel handle it rest frames) := by
  obtain ⟨after, places', rfl, same, reached⟩ := steps
  obtain ⟨found', apart'⟩ := Heap.kept_of_without same found apart
  obtain ⟨last, places'', ran, same', reached'⟩ := steps_nextNested found' reached apart' fits
  refine ⟨last, places'', ran, ?_, reached'⟩
  rw [same', Heap.without_cons, same, ← Heap.without_cons]

theorem height_eq (node : CommandTreeNode H) : node.height = Trie.forestHeight node.children + 1 := by
  cases node
  rfl

theorem allChildren_eq (node : CommandTreeNode H) :
    node.allChildren = Trie.forestDescendants node.children := by
  cases node
  rfl

/-- A new frame of `all_children`. -/
theorem suspended_create (frames : Heap (ChildrenFrame H)) {node : CommandTreeNode H}
    (below : node.height ≤ fuel) :
    Suspended (frames.create { rest := some (.loop node.children) }).cells fuel frames.next node.allChildren
      [frames.next] := by
  rw [height_eq] at below
  obtain ⟨fuel, rfl⟩ := Nat.exists_eq_succ_of_ne_zero (Nat.ne_of_gt (Nat.zero_lt_of_lt below))
  have found : (frames.create { rest := some (.loop node.children) }).cells frames.next =
      some { rest := some (.loop node.children) } := by
    rw [Heap.cells_create, Function.update_self]
  rw [allChildren_eq]
  exact .loop found rfl (Nat.le_of_succ_le_succ below)

theorem without_create (frames : Heap (ChildrenFrame H)) (frame : ChildrenFrame H) (places : List Nat) :
    Heap.without (frames.create frame).cells (frames.next :: places) = Heap.without frames.cells places := by
  rw [Heap.cells_create, Heap.without_update List.mem_cons_self,
    Heap.without_of_empty (Heap.cells_next frames)]

theorem resume_suspended (suspended : Suspended frames.cells fuel handle values places) :
    Steps frames fuel handle values places (resumeAllChildren fuel handle frames) := by
  induction fuel generalizing frames handle values places with
  | zero => cases suspended
  | succ fuel ih =>
      cases suspended with
      | loop found here fits =>
          have steps := steps_nextChild found fits
          simpa [resumeAllChildren, found, here] using steps
      | nested found here inner apart fits =>
          have steps := steps_nested found apart fits (ih inner)
          simpa [resumeAllChildren, found, here] using steps
      | @yielded _ _ frame node rest found here below fits =>
          let created := frames.create { rest := some (.loop node.children) }
          have other : handle ≠ frames.next := Heap.ne_next_of_live found
          have found' : created.cells handle = some frame := by
            rw [Heap.cells_create, Function.update_of_ne other, found]
          have apart : handle ∉ [frames.next] := by simpa using other
          obtain ⟨after, places, ran, same, reached⟩ :=
            steps_nested found' apart fits (ih (suspended_create frames below))
          refine ⟨after, places, ?_, ?_, reached⟩
          · rw [← ran]
            simp [resumeAllChildren, found, here, created]
          · have swapped : Heap.without created.cells [handle, frames.next] =
                Heap.without created.cells [frames.next, handle] := by
              simp only [Heap.without_cons, Heap.without_nil]
              exact Function.update_comm other.symm _ _ _
            rw [same, swapped, without_create]

/-- The coroutine yields the nodes, and can be destroyed wherever it is. -/
theorem runs_allChildren (suspended : Suspended frames.cells fuel handle values places) :
    Runs (allChildren fuel) true handle (Heap.without frames.cells places) (values.map .lvalue) .returns
      frames := by
  induction values generalizing frames places with
  | nil =>
      obtain ⟨after, places', ran, same, reached⟩ := resume_suspended suspended
      have leaves := reached.leaves
      rw [same] at leaves
      cases reached with
      | @ended _ _ frame found here =>
          exact .returns ⟨ran, found, leaves⟩ here (Option.eq_none_iff_forall_ne_some.mpr nofun)
  | cons value values ih =>
      obtain ⟨after, places', ran, same, reached⟩ := resume_suspended suspended
      have leaves := reached.leaves
      rw [same] at leaves
      cases reached with
      | yielded found here held suspended' =>
          have runs := ih suspended'
          rw [same] at runs
          exact .yields ⟨ran, found, leaves⟩ here held runs

end Frames

/-- A loop over `all_children` visits the nodes below, depth first, until it is left, and every frame that it
made is gone: that of its generator, and those of the generators in it. -/
theorem rangeFor_allChildren {σ : Type} (node : CommandTreeNode H) (visit : CommandTreeNode H → σ → Bool × σ)
    (world : σ) (deeper more : Nat) (self : Generators (ChildrenPoint H) (CommandTreeNode H) Empty) :
    ∃ ended world' last,
      forList true visit (node.allChildren.map .lvalue) .returns world = some (ended, world')
      ∧ rangeFor (allChildren (node.height + deeper)) true visit (node.allChildren.length + 1 + more)
          (.loop node.children) world self = some (some ended, world', last)
      ∧ ended ≠ .terminated
      ∧ Restored self last := by
  obtain ⟨ended, world', listed, goes⟩ := forList_lvalues Empty true visit node.allChildren world
  have suspended : Suspended (self.call (.loop node.children)).frames.cells (node.height + deeper)
      self.frames.next node.allChildren [self.frames.next] :=
    suspended_create self.frames (Nat.le_add_right _ _)
  have runs := runs_allChildren suspended
  have base : Heap.without (self.call (.loop node.children)).frames.cells [self.frames.next] =
      self.frames.cells := (without_create self.frames _ []).trans (Heap.without_nil _)
  rw [base] at runs
  have enough : (node.allChildren.map Yielded.lvalue).length < node.allChildren.length + 1 + more := by
    rw [List.length_map]
    exact Nat.lt_add_right more (Nat.lt_succ_self _)
  obtain ⟨last, ran, restored⟩ := rangeFor_of_runs runs enough listed
  exact ⟨ended, world', last, listed, ran, goes, restored goes⟩

end Nihil.Cli

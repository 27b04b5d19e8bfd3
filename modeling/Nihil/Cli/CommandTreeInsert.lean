/-
Module: Nihil.Cli.CommandTreeInsert
Layer: Cli
Purpose: What command_tree::insert does to the finite map a command tree denotes. The walk only adds stubs,
  on the way to the node it is looking for (`Grown`); an insertion that does not throw puts the command at
  its own words and leaves every other command alone (`Inserted`); an insertion that throws leaves the whole
  tree alone. From these steps follows, for every run of insertions, where the nodes of a tree are and where
  the command of every node comes from (`TreeInvariant`).
Imports: Nihil.Cli.CommandTree
Trusted boundary: none
Main exports: Grown, walkTo_grown, Inserted, insert_inserted, insert_duplicate, runInserts, ShortStub,
  TreeInvariant, TreeInvariant.insert, treeInvariant_runInserts
-/
import Nihil.Cli.CommandTree

namespace Nihil.Cli

open Nihil.Library

variable {H : Type}

/-! ### The walk -/

/-- `after` is `before` with stubs added on the way to `target`, which now exists. -/
structure Grown (before after : CommandTreeNode H) (target : NodePtr) : Prop where
  kept : ∀ ptr command, before.label ptr = some command → after.label ptr = some command
  created : ∀ ptr command, before.label ptr = none → after.label ptr = some command →
    ptr <+: target ∧ ∃ above word, ptr = above ++ [word] ∧
      command = Command.stub (stubPath after above word)
  exists_of_prefix : ∀ ptr, ptr <+: target → ∃ command, after.label ptr = some command
  listing : ∃ stubs : List (Command H), (∀ command ∈ stubs, command.invocable = false) ∧
    after.values.Perm (stubs ++ before.values)

/-- A stub is named after the parent of the node it is created under, so the name does not change when
nodes are added. -/
theorem stubPath_of_kept {before after : CommandTreeNode H} {self : NodePtr} {command : Command H}
    (kept : ∀ ptr command, before.label ptr = some command → after.label ptr = some command)
    (present : before.label self = some command) (word : Str) :
    stubPath before self word = stubPath after self word := by
  cases self with
  | nil => rfl
  | cons first rest =>
      obtain ⟨below, reached, _⟩ := Trie.label_eq_some_iff.mp present
      obtain ⟨above, reachedAbove⟩ :=
        Trie.exists_reach_of_prefix (List.dropLast_prefix (first :: rest)) reached
      have parentLabel : before.label (first :: rest).dropLast = some above.value :=
        Trie.label_eq_some_iff.mpr ⟨above, reachedAbove, rfl⟩
      simp only [stubPath, parent, commandPath, parentLabel, kept _ _ parentLabel]

theorem exists_label_of_prefix {root : CommandTreeNode H} {ptr self : NodePtr} {command : Command H}
    (isPrefix : ptr <+: self) (present : root.label self = some command) :
    ∃ command, root.label ptr = some command := by
  obtain ⟨below, reached, _⟩ := Trie.label_eq_some_iff.mp present
  obtain ⟨above, reachedAbove⟩ := Trie.exists_reach_of_prefix isPrefix reached
  exact ⟨above.value, Trie.label_eq_some_iff.mpr ⟨above, reachedAbove, rfl⟩⟩

theorem Grown.refl {root : CommandTreeNode H} {self : NodePtr} {command : Command H}
    (present : root.label self = some command) : Grown root root self where
  kept _ _ label := label
  created _ _ missing label := by simp [missing] at label
  exists_of_prefix _ isPrefix := exists_label_of_prefix isPrefix present
  listing := ⟨[], by simp, by simp⟩

theorem Grown.trans {first second third : CommandTreeNode H} {target target' : NodePtr}
    (one : Grown first second target) (two : Grown second third target') (further : target <+: target') :
    Grown first third target' where
  kept ptr command label := two.kept ptr command (one.kept ptr command label)
  created ptr command missing label := by
    cases middle : second.label ptr with
    | none => exact two.created ptr command middle label
    | some old =>
        obtain ⟨onTheWay, above, word, ptrEq, stub⟩ := one.created ptr old missing middle
        have same : old = command := by
          have keptOld := two.kept ptr old middle
          rw [label] at keptOld
          exact (Option.some.inj keptOld).symm
        obtain ⟨parentCommand, parentLabel⟩ :=
          exists_label_of_prefix (ptrEq ▸ List.prefix_append above [word]) middle
        refine ⟨onTheWay.trans further, above, word, ptrEq, ?_⟩
        rw [← same, stub, stubPath_of_kept two.kept parentLabel]
  exists_of_prefix := two.exists_of_prefix
  listing := by
    obtain ⟨stubs, noneInvocable, listed⟩ := one.listing
    obtain ⟨stubs', noneInvocable', listed'⟩ := two.listing
    refine ⟨stubs' ++ stubs, ?_, ?_⟩
    · intro command member
      rcases List.mem_append.mp member with new | old
      · exact noneInvocable' command new
      · exact noneInvocable command old
    · rw [List.append_assoc]
      exact listed'.trans (listed.append_left stubs')

/-- One step of the walk. -/
theorem getOrCreateChild_grown {root : CommandTreeNode H} {self : NodePtr} {command : Command H}
    (present : root.label self = some command) (child : Str) :
    (getOrCreateChild root self child).2 = self ++ [child] ∧
      Grown root (getOrCreateChild root self child).1 (self ++ [child]) := by
  cases reached : root.reach (self ++ [child]) with
  | some below =>
      simp only [getOrCreateChild, reached, true_and]
      exact Grown.refl (Trie.label_eq_some_iff.mpr ⟨below, reached, rfl⟩)
  | none =>
      simp only [getOrCreateChild, reached, true_and]
      obtain ⟨node, reachedSelf, _⟩ := Trie.label_eq_some_iff.mp present
      have fresh : node.child? child = none := by
        simpa [Trie.reach_append, reachedSelf, Trie.reach_cons] using reached
      have label := Trie.label_grow reachedSelf fresh (Command.stub (stubPath root self child))
      have missing : root.label (self ++ [child]) = none := Trie.label_eq_none_iff.mpr reached
      have kept : ∀ ptr command, root.label ptr = some command →
          (root.grow self child (Command.stub (stubPath root self child))).label ptr = some command := by
        intro ptr command old
        rw [label, if_neg]
        · exact old
        · rintro rfl
          simp [missing] at old
      refine ⟨kept, ?_, ?_, ?_⟩
      · intro ptr command absent added
        rw [label] at added
        split at added
        · rename_i here
          refine ⟨here ▸ List.prefix_refl _, self, child, here, ?_⟩
          rw [← stubPath_of_kept kept present]
          exact (Option.some.inj added).symm
        · simp [absent] at added
      · intro ptr onTheWay
        rcases List.prefix_concat_iff.mp onTheWay with here | above
        · exact ⟨_, by rw [label, if_pos here]⟩
        · obtain ⟨old, oldLabel⟩ := exists_label_of_prefix above present
          exact ⟨old, kept ptr old oldLabel⟩
      · exact ⟨[Command.stub (stubPath root self child)], by simp,
          Trie.values_grow reachedSelf child _⟩

theorem walkTo_cons (root : CommandTreeNode H) (self : NodePtr) (word : Str) (words : List Str) :
    walkTo root self (word :: words) =
      walkTo (getOrCreateChild root self word).1 (getOrCreateChild root self word).2 words := rfl

/-- The whole walk: induction on the words that are left. -/
theorem walkTo_grown {root : CommandTreeNode H} {self : NodePtr} {command : Command H}
    (present : root.label self = some command) (words : List Str) :
    (walkTo root self words).2 = self ++ words ∧
      Grown root (walkTo root self words).1 (self ++ words) := by
  induction words generalizing root self command with
  | nil => simpa [walkTo] using Grown.refl present
  | cons word words ih =>
      obtain ⟨ptrEq, step⟩ := getOrCreateChild_grown present word
      obtain ⟨child, childLabel⟩ := step.exists_of_prefix _ (List.prefix_refl _)
      rw [walkTo_cons, ptrEq]
      obtain ⟨finalEq, rest⟩ := ih childLabel
      rw [List.append_assoc, List.singleton_append] at finalEq rest
      exact ⟨finalEq, step.trans rest ⟨words, by simp⟩⟩

/-- Along nodes that exist the walk changes nothing. -/
theorem walkTo_of_present {root : CommandTreeNode H} {self words : NodePtr} {command : Command H}
    (present : root.label (self ++ words) = some command) :
    walkTo root self words = (root, self ++ words) := by
  induction words generalizing self with
  | nil => simp [walkTo]
  | cons word words ih =>
      have presentWord : root.label ((self ++ [word]) ++ words) = some command := by
        simpa using present
      obtain ⟨below, reached, _⟩ := Trie.label_eq_some_iff.mp presentWord
      obtain ⟨child, reachedChild⟩ := Trie.exists_reach_of_prefix (List.prefix_append _ _) reached
      simp only [walkTo_cons, getOrCreateChild, reachedChild]
      simpa using ih presentWord

/-! ### One insertion -/

/-- The effect of an insertion that does not throw. -/
structure Inserted (before after : CommandTreeNode H) (command : Command H) : Prop where
  placed : after.label command.words = some command
  kept : ∀ ptr old, ptr ≠ command.words → before.label ptr = some old → after.label ptr = some old
  created : ∀ ptr stub, ptr ≠ command.words → before.label ptr = none → after.label ptr = some stub →
    ptr <+: command.words ∧ ∃ above word, ptr = above ++ [word] ∧
      stub = Command.stub (stubPath after above word)
  exists_of_prefix : ∀ ptr, ptr <+: command.words → ∃ command, after.label ptr = some command
  listing : (after.values.filter Command.invocable).Perm
    ([command].filter Command.invocable ++ before.values.filter Command.invocable)

theorem label_root (root : CommandTreeNode H) : root.label [] = some root.value := rfl

/-- A command whose node already holds an invocable command is refused and the tree stays as it is: the
walk has found every node it needed. -/
theorem insert_duplicate {tree : CommandTree H} {command old : Command H}
    (present : tree.rootNode.label command.words = some old) (invocable : old.invocable = true) :
    tree.insert command = (tree, some { what := "duplicate command".toList }) := by
  have walk : walkTo tree.rootNode [] command.words = (tree.rootNode, [] ++ command.words) :=
    walkTo_of_present present
  simp [CommandTree.insert, walk, setCommand, present, invocable]

/-- The name of a stub on the way to a node does not change when the node receives a command: the parent of
the node above the stub lies strictly above the node. -/
theorem stubPath_assign {root below : CommandTreeNode H} {target above : NodePtr}
    (reached : root.reach target = some below) {word : Str} (onTheWay : above ++ [word] <+: target)
    (command : Command H) :
    stubPath root above word = stubPath (root.assign target command) above word := by
  cases above with
  | nil => rfl
  | cons first rest =>
      have higher : (first :: rest).dropLast ≠ target := by
        intro equal
        have shorter := onTheWay.length_le
        rw [← equal, List.length_dropLast, List.length_append] at shorter
        simp only [List.length_cons] at shorter
        omega
      simp only [stubPath, parent, commandPath, Trie.label_assign reached command, if_neg higher]

/-- A command that takes the place of a stub joins the invocable commands. -/
theorem listing_assign {root below : CommandTreeNode H} {target : NodePtr}
    (reached : root.reach target = some below) (stub : below.value.invocable = false)
    (command : Command H) :
    ((root.assign target command).values.filter Command.invocable).Perm
      ([command].filter Command.invocable ++ root.values.filter Command.invocable) := by
  obtain ⟨others, before, after⟩ := Trie.values_assign reached
  have kept : (others.filter Command.invocable).Perm (root.values.filter Command.invocable) := by
    have both := before.symm.filter Command.invocable
    rwa [List.filter_cons, stub, if_neg Bool.false_ne_true] at both
  have changed := (after command).filter Command.invocable
  rw [← List.singleton_append, List.filter_append] at changed
  exact changed.trans (kept.append_left _)

/-- The nodes that a walk creates are not invocable. -/
theorem Grown.listing_invocable {before after : CommandTreeNode H} {target : NodePtr}
    (grown : Grown before after target) :
    (after.values.filter Command.invocable).Perm (before.values.filter Command.invocable) := by
  obtain ⟨stubs, noneInvocable, listed⟩ := grown.listing
  have stubsDropped : stubs.filter Command.invocable = [] := by
    simpa [List.filter_eq_nil_iff] using noneInvocable
  have both := listed.filter Command.invocable
  rwa [List.filter_append, stubsDropped, List.nil_append] at both

/-- Every other insertion succeeds. -/
theorem insert_inserted {tree : CommandTree H} {command : Command H}
    (free : ∀ old, tree.rootNode.label command.words = some old → old.invocable = false) :
    (tree.insert command).2 = none ∧
      Inserted tree.rootNode (tree.insert command).1.rootNode command := by
  obtain ⟨ptrEq, grown⟩ := walkTo_grown (label_root tree.rootNode) command.words
  rw [List.nil_append] at ptrEq grown
  generalize walked : (walkTo tree.rootNode [] command.words).1 = root at grown
  have walk : walkTo tree.rootNode [] command.words = (root, command.words) :=
    Prod.ext walked ptrEq
  obtain ⟨old, present⟩ := grown.exists_of_prefix _ (List.prefix_refl command.words)
  have oldStub : old.invocable = false := by
    cases before : tree.rootNode.label command.words with
    | some first =>
        have same := grown.kept _ _ before
        rw [present] at same
        exact Option.some.inj same ▸ free first before
    | none =>
        obtain ⟨_, above, word, _, stub⟩ := grown.created _ _ before present
        rw [stub, Command.invocable_stub]
  have result : tree.insert command = ({ rootNode := root.assign command.words command }, none) := by
    simp [CommandTree.insert, walk, setCommand, present, oldStub]
  obtain ⟨node, reached, nodeValue⟩ := Trie.label_eq_some_iff.mp present
  have label := Trie.label_assign reached command
  rw [result]
  refine ⟨rfl, ?_, ?_, ?_, ?_, ?_⟩
  · rw [label, if_pos rfl]
  · intro ptr old elsewhere oldLabel
    rw [label, if_neg elsewhere]
    exact grown.kept ptr old oldLabel
  · intro ptr stub elsewhere missing newLabel
    rw [label, if_neg elsewhere] at newLabel
    obtain ⟨onTheWay, above, word, ptrEq, stubEq⟩ := grown.created ptr stub missing newLabel
    refine ⟨onTheWay, above, word, ptrEq, ?_⟩
    rw [stubEq, stubPath_assign reached (ptrEq ▸ onTheWay) command]
  · intro ptr onTheWay
    by_cases here : ptr = command.words
    · exact ⟨command, by rw [label, if_pos here]⟩
    · obtain ⟨old, oldLabel⟩ := grown.exists_of_prefix ptr onTheWay
      exact ⟨old, by rw [label, if_neg here, oldLabel]⟩
  · have nodeStub : node.value.invocable = false := nodeValue ▸ oldStub
    exact (listing_assign reached nodeStub command).trans (grown.listing_invocable.append_left _)

/-! ### Runs of insertions -/

/-- A run of insertions on one tree; a caller goes on after an insertion that throws. -/
def runInserts (tree : CommandTree H) (commands : List (Command H)) : CommandTree H :=
  commands.foldl (fun tree command => (tree.insert command).1) tree

theorem runInserts_cons (tree : CommandTree H) (command : Command H) (commands : List (Command H)) :
    runInserts tree (command :: commands) = runInserts (tree.insert command).1 commands := rfl

/-- Insertions none of which throws are a run of insertions. -/
theorem runInserts_of_insertAll {tree after : CommandTree H} {commands : List (Command H)}
    (inserted : tree.insertAll commands = (after, none)) : runInserts tree commands = after := by
  induction commands generalizing tree with
  | nil => simpa [CommandTree.insertAll, runInserts] using inserted
  | cons command commands ih =>
      rw [CommandTree.insertAll] at inserted
      rw [runInserts_cons]
      cases step : tree.insert command with
      | mk next thrown =>
          cases thrown with
          | some thrown => simp [step] at inserted
          | none =>
              rw [step] at inserted
              exact ih inserted

/-- How far the path of a stub is from the words that lead to it: exact for the root and its children,
too short below. -/
def ShortStub (ptr : NodePtr) (stub : Command H) : Prop :=
  (ptr.length ≤ 1 ∧ stub.path = joinWords ' ' ptr) ∨
    (2 ≤ ptr.length ∧ stub.path.length < (joinWords ' ' ptr).length)

theorem ShortStub.path_length_le {ptr : NodePtr} {stub : Command H} (short : ShortStub ptr stub) :
    stub.path.length ≤ (joinWords ' ' ptr).length := by
  rcases short with ⟨_, exact'⟩ | ⟨_, shorter⟩
  · rw [exact']
  · exact Nat.le_of_lt shorter

/-- What holds of a tree after any run of insertions of `commands`. -/
structure TreeInvariant (commands : List (Command H)) (root : CommandTreeNode H) : Prop where
  present : ∀ ptr, (∃ command, root.label ptr = some command) ↔
    ptr = [] ∨ ∃ command ∈ commands, ptr <+: command.words
  provenance : ∀ ptr command, root.label ptr = some command →
    (command ∈ commands ∧ command.words = ptr) ∨
      ((∀ inserted ∈ commands, inserted.words ≠ ptr) ∧ command.invocable = false ∧
        ShortStub ptr command)

theorem treeInvariant_empty : TreeInvariant [] (CommandTree.empty : CommandTree H).rootNode where
  present ptr := by
    cases ptr <;> simp [CommandTree.empty, Trie.label, Trie.reach_cons]
  provenance ptr command label := by
    cases ptr with
    | nil =>
        have same : Command.stub [] = command := Option.some.inj label
        subst same
        exact Or.inr ⟨by simp, rfl, Or.inl ⟨by simp, rfl⟩⟩
    | cons word words => simp [CommandTree.empty, Trie.label, Trie.reach_cons] at label

/-- No command of a tree has a path longer than the words that lead to it. -/
theorem TreeInvariant.path_length_le {commands : List (Command H)} {root : CommandTreeNode H}
    (invariant : TreeInvariant commands root)
    (wellFormed : ∀ command ∈ commands, IsCommandPath command.path) {ptr : NodePtr}
    {command : Command H} (label : root.label ptr = some command) :
    command.path.length ≤ (joinWords ' ' ptr).length := by
  rcases invariant.provenance ptr command label with ⟨member, words⟩ | ⟨_, _, short⟩
  · rw [← words, (wellFormed command member).words_spec.2]
  · exact short.path_length_le

/-- A stub that an insertion creates is short, because the word before its own is missing from its path. -/
theorem Inserted.shortStub {before after : CommandTreeNode H} {command : Command H}
    (inserted : Inserted before after command) (wellFormed : IsCommandPath command.path)
    {above : NodePtr} {word : Str} (onTheWay : above ++ [word] <+: command.words)
    (bound : ∀ found, after.label above.dropLast = some found →
      found.path.length ≤ (joinWords ' ' above.dropLast).length) :
    ShortStub (above ++ [word]) (Command.stub (stubPath after above word) : Command H) := by
  by_cases top : above = []
  · subst top
    exact Or.inl ⟨by simp, by simp [stubPath, parent]⟩
  · have split := List.dropLast_append_getLast top
    have lastWord : above.getLast top ≠ [] := by
      have member := onTheWay.subset (List.mem_append_left [word] (List.getLast_mem top))
      exact (wellFormed.words_spec.1 _ member).1
    have shorter : (joinWords ' ' above.dropLast).length < (joinWords ' ' above).length := by
      conv_rhs => rw [← split]
      exact length_joinWords_lt_snoc ' ' _ lastWord
    obtain ⟨parentCommand, parentLabel⟩ := inserted.exists_of_prefix above.dropLast
      ((List.dropLast_prefix above).trans ((List.prefix_append above [word]).trans onTheWay))
    have named : stubPath after above word = parentCommand.path ++ " ".toList ++ word := by
      cases above with
      | nil => exact absurd rfl top
      | cons first rest => simp only [stubPath, parent, commandPath, parentLabel]; rfl
    have parentBound := bound parentCommand parentLabel
    have blank : " ".toList.length = 1 := rfl
    refine Or.inr ⟨?_, ?_⟩
    · have pos : 0 < above.length := List.length_pos_iff.mpr top
      simp only [List.length_append, List.length_singleton]
      omega
    · rw [Command.path_stub, named, length_joinWords_snoc ' ' top]
      simp only [List.length_append]
      omega

/-- After an insertion, too, no path is longer than the words that lead to it. The induction is on the
length of the address, because a stub is named after a node two levels up. -/
theorem Inserted.path_length_le {commands : List (Command H)} {before after : CommandTreeNode H}
    {command : Command H} (inserted : Inserted before after command)
    (invariant : TreeInvariant commands before)
    (wellFormed : ∀ command ∈ commands, IsCommandPath command.path)
    (wellFormedNew : IsCommandPath command.path) {ptr : NodePtr} {found : Command H}
    (label : after.label ptr = some found) :
    found.path.length ≤ (joinWords ' ' ptr).length := by
  generalize size : ptr.length = n
  induction n using Nat.strongRecOn generalizing ptr found with
  | _ n ih =>
    by_cases here : ptr = command.words
    · subst here
      rw [inserted.placed] at label
      rw [← Option.some.inj label, wellFormedNew.words_spec.2]
    · cases old : before.label ptr with
      | some first =>
          rw [inserted.kept ptr first here old] at label
          exact Option.some.inj label ▸ invariant.path_length_le wellFormed old
      | none =>
          obtain ⟨onTheWay, above, word, ptrEq, stub⟩ := inserted.created ptr found here old label
          subst ptrEq stub
          refine (inserted.shortStub wellFormedNew onTheWay ?_).path_length_le
          intro parentCommand parentLabel
          refine ih above.dropLast.length ?_ parentLabel rfl
          rw [← size, List.length_dropLast, List.length_append, List.length_singleton]
          omega

/-- A command whose words are those of a command inserted before makes no difference to the invariant. -/
theorem TreeInvariant.again {commands : List (Command H)} {root : CommandTreeNode H}
    (invariant : TreeInvariant commands root) {old command : Command H} (oldMember : old ∈ commands)
    (sameWords : old.words = command.words) : TreeInvariant (commands ++ [command]) root where
  present ptr := by
    rw [invariant.present ptr]
    constructor
    · rintro (root | ⟨inserted, member, onTheWay⟩)
      · exact Or.inl root
      · exact Or.inr ⟨inserted, List.mem_append_left _ member, onTheWay⟩
    · rintro (root | ⟨inserted, member, onTheWay⟩)
      · exact Or.inl root
      · rcases List.mem_append.mp member with earlier | new
        · exact Or.inr ⟨inserted, earlier, onTheWay⟩
        · rw [List.mem_singleton.mp new, ← sameWords] at onTheWay
          exact Or.inr ⟨old, oldMember, onTheWay⟩
  provenance ptr found label := by
    rcases invariant.provenance ptr found label with ⟨member, words⟩ | ⟨others, stub⟩
    · exact Or.inl ⟨List.mem_append_left _ member, words⟩
    · refine Or.inr ⟨fun inserted member => ?_, stub⟩
      rcases List.mem_append.mp member with earlier | new
      · exact others inserted earlier
      · rw [List.mem_singleton.mp new, ← sameWords]
        exact others old oldMember

/-- Where the nodes are after an insertion that does not throw. -/
theorem Inserted.present {commands : List (Command H)} {before after : CommandTreeNode H}
    {command : Command H} (inserted : Inserted before after command)
    (invariant : TreeInvariant commands before) (ptr : NodePtr) :
    (∃ found, after.label ptr = some found) ↔
      ptr = [] ∨ ∃ other ∈ commands ++ [command], ptr <+: other.words := by
  constructor
  · rintro ⟨found, label⟩
    by_cases here : ptr = command.words
    · exact Or.inr ⟨command, by simp, here ▸ List.prefix_refl _⟩
    · cases old : before.label ptr with
      | none => exact Or.inr ⟨command, by simp, (inserted.created ptr found here old label).1⟩
      | some first =>
          rcases (invariant.present ptr).mp ⟨first, old⟩ with root | ⟨earlier, member, onTheWay⟩
          · exact Or.inl root
          · exact Or.inr ⟨earlier, List.mem_append_left _ member, onTheWay⟩
  · rintro (root | ⟨new, member, onTheWay⟩)
    · exact ⟨after.value, root ▸ label_root after⟩
    · rcases List.mem_append.mp member with earlier | last
      · obtain ⟨old, label⟩ := (invariant.present ptr).mpr (Or.inr ⟨new, earlier, onTheWay⟩)
        by_cases here : ptr = command.words
        · exact ⟨command, here ▸ inserted.placed⟩
        · exact ⟨old, inserted.kept ptr old here label⟩
      · rw [List.mem_singleton.mp last] at onTheWay
        exact inserted.exists_of_prefix ptr onTheWay

/-- Where the command of a node comes from after an insertion that does not throw: it is the new one, the
one that was there, or a stub on the way to the new one. -/
theorem Inserted.provenance {commands : List (Command H)} {before after : CommandTreeNode H}
    {command : Command H} (inserted : Inserted before after command)
    (invariant : TreeInvariant commands before)
    (wellFormed : ∀ command ∈ commands, IsCommandPath command.path)
    (wellFormedNew : IsCommandPath command.path) {ptr : NodePtr} {found : Command H}
    (label : after.label ptr = some found) :
    (found ∈ commands ++ [command] ∧ found.words = ptr) ∨
      ((∀ other ∈ commands ++ [command], other.words ≠ ptr) ∧ found.invocable = false ∧
        ShortStub ptr found) := by
  by_cases here : ptr = command.words
  · subst here
    rw [inserted.placed] at label
    obtain rfl := Option.some.inj label
    exact Or.inl ⟨by simp, rfl⟩
  · have notNew : ∀ other ∈ [command], other.words ≠ ptr := by
      simpa using fun equal => here equal.symm
    cases old : before.label ptr with
    | some first =>
        rw [inserted.kept ptr first here old] at label
        obtain rfl := Option.some.inj label
        rcases invariant.provenance ptr first old with ⟨member, words⟩ | ⟨others, stub⟩
        · exact Or.inl ⟨List.mem_append_left _ member, words⟩
        · exact Or.inr ⟨fun other member =>
            (List.mem_append.mp member).elim (others other) (notNew other), stub⟩
    | none =>
        obtain ⟨onTheWay, above, word, ptrEq, stub⟩ := inserted.created ptr found here old label
        have notEarlier : ∀ other ∈ commands, other.words ≠ ptr := by
          rintro other member rfl
          obtain ⟨_, present⟩ :=
            (invariant.present other.words).mpr (Or.inr ⟨other, member, List.prefix_refl _⟩)
          simp [present] at old
        refine Or.inr ⟨fun other member =>
          (List.mem_append.mp member).elim (notEarlier other) (notNew other), by simp [stub], ?_⟩
        subst ptrEq stub
        apply inserted.shortStub wellFormedNew onTheWay
        intro parentCommand parentLabel
        exact inserted.path_length_le invariant wellFormed wellFormedNew parentLabel

/-- What one insertion preserves. -/
theorem TreeInvariant.insert {commands : List (Command H)} {tree : CommandTree H}
    (invariant : TreeInvariant commands tree.rootNode)
    (wellFormed : ∀ command ∈ commands, IsCommandPath command.path) {command : Command H}
    (wellFormedNew : IsCommandPath command.path) :
    TreeInvariant (commands ++ [command]) (tree.insert command).1.rootNode := by
  by_cases duplicate :
      ∃ old, tree.rootNode.label command.words = some old ∧ old.invocable = true
  · -- the insertion throws; the words of the command are the words of one inserted before
    obtain ⟨old, label, invocable⟩ := duplicate
    rw [insert_duplicate label invocable]
    rcases invariant.provenance _ old label with ⟨oldMember, oldWords⟩ | ⟨_, stub, _⟩
    · exact invariant.again oldMember oldWords
    · simp [invocable] at stub
  · have free : ∀ old, tree.rootNode.label command.words = some old → old.invocable = false := by
      intro old label
      by_contra invocable
      exact duplicate ⟨old, label, by simpa using invocable⟩
    have inserted := (insert_inserted free).2
    constructor
    · exact inserted.present invariant
    · intro ptr found label
      exact inserted.provenance invariant wellFormed wellFormedNew label

/-- What every run of insertions preserves. -/
theorem TreeInvariant.runInserts {done commands : List (Command H)} {tree : CommandTree H}
    (invariant : TreeInvariant done tree.rootNode)
    (wellFormed : ∀ command ∈ done ++ commands, IsCommandPath command.path) :
    TreeInvariant (done ++ commands) (runInserts tree commands).rootNode := by
  induction commands generalizing done tree with
  | nil => simpa [Cli.runInserts] using invariant
  | cons command commands ih =>
      have step := invariant.insert
        (fun earlier member => wellFormed earlier (List.mem_append_left _ member))
        (wellFormed command (by simp))
      rw [List.append_cons] at wellFormed ⊢
      exact ih step wellFormed

/-- The tree after any run of insertions into an empty tree. -/
theorem treeInvariant_runInserts {commands : List (Command H)}
    (wellFormed : ∀ command ∈ commands, IsCommandPath command.path) :
    TreeInvariant commands (runInserts CommandTree.empty commands).rootNode :=
  treeInvariant_empty.runInserts wellFormed

end Nihil.Cli

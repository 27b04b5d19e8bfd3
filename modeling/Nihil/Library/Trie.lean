/-
Module: Nihil.Library.Trie
Layer: Library
Purpose: Rose trees with keyed edges, for any key and label type. A node is addressed by the keys on the
  way to it, so a tree denotes a finite map from key sequences to labels (`label`) whose domain is closed
  under prefixes. The module gives the two updates a keyed tree needs, adding a leaf (`grow`) and replacing
  a label (`assign`), with their exact effect on that map and on the depth-first listing of the labels, and
  the greedy walk (`follow`), which stops at the longest key sequence the tree contains.
Imports: Nihil.Library.OrderedMap
Trusted boundary: none
Main exports: Trie, Trie.reach, Trie.label, Trie.grow, Trie.assign, Trie.values, Trie.descendants, Trie.height,
  Trie.follow, Trie.label_grow, Trie.label_assign, Trie.values_grow, Trie.values_assign, Trie.map,
  Trie.label_map, Trie.map_assign, Trie.map_grow, Trie.values_map, Trie.map_congr, Trie.follow_spec
-/
import Mathlib.Data.List.Basic
import Mathlib.Data.List.Infix
import Mathlib.Data.Nat.Find
import Nihil.Library.OrderedMap

namespace Nihil.Library

open scoped List

universe u v w

/-- A tree whose nodes carry a label and whose edges carry a key. -/
inductive Trie (κ : Type u) (α : Type v) : Type (max u v) where
  | node (value : α) (children : List (κ × Trie κ α))

namespace Trie

variable {κ : Type u} {α : Type v}

/-- The label of the topmost node. -/
def value : Trie κ α → α
  | .node value _ => value

/-- The keyed subtrees of the topmost node. -/
def children : Trie κ α → OrderedMap κ (Trie κ α)
  | .node _ children => children

/-- A node without children. -/
def leaf (value : α) : Trie κ α := .node value []

/-- Replace the label of the topmost node. -/
def setValue (value : α) : Trie κ α → Trie κ α
  | .node _ children => .node value children

@[simp] theorem value_leaf (value : α) : (leaf value : Trie κ α).value = value := rfl

@[simp] theorem value_setValue (value : α) (tree : Trie κ α) :
    (setValue value tree).value = value := by
  cases tree; rfl

@[simp] theorem children_setValue (value : α) (tree : Trie κ α) :
    (setValue value tree).children = tree.children := by
  cases tree; rfl

mutual

/-- All labels of a tree, depth first, every node before its children. -/
def values : Trie κ α → List α
  | .node value children => value :: forestValues children

/-- The labels of a list of keyed subtrees, in order. -/
def forestValues : List (κ × Trie κ α) → List α
  | [] => []
  | (_, tree) :: trees => values tree ++ forestValues trees

end

mutual

/-- All subtrees below the topmost node, depth first. -/
def descendants : Trie κ α → List (Trie κ α)
  | .node _ children => forestDescendants children

/-- A list of keyed subtrees, each followed by its own descendants. -/
def forestDescendants : List (κ × Trie κ α) → List (Trie κ α)
  | [] => []
  | (_, tree) :: trees => tree :: (descendants tree ++ forestDescendants trees)

end

mutual

/-- How many nodes there are on the longest way down. -/
def height : Trie κ α → Nat
  | .node _ children => forestHeight children + 1

/-- The height of the highest of the subtrees. -/
def forestHeight : List (κ × Trie κ α) → Nat
  | [] => 0
  | (_, tree) :: trees => max tree.height (forestHeight trees)

end

mutual

/-- The depth-first listing of the labels is the label of the node and the labels of its descendants. -/
theorem values_eq_cons_descendants : ∀ tree : Trie κ α,
    tree.values = tree.value :: tree.descendants.map value
  | .node label children => by
      rw [values, descendants, forestValues_eq_map children]
      rfl

theorem forestValues_eq_map : ∀ trees : List (κ × Trie κ α),
    forestValues trees = (forestDescendants trees).map value
  | [] => rfl
  | (_, tree) :: trees => by
      rw [forestValues, forestDescendants, values_eq_cons_descendants tree, forestValues_eq_map trees]
      simp

end

/-! ### Applying a function to every label -/

section Map

variable {β : Type w} {f g : α → β}

mutual

/-- Apply a function to every label. -/
def map (f : α → β) : Trie κ α → Trie κ β
  | .node value children => .node (f value) (forestMap f children)

/-- Apply a function to every label of a list of keyed subtrees. -/
def forestMap (f : α → β) : List (κ × Trie κ α) → List (κ × Trie κ β)
  | [] => []
  | (key, tree) :: trees => (key, map f tree) :: forestMap f trees

end

theorem forestMap_eq_mapValues (trees : OrderedMap κ (Trie κ α)) :
    forestMap f trees = OrderedMap.mapValues (map f) trees := by
  induction trees with
  | nil => simp [forestMap, OrderedMap.mapValues]
  | cons entry trees ih =>
      rw [forestMap, ih]
      rfl

theorem map_node (value : α) (children : OrderedMap κ (Trie κ α)) :
    (node value children).map f = node (f value) (OrderedMap.mapValues (map f) children) := by
  rw [map, forestMap_eq_mapValues]

@[simp] theorem map_leaf (value : α) : (leaf value : Trie κ α).map f = leaf (f value) :=
  map_node value []

@[simp] theorem value_map (tree : Trie κ α) : (tree.map f).value = f tree.value := by
  obtain ⟨label, children⟩ := tree
  rw [map_node]
  rfl

mutual

theorem values_map : ∀ tree : Trie κ α, (tree.map f).values = tree.values.map f
  | .node value children => by
      rw [map, values, values, forestValues_map children, List.map_cons]

theorem forestValues_map : ∀ trees : List (κ × Trie κ α),
    forestValues (forestMap f trees) = (forestValues trees).map f
  | [] => by simp [forestMap, forestValues]
  | (_, tree) :: trees => by
      rw [forestMap, forestValues, forestValues, values_map tree, forestValues_map trees, List.map_append]

end

mutual

/-- Only what a function does to the labels of the tree counts. -/
theorem map_congr : ∀ tree : Trie κ α, (∀ value ∈ tree.values, f value = g value) → tree.map f = tree.map g
  | .node value children, same => by
      rw [values] at same
      rw [map, map, same value List.mem_cons_self,
        forestMap_congr children fun value member => same value (List.mem_cons_of_mem _ member)]

theorem forestMap_congr : ∀ trees : List (κ × Trie κ α), (∀ value ∈ forestValues trees, f value = g value) →
    forestMap f trees = forestMap g trees
  | [], _ => by simp [forestMap]
  | (key, tree) :: trees, same => by
      rw [forestValues] at same
      rw [forestMap, forestMap, map_congr tree fun value member => same value (List.mem_append_left _ member),
        forestMap_congr trees fun value member => same value (List.mem_append_right _ member)]

end

end Map

variable [DecidableEq κ]

/-- The subtree below one edge. -/
def child? (tree : Trie κ α) (key : κ) : Option (Trie κ α) :=
  tree.children.find? key

/-- The subtree below a sequence of edges. -/
def reach : Trie κ α → List κ → Option (Trie κ α)
  | tree, [] => some tree
  | tree, key :: keys => (tree.child? key).bind fun child => child.reach keys

/-- The finite map a tree denotes: the label at the end of a key sequence. -/
def label (tree : Trie κ α) (keys : List κ) : Option α :=
  (tree.reach keys).map value

/-- Apply a change to the subtree below a sequence of edges. -/
def alter (f : Trie κ α → Trie κ α) : List κ → Trie κ α → Trie κ α
  | [], tree => f tree
  | key :: keys, .node value children =>
      .node value (OrderedMap.update key (alter f keys) children)

/-- Replace the label of the node at an address. -/
def assign (keys : List κ) (value : α) (tree : Trie κ α) : Trie κ α :=
  tree.alter (setValue value) keys

@[simp] theorem child?_leaf (value : α) (key : κ) : (leaf value).child? key = none := rfl

theorem child?_alter (f : Trie κ α → Trie κ α) (key probe : κ) (keys : List κ) (tree : Trie κ α) :
    (tree.alter f (key :: keys)).child? probe =
      if probe = key then (tree.child? probe).map (alter f keys) else tree.child? probe := by
  obtain ⟨value, children⟩ := tree
  exact OrderedMap.find?_update key probe (alter f keys) children

@[simp] theorem reach_nil (tree : Trie κ α) : tree.reach [] = some tree := rfl

theorem reach_cons (tree : Trie κ α) (key : κ) (keys : List κ) :
    tree.reach (key :: keys) = (tree.child? key).bind fun child => child.reach keys := rfl

theorem reach_append (tree : Trie κ α) (first second : List κ) :
    tree.reach (first ++ second) = (tree.reach first).bind fun below => below.reach second := by
  induction first generalizing tree with
  | nil => rfl
  | cons key keys ih =>
      simp only [List.cons_append, reach_cons, Option.bind_assoc]
      exact congrArg _ (funext fun child => ih child)

/-- The addresses of a tree are closed under prefixes. -/
theorem exists_reach_of_prefix {tree below : Trie κ α} {first keys : List κ}
    (isPrefix : first <+: keys) (reached : tree.reach keys = some below) :
    ∃ above, tree.reach first = some above := by
  obtain ⟨second, rfl⟩ := isPrefix
  rw [reach_append, Option.bind_eq_some_iff] at reached
  obtain ⟨above, reachedFirst, _⟩ := reached
  exact ⟨above, reachedFirst⟩

theorem label_append {tree below : Trie κ α} {first : List κ}
    (reached : tree.reach first = some below) (second : List κ) :
    tree.label (first ++ second) = below.label second := by
  simp [label, reach_append, reached]

theorem label_eq_some_iff {tree : Trie κ α} {keys : List κ} {value : α} :
    tree.label keys = some value ↔ ∃ below, tree.reach keys = some below ∧ below.value = value := by
  simp [label]

theorem label_eq_none_iff {tree : Trie κ α} {keys : List κ} :
    tree.label keys = none ↔ tree.reach keys = none := by
  simp [label]

theorem exists_label_iff {tree : Trie κ α} {keys : List κ} :
    (∃ value, tree.label keys = some value) ↔ (tree.reach keys).isSome := by
  simp [label, Option.isSome_iff_exists]

/-! ### Changing one subtree -/

/-- Below the changed address the change is what is seen. -/
theorem reach_alter (f : Trie κ α → Trie κ α) (keys : List κ) (tree : Trie κ α) :
    (tree.alter f keys).reach keys = (tree.reach keys).map f := by
  induction keys generalizing tree with
  | nil => rfl
  | cons key keys ih =>
      rw [reach_cons, reach_cons, child?_alter, if_pos rfl]
      cases tree.child? key with
      | none => rfl
      | some child => exact ih child

/-- A label whose address does not pass through the changed node stays. -/
theorem label_alter_outside (f : Trie κ α → Trie κ α) {keys probe : List κ}
    (outside : ¬ keys <+: probe) (tree : Trie κ α) :
    (tree.alter f keys).label probe = tree.label probe := by
  induction keys generalizing tree probe with
  | nil => exact absurd List.nil_prefix outside
  | cons key keys ih =>
      cases probe with
      | nil => cases tree; rfl
      | cons first probe =>
          simp only [label, reach_cons, child?_alter]
          by_cases same : first = key
          · subst same
            have outsideRest : ¬ keys <+: probe := by
              simpa [List.cons_prefix_cons] using outside
            cases tree.child? first with
            | none => simp
            | some child => simpa [label] using ih outsideRest child
          · simp [same]

/-- The whole effect of a change on the denoted map, for a node that exists. -/
theorem label_alter {tree below : Trie κ α} {keys : List κ}
    (reached : tree.reach keys = some below) (f : Trie κ α → Trie κ α) (probe : List κ)
    (spec : List κ → Option α) (inside : ∀ rest, (f below).label rest = spec (keys ++ rest))
    (outside : ∀ probe, ¬ keys <+: probe → tree.label probe = spec probe) :
    (tree.alter f keys).label probe = spec probe := by
  by_cases passes : keys <+: probe
  · obtain ⟨rest, rfl⟩ := passes
    have changed : (tree.alter f keys).reach keys = some (f below) := by
      rw [reach_alter, reached, Option.map_some]
    rw [label_append changed, inside]
  · rw [label_alter_outside f passes, outside probe passes]

theorem label_setValue (value : α) (tree : Trie κ α) (probe : List κ) :
    (setValue value tree).label probe = if probe = [] then some value else tree.label probe := by
  cases probe with
  | nil => simp [label]
  | cons key keys => simp [label, reach_cons, child?]

/-- Replacing a label changes the denoted map at that address only. -/
theorem label_assign {tree below : Trie κ α} {keys : List κ}
    (reached : tree.reach keys = some below) (value : α) (probe : List κ) :
    (tree.assign keys value).label probe =
      if probe = keys then some value else tree.label probe := by
  refine label_alter reached _ probe (fun probe => if probe = keys then some value else tree.label probe)
    ?_ ?_
  · intro rest
    rw [label_setValue, label_append reached]
    simp
  · intro probe outside
    rw [if_neg]
    rintro rfl
    exact outside (List.prefix_refl _)

omit [DecidableEq κ] in
/-- Labels put in front of a listing can be pulled past the label of the parent. -/
private theorem perm_parent {value : α} {inside others siblings listing child : List α}
    (listed : listing.Perm (child ++ siblings)) (split : child.Perm (inside ++ others)) :
    (value :: listing).Perm (inside ++ value :: (others ++ siblings)) :=
  calc value :: listing
    _ ~ value :: (child ++ siblings) := listed.cons value
    _ ~ value :: (inside ++ others ++ siblings) := (split.append_right siblings).cons value
    _ ~ value :: (inside ++ (others ++ siblings)) := by rw [List.append_assoc]
    _ ~ inside ++ value :: (others ++ siblings) := List.perm_middle.symm

/-- An update of one entry exchanges the labels listed for that entry. -/
theorem forestValues_update {key : κ} {child : Trie κ α} {entries : OrderedMap κ (Trie κ α)}
    (found : entries.find? key = some child) :
    ∃ siblings, (forestValues entries).Perm (child.values ++ siblings) ∧
      ∀ f, (forestValues (entries.update key f)).Perm ((f child).values ++ siblings) := by
  induction entries with
  | nil => simp at found
  | cons entry entries ih =>
      obtain ⟨k, first⟩ := entry
      by_cases hit : key = k
      · subst hit
        simp only [OrderedMap.find?_cons, if_true, Option.some.injEq] at found
        subst found
        exact ⟨forestValues entries, by simp [forestValues],
          fun f => by simp [OrderedMap.update, forestValues]⟩
      · simp only [OrderedMap.find?_cons, hit, if_false] at found
        obtain ⟨siblings, listed, changed⟩ := ih found
        refine ⟨first.values ++ siblings, ?_, fun f => ?_⟩
        · rw [forestValues]
          exact (listed.append_left _).trans (List.perm_append_comm_assoc _ _ _)
        · rw [OrderedMap.update, if_neg hit, forestValues]
          exact ((changed f).append_left _).trans (List.perm_append_comm_assoc _ _ _)

/-- A change exchanges the labels listed for the changed subtree and keeps all the others. -/
theorem values_alter {tree below : Trie κ α} {keys : List κ}
    (reached : tree.reach keys = some below) :
    ∃ others, tree.values.Perm (below.values ++ others) ∧
      ∀ f, (tree.alter f keys).values.Perm ((f below).values ++ others) := by
  induction keys generalizing tree with
  | nil =>
      cases reached
      exact ⟨[], by simp, fun f => by simp [alter]⟩
  | cons key keys ih =>
      obtain ⟨value, children⟩ := tree
      rw [reach_cons, Option.bind_eq_some_iff] at reached
      obtain ⟨child, found, reachedBelow⟩ := reached
      obtain ⟨others, before, after⟩ := ih reachedBelow
      obtain ⟨siblings, listed, changed⟩ := forestValues_update found
      exact ⟨value :: (others ++ siblings), perm_parent listed before,
        fun f => perm_parent (changed (alter f keys)) (after f)⟩

/-- Replacing a label exchanges one entry of the listing. -/
theorem values_assign {tree below : Trie κ α} {keys : List κ}
    (reached : tree.reach keys = some below) :
    ∃ others, tree.values.Perm (below.value :: others) ∧
      ∀ value, (tree.assign keys value).values.Perm (value :: others) := by
  obtain ⟨others, before, after⟩ := values_alter reached
  obtain ⟨old, children⟩ := below
  refine ⟨forestValues children ++ others, before, fun value => after (setValue value)⟩

/-! ### Adding a leaf -/

section Ordered

variable [LT κ] [DecidableLT κ]

/-- Give the topmost node one more child. -/
def addChild (key : κ) (value : α) : Trie κ α → Trie κ α
  | .node label children => .node label (OrderedMap.place key (leaf value) children)

/-- Give the node at an address one more child. -/
def grow (keys : List κ) (key : κ) (value : α) (tree : Trie κ α) : Trie κ α :=
  tree.alter (addChild key value) keys

theorem label_addChild {tree : Trie κ α} {key : κ} (fresh : tree.child? key = none) (value : α)
    (probe : List κ) :
    (tree.addChild key value).label probe =
      if probe = [key] then some value else tree.label probe := by
  obtain ⟨old, children⟩ := tree
  cases probe with
  | nil => rfl
  | cons first rest =>
      have added : ((node old children).addChild key value).child? first =
          if first = key then some (leaf value) else (node old children).child? first :=
        OrderedMap.find?_place (leaf value) fresh first
      simp only [label, reach_cons, added]
      by_cases same : first = key
      · subst same
        cases rest <;> simp [fresh, reach_cons]
      · simp [same]

/-- Adding a leaf changes the denoted map at the new address only. -/
theorem label_grow {tree below : Trie κ α} {keys : List κ} {key : κ}
    (reached : tree.reach keys = some below) (fresh : below.child? key = none) (value : α)
    (probe : List κ) :
    (tree.grow keys key value).label probe =
      if probe = keys ++ [key] then some value else tree.label probe := by
  refine label_alter reached _ probe
    (fun probe => if probe = keys ++ [key] then some value else tree.label probe) ?_ ?_
  · intro rest
    rw [label_addChild fresh, label_append reached]
    simp
  · intro probe outside
    rw [if_neg]
    rintro rfl
    exact outside (List.prefix_append _ _)

omit [DecidableEq κ] in
theorem forestValues_place (key : κ) (tree : Trie κ α) (trees : OrderedMap κ (Trie κ α)) :
    (forestValues (trees.place key tree)).Perm (tree.values ++ forestValues trees) := by
  induction trees with
  | nil => simp [OrderedMap.place, forestValues]
  | cons entry trees ih =>
      obtain ⟨k, other⟩ := entry
      by_cases less : key < k
      · simp [OrderedMap.place, less, forestValues]
      · simp only [OrderedMap.place, less, if_false, forestValues]
        exact (ih.append_left _).trans (List.perm_append_comm_assoc _ _ _)

/-- Adding a leaf adds its label to the listing. -/
theorem values_grow {tree below : Trie κ α} {keys : List κ}
    (reached : tree.reach keys = some below) (key : κ) (value : α) :
    (tree.grow keys key value).values.Perm (value :: tree.values) := by
  obtain ⟨others, before, after⟩ := values_alter reached
  obtain ⟨old, children⟩ := below
  have added : ((node old children).addChild key value).values.Perm
      (value :: (node old children).values) :=
    ((forestValues_place key (leaf value) children).cons old).trans (List.Perm.swap value old _)
  exact (after (addChild key value)).trans
    ((added.append_right others).trans (before.symm.cons value))

end Ordered

/-! ### Changing every label -/

section Map

variable {β : Type w} {f : α → β}

theorem reach_map (tree : Trie κ α) (keys : List κ) :
    (tree.map f).reach keys = (tree.reach keys).map (map f) := by
  induction keys generalizing tree with
  | nil => rfl
  | cons key keys ih =>
      have child : (tree.map f).child? key = (tree.child? key).map (map f) := by
        obtain ⟨value, children⟩ := tree
        rw [map_node]
        exact OrderedMap.find?_mapValues key children
      rw [reach_cons, reach_cons, child]
      cases tree.child? key with
      | none => rfl
      | some child => exact ih child

theorem label_map (tree : Trie κ α) (keys : List κ) :
    (tree.map f).label keys = (tree.label keys).map f := by
  simp only [label, reach_map, Option.map_map]
  exact congrArg (Option.map · (tree.reach keys)) (funext value_map)

/-- A change of one subtree can be made before or after. -/
theorem map_alter {change : Trie κ α → Trie κ α} {change' : Trie κ β → Trie κ β}
    (commutes : ∀ tree, (change tree).map f = change' (tree.map f)) (keys : List κ) (tree : Trie κ α) :
    (tree.alter change keys).map f = (tree.map f).alter change' keys := by
  induction keys generalizing tree with
  | nil => exact commutes tree
  | cons key keys ih =>
      obtain ⟨value, children⟩ := tree
      simp only [alter, map_node]
      rw [OrderedMap.mapValues_update ih]

theorem map_assign (keys : List κ) (value : α) (tree : Trie κ α) :
    (tree.assign keys value).map f = (tree.map f).assign keys (f value) := by
  refine map_alter (fun tree => ?_) keys tree
  obtain ⟨old, children⟩ := tree
  simp only [setValue, map_node]

theorem map_grow [LT κ] [DecidableLT κ] (keys : List κ) (key : κ) (value : α) (tree : Trie κ α) :
    (tree.grow keys key value).map f = (tree.map f).grow keys key (f value) := by
  refine map_alter (fun tree => ?_) keys tree
  obtain ⟨old, children⟩ := tree
  simp only [addChild, map_node, OrderedMap.mapValues_place, map_leaf]

end Map

/-! ### The greedy walk -/

/-- Walk down as long as the next key has a child. Returns the last node and the keys used up. -/
def follow : Trie κ α → List κ → Trie κ α × List κ
  | tree, [] => (tree, [])
  | tree, key :: keys =>
      match tree.child? key with
      | none => (tree, [])
      | some child => ((child.follow keys).1, key :: (child.follow keys).2)

/-- The length of the longest prefix of a key sequence that the tree contains. -/
def matched (tree : Trie κ α) (keys : List κ) : Nat :=
  Nat.findGreatest (fun length => (tree.reach (keys.take length)).isSome) keys.length

theorem follow_reach (tree : Trie κ α) (keys : List κ) :
    tree.reach (tree.follow keys).2 = some (tree.follow keys).1 := by
  induction keys generalizing tree with
  | nil => rfl
  | cons key keys ih =>
      cases found : tree.child? key with
      | none => simp [follow, found]
      | some child => simp [follow, found, reach_cons, ih child]

theorem follow_prefix (tree : Trie κ α) (keys : List κ) : (tree.follow keys).2 <+: keys := by
  induction keys generalizing tree with
  | nil => exact List.nil_prefix
  | cons key keys ih =>
      cases found : tree.child? key with
      | none => simp [follow, found]
      | some child => simpa [follow, found, List.cons_prefix_cons] using ih child

/-- The walk is not short: what the tree contains of the key sequence was walked. -/
theorem prefix_follow {tree below : Trie κ α} {first keys : List κ} (isPrefix : first <+: keys)
    (reached : tree.reach first = some below) : first <+: (tree.follow keys).2 := by
  induction first generalizing tree keys with
  | nil => exact List.nil_prefix
  | cons key first ih =>
      obtain ⟨second, rfl⟩ := isPrefix
      rw [reach_cons, Option.bind_eq_some_iff] at reached
      obtain ⟨child, found, reachedBelow⟩ := reached
      simpa [follow, found, List.cons_prefix_cons] using
        ih (List.prefix_append first second) reachedBelow

/-- The walk uses up exactly the longest prefix the tree contains. -/
theorem follow_spec (tree : Trie κ α) (keys : List κ) :
    (tree.follow keys).2 = keys.take (tree.matched keys) := by
  have isPrefix := follow_prefix tree keys
  have taken : (tree.follow keys).2 = keys.take (tree.follow keys).2.length :=
    List.prefix_iff_eq_take.mp isPrefix
  have longest : tree.matched keys = (tree.follow keys).2.length := by
    refine Nat.findGreatest_eq_iff.mpr ⟨isPrefix.length_le, fun _ => ?_, fun length longer _ => ?_⟩
    · rw [← taken, follow_reach, Option.isSome_some]
    · intro present
      obtain ⟨below, reached⟩ := Option.isSome_iff_exists.mp present
      have covered := (prefix_follow (List.take_prefix length keys) reached).length_le
      rw [List.length_take] at covered
      have bound := isPrefix.length_le
      omega
  rw [longest, ← taken]

end Trie

end Nihil.Library

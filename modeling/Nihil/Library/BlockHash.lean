/-
Module: Nihil.Library.BlockHash
Layer: Library
Purpose: Iterated hashes: a message is cut into blocks of one size, and a compression function takes the
  blocks into a chaining value one after another. A machine that is fed one symbol at a time keeps the
  chaining value and the block it has begun; whatever it was fed, it holds the value behind the whole blocks
  and the rest of the message.
Trusted boundary: none
Main exports: blocks, unfinished, Absorbing, Absorbing.feed, blocks_flatten_append, feedAll_eq,
  zerosTo, zerosTo_whole
-/
import Mathlib.Data.List.Induction
import Mathlib.Tactic.ByContra

namespace Nihil.Library

universe u v

variable {α : Type u} {β : Type v}

/-- The whole blocks of a message. -/
def blocks (size : Nat) (message : List β) : List (List β) :=
  (List.range (message.length / size)).map fun i => (message.drop (size * i)).take size

/-- What is left of the message behind them. -/
def unfinished (size : Nat) (message : List β) : List β :=
  message.drop (size * (message.length / size))

variable {size : Nat}

theorem blocks_of_short {message : List β} (short : message.length < size) : blocks size message = [] := by
  simp [blocks, Nat.div_eq_of_lt short]

theorem unfinished_of_short {message : List β} (short : message.length < size) :
    unfinished size message = message := by
  simp [unfinished, Nat.div_eq_of_lt short]

/-- A block in front of a message is its first one. -/
theorem blocks_append {block : List β} (whole : block.length = size) (positive : 0 < size)
    (message : List β) : blocks size (block ++ message) = block :: blocks size message := by
  have count : (block ++ message).length / size = message.length / size + 1 := by
    rw [List.length_append, whole, Nat.add_div_left _ positive]
  unfold blocks
  rw [count, List.range_succ_eq_map, List.map_cons, List.map_map]
  congr 1
  · simp [← whole]
  · apply List.map_congr_left
    intro i _
    have at_i : size * (i + 1) = block.length + size * i := by rw [whole, Nat.mul_succ, Nat.add_comm]
    rw [Function.comp_apply, Nat.succ_eq_add_one, at_i, List.drop_length_add_append]

theorem unfinished_append {block : List β} (whole : block.length = size) (positive : 0 < size)
    (message : List β) : unfinished size (block ++ message) = unfinished size message := by
  have count : (block ++ message).length / size = message.length / size + 1 := by
    rw [List.length_append, whole, Nat.add_div_left _ positive]
  have at_end : size * (message.length / size + 1) = block.length + size * (message.length / size) := by
    rw [whole, Nat.mul_succ, Nat.add_comm]
  rw [unfinished, count, at_end, List.drop_length_add_append, unfinished]

/-- A message that is put together from whole blocks and a shorter rest is cut there. -/
theorem blocks_flatten_append {whole : List (List β)} {rest : List β}
    (lengths : ∀ block ∈ whole, block.length = size) (short : rest.length < size) :
    blocks size (whole.flatten ++ rest) = whole ∧ unfinished size (whole.flatten ++ rest) = rest := by
  have positive : 0 < size := Nat.zero_lt_of_lt short
  induction whole with
  | nil => exact ⟨by simpa using blocks_of_short short, by simpa using unfinished_of_short short⟩
  | cons block whole ih =>
      have first := lengths block List.mem_cons_self
      obtain ⟨cut, left⟩ := ih fun b mem => lengths b (List.mem_cons_of_mem _ mem)
      rw [List.flatten_cons, List.append_assoc, blocks_append first positive,
        unfinished_append first positive, cut, left]
      exact ⟨rfl, rfl⟩

theorem length_unfinished (positive : 0 < size) (message : List β) :
    (unfinished size message).length < size := by
  have whole := Nat.div_add_mod message.length size
  have below := Nat.mod_lt message.length positive
  simp only [unfinished, List.length_drop]
  omega

theorem length_unfinished_eq (message : List β) :
    (unfinished size message).length = message.length % size := by
  have whole := Nat.div_add_mod message.length size
  simp only [unfinished, List.length_drop]
  omega

/-- Every message is its whole blocks and the rest. -/
theorem flatten_blocks_append (positive : 0 < size) (message : List β) :
    (blocks size message).flatten ++ unfinished size message = message
      ∧ ∀ block ∈ blocks size message, block.length = size := by
  induction count : message.length / size generalizing message with
  | zero =>
      have short : message.length < size := (Nat.div_eq_zero_iff_lt positive).mp count
      simp [blocks_of_short short, unfinished_of_short short]
  | succ n ih =>
      have long : size ≤ message.length := by
        by_contra short
        rw [Nat.div_eq_of_lt (Nat.lt_of_not_le short)] at count
        cases count
      have first : (message.take size).length = size := List.length_take_of_le long
      have fewer : (message.drop size).length / size = n := by
        have split : message.length = message.length - size + size := (Nat.sub_add_cancel long).symm
        rw [split, Nat.add_div_right _ positive] at count
        simpa using count
      obtain ⟨joined, lengths⟩ := ih (message.drop size) fewer
      have split : message = message.take size ++ message.drop size := (List.take_append_drop ..).symm
      constructor
      · conv_lhs => rw [split]
        rw [blocks_append first positive, unfinished_append first positive, List.flatten_cons,
          List.append_assoc, joined, List.take_append_drop]
      · rw [split, blocks_append first positive]
        intro block mem
        cases mem with
        | head => exact first
        | tail _ mem => exact lengths block mem

/-! ### Feeding a message symbol by symbol -/

/-- The chaining value, and the block that has been begun. -/
@[ext]
structure Absorbing (α : Type u) (β : Type v) where
  value : α
  pending : List β

/-- One more symbol. -/
def Absorbing.feed (compress : α → List β → α) (size : Nat) (self : Absorbing α β) (symbol : β) :
    Absorbing α β :=
  if self.pending.length + 1 = size then ⟨compress self.value (self.pending ++ [symbol]), []⟩
  else ⟨self.value, self.pending ++ [symbol]⟩

/-- A message, one symbol after another. -/
def Absorbing.feedAll (compress : α → List β → α) (size : Nat) (self : Absorbing α β)
    (message : List β) : Absorbing α β :=
  message.foldl (Absorbing.feed compress size) self

/-- The chaining value behind the whole blocks of a message. -/
def chained (compress : α → List β → α) (size : Nat) (initial : α) (message : List β) : α :=
  (blocks size message).foldl compress initial

variable {compress : α → List β → α}

/-- What the machine holds behind a message, whatever the message is. -/
theorem feedAll_eq (positive : 0 < size) (initial : α) (message : List β) :
    (⟨initial, []⟩ : Absorbing α β).feedAll compress size message
      = ⟨chained compress size initial message, unfinished size message⟩ := by
  induction message using List.reverseRecOn with
  | nil => simp [Absorbing.feedAll, chained, blocks, unfinished]
  | append_singleton message symbol ih =>
      obtain ⟨joined, lengths⟩ := flatten_blocks_append positive message
      have short := length_unfinished positive message
      have before : message ++ [symbol]
          = (blocks size message).flatten ++ (unfinished size message ++ [symbol]) := by
        rw [← List.append_assoc, joined]
      rw [Absorbing.feedAll] at ih
      rw [Absorbing.feedAll, List.foldl_append, ih, List.foldl_cons, List.foldl_nil, Absorbing.feed]
      split
      case isTrue full =>
        have whole : (unfinished size message ++ [symbol]).length = size := by simpa using full
        have more : ∀ block ∈ blocks size message ++ [unfinished size message ++ [symbol]],
            block.length = size := by
          intro block mem
          cases List.mem_append.mp mem with
          | inl old => exact lengths block old
          | inr new => rw [List.mem_singleton.mp new, whole]
        have nothing : ([] : List β).length < size := positive
        have cut := blocks_flatten_append more nothing
        rw [List.flatten_append, List.flatten_singleton, List.append_nil, ← before] at cut
        rw [chained, chained, cut.1, cut.2, List.foldl_append, List.foldl_cons, List.foldl_nil]
      case isFalse partly =>
        have still : (unfinished size message ++ [symbol]).length < size := by
          rw [List.length_append, List.length_singleton]
          exact Nat.lt_of_le_of_ne short partly
        obtain ⟨cut, left⟩ := blocks_flatten_append lengths still
        rw [before, chained, chained, cut, left]

/-- How many symbols are to be fed until the block that has been begun has `target` of them. -/
def zerosTo (size target begun : Nat) : Nat :=
  if begun ≤ target then target - begun else size - begun + target

/-- Behind them the block has that many. -/
theorem zerosTo_whole {target begun length : Nat} (atBegun : length % size = begun)
    (below : target < size) : (length + zerosTo size target begun) % size = target := by
  have whole := Nat.div_add_mod length size
  unfold zerosTo
  split
  case isTrue within =>
    have same : length + (target - begun) = size * (length / size) + target := by omega
    rw [same, Nat.mul_add_mod, Nat.mod_eq_of_lt below]
  case isFalse beyond =>
    have short : begun < size := atBegun ▸ Nat.mod_lt length (Nat.zero_lt_of_lt below)
    have same : length + (size - begun + target) = size * (length / size + 1) + target := by
      rw [Nat.mul_succ]
      omega
    rw [same, Nat.mul_add_mod, Nat.mod_eq_of_lt below]

end Nihil.Library

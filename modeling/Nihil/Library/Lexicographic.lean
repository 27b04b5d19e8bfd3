/-
Module: Nihil.Library.Lexicographic
Layer: Library
Purpose: Lexicographic order and texts that are put together from parts of fixed lengths: a common length of
  the first parts lets the comparison go on behind them, and a code that writes each symbol as a word of one
  length and keeps their order keeps the order of the words.
Trusted boundary: none
Main exports: append_lt_append_iff, FixedCode, FixedCode.flatMap_inj, FixedCode.flatMap_lt_iff
-/
import Mathlib.Data.List.Basic

namespace Nihil.Library

universe u v

variable {β : Type u} {χ : Type v}

/-- Sequences whose first parts have one length are compared by them, and behind them where they agree. -/
theorem append_lt_append_iff [LT χ] {first first' : List χ} (length : first.length = first'.length)
    (rest rest' : List χ) :
    first ++ rest < first' ++ rest' ↔ first < first' ∨ first = first' ∧ rest < rest' := by
  induction first generalizing first' with
  | nil =>
      cases first' with
      | nil => simp
      | cons c first' => cases length
  | cons c first ih =>
      cases first' with
      | nil => cases length
      | cons c' first' =>
          have shorter := ih (Nat.succ.inj length)
          simp only [List.cons_append, List.cons_lt_cons_iff, shorter, List.cons.injEq]
          tauto

/-- A code that writes every symbol as a word of one length and keeps their order. -/
structure FixedCode (β : Type u) (χ : Type v) [LT β] [LT χ] where
  word : β → List χ
  width : Nat
  length_word : ∀ b, (word b).length = width
  word_inj : ∀ b b', word b = word b' → b = b'
  word_lt_iff : ∀ b b', word b < word b' ↔ b < b'

namespace FixedCode

variable [LT β] [LT χ] (code : FixedCode β χ)

theorem length_flatMap (symbols : List β) :
    (symbols.flatMap code.word).length = symbols.length * code.width := by
  induction symbols with
  | nil => simp
  | cons b symbols ih => simp [code.length_word, ih, Nat.succ_mul, Nat.add_comm]

theorem flatMap_inj {symbols symbols' : List β} (length : symbols.length = symbols'.length) :
    symbols.flatMap code.word = symbols'.flatMap code.word ↔ symbols = symbols' := by
  refine ⟨fun same => ?_, fun same => by rw [same]⟩
  induction symbols generalizing symbols' with
  | nil => exact (List.length_eq_zero_iff.mp length.symm).symm
  | cons b symbols ih =>
      cases symbols' with
      | nil => cases length
      | cons b' symbols' =>
          have widths : (code.word b).length = (code.word b').length := by
            rw [code.length_word, code.length_word]
          obtain ⟨first, rest⟩ := List.append_inj same widths
          rw [code.word_inj b b' first, ih (Nat.succ.inj length) rest]

theorem flatMap_lt_iff {symbols symbols' : List β} (length : symbols.length = symbols'.length) :
    symbols.flatMap code.word < symbols'.flatMap code.word ↔ symbols < symbols' := by
  induction symbols generalizing symbols' with
  | nil => rw [List.length_eq_zero_iff.mp length.symm]; simp
  | cons b symbols ih =>
      cases symbols' with
      | nil => cases length
      | cons b' symbols' =>
          have widths : (code.word b).length = (code.word b').length := by
            rw [code.length_word, code.length_word]
          have words : code.word b = code.word b' ↔ b = b' :=
            ⟨code.word_inj b b', fun same => by rw [same]⟩
          rw [List.flatMap_cons, List.flatMap_cons, append_lt_append_iff widths, code.word_lt_iff, words,
            ih (Nat.succ.inj length), List.cons_lt_cons_iff]

end FixedCode

end Nihil.Library

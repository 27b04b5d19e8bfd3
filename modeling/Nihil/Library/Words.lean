/-
Module: Nihil.Library.Words
Layer: Library
Purpose: Splitting a sequence at a separator and joining words with it, for any symbol type. `splitWords`
  follows C++ std::views::split: it is `List.splitOn`, except that the empty sequence has no word at all.
  On separator-free non-empty words splitting undoes joining, and the length of a joined sequence grows
  with every word it is made of.
Trusted boundary: none
Main exports: splitWords, joinWords, IsWord, splitWords_joinWords, joinWords_splitWords,
  splitWords_injective, length_joinWords_snoc
-/
import Mathlib.Data.List.Basic

namespace Nihil.Library

universe u

variable {χ : Type u}

/-- The words joined by single separators. -/
def joinWords (separator : χ) (words : List (List χ)) : List χ :=
  [separator].intercalate words

/-- The parts between the separators of a sequence. The empty sequence has no part. -/
def splitWords [DecidableEq χ] (separator : χ) (text : List χ) : List (List χ) :=
  if text = [] then [] else text.splitOn separator

/-- A word is not empty and does not contain the separator. -/
def IsWord (separator : χ) (word : List χ) : Prop :=
  word ≠ [] ∧ separator ∉ word

instance [DecidableEq χ] (separator : χ) (word : List χ) : Decidable (IsWord separator word) :=
  inferInstanceAs (Decidable (_ ∧ _))

@[simp] theorem joinWords_nil (separator : χ) : joinWords separator [] = [] := rfl

@[simp] theorem joinWords_singleton (separator : χ) (word : List χ) :
    joinWords separator [word] = word := by
  simp [joinWords]

theorem joinWords_cons (separator : χ) (word : List χ) (words : List (List χ)) :
    joinWords separator (word :: words) = word ++ words.flatMap (separator :: ·) := by
  induction words generalizing word with
  | nil => simp [joinWords]
  | cons next words ih =>
      have rest := ih next
      simp only [joinWords, List.intercalate, List.intersperse, List.flatten_cons] at rest ⊢
      simp [rest]

theorem joinWords_snoc (separator : χ) {words : List (List χ)} (nonempty : words ≠ [])
    (word : List χ) :
    joinWords separator (words ++ [word]) = joinWords separator words ++ separator :: word := by
  induction words with
  | nil => exact absurd rfl nonempty
  | cons first rest ih =>
      cases rest with
      | nil => simp [joinWords, List.intercalate]
      | cons second rest =>
          have tail := ih (by simp)
          simp only [joinWords, List.intercalate, List.cons_append, List.intersperse,
            List.flatten_cons] at tail ⊢
          simp [tail]

/-- A joined sequence is longer than the joined sequence of a proper prefix of its words. -/
theorem length_joinWords_snoc (separator : χ) {words : List (List χ)} (nonempty : words ≠ [])
    (word : List χ) :
    (joinWords separator (words ++ [word])).length =
      (joinWords separator words).length + 1 + word.length := by
  rw [joinWords_snoc separator nonempty, List.length_append, List.length_cons]
  omega

theorem length_joinWords_lt_snoc (separator : χ) (words : List (List χ)) {word : List χ}
    (nonempty : word ≠ []) :
    (joinWords separator words).length < (joinWords separator (words ++ [word])).length := by
  have pos : 0 < word.length := List.length_pos_iff.mpr nonempty
  by_cases empty : words = []
  · simpa [empty] using pos
  · rw [length_joinWords_snoc separator empty]
    omega

variable [DecidableEq χ]

/-- Splitting finds the words a sequence was joined from. -/
theorem splitWords_joinWords {separator : χ} {words : List (List χ)}
    (areWords : ∀ word ∈ words, IsWord separator word) :
    splitWords separator (joinWords separator words) = words := by
  cases words with
  | nil => rfl
  | cons first rest =>
      have firstWord := areWords first (by simp)
      have joined : joinWords separator (first :: rest) ≠ [] := by
        cases rest <;> simp [joinWords, List.intercalate, firstWord.1]
      rw [splitWords, if_neg joined]
      exact List.splitOn_intercalate separator (fun word member => (areWords word member).2)
        (by simp)

/-- Joining undoes splitting. -/
theorem joinWords_splitWords (separator : χ) (text : List χ) :
    joinWords separator (splitWords separator text) = text := by
  unfold splitWords
  split_ifs with empty
  · exact empty.symm
  · exact List.intercalate_splitOn separator

/-- The words of a sequence determine it. -/
theorem splitWords_injective (separator : χ) : Function.Injective (splitWords separator) := by
  intro first second same
  rw [← joinWords_splitWords separator first, same, joinWords_splitWords]

end Nihil.Library

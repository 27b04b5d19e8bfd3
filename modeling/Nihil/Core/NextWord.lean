/-
Module: Nihil.Core.NextWord
Layer: Core
Purpose: next_word, and the overload that leaves the rest of the text in the cursor it is given. A caller that
  calls it until the word is empty has read every word of the text.
Imports: Nihil.Core.Ctype, Nihil.Library.Span
Trusted boundary: none
Main exports: nextWord, nextWordAt, wordOf, textBefore, WordCall, nextWord_wordCall, maximalRuns_nextWord,
  maximalRuns_of_done, nextWord_words
-/
import Mathlib.Data.List.Basic
import Mathlib.Logic.Function.Iterate
import Nihil.Core.Ctype
import Nihil.Library.Span

namespace Nihil

open Nihil.Library

variable {isSpace : CtypeIs}

/-- `next_word`: the word and the text behind it. -/
def nextWord (isSpace : CtypeIs) (text : Str) : Str × Str :=
  let text := skipws isSpace text
  (text.takeWhile (!isSpace ·), text.dropWhile (!isSpace ·))

/-- The `next_word` that is given a pointer to the text. -/
def nextWordAt (isSpace : CtypeIs) : StateM Str Str := do
  let (word, rest) := nextWord isSpace (← get)
  set rest
  return word

@[simp] theorem run_nextWordAt (text : Str) : (nextWordAt isSpace).run text = nextWord isSpace text := rfl

/-- The text that the cursor is at after a number of calls. -/
def textBefore (isSpace : CtypeIs) (text : Str) (calls : Nat) : Str :=
  (fun text => ((nextWordAt isSpace).run text).2)^[calls] text

/-- The word that the call after that number of calls returns. -/
def wordOf (isSpace : CtypeIs) (text : Str) (calls : Nat) : Str :=
  ((nextWordAt isSpace).run (textBefore isSpace text calls)).1

/-- The first call moves the cursor behind the first word. -/
theorem textBefore_succ (text : Str) (calls : Nat) :
    textBefore isSpace text (calls + 1) = textBefore isSpace (nextWord isSpace text).2 calls := by
  simp [textBefore]

theorem textBefore_succ_eq_nextWord (text : Str) (calls : Nat) :
    textBefore isSpace text (calls + 1) = (nextWord isSpace (textBefore isSpace text calls)).2 := by
  simp [textBefore, Function.iterate_succ_apply']

@[simp] theorem wordOf_zero (text : Str) : wordOf isSpace text 0 = (nextWord isSpace text).1 := rfl

theorem wordOf_succ (text : Str) (calls : Nat) :
    wordOf isSpace text (calls + 1) = wordOf isSpace (nextWord isSpace text).2 calls := by
  simp [wordOf, textBefore_succ]

/-! ### One call -/

/-- What one call does: it leaves out spaces, returns a word without one, and returns the empty word exactly
when only spaces were left, and then nothing is left. -/
structure WordCall (isSpace : CtypeIs) (before word after : Str) : Prop where
  split : ∃ spaces, before = spaces ++ (word ++ after) ∧ ∀ c ∈ spaces, isSpace c = true
  wholeWord : ∀ c ∈ word, isSpace c = false
  empty : word = [] ↔ ∀ c ∈ before, isSpace c = true
  last : word = [] → after = []

/-- The word begins where the spaces end. -/
theorem nextWord_eq_nil_iff (text : Str) : (nextWord isSpace text).1 = [] ↔ skipws isSpace text = [] := by
  have stops : Stops isSpace (skipws isSpace text) := stops_dropWhile text
  simp only [nextWord]
  cases rest : skipws isSpace text with
  | nil => simp
  | cons c rest =>
      have first : isSpace c = false := by simpa [rest] using stops
      simp [first]

theorem nextWord_rest_of_nil {text : Str} (done : skipws isSpace text = []) :
    (nextWord isSpace text).2 = [] := by
  simp [nextWord, done]

theorem nextWord_wordCall (text : Str) :
    WordCall isSpace text (nextWord isSpace text).1 (nextWord isSpace text).2 where
  split := by
    refine ⟨text.takeWhile isSpace, ?_, fun c => List.mem_takeWhile_imp⟩
    rw [nextWord, List.takeWhile_append_dropWhile, skipws, List.takeWhile_append_dropWhile]
  wholeWord := by
    intro c mem
    simpa using List.mem_takeWhile_imp mem
  empty := by
    rw [nextWord_eq_nil_iff, skipws, List.dropWhile_eq_nil_iff]
  last := by
    intro empty
    exact nextWord_rest_of_nil ((nextWord_eq_nil_iff text).mp empty)

/-! ### All calls -/

/-- One call takes the first of the words of the text. -/
theorem maximalRuns_nextWord {text : Str} (more : (nextWord isSpace text).1 ≠ []) :
    maximalRuns isSpace text = (nextWord isSpace text).1 :: maximalRuns isSpace (nextWord isSpace text).2 := by
  have whole : (nextWord isSpace text).1 ++ (nextWord isSpace text).2 = skipws isSpace text :=
    List.takeWhile_append_dropWhile
  have stops : Stops (!isSpace ·) (nextWord isSpace text).2 := stops_dropWhile _
  have inside : ∀ c ∈ (nextWord isSpace text).1, isSpace c = false := (nextWord_wordCall text).wholeWord
  calc
    maximalRuns isSpace text = maximalRuns isSpace (skipws isSpace text) := (maximalRuns_dropWhile text).symm
    _ = maximalRuns isSpace ((nextWord isSpace text).1 ++ (nextWord isSpace text).2) := by rw [whole]
    _ = _ := maximalRuns_run_append more inside stops

theorem maximalRuns_of_done {text : Str} (done : (nextWord isSpace text).1 = []) :
    maximalRuns isSpace text = [] := by
  rw [← maximalRuns_dropWhile, ← skipws, (nextWord_eq_nil_iff text).mp done, maximalRuns_nil]

/-- The calls return the words of the text and then an empty word. -/
theorem wordOf_maximalRuns {words : List Str} {text : Str} (runs : maximalRuns isSpace text = words) :
    (∀ call < words.length, wordOf isSpace text call ≠ []) ∧ wordOf isSpace text words.length = [] ∧
      (List.range words.length).map (wordOf isSpace text) = words := by
  induction words generalizing text with
  | nil =>
      have done : (nextWord isSpace text).1 = [] := by
        by_contra more
        rw [maximalRuns_nextWord more] at runs
        exact absurd runs (by simp)
      simp [done]
  | cons first words ih =>
      have more : (nextWord isSpace text).1 ≠ [] := by
        intro done
        rw [maximalRuns_of_done done] at runs
        exact absurd runs (by simp)
      rw [maximalRuns_nextWord more] at runs
      obtain ⟨head, tail⟩ := List.cons.inj runs
      obtain ⟨nonempty, last, rest⟩ := ih tail
      refine ⟨?_, ?_, ?_⟩
      · intro call lt
        cases call with
        | zero => exact more
        | succ call =>
            rw [wordOf_succ]
            exact nonempty call (by simpa using lt)
      · rw [List.length_cons, wordOf_succ, last]
      · have later : wordOf isSpace text ∘ Nat.succ = wordOf isSpace (nextWord isSpace text).2 :=
          funext (wordOf_succ text)
        rw [List.length_cons, List.range_succ_eq_map, List.map_cons, List.map_map, wordOf_zero, later, head,
          rest]

/-- Calls until the word is empty end, and they return the maximal runs of the text that are without a space,
in their order and each once. What each call does is `WordCall`. -/
theorem nextWord_words (isSpace : CtypeIs) (text : Str) :
    (∃ calls, wordOf isSpace text calls = [] ∧ (∀ call < calls, wordOf isSpace text call ≠ []) ∧
      (List.range calls).map (wordOf isSpace text) = maximalRuns isSpace text) ∧
    ∀ call, WordCall isSpace (textBefore isSpace text call) (wordOf isSpace text call)
      (textBefore isSpace text (call + 1)) := by
  refine ⟨?_, ?_⟩
  · obtain ⟨nonempty, last, words⟩ := wordOf_maximalRuns (rfl : maximalRuns isSpace text = _)
    exact ⟨_, last, nonempty, words⟩
  · intro call
    rw [textBefore_succ_eq_nextWord]
    exact nextWord_wordCall _

example : wordOf isCSpace " \tfoo  bar".toList 1 = "bar".toList := by decide

end Nihil

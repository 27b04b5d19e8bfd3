/-
Module: Nihil.Posix.Getenv
Layer: Posix
Purpose: getenv, with the buffer that it doubles until the value fits. Other threads may change the environment
  between two rounds of the loop. The loop ends as soon as the value at that moment fits, with this value as
  a whole, and a bound on the values is a bound on the number of rounds (`getenv_returns`).
Imports: Nihil.Library.FileStore, Nihil.Posix.Argv
Trusted boundary: ::getenv_r writes the value with its terminator if there is room, and otherwise fails with
  ERANGE and writes what there is room for. There is always memory for the buffer.
Main exports: Lookup, getenvR, getenvLoop, getenv, ValueFits, lookedUp, getenv_returns
-/
import Mathlib.Data.Nat.Find
import Nihil.Library.FileStore
import Nihil.Posix.Argv

namespace Nihil.Posix

open Nihil.Library

/-! ### The function -/

/-- What a name means in the environment: its value, or an error other than ERANGE, such as ENOENT. -/
abbrev Lookup := Except {ec : ErrorCode // ec.value ≠ resultOutOfRange.value} Str

/-- ::getenv_r for a value and a buffer. -/
def getenvR (lookup : Lookup) (buf : Str) : Except ErrorCode Unit × Str :=
  match lookup with
  | .error ec => (.error ec, buf)
  | .ok value =>
      if value.length < buf.length then (.ok (), overwritten (terminated terminator value) buf)
      else (.error resultOutOfRange, overwritten (terminated terminator (value.take (buf.length - 1))) buf)

/-- The loop of `getenv` from a round on, with what the name means in each round; there is no result if it goes
on behind `rounds` more rounds. It leaves the errno of its last call. -/
def getenvLoop (lookup : Nat → Lookup) : Nat → Nat → Str → Int → Option (Except Error Str × Int)
  | 0, _, _, _ => none
  | rounds + 1, round, buf, errno =>
      match getenvR (lookup round) buf with
      | (.ok (), buf) => some (.ok (cutAtNul buf), errno)
      | (.error ec, buf) =>
          if ec.value = resultOutOfRange.value then
            getenvLoop lookup rounds (round + 1) (buf ++ List.replicate buf.length terminator) ec.value
          else some (.error (Error.ofCode ec), ec.value)

/-- `getenv`, with the errno that the caller sees. -/
def getenv (environ : Nat → Str → Lookup) (varname : Str) (rounds : Nat) (errno : Int) :
    Option (Except Error Str × Int) :=
  -- errno_guard puts the errno back
  (getenvLoop (fun round => environ round (cutAtNul varname)) rounds 0
    (List.replicate 1024 terminator) errno).map fun result => (result.1, errno)

/-! ### How it ends -/

/-- The size of the buffer in a round. -/
def bufferSize : Nat → Nat
  | 0 => 1024
  | round + 1 => bufferSize round * 2

/-- What the name means in a round can be returned. -/
def ValueFits (lookup : Nat → Lookup) (round : Nat) : Prop :=
  ∀ value, lookup round = .ok value → value.length < bufferSize round

/-- What a round returns that can return. -/
def lookedUp (lookup : Lookup) : Except Error Str :=
  match lookup with
  | .ok value => .ok (cutAtNul value)
  | .error ec => .error (Error.ofCode ec)

variable {lookup : Nat → Lookup} {round : Nat} {buf : Str}

/-- A C string ends at its terminator, whatever stands behind it. -/
theorem cutAtNul_terminated (value rest : Str) :
    cutAtNul (terminated terminator value ++ rest) = cutAtNul value := by
  rw [terminated, List.append_assoc]
  unfold cutAtNul
  induction value with
  | nil => rfl
  | cons first value ih =>
      rw [List.cons_append, List.takeWhile_cons, List.takeWhile_cons, ih]

/-- Writing what there is room for keeps the size of a buffer. -/
theorem length_overwritten {new old : Str} (room : new.length ≤ old.length) :
    (overwritten new old).length = old.length := by
  rw [overwritten, List.length_append, List.length_drop]
  exact Nat.add_sub_cancel' room

theorem bufferSize_pos (round : Nat) : 0 < bufferSize round := by
  induction round with
  | zero => exact Nat.succ_pos _
  | succ round ih => exact Nat.mul_pos ih Nat.two_pos

/-- A round whose value fits is the last one, and the caller gets this value. -/
theorem getenvLoop_fits (sized : buf.length = bufferSize round) (fits : ValueFits lookup round)
    (rounds : Nat) (errno : Int) :
    ∃ left, getenvLoop lookup (rounds + 1) round buf errno = some (lookedUp (lookup round), left) := by
  cases found : lookup round with
  | error ec =>
      refine ⟨ec.1.value, ?_⟩
      rw [getenvLoop, found]
      simp only [getenvR, lookedUp, if_neg ec.2]
  | ok value =>
      refine ⟨errno, ?_⟩
      have room : value.length < buf.length := sized ▸ fits value found
      rw [getenvLoop, found]
      simp only [getenvR, if_pos room, lookedUp, overwritten, cutAtNul_terminated]

/-- A round whose value does not fit is followed by a round with a buffer of the next size. -/
theorem getenvLoop_grows (sized : buf.length = bufferSize round) (grows : ¬ ValueFits lookup round)
    (rounds : Nat) (errno : Int) :
    ∃ buf' errno', buf'.length = bufferSize (round + 1) ∧
      getenvLoop lookup (rounds + 1) round buf errno = getenvLoop lookup rounds (round + 1) buf' errno' := by
  obtain ⟨value, found, long⟩ : ∃ value, lookup round = .ok value ∧ bufferSize round ≤ value.length := by
    simpa only [ValueFits, not_forall, Nat.not_lt, exists_prop] using grows
  rw [← sized] at long
  have room : (terminated terminator (value.take (buf.length - 1))).length ≤ buf.length := by
    have some_room := bufferSize_pos round
    rw [terminated, List.length_append, List.length_take, List.length_singleton]
    omega
  have next : getenvLoop lookup (rounds + 1) round buf errno = getenvLoop lookup rounds (round + 1)
      (overwritten (terminated terminator (value.take (buf.length - 1))) buf ++
        List.replicate buf.length terminator) resultOutOfRange.value := by
    rw [getenvLoop, found]
    simp only [getenvR, if_neg (Nat.not_lt.mpr long), if_true, length_overwritten room]
  refine ⟨_, _, ?_, next⟩
  rw [List.length_append, List.length_replicate, length_overwritten room, sized, bufferSize]
  exact (Nat.mul_two _).symm

/-- From a round on, the loop ends in the first round whose value fits. -/
theorem getenvLoop_first {last : Nat} (fits : ValueFits lookup last) (rounds : Nat) :
    ∀ (steps : Nat) (round : Nat) (buf : Str) (errno : Int), buf.length = bufferSize round →
      round + steps = last → (∀ earlier, round ≤ earlier → earlier < last → ¬ ValueFits lookup earlier) →
      ∃ left, getenvLoop lookup (steps + rounds + 1) round buf errno = some (lookedUp (lookup last), left)
  | 0, round, buf, errno, sized, reached, _ => by
      obtain rfl : round = last := reached
      rw [Nat.zero_add]
      exact getenvLoop_fits sized fits rounds errno
  | steps + 1, round, buf, errno, sized, reached, grow => by
      obtain ⟨buf', errno', sized', next⟩ :=
        getenvLoop_grows sized (grow round (Nat.le_refl _) (by omega)) (steps + rounds + 1) errno
      have rest := getenvLoop_first fits rounds steps (round + 1) buf' errno' sized' (by omega)
        (fun earlier from_next => grow earlier (Nat.le_of_succ_le from_next))
      rw [show steps + 1 + rounds + 1 = steps + rounds + 1 + 1 by omega, next]
      exact rest

/-- If the values of a variable stay below a size of the buffer, `getenv` ends at the latest in the round with
this size. It ends in the first round whose value fits, with the whole of this value or the error of this
round, and with the errno of its caller untouched. -/
theorem getenv_returns {environ : Nat → Str → Lookup} {varname : Str} {bound : Nat}
    (bounded : ∀ round value, environ round (cutAtNul varname) = .ok value →
      value.length < bufferSize bound) :
    ∃ round ≤ bound, ValueFits (fun round => environ round (cutAtNul varname)) round ∧
      (∀ earlier < round, ¬ ValueFits (fun round => environ round (cutAtNul varname)) earlier) ∧
      ∀ rounds, round < rounds → ∀ errno, getenv environ varname rounds errno =
        some (lookedUp (environ round (cutAtNul varname)), errno) := by
  classical
  have fits_in_time : ∃ round, ValueFits (fun round => environ round (cutAtNul varname)) round :=
    ⟨bound, fun value found => bounded bound value found⟩
  refine ⟨Nat.find fits_in_time, Nat.find_min' fits_in_time fun value found => bounded bound value found,
    Nat.find_spec fits_in_time, fun earlier before => Nat.find_min fits_in_time before, ?_⟩
  intro rounds enough errno
  obtain ⟨more, rfl⟩ := Nat.exists_eq_add_of_lt enough
  have sized : (List.replicate 1024 terminator).length = bufferSize 0 := List.length_replicate
  obtain ⟨left, ended⟩ := getenvLoop_first (Nat.find_spec fits_in_time) more (Nat.find fits_in_time) 0
    (List.replicate 1024 terminator) errno sized (Nat.zero_add _)
    (fun earlier _ before => Nat.find_min fits_in_time before)
  rw [getenv, ended]
  rfl

/-- A value that does not fit at first, and that another thread makes shorter, is returned in the second round
at the latest. -/
theorem getenv_returns_long :
    let environ : Nat → Str → Lookup := fun round _ => .ok (List.replicate (if round = 0 then 1024 else 1) 'x')
    ∃ round ≤ 1, ValueFits (fun round => environ round (cutAtNul ['X'])) round ∧
      (∀ earlier < round, ¬ ValueFits (fun round => environ round (cutAtNul ['X'])) earlier) ∧
      ∀ rounds, round < rounds → ∀ errno, getenv environ ['X'] rounds errno =
        some (lookedUp (environ round (cutAtNul ['X'])), errno) := by
  intro environ
  apply getenv_returns
  intro round value found
  rw [← Except.ok.inj found, List.length_replicate, bufferSize, bufferSize]
  split_ifs <;> omega

end Nihil.Posix

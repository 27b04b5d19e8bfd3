/-
Module: Nihil.Cli.PosixUsage
Layer: Cli
Purpose: posix_usage, and what it says about the options it is given: the letters of the options that have only
  a letter and no argument in one group, and every other option once, in the order of declaration
  (`posixUsage_ofFlags`). Arguments are not shown.
Imports: Nihil.Cli.ParseFlags
Trusted boundary: none
Main exports: posixUsage, clusterLetter, usageItem, usageItems, posixUsage_ofFlags
-/
import Nihil.Cli.ParseFlags

namespace Nihil.Cli

variable {Flags : Type}

/-! ### The function -/

/-- One round of the loop over the options. The first of the bits is for boolean short flags. -/
def usageStep (bits : List Str) (opt : OptionBase Flags) : List Str :=
  match opt.argumentName with
  | none =>
      match opt.name.shortFlag, opt.name.longFlag with
      | some s, none => bits.modifyHead (· ++ [s])
      | some s, some l => bits ++ ["[-".toList ++ s :: ("|--".toList ++ l ++ "]".toList)]
      | none, some l => bits ++ ["[--".toList ++ l ++ "]".toList]
      | none, none => bits
  | some argName =>
      if opt.name.isArgument then bits
      else if opt.required then bits ++ [opt.name.str ++ " <".toList ++ argName ++ ">".toList]
      else bits ++ ["[".toList ++ (opt.name.str ++ " <".toList ++ argName ++ ">]".toList)]

/-- The boolean options as they are shown, or nothing if there are none. -/
def formatFirst : List Str → List Str
  | [] => []
  | first :: bits => if first.isEmpty then bits else ("[-".toList ++ first ++ "]".toList) :: bits

/-- The loop that joins the bits. -/
def joinBits (ret : Str) : List Str → Str
  | [] => ret
  | bit :: bits => joinBits ((if ret.isEmpty then ret else ret ++ [' ']) ++ bit) bits

/-- `posix_usage`. -/
def posixUsage (opts : Options Flags) : Str :=
  joinBits [] (formatFirst (opts.allFlags.foldl usageStep [[]]))

/-! ### What is shown -/

/-- The letter of an option that has nothing but a letter. -/
def clusterLetter (opt : OptionBase Flags) : Option Char :=
  if opt.hasArgument ∨ opt.name.longFlag.isSome then none else opt.name.shortFlag

/-- How an option is shown by itself: its names and the argument, in brackets unless it is required. -/
def usageItem (opt : OptionBase Flags) : Option Str :=
  if opt.name.isArgument ∨ (clusterLetter opt).isSome then none
  else
    match opt.argumentName with
    | none => some ('[' :: opt.name.str ++ [']'])
    | some argName =>
        let item := opt.name.str ++ " <".toList ++ argName ++ ['>']
        some (if opt.required then item else '[' :: item ++ [']'])

/-- The items of the usage of some options. -/
def usageItems (flags : List (OptionBase Flags)) : List Str :=
  let letters := flags.filterMap clusterLetter
  (if letters = [] then [] else ["[-".toList ++ letters ++ "]".toList]) ++ flags.filterMap usageItem

variable {opts : Options Flags} {opt : OptionBase Flags} {flags : List (OptionBase Flags)}

/-- A round adds the letter of the option to the first bit, or the item of the option behind the bits. -/
theorem usageStep_cons (letters : Str) (items : List Str) (opt : OptionBase Flags) :
    usageStep (letters :: items) opt =
      (letters ++ (clusterLetter opt).toList) :: (items ++ (usageItem opt).toList) := by
  obtain ⟨⟨short, long⟩, argName, parse, parseArg, required⟩ := opt
  cases argName with
  | none =>
      cases short <;> cases long <;>
        simp [usageStep, usageItem, clusterLetter, OptionBase.hasArgument, FlagName.isArgument, FlagName.str]
  | some argName =>
      cases short <;> cases long <;> cases required <;>
        simp [usageStep, usageItem, clusterLetter, OptionBase.hasArgument, FlagName.isArgument]

/-- The loop over the options. -/
theorem usage_loop (flags : List (OptionBase Flags)) (letters : Str) (items : List Str) :
    flags.foldl usageStep (letters :: items) =
      (letters ++ flags.filterMap clusterLetter) :: (items ++ flags.filterMap usageItem) := by
  induction flags generalizing letters items with
  | nil => simp only [List.foldl_nil, List.filterMap_nil, List.append_nil]
  | cons opt flags ih =>
      rw [List.foldl_cons, usageStep_cons, ih, List.append_assoc, List.append_assoc]
      congr 2
      · cases letter : clusterLetter opt <;> simp [letter]
      · cases item : usageItem opt <;> simp [item]

theorem usageItem_ne_nil {item : Str} (shown : usageItem opt = some item) : item ≠ [] := by
  rw [usageItem] at shown
  split at shown
  · cases shown
  split at shown
  · rw [← Option.some.inj shown]
    exact List.cons_ne_nil _ _
  · rw [← Option.some.inj shown]
    split_ifs <;> simp

theorem usageItems_ne_nil {item : Str} (shown : item ∈ usageItems flags) : item ≠ [] := by
  rw [usageItems, List.mem_append] at shown
  rcases shown with group | alone
  · split_ifs at group
    · exact absurd group List.not_mem_nil
    · rw [List.mem_singleton.mp group]
      simp
  · obtain ⟨opt, -, alone⟩ := List.mem_filterMap.mp alone
    exact usageItem_ne_nil alone

/-- The loop sets a space between the bits, because none of them is empty. -/
theorem joinBits_eq (bits : List Str) (filled : ∀ bit ∈ bits, bit ≠ []) {ret : Str} (begun : ret ≠ []) :
    joinBits ret bits = [' '].intercalate (ret :: bits) := by
  induction bits generalizing ret with
  | nil => exact List.intercalate_singleton.symm
  | cons bit bits ih =>
      have bit_filled := filled bit List.mem_cons_self
      rw [joinBits, if_neg (by simpa using begun),
        ih (fun other listed => filled other (List.mem_cons_of_mem _ listed)) (by simp),
        List.intercalate_cons_cons]
      cases bits with
      | nil => simp only [List.intercalate_singleton]
      | cons next bits => simp only [List.intercalate_cons_cons, List.append_assoc]

/-- The usage is the items of the options in the set, with one space between two of them. -/
theorem posixUsage_eq (opts : Options Flags) :
    posixUsage opts = [' '].intercalate (usageItems opts.allFlags) := by
  have bits : formatFirst (opts.allFlags.foldl usageStep [[]]) = usageItems opts.allFlags := by
    rw [usage_loop, formatFirst, usageItems, List.nil_append, List.nil_append]
    split_ifs <;> simp_all
  rw [posixUsage, bits]
  have filled : ∀ item ∈ usageItems opts.allFlags, item ≠ [] := fun item shown => usageItems_ne_nil shown
  cases items : usageItems opts.allFlags with
  | nil => rfl
  | cons first rest =>
      rw [items] at filled
      rw [joinBits, if_pos List.isEmpty_nil, List.nil_append]
      exact joinBits_eq rest (fun bit listed => filled bit (List.mem_cons_of_mem _ listed))
        (filled first List.mem_cons_self)

/-! ### The options that the set was made of -/

theorem allFlags_addFlag (opts : Options Flags) (opt : OptionBase Flags) :
    (opts.addFlag opt).allFlags = opts.allFlags ++ [opt].filter fun opt => !opt.name.isArgument := by
  rw [Options.addFlag]
  cases argument : opt.name.isArgument <;> simp [argument]

theorem allFlags_ofFlags (flags : List (OptionBase Flags)) :
    (Options.ofFlags flags).allFlags = flags.filter fun opt => !opt.name.isArgument := by
  suffices loop : ∀ opts : Options Flags, (flags.foldl Options.addFlag opts).allFlags =
      opts.allFlags ++ flags.filter fun opt => !opt.name.isArgument from loop {}
  intro opts
  induction flags generalizing opts with
  | nil => exact (List.append_nil _).symm
  | cons opt flags ih =>
      rw [List.foldl_cons, ih, allFlags_addFlag, List.append_assoc, ← List.filter_append,
        List.singleton_append]

/-- An argument has no letter and no item. -/
theorem usageItems_filter (flags : List (OptionBase Flags)) :
    usageItems (flags.filter fun opt => !opt.name.isArgument) = usageItems flags := by
  have letters : (flags.filter fun opt => !opt.name.isArgument).filterMap clusterLetter =
      flags.filterMap clusterLetter := by
    rw [List.filterMap_filter]
    apply List.filterMap_congr
    intro opt _
    cases argument : opt.name.isArgument with
    | false => rfl
    | true =>
        rw [FlagName.isArgument, Bool.and_eq_true, Option.isNone_iff_eq_none] at argument
        rw [clusterLetter, argument.1, ite_self]
        rfl
  have items : (flags.filter fun opt => !opt.name.isArgument).filterMap usageItem =
      flags.filterMap usageItem := by
    rw [List.filterMap_filter]
    apply List.filterMap_congr
    intro opt _
    cases argument : opt.name.isArgument with
    | false => rfl
    | true => rw [usageItem, if_pos (Or.inl argument)]; rfl
  rw [usageItems, usageItems, letters, items]

/-- Whatever options a set is made of, its usage shows the letters of those that have only a letter and no
argument in one group, if there are any, and behind it every other option but the arguments, in the order of
the declaration and with one space between two items. -/
theorem posixUsage_ofFlags (flags : List (OptionBase Flags)) :
    posixUsage (Options.ofFlags flags) = [' '].intercalate (usageItems flags) := by
  rw [posixUsage_eq, allFlags_ofFlags, usageItems_filter]

end Nihil.Cli

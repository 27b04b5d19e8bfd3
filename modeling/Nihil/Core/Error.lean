/-
Module: Nihil.Core.Error
Layer: Core
Purpose: nihil::error and the texts it formats to. An error is an immediate cause, which is nothing, a
  text, an error code or an error condition of nihil itself or of the system, and the chain of the errors
  that caused it. The chain of `m_cause` pointers is the list of the causes, nearest first; the cached
  `m_what` is left out, since `what()` is `full_str()`.
Trusted boundary: an error code carries the message its category gives for it.
Main exports: Str, Errc, ErrorCode, resultOutOfRange, ErrorValue, Error, Error.fullStr, Error.rootCause
-/
import Mathlib.Data.List.Basic

namespace Nihil

/-- A std::string or std::string_view, as the sequence of its characters. -/
abbrev Str := List Char

/-- nihil::errc, the error conditions of the library. -/
inductive Errc where
  | noError
  | incompleteCommand
  | usageError
  | failedToCreateObject
  | typeMismatch
  | emptyString
  | invalidUnit
deriving DecidableEq, Repr

/-- `nihil_error_category::message`. -/
def Errc.message : Errc → Str
  | .noError => "No error".toList
  | .incompleteCommand => "Incomplete command".toList
  | .usageError => "Usage error".toList
  | .emptyString => "Empty string is not permitted".toList
  | .invalidUnit => "Invalid unit specifier".toList
  | .failedToCreateObject => "Failed to create UCL object".toList
  | .typeMismatch => "UCL type does not match expected type".toList

/-- A std::error_code or a std::errc, by its value and the message that its category gives for it. -/
structure ErrorCode where
  value : Int
  message : Str
deriving DecidableEq, Repr

/-- std::errc::result_out_of_range, which is ERANGE. -/
def resultOutOfRange : ErrorCode := { value := 34, message := "Result too large".toList }

/-- `error_t`, the things which can be errors. -/
inductive ErrorValue where
  | none
  | text (what : Str)
  | code (ec : ErrorCode)
  | condition (ec : Errc)
  /-- A std::errc, which is a condition of the generic category. -/
  | generic (ec : ErrorCode)
deriving DecidableEq, Repr

/-- nihil::error: an immediate cause and the errors behind it. -/
structure Error where
  value : ErrorValue
  causes : List ErrorValue := []
deriving DecidableEq, Repr

/-- `error(what)` for a text. -/
def Error.ofText (what : Str) : Error := { value := .text what }

/-- `error(ec)` for one of the conditions of the library. -/
def Error.ofErrc (ec : Errc) : Error := { value := .condition ec }

/-- `error(ec)` for a std::errc, such as `sys_error()` returns for errno. -/
def Error.ofCode (ec : ErrorCode) : Error := { value := .generic ec }

/-- `error::this_str`: one error without its causes. -/
def ErrorValue.thisStr : ErrorValue → Str
  | .none => "No error".toList
  | .text what => what
  | .code ec => ec.message
  | .condition ec => ec.message
  | .generic ec => ec.message

/-- `error::full_str`: the error and its causes, separated by ": ". -/
def Error.fullStr (self : Error) : Str :=
  self.causes.foldl (fun str cause => str ++ (": ".toList ++ cause.thisStr)) self.value.thisStr

/-- `error::condition`. -/
def Error.condition (self : Error) : Option Errc :=
  match self.value with
  | .condition ec => some ec
  | _ => none

/-- `error::root_cause`. -/
def Error.rootCause (self : Error) : Error :=
  { value := self.causes.getLastD self.value }

/-- Comparison with a std::errc, by its value. -/
def Error.isErrc (self : Error) (value : Int) : Bool :=
  match self.value with
  | .generic ec => ec.value = value
  | _ => false

@[simp] theorem Error.condition_ofErrc (ec : Errc) :
    (Error.ofErrc ec).condition = some ec := rfl

/-- A std::logic_error, which leaves a function as an exception. -/
structure LogicError where
  what : Str
deriving DecidableEq, Repr

end Nihil

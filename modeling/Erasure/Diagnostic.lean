import Erasure.Text.Basic
import Erasure.Diagnostic.Message

/-!
Diagnostics: what a phase reports about a range of the source.
-/

namespace Erasure

inductive Severity where
  | warning | error | suggestion | message
  deriving DecidableEq, Inhabited

/-- A report about `length` bytes from `start` on. File and position are filled in for display;
lines and columns count from one. -/
structure Diagnostic where
  file? : Option String := none
  start : Nat
  length : Nat
  text : String
  severity : Severity := .error
  code : Nat
  line? : Option Nat := none
  character? : Option Nat := none
  deriving DecidableEq, Inhabited

/-- The placeholder of an argument. -/
def placeholder (index : Nat) : List Char := '\x7b' :: (toString index).toList ++ ['\x7d']

/-- Fill in the arguments one after the other, starting with the given index. -/
def fillFrom (index : Nat) (template : List Char) : List String → List Char
  | [] => template
  | arg :: args => fillFrom (index + 1) (Text.replace (placeholder index) arg.toList template) args

/-- A template with its placeholders replaced by the arguments. -/
def fillTemplate (template : String) (args : List String) : String :=
  String.ofList (fillFrom 0 template.toList args)

namespace Diagnostic

/-- An error with a known message. -/
def ofMessage (m : Message) (start length : Nat) (args : List String) : Diagnostic :=
  { start, length, text := fillTemplate m.template args, code := m.code }

/-- A diagnostic by code; the text is empty if the code is unknown. -/
def ofCode (code start length : Nat) (args : List String) : Diagnostic :=
  let template := ((Message.ofCode? code).map Message.template).getD ""
  { start, length, text := fillTemplate template args, code }

def stop (d : Diagnostic) : Nat := d.start + d.length

def isError (d : Diagnostic) : Bool := d.severity = .error

/-- Order by position; diagnostics at one position stay in the order of their detection. -/
def sort (ds : List Diagnostic) : List Diagnostic :=
  ds.mergeSort fun a b => a.start ≤ b.start

end Diagnostic
end Erasure

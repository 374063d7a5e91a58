import Erasure.Text.Character

/-!
String literals in double quotes, and the access to a property by its name.
-/

namespace Erasure.Text

/-- A digit in base sixteen. -/
def hexDigit (n : Nat) : Char := if n < 10 then Char.ofNat (48 + n) else Char.ofNat (55 + n)

/-- The escape of a control character by four digits. -/
def escapeCode (n : Nat) : List Char :=
  ['\\', 'u', '0', '0', hexDigit (n / 16), hexDigit (n % 16)]

/-- A character inside double quotes. -/
def quoteChar (c : Char) : List Char :=
  if c = '"' then ['\\', '"']
  else if c = '\\' then ['\\', '\\']
  else if c = '\n' then ['\\', 'n']
  else if c = '\r' then ['\\', 'r']
  else if c = '\t' then ['\\', 't']
  else if c = '\u2028' then "\\u2028".toList
  else if c = '\u2029' then "\\u2029".toList
  else if c.toNat < 0x20 then escapeCode c.toNat
  else [c]

/-- The literal that denotes a string. -/
def quote (s : String) : String := String.ofList ('"' :: s.toList.flatMap quoteChar ++ ['"'])

/-- The property of an object: after a dot if its name allows, else in brackets. -/
def memberAccess (object name : String) : String :=
  if isIdentifier name then object ++ "." ++ name else object ++ "[" ++ quote name ++ "]"

end Erasure.Text

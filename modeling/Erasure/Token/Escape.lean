import Erasure.Text.Character

/-!
Numeric escapes of characters, as they occur in names and in string literals.
-/

namespace Erasure.Escape

/-- The character with a code point, if there is one. -/
def charOfCode? (code : Nat) : Option Char :=
  if h : code.isValidChar then some (Char.ofNatAux code h) else none

def hexValue (digits : List Char) : Nat :=
  digits.foldl (fun n d => n * 16 + Text.hexDigitValue d) 0

/-- The value of an escape after its letter `u` and the number of characters it takes. Four digits
that name half of a surrogate pair stand for the replacement character. Digits in braces that
name no character are passed over all the same, if their value fits a word. -/
def unicode (rest : List Char) : Option Char × Nat :=
  match rest with
  | '\x7b' :: body =>
      let digits := body.takeWhile Text.isHexDigit
      match digits, body.dropWhile Text.isHexDigit with
      | _ :: _, '\x7d' :: _ =>
          let code := hexValue digits
          if code < 0x100000000 then (charOfCode? code, digits.length + 2) else (none, 0)
      | _, _ => (none, 0)
  | a :: b :: c :: d :: _ =>
      if [a, b, c, d].all Text.isHexDigit then
        (some ((charOfCode? (hexValue [a, b, c, d])).getD '\ufffd'), 4)
      else (none, 0)
  | _ => (none, 0)

/-- The value of an escape after its letter `x`. -/
def hex? (rest : List Char) : Option Char :=
  match rest with
  | a :: b :: _ =>
      if Text.isHexDigit a && Text.isHexDigit b then charOfCode? (hexValue [a, b]) else none
  | _ => none

end Erasure.Escape

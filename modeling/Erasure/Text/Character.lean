import Erasure.Text.Basic
import Erasure.Text.Property

/-!
Classes of characters that the lexical grammar distinguishes.
-/

namespace Erasure.Text

def isAscii (c : Char) : Bool := c.toNat < 0x80

def inRanges (table : Array CodeRange) (c : Char) : Bool :=
  table.any fun r => CodeRange.contains r c.toNat

def isAsciiLetter (c : Char) : Bool := ('a' ≤ c && c ≤ 'z') || ('A' ≤ c && c ≤ 'Z')

def isAsciiDigit (c : Char) : Bool := '0' ≤ c && c ≤ '9'

def isHexDigit (c : Char) : Bool :=
  isAsciiDigit c || ('a' ≤ c && c ≤ 'f') || ('A' ≤ c && c ≤ 'F')

def isOctalDigit (c : Char) : Bool := '0' ≤ c && c ≤ '7'

def isBinaryDigit (c : Char) : Bool := c = '0' || c = '1'

def hexDigitValue (c : Char) : Nat :=
  if isAsciiDigit c then c.toNat - '0'.toNat
  else if 'a' ≤ c && c ≤ 'f' then c.toNat - 'a'.toNat + 10
  else c.toNat - 'A'.toNat + 10

/-- The characters that end a line. -/
def isLineBreak (c : Char) : Bool :=
  c = '\n' || c = '\r' || c = '\u2028' || c = '\u2029'

/-- Blanks that do not end a line; of the ASCII separators only tabs, form feed and space. -/
def isInlineBlank (c : Char) : Bool :=
  if c = ' ' || c = '\t' || c = '\x0b' || c = '\x0c' || c = '\u00a0' || c = '\ufeff' then true
  else if isAscii c then false
  else isBlank c && !isLineBreak c

def isIdentifierStart (c : Char) : Bool :=
  isAsciiLetter c || c = '$' || c = '_' || (!isAscii c && inRanges alphabeticRanges c)

def isIdentifierPart (c : Char) : Bool :=
  isAsciiLetter c || isAsciiDigit c || c = '$' || c = '_' ||
    (!isAscii c && (inRanges alphabeticRanges c || inRanges numericRanges c ||
      c = '\u200c' || c = '\u200d'))

/-- Whether a text can stand as a name after a dot. -/
def isIdentifier (s : String) : Bool :=
  match s.toList with
  | [] => false
  | c :: cs => isIdentifierStart c && cs.all isIdentifierPart

/-- The characters of a word: letters, marks, decimal digits, connectors and join controls. -/
def isWordPart (c : Char) : Bool :=
  isAsciiLetter c || isAsciiDigit c || c = '_' ||
    (!isAscii c && (inRanges alphabeticRanges c || inRanges wordExtraRanges c))

end Erasure.Text

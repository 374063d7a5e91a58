import Erasure.Span

/-!
Cutting, trimming and replacing text. Offsets count bytes of the UTF-8 encoding.
-/

namespace Erasure.Text

/-- The text between two byte offsets, if both lie on character boundaries and are in order. -/
def slice? (s : String) (start stop : Nat) : Option String :=
  if start ≤ stop && String.Pos.Raw.isValid s ⟨start⟩ && String.Pos.Raw.isValid s ⟨stop⟩ then
    some (String.Pos.Raw.extract s ⟨start⟩ ⟨stop⟩)
  else none

/-- The text of a byte range, empty if the range does not fit the text. -/
def slice (s : String) (start stop : Nat) : String := (slice? s start stop).getD ""

/-- The byte at an offset. -/
def byte? (s : String) (offset : Nat) : Option UInt8 :=
  if h : (⟨offset⟩ : String.Pos.Raw) < s.rawEndPos then some (s.getUTF8Byte ⟨offset⟩ h) else none

/-- Number of bytes that characters take in UTF-8. -/
def byteSize (cs : List Char) : Nat := cs.foldr (fun c n => c.utf8Size + n) 0

/-- Number of UTF-16 code units of a character. -/
def units16 (c : Char) : Nat := if c.toNat < 0x10000 then 1 else 2

/-- Number of UTF-16 code units of a text. -/
def length16 (s : String) : Nat := s.toList.foldr (fun c n => units16 c + n) 0

/-- The longest run of characters from the start that fits into a number of bytes. -/
def takeBytes : Nat → List Char → List Char
  | _, [] => []
  | n, c :: cs => if c.utf8Size ≤ n then c :: takeBytes (n - c.utf8Size) cs else []

/-- The Unicode property `White_Space`. -/
def isBlank (c : Char) : Bool :=
  let n := c.toNat
  (9 ≤ n && n ≤ 13) || n == 0x20 || n == 0x85 || n == 0xa0 || n == 0x1680 ||
    (0x2000 ≤ n && n ≤ 0x200a) || n == 0x2028 || n == 0x2029 || n == 0x202f || n == 0x205f ||
    n == 0x3000

/-- Drop a longest run of characters at the end. -/
def dropEndWhile (p : Char → Bool) (cs : List Char) : List Char :=
  (cs.reverse.dropWhile p).reverse

def trimChars (cs : List Char) : List Char := dropEndWhile isBlank (cs.dropWhile isBlank)

/-- Text without blanks at both ends. -/
def trim (s : String) : String := String.ofList (trimChars s.toList)

/-- ASCII letters in lower case, all else unchanged. -/
def lower (s : String) : String := s.map Char.toLower

/-- Whether a word occurs somewhere in a text. -/
def hasInfix (word : List Char) : List Char → Bool
  | [] => word.isEmpty
  | c :: cs => word.isPrefixOf (c :: cs) || hasInfix word cs

/-- The byte offset of the first occurrence of a word, where the text starts at some offset. -/
def findFrom (word : List Char) (offset : Nat) : List Char → Option Nat
  | [] => none
  | c :: cs =>
      if word.isPrefixOf (c :: cs) then some offset else findFrom word (offset + c.utf8Size) cs

/-- Replace the occurrences of a word from left to right, with `skip` characters of the occurrence
last found still to pass over. -/
def replaceFrom (word replacement : List Char) : Nat → List Char → List Char
  | _, [] => []
  | skip + 1, _ :: cs => replaceFrom word replacement skip cs
  | 0, c :: cs =>
      if word.isPrefixOf (c :: cs) then
        replacement ++ replaceFrom word replacement (word.length - 1) cs
      else c :: replaceFrom word replacement 0 cs

/-- Replace every occurrence of a non-empty word. -/
def replace (word replacement s : List Char) : List Char := replaceFrom word replacement 0 s

/-- The pieces between separators. -/
def splitOn (sep : Char) : List Char → List (List Char)
  | [] => [[]]
  | c :: cs =>
      if c = sep then [] :: splitOn sep cs
      else match splitOn sep cs with
        | [] => [[c]]
        | piece :: pieces => (c :: piece) :: pieces

/-- The lines of a text, each with the line feed that ends it. -/
def lines : List Char → List (List Char)
  | [] => []
  | c :: cs =>
      if c = '\n' then [c] :: lines cs
      else match lines cs with
        | [] => [[c]]
        | line :: rest => (c :: line) :: rest

end Erasure.Text

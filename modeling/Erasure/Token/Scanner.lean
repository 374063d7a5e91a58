import Erasure.Comment
import Erasure.Diagnostic
import Erasure.Token.Cursor
import Erasure.Token.Escape
import Erasure.Token.Kind

/-!
The scanner. It stands on one token, goes on to the next, and reads the current token anew where
only the grammar can tell what it is: `>` before more operator characters, `/` at the start of a
regular expression, and the brace that resumes a template. Comments and lexical errors are
collected on the way.
-/

namespace Erasure

/-- What is known about a token beyond its kind. -/
structure TokenFlags where
  precedingLineBreak : Bool := false
  unterminated : Bool := false
  unicodeEscape : Bool := false
  scientific : Bool := false
  /-- An integer with a leading zero. -/
  octal : Bool := false
  hexSpecifier : Bool := false
  binarySpecifier : Bool := false
  octalSpecifier : Bool := false
  containsSeparator : Bool := false
  invalidEscape : Bool := false
  deriving DecidableEq, Inhabited

/-- Punctuators of a length that scanning recognizes. Those that start with `>` are found by
reading anew, and `#` is never a token of its own. -/
def TokenKind.punctuatorsOfLength (n : Nat) : List (List Char × TokenKind) :=
  (punctuators.map fun p => (p.1.toList, p.2)).filter fun p =>
    p.1.length = n && p.1 ≠ ['#'] && (p.1.head? ≠ some '>' || n = 1)

/-- Punctuators in the order in which they are tried. -/
def TokenKind.scannedPunctuators : List (List Char × TokenKind) :=
  punctuatorsOfLength 3 ++ punctuatorsOfLength 2 ++ punctuatorsOfLength 1

/-- The longest punctuator at the start of a text and its length. Before a digit, `?.` is a
question mark. -/
def TokenKind.punctuator? (rest : List Char) : Option (TokenKind × Nat) :=
  let fits (p : List Char × TokenKind) : Bool :=
    p.1.isPrefixOf rest && !(p.2 = questionDot && (rest[2]?.any Text.isAsciiDigit))
  (scannedPunctuators.find? fits).map fun p => (p.2, p.1.length)

/-- A name read so far: the characters it stands for, last one first, and the offset of an escape
or character that ends it in error. -/
structure ScannedName where
  cursor : Cursor
  chars : List Char := []
  escaped : Bool := false
  invalidAt? : Option Nat := none

namespace ScannedName

/-- An escape at the cursor and its length, if it can be read. -/
def escape? (rest : List Char) : Option (Char × Nat) :=
  match rest with
  | '\\' :: 'u' :: body =>
      match Escape.unicode body with
      | (some c, n) => some (c, n + 2)
      | (none, _) => none
  | _ => none

def accepts (w : ScannedName) (c : Char) : Bool :=
  if w.chars.isEmpty then Text.isIdentifierStart c else Text.isIdentifierPart c

/-- End the name with an error. At its start the error takes one more byte. -/
def fail (w : ScannedName) (cursor : Cursor) : ScannedName :=
  { w with
    cursor := if w.chars.isEmpty then cursor.nextByte else cursor
    invalidAt? := some cursor.offset }

/-- Read a name to its end. -/
def read : Nat → ScannedName → ScannedName
  | 0, w => w
  | fuel + 1, w =>
      match w.cursor.rest with
      | [] => w
      | c :: _ =>
          if c = '\\' then
            match escape? w.cursor.rest with
            | none => w.fail w.cursor
            | some (x, n) =>
                let cursor := w.cursor.advance n
                if w.accepts x then
                  read fuel { w with cursor, chars := x :: w.chars, escaped := true }
                else w.fail cursor
          else if w.accepts c then
            read fuel { w with cursor := w.cursor.next, chars := c :: w.chars }
          else w

end ScannedName

/-- The number of characters of a run of digits with single separators between them, and whether
it has separators. -/
def digitRun (isDigit : Char → Bool) (inside : Bool) : List Char → Nat × Bool
  | [] => (0, false)
  | c :: cs =>
      if isDigit c then
        let (n, separated) := digitRun isDigit true cs
        (n + 1, separated)
      else if c = '_' && inside && cs.head?.any isDigit then
        let (n, _) := digitRun isDigit true cs
        (n + 1, true)
      else (0, false)

/-- The number of characters up to and with the end of a block comment. -/
def blockCommentLength? : List Char → Option Nat
  | [] => none
  | '*' :: '/' :: _ => some 2
  | _ :: cs => (blockCommentLength? cs).map (· + 1)

structure Scanner where
  source : String
  /-- Where the current token ends. -/
  cursor : Cursor
  /-- Where the blanks and comments before the current token start. -/
  fullStart : Nat := 0
  /-- Where the current token starts. -/
  tokenStart : Cursor
  token : TokenKind := .unknown
  flags : TokenFlags := {}
  /-- What the token stands for: names and strings with their escapes resolved, otherwise the
  text of the token. -/
  value : String := ""
  /-- Comments passed, last one first. -/
  commentsRev : List Comment := []
  /-- Lexical errors, last one first. -/
  errorsRev : List Diagnostic := []

namespace Scanner

def ofString (source : String) : Scanner :=
  { source, cursor := Cursor.ofString source, tokenStart := Cursor.ofString source }

def start (s : Scanner) : Nat := s.tokenStart.offset

def stop (s : Scanner) : Nat := s.cursor.offset

/-- The text of the current token. -/
def text (s : Scanner) : String := Text.slice s.source s.start s.stop

def comments (s : Scanner) : List Comment := s.commentsRev.reverse

def errors (s : Scanner) : List Diagnostic := s.errorsRev.reverse

/-- Bound on the characters to come. -/
def remaining (s : Scanner) : Nat := s.source.utf8ByteSize - s.stop

/-- Report an error, unless it is the one reported last. -/
def error (s : Scanner) (m : Message) (start length : Nat) : Scanner :=
  let repeated := s.errorsRev.head?.any fun d => d.code = m.code && d.start = start
  if repeated then s
  else { s with errorsRev := Diagnostic.ofMessage m start length [] :: s.errorsRev }

def advance (s : Scanner) (n : Nat) : Scanner := { s with cursor := s.cursor.advance n }

/-- Finish a token that stands for its own text. -/
def finish (s : Scanner) (token : TokenKind) : Scanner := { s with token, value := s.text }

/-- Note a comment that ends at the cursor. A comment that was noted before is not noted again. -/
def noteComment (s : Scanner) (start : Cursor) (isBlock : Bool) : Scanner :=
  if s.commentsRev.head?.any fun c => c.start ≥ start.offset then s
  else
    let comment : Comment :=
      { start := start.offset, stop := s.stop, isBlock
        endsLine := s.cursor.endsLine, startsLine := start.startsLine }
    { s with commentsRev := comment :: s.commentsRev }

def markLineBreak (s : Scanner) : Scanner :=
  { s with flags := { s.flags with precedingLineBreak := true } }

def skipLineComment (s : Scanner) : Scanner :=
  let cursor := s.cursor.skipWhile fun c => !Text.isLineBreak c
  noteComment { s with cursor } s.cursor false

def skipBlockComment (s : Scanner) : Scanner :=
  let start := s.cursor
  let s := match blockCommentLength? (start.rest.drop 2) with
    | some n => s.advance (n + 2)
    | none =>
        let s := s.error .unterminatedComment s.source.utf8ByteSize 0
        { s with cursor := s.cursor.skipWhile fun _ => true }
  let length := start.rest.length - s.cursor.rest.length
  let s := if (start.rest.take length).any Text.isLineBreak then s.markLineBreak else s
  s.noteComment start true

/-- Pass over blanks, line breaks, comments and a shebang at the start of the text. -/
def skipTrivia : Nat → Scanner → Scanner
  | 0, s => s
  | fuel + 1, s =>
      match s.cursor.rest with
      | [] => s
      | c :: rest =>
          if Text.isLineBreak c then skipTrivia fuel (s.advance 1).markLineBreak
          else if Text.isInlineBlank c then skipTrivia fuel (s.advance 1)
          else if c = '#' && s.stop = 0 && rest.head? = some '!' then
            let cursor := s.cursor.skipWhile fun c => !(c = '\n' || c = '\r')
            skipTrivia fuel { s with cursor }
          else if c = '/' && rest.head? = some '/' then skipTrivia fuel s.skipLineComment
          else if c = '/' && rest.head? = some '*' then skipTrivia fuel s.skipBlockComment
          else s

/-- Read a name and report the error that ends it. -/
def readName (s : Scanner) : Scanner × ScannedName :=
  let name := ScannedName.read (s.remaining + 1) { cursor := s.cursor }
  let s := { s with cursor := name.cursor }
  match name.invalidAt? with
  | some offset => (s.error .invalidCharacter offset 1, name)
  | none => (s, name)

def markUnicodeEscape (s : Scanner) : Scanner :=
  { s with flags := { s.flags with unicodeEscape := true } }

/-- A name or keyword. A name written with escapes is no keyword. -/
def scanName (s : Scanner) : Scanner :=
  let (s, name) := s.readName
  if name.chars.isEmpty then s.finish .unknown
  else if name.escaped then
    { s.markUnicodeEscape with
      token := .identifier, value := String.ofList name.chars.reverse }
  else s.finish ((TokenKind.ofKeyword? s.text).getD .identifier)

def scanPrivateName (s : Scanner) : Scanner :=
  let startsName := (s.cursor.rest[1]?).any fun c => Text.isIdentifierStart c || c = '\\'
  if startsName then
    let (s, name) := (s.advance 1).readName
    if name.chars.isEmpty then s.finish .unknown
    else if name.escaped then
      { s.markUnicodeEscape with
        token := .privateIdentifier, value := String.ofList ('#' :: name.chars.reverse) }
    else s.finish .privateIdentifier
  else
    ((s.error .invalidCharacter s.stop 1).advance 1).finish .unknown

/-- Pass over digits; tells whether there were any. -/
def skipDigits (s : Scanner) (isDigit : Char → Bool) : Scanner × Bool :=
  let (n, separated) := digitRun isDigit false s.cursor.rest
  let s := s.advance n
  let s := if separated then { s with flags := { s.flags with containsSeparator := true } } else s
  (s, n != 0)

/-- Pass over digits of which there has to be one. -/
def requireDigits (s : Scanner) (isDigit : Char → Bool) (m : Message) : Scanner :=
  let (s, found) := s.skipDigits isDigit
  if found then s else s.error m s.stop 0

/-- The fraction of a decimal number. -/
def skipFraction (s : Scanner) : Scanner × Bool :=
  match s.cursor.rest with
  | '.' :: _ => (((s.advance 1).skipDigits Text.isAsciiDigit).1, true)
  | _ => (s, false)

/-- The exponent of a decimal number. -/
def skipExponent (s : Scanner) : Scanner × Bool :=
  match s.cursor.rest with
  | c :: rest =>
      if c = 'e' || c = 'E' then
        let s := { s.advance 1 with flags := { s.flags with scientific := true } }
        let signed := rest.head? = some '+' || rest.head? = some '-'
        let s := if signed then s.advance 1 else s
        (s.requireDigits Text.isAsciiDigit .digitExpected, true)
      else (s, false)
  | [] => (s, false)

/-- The digits of a number; tells whether it can be a big integer. -/
def skipNumber (s : Scanner) : Scanner × Bool :=
  let marker := match s.cursor.rest with
    | '0' :: c :: _ => some c
    | _ => none
  match marker with
  | some 'x' | some 'X' =>
      let s := { s.advance 2 with flags := { s.flags with hexSpecifier := true } }
      (s.requireDigits Text.isHexDigit .hexDigitExpected, true)
  | some 'b' | some 'B' =>
      let s := { s.advance 2 with flags := { s.flags with binarySpecifier := true } }
      (s.requireDigits Text.isBinaryDigit .digitExpected, true)
  | some 'o' | some 'O' =>
      let s := { s.advance 2 with flags := { s.flags with octalSpecifier := true } }
      (s.requireDigits Text.isOctalDigit .digitExpected, true)
  | _ =>
      if marker.any Text.isAsciiDigit then
        let s := { s with flags := { s.flags with octal := true } }
        ((s.skipDigits Text.isAsciiDigit).1, false)
      else
        let (s, _) := s.skipDigits Text.isAsciiDigit
        let (s, hasFraction) := s.skipFraction
        let (s, hasExponent) := s.skipExponent
        (s, !hasFraction && !hasExponent)

def scanNumber (s : Scanner) : Scanner :=
  let (s, integral) := s.skipNumber
  let isBig := integral && s.cursor.rest.head? = some 'n'
  let s := if isBig then s.advance 1 else s
  let s :=
    if s.cursor.rest.head?.any Text.isIdentifierStart then
      let nameEnd := s.cursor.skipWhile Text.isIdentifierPart
      s.error .identifierAfterNumber s.stop (nameEnd.offset - s.stop)
    else s
  s.finish (if isBig then .bigIntLiteral else .numericLiteral)

/-- An escape that cannot be read stands for its own text. -/
def invalidEscape (s : Scanner) (start : Cursor) (length : Nat) (value : List Char) :
    Scanner × List Char :=
  let s := { s with flags := { s.flags with invalidEscape := true } }
  (s.error .hexDigitExpected s.stop 0, (start.rest.take length).reverse ++ value)

/-- Read the escape at the cursor. The value of the literal is kept last character first. -/
def readEscape (s : Scanner) (value : List Char) : Scanner × List Char :=
  let start := s.cursor
  match start.rest with
  | _ :: c :: rest =>
      let s := s.advance 2
      match c with
      | 'b' => (s, '\x08' :: value)
      | 't' => (s, '\t' :: value)
      | 'n' => (s, '\n' :: value)
      | 'v' => (s, '\x0b' :: value)
      | 'f' => (s, '\x0c' :: value)
      | 'r' => (s, '\r' :: value)
      | 'x' =>
          match Escape.hex? rest with
          | some x => (s.advance 2, x :: value)
          | none => s.invalidEscape start 2 value
      | 'u' =>
          let (x, n) := Escape.unicode rest
          let s := s.advance n
          match x with
          | some x => (s, x :: value)
          | none => s.invalidEscape start (n + 2) value
      | '\r' => (if rest.head? = some '\n' then s.advance 1 else s, value)
      | '\n' | '\u2028' | '\u2029' => (s, value)
      | '0' =>
          (s, (if rest.head?.any Text.isAsciiDigit then '0' else '\x00') :: value)
      | other => (s, other :: value)
  | _ => (s.advance 1, value)

/-- Finish a literal with the value read. -/
def finishCooked (s : Scanner) (token : TokenKind) (value : List Char) : Scanner :=
  { s with token, value := String.ofList value.reverse }

/-- Finish a literal that lacks its end. -/
def unterminated (s : Scanner) (m : Message) : Scanner :=
  let s := s.error m s.stop 0
  { s with flags := { s.flags with unterminated := true } }

/-- Read a string literal to its closing quote. -/
def readString (quote : Char) : Nat → List Char → Scanner → Scanner
  | 0, value, s => s.finishCooked .stringLiteral value
  | fuel + 1, value, s =>
      match s.cursor.rest with
      | [] => (s.unterminated .unterminatedString).finishCooked .stringLiteral value
      | c :: _ =>
          if c = quote then (s.advance 1).finishCooked .stringLiteral value
          else if c = '\\' then
            let (s, value) := s.readEscape value
            readString quote fuel value s
          else if c = '\n' || c = '\r' then
            (s.unterminated .unterminatedString).finishCooked .stringLiteral value
          else readString quote fuel (c :: value) (s.advance 1)

def scanString (s : Scanner) (quote : Char) : Scanner :=
  (s.advance 1).readString quote (s.remaining + 1) []

/-- Read a piece of a template to its end or to a substitution; `whole` and `part` are the kinds
of token in these two cases. Line breaks in a template stand for line feeds. -/
def readTemplate (whole part : TokenKind) : Nat → List Char → Scanner → Scanner
  | 0, value, s => s.finishCooked whole value
  | fuel + 1, value, s =>
      match s.cursor.rest with
      | [] => (s.unterminated .unterminatedTemplate).finishCooked whole value
      | c :: rest =>
          if c = '\x60' then (s.advance 1).finishCooked whole value
          else if c = '$' && rest.head? = some '\x7b' then (s.advance 2).finishCooked part value
          else if c = '\\' then
            let (s, value) := s.readEscape value
            readTemplate whole part fuel value s
          else if c = '\r' then
            let s := s.advance (if rest.head? = some '\n' then 2 else 1)
            readTemplate whole part fuel ('\n' :: value) s
          else readTemplate whole part fuel (c :: value) (s.advance 1)

/-- The token that starts with a character which is no blank and starts no comment. -/
def scanToken (s : Scanner) (c : Char) : Scanner :=
  if c = '"' || c = '\'' then s.scanString c
  else if c = '\x60' then
    (s.advance 1).readTemplate .templateLiteral .templateHead (s.remaining + 1) []
  else if Text.isAsciiDigit c || (c = '.' && (s.cursor.rest[1]?).any Text.isAsciiDigit) then
    s.scanNumber
  else if c = '#' then s.scanPrivateName
  else if c = '\\' || Text.isIdentifierStart c then s.scanName
  else match TokenKind.punctuator? s.cursor.rest with
    | some (kind, length) => (s.advance length).finish kind
    | none => ((s.error .invalidCharacter s.stop c.utf8Size).advance 1).finish .unknown

/-- Go on to the next token. -/
def scan (s : Scanner) : Scanner :=
  let s := { s with fullStart := s.stop, flags := {}, value := "" }
  let s := s.skipTrivia (s.remaining + 1)
  let s := { s with tokenStart := s.cursor }
  match s.cursor.rest with
  | [] => { s with token := .endOfFile }
  | c :: _ => s.scanToken c

/-- The operators that start with `>`, without that character, longest first. -/
def greaterOperators : List (List Char × TokenKind) :=
  [(['>', '>', '='], .shiftRightUnsignedEquals), (['>', '>'], .shiftRightUnsigned),
   (['>', '='], .shiftRightEquals), (['>'], .shiftRight), (['='], .greaterEquals)]

/-- Join `>` with the operator characters after it. -/
def rescanGreater (s : Scanner) : Scanner :=
  if s.token = .greaterThan then
    match greaterOperators.find? fun p => p.1.isPrefixOf s.cursor.rest with
    | some (more, kind) => (s.advance more.length).finish kind
    | none => s
  else s

/-- The number of characters of a regular expression after its first slash, and whether the
second slash was found. -/
def regExpLength (inClass : Bool) : List Char → Nat × Bool
  | [] => (0, false)
  | '\\' :: x :: cs =>
      if Text.isLineBreak x then (1, false)
      else
        let (n, closed) := regExpLength inClass cs
        (n + 2, closed)
  | c :: cs =>
      if Text.isLineBreak c then (0, false)
      else if c = '/' && !inClass then (1, true)
      else
        let inClass := if c = '[' then true else if c = ']' then false else inClass
        let (n, closed) := regExpLength inClass cs
        (n + 1, closed)

/-- Read a slash as the start of a regular expression. -/
def rescanSlash (s : Scanner) : Scanner :=
  if s.token = .slash || s.token = .slashEquals then
    let s := { s with cursor := s.tokenStart.advance 1 }
    let (n, closed) := regExpLength false s.cursor.rest
    let s := s.advance n
    let s :=
      if closed then s
      else
        let s := s.error .unterminatedRegExp s.start (s.stop - s.start)
        { s with flags := { s.flags with unterminated := true } }
    let s := { s with cursor := s.cursor.skipWhile Text.isIdentifierPart }
    s.finish .regExpLiteral
  else s

/-- Resume a template at the brace that closes a substitution. -/
def rescanTemplate (s : Scanner) : Scanner :=
  if s.token = .closeBrace then
    let s := { s with cursor := s.tokenStart.advance 1 }
    s.readTemplate .templateTail .templateMiddle (s.remaining + 1) []
  else s

/-- Stand between tokens at an offset. -/
def resetTo (s : Scanner) (offset : Nat) : Scanner :=
  { s with
    cursor := Cursor.atOffset s.source offset
    token := .unknown, flags := {}, value := "" }

/-- A place to which the scanner can return. Of the comments and errors it keeps their number. -/
structure Snapshot where
  cursor : Cursor
  fullStart : Nat
  tokenStart : Cursor
  token : TokenKind
  flags : TokenFlags
  value : String
  commentCount : Nat
  errorCount : Nat

def save (s : Scanner) : Snapshot :=
  { s with commentCount := s.commentsRev.length, errorCount := s.errorsRev.length }

/-- A list that has its last entry first, cut down to the entries that were there first. -/
def cutTo {α : Type} : Nat → List α → List α
  | 0, _ => []
  | count, rev => rev.drop (rev.length - count)

/-- Return to a place, forgetting the comments and errors found since. -/
def restore (s : Scanner) (p : Snapshot) : Scanner :=
  { s with
    cursor := p.cursor, fullStart := p.fullStart, tokenStart := p.tokenStart
    token := p.token, flags := p.flags, value := p.value
    commentsRev := cutTo p.commentCount s.commentsRev
    errorsRev := cutTo p.errorCount s.errorsRev }

end Scanner
end Erasure

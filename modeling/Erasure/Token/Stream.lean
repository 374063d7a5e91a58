import Erasure.Text.LineMap
import Erasure.Token.Scanner

/-!
The tokens of a text without a grammar to tell what they are. A slash starts a regular expression
unless an expression ends before it, and a closing brace resumes a template if it closes a
substitution.
-/

namespace Erasure

/-- A token with its place; line and column count from one. -/
structure Token where
  kind : TokenKind
  text : String
  span : Span
  line : Nat
  column : Nat
  flags : TokenFlags

/-- The state between two tokens. -/
structure TokenStream where
  scanner : Scanner
  previous? : Option TokenKind := none
  braceDepth : Nat := 0
  /-- Depths of the braces around the open substitutions, innermost first. -/
  templateDepths : List Nat := []

namespace TokenStream

def ofString (s : String) : TokenStream := { scanner := Scanner.ofString s }

/-- Whether a token can end an expression. -/
def endsExpression : TokenKind → Bool
  | .identifier | .privateIdentifier | .numericLiteral | .bigIntLiteral | .stringLiteral
  | .regExpLiteral | .templateLiteral | .templateTail | .closeParen | .closeBracket | .closeBrace
  | .thisKw | .superKw | .trueKw | .falseKw | .nullKw | .plusPlus | .minusMinus => true
  | .awaitKw | .yieldKw => false
  | k => k.isKeyword && k.isIdentifierLike

def regExpAllowed (t : TokenStream) : Bool := !(t.previous?.any endsExpression)

/-- Decide what the token under the scanner is. -/
def resolve (t : TokenStream) : TokenStream :=
  match t.scanner.token with
  | .slash | .slashEquals =>
      if t.regExpAllowed then { t with scanner := t.scanner.rescanSlash } else t
  | .greaterThan => { t with scanner := t.scanner.rescanGreater }
  | .openBrace => { t with braceDepth := t.braceDepth + 1 }
  | .closeBrace =>
      match t.templateDepths with
      | depth :: depths =>
          if depth = t.braceDepth then
            let scanner := t.scanner.rescanTemplate
            let templateDepths :=
              if scanner.token = .templateMiddle then depth :: depths else depths
            { t with scanner, templateDepths }
          else { t with braceDepth := t.braceDepth - 1 }
      | [] => { t with braceDepth := t.braceDepth - 1 }
  | .templateHead => { t with templateDepths := t.braceDepth :: t.templateDepths }
  | _ => t

/-- Go on to the next token. -/
def next (t : TokenStream) : TokenStream :=
  let t := { t with scanner := t.scanner.scan }.resolve
  { t with previous? := some t.scanner.token }

def current (t : TokenStream) (lines : Text.LineMap) : Token :=
  let s := t.scanner
  let (line, column) := lines.oneBased s.source s.start
  { kind := s.token, text := s.text, span := ⟨s.start, s.stop⟩, line, column, flags := s.flags }

/-- The tokens up to the end of the text, last one first, and the scanner there. -/
def collect (lines : Text.LineMap) : Nat → TokenStream → List Token → List Token × Scanner
  | 0, t, tokens => (tokens, t.scanner)
  | fuel + 1, t, tokens =>
      let t := t.next
      if t.scanner.token = .endOfFile then (tokens, t.scanner)
      else collect lines fuel t (t.current lines :: tokens)

end TokenStream

/-- The tokens of a text in order and the lexical errors. -/
def Token.scanAll (text : String) : List Token × List Diagnostic :=
  let lines := Text.LineMap.ofString text
  let (tokens, scanner) :=
    (TokenStream.ofString text).collect lines (text.utf8ByteSize + 1) []
  (tokens.reverse, scanner.errors)

end Erasure

/-!
Kinds of tokens. The order of the constructors groups them, so that the classes are ranges.
-/

namespace Erasure

inductive TokenKind where
  | unknown | endOfFile
  -- literals
  | numericLiteral | bigIntLiteral | stringLiteral | regExpLiteral | templateLiteral | templateHead
  | templateMiddle | templateTail
  -- punctuation
  | openBrace | closeBrace | openParen | closeParen | openBracket | closeBracket | dot | ellipsis
  | semicolon | comma | questionDot | lessThan | greaterThan | lessEquals | greaterEquals
  | equalsEquals | notEquals | strictEquals | strictNotEquals | arrow | plus | minus | asterisk
  | power | slash | percent | plusPlus | minusMinus | shiftLeft | shiftRight | shiftRightUnsigned
  | ampersand | bar | caret | exclamation | tilde | ampersandAmpersand | barBar | question | colon
  | atSign | questionQuestion | hash
  -- assignment operators
  | equals | plusEquals | minusEquals | asteriskEquals | powerEquals | slashEquals | percentEquals
  | shiftLeftEquals | shiftRightEquals | shiftRightUnsignedEquals | ampersandEquals | barEquals
  | barBarEquals | ampersandAmpersandEquals | questionQuestionEquals | caretEquals
  -- names
  | identifier | privateIdentifier
  -- reserved words
  | breakKw | caseKw | catchKw | classKw | constKw | continueKw | debuggerKw | defaultKw | deleteKw
  | doKw | elseKw | enumKw | exportKw | extendsKw | falseKw | finallyKw | forKw | functionKw | ifKw
  | importKw | inKw | instanceofKw | newKw | nullKw | returnKw | superKw | switchKw | thisKw
  | throwKw | trueKw | tryKw | typeofKw | varKw | voidKw | whileKw | withKw
  -- words reserved in strict code
  | implementsKw | interfaceKw | letKw | packageKw | privateKw | protectedKw | publicKw | staticKw
  | yieldKw
  -- words with a meaning in some contexts
  | abstractKw | accessorKw | asKw | assertsKw | assertKw | anyKw | asyncKw | awaitKw | booleanKw
  | constructorKw | declareKw | getKw | inferKw | intrinsicKw | isKw | keyofKw | moduleKw
  | namespaceKw | neverKw | outKw | readonlyKw | requireKw | numberKw | objectKw | satisfiesKw
  | setKw | stringKw | symbolKw | typeKw | undefinedKw | uniqueKw | unknownKw | usingKw | fromKw
  | globalKw | bigintKw | overrideKw | ofKw
  deriving DecidableEq, Inhabited

namespace TokenKind

/-- Whether a kind stands between two others in the order of declaration, both included. -/
def isBetween (first last kind : TokenKind) : Bool :=
  first.ctorIdx ≤ kind.ctorIdx && kind.ctorIdx ≤ last.ctorIdx

def isKeyword : TokenKind → Bool := isBetween breakKw ofKw

/-- Words that are never names. -/
def isReservedWord : TokenKind → Bool := isBetween breakKw withKw

/-- Tokens that can name a declaration or a variable. -/
def isIdentifierLike (k : TokenKind) : Bool := k = identifier || isBetween implementsKw ofKw k

def isIdentifierOrKeyword (k : TokenKind) : Bool := k = identifier || k.isKeyword

def isLiteral : TokenKind → Bool := isBetween numericLiteral templateLiteral

def isTemplateStart (k : TokenKind) : Bool := k = templateLiteral || k = templateHead

def isAssignmentOperator : TokenKind → Bool := isBetween equals caretEquals

def isPunctuation : TokenKind → Bool := isBetween openBrace caretEquals

/-- Words that may stand before a declaration or a class member. -/
def isModifier : TokenKind → Bool
  | abstractKw | accessorKw | asyncKw | constKw | declareKw | defaultKw | exportKw | inKw
  | publicKw | privateKw | protectedKw | readonlyKw | staticKw | outKw | overrideKw => true
  | _ => false

/-- The two operators that cannot stand beside an unparenthesized coalescing operator. -/
def isLogicalOperator (k : TokenKind) : Bool := k = barBar || k = ampersandAmpersand

/-- Spelling of the operators and other punctuation. -/
def punctuators : List (String × TokenKind) :=
  [("\x7b", openBrace), ("\x7d", closeBrace), ("(", openParen), (")", closeParen),
   ("[", openBracket), ("]", closeBracket), (".", dot), ("...", ellipsis), (";", semicolon),
   (",", comma), ("?.", questionDot), ("<", lessThan), (">", greaterThan), ("<=", lessEquals),
   (">=", greaterEquals), ("==", equalsEquals), ("!=", notEquals), ("===", strictEquals),
   ("!==", strictNotEquals), ("=>", arrow), ("+", plus), ("-", minus), ("*", asterisk),
   ("**", power), ("/", slash), ("%", percent), ("++", plusPlus), ("--", minusMinus),
   ("<<", shiftLeft), (">>", shiftRight), (">>>", shiftRightUnsigned), ("&", ampersand), ("|", bar),
   ("^", caret), ("!", exclamation), ("~", tilde), ("&&", ampersandAmpersand), ("||", barBar),
   ("?", question), (":", colon), ("@", atSign), ("??", questionQuestion), ("#", hash),
   ("=", equals), ("+=", plusEquals), ("-=", minusEquals), ("*=", asteriskEquals),
   ("**=", powerEquals), ("/=", slashEquals), ("%=", percentEquals), ("<<=", shiftLeftEquals),
   (">>=", shiftRightEquals), (">>>=", shiftRightUnsignedEquals), ("&=", ampersandEquals),
   ("|=", barEquals), ("||=", barBarEquals), ("&&=", ampersandAmpersandEquals),
   ("??=", questionQuestionEquals), ("^=", caretEquals)]

/-- Spelling of the keywords. -/
def keywords : List (String × TokenKind) :=
  [("break", breakKw), ("case", caseKw), ("catch", catchKw), ("class", classKw), ("const", constKw),
   ("continue", continueKw), ("debugger", debuggerKw), ("default", defaultKw), ("delete", deleteKw),
   ("do", doKw), ("else", elseKw), ("enum", enumKw), ("export", exportKw), ("extends", extendsKw),
   ("false", falseKw), ("finally", finallyKw), ("for", forKw), ("function", functionKw),
   ("if", ifKw), ("import", importKw), ("in", inKw), ("instanceof", instanceofKw), ("new", newKw),
   ("null", nullKw), ("return", returnKw), ("super", superKw), ("switch", switchKw),
   ("this", thisKw), ("throw", throwKw), ("true", trueKw), ("try", tryKw), ("typeof", typeofKw),
   ("var", varKw), ("void", voidKw), ("while", whileKw), ("with", withKw),
   ("implements", implementsKw), ("interface", interfaceKw), ("let", letKw), ("package", packageKw),
   ("private", privateKw), ("protected", protectedKw), ("public", publicKw), ("static", staticKw),
   ("yield", yieldKw), ("abstract", abstractKw), ("accessor", accessorKw), ("as", asKw),
   ("asserts", assertsKw), ("assert", assertKw), ("any", anyKw), ("async", asyncKw),
   ("await", awaitKw), ("boolean", booleanKw), ("constructor", constructorKw),
   ("declare", declareKw), ("get", getKw), ("infer", inferKw), ("intrinsic", intrinsicKw),
   ("is", isKw), ("keyof", keyofKw), ("module", moduleKw), ("namespace", namespaceKw),
   ("never", neverKw), ("out", outKw), ("readonly", readonlyKw), ("require", requireKw),
   ("number", numberKw), ("object", objectKw), ("satisfies", satisfiesKw), ("set", setKw),
   ("string", stringKw), ("symbol", symbolKw), ("type", typeKw), ("undefined", undefinedKw),
   ("unique", uniqueKw), ("unknown", unknownKw), ("using", usingKw), ("from", fromKw),
   ("global", globalKw), ("bigint", bigintKw), ("override", overrideKw), ("of", ofKw)]

/-- The keyword with a spelling. -/
def ofKeyword? (text : String) : Option TokenKind := keywords.lookup text

/-- The spelling of a punctuator or keyword. -/
def text? (k : TokenKind) : Option String :=
  ((punctuators ++ keywords).find? fun p => p.2 = k).map Prod.fst

/-- The spelling of a punctuator or keyword, empty for other kinds. -/
def text (k : TokenKind) : String := k.text?.getD ""

end TokenKind
end Erasure

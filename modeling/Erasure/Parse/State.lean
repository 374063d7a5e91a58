import Erasure.Limits
import Erasure.Syntax.Precedence
import Erasure.Syntax.SourceFile
import Erasure.Token.Scanner

/-!
The state of a parse: a scanner on the current token, the context, and what was found so far.
Looking ahead runs a parser and goes back to where it started: the place is put back, and what was
found since is cut off. The numbering of nodes and the notes on limits go on.
-/

namespace Erasure

/-- What the surroundings of an expression or type change about its grammar. -/
structure ParseContext where
  /-- `in` is no operator: the head of a `for` statement. -/
  noIn : Bool := false
  /-- `yield` is an operator. -/
  inGenerator : Bool := false
  /-- `await` is an operator. -/
  inAsync : Bool := false
  /-- Declarations without implementation. -/
  ambient : Bool := false
  /-- The operand of `extends` in a conditional type. -/
  noConditionalType : Bool := false
  /-- A bracket starts a computed name, not an element access. -/
  inDecorator : Bool := false
  deriving DecidableEq

/-- Why a repetition might not come to an end by itself. -/
inductive Stall where
  /-- A round passed over no token: it began on this one and ended on it. -/
  | standing (k : TokenKind)
  /-- All the rounds that it may take were used up. -/
  | cutOff
  deriving DecidableEq

structure ParseState where
  scanner : Scanner
  /-- The file may hold JSX. -/
  isTsx : Bool
  context : ParseContext := {}
  /-- Where the last token passed ends. -/
  prevEnd : Nat := 0
  /-- Errors found, last one first. -/
  errorsRev : List Diagnostic := []
  nextId : NodeId := 0
  depth : Nat := 0
  depthReported : Bool := false
  /-- The first time that a repetition stalled. -/
  stall? : Option Stall := none

abbrev Parse := StateM ParseState

namespace ParseState

def ofString (fileName source : String) : ParseState :=
  { scanner := Scanner.ofString source, isTsx := fileName.endsWith ".tsx" }

/-- The range from a position to the end of the last token passed. -/
def spanFrom (s : ParseState) (start : Nat) : Span := ⟨start, max s.prevEnd start⟩

/-- Whether the scanner reported an error at a position. -/
def scannerReportedAt (s : ParseState) (start : Nat) : Bool :=
  (s.scanner.errorsRev.takeWhile fun d => start ≤ d.start).any fun d => d.start = start

/-- Report an error, at most one for a position. -/
def error (s : ParseState) (m : Message) (start length : Nat) (args : List String) : ParseState :=
  let reported := s.errorsRev.head?.any fun d => d.start = start
  if reported || s.scannerReportedAt start || s.errorsRev.length ≥ Limits.diagnostics then s
  else { s with errorsRev := Diagnostic.ofMessage m start length args :: s.errorsRev }

/-- What is kept to go back to a state: the place, the context, and how much was found. -/
structure Checkpoint where
  scanner : Scanner.Snapshot
  prevEnd : Nat
  context : ParseContext
  errorCount : Nat

def save (s : ParseState) : Checkpoint :=
  { scanner := s.scanner.save, prevEnd := s.prevEnd, context := s.context
    errorCount := s.errorsRev.length }

/-- Go back to where a state was kept, forgetting the comments and errors found since. -/
def restore (s : ParseState) (c : Checkpoint) : ParseState :=
  { s with
    scanner := s.scanner.restore c.scanner, prevEnd := c.prevEnd, context := c.context
    errorsRev := Scanner.cutTo c.errorCount s.errorsRev }

end ParseState

namespace Parse

def token : Parse TokenKind := return (← get).scanner.token

def isToken (k : TokenKind) : Parse Bool := return (← token) = k

def isOneOf (ks : List TokenKind) : Parse Bool := return ks.contains (← token)

/-- Where the current token starts. -/
def pos : Parse Nat := return (← get).scanner.start

/-- Where the current token ends. -/
def stop : Parse Nat := return (← get).scanner.stop

def tokenSpan : Parse Span := return ⟨← pos, ← stop⟩

def tokenText : Parse String := return (← get).scanner.text

def tokenValue : Parse String := return (← get).scanner.value

/-- A line ends before the current token. -/
def afterLineBreak : Parse Bool := return (← get).scanner.flags.precedingLineBreak

def advance : Parse Unit :=
  modify fun s => { s with prevEnd := s.scanner.stop, scanner := s.scanner.scan }

/-- Go on and tell the kind of the next token. -/
def next : Parse TokenKind := do
  advance
  token

def rescanGreater : Parse TokenKind := do
  modify fun s => { s with scanner := s.scanner.rescanGreater }
  token

def rescanSlash : Parse Unit := modify fun s => { s with scanner := s.scanner.rescanSlash }

def rescanTemplate : Parse TokenKind := do
  modify fun s => { s with scanner := s.scanner.rescanTemplate }
  token

def errorAt (m : Message) (span : Span) (args : List String) : Parse Unit :=
  modify fun s => s.error m span.start span.length args

def errorHere (m : Message) (args : List String) : Parse Unit := do
  errorAt m (← tokenSpan) args

def errorCount : Parse Nat := return (← get).errorsRev.length

/-- Pass over a token of a kind, if it is the current one. -/
def accept (k : TokenKind) : Parse Bool := do
  if ← isToken k then
    advance
    return true
  else return false

/-- Pass over a token of a kind or report that it is missing. -/
def expect (k : TokenKind) : Parse Bool := do
  if ← accept k then return true
  errorHere .tokenExpected [k.text?.getD "token"]
  return false

/-- Pass over a token of a kind or report that it is missing, and go on in any case. -/
def require (k : TokenKind) : Parse Unit := do
  let _ ← expect k

/-- Pass over a token of a kind, if it is the current one, and go on in any case. -/
def discard (k : TokenKind) : Parse Unit := do
  let _ ← accept k

/-- What a parser gives, if a test succeeds. -/
def when? {α : Type} (test : Parse Bool) (p : Parse α) : Parse (Option α) := do
  if ← test then return some (← p) else return none

/-- What a parser gives, unless a test succeeds. -/
def unless? {α : Type} (test : Parse Bool) (p : Parse α) : Parse (Option α) := do
  if ← test then return none else return some (← p)

/-- What follows a token of a kind, if it is there. -/
def after? {α : Type} (k : TokenKind) (p : Parse α) : Parse (Option α) := when? (accept k) p

def freshId : Parse NodeId :=
  modifyGet fun s => (s.nextId, { s with nextId := s.nextId + 1 })

/-- A node from a position to the end of the last token passed. -/
def finish (start : Nat) (form : Form) : Parse Node :=
  modifyGet fun s => (⟨s.nextId, s.spanFrom start, form⟩, { s with nextId := s.nextId + 1 })

/-- A node of no width before the current token. -/
def placeholderNode (form : Form) : Parse Node := do
  return ⟨← freshId, Span.point (← pos), form⟩

def missingExpression : Parse Node := placeholderNode .missingExpr

def missingStatement : Parse Node := placeholderNode .missingStmt

def missingType : Parse Node := placeholderNode .missingType

def context : Parse ParseContext := return (← get).context

/-- Run a parser in another context. -/
def withContext {α : Type} (change : ParseContext → ParseContext) (p : Parse α) : Parse α := do
  let saved ← context
  modify fun s => { s with context := change s.context }
  let result ← p
  modify fun s => { s with context := saved }
  return result

def allowIn {α : Type} (p : Parse α) : Parse α := withContext (fun c => { c with noIn := false }) p

def allowConditionalType {α : Type} (p : Parse α) : Parse α :=
  withContext (fun c => { c with noConditionalType := false }) p

def disallowConditionalType {α : Type} (p : Parse α) : Parse α :=
  withContext (fun c => { c with noConditionalType := true }) p

/-- The context of the parameters and the body of a function. -/
def functionContext (isAsync isGenerator : Bool) (c : ParseContext) : ParseContext :=
  { c with noIn := false, inDecorator := false, inGenerator := isGenerator, inAsync := isAsync }

/-- Run a parser and go back. -/
def lookAhead {α : Type} (p : Parse α) : Parse α := fun s =>
  let (result, after) := p s
  (result, after.restore s.save)

/-- Run a parser and go back unless it succeeds. -/
def attempt {α : Type} (p : Parse (Option α)) : Parse (Option α) := fun s =>
  match p s with
  | (some result, after) => (some result, after)
  | (none, after) => (none, after.restore s.save)

/-- Test the token after the current one. -/
def nextIs (test : Parse Bool) : Parse Bool := lookAhead do
  advance
  test

def nextIsToken (k : TokenKind) : Parse Bool := nextIs (isToken k)

/-- Report once that the nesting is too deep. -/
def reportDepth : Parse Unit := do
  unless (← get).depthReported do
    modify fun s => { s with depthReported := true }
    errorHere .expressionExpected []

/-- Run a parser one level deeper, or give a substitute if the nesting is too deep. -/
def nested (substitute p : Parse Node) : Parse Node := do
  if (← get).depth ≥ Limits.nesting then
    reportDepth
    substitute
  else
    modify fun s => { s with depth := s.depth + 1 }
    let result ← p
    modify fun s => { s with depth := s.depth - 1 }
    return result

/-- Whether a chain of operations has become too long; reports it once. -/
def chainTooLong (length : Nat) : Parse Bool := do
  if length < Limits.leftChain then return false
  reportDepth
  return true

/-- Note that a repetition stalls, if it does and no other one did before. -/
def noteStall (stall? : Option Stall) : Parse Unit :=
  modify fun s => { s with stall? := s.stall?.or stall? }

/-- Note a round that passed over no token, with the token on which it began. -/
def noteRound (start : Nat) (k : TokenKind) : Parse Unit := do
  noteStall (if (← pos) = start then some (.standing k) else none)

/-- Repeat a step until it is done, for at most a number of times. -/
def iterate {σ : Type} (step : σ → Parse (ForInStep σ)) : Nat → σ → Parse σ
  | 0, x => do
      noteStall (some .cutOff)
      return x
  | fuel + 1, x => do
      let start ← pos
      let k ← token
      match ← step x with
      | .done y => return y
      | .yield y =>
          noteRound start k
          iterate step fuel y

/-- Repeat a step until it is done. Every step passes over a token, so the text bounds their
number. -/
def loop {σ : Type} (init : σ) (step : σ → Parse (ForInStep σ)) : Parse σ := do
  iterate step (2 * (← get).scanner.source.utf8ByteSize + 16) init

/-- Add the result of a step, if there is one, to those before. -/
def collectStep {α : Type} (step : Parse (Option α × Bool)) (rev : List α) :
    Parse (ForInStep (List α)) := do
  let (result, done) ← step
  let rev := result.toList ++ rev
  return if done then .done rev else .yield rev

/-- Collect the results of a step until it is done. A step can give no result. -/
def collect {α : Type} (step : Parse (Option α × Bool)) : Parse (List α) := do
  let rev ← loop [] (collectStep step)
  return rev.reverse

/-- A name, or a keyword that can be one here. -/
def isIdentifier : Parse Bool := do
  let k ← token
  let c ← context
  if k = .yieldKw && c.inGenerator then return false
  if k = .awaitKw && c.inAsync then return false
  return k.isIdentifierLike

def isIdentifierOrKeyword : Parse Bool := return (← token).isIdentifierOrKeyword

/-- Take the current token as a name. -/
def takeIdentifier : Parse Identifier := do
  let name : Identifier := { id := ← freshId, span := ← tokenSpan, text := ← tokenValue }
  advance
  return name

/-- A name of no width for one that is missing. -/
def missingIdentifier : Parse Identifier := do
  return { id := ← freshId, span := Span.point (← pos), text := "" }

def identifier : Parse Identifier := do
  if ← isIdentifier then takeIdentifier
  else
    errorHere .identifierExpected []
    missingIdentifier

/-- A name in a place where keywords are names too. -/
def identifierName : Parse Identifier := do
  if ← isIdentifierOrKeyword then takeIdentifier
  else
    errorHere .identifierExpected []
    missingIdentifier

/-- The name after a dot, if there is one. -/
def segmentStep : Parse (Option Identifier × Bool) := do
  if ← accept .dot then return (some (← identifierName), false)
  return (none, true)

/-- Names separated by dots. -/
def entityName (first : Parse Identifier) : Parse EntityName := do
  let start ← pos
  let head ← first
  let rest ← collect segmentStep
  return { id := ← freshId, span := (← get).spanFrom start, segments := head :: rest }

def stringLiteral : Parse StringLiteral := do
  let span ← tokenSpan
  if ← isToken .stringLiteral then
    let literal : StringLiteral :=
      { id := ← freshId, span, raw := ← tokenText, value := ← tokenValue }
    advance
    return literal
  errorHere .stringLiteralExpected []
  return { id := ← freshId, span := Span.point span.start, raw := "", value := "" }

/-- A semicolon stands here or can be left out. -/
def canEndStatement : Parse Bool := do
  if ← isOneOf [.semicolon, .closeBrace, .endOfFile] then return true
  afterLineBreak

def semicolon : Parse Unit := do
  if ← accept .semicolon then return
  if ← canEndStatement then return
  require .semicolon

/-- Tokens that end a list in which something is wrong. -/
def endsList : TokenKind → Bool
  | .semicolon | .closeBrace | .closeParen | .closeBracket | .endOfFile => true
  | _ => false

/-- Whether a list that ends with a token of a kind is at its end. -/
def atClose (close : TokenKind) : Parse Bool := isOneOf [close, .endOfFile]

/-- The comma after an element in braces, which the last one can do without. -/
def elementEnd : Parse Unit := do
  if !(← accept .comma) && !(← isToken .closeBrace) then require .comma

end Parse

/-- The parts of the grammar that contain themselves. -/
inductive Nonterminal where
  | statement
  | type
  | typeOperator
  | assignment
  /-- Operations that bind tighter than the given level. -/
  | binary (above : Precedence)
  | unary
  | primary
  /-- A name or pattern; the message is reported if there is none. -/
  | binding (missing : Message)
  /-- A dotted namespace from its first name on. -/
  | namespaceBody (start : Nat) (modifiers : Modifiers)

/-- The parsers of the nonterminals. -/
abbrev Grammar := Nonterminal → Parse Node

end Erasure

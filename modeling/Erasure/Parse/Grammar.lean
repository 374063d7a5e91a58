import Erasure.Parse.Statements

/-!
The whole grammar. Each rule asks for the nonterminals inside it, and the parser with `n + 1` units
of fuel answers with the parser that has `n`.
-/

namespace Erasure

namespace Parse

/-- The rule of every nonterminal, over the rules for what it contains. -/
def rule (g : Grammar) : Grammar
  | .statement => statement g
  | .type => type g
  | .typeOperator => typeOperator g
  | .assignment => assignment g
  | .binary above => binary g above
  | .unary => unary g
  | .primary => primary g
  | .binding missing => binding g missing
  | .namespaceBody start ms => namespaceBody g start ms

/-- What stands for a nonterminal that is not read. -/
def substitute : Grammar
  | .statement => missingStatement
  | .type | .typeOperator => missingType
  | .binding _ => do return (← missingIdentifier).toBinding
  | .namespaceBody start ms => do
      finish start (.moduleDeclaration ms (.identifier (← missingIdentifier)) none false)
  | _ => missingExpression

/-- Without fuel the current token is passed over, which is an error. -/
def exhausted : Grammar := fun nt => do
  errorHere .expressionExpected []
  advance
  substitute nt

/-- The grammar with an amount of fuel. -/
def grammar : Nat → Grammar
  | 0 => exhausted
  | fuel + 1 => fun nt => rule (grammar fuel) nt

/-- Fuel for a text of a size. Between two tokens a rule enters a bounded number of others, and
rules that pass over no token count towards the nesting limit. -/
def fuelFor (size : Nat) : Nat := 64 * (size + Limits.nesting + 1)

/-- The statements of a whole file. -/
def file : Parse (List Node) := do
  let _ ← freshId
  advance
  statementList (grammar (fuelFor (← get).scanner.source.utf8ByteSize)) (· = .endOfFile)

end Parse

/-- A file and the errors in it, sorted by position. There is a tree for every text. -/
def parseSource (fileName source : String) : SourceFile × List Diagnostic :=
  let (statements, state) := Parse.file (ParseState.ofString fileName source)
  let file : SourceFile :=
    { fileName, text := source, statements, comments := state.scanner.comments
      endOfFile := state.scanner.start, nodeCount := state.nextId }
  (file, Diagnostic.sort (state.errorsRev.reverse ++ state.scanner.errors))

end Erasure

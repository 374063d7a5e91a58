import Erasure.Print.Erased

/-!
Printing of operators, member accesses and calls. Parentheses of the source stay unless they stood
around an assertion only; where something was erased or replaced by a constant, they come back if
what is left binds looser than its place allows.
-/

namespace Erasure.Print

/-- Print the constant that an access stands for, with the access as a comment. -/
def constant (access : Node) (value : String) : Print Unit := do
  write value
  if !(← options).removeComments then
    let source := (← file).textAt access.span
    write (" /* " ++ String.ofList (Text.replace "*/".toList "*_/".toList source.toList) ++ " */")

/-- Print a name that is used as a value. -/
def reference (name : String) (span : Span) : Print Unit := do
  write (((← read).replacement? name).getD ((← file).written name span))

section
variable (print : Slot → Node → Print Bool)

/-- Print an expression where one of at least some precedence is needed. -/
def operand (required : Precedence) (n : Node) : Print Unit :=
  discard (print (.operand required false) n)

/-- Print an expression where any can stand. -/
def expression (n : Node) : Print Unit := operand print .comma n

/-- Print an expression where any but a sequence can stand. -/
def value (n : Node) : Print Unit := operand print .yield n

/-- Print an initializer, if there is one. -/
def initializer (n? : Option Node) : Print Unit :=
  n?.forM fun n => do write " = "; value print n

def binary (left : Node) (operator : TokenKind) (right : Node) (breakBefore breakAfter : Bool) :
    Print Unit := do
  if operator = .comma then
    operand print .comma left
    write ","
    broken (breakBefore || breakAfter) (operand print .spread right)
  else
    let (leftLevel, rightLevel) := Precedence.ofOperands operator
    let isCoalesce := operator = .questionQuestion
    discard (print (.operand leftLevel isCoalesce) left)
    broken breakBefore do
      write operator.text
      broken breakAfter (discard (print (.operand rightLevel isCoalesce) right))

def conditional (condition whenTrue whenFalse : Node) (layout : ConditionalLayout) :
    Print Unit := do
  operand print .logicalOr condition
  broken layout.beforeQuestion do
    write "?"
    broken layout.afterQuestion (value print whenTrue)
  broken layout.beforeColon do
    write ":"
    broken layout.afterColon (value print whenFalse)

/-- Two signs that would be read as one operator. -/
def signsMerge (p : PrintPlace) (operator : TokenKind) (operand : Node) : Bool :=
  let inner := operand.erased
  let innerOperator? := match inner.form with
    | .prefixUnary innerOperator _ => some innerOperator
    | _ => none
  match operator with
  | .plus => innerOperator? = some .plus || innerOperator? = some .plusPlus
  | .minus =>
      (p.constant? inner).any (·.startsWith "-") || innerOperator? = some .minus ||
        innerOperator? = some .minusMinus
  | _ => false

def prefixOperator (operator : TokenKind) (n : Node) : Print Unit := do
  write operator.text
  if signsMerge (← read) operator n then space
  operand print .unary n

def keywordOperator (keyword : String) (n : Node) : Print Unit := do
  write keyword
  space
  operand print .unary n

/-- A number without point or exponent, after which a dot would be read as its point. -/
def isPlainInteger : Form → Bool
  | .numericLiteral raw => !raw.isEmpty && raw.toList.all Text.isAsciiDigit
  | _ => false

def propertyAccess (object : Node) (name : MemberName) (isOptional breakBeforeDot : Bool) :
    Print Unit := do
  operand print .member object
  if !isOptional && isPlainInteger object.erased.form then write "."
  let dot : Print Unit := do
    write (if isOptional then "?." else ".")
    identifier name.ident
  if breakBeforeDot then indented do line; dot
  else dot

def elementAccess (object index : Node) (isOptional : Bool) : Print Unit := do
  operand print .member object
  write (if isOptional then "?.[" else "[")
  expression print index
  write "]"

def arguments (ns : List Node) : Print Unit := do
  write "("
  commaSeparated (operand print .spread) ns
  write ")"

/-- The property that a called name is replaced by. It is called as a value, so that the object
is not passed. -/
def calledProperty? (p : PrintPlace) (callee : Node) : Option String :=
  match callee.erased.form with
  | .identifier name => p.replacement? name
  | _ => none

def callee (n : Node) : Print Unit := do
  match calledProperty? (← read) n with
  | some text => write ("(0, " ++ text ++ ")")
  | none => operand print .leftHandSide n

/-- A call of `import` in a CommonJS module. -/
def dynamicImport (ns : List Node) : Print Unit :=
  match ns with
  | [] => write "Promise.resolve().then(() => require())"
  | n :: _ =>
      match n.erased.form with
      | .stringLiteral raw _ | .templateLiteral raw _ =>
          write ("Promise.resolve().then(() => require(" ++ raw ++ "))")
      | _ => do
          write "Promise.resolve(\x60$\x7b"
          expression print n
          write "\x7d\x60).then(s => require(s))"

def isImportKeyword : Form → Bool
  | .importExpr => true
  | _ => false

def call (n : Node) (ns : List Node) (isOptional : Bool) : Print Unit := do
  if (← job).isCommonJS && isImportKeyword n.form then dynamicImport print ns
  else
    callee print n
    if isOptional then write "?."
    arguments print ns

def newCall (n : Node) (ns? : Option (List Node)) : Print Unit := do
  write "new "
  operand print .member n
  ns?.forM (arguments print)

def taggedTemplate (tag quasi : Node) : Print Unit := do
  callee print tag
  operand print .primary quasi

def templateSpan (n : Node) : Print Unit :=
  match n.form with
  | .templateSpan inner literal => do
      expression print inner
      write literal
  | _ => pure ()

def template (head : String) (spans : List Node) : Print Unit := do
  write head
  spans.forM (templateSpan print)

def yieldOperator (isDelegate : Bool) (n? : Option Node) : Print Unit := do
  write (if isDelegate then "yield*" else "yield")
  n?.forM fun n => do space; value print n

def spread (n : Node) : Print Unit := do
  write "..."
  value print n

end
end Erasure.Print

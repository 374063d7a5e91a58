import Erasure.Span
import Erasure.Token.Kind

/-!
The parts of syntax that hold no expressions: names, literals, modifiers, import and export
clauses, and notes on the layout of lists.
-/

namespace Erasure

/-- A number that tells the nodes of one file apart. -/
abbrev NodeId := Nat

/-- A name; its text has escapes resolved. -/
structure Identifier where
  id : NodeId
  span : Span
  text : String
  deriving DecidableEq, Inhabited

/-- A dotted name. -/
structure EntityName where
  id : NodeId
  span : Span
  segments : List Identifier
  deriving DecidableEq, Inhabited

namespace EntityName

def first? (n : EntityName) : Option Identifier := n.segments.head?

def isSimple (n : EntityName) : Bool := n.segments.length = 1

def dotted (n : EntityName) : String := ".".intercalate (n.segments.map Identifier.text)

end EntityName

/-- A string literal as written and as read. -/
structure StringLiteral where
  id : NodeId
  span : Span
  raw : String
  value : String
  deriving DecidableEq, Inhabited

inductive ModifierFlag where
  | isPublic | isPrivate | isProtected | isReadonly | isOverride | isExport | isAbstract
  | isAmbient | isStatic | isAccessor | isAsync | isDefault | isConst | isIn | isOut
  deriving DecidableEq, Inhabited

namespace ModifierFlag

/-- The flag of a modifier keyword. -/
def ofKind? : TokenKind → Option ModifierFlag
  | .publicKw => some isPublic
  | .privateKw => some isPrivate
  | .protectedKw => some isProtected
  | .readonlyKw => some isReadonly
  | .overrideKw => some isOverride
  | .exportKw => some isExport
  | .abstractKw => some isAbstract
  | .declareKw => some isAmbient
  | .staticKw => some isStatic
  | .accessorKw => some isAccessor
  | .asyncKw => some isAsync
  | .defaultKw => some isDefault
  | .constKw => some isConst
  | .inKw => some isIn
  | .outKw => some isOut
  | _ => none

/-- Flags that turn a constructor parameter into a property. -/
def isParameterProperty : ModifierFlag → Bool
  | isPublic | isPrivate | isProtected | isReadonly | isOverride => true
  | _ => false

end ModifierFlag

structure Modifier where
  kind : TokenKind
  span : Span
  deriving DecidableEq, Inhabited

/-- Modifiers as written, and the flags they set. Flags can be set without a written modifier. -/
structure Modifiers where
  flags : List ModifierFlag := []
  list : List Modifier := []
  deriving DecidableEq, Inhabited

namespace Modifiers

def has (m : Modifiers) (f : ModifierFlag) : Bool := m.flags.contains f

def isExport (m : Modifiers) : Bool := m.has .isExport

def isAmbient (m : Modifiers) : Bool := m.has .isAmbient

def isDefault (m : Modifiers) : Bool := m.has .isDefault

def isStatic (m : Modifiers) : Bool := m.has .isStatic

/-- Modifiers of class members that are declared and not defined. -/
def isWithoutCode (m : Modifiers) : Bool := m.has .isAmbient || m.has .isAbstract

def isParameterProperty (m : Modifiers) : Bool := m.flags.any ModifierFlag.isParameterProperty

def find? (m : Modifiers) (kind : TokenKind) : Option Modifier :=
  m.list.find? fun x => x.kind = kind

def setFlag (m : Modifiers) (f : ModifierFlag) : Modifiers :=
  if m.has f then m else { m with flags := m.flags ++ [f] }

end Modifiers

inductive VariableKind where
  | var | let_ | const | using_ | awaitUsing
  deriving DecidableEq, Inhabited

namespace VariableKind

def keyword : VariableKind → String
  | var => "var"
  | let_ => "let"
  | const => "const"
  | using_ => "using"
  | awaitUsing => "await using"

def isBlockScoped (k : VariableKind) : Bool := k ≠ var

def isConstant : VariableKind → Bool
  | const | using_ | awaitUsing => true
  | _ => false

end VariableKind

/-- The name after a dot. -/
structure MemberName where
  ident : Identifier
  isPrivate : Bool
  deriving DecidableEq, Inhabited

/-- Line breaks in a list: before each element and before the closing bracket. -/
structure ListLayout where
  breaksBefore : List Bool
  breakBeforeClose : Bool
  trailingComma : Bool
  deriving DecidableEq, Inhabited

def ListLayout.isMultiLine (l : ListLayout) : Bool := l.breaksBefore.any id || l.breakBeforeClose

/-- Line breaks around the signs of a conditional expression. -/
structure ConditionalLayout where
  beforeQuestion : Bool
  afterQuestion : Bool
  beforeColon : Bool
  afterColon : Bool
  deriving DecidableEq, Inhabited

/-- The name of an import or export, which can be a string. -/
inductive ExportName where
  | identifier (name : Identifier)
  | string (literal : StringLiteral)
  deriving DecidableEq, Inhabited

namespace ExportName

def text : ExportName → String
  | identifier name => name.text
  | string literal => literal.value

def span : ExportName → Span
  | identifier name => name.span
  | string literal => literal.span

end ExportName

structure ImportSpecifier where
  id : NodeId
  span : Span
  isTypeOnly : Bool
  property? : Option ExportName
  name : Identifier
  deriving DecidableEq, Inhabited

inductive ImportBindings where
  | all (name : Identifier)
  | named (specifiers : List ImportSpecifier)
  deriving DecidableEq, Inhabited

structure ImportClause where
  id : NodeId
  span : Span
  isTypeOnly : Bool
  name? : Option Identifier
  bindings? : Option ImportBindings
  deriving DecidableEq, Inhabited

structure ExportSpecifier where
  id : NodeId
  span : Span
  isTypeOnly : Bool
  property? : Option ExportName
  name : ExportName
  deriving DecidableEq, Inhabited

/-- The name that is exported, as it is known inside the module. -/
def ExportSpecifier.source (s : ExportSpecifier) : ExportName := s.property?.getD s.name

inductive ExportClause where
  | all (name : ExportName)
  | named (specifiers : List ExportSpecifier)
  deriving DecidableEq, Inhabited

/-- What an import assignment refers to. -/
inductive ModuleReference where
  | external (specifier : StringLiteral)
  | entity (name : EntityName)
  deriving DecidableEq, Inhabited

inductive ModuleName where
  | identifier (name : Identifier)
  | string (literal : StringLiteral)
  deriving DecidableEq, Inhabited

def ModuleName.identifier? : ModuleName → Option Identifier
  | identifier name => some name
  | string _ => none

end Erasure

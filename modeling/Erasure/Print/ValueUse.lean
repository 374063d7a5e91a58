import Std.Data.TreeSet
import Erasure.Scope.Binder

/-!
Which names are used as values. One walk over the parts of a file that are printed marks every
symbol that an expression names; an import that is not marked can be left out.
-/

namespace Erasure

structure ValueUses where
  used : Std.TreeSet SymbolId := {}
  /-- Import assignments, each with the symbol that its reference starts at. -/
  aliases : List (SymbolId × SymbolId) := []

namespace ValueUses

def contains (u : ValueUses) (id : SymbolId) : Bool := u.used.contains id

def insert (u : ValueUses) (id : SymbolId) : ValueUses := { u with used := u.used.insert id }

/-- A use of an alias is a use of what it refers to. -/
def followAliases (u : ValueUses) : ValueUses :=
  u.aliases.foldl (fun u a => if u.contains a.1 then u.insert a.2 else u) u

/-- Follow chains of aliases, which are no longer than there are aliases. -/
def closed (u : ValueUses) : ValueUses := u.aliases.length.repeat followAliases u

/-- A step of the walk, which knows the scope that it stands in. -/
abbrev Walk := ReaderT ScopeId (StateM ValueUses)

section
variable (b : Bindings)

/-- Run a step in the scope that a node opens, if there is one. -/
def inScopeOf (node : NodeId) (step : Walk Unit) : Walk Unit :=
  withReader (fun scope => (b.scopeOf? node).getD scope) step

def markName (name : String) : Walk Unit := do
  if let some id := b.resolve? (← read) name SymbolFlags.value then modify (·.insert id)

def markExports (specifiers : List ExportSpecifier) : Walk Unit :=
  specifiers.forM fun s => if s.isTypeOnly then pure () else markName b s.source.text

/-- Objects use the names of their short properties. -/
def markShorthand (property : Node) : Walk Unit :=
  match property.form with
  | .shorthandProperty name _ => markName b name.text
  | _ => pure ()

/-- An import assignment uses what it refers to if it is exported or used itself. -/
def markReference (name : Identifier) (isExported : Bool) (reference : EntityName) :
    Walk Unit := do
  let scope ← read
  let target? := reference.first?.bind fun first =>
    b.resolve? scope first.text (SymbolFlags.value ++ SymbolFlags.namespaces)
  if let some target := target? then
    if isExported then modify (·.insert target)
    else if let some id := b.symbolOf? name.id then
      modify fun u => { u with aliases := u.aliases ++ [(id, target)] }

variable (walk : Node → Walk Unit)

/-- The parts of a class that are evaluated. -/
def classParts (n : Node) (c : ClassLike) : Walk Unit := do
  c.decorators.forM walk
  if let some base := c.base then
    match base.form with
    | .heritage _ expression _ => walk expression
    | _ => pure ()
  inScopeOf b n.id (c.members.forM walk)

/-- One step of the walk: what a node uses, and the nodes below it. Types use nothing. -/
def step (n : Node) : Walk Unit :=
  let below : Walk Unit := n.visited.forM walk
  if n.form.isTypeSyntax || n.form.isTypeOnlyStatement then pure ()
  else match n.form with
    | .identifier name => markName b name
    | .objectLiteral properties _ => do
        properties.forM (markShorthand b)
        below
    | .forStmt _ _ _ _ | .forInStmt _ _ _ | .forOfStmt _ _ _ _ | .switchStmt _ _ | .block _ _ _
    | .arrowFunction _ _ | .catchClause _ _ => inScopeOf b n.id below
    | .functionLike f => if f.body.isNone then pure () else inScopeOf b n.id below
    | .classLike c => if c.modifiers.isAmbient then pure () else classParts b walk n c
    | .classMember _ ms member => if member.isErasedMember ms.isWithoutCode then pure () else below
    | .moduleDeclaration ms name _ isGlobal =>
        if ms.isAmbient || isGlobal || name.identifier?.isNone then pure ()
        else inScopeOf b n.id below
    | .exportStmt _ _ (some (.named specifiers)) none _ => markExports b specifiers
    | .importEqualsStmt ms _ name (.entity reference) =>
        markReference b name ms.isExport reference
    | _ => below

/-- The walk over a node, as deep as the fuel allows. -/
def walkNode : Nat → Node → Walk Unit
  | 0, _ => pure ()
  | fuel + 1, n => step b (walkNode fuel) n

end

/-- The uses of values in a file. -/
def ofFile (f : SourceFile) (b : Bindings) : ValueUses :=
  ((f.statements.forM (walkNode b f.nodeCount)).run Bindings.rootScope {}).2.closed

end ValueUses
end Erasure

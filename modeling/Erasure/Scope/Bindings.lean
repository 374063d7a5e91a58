import Std.Data.TreeMap
import Erasure.Diagnostic
import Erasure.Scope.Symbol

/-!
The names of a file: its scopes and symbols, how a name is resolved, and how a declaration enters a
table.
-/

namespace Erasure

inductive ScopeKind where
  | sourceFile | module_ | function | block | class_ | catchClause
  deriving DecidableEq, Inhabited

/-- Scopes that `var` declarations belong to. -/
def ScopeKind.isFunctionContainer : ScopeKind → Bool
  | sourceFile | module_ | function => true
  | _ => false

structure Scope where
  kind : ScopeKind
  parent? : Option ScopeId
  /-- The names declared in the scope itself. -/
  locals : SymbolTable := {}
  /-- The namespace that the scope is a block of. Its exports are visible in all of its blocks. -/
  container? : Option SymbolId := none
  deriving Inhabited

/-- A table that a declaration enters. -/
inductive TableRef where
  | locals (scope : ScopeId)
  | exports (owner : SymbolId)
  | members (owner : SymbolId)
  deriving DecidableEq

/-- The scopes and symbols of a file. -/
structure Bindings where
  symbols : Array Symbol := #[]
  scopes : Array Scope := #[]
  /-- The scope that a node opens. -/
  nodeScopes : Std.TreeMap NodeId ScopeId := {}
  /-- The symbol that a declaration, class or namespace belongs to. -/
  nodeSymbols : Std.TreeMap NodeId SymbolId := {}
  /-- Errors found, last one first. -/
  errorsRev : List Diagnostic := []
  /-- The file declares something outside of itself. -/
  augmentsGlobals : Bool := false

namespace Bindings

/-- The scope of the file. -/
def rootScope : ScopeId := 0

def scope (b : Bindings) (id : ScopeId) : Scope := b.scopes.getD id default

def symbol (b : Bindings) (id : SymbolId) : Symbol := b.symbols.getD id default

def scopeOf? (b : Bindings) (node : NodeId) : Option ScopeId := b.nodeScopes[node]?

def symbolOf? (b : Bindings) (node : NodeId) : Option SymbolId := b.nodeSymbols[node]?

def errors (b : Bindings) : List Diagnostic := b.errorsRev.reverse

/-- A scope and those around it, innermost first. A scope is opened after the one around it. -/
def scopeChain (b : Bindings) (id : ScopeId) : List ScopeId :=
  match (b.scope id).parent? with
  | some parent => if parent < id then id :: b.scopeChain parent else [id]
  | none => [id]
  termination_by id

/-- The nearest scope that `var` declarations belong to. -/
def functionContainer (b : Bindings) (id : ScopeId) : ScopeId :=
  ((b.scopeChain id).find? fun s => (b.scope s).kind.isFunctionContainer).getD rootScope

/-- Whether a scope is another one or lies inside of it. -/
def isWithin (b : Bindings) (inner outer : ScopeId) : Bool := (b.scopeChain inner).contains outer

/-- A symbol has one of the given meanings. Imports can have any meaning. -/
def hasMeaning (b : Bindings) (meaning : SymbolFlags) (id : SymbolId) : Bool :=
  (b.symbol id).has meaning || (b.symbol id).isAlias

/-- The symbol that a name stands for in a single scope. -/
def resolveIn? (b : Bindings) (name : String) (meaning : SymbolFlags) (id : ScopeId) :
    Option SymbolId :=
  let s := b.scope id
  ((s.locals.find? name).filter (b.hasMeaning meaning)).or
    ((s.container?.bind fun c => (b.symbol c).exports.find? name).filter (b.hasMeaning meaning))

/-- The symbol that a name stands for, and the scope in which it was found. -/
def resolveWithScope? (b : Bindings) (id : ScopeId) (name : String) (meaning : SymbolFlags) :
    Option (ScopeId × SymbolId) :=
  (b.scopeChain id).findSome? fun s => (b.resolveIn? name meaning s).map (s, ·)

def resolve? (b : Bindings) (id : ScopeId) (name : String) (meaning : SymbolFlags) :
    Option SymbolId :=
  (b.resolveWithScope? id name meaning).map Prod.snd

def error (b : Bindings) (m : Message) (span : Span) (args : List String) : Bindings :=
  { b with errorsRev := Diagnostic.ofMessage m span.start span.length args :: b.errorsRev }

/-- Add a symbol without declarations. -/
def newSymbol (b : Bindings) (name : String) (flag : SymbolFlag) : SymbolId × Bindings :=
  (b.symbols.size, { b with symbols := b.symbols.push { name, flags := [flag] } })

def modifySymbol (b : Bindings) (id : SymbolId) (f : Symbol → Symbol) : Bindings :=
  { b with symbols := b.symbols.modify id f }

def modifyScope (b : Bindings) (id : ScopeId) (f : Scope → Scope) : Bindings :=
  { b with scopes := b.scopes.modify id f }

/-- Open a scope for a node. -/
def newScope (b : Bindings) (kind : ScopeKind) (parent? : Option ScopeId) (node : NodeId) :
    ScopeId × Bindings :=
  let id := b.scopes.size
  (id, { b with
    scopes := b.scopes.push { kind, parent? }, nodeScopes := b.nodeScopes.insert node id })

def setSymbolOf (b : Bindings) (node : NodeId) (id : SymbolId) : Bindings :=
  { b with nodeSymbols := b.nodeSymbols.insert node id }

/-- What a name stands for in a table. -/
def find? (b : Bindings) (name : String) : TableRef → Option SymbolId
  | .locals scope => (b.scope scope).locals.find? name
  | .exports owner => (b.symbol owner).exports.find? name
  | .members owner => (b.symbol owner).members.find? name

def insert (b : Bindings) (name : String) (id : SymbolId) : TableRef → Bindings
  | .locals scope => b.modifyScope scope fun s => { s with locals := s.locals.insert name id }
  | .exports owner => b.modifySymbol owner fun s => { s with exports := s.exports.insert name id }
  | .members owner => b.modifySymbol owner fun s => { s with members := s.members.insert name id }

/-- Add a declaration to a symbol. -/
def addDeclaration (b : Bindings) (id : SymbolId) (d : Declaration) : Bindings :=
  b.modifySymbol id fun s =>
    { s with flags := s.flags.insert d.kind.flag, declarations := s.declarations ++ [d] }

/-- Add a symbol with its first declaration. -/
def newDeclared (b : Bindings) (name : String) (d : Declaration) : SymbolId × Bindings :=
  let (id, b) := b.newSymbol name d.kind.flag
  (id, b.addDeclaration id d)

/-- The message for a declaration that cannot merge with a symbol. -/
def duplicateMessage (existing : Symbol) (d : Declaration) : Message :=
  if d.kind.flag = .blockVariable || existing.has [.blockVariable] then .redeclaredBlockScoped
  else .duplicateIdentifier

/-- Report a second implementation of a function. -/
def checkImplementation (b : Bindings) (existing : Symbol) (d : Declaration) : Bindings :=
  if d.isImplementation && existing.declarations.any Declaration.isImplementation then
    b.error .duplicateImplementation d.nameSpan []
  else b

/-- Declare a name in a table. The declaration merges with the symbol of that name, unless the
symbol has one of the excluded flags: then it is reported and gets a symbol that no table holds, so
that the name goes on to stand for the first one. -/
def declareExcluding (b : Bindings) (table : TableRef) (name : String) (excluded : SymbolFlags)
    (d : Declaration) : SymbolId × Bindings :=
  let (id, b) :=
    match b.find? name table with
    | none =>
        let (id, b) := b.newDeclared name d
        (id, b.insert name id table)
    | some id =>
        let existing := b.symbol id
        if existing.has excluded then
          (b.error (duplicateMessage existing d) d.nameSpan [name]).newDeclared name d
        else (id, (b.checkImplementation existing d).addDeclaration id d)
  (id, b.setSymbolOf d.node id)

/-- Declare a name with the exclusions of its kind. -/
def declare (b : Bindings) (table : TableRef) (name : String) (d : Declaration) :
    SymbolId × Bindings :=
  b.declareExcluding table name d.kind.excludes d

end Bindings
end Erasure

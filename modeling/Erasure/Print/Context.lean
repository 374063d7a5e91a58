import Erasure.Options
import Erasure.Print.Linkage
import Erasure.Print.Writer
import Erasure.Syntax.Precedence

/-!
The state of printing, and where it stands. What surrounds the syntax that is printed (its scope,
where its exports go, the enum that it initializes) is an argument of every step, so that nothing
has to be put back; the text and the comments that are still to come are the state.
-/

namespace Erasure

/-- Where the exports of a list of statements go. -/
inductive ExportTarget where
  /-- Inside of a function or a block. -/
  | nested
  /-- The level of a file whose exports stay as they are. -/
  | topLevel
  /-- The level of a file whose exports are properties of `exports`. -/
  | commonJS
  /-- A namespace, whose exports are properties of its object. -/
  | namespace_ (name : String)
  deriving DecidableEq, Inhabited

namespace ExportTarget

/-- The object that has the exports as properties. -/
def container? : ExportTarget → Option String
  | commonJS => some "exports"
  | namespace_ name => some name
  | nested | topLevel => none

/-- The keyword that declares the object of an enum or namespace. -/
def keyword : ExportTarget → String
  | topLevel | commonJS => "var"
  | nested | namespace_ _ => "let"

end ExportTarget

/-- A file with all that is known about it before it is printed. -/
structure PrintJob where
  file : SourceFile
  bindings : Bindings
  enumValues : EnumValues
  options : Options
  uses : ValueUses
  /-- The file is a module that is lowered to CommonJS. -/
  isCommonJS : Bool
  linkage : Linkage

namespace PrintJob

def ofFile (file : SourceFile) (bindings : Bindings) (options : Options) : PrintJob :=
  let uses := ValueUses.ofFile file bindings
  let isCommonJS := options.moduleKind.isCommonJSLike && file.isExternalModule
  { file, bindings, options, uses, isCommonJS
    enumValues := EnumValues.ofFile file bindings
    linkage := if isCommonJS then Linkage.ofFile file bindings uses else {} }

/-- Whether a declared name is used as a value. -/
def isUsed (j : PrintJob) (name : Identifier) : Bool := Linkage.isUsed j.bindings j.uses name

end PrintJob

/-- Where printing stands. -/
structure PrintPlace where
  job : PrintJob
  /-- The scope in which names are resolved. -/
  scope : ScopeId
  target : ExportTarget
  /-- The enum whose initializer is printed. -/
  currentEnum? : Option SymbolId

structure PrintState where
  writer : Writer := {}
  /-- Comments that are neither printed nor passed over, in source order. -/
  pending : List Comment

abbrev Print := ReaderT PrintPlace (StateM PrintState)

/-- What a node is printed as. -/
inductive Slot where
  /-- An expression where one of at least some precedence is needed. -/
  | operand (required : Precedence) (besideCoalesce : Bool)
  | statement
  /-- A binding, or the target of an assignment to the properties of an object. -/
  | binding (container? : Option String)
  /-- A namespace inside of a dotted name is always exported. -/
  | namespace_ (isExported : Bool)

namespace Print

def write (text : String) : Print Unit := modify fun s => { s with writer := s.writer.write text }

def space : Print Unit := write " "

def line : Print Unit := modify fun s => { s with writer := s.writer.line }

/-- Run a step with more indentation. -/
def indented {α : Type} (step : Print α) : Print α := do
  modify fun s => { s with writer := s.writer.indent }
  let a ← step
  modify fun s => { s with writer := s.writer.dedent }
  return a

/-- Run a step on a new, indented line, or after a space. -/
def broken (isBroken : Bool) (step : Print Unit) : Print Unit :=
  if isBroken then indented do line; step
  else do space; step

def mark : Print Writer.Mark := return (← get).writer.mark

def rewind (m : Writer.Mark) : Print Unit :=
  modify fun s => { s with writer := s.writer.rewind m }

def wroteSince (m : Writer.Mark) : Print Bool := return (← get).writer.wroteSince m

/-- Print things with commas between them. -/
def commaSeparated {α : Type} (step : α → Print Unit) : List α → Print Unit
  | [] => pure ()
  | a :: as => do
      step a
      as.forM fun a => do write ", "; step a

def job : Print PrintJob := return (← read).job

def file : Print SourceFile := return (← job).file

def options : Print Options := return (← job).options

def target : Print ExportTarget := return (← read).target

/-- Run a step in the scope that a node opens, if there is one. -/
def inScopeOf {α : Type} (node : NodeId) (step : Print α) : Print α :=
  withReader (fun p => { p with scope := (p.job.bindings.scopeOf? node).getD p.scope }) step

/-- Run a step whose exports go somewhere else. -/
def withTarget {α : Type} (t : ExportTarget) (step : Print α) : Print α :=
  withReader (fun p => { p with target := t }) step

/-- Run a step on an initializer of an enum. -/
def withEnum {α : Type} (owner : SymbolId) (step : Print α) : Print α :=
  withReader (fun p => { p with currentEnum? := some owner }) step

/-- Print a name as it is written. -/
def identifier (i : Identifier) : Print Unit := do write ((← file).identifierText i)

end Print

namespace PrintPlace

/-- The symbol that a name stands for. -/
def resolve? (p : PrintPlace) (name : String) (meaning : SymbolFlags) : Option SymbolId :=
  p.job.bindings.resolve? p.scope name meaning

/-- What a symbol that is found in a scope is read as, if its name alone does not denote it. -/
def symbolReplacement? (p : PrintPlace) (name : String) (scope : ScopeId) (id : SymbolId) :
    Option String :=
  let b := p.job.bindings
  let symbol := b.symbol id
  match p.job.linkage.replacements[id]? with
  | some text => some text
  | none =>
      if !symbol.isExported || !symbol.has (SymbolFlags.anyVariable ++ [.alias]) then none
      else match symbol.parent? with
        | some owner => some (Text.memberAccess (b.symbol owner).name name)
        | none =>
            if p.job.isCommonJS && scope = Bindings.rootScope then
              some (Text.memberAccess "exports" name)
            else none

/-- What the value of a name is read as, if its name alone does not denote it: members of the
enum around it, imports of a CommonJS module, and exported variables. -/
def replacement? (p : PrintPlace) (name : String) : Option String :=
  let member? := (p.currentEnum?.map p.job.bindings.symbol).filter fun e => e.exports.contains name
  match member? with
  | some e => some (Text.memberAccess e.name name)
  | none =>
      (p.job.bindings.resolveWithScope? p.scope name SymbolFlags.value).bind fun found =>
        p.symbolReplacement? name found.1 found.2

/-- A name that stands for a type and for no value. Imports may turn out to be values. -/
def namesOnlyType (p : PrintPlace) (name : String) : Bool :=
  (p.resolve? name SymbolFlags.value).isNone &&
    (p.resolve? name (SymbolFlags.type ++ SymbolFlags.namespaces)).any fun id =>
      !(p.job.bindings.symbol id).declarations.any fun d => d.kind = .importAlias false

end PrintPlace
end Erasure

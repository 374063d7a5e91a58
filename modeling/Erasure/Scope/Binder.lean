import Erasure.Scope.Bindings
import Erasure.Syntax.SourceFile

/-!
Binding: one walk over a file that opens its scopes and declares its names. Where the walk stands
is an argument of every step, so that nothing has to be put back after a scope.
-/

namespace Erasure

/-- Where the walk stands. -/
structure BinderPlace where
  scope : ScopeId
  /-- Inside a declaration without implementation. -/
  isAmbient : Bool

abbrev Binder := ReaderT BinderPlace (StateM Bindings)

namespace Binder

def currentScope : Binder ScopeId := return (← read).scope

/-- Run a step in a scope that a node opens. -/
def inScope (kind : ScopeKind) (node : NodeId) (step : Binder Unit) : Binder Unit := do
  let place ← read
  let id ← modifyGet fun b => b.newScope kind (some place.scope) node
  withReader (fun p => { p with scope := id }) step

/-- Run a step on a declaration with modifiers. -/
def withModifiers {α : Type} (ms : Modifiers) (step : Binder α) : Binder α :=
  withReader (fun p => { p with isAmbient := p.isAmbient || ms.isAmbient }) step

def declaration (node : NodeId) (kind : DeclarationKind) (nameSpan span : Span) :
    Binder Declaration := do
  let place ← read
  return { node, kind, nameSpan, span, scope := place.scope, isAmbient := place.isAmbient }

/-- Declare a name in a table. -/
def declareIn (table : TableRef) (name : String) (d : Declaration) : Binder SymbolId :=
  modifyGet fun b => b.declare table name d

/-- The namespace whose block is the current scope. -/
def currentNamespace? : Binder (Option SymbolId) := do
  let s := (← get).scope (← currentScope)
  return if s.kind = .module_ then s.container? else none

/-- Make an exported declaration visible in its block, where the first one counts. -/
def shareExport (scope : ScopeId) (name : String) (id owner : SymbolId) : Binder Unit :=
  modify fun b =>
    let b := if (b.find? name (.locals scope)).isSome then b else b.insert name id (.locals scope)
    b.modifySymbol id fun s => { s with parent? := some owner }

/-- Declare a name in a scope. What a block of a namespace exports is declared in the namespace. -/
def declareExcluding (scope : ScopeId) (name : Identifier) (kind : DeclarationKind)
    (excluded : SymbolFlags) (span : Span) (isExported : Bool) : Binder SymbolId := do
  let d ← declaration name.id kind name.span span
  let owner? ←
    if isExported && scope = (← currentScope) then currentNamespace? else pure none
  let table := (owner?.map TableRef.exports).getD (.locals scope)
  let id ← modifyGet fun b => b.declareExcluding table name.text excluded d
  if let some owner := owner? then shareExport scope name.text id owner
  if isExported then modify fun b => b.modifySymbol id fun s => { s with isExported := true }
  return id

def declareName (scope : ScopeId) (name : Identifier) (kind : DeclarationKind) (span : Span)
    (isExported : Bool) : Binder SymbolId :=
  declareExcluding scope name kind kind.excludes span isExported

/-- Declare a name in the current scope. -/
def declareHere (name : Identifier) (kind : DeclarationKind) (span : Span) (isExported : Bool) :
    Binder SymbolId := do
  declareName (← currentScope) name kind span isExported

/-- Declare all names of a binding. -/
def declareBinding (scope : ScopeId) (name : Node) (kind : DeclarationKind) (span : Span)
    (isExported : Bool) : Binder Unit :=
  name.bindingIdentifiers.forM fun i => do
    let _ ← declareName scope i kind span isExported

def declareVariables (kind : VariableKind) (declarations : List Node) (isExported : Bool) :
    Binder Unit := do
  let here ← currentScope
  let bindings ← get
  let scope := if kind = .var then bindings.functionContainer here else here
  declarations.forM fun d => do
    match d.form with
    | .variableDeclaration name _ _ _ =>
        declareBinding scope name (.ofVariable kind) d.span isExported
    | _ => pure ()

def declareTypeParameter (excluded : SymbolFlags) (n : Node) : Binder Unit := do
  match n.form with
  | .typeParameter _ name _ _ =>
      let _ ← declareExcluding (← currentScope) name .typeParameter excluded n.span false
  | _ => pure ()

def declareTypeParameters (ns : List Node) : Binder Unit :=
  ns.forM (declareTypeParameter DeclarationKind.typeParameter.excludes)

def declareParameter (n : Node) : Binder Unit := do
  let p := n.parameter
  if !p.isThis then declareBinding (← currentScope) p.name .parameter n.span false

def declareAlias (name : Identifier) (isTypeOnly : Bool) (span : Span) (isExported : Bool) :
    Binder Unit := do
  let _ ← declareHere name (.importAlias isTypeOnly) span isExported

def declareImport (clause : ImportClause) (span : Span) : Binder Unit := do
  if let some name := clause.name? then declareAlias name clause.isTypeOnly span false
  match clause.bindings? with
  | some (.all name) => declareAlias name clause.isTypeOnly span false
  | some (.named specifiers) =>
      specifiers.forM fun s =>
        declareAlias s.name (clause.isTypeOnly || s.isTypeOnly) s.span false
  | none => pure ()

/-- Declare a member of a class or enum, if its key is known. -/
def declareMember (table : TableRef) (member key : Node) (kind : DeclarationKind) :
    Binder (Option SymbolId) := do
  match key.staticKey? with
  | some text =>
      let d ← declaration member.id kind key.span member.span
      return some (← declareIn table text d)
  | none => return none

/-- Parameters with modifiers declare properties. -/
def declareParameterProperty (cls : SymbolId) (n : Node) : Binder Unit := do
  let p := n.parameter
  if p.modifiers.isParameterProperty then
    if let some name := p.name.bindingName? then
      let d ← declaration n.id (.property (p.modifiers.has .isReadonly)) name.span n.span
      let _ ← declareIn (.members cls) name.text d

variable (walk : Node → Binder Unit)

/-- The parts of a function, in its scope. The statements of its body share the scope of the
parameters. -/
def functionParts (f : FunctionLike) : Binder Unit := do
  let typeParameters := f.typeParameters.getD []
  declareTypeParameters typeParameters
  typeParameters.forM walk
  f.parameters.forM declareParameter
  f.parameters.forM walk
  f.returnType.forM walk
  match f.body with
  | none => pure ()
  | some body => if body.form.isBlock then body.statements.forM walk else walk body

/-- A function. The name of a function expression is known inside of it only. -/
def function (n : Node) (name? : Option Identifier) : Binder Unit :=
  inScope .function n.id do
    if let some name := name? then
      let _ ← declareHere name (.function true) n.span false
    functionParts walk n.func

/-- An index signature declares nothing. -/
def indexMember (parameters : List Node) (type : Option Node) : Binder Unit := do
  parameters.forM fun p => p.parameter.type.forM walk
  type.forM walk

/-- A member with a key and a function. -/
def functionMember (table : TableRef) (member key func : Node) (kind : DeclarationKind) :
    Binder Unit := do
  let _ ← declareMember table member key kind
  walk key
  function walk func none

def memberParts (cls : SymbolId) (n : Node) (ms : Modifiers) (member : Form) : Binder Unit := do
  let table : TableRef := if ms.isStatic then .exports cls else .members cls
  match member with
  | .propertyMember key _ _ type initializer =>
      let _ ← declareMember table n key (.property (ms.has .isReadonly))
      walk key
      type.forM walk
      initializer.forM walk
  | .methodMember key _ func =>
      functionMember walk table n key func (.method func.func.body.isSome)
  | .getterMember key func => functionMember walk table n key func .getter
  | .setterMember key func => functionMember walk table n key func .setter
  | .constructorMember func =>
      func.func.parameters.forM (declareParameterProperty cls)
      function walk func none
  | .indexMember parameters type => indexMember walk parameters type
  | .staticBlock body =>
      if body.form.isBlock then inScope .function body.id (body.statements.forM walk)
  | _ => pure ()

def classMember (cls : SymbolId) (n : Node) : Binder Unit := do
  match n.form with
  | .classMember decorators ms member =>
      decorators.forM walk
      withModifiers ms (memberParts walk cls n ms member)
  | _ => pure ()

/-- The symbol of a class that was not declared by a statement. -/
def classExpressionSymbol (n : Node) : Binder SymbolId := do
  match n.classLike.name with
  | some name => declareHere name .class_ n.span false
  | none => modifyGet fun b => b.newSymbol "__class" .class_

def classParts (n : Node) (cls : SymbolId) : Binder Unit := do
  let c := n.classLike
  modify fun b => b.setSymbolOf n.id cls
  let typeParameters := c.typeParameters.getD []
  declareTypeParameters typeParameters
  typeParameters.forM walk
  c.base.forM walk
  c.interfaces.forM walk
  c.members.forM (classMember walk cls)

/-- A class. The name of a class expression is known inside of it only. -/
def class_ (n : Node) (declared? : Option SymbolId) : Binder Unit := do
  let c := n.classLike
  c.decorators.forM walk
  withModifiers c.modifiers <| inScope .class_ n.id do
    let cls ← match declared? with
      | some id => pure id
      | none => classExpressionSymbol n
    classParts walk n cls

def classStatement (n cls : Node) : Binder Unit := do
  let c := cls.classLike
  withModifiers c.modifiers do
    let id ← match c.name with
      | some name => declareHere name .class_ n.span c.modifiers.isExport
      | none => modifyGet fun b => b.newSymbol "default" .class_
    class_ walk cls (some id)

/-- An interface or type alias, whose type parameters have a scope of their own. -/
def typeDeclaration (n : Node) (name : Identifier) (kind : DeclarationKind) (ms : Modifiers)
    (typeParameters : Option (List Node)) : Binder Unit := do
  let _ ← declareHere name kind n.span ms.isExport
  inScope .block n.id do
    declareTypeParameters (typeParameters.getD [])
    n.visited.forM walk

def enumMember (owner : SymbolId) (n : Node) : Binder Unit := do
  match n.form with
  | .enumMember key _ =>
      if let some id ← declareMember (.exports owner) n key .enumMember then
        modify fun b => b.modifySymbol id fun s => { s with parent? := some owner }
  | _ => pure ()
  walk n

def enumDeclaration (n : Node) (ms : Modifiers) (name : Identifier) (members : List Node) :
    Binder Unit :=
  withModifiers ms do
    let id ← declareHere name (.enum (ms.has .isConst)) n.span ms.isExport
    members.forM (enumMember walk id)

/-- The symbol of a namespace. Global declarations and modules named by strings have none. -/
def moduleSymbol? (n : Node) (ms : Modifiers) (name : ModuleName) (isGlobal : Bool) :
    Binder (Option SymbolId) := do
  match name with
  | .identifier name =>
      if !isGlobal then
        let kind := DeclarationKind.namespace_ (n.isInstantiated false)
        return some (← declareHere name kind n.span ms.isExport)
  | .string _ => pure ()
  modify fun b => { b with augmentsGlobals := true }
  return none

/-- The statements of a namespace, or the namespace after a dot. -/
def moduleBody (body : Node) : Binder Unit :=
  match body.form with
  | .moduleBlock statements => statements.forM walk
  | _ => walk body

/-- A namespace. A dotted name is a namespace in a namespace. -/
def moduleDeclaration (n : Node) (ms : Modifiers) (name : ModuleName) (body? : Option Node)
    (isGlobal : Bool) : Binder Unit :=
  withModifiers ms do
    let symbol? ← moduleSymbol? n ms name isGlobal
    if let some id := symbol? then modify fun b => b.setSymbolOf n.id id
    inScope .module_ n.id do
      let scope ← currentScope
      modify fun b => b.modifyScope scope fun s => { s with container? := symbol? }
      body?.forM (moduleBody walk)

def catchClause (n : Node) (binding? : Option Node) (body : Node) : Binder Unit :=
  inScope .catchClause n.id do
    if let some v := binding? then
      match v.form with
      | .variableDeclaration name _ _ _ =>
          declareBinding (← currentScope) name .catchVariable v.span false
      | _ => pure ()
      walk v
    walk body

/-- A type with type parameters of its own. -/
def genericType (n : Node) (f : FunctionLike) : Binder Unit :=
  match f.typeParameters with
  | some typeParameters => inScope .block n.id do
      declareTypeParameters typeParameters
      n.visited.forM walk
  | none => n.visited.forM walk

def typeElement (n : Node) : Form → Binder Unit
  | .methodSignature _ _ f | .callSignature f | .constructSignature f => genericType walk n f
  | _ => n.visited.forM walk

/-- One step of the walk: what a node declares, and the nodes below it. -/
def step (n : Node) : Binder Unit :=
  let below : Binder Unit := n.visited.forM walk
  match n.form with
  | .forStmt _ _ _ _ | .forInStmt _ _ _ | .forOfStmt _ _ _ _ | .block _ _ _
  | .conditionalType _ _ _ _ => inScope .block n.id below
  | .switchStmt subject clauses => do
      walk subject
      inScope .block n.id (clauses.forM walk)
  | .varStmt ms list =>
      match list.form with
      | .variableList kind declarations => withModifiers ms do
          declareVariables kind declarations ms.isExport
          declarations.forM walk
      | _ => pure ()
  | .variableList kind declarations => do
      declareVariables kind declarations false
      declarations.forM walk
  | .functionStmt ms name? func => withModifiers ms do
      if let some name := name? then
        let _ ← declareHere name (.function func.func.body.isSome) n.span ms.isExport
      function walk func none
  | .functionExpr _ name? func => function walk func name?
  | .functionLike _ => function walk n none
  | .arrowFunction f _ => inScope .function n.id (functionParts walk f)
  | .classStmt cls => classStatement walk n cls
  | .classExpr cls => class_ walk cls none
  | .interfaceStmt ms name typeParameters _ _ =>
      typeDeclaration walk n name .interface ms typeParameters
  | .typeAliasStmt ms name typeParameters _ =>
      typeDeclaration walk n name .typeAlias ms typeParameters
  | .enumStmt ms name members => enumDeclaration walk n ms name members
  | .moduleDeclaration ms name body isGlobal => moduleDeclaration walk n ms name body isGlobal
  | .importStmt _ clause? _ _ => clause?.forM fun clause => declareImport clause n.span
  | .importEqualsStmt ms isTypeOnly name _ => declareAlias name isTypeOnly n.span ms.isExport
  | .catchClause binding body => catchClause walk n binding body
  | .functionType f | .constructorType _ f => genericType walk n f
  | .mappedType _ key _ _ _ => inScope .block n.id do
      declareTypeParameter DeclarationKind.typeParameter.excludes key
      below
  | .inferType bound => do
      -- one conditional type can name the same part twice
      declareTypeParameter [] bound
      below
  | .typeElement _ element => typeElement walk n element
  | _ => below

/-- The walk over a node, as deep as the fuel allows. -/
def walkNode : Nat → Node → Binder Unit
  | 0, _ => pure ()
  | fuel + 1, n => step (walkNode fuel) n

end Binder

/-- The scopes and symbols of a file. Nodes on a path have different numbers, so their count bounds
its length. -/
def SourceFile.bind (f : SourceFile) : Bindings :=
  let (root, bindings) := ({} : Bindings).newScope .sourceFile none 0
  let place : BinderPlace := { scope := root, isAmbient := f.fileName.endsWith ".d.ts" }
  ((f.statements.forM (Binder.walkNode f.nodeCount)).run place bindings).2

end Erasure

import Erasure.Print.FreshName
import Erasure.Print.ValueUse
import Erasure.Scope.EnumValue
import Erasure.Text.Quoted

/-!
How a module that is lowered to CommonJS is tied to others. All of it is decided before anything is
printed: which variables hold the modules that are required, what references to imports become,
and under which names the bindings of the module are exported.
-/

namespace Erasure

structure Linkage where
  /-- The variable for the module that a statement requires. -/
  requires : Std.TreeMap NodeId String := {}
  /-- The expression that stands for an imported name. -/
  replacements : Std.TreeMap SymbolId String := {}
  /-- The names under which export lists export a binding. -/
  exportedAs : Std.TreeMap SymbolId (List String) := {}
  /-- The name of a default export without one. -/
  defaultName? : Option String := none
  /-- Names made so far. -/
  fresh : List String := []

namespace Linkage

/-- Make a name that does not occur yet. -/
def freshName (l : Linkage) (f : SourceFile) (base : String) : String × Linkage :=
  let name := FreshName.choose l.fresh f.text base
  (name, { l with fresh := name :: l.fresh })

/-- What is imported under the name of a specifier. -/
def importedName (s : ImportSpecifier) : String :=
  (s.property?.map ExportName.text).getD s.name.text

section
variable (f : SourceFile) (b : Bindings) (uses : ValueUses)

def isUsed (name : Identifier) : Bool := (b.symbolOf? name.id).any uses.contains

def addReplacement (l : Linkage) (name : Identifier) (text : String) : Linkage :=
  match b.symbolOf? name.id with
  | some id => { l with replacements := l.replacements.insert id text }
  | none => l

/-- The name for a whole module, which also stands for the module of a default import. -/
def usedNamespace? (default? : Option Identifier) : Option ImportBindings → Option Identifier
  | some (.all name) => if isUsed b uses name || default?.isSome then some name else none
  | _ => none

def usedSpecifiers : Option ImportBindings → List ImportSpecifier
  | some (.named specifiers) => specifiers.filter fun s => !s.isTypeOnly && isUsed b uses s.name
  | _ => []

/-- Read a default import and imported names from the variable for their module. -/
def addReplacements (l : Linkage) (variableName : String) (default? : Option Identifier)
    (named : List ImportSpecifier) : Linkage :=
  let l := match default? with
    | some name => l.addReplacement b name (variableName ++ ".default")
    | none => l
  named.foldl
    (fun l s => l.addReplacement b s.name (Text.memberAccess variableName (importedName s))) l

/-- An import whose names are used requires its module. A namespace import names the variable. -/
def addImport (l : Linkage) (node : NodeId) (clause : ImportClause) (specifier : StringLiteral) :
    Linkage :=
  let default? := clause.name?.filter (isUsed b uses)
  let namespace? := usedNamespace? b uses default? clause.bindings?
  let named := usedSpecifiers b uses clause.bindings?
  if clause.isTypeOnly || (default?.isNone && namespace?.isNone && named.isEmpty) then l
  else
    let (variableName, l) : String × Linkage := match namespace? with
      | some name => (f.identifierText name, l)
      | none => l.freshName f (FreshName.ofSpecifier specifier.value)
    let l := l.addReplacements b variableName default? named
    { l with requires := l.requires.insert node variableName }

def addDefaultName (l : Linkage) : Linkage :=
  let (name, l) := l.freshName f "default"
  { l with defaultName? := some name }

/-- The names that a statement needs. -/
def addStatement (l : Linkage) (n : Node) : Linkage :=
  match n.form with
  | .importStmt _ (some clause) specifier _ => l.addImport f b uses n.id clause specifier
  | .exportStmt _ false (some (.named _)) (some specifier) _ =>
      let (name, l) := l.freshName f (FreshName.ofSpecifier specifier.value)
      { l with requires := l.requires.insert n.id name }
  | .functionStmt ms none func =>
      if ms.isDefault && func.func.body.isSome then l.addDefaultName f else l
  | .classStmt cls =>
      let c := cls.classLike
      if c.name.isNone && c.modifiers.isDefault && !c.modifiers.isAmbient then l.addDefaultName f
      else l
  | _ => l

/-- A name in an export list. Imported names are exported by a getter instead. -/
def addExport (l : Linkage) (s : ExportSpecifier) : Linkage :=
  match b.resolve? Bindings.rootScope s.source.text SymbolFlags.value with
  | some id =>
      if l.replacements.contains id then l
      else
        let names := l.exportedAs.getD id []
        { l with exportedAs := l.exportedAs.insert id (names ++ [s.name.text]) }
  | none => l

def addExports (l : Linkage) (n : Node) : Linkage :=
  match n.form with
  | .exportStmt _ false (some (.named specifiers)) none _ =>
      (specifiers.filter fun s => !s.isTypeOnly).foldl (addExport b) l
  | _ => l

/-- The ties of a file. -/
def ofFile : Linkage :=
  f.statements.foldl (addExports b) (f.statements.foldl (addStatement f b uses) {})

end
end Linkage

namespace ModuleExports

/-- The symbols that a statement declares. Functions are left out, since they are exported before
the first statement. -/
def declaredNodes (n : Node) : List NodeId :=
  match n.form with
  | .varStmt _ list =>
      match list.form with
      | .variableList _ declarations => declarations.flatMap fun d =>
          match d.form with
          | .variableDeclaration name _ _ _ => name.bindingIdentifiers.map Identifier.id
          | _ => []
      | _ => []
  | .classStmt cls => [cls.id]
  | .enumStmt _ name _ => [name.id]
  | .moduleStmt declaration => [declaration.id]
  | .importEqualsStmt _ _ name _ => [name.id]
  | .importStmt _ (some clause) _ _ =>
      (clause.name?.map Identifier.id).toList ++
        match clause.bindings? with
        | some (.all name) => [name.id]
        | some (.named specifiers) => specifiers.map fun s => s.name.id
        | none => []
  | _ => []

/-- Exported names that a statement declares and that have no value before it runs. -/
def declaredNames (preserveConstEnums : Bool) (n : Node) : List String :=
  match n.form with
  | .varStmt ms list =>
      if !ms.isExport || ms.isAmbient then []
      else match list.form with
        | .variableList _ declarations => declarations.flatMap fun d =>
            match d.form with
            | .variableDeclaration name _ _ _ => name.bindingIdentifiers.map Identifier.text
            | _ => []
        | _ => []
  | .classStmt cls =>
      let c := cls.classLike
      if c.modifiers.isExport && !c.modifiers.isDefault && !c.modifiers.isAmbient then
        (c.name.map Identifier.text).toList
      else []
  | .enumStmt ms name _ =>
      if ms.isExport && !ms.isAmbient && (!ms.has .isConst || preserveConstEnums) then [name.text]
      else []
  | .moduleStmt declaration =>
      match declaration.form with
      | .moduleDeclaration ms name _ _ =>
          if ms.isExport && declaration.isInstantiated preserveConstEnums then
            (name.identifier?.map Identifier.text).toList
          else []
      | _ => []
  | .importEqualsStmt ms false name (.entity _) => if ms.isExport then [name.text] else []
  | _ => []

/-- Whether a local name is exported by an assignment after its declaration. -/
def isAssignedLater (b : Bindings) (s : ExportSpecifier) : Bool :=
  (b.resolve? Bindings.rootScope s.source.text SymbolFlags.value).any fun id =>
    !(b.symbol id).has [.function]

/-- Exported names of a statement that have no value before it runs. -/
def names (b : Bindings) (preserveConstEnums : Bool) (n : Node) : List String :=
  match n.form with
  | .exportStmt _ false (some (.all name)) (some _) _ => [name.text]
  | .exportStmt _ false (some (.named specifiers)) specifier? _ =>
      let values := specifiers.filter fun s => !s.isTypeOnly
      let kept := if specifier?.isSome then values else values.filter (isAssignedLater b)
      kept.map fun s => s.name.text
  | _ => declaredNames preserveConstEnums n

end ModuleExports
end Erasure

import Erasure.Print.Callable

/-!
Imports and exports. Imports of names that are not used as values are left out. In a CommonJS
module, imports become calls of `require` and exports become properties of `exports`.
-/

namespace Erasure.Print

section
variable (print : Slot → Node → Print Bool)

/-- Things between braces with commas between them. -/
def bracedList {α : Type} (step : α → Print Unit) (as : List α) : Print Unit :=
  if as.isEmpty then write "\x7b\x7d"
  else do
    write "\x7b "
    commaSeparated step as
    write " \x7d"

def importAttribute (n : Node) : Print Unit :=
  match n.form with
  | .importAttribute name inner => do
      write (name ++ ": ")
      value print inner
  | _ => pure ()

def importAttributes (n : Node) : Print Unit :=
  match n.form with
  | .importAttributes keyword elements => do
      write (if keyword = .assertKw then " assert " else " with ")
      bracedList (importAttribute print) elements
  | _ => pure ()

/-- The module that is imported from, and the end of the statement. -/
def moduleSpecifier (specifier : StringLiteral) (attributes? : Option Node) : Print Unit := do
  write ((← file).literalText specifier)
  attributes?.forM (importAttributes print)
  write ";"

/-- The name under which something is known elsewhere. -/
def renamed (property? : Option ExportName) : Print Unit :=
  property?.forM fun property => do write ((← file).exportNameText property ++ " as ")

def importSpecifier (s : ImportSpecifier) : Print Unit := do
  renamed s.property?
  identifier s.name

def exportSpecifier (s : ExportSpecifier) : Print Unit := do
  renamed s.property?
  write ((← file).exportNameText s.name)

/-- The part of an import that stays: its default name, then a namespace or a list of names. -/
structure KeptImport where
  default? : Option Identifier
  bindings? : Option ImportBindings

/-- What stays of an import. On demand all but types does; an empty list is no use of a module. -/
def keptImport? (j : PrintJob) (clause : ImportClause) : Option KeptImport :=
  let keepsAll := j.options.verbatimModuleSyntax
  let isKept (name : Identifier) : Bool := keepsAll || j.isUsed name
  let default? := clause.name?.filter isKept
  let bindings? : Option ImportBindings := match clause.bindings? with
    | some (.all name) => if isKept name then some (.all name) else none
    | some (.named specifiers) =>
        let kept := specifiers.filter fun s => !s.isTypeOnly && isKept s.name
        if kept.isEmpty && !(keepsAll && specifiers.isEmpty) then none else some (.named kept)
    | none => none
  if clause.isTypeOnly || (default?.isNone && bindings?.isNone) then none
  else some { default?, bindings? }

/-- The bindings of an import. After a default name, an empty list has no comma before it. -/
def importBindings (hasDefault : Bool) : ImportBindings → Print Unit
  | .all name => do
      if hasDefault then write ", "
      write "* as "
      identifier name
  | .named specifiers => do
      if hasDefault && !specifiers.isEmpty then write ", "
      bracedList importSpecifier specifiers

def importClause (kept : KeptImport) : Print Unit := do
  write "import "
  kept.default?.forM identifier
  kept.bindings?.forM (importBindings kept.default?.isSome)
  write " from "

/-- An import that becomes a call of `require`. -/
def requiredImport (n : Node) (clause? : Option ImportClause) (specifier : StringLiteral) :
    Print Unit := do
  let j ← job
  let call := "require(" ++ j.file.literalText specifier ++ ");"
  match clause? with
  | none => write call
  | some _ =>
      j.linkage.requires[n.id]?.forM fun name => write ("const " ++ name ++ " = " ++ call)

def importDeclaration (n : Node) (clause? : Option ImportClause) (specifier : StringLiteral)
    (attributes? : Option Node) : Print Unit := do
  let j ← job
  if j.isCommonJS then requiredImport n clause? specifier
  else match clause? with
    | none =>
        write "import "
        moduleSpecifier print specifier attributes?
    | some clause =>
        if let some kept := keptImport? j clause then
          importClause kept
          moduleSpecifier print specifier attributes?

/-- Whether a reference starts with a name that has a value. Names from elsewhere may have one. -/
def startsWithValue (p : PrintPlace) (reference : EntityName) : Bool :=
  reference.first?.any fun first =>
    match p.resolve? first.text (SymbolFlags.value ++ SymbolFlags.namespaces) with
    | some id => (p.job.bindings.symbol id).has (SymbolFlags.value ++ [.alias])
    | none => true

def entityName (reference : EntityName) : Print Unit :=
  match reference.segments with
  | [] => pure ()
  | first :: rest => do
      Print.reference first.text first.span
      rest.forM fun i => do
        write "."
        identifier i

/-- An import assignment of a module. -/
def requireAssignment (name : Identifier) (specifier : StringLiteral) (isExported : Bool) :
    Print Unit := do
  let j ← job
  let text := j.file.identifierText name
  let call := "require(" ++ j.file.literalText specifier ++ ");"
  if j.isCommonJS && isExported then write (Text.memberAccess "exports" text ++ " = " ++ call)
  else if (j.isCommonJS || j.options.moduleKind = .preserve) && (isExported || j.isUsed name) then
    write ("const " ++ text ++ " = " ++ call)

/-- The variable or property that an import assignment of a name sets. -/
def aliasTarget (t : ExportTarget) (text : String) (isExported : Bool) : String :=
  match t.container?.filter fun _ => isExported with
  | some container => Text.memberAccess container text
  | none => (if isExported && t = .topLevel then "export var " else "var ") ++ text

def importAssignment (isTypeOnly : Bool) (name : Identifier) (reference : ModuleReference)
    (isExported : Bool) : Print Unit := do
  let j ← job
  if isTypeOnly then pure ()
  else match reference with
    | .external specifier => requireAssignment name specifier isExported
    | .entity reference =>
        if startsWithValue (← read) reference && (isExported || j.isUsed name) then
          write (aliasTarget (← target) (j.file.identifierText name) isExported ++ " = ")
          entityName reference
          write ";"

/-- The names of an export list that stay. Names of types go, unless all names are to stay. -/
def keptExports (p : PrintPlace) (isReexport : Bool) (specifiers : List ExportSpecifier) :
    List ExportSpecifier :=
  specifiers.filter fun s =>
    !s.isTypeOnly && (isReexport || p.job.options.verbatimModuleSyntax ||
      !p.namesOnlyType s.source.text)

def exportList (specifiers : List ExportSpecifier) (specifier? : Option StringLiteral)
    (attributes? : Option Node) : Print Unit := do
  let kept := keptExports (← read) specifier?.isSome specifiers
  if kept.isEmpty && !specifiers.isEmpty then pure ()
  else
    write "export "
    bracedList exportSpecifier kept
    match specifier? with
    | some specifier =>
        write " from "
        moduleSpecifier print specifier attributes?
    | none => write ";"

/-- A property of `exports` that is read from elsewhere. -/
def exportGetter (name source : String) : Print Unit :=
  write ("Object.defineProperty(exports, " ++ Text.quote name ++
    ", \x7b enumerable: true, get: function () \x7b return " ++ source ++ "; \x7d \x7d);")

/-- An export list whose names come from a module that is required. -/
def requiredExports (n : Node) (specifiers : List ExportSpecifier) (specifier : StringLiteral) :
    Print Unit := do
  let j ← job
  j.linkage.requires[n.id]?.forM fun name => do
    write ("var " ++ name ++ " = require(" ++ j.file.literalText specifier ++ ");")
    (specifiers.filter fun s => !s.isTypeOnly).forM fun s => do
      line
      exportGetter s.name.text (Text.memberAccess name s.source.text)

/-- The getter of a name in an export list, if it is imported. -/
def importedGetter? (j : PrintJob) (s : ExportSpecifier) : Option (String × String) := do
  let id ← j.bindings.resolve? Bindings.rootScope s.source.text SymbolFlags.value
  let text ← j.linkage.replacements[id]?
  return (s.name.text, text)

/-- An export list of a module. Names that are declared in it are exported where they are. -/
def importedExports (specifiers : List ExportSpecifier) : Print Unit := do
  let j ← job
  let values := specifiers.filter fun s => !s.isTypeOnly
  match values.filterMap (importedGetter? j) with
  | [] => pure ()
  | first :: rest =>
      exportGetter first.1 first.2
      rest.forM fun g => do
        line
        exportGetter g.1 g.2

def exportDeclaration (n : Node) (isTypeOnly : Bool) (clause? : Option ExportClause)
    (specifier? : Option StringLiteral) (attributes? : Option Node) : Print Unit := do
  let j ← job
  if isTypeOnly then pure ()
  else match clause?, specifier? with
    | none, some specifier =>
        if j.isCommonJS then
          write ("__exportStar(require(" ++ j.file.literalText specifier ++ "), exports);")
        else
          write "export * from "
          moduleSpecifier print specifier attributes?
    | some (.all name), some specifier =>
        if j.isCommonJS then
          write (Text.memberAccess "exports" name.text ++ " = require(" ++
            j.file.literalText specifier ++ ");")
        else
          write ("export * as " ++ j.file.exportNameText name ++ " from ")
          moduleSpecifier print specifier attributes?
    | some (.named specifiers), specifier? =>
        if j.isCommonJS then
          match specifier? with
          | some specifier => requiredExports n specifiers specifier
          | none => importedExports specifiers
        else exportList print specifiers specifier? attributes?
    | _, none => pure ()

/-- An export of a single expression. A default export that names a type leaves nothing. -/
def exportAssignment (isEquals : Bool) (n : Node) : Print Unit := do
  let p ← read
  let exported (target : String) : Print Unit := do
    write target
    value print n
    write ";"
  if isEquals then
    if p.job.isCommonJS || p.job.options.moduleKind = .preserve then exported "module.exports = "
  else if n.identifier?.any p.namesOnlyType then pure ()
  else exported (if p.job.isCommonJS then "exports.default = " else "export default ")

end

/-- The assignments that export what a statement declares under the names of export lists. -/
def declaredExports (n : Node) : Print Unit := do
  let j ← job
  ((ModuleExports.declaredNodes n).filterMap j.bindings.symbolOf?).forM fun id =>
    (j.linkage.exportedAs.getD id []).forM fun name => do
      line
      write (Text.memberAccess "exports" name ++ " = " ++ (j.bindings.symbol id).name ++ ";")

/-- Functions that copy the exports of a module. -/
def exportStarHelpers : List String :=
  ["var __createBinding = (this && this.__createBinding) || " ++
    "(Object.create ? (function(o, m, k, k2) \x7b\n" ++
    "    if (k2 === undefined) k2 = k;\n" ++
    "    var desc = Object.getOwnPropertyDescriptor(m, k);\n" ++
    "    if (!desc || (\"get\" in desc ? !m.__esModule : " ++
    "desc.writable || desc.configurable)) \x7b\n" ++
    "      desc = \x7b enumerable: true, get: function() \x7b return m[k]; \x7d \x7d;\n" ++
    "    \x7d\n" ++
    "    Object.defineProperty(o, k2, desc);\n" ++
    "\x7d) : (function(o, m, k, k2) \x7b\n" ++
    "    if (k2 === undefined) k2 = k;\n" ++
    "    o[k2] = m[k];\n" ++
    "\x7d));",
   "var __exportStar = (this && this.__exportStar) || function(m, exports) \x7b\n" ++
    "    for (var p in m) if (p !== \"default\" && " ++
    "!Object.prototype.hasOwnProperty.call(exports, p)) __createBinding(exports, m, p);\n" ++
    "\x7d;"]

def isExportStar (n : Node) : Bool :=
  match n.form with
  | .exportStmt _ false none (some _) _ => true
  | _ => false

def isExportEquals (n : Node) : Bool :=
  match n.form with
  | .exportAssignment true _ => true
  | _ => false

/-- The assignments that export a function, which exists before the first statement runs. -/
def functionExports (n : Node) : Print Unit := do
  let j ← job
  match n.form with
  | .functionStmt ms name? func =>
      if func.func.body.isNone || ms.isAmbient then pure ()
      else if let some name := (name?.map Identifier.text).or j.linkage.defaultName? then
        let own := if ms.isExport then [if ms.isDefault then "default" else name] else []
        let listed := (name?.bind fun i => j.bindings.symbolOf? i.id).bind fun id =>
          j.linkage.exportedAs[id]?
        (own ++ listed.getD []).forM fun exported => do
          write (Text.memberAccess "exports" exported ++ " = " ++ name ++ ";")
          line
  | _ => pure ()

/-- What stands before the statements of a CommonJS module. -/
def commonJSPreamble (statements : List Node) : Print Unit := do
  let j ← job
  if statements.any isExportStar then
    exportStarHelpers.forM fun text => do
      write text
      line
  if !statements.any isExportEquals then
    write "Object.defineProperty(exports, \"__esModule\", \x7b value: true \x7d);"
    line
  let names := (statements.flatMap
    (ModuleExports.names j.bindings j.options.preserveConstEnums)).eraseDups
  if !names.isEmpty then
    write ("".intercalate (names.reverse.map fun n => Text.memberAccess "exports" n ++ " = ") ++
      "void 0;")
    line
  statements.forM functionExports

end Erasure.Print

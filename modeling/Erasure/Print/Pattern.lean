import Erasure.Print.Field

/-!
Printing of bindings and of variable declarations. The exported variables of a namespace or a
CommonJS module become assignments to the properties of an object, and their patterns become
patterns whose targets are properties.
-/

namespace Erasure.Print
variable (print : Slot → Node → Print Bool)

/-- Print a binding. -/
def binding (n : Node) : Print Unit := discard (print (.binding none) n)

/-- The element of a pattern. With a container, a name is written with its property. -/
def bindingElement (container? : Option String) (n : Node) : Print Unit :=
  match n.form with
  | .bindingElement isRest property? name initial? => do
      if isRest then write "..."
      match property? with
      | some key =>
          propertyKey print key
          write ": "
      | none =>
          if container?.isSome && !isRest then
            if let some i := name.bindingName? then
              identifier i
              write ": "
      discard (print (.binding container?) name)
      initializer print initial?
  | _ => pure ()

def objectPattern (container? : Option String) (elements : List Node) : Print Unit := do
  if elements.isEmpty && container?.isNone then write "\x7b\x7d"
  else
    write "\x7b "
    commaSeparated (bindingElement print container?) elements
    write " \x7d"

def arrayPattern (container? : Option String) (elements : List (Option Node)) : Print Unit := do
  write "["
  commaSeparated (fun n? => n?.forM (bindingElement print container?)) elements
  if elements.getLast?.any Option.isNone then write ","
  write "]"

/-- A binding, or the target of an assignment to the properties of a container. -/
def bindingTarget (container? : Option String) (n : Node) : Print Unit := do
  match n.form with
  | .bindingIdentifier name =>
      let text := (← file).written name n.span
      write ((container?.map fun c => Text.memberAccess c text).getD text)
  | .objectPattern elements => objectPattern print container? elements
  | .arrayPattern elements _ => arrayPattern print container? elements
  | _ => pure ()

def variableDeclaration (n : Node) : Print Unit :=
  match n.form with
  | .variableDeclaration name _ _ initial? => do
      binding print name
      initializer print initial?
  | _ => pure ()

def variableList (kind : VariableKind) (declarations : List Node) : Print Unit := do
  write kind.keyword
  space
  commaSeparated (variableDeclaration print) declarations

/-- The name of a single variable that is declared as a function or class. -/
def namedFunction? : List Node → Option Identifier
  | [n] =>
      match n.form with
      | .variableDeclaration name _ _ (some initial) =>
          match initial.skipOuter.form with
          | .functionExpr _ _ _ | .arrowFunction _ _ | .classExpr _ => name.bindingName?
          | _ => none
      | _ => none
  | _ => none

def isObjectPattern : Form → Bool
  | .objectPattern _ => true
  | _ => false

/-- The assignment that an exported variable becomes. -/
def variableAssignment (container : String) (declared : Node × Node) : Print Unit := do
  let (name, initial) := declared
  let isObject := isObjectPattern name.form
  if isObject then write "("
  discard (print (.binding (some container)) name)
  write " = "
  value print initial
  if isObject then write ")"

/-- A variable with its initializer. -/
def initialized? (n : Node) : Option (Node × Node) :=
  match n.form with
  | .variableDeclaration name _ _ (some initial) => some (name, initial)
  | _ => none

/-- Exported variables as assignments to the properties of a container. Variables without
initializer leave nothing. -/
def variableAssignments (container : String) (declarations : List Node) : Print Unit := do
  let declared := declarations.filterMap initialized?
  commaSeparated (variableAssignment print container) declared
  if !declared.isEmpty then write ";"

/-- The exported variables of a container. In a CommonJS module a single function is declared
first, so that it gets the name of its variable. -/
def exportedVariables (container : String) (kind : VariableKind) (declarations : List Node) :
    Print Unit := do
  let target ← target
  match (namedFunction? declarations).filter fun _ => target = .commonJS with
  | some name =>
      variableList print kind declarations
      write ";"
      line
      let text := (← file).identifierText name
      write (Text.memberAccess container text ++ " = " ++ text ++ ";")
  | none => variableAssignments print container declarations

def variableStatement (ms : Modifiers) (kind : VariableKind) (declarations : List Node) :
    Print Unit := do
  let target ← target
  if ms.isAmbient then pure ()
  else match target.container?.filter fun _ => ms.isExport with
    | some container => exportedVariables print container kind declarations
    | none =>
        if ms.isExport && target = .topLevel then write "export "
        variableList print kind declarations
        write ";"

end Erasure.Print

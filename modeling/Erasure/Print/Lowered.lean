import Erasure.Print.Callable

/-!
Enums and namespaces. Both become a variable that holds an object, and a function that is called
with the object to fill it:
```
var E;
(function (E) {
    E[E["A"] = 0] = "A";
})(E || (E = {}));
```
-/

namespace Erasure

/-- Whether a declaration declares a variable when the program runs. -/
def Declaration.isPrinted (preserveConstEnums : Bool) (d : Declaration) : Bool :=
  !d.isAmbient &&
    match d.kind with
    | .class_ | .function true | .namespace_ true => true
    | .enum isConst => !isConst || preserveConstEnums
    | _ => false

/-- Whether a symbol has a variable before the declaration at a node. -/
def Symbol.isDeclaredBefore (preserveConstEnums : Bool) (s : Symbol) (node : NodeId) : Bool :=
  (s.declarations.takeWhile fun d => d.node ≠ node).any (Declaration.isPrinted preserveConstEnums)

namespace Print

/-- Declare the variable of an object, unless an earlier declaration did. -/
def objectVariable (owner : SymbolId) (node : NodeId) (name : String) (isExported : Bool) :
    Print Unit := do
  let j ← job
  let t ← target
  if !(j.bindings.symbol owner).isDeclaredBefore j.options.preserveConstEnums node then
    if isExported && t = .topLevel then write "export "
    write (t.keyword ++ " " ++ name ++ ";")
    line

/-- The argument that makes the object if it does not exist yet. -/
def objectArgument (t : ExportTarget) (name : String) (isExported : Bool) : String :=
  match t with
  | .namespace_ owner =>
      let property := Text.memberAccess owner name
      if isExported then
        name ++ " = " ++ property ++ " || (" ++ property ++ " = \x7b\x7d)"
      else name ++ " || (" ++ name ++ " = \x7b\x7d)"
  | .commonJS =>
      if isExported then
        name ++ " || (" ++ Text.memberAccess "exports" name ++ " = " ++ name ++ " = \x7b\x7d)"
      else name ++ " || (" ++ name ++ " = \x7b\x7d)"
  | .topLevel | .nested => name ++ " || (" ++ name ++ " = \x7b\x7d)"

/-- The call of a function that fills the object. -/
def objectFiller (name : String) (isExported : Bool) (step : Print Unit) : Print Unit := do
  write ("(function (" ++ name ++ ") \x7b")
  indented do
    line
    step
  line
  write ("\x7d)(" ++ objectArgument (← target) name isExported ++ ");")

section
variable (print : Slot → Node → Print Bool)

/-- A member of an enum. Numbers are mapped back to names, strings are not. -/
def enumMember (owner : SymbolId) (enumName : String) (n key : Node) (initial? : Option Node) :
    Print Unit := do
  let quoted := Text.quote (key.staticKey?.getD "")
  let property := enumName ++ "[" ++ quoted ++ "]"
  match (← job).enumValues[n.id]? with
  | some (.string s) => write (property ++ " = " ++ (EnumValue.string s).expressionText ++ ";")
  | some (.number x) =>
      write (enumName ++ "[" ++ property ++ " = " ++ (EnumValue.number x).expressionText ++
        "] = " ++ quoted ++ ";")
  | none =>
      write (enumName ++ "[" ++ property ++ " = ")
      match initial? with
      | some initial => withEnum owner (value print initial)
      | none => write "void 0"
      write ("] = " ++ quoted ++ ";")

def enumMembers (owner : SymbolId) (enumName : String) (members : List Node) : Print Unit :=
  members.forM fun n =>
    match n.form with
    | .enumMember key initial? => do
        if ← commented n.span (enumMember print owner enumName n key initial?) then line
    | _ => pure ()

def enumDeclaration (ms : Modifiers) (name : Identifier) (members : List Node) : Print Unit := do
  let j ← job
  if ms.isAmbient || (ms.has .isConst && !j.options.preserveConstEnums) then pure ()
  else if let some owner := j.bindings.symbolOf? name.id then
    let text := j.file.identifierText name
    objectVariable owner name.id text ms.isExport
    objectFiller text ms.isExport (enumMembers print owner text members)

def namespaceBody (body? : Option Node) : Print Unit :=
  body?.forM fun body =>
    match body.form with
    | .moduleBlock statements => do
        statementList print statements
        closingComments (body.span.stop - 1)
    | _ => do
        discard (print (.namespace_ true) body)
        line

/-- A namespace. One without content leaves nothing. -/
def namespaceDeclaration (n : Node) (isExported : Bool) : Print Unit := do
  let j ← job
  match n.form with
  | .moduleDeclaration _ (.identifier name) body? false =>
      if n.isInstantiated j.options.preserveConstEnums then
        if let some owner := j.bindings.symbolOf? n.id then
          let text := j.file.identifierText name
          objectVariable owner name.id text isExported
          objectFiller text isExported
            (inScopeOf n.id (withTarget (.namespace_ text) (namespaceBody print body?)))
  | _ => pure ()

/-- The statement of a namespace. -/
def moduleStatement (n : Node) : Print Unit :=
  match n.form with
  | .moduleDeclaration ms _ _ _ => namespaceDeclaration print n ms.isExport
  | _ => pure ()

end
end Print
end Erasure

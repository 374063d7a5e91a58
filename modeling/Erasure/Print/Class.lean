import Erasure.Print.Callable

/-!
Printing of classes. Members and modifiers that concern types only are erased, and parameters that
are properties become assignments in the constructor. If fields are not to be defined as such,
instance fields become assignments in the constructor, and static fields assignments after the
class.
-/

namespace Erasure

/-- A member of a class with its modifiers. -/
structure ClassMember where
  node : Node
  decorators : List Node
  modifiers : Modifiers
  form : Form

namespace ClassMember

def ofNode? (n : Node) : Option ClassMember :=
  match n.form with
  | .classMember decorators modifiers form => some { node := n, decorators, modifiers, form }
  | _ => none

def isStatic (m : ClassMember) : Bool := m.modifiers.isStatic

def isAccessorField (m : ClassMember) : Bool := m.modifiers.has .isAccessor

def isErased (m : ClassMember) : Bool := m.form.isErasedMember m.modifiers.isWithoutCode

def isPrivateKey : Form → Bool
  | .privateKey _ => true
  | _ => false

/-- The key and the initializer of a field that can be written as an assignment. -/
def assignedField? (m : ClassMember) : Option (Node × Option Node) :=
  match m.form with
  | .propertyMember key _ _ _ initial? =>
      if isPrivateKey key.form || m.isAccessorField || m.isErased then none
      else some (key, initial?)
  | _ => none

/-- The assignment that an initialized instance field becomes. -/
def instanceAssignment? (m : ClassMember) : Option FieldAssignment :=
  if m.isStatic then none
  else m.assignedField?.bind fun field => field.2.map (.field field.1)

/-- The key and the value of the assignment that an initialized static field becomes. -/
def staticAssignment? (m : ClassMember) : Option (Node × Node) :=
  if m.isStatic then m.assignedField?.bind fun field => field.2.map (field.1, ·) else none

end ClassMember

/-- How the fields of a class are printed. -/
structure FieldPlan where
  /-- Fields stay in the class. -/
  usesDefine : Bool
  /-- Static fields move behind the class. -/
  hoistsStatics : Bool
  /-- Assignments at the start of the constructor. -/
  assignments : List FieldAssignment
  /-- Fields to declare for parameters. -/
  declared : List Identifier

namespace FieldPlan

def ofClass (usesDefine hoistsStatics : Bool) (c : ClassLike) : FieldPlan :=
  let parameters := (c.constructor?.map fun n => n.func.parameters).getD []
  let properties := (parameters.filter fun n => n.parameter.modifiers.isParameterProperty).filterMap
    fun n => n.parameter.name.bindingName?
  let fields := (c.members.filterMap ClassMember.ofNode?).filterMap ClassMember.instanceAssignment?
  { usesDefine, hoistsStatics
    assignments := properties.map .parameter ++ if usesDefine then [] else fields
    declared := if usesDefine then properties else [] }

/-- Whether a field stays in the class. -/
def keeps (plan : FieldPlan) (m : ClassMember) (key : Node) : Bool :=
  plan.usesDefine || ClassMember.isPrivateKey key.form || m.isAccessorField ||
    (m.isStatic && !plan.hoistsStatics)

end FieldPlan

namespace Print
variable (print : Slot → Node → Print Bool)

def decorator (n : Node) : Print Unit :=
  match n.form with
  | .decorator inner => do
      write "@"
      operand print .leftHandSide inner
  | _ => pure ()

/-- What stands before the name of a member. -/
def memberHead (m : ClassMember) : Print Unit := do
  m.decorators.forM fun d => do
    decorator print d
    line
  if m.isStatic then write "static "

def fieldMember (plan : FieldPlan) (m : ClassMember) (key : Node) (initial? : Option Node) :
    Print Unit := do
  if plan.keeps m key then
    memberHead print m
    if m.isAccessorField then write "accessor "
    propertyKey print key
    initializer print initial?
    write ";"

def methodMember (m : ClassMember) (keyword? : Option String) (key func : Node) : Print Unit := do
  memberHead print m
  method print keyword? key func

def constructorMember (c : ClassLike) (plan : FieldPlan) (m : ClassMember) (func : Node) :
    Print Unit := do
  if let some body := func.func.body then
    memberHead print m
    write "constructor"
    signatureAndBody print func body plan.assignments c.isDerived

def classMember (c : ClassLike) (plan : FieldPlan) (m : ClassMember) : Print Unit := do
  if m.isErased then pure ()
  else match m.form with
    | .propertyMember key _ _ _ initial? => fieldMember print plan m key initial?
    | .methodMember key _ func => methodMember print m none key func
    | .getterMember key func => methodMember print m (some "get") key func
    | .setterMember key func => methodMember print m (some "set") key func
    | .constructorMember func => constructorMember print c plan m func
    | .staticBlock body =>
        write "static "
        block print body
    | .semicolonMember => write ";"
    | _ => pure ()

/-- The constructor of a class that has none but needs assignments. -/
def addedConstructor (c : ClassLike) (plan : FieldPlan) : Print Unit := do
  write "constructor() \x7b"
  indented do
    line
    if c.isDerived then
      write "super(...arguments);"
      line
    plan.assignments.forM fun a => do
      fieldAssignment print a
      line
  write "\x7d"
  line

def classMembers (c : ClassLike) (plan : FieldPlan) : Print Unit := do
  plan.declared.forM fun name => do
    identifier name
    write ";"
    line
  if c.constructor?.isNone && !plan.assignments.isEmpty then addedConstructor print c plan
  (c.members.filterMap ClassMember.ofNode?).forM fun m => do
    if ← commented m.node.span (classMember print c plan m) then line

def extendsClause (c : ClassLike) : Print Unit :=
  c.base.forM fun base =>
    match base.form with
    | .heritage _ inner _ => do
        write " extends "
        operand print .leftHandSide inner
    | _ => pure ()

/-- A class from its keyword on. -/
def classBody (n : Node) (name? : Option String) (hoistsStatics : Bool) : Print Unit := do
  let c := n.classLike
  let usesDefine := (← options).useDefineForClassFields
  write "class"
  name?.forM fun name => write (" " ++ name)
  extendsClause print c
  write " \x7b"
  inScopeOf n.id <| withTarget .nested <| indented do
    line
    classMembers print c (FieldPlan.ofClass usesDefine hoistsStatics c)
    closingComments (n.span.stop - 1)
  line
  write "\x7d"

def classExpression (n : Node) : Print Unit := do
  let c := n.classLike
  c.decorators.forM fun d => do
    decorator print d
    space
  classBody print n (c.name.map (← file).identifierText) false

/-- The assignments of static fields after a class. -/
def staticAssignments (name : String) (c : ClassLike) : Print Unit := do
  let members := c.members.filterMap ClassMember.ofNode?
  (members.filterMap ClassMember.staticAssignment?).forM fun field => do
    line
    memberAssignment print name field.1 field.2

/-- The assignment that exports a class. -/
def classExport? (t : ExportTarget) (ms : Modifiers) (name : String) : Option String :=
  if !ms.isExport then none
  else if t = .commonJS && ms.isDefault then some ("exports.default = " ++ name ++ ";")
  else t.container?.map fun c => Text.memberAccess c name ++ " = " ++ name ++ ";"

def classDeclaration (n : Node) : Print Unit := do
  let c := n.classLike
  if c.modifiers.isAmbient then pure ()
  else
    c.decorators.forM fun d => do
      decorator print d
      line
    exportKeywords c.modifiers
    let name? ← declaredName? c.name c.modifiers.isExport
    classBody print n name? name?.isSome
    if let some name := name? then
      if !(← options).useDefineForClassFields then staticAssignments print name c
      (classExport? (← target) c.modifiers name).forM fun text => do
        line
        write text

end Print
end Erasure

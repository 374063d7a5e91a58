import Erasure.Check.StatedType
import Erasure.Check.Overload

/-!
Checks on functions and classes, and on values that have an annotation.
-/

namespace Erasure

/-- Numbers as they stand in messages. -/
def StatedType.numberText (x : Float) : String :=
  if x < 0 then "-" ++ Decimal.numberText (-x) else Decimal.numberText x

/-- What a function belongs to. -/
inductive FunctionOwner where
  | nothing
  | object
  | member (isStatic isConstructor : Bool)
  deriving DecidableEq, Inhabited

/-- Whether code calls the constructor of the base class, as deep as the fuel allows. Functions
and classes inside of it run on their own. -/
def Node.callsSuperWithin : Nat → Node → Bool
  | 0, _ => false
  | fuel + 1, n =>
      match n.form with
      | .functionLike _ | .arrowFunction _ _ | .classLike _ => false
      | .call callee _ _ _ =>
          match callee.form with
          | .superExpr => true
          | _ => n.visited.any (Node.callsSuperWithin fuel)
      | _ => n.visited.any (Node.callsSuperWithin fuel)

namespace Check

/-- The value of an initializer is accepted by its annotation. -/
def assignable (value type : Node) (span : Span) : Check Unit := do
  let p ← read
  let isArrayDeclared := (p.resolve? "Array" SymbolFlags.type).isSome
  let isUndefinedDeclared := (p.resolve? "undefined" SymbolFlags.value).isSome
  if let some stated := type.statedType? isArrayDeclared then
    if let some valueType := value.valueType? isUndefinedDeclared then
      let strict := p.job.options.strictNullChecks
      (stated.mismatches StatedType.numberText strict valueType span).forM fun m =>
        error .notAssignable m.span [m.source, m.target]

/-- A variable or parameter with a name, an annotation and an initializer. -/
def annotated (name : Node) (type? initial? : Option Node) : Check Unit := do
  if !(← read).isAmbient then
    match name.bindingName?, type?, initial? with
    | some i, some type, some initial => assignable initial type i.span
    | _, _, _ => pure ()

/-- Only the parameters of a constructor with a body are properties. -/
def parameterProperties (parameters : List Node) (isAllowed : Bool) : Check Unit :=
  parameters.forM fun n =>
    if n.parameter.modifiers.isParameterProperty && !isAllowed then
      error .misplacedParameterProperty n.span []
    else pure ()

def superReference (span : Span) : Check Unit := do
  if (← read).function.superOwner = .class_ false then error .superOutsideDerived span []

/-- The place inside of a function. -/
def functionPlace (p : CheckPlace) (owner : FunctionOwner) (f : FunctionLike) : FunctionPlace :=
  let place : FunctionPlace := {
    isFunction := true, hasArguments := true
    returnType? := if f.isAsync || f.isGenerator then none else f.returnType }
  match owner with
  | .nothing => place
  | .object => { place with superOwner := .object }
  | .member isStatic isConstructor =>
      { place with
        isConstructor, superOwner := p.classSuper
        thisClass? := if isStatic then none else p.innermostClass? }

/-- The place inside of an arrow function, which has the `this` of the code around it. -/
def arrowPlace (p : CheckPlace) (f : FunctionLike) : FunctionPlace :=
  { p.function with
    isFunction := true, isConstructor := false, isDeferred := false, isStaticBlock := false
    returnType? := if f.isAsync then none else f.returnType }

/-- The place inside of the initializer of a field. -/
def fieldPlace (p : CheckPlace) (isStatic : Bool) : FunctionPlace :=
  { superOwner := p.classSuper, isDeferred := !isStatic
    thisClass? := if isStatic then none else p.innermostClass? }

section
variable (walk : Node → Check Unit)

def function (owner : FunctionOwner) (n : Node) : Check Unit := do
  let f := n.func
  let place := functionPlace (← read) owner f
  parameterProperties f.parameters (place.isConstructor && f.body.isSome)
  inScopeOf n.id (inFunction place (f.children.forM walk))

/-- An arrow function. Its expression is what it returns. -/
def arrowFunction (n : Node) (f : FunctionLike) : Check Unit := do
  let p ← read
  let place := arrowPlace p f
  parameterProperties f.parameters false
  inScopeOf n.id <| inFunction place do
    match f.body, place.returnType? with
    | some body, some type =>
        if !p.isAmbient && !body.form.isBlock then assignable body type body.span
    | _, _ => pure ()
    f.children.forM walk

def field (key : Node) (type? initial? : Option Node) (isStatic : Bool) : Check Unit := do
  let p ← read
  walk key
  type?.forM walk
  initial?.forM fun initial => do
    if !p.isAmbient then type?.forM fun type => assignable initial type key.span
    inFunction (fieldPlace p isStatic) (walk initial)

/-- A member with a key and a function. -/
def functionMember (key func : Node) (isStatic : Bool) : Check Unit := do
  walk key
  function walk (.member isStatic false) func

def memberForm (isStatic : Bool) : Form → Check Unit
  | .propertyMember key _ _ type? initial? => field walk key type? initial? isStatic
  | .methodMember key _ func | .getterMember key func | .setterMember key func =>
      functionMember walk key func isStatic
  | .constructorMember func => function walk (.member false true) func
  | .indexMember parameters type? => do
      parameters.forM walk
      type?.forM walk
  | .staticBlock body => do
      inFunction { superOwner := (← read).classSuper, isStaticBlock := true } (walk body)
  | _ => pure ()

def classMember (decorators : List Node) (ms : Modifiers) (member : Form) : Check Unit := do
  decorators.forM walk
  withModifiers ms (memberForm walk ms.isStatic member)

/-- The constructor of a derived class calls the one of its base. -/
def superCall (member : Node) : Check Unit := do
  let j := (← read).job
  match member.form with
  | .classMember _ _ (.constructorMember func) =>
      if func.func.body.any fun body => !body.callsSuperWithin j.file.nodeCount then
        error .missingSuperCall (j.constructorSpan member) []
  | _ => pure ()

def isSemicolon (n : Node) : Bool :=
  match n.form with
  | .classMember _ _ .semicolonMember => true
  | _ => false

/-- Rules on the members of a class taken together. -/
def memberRules (c : ClassLike) : Check Unit := do
  let p ← read
  if !p.isAmbient then
    missingImplementations
      (p.job.unimplementedMembers (c.members.filter fun m => !isSemicolon m))
    if c.isDerived then c.members.forM superCall

def class_ (n : Node) (c : ClassLike) : Check Unit := do
  c.decorators.forM walk
  withModifiers c.modifiers do
    c.base.forM walk
    let frame := { symbol? := (← read).job.bindings.symbolOf? n.id, isDerived := c.isDerived }
    inScopeOf n.id <| withReader (fun p => { p with classes := frame :: p.classes }) do
      memberRules c
      (c.typeParameters.getD []).forM walk
      c.interfaces.forM walk
      c.members.forM walk

end
end Check
end Erasure

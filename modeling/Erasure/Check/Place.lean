import Std.Data.HashSet
import Erasure.Options
import Erasure.Scope.EnumValue

/-!
The state of a check, and where it stands. What surrounds the syntax that is checked is an argument
of every step; the state holds the errors found so far.
-/

namespace Erasure

/-- A file with all that is known about it before it is checked. -/
structure CheckJob where
  file : SourceFile
  bindings : Bindings
  options : Options
  enumValues : EnumValues

/-- What `super` refers to. -/
inductive SuperOwner where
  | nothing
  | class_ (isDerived : Bool)
  | object
  deriving DecidableEq, Inhabited

/-- The innermost function. -/
structure FunctionPlace where
  isFunction : Bool := false
  hasArguments : Bool := false
  /-- The type of the values that are returned as such. -/
  returnType? : Option Node := none
  /-- The class that `this` is an instance of. -/
  thisClass? : Option SymbolId := none
  isConstructor : Bool := false
  superOwner : SuperOwner := .nothing
  /-- The code runs after the code around it, like the initializer of a field. -/
  isDeferred : Bool := false
  isStaticBlock : Bool := false

/-- A class around the syntax that is checked. -/
structure EnclosingClass where
  symbol? : Option SymbolId
  isDerived : Bool
  deriving DecidableEq, Inhabited

/-- A statement that a jump can refer to. -/
inductive JumpTarget where
  | iteration
  | switch
  | label (name : String) (isIteration : Bool)
  deriving DecidableEq, Inhabited

structure CheckPlace where
  job : CheckJob
  scope : ScopeId
  function : FunctionPlace := {}
  /-- The classes around, innermost first. -/
  classes : List EnclosingClass := []
  /-- The targets for jumps up to the innermost function, innermost first. -/
  jumpTargets : List JumpTarget := []
  /-- The enum whose members are initialized. -/
  currentEnum? : Option SymbolId := none
  isAmbient : Bool
  isInWith : Bool := false
  isInType : Bool := false

structure CheckState where
  /-- Errors found, last one first. -/
  errorsRev : List Diagnostic := []
  /-- Position and code of the errors found. -/
  reported : Std.HashSet (Nat × Nat) := {}

abbrev Check := ReaderT CheckPlace (StateM CheckState)

namespace CheckState

/-- Add an error, unless there is one with its code at its position, or there are too many. -/
def error (s : CheckState) (m : Message) (span : Span) (args : List String) : CheckState :=
  let key := (span.start, m.code)
  if Limits.diagnostics ≤ s.reported.size || s.reported.contains key then s
  else {
    errorsRev := Diagnostic.ofMessage m span.start span.length args :: s.errorsRev
    reported := s.reported.insert key }

end CheckState

namespace CheckPlace

def resolve? (p : CheckPlace) (name : String) (meaning : SymbolFlags) : Option SymbolId :=
  p.job.bindings.resolve? p.scope name meaning

/-- Whether a name is a member of the enum around it. -/
def isEnumMember (p : CheckPlace) (name : String) : Bool :=
  p.currentEnum?.any fun id => (p.job.bindings.symbol id).exports.contains name

/-- What `super` refers to in a member of the innermost class. -/
def classSuper (p : CheckPlace) : SuperOwner :=
  match p.classes with
  | [] => .nothing
  | c :: _ => .class_ c.isDerived

/-- The innermost class, as what `this` is an instance of. -/
def innermostClass? (p : CheckPlace) : Option SymbolId :=
  p.classes.head?.bind EnclosingClass.symbol?

end CheckPlace

namespace Check

def error (m : Message) (span : Span) (args : List String) : Check Unit :=
  modify fun s => s.error m span args

/-- Run a step in the scope that a node opens, if there is one. -/
def inScopeOf (node : NodeId) (step : Check Unit) : Check Unit :=
  withReader (fun p => { p with scope := (p.job.bindings.scopeOf? node).getD p.scope }) step

/-- Run a step on a declaration with modifiers. -/
def withModifiers (ms : Modifiers) (step : Check Unit) : Check Unit :=
  withReader (fun p => { p with isAmbient := p.isAmbient || ms.isAmbient }) step

/-- Run a step in a function. Jumps do not leave it. -/
def inFunction (f : FunctionPlace) (step : Check Unit) : Check Unit :=
  withReader (fun p => { p with function := f, jumpTargets := [] }) step

/-- Run a step in a statement that jumps can refer to. -/
def withTarget (t : JumpTarget) (step : Check Unit) : Check Unit :=
  withReader (fun p => { p with jumpTargets := t :: p.jumpTargets }) step

end Check
end Erasure

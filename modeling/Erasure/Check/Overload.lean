import Erasure.Check.Place

/-!
Checks on functions and methods without body: one that is not ambient is followed by its
implementation.
-/

namespace Erasure

/-- The name of a function declaration, if the statement is one. -/
def Node.functionName? (n : Node) : Option String :=
  match n.form with
  | .functionStmt _ (some name) _ => some name.text
  | _ => none

/-- The name of a function declaration that needs an implementation. -/
def Node.overload? (n : Node) : Option Identifier :=
  match n.form with
  | .functionStmt ms (some name) func =>
      if func.func.body.isSome || ms.isAmbient then none else some name
  | _ => none

/-- The names of functions in a list of statements that lack an implementation. -/
def unimplementedFunctions : List Node → List Span
  | [] => []
  | n :: ns =>
      let missing := n.overload?.filter fun name =>
        !(ns.head?.bind Node.functionName?).any fun next => next = name.text
      (missing.map Identifier.span).toList ++ unimplementedFunctions ns

namespace CheckJob

/-- The start of a constructor up to its keyword. -/
def constructorSpan (j : CheckJob) (member : Node) : Span :=
  match Text.findFrom "constructor".toList 0 (j.file.textAt member.span).toList with
  | some offset => ⟨member.span.start, member.span.start + offset + "constructor".length⟩
  | none => member.span

/-- Keys that name the same member. Keys that are computed are compared by their text. -/
def isSameKey (j : CheckJob) (key other : Node) : Bool :=
  match key.staticKey?, other.staticKey? with
  | some text, some otherText => text == otherText
  | _, _ => j.file.textAt key.span == j.file.textAt other.span

/-- Whether a member can be the implementation of one with a key, or of a constructor. -/
def isImplementedBy (j : CheckJob) (key? : Option Node) (next : Node) : Bool :=
  match next.form, key? with
  | .classMember _ _ (.methodMember nextKey _ _), some key => j.isSameKey key nextKey
  | .classMember _ _ (.constructorMember _), none => true
  | _, _ => false

/-- Where a member without body is reported, and its key unless it is a constructor. -/
def bodilessMember? (j : CheckJob) (n : Node) : Option (Span × Option Node) :=
  match n.form with
  | .classMember _ ms (.methodMember key false func) =>
      if func.func.body.isSome || ms.isAmbient || ms.has .isAbstract then none
      else some (key.span, some key)
  | .classMember _ ms (.constructorMember func) =>
      if func.func.body.isSome || ms.isAmbient then none else some (j.constructorSpan n, none)
  | _ => none

/-- The members of a list that lack an implementation. -/
def unimplementedMembers (j : CheckJob) : List Node → List Span
  | [] => []
  | n :: ns =>
      let missing := (j.bodilessMember? n).filter fun m =>
        !ns.head?.any (j.isImplementedBy m.2)
      (missing.map Prod.fst).toList ++ j.unimplementedMembers ns

end CheckJob

namespace Check

def missingImplementations (spans : List Span) : Check Unit :=
  spans.forM fun span => error .missingImplementation span []

/-- The functions of a list of statements are implemented. -/
def overloads (statements : List Node) : Check Unit := do
  if !(← read).isAmbient then missingImplementations (unimplementedFunctions statements)

end Check
end Erasure

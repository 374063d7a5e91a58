import Erasure.Check.Global
import Erasure.Check.Place

/-!
Checks on names: that they are declared, before their use, and as what they are used as.
-/

namespace Erasure

namespace CheckPlace

/-- Members of classes are found through an object only, which is a different error. -/
def isClassMember (p : CheckPlace) (name : String) : Bool :=
  (p.classes.filterMap EnclosingClass.symbol?).any fun id =>
    let symbol := p.job.bindings.symbol id
    symbol.members.contains name || symbol.exports.contains name

/-- Whether a name that is not declared in the file may be declared elsewhere. -/
def mayBeExternal (p : CheckPlace) (name : String) : Bool :=
  p.isAmbient || p.isInWith || p.job.bindings.augmentsGlobals ||
    (name = "arguments" && (p.function.hasArguments || !p.classes.isEmpty)) ||
    Global.isKnown name || p.isClassMember name

/-- The message for a use at an offset that stands before a declaration. -/
def earlyUse? (offset : Nat) (d : Declaration) : Option Message :=
  if d.kind.isBlockVariable then
    if offset < d.span.stop then some .variableBeforeDeclaration else none
  else if offset < d.span.start then
    match d.kind with
    | .class_ => some .classBeforeDeclaration
    | .enum _ => some .enumBeforeDeclaration
    | _ => none
  else none

/-- Whether code in a scope runs as part of the function that a declaration stands in. -/
def runsWith (p : CheckPlace) (d : Declaration) : Bool :=
  p.job.bindings.functionContainer p.scope = p.job.bindings.functionContainer d.scope

end CheckPlace

namespace Check

def unknownName (name : String) (span : Span) : Check Unit := do
  if !(← read).mayBeExternal name then error .unknownName span [name]

/-- A use of a symbol must not run before its declaration. -/
def useAfterDeclaration (id : SymbolId) (span : Span) : Check Unit := do
  let p ← read
  let symbol := p.job.bindings.symbol id
  if !p.function.isDeferred && !p.isInType then
    if let some d := symbol.declaration? then
      if let some m := CheckPlace.earlyUse? span.start d then
        if !d.isAmbient && p.runsWith d then error m span [symbol.name]

/-- A name that is used as a value. -/
def valueName (name : String) (span : Span) : Check Unit := do
  let p ← read
  if p.isEnumMember name then pure ()
  else match p.resolve? name SymbolFlags.value with
    | some id => useAfterDeclaration id span
    | none =>
        if (p.resolve? name SymbolFlags.type).isSome then
          if !p.isAmbient && !p.isInType then error .typeUsedAsValue span [name]
        else if (p.resolve? name SymbolFlags.namespaces).isNone then unknownName name span

/-- A name that is exported, as whatever it is. -/
def exportedName (name : String) (span : Span) : Check Unit := do
  let p ← read
  let anything := SymbolFlags.value ++ SymbolFlags.type ++ SymbolFlags.namespaces
  if (p.resolve? name anything).isNone && !p.isEnumMember name then unknownName name span

/-- A name that is used as a type. Names with dots are not looked at. -/
def typeName (name : EntityName) : Check Unit := do
  let p ← read
  match name.segments with
  | [first] =>
      if (p.resolve? first.text (SymbolFlags.type ++ SymbolFlags.namespaces)).isNone then
        if let some id := p.resolve? first.text SymbolFlags.value then
          let symbol := p.job.bindings.symbol id
          if symbol.has (SymbolFlags.anyVariable ++ [.function]) && !symbol.isAlias then
            error .valueUsedAsType first.span [first.text]
  | _ => pure ()

end Check
end Erasure

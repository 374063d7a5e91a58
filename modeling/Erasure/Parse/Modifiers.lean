import Erasure.Parse.State

/-!
Modifiers before declarations, members and parameters. Whether a word is a modifier or a name
depends on what follows it.
-/

namespace Erasure

/-- Where modifiers stand. -/
inductive ModifierPlace where
  | statement | classMember | parameter | typeParameter | typeMember
  deriving DecidableEq

namespace Parse

/-- A property key other than a private or computed one. -/
def isLiteralKey : Parse Bool := do
  if ← isIdentifierOrKeyword then return true
  isOneOf [.stringLiteral, .numericLiteral, .bigIntLiteral]

def isKey : Parse Bool := do
  if ← isLiteralKey then return true
  isOneOf [.openBracket, .privateIdentifier]

/-- The current token can follow a modifier. -/
def canFollowModifier : Parse Bool := do
  if ← isOneOf [.openBracket, .openBrace, .asterisk, .ellipsis, .privateIdentifier] then
    return true
  isLiteralKey

def canFollowExport : Parse Bool := do
  if ← isToken .atSign then return true
  if ← isOneOf [.asterisk, .asKw, .openBrace] then return false
  canFollowModifier

/-- The next token is of a kind and on the same line. -/
def nextIsOnSameLine (k : TokenKind) : Parse Bool := nextIs do
  if ← isToken k then return !(← afterLineBreak) else return false

/-- What can follow `default` as a modifier comes next. -/
def nextCanFollowDefault : Parse Bool := do
  match ← next with
  | .classKw | .functionKw | .interfaceKw | .atSign => return true
  | .abstractKw => nextIsOnSameLine .classKw
  | .asyncKw => nextIsOnSameLine .functionKw
  | _ => return false

/-- The current token, a modifier, is followed by something that it can modify. -/
def modifierIsFollowed (k : TokenKind) (place : ModifierPlace) : Parse Bool := do
  match k with
  | .constKw =>
      if place = .typeParameter then
        advance
        return !(← afterLineBreak) && (← isIdentifier)
      else return (← next) = .enumKw
  | .inKw | .outKw =>
      advance
      return !(← afterLineBreak) && (← isIdentifier)
  | .exportKw =>
      match ← next with
      | .defaultKw => lookAhead nextCanFollowDefault
      | .typeKw => nextIs canFollowExport
      | _ => canFollowExport
  | .defaultKw => nextCanFollowDefault
  | .staticKw =>
      advance
      canFollowModifier
  | _ =>
      advance
      return !(← afterLineBreak) && (← canFollowModifier)

/-- The current token, if it is a modifier here. -/
def modifier? (place : ModifierPlace) : Parse (Option TokenKind) := do
  let k ← token
  if !k.isModifier then return none
  if (k = .inKw || k = .outKw) && place ≠ .typeParameter then return none
  if k = .staticKw && place = .classMember then
    if ← nextIsToken .openBrace then return none
  return if ← lookAhead (modifierIsFollowed k place) then some k else none

/-- Add a modifier to others, reporting one that is there already. -/
def addModifier (ms : Modifiers) (k : TokenKind) : Parse Modifiers := do
  let span ← tokenSpan
  match ModifierFlag.ofKind? k with
  | none => return ms
  | some flag =>
      if ms.has flag then errorAt .modifierSeen span [k.text?.getD "modifier"]
      return { ms.setFlag flag with list := ms.list ++ [{ kind := k, span }] }

/-- Pass over a modifier, if the current token is one here. -/
def modifierStep (place : ModifierPlace) (ms : Modifiers) : Parse (ForInStep Modifiers) := do
  match ← modifier? place with
  | none => return .done ms
  | some k =>
      let ms ← addModifier ms k
      advance
      return .yield ms

def modifiers (place : ModifierPlace) : Parse Modifiers := loop {} (modifierStep place)

end Parse
end Erasure

import Erasure.Parse.Grammar
import Erasure.Proofs.Parse.Progress

/-!
The parsers that build nothing: tests, which stay where they are, and those that only pass over
tokens or report errors.
-/

namespace Erasure.Parse

instance : Proceeds next := by unfold next; infer_instance

instance (k : TokenKind) : Proceeds (accept k) := by unfold accept; infer_instance

instance (k : TokenKind) : Proceeds (expect k) := by unfold expect; infer_instance

instance (k : TokenKind) : Proceeds (require k) := by unfold require; infer_instance

instance (k : TokenKind) : Proceeds (discard k) := by unfold discard; infer_instance

instance {α : Type} (test : Parse Bool) (p : Parse α) [Proceeds test] [Proceeds p] :
    Proceeds (when? test p) := by
  unfold when?
  infer_instance

instance {α : Type} (k : TokenKind) (p : Parse α) [Proceeds p] : Proceeds (after? k p) := by
  unfold after?
  infer_instance

instance : Proceeds elementEnd := by unfold elementEnd; infer_instance

instance (test : Parse Bool) [Proceeds test] : Stays (nextIs test) := by
  unfold nextIs
  infer_instance

instance (k : TokenKind) : Stays (nextIsToken k) := by unfold nextIsToken; infer_instance

instance : Stays isIdentifier := by unfold isIdentifier; infer_instance

instance : Stays isIdentifierOrKeyword := by unfold isIdentifierOrKeyword; infer_instance

instance : Stays canEndStatement := by unfold canEndStatement; infer_instance

instance : Proceeds semicolon := by unfold semicolon; infer_instance

instance (length : Nat) : Stays (chainTooLong length) := by unfold chainTooLong; infer_instance

instance (form : Form) : Stays (placeholderNode form) := by unfold placeholderNode; infer_instance

instance : Stays missingExpression := by unfold missingExpression; infer_instance

instance : Stays missingStatement := by unfold missingStatement; infer_instance

instance : Stays missingType := by unfold missingType; infer_instance

instance : Stays missingIdentifier := by unfold missingIdentifier; infer_instance

instance : Proceeds takeIdentifier := by unfold takeIdentifier; infer_instance

instance : Proceeds identifier := by unfold identifier; infer_instance

instance : Proceeds identifierName := by unfold identifierName; infer_instance

instance : Proceeds stringLiteral := by unfold stringLiteral; infer_instance

instance : Proceeds segmentStep := by unfold segmentStep; infer_instance

instance : Gathers segmentStep := by
  refine .of_leads fun n => ?_
  unfold segmentStep
  exact .accept (by decide) (.rest inferInstance) (.stop nofun)

instance (first : Parse Identifier) [Proceeds first] : Proceeds (entityName first) := by
  unfold entityName
  infer_instance

instance : Stays isLiteralKey := by unfold isLiteralKey; infer_instance

instance : Stays isKey := by unfold isKey; infer_instance

instance : Stays canFollowModifier := by unfold canFollowModifier; infer_instance

instance : Stays canFollowExport := by unfold canFollowExport; infer_instance

instance (k : TokenKind) : Stays (nextIsOnSameLine k) := by
  unfold nextIsOnSameLine
  infer_instance

instance : Proceeds nextCanFollowDefault := by
  unfold nextCanFollowDefault
  refine .bind inferInstance fun k => ?_
  split <;> infer_instance

instance (k : TokenKind) (place : ModifierPlace) : Proceeds (modifierIsFollowed k place) := by
  unfold modifierIsFollowed
  split
  case h_4 =>
    refine .bind inferInstance fun k => ?_
    split <;> infer_instance
  all_goals infer_instance

instance (place : ModifierPlace) : Stays (modifier? place) := by
  unfold modifier?
  infer_instance

instance (ms : Modifiers) (k : TokenKind) : Stays (addModifier ms k) := by
  unfold addModifier
  refine .bind inferInstance fun _ => ?_
  split <;> infer_instance

/-- Only a word that can be a modifier is one. -/
theorem isModifier_of_modifier? {place : ModifierPlace} {s : ParseState} {k : TokenKind}
    (h : (modifier? place s).1 = some k) : s.scanner.token.isModifier = true := by
  by_contra hk
  have hnone : (modifier? place s).1 = none := by
    show ((ite _ _ _ : Parse (Option TokenKind)) s).1 = none
    rw [if_pos (by simpa using hk)]
    rfl
  rw [hnone] at h
  cases h

instance (place : ModifierPlace) (ms : Modifiers) : Proceeds (modifierStep place ms) := by
  unfold modifierStep
  refine .bind inferInstance fun k => ?_
  split <;> infer_instance

theorem ne_endOfFile_of_modifier? {place : ModifierPlace} {s : ParseState}
    (h : (modifier? place s).1.isSome = true) : s.spot.token ≠ .endOfFile := by
  intro hend
  obtain ⟨k, hk⟩ := Option.isSome_iff_exists.mp h
  have hmodifier := isModifier_of_modifier? hk
  rw [show s.scanner.token = .endOfFile from hend] at hmodifier
  cases hmodifier

instance (place : ModifierPlace) : Advances (modifierStep place) := by
  refine .of_leads fun n ms => ?_
  unfold modifierStep
  refine .ask (R := fun k? a => k?.isSome = true → a.token ≠ .endOfFile)
    (fun _ => ne_endOfFile_of_modifier?) fun k? => ?_
  split
  · exact .stop id
  · exact .alive (fun _ ha => ha.2 rfl) (.stay fun _ => .advance (.rest inferInstance))

instance (place : ModifierPlace) : Proceeds (modifiers place) := by
  unfold modifiers
  infer_instance

instance (isExcluded : Bool) : Proceeds (definiteSign isExcluded) := by
  unfold definiteSign
  infer_instance

instance : Stays isBindingStart := by unfold isBindingStart; infer_instance

instance : Stays isLeftHandSideStart := by
  unfold isLeftHandSideStart
  refine .bind inferInstance fun k => ?_
  split <;> infer_instance

instance : Stays isBinaryOperator := by unfold isBinaryOperator; infer_instance

instance : Stays isExpressionStart := by
  unfold isExpressionStart
  refine .bind inferInstance fun _ => ?_
  split
  · infer_instance
  · refine .bind inferInstance fun k => ?_
    split <;> infer_instance

instance : Stays canFollowTypeArguments := by
  unfold canFollowTypeArguments
  refine .bind inferInstance fun k => ?_
  split <;> infer_instance

instance (isAllowed : Bool) : Stays (isOptionalChain isAllowed) := by
  unfold isOptionalChain
  infer_instance

instance (isOptional : Bool) : Proceeds (propertySign isOptional) := by
  unfold propertySign
  infer_instance

instance : Stays nextIsWordOnSameLine := by unfold nextIsWordOnSameLine; infer_instance

instance : Stays isStatementStart := by
  unfold isStatementStart
  refine .bind inferInstance fun k => ?_
  split <;> infer_instance

instance (span : Span) : Stays (hasLineBreakIn span) := .of_same fun _ => rfl

instance (isShorthand : Bool) (key : Node) : Stays (shorthandBinding isShorthand key) := by
  unfold shorthandBinding
  dsimp only
  split <;> infer_instance

instance (start : Nat) (left : Node) (operator : TokenKind) (right : Node)
    (breakBefore breakAfter : Bool) :
    Stays (binaryNode start left operator right breakBefore breakAfter) := by
  unfold binaryNode
  infer_instance

instance : Proceeds templateContinuation := by unfold templateContinuation; infer_instance

instance : Proceeds memberName := by
  unfold memberName
  refine .bind inferInstance fun _ => ?_
  dsimp only
  split <;> infer_instance

instance (start : Nat) (form : Form) : Proceeds (tokenNode start form) := by
  unfold tokenNode
  infer_instance

instance (start : Nat) : Proceeds (regularExpression start) := by
  unfold regularExpression
  infer_instance

instance (start : Nat) : Proceeds (nameExpression start) := by
  unfold nameExpression
  infer_instance

instance : Stays isParameterStart := by unfold isParameterStart; infer_instance

instance (notes : ParameterNotes) (p : Parameter) (start : Nat) (question : Span) :
    Stays (checkParameter notes p start question) := by
  unfold checkParameter
  infer_instance

instance (notes : ParameterNotes) : Stays (checkLast notes) := by
  unfold checkLast
  split <;> infer_instance

instance : Stays isAssertsPredicate := by unfold isAssertsPredicate; infer_instance

instance : Stays isTypePredicate := by unfold isTypePredicate; infer_instance

instance (bodyRequired : Bool) : Stays (lacksBody bodyRequired) := by
  unfold lacksBody
  infer_instance

instance : Stays isNegativeLiteral := by unfold isNegativeLiteral; infer_instance

instance : Stays isTypeParameterStart := by unfold isTypeParameterStart; infer_instance

instance (fuel : Nat) : Stays (isTypeStartWithin fuel) := by
  induction fuel with
  | zero => exact inferInstanceAs (Stays (pure false))
  | succ fuel ih =>
      refine .bind inferInstance fun k => ?_
      split <;> infer_instance

instance : Stays isTypeStart := by unfold isTypeStart; infer_instance

instance : Proceeds typeMemberEnd := by unfold typeMemberEnd; infer_instance

instance : Proceeds isIndexSignatureAhead := by
  unfold isIndexSignatureAhead
  refine .bind inferInstance fun _ => ?_
  split
  · infer_instance
  · refine .bind inferInstance fun k => ?_
    dsimp only
    split
    · refine .bind inferInstance fun _ => .bind inferInstance fun _ => ?_
      split <;> infer_instance
    · refine .bind inferInstance fun _ => ?_
      split
      · infer_instance
      · exact .bind inferInstance fun _ => inferInstance

instance : Stays isIndexSignature := by unfold isIndexSignature; infer_instance

instance (found : Bool) : Proceeds (modifierWordStep found) := by
  unfold modifierWordStep
  infer_instance

instance : Advances modifierWordStep := by
  refine .of_leads fun n found => ?_
  unfold modifierWordStep
  refine .token fun k =>
    .ite (fun hk => .known ?_ (.advance (.rest inferInstance))) fun _ => .stop id
  rintro rfl
  cases hk

instance : Proceeds isTypeMemberStart := by
  unfold isTypeMemberStart
  refine .bind inferInstance fun _ => ?_
  split <;> infer_instance

instance (isKeyAhead : Parse Bool) [Proceeds isKeyAhead] : Stays (isAccessor isKeyAhead) := by
  unfold isAccessor
  infer_instance

instance : Stays isPublicKey := by unfold isPublicKey; infer_instance

instance : Stays isConstructSignature := by unfold isConstructSignature; infer_instance

instance : Proceeds isMappedTypeAhead := by
  unfold isMappedTypeAhead
  refine .bind inferInstance fun _ => ?_
  split <;> infer_instance

instance : Proceeds mappedTypeEnd := by unfold mappedTypeEnd; infer_instance

instance (k : TokenKind) : Proceeds (signedToken? k) := by unfold signedToken?; infer_instance

instance : Stays isNamedTupleMember := by
  unfold isNamedTupleMember
  have : Proceeds (next >>= fun k => match k with
      | .colon => return true
      | .question => return (← next) = .colon
      | _ => return false) := by
    refine .bind inferInstance fun k => ?_
    split <;> infer_instance
  infer_instance

instance (start : Nat) : Proceeds (keywordType start) := by
  unfold keywordType
  infer_instance

instance : Stays isStaticBlock := by unfold isStaticBlock; infer_instance

instance : Stays isConstructor := by unfold isConstructor; infer_instance

instance : Stays isImplementsClause := by unfold isImplementsClause; infer_instance

instance : Stays isClassName := by unfold isClassName; infer_instance

instance : Proceeds asyncModifier := by unfold asyncModifier; infer_instance

instance : Proceeds evidenceAfterEmpty := by
  unfold evidenceAfterEmpty
  refine .bind inferInstance fun k => ?_
  split <;> infer_instance

instance : Proceeds evidenceAfterName := by
  unfold evidenceAfterName
  refine .bind inferInstance fun k => ?_
  split <;> infer_instance

instance (second : TokenKind) : Proceeds (evidenceAfterParenthesis second) := by
  unfold evidenceAfterParenthesis
  split <;> infer_instance

instance : Proceeds arrowEvidence := by
  unfold arrowEvidence
  refine .bind inferInstance fun _ => ?_
  dsimp only
  split
  · refine .bind inferInstance fun _ => ?_
    split
    · infer_instance
    · refine .bind inferInstance fun _ => ?_
      split <;> infer_instance
  · infer_instance

instance : Stays isAsyncBareArrow := by unfold isAsyncBareArrow; infer_instance

instance : Stays isAwaitOperator := by unfold isAwaitOperator; infer_instance

instance (depth : Nat) : Stays (markupDepth? depth) := by
  unfold markupDepth?
  refine .bind inferInstance fun k => ?_
  split <;> infer_instance

instance (depth : Nat) : Proceeds (markupStep depth) := by
  unfold markupStep
  refine .bind inferInstance fun _ => ?_
  split <;> infer_instance

/-- A piece of JSX does not go on at the end of the text. -/
theorem markupDepth_leads (n depth : Nat) :
    Leads (since n) (markupDepth? depth) fun depth? a => depth?.isSome = true → live n a := by
  unfold markupDepth?
  have goesOn {p : Parse (Option Nat)} [Proceeds p] :
      Leads (live n) p fun depth? a => depth?.isSome = true → live n a :=
    (Leads.keep inferInstance).imp fun _ _ ha _ => ha
  refine .token fun k => ?_
  split
  · exact .pure fun _ _ => nofun
  all_goals
    first
    | exact .known (by decide) goesOn
    | exact .known ‹_› goesOn

instance : Advances markupStep := by
  refine .of_leads fun n depth => ?_
  unfold markupStep
  refine .bind (markupDepth_leads n depth) fun depth? => ?_
  split
  · exact .stop id
  · exact .weaken (.advance (.rest inferInstance)) fun _ ha => ha rfl

instance (start : Nat) : Proceeds (skipMarkup start) := by unfold skipMarkup; infer_instance

instance (base : Node) : Stays (checkPowerBase base) := by
  unfold checkPowerBase
  refine .bind inferInstance fun _ => ?_
  split
  · infer_instance
  · split
    · infer_instance
    · split <;> infer_instance

instance (operand : Node) : Stays (checkCoalesceOperand operand) := by
  unfold checkCoalesceOperand
  split <;> infer_instance

instance (above : Precedence) : Proceeds (operatorLevel? above) := by
  unfold operatorLevel?
  infer_instance

instance : Stays hasYieldOperand := by unfold hasYieldOperand; infer_instance

instance (target : Node) : Proceeds (isAssignmentTo target) := by
  unfold isAssignmentTo
  infer_instance

instance : Stays isLetDeclaration := by unfold isLetDeclaration; infer_instance

instance : Stays isUsingDeclaration := by unfold isUsingDeclaration; infer_instance

instance : Stays isAwaitUsingDeclaration := by unfold isAwaitUsingDeclaration; infer_instance

instance : Stays isVariableKeyword := by
  unfold isVariableKeyword
  refine .bind inferInstance fun k => ?_
  split <;> infer_instance

instance : Proceeds variableKind := by
  unfold variableKind
  refine .bind inferInstance fun k => ?_
  split <;> infer_instance

instance (initializer : Option Node) : Stays (checkAmbientInitializer initializer) := by
  unfold checkAmbientInitializer
  split <;> infer_instance

instance (kind : VariableKind) (declaration : Node) :
    Stays (checkInitialized kind declaration) := by
  unfold checkInitialized
  split <;> infer_instance

theorem Stays.forM {α : Type} {f : α → Parse Unit} (h : ∀ x, Stays (f x)) (xs : List α) :
    Stays (xs.forM f) := by
  induction xs with
  | nil => exact inferInstanceAs (Stays (pure ()))
  | cons x xs ih => exact .bind (h x) fun _ => ih

instance (list : Node) : Stays (checkVariableList list) := by
  unfold checkVariableList
  split
  · have (kind : VariableKind) (declarations : List Node) :
        Stays (declarations.forM (checkInitialized kind)) := .forM inferInstance _
    infer_instance
  · infer_instance

instance : Stays isRequireCall := by unfold isRequireCall; infer_instance

instance : Stays isTypeOnlyImport := by
  unfold isTypeOnlyImport
  refine .bind inferInstance fun _ => .bind inferInstance fun _ => ?_
  dsimp only
  split
  · infer_instance
  · split <;> infer_instance

instance : Stays isTypeOnlyExport := by unfold isTypeOnlyExport; infer_instance

instance : Proceeds typeOnlySign := by unfold typeOnlySign; infer_instance

/-- On a name or string from a position on. -/
def nameSince (n : Nat) (a : Spot) : Prop :=
  since n a ∧ (a.token.isIdentifierOrKeyword = true ∨ a.token = .stringLiteral)

/-- An element of a list in braces that passes over the name or string with which it starts. -/
class TakesName {α : Type} (element : Parse α) : Prop where
  leads : ∀ n, Leads (nameSince n) element fun _ => past n

theorem identifierName_leads (n : Nat) :
    Leads (fun a => since n a ∧ a.token.isIdentifierOrKeyword = true) identifierName
      fun _ => past n := by
  unfold identifierName
  refine .ask (R := fun found a => found = a.token.isIdentifierOrKeyword) (fun _ => rfl)
    fun found => .ite (fun _ => .alive (fun a ha hend => ?_) ?_) fun h => ?_
  · have hname := ha.1.2
    rw [hend] at hname
    cases hname
  · exact .stay fun _ => .stay fun _ => .stay fun _ => .advance (.pure fun _ ha => ha)
  · exact .of_false fun a ha => h (ha.2.trans ha.1.2)

theorem stringLiteral_leads (n : Nat) :
    Leads (fun a => since n a ∧ a.token = .stringLiteral) stringLiteral fun _ => past n := by
  unfold stringLiteral
  refine .stay fun _ => .ask (R := fun found a => found = decide (a.token = .stringLiteral))
    (fun _ => rfl) fun found => .ite (fun _ => ?_) fun h => ?_
  · refine .weaken (C := live n) ?_ fun a ha => .inr ⟨ha.1.1, by rw [ha.1.2]; decide⟩
    exact .stay fun _ => .stay fun _ => .stay fun _ => .advance (.pure fun _ ha => ha)
  · exact .of_false fun a ha => h (ha.2.trans (decide_eq_true ha.1.2))

instance : Proceeds exportName := by unfold exportName; infer_instance

instance : TakesName exportName := by
  refine ⟨fun n => ?_⟩
  unfold exportName
  refine .ask (R := fun found a => found = decide (a.token = .stringLiteral)) (fun _ => rfl)
    fun found => .ite (fun h => ?_) fun h => ?_
  · refine .bind (.weaken (stringLiteral_leads n) fun a ha => ⟨ha.1.1, ?_⟩) fun _ =>
      .pure fun _ ha => ha
    exact of_decide_eq_true (ha.2.symm.trans h)
  · refine .bind (.weaken (identifierName_leads n) fun a ha => ⟨ha.1.1, ?_⟩) fun _ =>
      .pure fun _ ha => ha
    exact ha.1.2.resolve_right fun hs => h (ha.2.trans (decide_eq_true hs))

instance (word : ExportName) : Proceeds (specifierAfterType word) := by
  unfold specifierAfterType
  refine .bind inferInstance fun _ => ?_
  split <;> infer_instance

instance : Proceeds firstNames := by unfold firstNames; infer_instance

instance : Proceeds specifierNames := by unfold specifierNames; infer_instance

instance (name : ExportName) : Stays (localName name) := by
  unfold localName
  split <;> infer_instance

instance : Proceeds importSpecifier := by unfold importSpecifier; infer_instance

instance : Proceeds exportSpecifier := by unfold exportSpecifier; infer_instance

theorem specifierNames_leads (n : Nat) :
    Leads (nameSince n) specifierNames fun _ => past n := by
  unfold specifierNames
  refine .bind (R := fun _ => past n) ?_ fun _ => .keep inferInstance
  unfold firstNames
  exact .bind (TakesName.leads n) fun _ => .keep inferInstance

instance : TakesName importSpecifier := by
  refine ⟨fun n => ?_⟩
  unfold importSpecifier
  exact .stay fun _ => .bind (specifierNames_leads n) fun _ => .keep inferInstance

instance : TakesName exportSpecifier := by
  refine ⟨fun n => ?_⟩
  unfold exportSpecifier
  exact .stay fun _ => .bind (specifierNames_leads n) fun _ => .keep inferInstance

instance {α : Type} (element : Parse α) [Proceeds element] : Proceeds (specifierStep element) := by
  unfold specifierStep
  refine .bind inferInstance fun _ => ?_
  split <;> infer_instance

instance {α : Type} (element : Parse α) [Proceeds element] [h : TakesName element] :
    Gathers (specifierStep element) := by
  refine .of_leads fun n => ?_
  unfold specifierStep
  refine .atClose (.stop nofun) ?_
  refine .ask (R := fun found a => found = a.token.isIdentifierOrKeyword) (fun _ => rfl)
    fun isWord => .ask (R := fun found a => found = decide (a.token = .stringLiteral))
    (fun _ => rfl) fun isString => .ite (fun _ => ?_) fun hname => ?_
  · refine .weaken (C := live n) ?_ fun _ ha => ha.1.1
    exact .stay fun _ => .stay fun _ => .ite (fun _ => .stop nofun) fun _ =>
      .advance (.rest inferInstance)
  · refine .bind (.weaken (h.leads n) fun a ha => ⟨From.le ha.1.1, ?_⟩) fun _ => .rest inferInstance
    cases hw : a.token.isIdentifierOrKeyword with
    | true => exact .inl rfl
    | false =>
        refine .inr (of_decide_eq_true (ha.2.symm.trans ?_))
        rw [ha.1.2, hw] at hname
        simpa using hname

instance {α : Type} (element : Parse α) [Proceeds element] [TakesName element] :
    Proceeds (specifierList element) := by
  unfold specifierList
  infer_instance

instance : Proceeds importBindings? := by unfold importBindings?; infer_instance

instance : Proceeds moduleReference := by unfold moduleReference; infer_instance

instance (start : Nat) (ms : Modifiers) (isTypeOnly : Bool) (name : Identifier) :
    Proceeds (importEqualsRest start ms isTypeOnly name) := by
  unfold importEqualsRest
  infer_instance

instance : Proceeds identifier? := by unfold identifier?; infer_instance

instance (name? : Option Identifier) : Proceeds (bindingsAfter? name?) := by
  unfold bindingsAfter?
  infer_instance

instance : Proceeds importName? := by unfold importName?; dsimp only; infer_instance

instance : Proceeds exportClause := by
  unfold exportClause
  refine .bind inferInstance fun _ => ?_
  split <;> infer_instance

instance : Proceeds declarationEvidence? := by
  unfold declarationEvidence?
  refine .bind inferInstance fun k => ?_
  split <;> infer_instance

instance (found : Bool) : Proceeds (declarationStep found) := by
  unfold declarationStep
  refine .bind inferInstance fun found => ?_
  split <;> infer_instance

/-- Only behind a word it is open whether a declaration starts. -/
theorem declarationEvidence_leads (n : Nat) :
    Leads (since n) declarationEvidence? (moved (fun evidence => evidence = none) n) := by
  unfold declarationEvidence?
  refine .token fun k => ?_
  split
  all_goals
    first
    | exact .stop nofun
    | exact .known (by decide) (.advance (.rest inferInstance))

instance : Advances declarationStep := by
  refine .of_leads fun n found => ?_
  unfold declarationStep
  refine .bind (declarationEvidence_leads n) fun evidence => ?_
  split
  · exact .stop id
  · exact .pure fun _ ha _ => ha rfl

instance : Stays isDeclarationStart := by unfold isDeclarationStart; infer_instance

instance (ms : Modifiers) : Stays (checkStatementModifiers ms) := by
  unfold checkStatementModifiers
  split <;> infer_instance

instance : Stays isLabel := by unfold isLabel; infer_instance

instance (e : Node) : Stays (isStrayWord e) := by unfold isStrayWord; infer_instance

instance (e : Node) : Proceeds (expressionEnd e) := by unfold expressionEnd; infer_instance

instance : Stays declaresVariables := by unfold declaresVariables; infer_instance

instance (initializer : Option Node) : Stays (checkInitializer initializer) := by
  unfold checkInitializer
  split <;> infer_instance

instance (handler finalizer : Option Node) : Stays (checkClauses handler finalizer) := by
  unfold checkClauses
  infer_instance

instance : Stays isLabeledStatement := by unfold isLabeledStatement; infer_instance

instance (start : Nat) : Proceeds (debuggerStatement start) := by
  unfold debuggerStatement
  infer_instance

instance (start : Nat) (form : Option Identifier → Form) : Proceeds (jumpStatement start form) := by
  unfold jumpStatement
  infer_instance

end Erasure.Parse

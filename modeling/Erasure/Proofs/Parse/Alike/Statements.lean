import Erasure.Proofs.Parse.Alike.Operators

/-!
Declarations and statements over two grammars, and the progress of the lists in them.
-/

namespace Erasure.Parse

set_option synthInstance.maxSize 5000

variable {g g' : Grammar} [Lawful g]

instance : Alike g g' (importAttribute g) (importAttribute g') := by
  unfold importAttribute
  infer_instance

instance : TakesName (importAttribute g) := by
  refine ⟨fun n => ?_⟩
  unfold importAttribute
  refine .weaken (C := live n) (.stay fun _ => .stay fun _ => .advance (.keep (proceeds g)))
    fun a ⟨hsince, hname⟩ => .inr ⟨hsince, fun hend => ?_⟩
  rw [hend] at hname
  obtain h | h := hname <;> cases h

section
variable {α : Type} {element element' : Parse α}

instance [Alike g g' element element'] :
    Alike g g' (specifierStep element) (specifierStep element') := by
  unfold specifierStep
  infer_instance

instance [h : Alike g g' element element'] [TakesName element] :
    Alike g g' (specifierList element) (specifierList element') := by
  have : Proceeds element := h.proceeds
  unfold specifierList
  infer_instance

end

instance : Alike g g' (importAttributes? g) (importAttributes? g') := by
  unfold importAttributes?
  dsimp only
  infer_instance

instance (start clauseStart : Nat) (ms : Modifiers) (isTypeOnly : Bool)
    (name? : Option Identifier) :
    Alike g g' (importFrom g start clauseStart ms isTypeOnly name?)
      (importFrom g' start clauseStart ms isTypeOnly name?) := by
  unfold importFrom
  infer_instance

instance (start : Nat) (ms : Modifiers) :
    Alike g g' (importClauseRest g start ms) (importClauseRest g' start ms) := by
  unfold importClauseRest
  dsimp only
  refine .bind inferInstance fun _ => .bind inferInstance fun ⟨name?, _⟩ => ?_
  cases name? <;> infer_instance

instance (start : Nat) (ms : Modifiers) :
    Alike g g' (importDeclaration g start ms) (importDeclaration g' start ms) := by
  unfold importDeclaration
  infer_instance

instance (specifier : Option StringLiteral) :
    Alike g g' (attributesAfter? g specifier) (attributesAfter? g' specifier) := by
  unfold attributesAfter?
  infer_instance

instance (start : Nat) (ms : Modifiers) :
    Alike g g' (exportDeclaration g start ms) (exportDeclaration g' start ms) := by
  unfold exportDeclaration
  infer_instance

instance (start : Nat) (isEquals : Bool) :
    Alike g g' (exportAssignment g start isEquals) (exportAssignment g' start isEquals) := by
  unfold exportAssignment
  infer_instance

instance (start : Nat) (ms : Modifiers) :
    Alike g g' (exportForm g start ms) (exportForm g' start ms) := by
  unfold exportForm
  refine .bind inferInstance fun _ => .bind inferInstance fun _ => ?_
  split <;> infer_instance

instance : Alike g g' (variableDeclaration g) (variableDeclaration g') := by
  unfold variableDeclaration
  infer_instance

instance (rev : List Node) : Alike g g' (variableStep g rev) (variableStep g' rev) := by
  unfold variableStep
  infer_instance

instance : Advances (variableStep g) := by
  refine .of_leads fun n rev => ?_
  unfold variableStep
  refine .stay fun _ => .ite (fun _ => .stay fun _ => .stop id) fun _ =>
    .step (proceeds g) fun _ => ?_
  exact .accept (by decide) (.rest inferInstance) (.stop id)

instance : Alike g g' (variableList g) (variableList g') := by
  unfold variableList
  infer_instance

instance (start : Nat) (ms : Modifiers) :
    Alike g g' (variableStatement g start ms) (variableStatement g' start ms) := by
  unfold variableStatement
  infer_instance

instance : Alike g g' (declarationHead g) (declarationHead g') := by
  unfold declarationHead
  infer_instance

instance (start : Nat) (ms : Modifiers) :
    Alike g g' (functionDeclaration g start ms) (functionDeclaration g' start ms) := by
  unfold functionDeclaration
  infer_instance

instance (start : Nat) (ds : List Node) (ms : Modifiers) :
    Alike g g' (classDeclaration g start ds ms) (classDeclaration g' start ds ms) := by
  unfold classDeclaration
  infer_instance

instance : Alike g g' (interfaceBases g) (interfaceBases g') := by
  unfold interfaceBases
  infer_instance

instance (start : Nat) (ms : Modifiers) :
    Alike g g' (interfaceDeclaration g start ms) (interfaceDeclaration g' start ms) := by
  unfold interfaceDeclaration
  infer_instance

instance (start : Nat) (ms : Modifiers) :
    Alike g g' (typeAlias g start ms) (typeAlias g' start ms) := by
  unfold typeAlias
  infer_instance

instance : Alike g g' (enumMember g) (enumMember g') := by
  unfold enumMember
  infer_instance

/-- A token that is a key or starts one. -/
def isKeyToken (k : TokenKind) : Prop :=
  k.isIdentifierOrKeyword = true ∨ k ∈ [.stringLiteral, .numericLiteral, .bigIntLiteral] ∨
    k ∈ [.openBracket, .privateIdentifier]

theorem isKey_leads (a : Spot) :
    Leads (fun b => b = a) isKey fun found _ => found = true → isKeyToken a.token := by
  unfold isKey isLiteralKey
  refine .bind (R := fun found b => b = a ∧ (found = true → isKeyToken a.token)) ?_ fun found =>
    .branch (fun h => .pure fun b hb _ => hb.2 h) fun _ => ?_
  · refine .ask (R := fun found b => found = b.token.isIdentifierOrKeyword) (fun _ => rfl)
      fun found => .branch (fun h => .pure fun b hb => ⟨hb.1, fun _ => ?_⟩) fun _ => ?_
    · exact .inl (hb.1 ▸ hb.2 ▸ h)
    · exact fun s hr hs => ⟨hr, hs.1, fun h => .inr (.inl (hs.1 ▸ mem_of_isOneOf h))⟩
  · exact fun s hr hs => ⟨hr, fun h => .inr (.inr (hs.1 ▸ mem_of_isOneOf h))⟩

/-- A key is passed over. -/
theorem propertyKey_leads (n : Nat) :
    Leads (fun a => since n a ∧ isKeyToken a.token) (propertyKey g) fun _ => past n := by
  unfold propertyKey
  refine .stay fun _ => .token fun k => ?_
  split
  case h_1 =>
    exact .bind (.weaken (stringLiteral_leads n) fun _ ha => ⟨ha.1.1, ha.2⟩) fun _ =>
      .keep inferInstance
  case h_4 =>
    unfold takeIdentifier
    refine .known (by decide) (.bind ?_ fun _ => .keep inferInstance)
    exact .stay fun _ => .stay fun _ => .stay fun _ => .advance (.pure fun _ ha => ha)
  case h_5 => exact .known (by decide) (.advance (.keep (proceeds g)))
  case h_6 =>
    refine .bind (.weaken (identifierName_leads n) fun a ha => ⟨ha.1.1, ?_⟩) fun _ =>
      .keep inferInstance
    obtain ⟨⟨_, hkey⟩, hk⟩ := ha
    obtain hname | hliteral | hother := hkey
    · exact hname
    · simp_all
    · simp_all
  all_goals exact .known (by decide) (.stay fun _ => .advance (.keep inferInstance))

instance : Gathers (enumMemberStep g) := by
  refine .of_leads fun n => ?_
  unfold enumMemberStep
  refine .atClose (.stop nofun) (.learn isKey_leads fun found => .ite (fun _ => ?_) fun h => ?_)
  · refine .weaken (C := live n) ?_ fun _ ha => ha.1
    exact .stay fun _ => .stay fun _ => .ite (fun _ => .stop nofun) fun _ =>
      .advance (.rest inferInstance)
  · refine .bind (R := fun _ => past n) ?_ fun _ => .rest inferInstance
    unfold enumMember
    refine .stay fun _ => .bind (.weaken (propertyKey_leads n) fun a ha => ⟨From.le ha.1, ?_⟩)
      fun _ => .keep (proceeds g)
    exact ha.2 (by simpa using h)

instance : Alike g g' (enumMemberStep g) (enumMemberStep g') := by
  unfold enumMemberStep
  infer_instance

instance : Alike g g' (enumMembers g) (enumMembers g') := by
  unfold enumMembers
  infer_instance

instance (start : Nat) (ms : Modifiers) :
    Alike g g' (enumDeclaration g start ms) (enumDeclaration g' start ms) := by
  unfold enumDeclaration
  infer_instance

instance : Alike g g' (moduleStatements g) (moduleStatements g') := by
  unfold moduleStatements
  infer_instance

instance : Alike g g' (moduleBlock g) (moduleBlock g') := by
  unfold moduleBlock
  infer_instance

instance (ms : Modifiers) : Alike g g' (namespaceContent g ms) (namespaceContent g' ms) := by
  unfold namespaceContent
  infer_instance

instance (start : Nat) (ms : Modifiers) :
    Alike g g' (namespaceBody g start ms) (namespaceBody g' start ms) := by
  unfold namespaceBody
  infer_instance

instance : Alike g g' (stringModuleBody? g) (stringModuleBody? g') := by
  unfold stringModuleBody?
  infer_instance

instance (start : Nat) (ms : Modifiers) :
    Alike g g' (stringModule g start ms) (stringModule g' start ms) := by
  unfold stringModule
  infer_instance

instance (start : Nat) (ms : Modifiers) :
    Alike g g' (moduleDeclaration g start ms) (moduleDeclaration g' start ms) := by
  unfold moduleDeclaration
  infer_instance

instance (start : Nat) (ms : Modifiers) :
    Alike g g' (moduleStatement g start ms) (moduleStatement g' start ms) := by
  unfold moduleStatement
  infer_instance

instance (start : Nat) (ds : List Node) (ms : Modifiers) :
    Alike g g' (declarationRest g start ds ms) (declarationRest g' start ds ms) := by
  unfold declarationRest
  refine .bind inferInstance fun _ => ?_
  split <;> infer_instance

instance : Alike g g' (declaration g) (declaration g') := by
  unfold declaration
  infer_instance

instance (start : Nat) :
    Alike g g' (expressionStatement g start) (expressionStatement g' start) := by
  unfold expressionStatement
  infer_instance

instance (start : Nat) : Alike g g' (returnStatement g start) (returnStatement g' start) := by
  unfold returnStatement
  infer_instance

instance (start : Nat) : Alike g g' (throwStatement g start) (throwStatement g' start) := by
  unfold throwStatement
  infer_instance

instance (start : Nat) : Alike g g' (labeledStatement g start) (labeledStatement g' start) := by
  unfold labeledStatement
  infer_instance

instance : Alike g g' (condition g) (condition g') := by
  unfold condition
  infer_instance

instance (start : Nat) : Alike g g' (ifStatement g start) (ifStatement g' start) := by
  unfold ifStatement
  infer_instance

instance (start : Nat) : Alike g g' (doStatement g start) (doStatement g' start) := by
  unfold doStatement
  infer_instance

instance (start : Nat) : Alike g g' (whileStatement g start) (whileStatement g' start) := by
  unfold whileStatement
  infer_instance

instance (start : Nat) : Alike g g' (withStatement g start) (withStatement g' start) := by
  unfold withStatement
  infer_instance

instance : Alike g g' (loopVariables g) (loopVariables g') := by
  unfold loopVariables
  infer_instance

instance : Alike g g' (forInitializer? g) (forInitializer? g') := by
  unfold forInitializer?
  infer_instance

instance (start : Nat) (isAwait : Bool) (initializer : Node) :
    Alike g g' (forOfRest g start isAwait initializer)
      (forOfRest g' start isAwait initializer) := by
  unfold forOfRest
  infer_instance

instance (start : Nat) (initializer : Node) :
    Alike g g' (forInRest g start initializer) (forInRest g' start initializer) := by
  unfold forInRest
  infer_instance

instance (start : Nat) (initializer : Option Node) :
    Alike g g' (forRest g start initializer) (forRest g' start initializer) := by
  unfold forRest
  infer_instance

instance (start : Nat) : Alike g g' (forStatement g start) (forStatement g' start) := by
  unfold forStatement
  refine .bind inferInstance fun _ => .bind inferInstance fun _ => .bind inferInstance fun _ =>
    .bind inferInstance fun initializer? => ?_
  split <;> infer_instance

instance : Alike g g' (catchVariable g) (catchVariable g') := by
  unfold catchVariable
  infer_instance

instance : Alike g g' (catchClause g) (catchClause g') := by
  unfold catchClause
  infer_instance

instance (start : Nat) : Alike g g' (tryStatement g start) (tryStatement g' start) := by
  unfold tryStatement
  infer_instance

instance : Alike g g' (caseTest? g) (caseTest? g') := by
  unfold caseTest?
  infer_instance

theorem caseTest_leads (n : Nat) : Leads (live n) (caseTest? g) fun _ => past n := by
  unfold caseTest?
  exact .ifAccept (by decide) (.keep (proceeds g)) (.advance (.pure fun _ ha => ha))

instance : Alike g g' (caseClause g) (caseClause g') := by
  unfold caseClause
  infer_instance

instance (rev : List Node) : Alike g g' (switchStep g rev) (switchStep g' rev) := by
  unfold switchStep
  infer_instance

instance : Advances (switchStep g) := by
  refine .of_leads fun n rev => ?_
  unfold switchStep
  refine .ifAtClose (.stop id)
    (.stay fun _ => .ite (fun _ => .stay fun _ => .advance ?_) fun _ => ?_)
  · exact .rest inferInstance
  · refine .bind (R := fun _ => past n) ?_ fun _ => .rest inferInstance
    unfold caseClause
    exact .stay fun _ => .bind (caseTest_leads n) fun _ => .keep (proceeds g)

instance : Alike g g' (switchClauses g) (switchClauses g') := by
  unfold switchClauses
  infer_instance

instance (start : Nat) : Alike g g' (switchStatement g start) (switchStatement g' start) := by
  unfold switchStatement
  infer_instance

instance (start : Nat) : Alike g g' (otherStatement g start) (otherStatement g' start) := by
  unfold otherStatement
  infer_instance

instance : Alike g g' (statementInner g) (statementInner g') := by
  unfold statementInner
  refine .bind inferInstance fun _ => .bind inferInstance fun _ => ?_
  split <;> infer_instance

instance : Alike g g' (statement g) (statement g') := by
  unfold statement
  infer_instance

end Erasure.Parse

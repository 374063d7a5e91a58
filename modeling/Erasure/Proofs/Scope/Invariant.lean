import Erasure.Scope.Binder

/-!
Invariants of binding. The binder changes bindings in few ways; what all of them keep holds of the
bindings of every file.
-/

namespace Erasure

/-- Declarations of what has a place of its own in the output: classes, functions, enums and
namespaces. Their scope is the one that they are written in. -/
def DeclarationKind.isPlaced : DeclarationKind → Bool
  | .class_ | .function _ | .enum _ | .namespace_ _ => true
  | _ => false

/-- The tables of symbols, which hold exports and members. -/
def TableRef.isOwned : TableRef → Bool
  | .locals _ => false
  | .exports _ | .members _ => true

namespace Binder

/-- Declare a name in the table of its owner, or of the scope where it has none. -/
def declareFor (owner? : Option SymbolId) (scope : ScopeId) (name : String) (excluded : SymbolFlags)
    (isExported : Bool) (d : Declaration) : Binder SymbolId := do
  let table := (owner?.map TableRef.exports).getD (.locals scope)
  let id ← modifyGet fun b => b.declareExcluding table name excluded d
  if let some owner := owner? then shareExport scope name id owner
  if isExported then modify fun b => b.modifySymbol id fun s => { s with isExported := true }
  return id

/-- The owner of a name is the namespace whose block exports it. -/
theorem declareExcluding_eq (p : BinderPlace) (b : Bindings) (scope : ScopeId) (name : Identifier)
    (kind : DeclarationKind) (excluded : SymbolFlags) (span : Span) (isExported : Bool) :
    let rest owner? := declareFor owner? scope name.text excluded isExported
      (declaration name.id kind name.span span p b).1
    declareExcluding scope name kind excluded span isExported p b =
      (if isExported && decide (scope = p.scope) then currentNamespace? >>= rest
        else rest none) p b :=
  rfl

/-- Declare what one declaration of a list of variables binds. -/
def declareVariable (kind : VariableKind) (scope : ScopeId) (isExported : Bool) (n : Node) :
    Binder Unit :=
  match n.form with
  | .variableDeclaration name _ _ _ =>
      declareBinding scope name (.ofVariable kind) n.span isExported
  | _ => pure ()

theorem declareVariables_eq (kind : VariableKind) (ns : List Node) (isExported : Bool)
    (p : BinderPlace) (b : Bindings) :
    declareVariables kind ns isExported p b = ns.forM (declareVariable kind
      (if kind = .var then b.functionContainer p.scope else p.scope) isExported) p b :=
  rfl

/-- Declare what an import clause binds besides the default export. -/
def declareBound (clause : ImportClause) (span : Span) : Binder Unit :=
  match clause.bindings? with
  | some (.all name) => declareAlias name clause.isTypeOnly span false
  | some (.named specifiers) =>
      specifiers.forM fun s => declareAlias s.name (clause.isTypeOnly || s.isTypeOnly) s.span false
  | none => pure ()

theorem declareImport_eq (clause : ImportClause) (span : Span) :
    declareImport clause span = (do
      clause.name?.forM fun name => declareAlias name clause.isTypeOnly span false
      declareBound clause span) := by
  unfold declareImport
  cases clause.name? <;> rfl

/-- A name is declared in the scope. What a block of a namespace exports is declared in the
namespace and shared with the block. -/
theorem declareExcluding_cases (p : BinderPlace) (b : Bindings) (scope : ScopeId)
    (name : Identifier)
    (kind : DeclarationKind) (excluded : SymbolFlags) (span : Span) (isExported : Bool) :
    let d := (declaration name.id kind name.span span p b).1
    let mark (r : SymbolId × Bindings) : SymbolId × Bindings :=
      (r.1, if isExported then r.2.modifySymbol r.1 fun s => { s with isExported := true } else r.2)
    declareExcluding scope name kind excluded span isExported p b =
        mark (b.declareExcluding (.locals scope) name.text excluded d) ∨
      ∃ owner, scope = p.scope ∧ (b.scope p.scope).container? = some owner ∧
        declareExcluding scope name kind excluded span isExported p b =
          let r := b.declareExcluding (.exports owner) name.text excluded d
          mark (r.1, (shareExport scope name.text r.1 owner p r.2).2) := by
  intro d mark
  let rest (owner? : Option SymbolId) := declareFor owner? scope name.text excluded isExported d
  have hmark : ∀ (c : Bindings) (y : SymbolId), ((do
      if isExported then modify fun b => b.modifySymbol y fun s => { s with isExported := true }
      return y) : Binder SymbolId) p c = mark (y, c) := by
    intro c y
    dsimp only [mark]
    split <;> rfl
  have hlocals : rest none p b = mark (b.declareExcluding (.locals scope) name.text excluded d) :=
    hmark _ _
  have hexports : ∀ owner, rest (some owner) p b =
      let r := b.declareExcluding (.exports owner) name.text excluded d
      mark (r.1, (shareExport scope name.text r.1 owner p r.2).2) := fun owner => hmark _ _
  rw [declareExcluding_eq]
  split
  · rename_i hshared
    have hscope := of_decide_eq_true (Bool.and_eq_true_iff.mp hshared).2
    have hnamespace : (currentNamespace? >>= rest) p b =
        rest (if (b.scope p.scope).kind = .module_ then (b.scope p.scope).container?
          else none) p b :=
      rfl
    rw [hnamespace]
    split
    · cases howner : (b.scope p.scope).container? with
      | none => exact .inl hlocals
      | some owner => exact .inr ⟨owner, hscope, rfl, hexports owner⟩
    · exact .inl hlocals
  · exact .inl hlocals

/-- A step after which a property of the bindings holds if it did before. -/
def Keeps (I : Bindings → Prop) {α : Type} (m : Binder α) : Prop :=
  ∀ (p : BinderPlace) (b : Bindings), I b → I (m p b).2

/-- A property of bindings that the changes of the binder to known scopes keep. -/
structure IsStable (I : Bindings → Prop) : Prop where
  newSymbol : ∀ b name flag, I b → I (b.newSymbol name flag).2
  setSymbolOf : ∀ b node id, I b → I (b.setSymbolOf node id)
  setContainer : ∀ b scope owner?, I b →
    I (b.modifyScope scope fun s => { s with container? := owner? })
  setParent : ∀ b id owner, I b → I (b.modifySymbol id fun s => { s with parent? := some owner })
  augment : ∀ b, I b → I { b with augmentsGlobals := true }
  declareOwned : ∀ b table name d, table.isOwned = true → d.kind.isPlaced = false → I b →
    I (b.declare table name d).2
  declareName : ∀ (p : BinderPlace) b scope name kind excluded span isExported,
    (kind.isPlaced = true → scope = p.scope) → I b →
      I (declareExcluding scope name kind excluded span isExported p b).2

/-- A property of bindings that the changes of the binder keep. -/
structure IsInvariant (I : Bindings → Prop) : Prop extends IsStable I where
  newScope : ∀ b kind parent? node, I b → I (b.newScope kind parent? node).2

variable {I : Bindings → Prop} {α β γ : Type}

namespace Keeps

theorem pure (a : α) : Keeps I (Pure.pure a) := fun _ _ hb => hb

theorem bind {m : Binder α} {k : α → Binder β} (h : Keeps I m) (hk : ∀ a, Keeps I (k a)) :
    Keeps I (m >>= k) :=
  fun p b hb => hk _ p _ (h p b hb)

theorem forM {as : List γ} {f : γ → Binder Unit} (h : ∀ a ∈ as, Keeps I (f a)) :
    Keeps I (as.forM f) := by
  induction as with
  | nil => exact .pure ()
  | cons a as ih =>
      obtain ⟨ha, has⟩ := List.forall_mem_cons.mp h
      exact .bind ha fun _ => ih has

theorem option {a? : Option γ} {f : γ → Binder Unit} (h : ∀ a, Keeps I (f a)) :
    Keeps I (a?.forM f) := by
  cases a? with
  | none => exact .pure ()
  | some a => exact h a

theorem change {f : Bindings → Bindings} (h : ∀ b, I b → I (f b)) :
    Keeps I (modify f : Binder Unit) := fun _ b hb => h b hb

theorem changeGet {f : Bindings → α × Bindings} (h : ∀ b, I b → I (f b).2) :
    Keeps I (modifyGet f : Binder α) := fun _ b hb => h b hb

theorem currentScope : Keeps I currentScope := fun _ _ hb => hb

theorem withModifiers {m : Binder α} (ms : Modifiers) (h : Keeps I m) :
    Keeps I (withModifiers ms m) := fun _ b hb => h _ b hb

end Keeps

namespace IsStable
variable (hI : IsStable I)
include hI

theorem declareHere (name : Identifier) (kind : DeclarationKind) (span : Span)
    (isExported : Bool) : Keeps I (declareHere name kind span isExported) :=
  fun p b hb => hI.declareName p b p.scope name kind _ span isExported (fun _ => rfl) hb

theorem declareBinding (scope : ScopeId) (n : Node) {kind : DeclarationKind}
    (hkind : kind.isPlaced = false) (span : Span) (isExported : Bool) :
    Keeps I (declareBinding scope n kind span isExported) :=
  .forM fun i _ => .bind
    (fun p b hb => hI.declareName p b scope i kind _ span isExported (by simp [hkind]) hb)
    fun _ => .pure ()

theorem declareVariables (kind : VariableKind) (ns : List Node) (isExported : Bool) :
    Keeps I (declareVariables kind ns isExported) := by
  refine .bind .currentScope fun here => .bind (fun _ _ hb => hb) fun b => .forM fun n _ => ?_
  split
  · exact hI.declareBinding _ _ (by cases kind <;> rfl) _ _
  · exact .pure ()

theorem declareTypeParameter (excluded : SymbolFlags) (n : Node) :
    Keeps I (declareTypeParameter excluded n) := by
  unfold Binder.declareTypeParameter
  split
  · exact .bind .currentScope fun s => .bind
      (fun p b hb => hI.declareName p b s _ _ excluded _ _ (fun h => by cases h) hb)
      fun _ => .pure ()
  · exact .pure ()

theorem declareTypeParameters (ns : List Node) : Keeps I (declareTypeParameters ns) :=
  .forM fun n _ => hI.declareTypeParameter _ n

theorem declareParameter (n : Node) : Keeps I (declareParameter n) := by
  unfold Binder.declareParameter
  dsimp only
  split
  · exact .bind .currentScope fun s => hI.declareBinding s _ rfl _ _
  · exact .pure ()

theorem declareAlias (name : Identifier) (isTypeOnly : Bool) (span : Span) (isExported : Bool) :
    Keeps I (declareAlias name isTypeOnly span isExported) :=
  .bind (hI.declareHere name _ span isExported) fun _ => .pure ()

theorem declareBound (clause : ImportClause) (span : Span) :
    Keeps I (declareBound clause span) := by
  unfold Binder.declareBound
  split
  · exact hI.declareAlias _ _ _ _
  · exact .forM fun s _ => hI.declareAlias _ _ _ _
  · exact .pure ()

theorem declareImport (clause : ImportClause) (span : Span) :
    Keeps I (declareImport clause span) := by
  rw [declareImport_eq]
  exact .bind (.option fun name => hI.declareAlias name _ _ _) fun _ => hI.declareBound clause span

theorem declareMember {t : TableRef} (ht : t.isOwned = true) (member key : Node)
    {kind : DeclarationKind} (hkind : kind.isPlaced = false) :
    Keeps I (declareMember t member key kind) := by
  unfold Binder.declareMember
  split
  · exact fun p b hb => hI.declareOwned b t _ _ ht hkind hb
  · exact .pure none

theorem declareParameterProperty (cls : SymbolId) (n : Node) :
    Keeps I (declareParameterProperty cls n) := by
  unfold Binder.declareParameterProperty
  dsimp only
  split
  · split
    · exact fun p b hb => hI.declareOwned b (.members cls) _ _ rfl rfl hb
    · exact .pure ()
  · exact .pure ()

theorem classExpressionSymbol (n : Node) : Keeps I (classExpressionSymbol n) := by
  unfold Binder.classExpressionSymbol
  split
  · exact hI.declareHere _ _ _ _
  · exact .changeGet fun b hb => hI.newSymbol b _ _ hb

theorem moduleSymbol? (n : Node) (ms : Modifiers) (name : ModuleName) (isGlobal : Bool) :
    Keeps I (moduleSymbol? n ms name isGlobal) := by
  have hglobal : Keeps I (do
      modify fun b => { b with augmentsGlobals := true }
      return (none : Option SymbolId) : Binder _) :=
    .bind (.change hI.augment) fun _ => .pure none
  unfold Binder.moduleSymbol?
  cases name with
  | identifier name =>
      dsimp only
      split
      · exact .bind (hI.declareHere name _ _ _) fun id => .pure (some id)
      · exact hglobal
  | string _ => exact hglobal

end IsStable

namespace IsInvariant
variable (hI : IsInvariant I)
include hI

theorem inScope {step : Binder Unit} (kind : ScopeKind) (node : NodeId) (h : Keeps I step) :
    Keeps I (inScope kind node step) :=
  fun _ b hb => h _ _ (hI.newScope b kind _ node hb)

section
variable {walk : Node → Binder Unit} (hwalk : ∀ n, Keeps I (walk n))
include hwalk

theorem functionParts (f : FunctionLike) : Keeps I (functionParts walk f) := by
  refine .bind (hI.declareTypeParameters _) fun _ => .bind (.forM fun n _ => hwalk n) fun _ => ?_
  refine .bind (.forM fun n _ => hI.declareParameter n) fun _ => ?_
  refine .bind (.forM fun n _ => hwalk n) fun _ => .bind (.option hwalk) fun _ => ?_
  split
  · exact .pure ()
  · split
    · exact .forM fun n _ => hwalk n
    · exact hwalk _

theorem function (n : Node) (name? : Option Identifier) : Keeps I (function walk n name?) := by
  refine hI.inScope .function n.id ?_
  cases name? with
  | none => exact hI.functionParts hwalk n.func
  | some name => exact .bind (hI.declareHere name _ _ _) fun _ => hI.functionParts hwalk n.func

theorem functionMember {t : TableRef} (ht : t.isOwned = true) (member key func : Node)
    {kind : DeclarationKind} (hkind : kind.isPlaced = false) :
    Keeps I (functionMember walk t member key func kind) :=
  .bind (hI.declareMember ht member key hkind) fun _ =>
    .bind (hwalk key) fun _ => hI.function hwalk func none

theorem memberParts (cls : SymbolId) (n : Node) (ms : Modifiers) (member : Form) :
    Keeps I (memberParts walk cls n ms member) := by
  have htable : (if ms.isStatic then TableRef.exports cls else .members cls).isOwned = true := by
    split <;> rfl
  unfold Binder.memberParts
  cases member with
  | propertyMember key _ _ type initializer =>
      refine .bind (hI.declareMember htable n key rfl) fun _ => .bind (hwalk key) fun _ => ?_
      exact .bind (.option hwalk) fun _ => .option hwalk
  | methodMember key _ func | getterMember key func | setterMember key func =>
      exact hI.functionMember hwalk htable n key func rfl
  | constructorMember func =>
      exact .bind (.forM fun p _ => hI.declareParameterProperty cls p) fun _ =>
        hI.function hwalk func none
  | indexMember parameters type =>
      exact .bind (.forM fun p _ => .option hwalk) fun _ => .option hwalk
  | staticBlock body =>
      dsimp only
      split
      · exact hI.inScope .function body.id (.forM fun n _ => hwalk n)
      · exact .pure ()
  | _ => exact .pure ()

theorem classMember (cls : SymbolId) (n : Node) : Keeps I (classMember walk cls n) := by
  unfold Binder.classMember
  split
  · exact .bind (.forM fun d _ => hwalk d) fun _ =>
      .withModifiers _ (hI.memberParts hwalk cls n _ _)
  · exact .pure ()

theorem classParts (n : Node) (cls : SymbolId) : Keeps I (classParts walk n cls) := by
  refine .bind (.change fun b hb => hI.setSymbolOf b n.id cls hb) fun _ => ?_
  refine .bind (hI.declareTypeParameters _) fun _ => .bind (.forM fun c _ => hwalk c) fun _ => ?_
  refine .bind (.option hwalk) fun _ => .bind (.forM fun c _ => hwalk c) fun _ => ?_
  exact .forM fun c _ => hI.classMember hwalk cls c

theorem class_ (n : Node) (declared? : Option SymbolId) : Keeps I (class_ walk n declared?) := by
  refine .bind (.forM fun d _ => hwalk d) fun _ => .withModifiers _ (hI.inScope .class_ n.id ?_)
  cases declared? with
  | none => exact .bind (hI.classExpressionSymbol n) fun cls => hI.classParts hwalk n cls
  | some id => exact hI.classParts hwalk n id

theorem classStatement (n cls : Node) : Keeps I (classStatement walk n cls) := by
  refine .withModifiers _ ?_
  cases cls.classLike.name with
  | none =>
      exact .bind (.changeGet fun b hb => hI.newSymbol b _ _ hb) fun id =>
        hI.class_ hwalk cls (some id)
  | some name => exact .bind (hI.declareHere name _ _ _) fun id => hI.class_ hwalk cls (some id)

theorem typeDeclaration (n : Node) (name : Identifier) (kind : DeclarationKind) (ms : Modifiers)
    (types? : Option (List Node)) : Keeps I (typeDeclaration walk n name kind ms types?) :=
  .bind (hI.declareHere name kind _ _) fun _ => hI.inScope .block n.id <|
    .bind (hI.declareTypeParameters _) fun _ => .forM fun c _ => hwalk c

theorem enumMember (owner : SymbolId) (n : Node) : Keeps I (enumMember walk owner n) := by
  unfold Binder.enumMember
  split
  · refine .bind (hI.declareMember (t := .exports owner) rfl n _ rfl) fun id? => ?_
    cases id? with
    | none => exact hwalk n
    | some id => exact .bind (.change fun b hb => hI.setParent b id owner hb) fun _ => hwalk n
  · exact hwalk n

theorem enumDeclaration (n : Node) (ms : Modifiers) (name : Identifier) (members : List Node) :
    Keeps I (enumDeclaration walk n ms name members) :=
  .withModifiers ms <| .bind (hI.declareHere name _ _ _) fun id =>
    .forM fun c _ => hI.enumMember hwalk id c

omit hI in
theorem moduleBody (body : Node) : Keeps I (moduleBody walk body) := by
  unfold Binder.moduleBody
  split
  · exact .forM fun c _ => hwalk c
  · exact hwalk body

theorem moduleDeclaration (n : Node) (ms : Modifiers) (name : ModuleName) (body? : Option Node)
    (isGlobal : Bool) : Keeps I (moduleDeclaration walk n ms name body? isGlobal) := by
  refine .withModifiers ms (.bind (hI.moduleSymbol? n ms name isGlobal) fun id? => ?_)
  have hscope : Keeps I (Binder.inScope .module_ n.id do
      let scope ← Binder.currentScope
      modify fun b => b.modifyScope scope fun s => { s with container? := id? }
      body?.forM (Binder.moduleBody walk)) :=
    hI.inScope .module_ n.id <| .bind .currentScope fun scope =>
      .bind (.change fun b hb => hI.setContainer b scope id? hb) fun _ => .option (moduleBody hwalk)
  cases id? with
  | none => exact hscope
  | some id => exact .bind (.change fun b hb => hI.setSymbolOf b n.id id hb) fun _ => hscope

theorem catchClause (n : Node) (binding? : Option Node) (body : Node) :
    Keeps I (catchClause walk n binding? body) := by
  refine hI.inScope .catchClause n.id ?_
  cases binding? with
  | none => exact hwalk body
  | some v =>
      have hboth := Keeps.bind (hwalk v) fun _ => hwalk body
      dsimp only
      split
      · exact .bind .currentScope fun s => .bind (hI.declareBinding s _ rfl _ _) fun _ => hboth
      · exact hboth

theorem genericType (n : Node) (f : FunctionLike) : Keeps I (genericType walk n f) := by
  unfold Binder.genericType
  split
  · exact hI.inScope .block n.id <|
      .bind (hI.declareTypeParameters _) fun _ => .forM fun c _ => hwalk c
  · exact .forM fun c _ => hwalk c

theorem typeElement (n : Node) (element : Form) : Keeps I (typeElement walk n element) := by
  unfold Binder.typeElement
  split
  · exact hI.genericType hwalk n _
  · exact hI.genericType hwalk n _
  · exact hI.genericType hwalk n _
  · exact .forM fun c _ => hwalk c

theorem variableParts (kind : VariableKind) (ns : List Node) (isExported : Bool) :
    Keeps I (do Binder.declareVariables kind ns isExported; ns.forM walk) :=
  .bind (hI.declareVariables kind ns isExported) fun _ => .forM fun n _ => hwalk n

theorem step (n : Node) : Keeps I (step walk n) := by
  have hbelow : Keeps I (n.visited.forM walk) := .forM fun c _ => hwalk c
  unfold Binder.step
  cases n.form with
  | forStmt _ _ _ _ | forInStmt _ _ _ | forOfStmt _ _ _ _ | block _ _ _ | conditionalType _ _ _ _ =>
      exact hI.inScope .block n.id hbelow
  | switchStmt subject clauses =>
      exact .bind (hwalk subject) fun _ => hI.inScope .block n.id (.forM fun c _ => hwalk c)
  | varStmt ms list =>
      dsimp only
      split
      · exact .withModifiers ms (hI.variableParts hwalk _ _ _)
      · exact .pure ()
  | variableList kind declarations => exact hI.variableParts hwalk kind declarations false
  | functionStmt ms name? func =>
      refine .withModifiers ms ?_
      cases name? with
      | none => exact hI.function hwalk func none
      | some name =>
          exact .bind (hI.declareHere name _ _ _) fun _ => hI.function hwalk func none
  | functionExpr _ name? func => exact hI.function hwalk func name?
  | functionLike _ => exact hI.function hwalk n none
  | arrowFunction f _ => exact hI.inScope .function n.id (hI.functionParts hwalk f)
  | classStmt cls => exact hI.classStatement hwalk n cls
  | classExpr cls => exact hI.class_ hwalk cls none
  | interfaceStmt ms name types? _ _ | typeAliasStmt ms name types? _ =>
      exact hI.typeDeclaration hwalk n name _ ms types?
  | enumStmt ms name members => exact hI.enumDeclaration hwalk n ms name members
  | moduleDeclaration ms name body? isGlobal =>
      exact hI.moduleDeclaration hwalk n ms name body? isGlobal
  | importStmt _ clause? _ _ => exact .option fun clause => hI.declareImport clause _
  | importEqualsStmt ms isTypeOnly name _ => exact hI.declareAlias name isTypeOnly _ _
  | catchClause binding? body => exact hI.catchClause hwalk n binding? body
  | functionType f | constructorType _ f => exact hI.genericType hwalk n f
  | mappedType _ key _ _ _ =>
      exact hI.inScope .block n.id (.bind (hI.declareTypeParameter _ key) fun _ => hbelow)
  | inferType bound => exact .bind (hI.declareTypeParameter [] bound) fun _ => hbelow
  | typeElement _ element => exact hI.typeElement hwalk n element
  | _ => exact hbelow

end

theorem walkNode (fuel : Nat) : ∀ n, Keeps I (walkNode fuel n) := by
  induction fuel with
  | zero => exact fun _ => .pure ()
  | succ fuel ih => exact hI.step ih

/-- What the changes of the binder keep holds of the bindings of a file. -/
theorem bind (f : SourceFile) (h : I (({} : Bindings).newScope .sourceFile none 0).2) :
    I f.bind :=
  Keeps.forM (fun n _ => hI.walkNode f.nodeCount n) _ _ h

end IsInvariant
end Binder
end Erasure

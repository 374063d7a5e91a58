import Erasure.Proofs.Scope.Growth

/-!
Transitions of binding: a relation between the bindings before and after every change of the binder
holds between those before and after any part of the walk. A change is stated with what the binder
knows when it makes it: the place is in a scope that exists, a name is declared in the scope that
its kind asks for, with the exclusions of its kind unless it is a type parameter, and the scope of a
namespace is tied to its symbol when both are new.
-/

namespace Erasure

/-- Declarations in classes and enums, which are found by keys. -/
def DeclarationKind.isMember : DeclarationKind → Bool
  | .enumMember | .property _ | .method _ | .getter | .setter => true
  | _ => false

/-- The scope that a name of some kind is declared in, if it is written in a scope. -/
def Bindings.targetScope (b : Bindings) (kind : DeclarationKind) (scope : ScopeId) : ScopeId :=
  if kind = .var then b.functionContainer scope else scope

namespace Bindings

theorem Later.targetScope {b c : Bindings} (h : b.Later c) (kind : DeclarationKind) {s : ScopeId}
    (hs : s < b.scopes.size) : c.targetScope kind s = b.targetScope kind s := by
  unfold Bindings.targetScope
  rw [h.functionContainer hs]

/-- Bindings with a new scope for the block of a namespace. -/
def newModule (b : Bindings) (parent : ScopeId) (node : NodeId) (owner? : Option SymbolId) :
    Bindings :=
  (b.newScope .module_ (some parent) node).2.modifyScope b.scopes.size fun s =>
    { s with container? := owner? }

end Bindings

namespace Binder

/-- A relation between bindings before and after the changes of the binder. -/
structure IsTransition (R : Bindings → Bindings → Prop) : Prop where
  refl : ∀ b, R b b
  trans : ∀ {b c d}, R b c → R c d → R b d
  later : ∀ {b c}, R b c → b.Later c
  newScope : ∀ b kind parent node, parent < b.scopes.size →
    R b (b.newScope kind (some parent) node).2
  newModule : ∀ b parent node, parent < b.scopes.size → R b (b.newModule parent node none)
  declareModule : ∀ (p : BinderPlace) b name isInstantiated span isExported node,
    p.scope < b.scopes.size →
      let (y, c) := declareName p.scope name (.namespace_ isInstantiated) span isExported p b
      R b ((c.setSymbolOf node y).newModule p.scope node (some y))
  newSymbol : ∀ b name flag, R b (b.newSymbol name flag).2
  setSymbolOf : ∀ b node y, R b (b.setSymbolOf node y)
  setOwner : ∀ b y owner, R b (b.modifySymbol y fun s => { s with parent? := some owner })
  augment : ∀ b : Bindings, R b { b with augmentsGlobals := true }
  declareMember :
    ∀ b t name d, t.isOwned = true → d.kind.isMember = true → R b (b.declare t name d).2
  declareName : ∀ (p : BinderPlace) b name kind excluded span isExported, p.scope < b.scopes.size →
    kind.isMember = false → kind = .typeParameter ∨ excluded = kind.excludes →
      R b (declareExcluding (b.targetScope kind p.scope) name kind excluded span isExported p b).2

/-- A step that starts in a scope that exists and ends in related bindings. -/
def Follows (R : Bindings → Bindings → Prop) {α : Type} (m : Binder α) : Prop :=
  ∀ (p : BinderPlace) (b : Bindings), p.scope < b.scopes.size → R b (m p b).2

namespace IsTransition

variable {R : Bindings → Bindings → Prop} (hR : IsTransition R) {α β γ : Type}
include hR

theorem pure (a : α) : Follows R (Pure.pure a) := fun _ b _ => hR.refl b

theorem bind {m : Binder α} {k : α → Binder β} (h : Follows R m) (hk : ∀ a, Follows R (k a)) :
    Follows R (m >>= k) := fun p b hp =>
  hR.trans (h p b hp) (hk _ p _ (Nat.lt_of_lt_of_le hp (hR.later (h p b hp)).scopes_le))

theorem forM {as : List γ} {f : γ → Binder Unit} (h : ∀ a ∈ as, Follows R (f a)) :
    Follows R (as.forM f) := by
  induction as with
  | nil => exact hR.pure ()
  | cons a as ih =>
      obtain ⟨ha, has⟩ := List.forall_mem_cons.mp h
      exact hR.bind ha fun _ => ih has

theorem option {a? : Option γ} {f : γ → Binder Unit} (h : ∀ a, Follows R (f a)) :
    Follows R (a?.forM f) := by
  cases a? with
  | none => exact hR.pure ()
  | some a => exact h a

omit hR in
theorem change {f : Bindings → Bindings} (h : ∀ b, R b (f b)) :
    Follows R (modify f : Binder Unit) :=
  fun _ b _ => h b

omit hR in
theorem withModifiers {m : Binder α} (ms : Modifiers) (h : Follows R m) :
    Follows R (withModifiers ms m) := fun _ b hp => h _ b hp

theorem inScope {step : Binder Unit} (kind : ScopeKind) (node : NodeId) (h : Follows R step) :
    Follows R (inScope kind node step) := by
  intro p b hp
  have hnew := hR.newScope b kind p.scope node hp
  exact hR.trans hnew (h { p with scope := b.scopes.size } _ (by simp))

theorem declareHere (name : Identifier) {kind : DeclarationKind} (hkind : kind.isMember = false)
    (hvar : kind ≠ .var) (span : Span) (isExported : Bool) :
    Follows R (declareHere name kind span isExported) := by
  intro p b hp
  have hname := hR.declareName p b name kind kind.excludes span isExported hp hkind (.inr rfl)
  rwa [Bindings.targetScope, if_neg hvar] at hname

/-- The scope of a name stays the same while the names before it are declared. -/
theorem declareBinding (n : Node) {kind : DeclarationKind} (hkind : kind.isMember = false)
    (span : Span) (isExported : Bool) (p : BinderPlace) (base b : Bindings)
    (hp : p.scope < base.scopes.size) (hb : base.Later b) :
    R b (declareBinding (base.targetScope kind p.scope) n kind span isExported p b).2 := by
  unfold Binder.declareBinding
  induction n.bindingIdentifiers generalizing b with
  | nil => exact hR.refl b
  | cons i is ih =>
      have hname := hR.declareName p b i kind kind.excludes span isExported
        (Nat.lt_of_lt_of_le hp hb.scopes_le) hkind (.inr rfl)
      rw [hb.targetScope kind hp] at hname
      exact hR.trans hname (ih _ (hb.trans (hR.later hname)))

theorem declareBindingHere (n : Node) {kind : DeclarationKind} (hkind : kind.isMember = false)
    (hvar : kind ≠ .var) (span : Span) (isExported : Bool) :
    Follows R (do Binder.declareBinding (← currentScope) n kind span isExported) := by
  intro p b hp
  have hbinding := hR.declareBinding n hkind span isExported p b b hp (.refl b)
  rwa [Bindings.targetScope, if_neg hvar] at hbinding

theorem declareVariables (kind : VariableKind) (ns : List Node) (isExported : Bool) :
    Follows R (declareVariables kind ns isExported) := by
  intro p base hp
  have hscope : (if kind = .var then base.functionContainer p.scope else p.scope) =
      base.targetScope (.ofVariable kind) p.scope := by
    cases kind <;> rfl
  have hkind : (DeclarationKind.ofVariable kind).isMember = false := by cases kind <;> rfl
  rw [declareVariables_eq, hscope]
  let declareOne :=
    Binder.declareVariable kind (base.targetScope (.ofVariable kind) p.scope) isExported
  have hone : ∀ n b, base.Later b → R b (declareOne n p b).2 := by
    intro n b hb
    dsimp only [declareOne]
    unfold Binder.declareVariable
    cases n.form with
    | variableDeclaration name _ _ _ => exact hR.declareBinding name hkind _ _ p base b hp hb
    | _ => exact hR.refl b
  have hall : ∀ b, base.Later b → R b (ns.forM declareOne p b).2 := by
    induction ns with
    | nil => exact fun b _ => hR.refl b
    | cons n ns ih =>
        intro b hb
        have hn := hone n b hb
        exact hR.trans hn (ih _ (hb.trans (hR.later hn)))
  exact hall base (.refl base)

theorem declareTypeParameter (excluded : SymbolFlags) (n : Node) :
    Follows R (declareTypeParameter excluded n) := by
  unfold Binder.declareTypeParameter
  split
  · rename_i name _ _ _
    refine fun p b hp => ?_
    exact hR.declareName p b name .typeParameter excluded n.span false hp rfl (.inl rfl)
  · exact hR.pure ()

theorem declareTypeParameters (ns : List Node) : Follows R (declareTypeParameters ns) :=
  hR.forM fun n _ => hR.declareTypeParameter _ n

theorem declareParameter (n : Node) : Follows R (declareParameter n) := by
  unfold Binder.declareParameter
  dsimp only
  split
  · exact hR.declareBindingHere _ rfl (by decide) _ _
  · exact hR.pure ()

theorem declareAlias (name : Identifier) (isTypeOnly : Bool) (span : Span) (isExported : Bool) :
    Follows R (declareAlias name isTypeOnly span isExported) :=
  hR.bind (hR.declareHere name rfl (by simp) span isExported) fun _ => hR.pure ()

theorem declareBound (clause : ImportClause) (span : Span) :
    Follows R (declareBound clause span) := by
  unfold Binder.declareBound
  split
  · exact hR.declareAlias _ _ _ _
  · exact hR.forM fun s _ => hR.declareAlias _ _ _ _
  · exact hR.pure ()

theorem declareImport (clause : ImportClause) (span : Span) :
    Follows R (declareImport clause span) := by
  rw [declareImport_eq]
  exact hR.bind (hR.option fun name => hR.declareAlias name _ _ _) fun _ =>
    hR.declareBound clause span

theorem declareKeyed {t : TableRef} (ht : t.isOwned = true) (member key : Node)
    {kind : DeclarationKind} (hkind : kind.isMember = true) :
    Follows R (Binder.declareMember t member key kind) := by
  unfold Binder.declareMember
  split
  · exact fun p b _ => hR.declareMember b t _ _ ht hkind
  · exact hR.pure none

theorem declareParameterProperty (cls : SymbolId) (n : Node) :
    Follows R (declareParameterProperty cls n) := by
  unfold Binder.declareParameterProperty
  dsimp only
  split
  · split
    · exact fun p b _ => hR.declareMember b (.members cls) _ _ rfl rfl
    · exact hR.pure ()
  · exact hR.pure ()

section
variable {walk : Node → Binder Unit} (hwalk : ∀ n, Follows R (walk n))
include hwalk

theorem walkAll (ns : List Node) : Follows R (ns.forM walk) := hR.forM fun n _ => hwalk n

theorem walkOption (n? : Option Node) : Follows R (n?.forM walk) := hR.option hwalk

theorem functionParts (f : FunctionLike) : Follows R (functionParts walk f) := by
  refine hR.bind (hR.declareTypeParameters _) fun _ => hR.bind (hR.walkAll hwalk _) fun _ => ?_
  refine hR.bind (hR.forM fun n _ => hR.declareParameter n) fun _ => ?_
  refine hR.bind (hR.walkAll hwalk _) fun _ => hR.bind (hR.walkOption hwalk _) fun _ => ?_
  split
  · exact hR.pure ()
  · split
    · exact hR.walkAll hwalk _
    · exact hwalk _

theorem function (n : Node) (name? : Option Identifier) : Follows R (function walk n name?) := by
  refine hR.inScope .function n.id ?_
  cases name? with
  | none => exact hR.functionParts hwalk n.func
  | some name =>
      exact hR.bind (hR.declareHere name rfl (by decide) _ _) fun _ => hR.functionParts hwalk n.func

theorem functionMember {t : TableRef} (ht : t.isOwned = true) (member key func : Node)
    {kind : DeclarationKind} (hkind : kind.isMember = true) :
    Follows R (functionMember walk t member key func kind) :=
  hR.bind (hR.declareKeyed ht member key hkind) fun _ =>
    hR.bind (hwalk key) fun _ => hR.function hwalk func none

theorem memberParts (cls : SymbolId) (n : Node) (ms : Modifiers) (member : Form) :
    Follows R (memberParts walk cls n ms member) := by
  have htable : (if ms.isStatic then TableRef.exports cls else .members cls).isOwned = true := by
    split <;> rfl
  unfold Binder.memberParts
  cases member with
  | propertyMember key _ _ type initializer =>
      refine hR.bind (hR.declareKeyed htable n key rfl) fun _ => hR.bind (hwalk key) fun _ => ?_
      exact hR.bind (hR.walkOption hwalk _) fun _ => hR.walkOption hwalk _
  | methodMember key _ func | getterMember key func | setterMember key func =>
      exact hR.functionMember hwalk htable n key func rfl
  | constructorMember func =>
      exact hR.bind (hR.forM fun p _ => hR.declareParameterProperty cls p) fun _ =>
        hR.function hwalk func none
  | indexMember parameters type =>
      exact hR.bind (hR.forM fun p _ => hR.walkOption hwalk _) fun _ => hR.walkOption hwalk _
  | staticBlock body =>
      dsimp only
      split
      · exact hR.inScope .function body.id (hR.walkAll hwalk _)
      · exact hR.pure ()
  | _ => exact hR.pure ()

theorem classMember (cls : SymbolId) (n : Node) : Follows R (classMember walk cls n) := by
  unfold Binder.classMember
  split
  · exact hR.bind (hR.walkAll hwalk _) fun _ => withModifiers _ (hR.memberParts hwalk cls n _ _)
  · exact hR.pure ()

theorem classParts (n : Node) (cls : SymbolId) : Follows R (classParts walk n cls) := by
  refine hR.bind (change fun b => hR.setSymbolOf b n.id cls) fun _ => ?_
  refine hR.bind (hR.declareTypeParameters _) fun _ => hR.bind (hR.walkAll hwalk _) fun _ => ?_
  refine hR.bind (hR.walkOption hwalk _) fun _ => hR.bind (hR.walkAll hwalk _) fun _ => ?_
  exact hR.forM fun c _ => hR.classMember hwalk cls c

omit hwalk in
theorem classExpressionSymbol (n : Node) : Follows R (classExpressionSymbol n) := by
  unfold Binder.classExpressionSymbol
  split
  · exact hR.declareHere _ rfl (by decide) _ _
  · exact fun _ b _ => hR.newSymbol b _ _

theorem class_ (n : Node) (declared? : Option SymbolId) : Follows R (class_ walk n declared?) := by
  refine hR.bind (hR.walkAll hwalk _) fun _ => withModifiers _ (hR.inScope .class_ n.id ?_)
  cases declared? with
  | none => exact hR.bind (hR.classExpressionSymbol n) fun cls => hR.classParts hwalk n cls
  | some id => exact hR.classParts hwalk n id

theorem classStatement (n cls : Node) : Follows R (classStatement walk n cls) := by
  refine withModifiers _ ?_
  cases cls.classLike.name with
  | none =>
      have hnew : Follows R (modifyGet fun b => b.newSymbol "default" .class_ : Binder SymbolId) :=
        fun _ b _ => hR.newSymbol b _ _
      exact hR.bind hnew fun id => hR.class_ hwalk cls (some id)
  | some name =>
      exact hR.bind (hR.declareHere name rfl (by decide) _ _) fun id =>
        hR.class_ hwalk cls (some id)

theorem typeDeclaration (n : Node) (name : Identifier) {kind : DeclarationKind}
    (hkind : kind.isMember = false) (hvar : kind ≠ .var) (ms : Modifiers)
    (types? : Option (List Node)) : Follows R (typeDeclaration walk n name kind ms types?) :=
  hR.bind (hR.declareHere name hkind hvar _ _) fun _ => hR.inScope .block n.id <|
    hR.bind (hR.declareTypeParameters _) fun _ => hR.walkAll hwalk _

theorem enumMember (owner : SymbolId) (n : Node) : Follows R (enumMember walk owner n) := by
  unfold Binder.enumMember
  split
  · refine hR.bind (hR.declareKeyed (t := .exports owner) rfl n _ rfl) fun id? => ?_
    cases id? with
    | none => exact hwalk n
    | some id => exact hR.bind (change fun b => hR.setOwner b id owner) fun _ => hwalk n
  · exact hwalk n

theorem enumDeclaration (n : Node) (ms : Modifiers) (name : Identifier) (members : List Node) :
    Follows R (enumDeclaration walk n ms name members) :=
  withModifiers ms <| hR.bind (hR.declareHere name rfl (by simp) _ _) fun id =>
    hR.forM fun c _ => hR.enumMember hwalk id c

theorem moduleBody (body : Node) : Follows R (moduleBody walk body) := by
  unfold Binder.moduleBody
  split
  · exact hR.walkAll hwalk _
  · exact hwalk body

theorem moduleDeclaration (n : Node) (ms : Modifiers) (name : ModuleName) (body? : Option Node)
    (isGlobal : Bool) : Follows R (moduleDeclaration walk n ms name body? isGlobal) := by
  have hbody : ∀ (p : BinderPlace) (base b : Bindings) (owner? : Option SymbolId),
      R base (b.newModule p.scope n.id owner?) →
        R base ((body?.forM (Binder.moduleBody walk)) { p with scope := b.scopes.size }
          (b.newModule p.scope n.id owner?)).2 := by
    intro p base b owner? hnew
    refine hR.trans hnew (hR.option (hR.moduleBody hwalk) { p with scope := b.scopes.size } _ ?_)
    simp [Bindings.newModule]
  have hglobal : Follows R (do
      modify fun b => { b with augmentsGlobals := true }
      Binder.inScope .module_ n.id do
        let scope ← Binder.currentScope
        modify fun b => b.modifyScope scope fun s => { s with container? := none }
        body?.forM (Binder.moduleBody walk)) := by
    intro p b hp
    have haugment := hR.augment b
    exact hR.trans haugment (hbody p _ { b with augmentsGlobals := true } none
      (hR.newModule _ p.scope n.id hp))
  refine withModifiers ms ?_
  unfold Binder.moduleSymbol?
  cases name with
  | identifier name =>
      cases isGlobal with
      | false =>
          intro p b hp
          have hdeclared := hR.declareModule p b name (n.isInstantiated false) n.span ms.isExport
            n.id hp
          exact hbody p b _ _ hdeclared
      | true => exact hglobal
  | string _ => exact hglobal

theorem catchClause (n : Node) (binding? : Option Node) (body : Node) :
    Follows R (catchClause walk n binding? body) := by
  refine hR.inScope .catchClause n.id ?_
  cases binding? with
  | none => exact hwalk body
  | some v =>
      have hboth := hR.bind (hwalk v) fun _ => hwalk body
      dsimp only
      split
      · rename_i name _ _ _ _
        have hbinding : Follows R (do
            Binder.declareBinding (← Binder.currentScope) name .catchVariable v.span false) :=
          hR.declareBindingHere name rfl (by decide) v.span false
        have hdeclared := hR.bind hbinding fun _ => hboth
        exact hdeclared
      · exact hboth

theorem genericType (n : Node) (f : FunctionLike) : Follows R (genericType walk n f) := by
  unfold Binder.genericType
  split
  · exact hR.inScope .block n.id <|
      hR.bind (hR.declareTypeParameters _) fun _ => hR.walkAll hwalk _
  · exact hR.walkAll hwalk _

theorem typeElement (n : Node) (element : Form) : Follows R (typeElement walk n element) := by
  unfold Binder.typeElement
  split
  iterate 3
    exact hR.genericType hwalk n _
  · exact hR.walkAll hwalk _

theorem variableParts (kind : VariableKind) (ns : List Node) (isExported : Bool) :
    Follows R (do Binder.declareVariables kind ns isExported; ns.forM walk) :=
  hR.bind (hR.declareVariables kind ns isExported) fun _ => hR.walkAll hwalk ns

theorem step (n : Node) : Follows R (step walk n) := by
  have hbelow : Follows R (n.visited.forM walk) := hR.walkAll hwalk _
  unfold Binder.step
  cases n.form with
  | forStmt _ _ _ _ | forInStmt _ _ _ | forOfStmt _ _ _ _ | block _ _ _ | conditionalType _ _ _ _ =>
      exact hR.inScope .block n.id hbelow
  | switchStmt subject clauses =>
      exact hR.bind (hwalk subject) fun _ => hR.inScope .block n.id (hR.walkAll hwalk _)
  | varStmt ms list =>
      dsimp only
      split
      · exact withModifiers ms (hR.variableParts hwalk _ _ _)
      · exact hR.pure ()
  | variableList kind declarations => exact hR.variableParts hwalk kind declarations false
  | functionStmt ms name? func =>
      refine withModifiers ms ?_
      cases name? with
      | none => exact hR.function hwalk func none
      | some name =>
          exact hR.bind (hR.declareHere name rfl (by simp) _ _) fun _ => hR.function hwalk func none
  | functionExpr _ name? func => exact hR.function hwalk func name?
  | functionLike _ => exact hR.function hwalk n none
  | arrowFunction f _ => exact hR.inScope .function n.id (hR.functionParts hwalk f)
  | classStmt cls => exact hR.classStatement hwalk n cls
  | classExpr cls => exact hR.class_ hwalk cls none
  | interfaceStmt ms name types? _ _ | typeAliasStmt ms name types? _ =>
      exact hR.typeDeclaration hwalk n name rfl (by decide) ms types?
  | enumStmt ms name members => exact hR.enumDeclaration hwalk n ms name members
  | moduleDeclaration ms name body? isGlobal =>
      exact hR.moduleDeclaration hwalk n ms name body? isGlobal
  | importStmt _ clause? _ _ => exact hR.option fun clause => hR.declareImport clause _
  | importEqualsStmt ms isTypeOnly name _ => exact hR.declareAlias name isTypeOnly _ _
  | catchClause binding? body => exact hR.catchClause hwalk n binding? body
  | functionType f | constructorType _ f => exact hR.genericType hwalk n f
  | mappedType _ key _ _ _ =>
      exact hR.inScope .block n.id (hR.bind (hR.declareTypeParameter _ key) fun _ => hbelow)
  | inferType bound => exact hR.bind (hR.declareTypeParameter [] bound) fun _ => hbelow
  | typeElement _ element => exact hR.typeElement hwalk n element
  | _ => exact hbelow

end

theorem walkNode (fuel : Nat) : ∀ n, Follows R (walkNode fuel n) := by
  induction fuel with
  | zero => exact fun _ => hR.pure ()
  | succ fuel ih => exact hR.step ih

/-- The bindings of a file are related to those of a file without statements. -/
theorem file (f : SourceFile) : R (({} : Bindings).newScope .sourceFile none 0).2 f.bind :=
  hR.forM (fun n _ => hR.walkNode f.nodeCount n) _ _ Nat.zero_lt_one

end IsTransition
end Binder
end Erasure

import Erasure.Proofs.Scope.Opening
import Erasure.Proofs.Scope.RecordingWalk

/-!
The scopes that the walk of the binder opens: at every node it opens scopes for numbers in the node
only, and it stands in the scope that the path to a node leads to.
-/

namespace Erasure

theorem Form.opens_of_isBlock {form : Form} (h : form.isBlock = true) :
    form.splits = false ∧ form.opens = true := by
  cases form <;> first | exact ⟨rfl, rfl⟩ | cases h

namespace Node

theorem mem_children_of_mem_statements {n c : Node} (hc : c ∈ n.statements) :
    c ∈ n.form.children := by
  unfold statements at hc
  split at hc
  · rename_i hform
    rwa [hform]
  · rename_i hform
    rwa [hform]
  · cases hc

theorem count_numbers_visited_le (n : Node) (i : NodeId) :
    (numbers n.visited).count i ≤ (numbers n.form.parts).count i := by
  unfold visited
  split
  · exact Nat.zero_le _
  · exact Nat.zero_le _
  · refine Nat.le_trans ?_ (n.form.count_numbers_children_le i)
    show ((n.form.children.flatMap fun c =>
      if c.form.isInner then c.form.children else [c]).flatMap numbers).count i ≤ _
    rw [List.flatMap_assoc]
    refine count_flatMap_le fun c _ => ?_
    split
    · exact c.count_numbers_children_le i
    · exact Nat.le_of_eq (by rw [List.flatMap_singleton])

theorem count_numbers_func_le (n : Node) (i : NodeId) :
    (numbers n.func).count i ≤ (numbers n.form.parts).count i := by
  unfold func Form.function?
  split
  · rename_i f hform
    rw [hform]
    exact Nat.le_refl _
  · exact Nat.zero_le _

theorem way_classPart {n c : Node}
    (hc : c ∈ n.classLike.typeParameters.getD [] ++ n.classLike.interfaces ++ n.classLike.members) :
    n.Way (some (.scope n.id)) c := by
  unfold classLike at hc
  split at hc
  · rename_i hform
    exact .classPart hform hc
  · cases hc

theorem way_base {n c : Node} (hc : c ∈ n.classLike.base) : n.Way (some (.base n.id)) c := by
  unfold classLike at hc
  split at hc
  · rename_i hform
    exact .base hform hc
  · cases hc

theorem way_decorator {n c : Node} (hc : c ∈ n.classLike.decorators) : n.Way none c := by
  unfold classLike at hc
  split at hc
  · rename_i hform
    exact .decorator hform hc
  · cases hc

end Node

theorem Bindings.nodeScopes_insert (b : Bindings) (name : String) (y : SymbolId) (t : TableRef) :
    (b.insert name y t).nodeScopes = b.nodeScopes := by
  cases t <;> rfl

theorem Bindings.nodeScopes_declareExcluding (b : Bindings) (t : TableRef) (name : String)
    (excluded : SymbolFlags) (d : Declaration) :
    (b.declareExcluding t name excluded d).2.nodeScopes = b.nodeScopes := by
  unfold declareExcluding
  cases b.find? name t with
  | none => exact nodeScopes_insert _ name _ t
  | some y =>
      simp only
      split
      · rfl
      · change (b.checkImplementation (b.symbol y) d).nodeScopes = b.nodeScopes
        unfold checkImplementation
        split <;> rfl

namespace Binder

open Bindings (Opened)

variable {base : Bindings} {W : Routes} {n : Node}

theorem opened_of_nodeScopes {b c : Bindings} (hlater : b.Later c)
    (hscopes : c.nodeScopes = b.nodeScopes) : Opened [] b c :=
  ⟨hlater, fun k _ => by rw [Bindings.scopeOf?, Bindings.scopeOf?, hscopes]⟩

theorem nodeScopes_shareExport (scope : ScopeId) (name : String) (y owner : SymbolId)
    (p : BinderPlace) (b : Bindings) :
    (shareExport scope name y owner p b).2.nodeScopes = b.nodeScopes := by
  change (if (b.find? name (.locals scope)).isSome then b
    else b.insert name y (.locals scope)).nodeScopes = b.nodeScopes
  split
  · rfl
  · exact b.nodeScopes_insert name y _

theorem nodeScopes_declareExcluding (p : BinderPlace) (b : Bindings) (scope : ScopeId)
    (name : Identifier) (kind : DeclarationKind) (excluded : SymbolFlags) (span : Span)
    (isExported : Bool) :
    (declareExcluding scope name kind excluded span isExported p b).2.nodeScopes =
      b.nodeScopes := by
  have hmark : ∀ (c : Bindings) (y : SymbolId), (if isExported then c.modifySymbol y fun s =>
      { s with isExported := true } else c).nodeScopes = c.nodeScopes := by
    intro c y
    split <;> rfl
  have hnew := fun t => b.nodeScopes_declareExcluding t name.text excluded
    (declaration name.id kind name.span span p b).1
  rcases declareExcluding_cases p b scope name kind excluded span isExported with
    heq | ⟨owner, -, -, heq⟩ <;> rw [heq]
  · exact (hmark _ _).trans (hnew _)
  · exact (hmark _ _).trans ((nodeScopes_shareExport scope name.text _ owner p _).trans
      (hnew (.exports owner)))

/-- Declarations open no scopes. -/
theorem declares (base : Bindings) : IsStable (Opened [] base) where
  newSymbol _ _ _ h := h.trans (opened_of_nodeScopes (.of_scopes rfl) rfl)
  setSymbolOf _ _ _ h := h.trans (opened_of_nodeScopes (.of_scopes rfl) rfl)
  setContainer b scope _ h :=
    h.trans (opened_of_nodeScopes (b.later_modifyScope scope (fun _ => rfl) fun _ => rfl) rfl)
  setParent _ _ _ h := h.trans (opened_of_nodeScopes (.of_scopes rfl) rfl)
  augment _ h := h.trans (opened_of_nodeScopes (.of_scopes rfl) rfl)
  declareOwned b t name d _ _ h :=
    h.trans (opened_of_nodeScopes (b.later_declareExcluding t name _ d)
      (b.nodeScopes_declareExcluding t name _ d))
  declareName p b scope name kind excluded span isExported _ h :=
    h.trans (opened_of_nodeScopes
      (keeps_later_declareExcluding b scope name kind excluded span isExported p b (.refl b))
      (nodeScopes_declareExcluding p b scope name kind excluded span isExported))

namespace Opens

section
variable {ids : List NodeId} {α : Type} {step : (Node → Binder Unit) → Binder α}

/-- A step on parts of a node is one on the node. -/
theorem ofParts (h : Opens ids W step)
    (hids : ∀ i, ids.count i ≤ (numbers n.form.parts).count i) : Opens (numbers n) W step :=
  h.ofCount fun i => by
    rw [n.count_numbers_eq]
    exact Nat.le_add_left_of_le (hids i)

/-- A step on parts of a node, with the scope of the node, is one on the node. -/
theorem ofScope (h : Opens (n.id :: ids) W step)
    (hids : ∀ i, ids.count i ≤ (numbers n.form.parts).count i) : Opens (numbers n) W step :=
  h.ofCount fun i => by
    have hi := hids i
    rw [n.count_numbers_eq, ← List.singleton_append, List.count_append]
    omega

end

theorem visited (h : ∀ c ∈ n.form.children, W.Covers c) :
    Opens (numbers n.visited) W fun walk => n.visited.forM walk :=
  .all fun m hm => (Routes.Covers.visited h m hm).here

section
variable (hn : W.Covers n)
include hn

/-- A node that gets no scope. -/
theorem below : Opens (numbers n) W fun walk => n.visited.forM walk :=
  (visited fun _ hc => hn.around hc).around.ofScope n.count_numbers_visited_le

/-- A node with a scope, and what is declared in it first. -/
theorem inside {first : Binder Unit} (hfirst : ∀ base, Keeps (Opened [] base) first)
    (kind : ScopeKind) (hsplits : n.form.splits = false) (hopens : n.form.opens = true) :
    Opens (numbers n) W fun walk => (Binder.inScope kind n.id do
      first
      n.visited.forM walk) :=
  (Opens.inScope kind <| .after hfirst fun _ => visited fun _ hc =>
    hn.inside hsplits hopens hc).ofScope n.count_numbers_visited_le

/-- A node with a scope in which nothing is declared first. -/
theorem scopedBelow (kind : ScopeKind) (hsplits : n.form.splits = false)
    (hopens : n.form.opens = true) :
    Opens (numbers n) W fun walk => Binder.inScope kind n.id (n.visited.forM walk) :=
  inside hn (fun _ => .pure ()) kind hsplits hopens

/-- A step on a part of a node is one on the node. -/
theorem ofChild {c : Node} {step : (Node → Binder Unit) → Binder Unit}
    (hc : c ∈ n.form.children) (h : ∀ W : Routes, W.Covers c → Opens (numbers c) W step) :
    Opens (numbers n) W step :=
  (h _ (hn.around hc)).around.ofScope fun i =>
    Nat.le_trans (count_le_of_mem hc numbers i) (n.form.count_numbers_children_le i)

theorem switchStmt {subject : Node} {clauses : List Node}
    (hform : n.form = .switchStmt subject clauses) :
    Opens (numbers n) W fun walk => (do
      walk subject
      Binder.inScope .block n.id (clauses.forM walk)) := by
  have hsubject : Opens (numbers subject) (W.beside n.id) fun walk => walk subject :=
    .walk (hn.beside (.subject hform) rfl).here
  have hclauses : Opens (numbers clauses) (W.within n.id) fun walk => clauses.forM walk :=
    .all fun c hc => (hn.into (.clause hform hc) rfl).here
  refine (hsubject.beside .block hclauses).ofCount fun i => ?_
  rw [n.count_numbers_eq, hform, ← List.singleton_append]
  simp only [List.count_append, Form.parts, Form.directChildren, numbers_cons]
  omega

end

/-- The statements of a function body have the scope of the function. -/
theorem functionBody {body? : Option Node} (h : ∀ c ∈ body?, W.Covers c) :
    Opens (numbers body?) W fun walk => (match body? with
      | none => pure ()
      | some body => if body.form.isBlock then body.statements.forM walk else walk body) := by
  cases body? with
  | none => exact .const fun _ => .pure ()
  | some body =>
      have hstatements : Opens (numbers body.statements) (W.around body.id) fun walk =>
          body.statements.forM walk :=
        .all fun c hc => ((h body rfl).around (body.mem_children_of_mem_statements hc)).here
      rw [numbers_some]
      exact .ite (fun _ => hstatements.around.ofScope body.count_statements_parts_le) fun _ =>
        .walk (h body rfl).here

theorem functionParts {f : FunctionLike} (h : ∀ c ∈ f.children, W.Covers c) :
    Opens (numbers f) W fun walk => Binder.functionParts walk f := by
  have htypes : ∀ c ∈ f.typeParameters.getD [], W [] c := fun c hc =>
    (h c (by simp [FunctionLike.children, hc])).here
  have hparameters : ∀ c ∈ f.parameters, W [] c := fun c hc =>
    (h c (by simp [FunctionLike.children, hc])).here
  have hreturn : ∀ c ∈ f.returnType, W [] c := fun c hc =>
    (h c (by simp [FunctionLike.children, Option.mem_def.mp hc])).here
  have hbody := functionBody fun c (hc : c ∈ f.body) =>
    h c (by simp [FunctionLike.children, Option.mem_def.mp hc])
  refine Opens.ofCount (.after (fun base => (declares base).declareTypeParameters _) fun _ =>
    .bind (.all htypes) fun _ =>
      .after (fun base => .forM fun p _ => (declares base).declareParameter p) fun _ =>
        .bind (.all hparameters) fun _ => .bind (.optional hreturn) fun _ => hbody) fun i => ?_
  simp [FunctionLike.children]

/-- A function, whose parts have its scope. -/
theorem function (hn : W.Covers n) (name? : Option Identifier) :
    Opens (numbers n) W fun walk => Binder.function walk n name? := by
  have hparts : Opens (numbers n.func) (W.within n.id) fun walk =>
      Binder.functionParts walk n.func :=
    functionParts fun c hc => hn.into (Node.way_func hc) rfl
  refine (Opens.inScope .function ?_).ofScope n.count_numbers_func_le
  cases name? with
  | none => exact hparts
  | some name => exact .after (fun base => (declares base).declareHere name _ _ _) fun _ => hparts

theorem functionMember {key func : Node} (hkey : W.Covers key) (hfunc : W.Covers func)
    {t : TableRef} (ht : t.isOwned = true) (member : Node) {kind : DeclarationKind}
    (hkind : kind.isPlaced = false) :
    Opens (numbers key ++ numbers func) W fun walk =>
      Binder.functionMember walk t member key func kind :=
  .after (fun base => (declares base).declareMember ht member key hkind) fun _ =>
    .bind (.walk hkey.here) fun _ => function hfunc none

/-- Of the parameters of an index signature only the types are visited. -/
theorem indexMember {parameters : List Node} {type? : Option Node}
    (hparameters : ∀ c ∈ parameters, W.Covers c) (htype : ∀ c ∈ type?, W.Covers c) :
    Opens (numbers parameters ++ numbers type?) W fun walk =>
      Binder.indexMember walk parameters type? := by
  have hparameter : ∀ c ∈ parameters, Opens (numbers c.parameter.type) W fun walk =>
      c.parameter.type.forM walk := by
    refine fun c hc => .optional fun t ht => ?_
    unfold Node.parameter at ht
    split at ht
    · rename_i q hform
      refine ((hparameters c hc).plain ?_ ?_ ?_).here <;> rw [hform]
      · rfl
      · rfl
      · simp [Form.children, Form.directChildren, Parameter.children, Option.mem_def.mp ht]
    · cases ht
  refine (Opens.bind (.forM hparameter) fun _ => .optional fun t ht =>
    (htype t ht).here).ofCount fun i => ?_
  have hcount := count_flatMap_le fun c (_ : c ∈ parameters) => c.count_parameter_type_le i
  simp only [List.count_append]
  exact Nat.add_le_add_right hcount _

/-- A static block has a scope of its own. -/
theorem staticBlock {body : Node} (h : W.Covers body) :
    Opens (numbers body) W fun walk =>
      if body.form.isBlock then Binder.inScope .function body.id (body.statements.forM walk)
      else pure () := by
  refine .ite (fun hblock => ?_) fun _ =>
    (Opens.const fun _ => .pure ()).ofCount fun i => Nat.zero_le _
  obtain ⟨hsplits, hopens⟩ := Form.opens_of_isBlock hblock
  have hstatements : Opens (numbers body.statements) (W.within body.id) fun walk =>
      body.statements.forM walk :=
    .all fun c hc => (h.inside hsplits hopens (body.mem_children_of_mem_statements hc)).here
  exact (hstatements.inScope .function).ofScope body.count_statements_parts_le

theorem memberParts {member : Form} (h : ∀ c ∈ member.directChildren, W.Covers c)
    (cls : SymbolId) (n : Node) (ms : Modifiers) :
    Opens (numbers member.directChildren) W fun walk =>
      Binder.memberParts walk cls n ms member := by
  have htable : (if ms.isStatic then TableRef.exports cls else .members cls).isOwned = true := by
    split <;> rfl
  unfold Binder.memberParts
  cases member with
  | propertyMember key _ _ type? initial? =>
      have htype : ∀ t ∈ type?, W [] t := fun t ht =>
        (h t (by simp [Form.directChildren, Option.mem_def.mp ht])).here
      have hinitial : ∀ t ∈ initial?, W [] t := fun t ht =>
        (h t (by simp [Form.directChildren, Option.mem_def.mp ht])).here
      refine (Opens.after (fun base => (declares base).declareMember htable n key rfl) fun _ =>
        .bind (.walk (h key List.mem_cons_self).here) fun _ => .bind (.optional htype) fun _ =>
          .optional hinitial).ofCount fun i => ?_
      simp [Form.directChildren]
  | methodMember key _ func | getterMember key func | setterMember key func =>
      refine (functionMember (h key List.mem_cons_self)
        (h func (List.mem_cons_of_mem _ List.mem_cons_self)) htable n rfl).ofCount fun i => ?_
      simp [Form.directChildren]
  | constructorMember func =>
      refine (Opens.after (fun base => .forM fun p _ => (declares base).declareParameterProperty
        cls p) fun _ => function (h func List.mem_cons_self) none).ofCount fun i => ?_
      simp [Form.directChildren]
  | indexMember parameters type? =>
      refine (indexMember (fun c hc => h c (List.mem_append_left _ hc)) fun c hc =>
        h c (List.mem_append_right _ ?_)).ofCount fun i => ?_
      · simp [Option.mem_def.mp hc]
      · simp [Form.directChildren]
  | staticBlock body =>
      refine (staticBlock (h body List.mem_cons_self)).ofCount fun i => ?_
      simp [Form.directChildren]
  | _ => exact (Opens.const fun _ => .pure ()).ofCount fun i => Nat.zero_le _

theorem classMember (h : W.Covers n) (cls : SymbolId) :
    Opens (numbers n) W fun walk => Binder.classMember walk cls n := by
  unfold Binder.classMember
  cases hform : n.form with
  | classMember decorators ms member =>
      have hchild : ∀ c ∈ decorators ++ member.directChildren, W.Covers c := fun c hc =>
        h.plain (by rw [hform]; rfl) (by rw [hform]; rfl) (by rw [hform]; exact hc)
      refine (Opens.bind (.all fun c hc => (hchild c (List.mem_append_left _ hc)).here) fun _ =>
        .withModifiers ms (memberParts (fun c hc => hchild c (List.mem_append_right _ hc))
          cls n ms)).ofParts fun i => ?_
      have hchildren := n.form.count_numbers_children_le i
      rw [hform] at hchildren ⊢
      simpa [Form.children] using hchildren
  | _ => exact (Opens.const fun _ => .pure ()).ofCount fun i => Nat.zero_le _

theorem classParts (h : W.Covers n) (cls : SymbolId) :
    Opens (numbers (n.classLike.typeParameters.getD []) ++ (numbers n.classLike.base ++
      (numbers n.classLike.interfaces ++ numbers n.classLike.members))) (W.within n.id)
      fun walk => Binder.classParts walk n cls := by
  have hpart : ∀ c ∈ n.classLike.typeParameters.getD [] ++ n.classLike.interfaces ++
      n.classLike.members, (W.within n.id).Covers c := fun c hc =>
    h.into (Node.way_classPart hc) rfl
  refine .after (fun base => .change fun b hb => (declares base).setSymbolOf b _ _ hb) fun _ =>
    .after (fun base => (declares base).declareTypeParameters _) fun _ => ?_
  refine .bind (.all fun c hc => ?_) fun _ => .bind (.optional fun c hc => ?_) fun _ =>
    .bind (.all fun c hc => ?_) fun _ => .forM fun c hc => ?_
  · exact (hpart c (List.mem_append_left _ (List.mem_append_left _ hc))).here
  · exact (h.into (Node.way_base hc) rfl).here
  · exact (hpart c (List.mem_append_left _ (List.mem_append_right _ hc))).here
  · exact classMember (hpart c (List.mem_append_right _ hc)) cls

theorem class_ (h : W.Covers n) (declared? : Option SymbolId) :
    Opens (numbers n) W fun walk => Binder.class_ walk n declared? := by
  have hdecorators : ∀ c ∈ n.classLike.decorators, W [] c := fun c hc =>
    (h.stay (Node.way_decorator hc)).here
  have hwhole {symbol : Binder SymbolId} (hsymbol : ∀ base, Keeps (Opened [] base) symbol) :
      Opens (numbers n) W fun walk => (do
        n.classLike.decorators.forM walk
        Binder.withModifiers n.classLike.modifiers <| Binder.inScope .class_ n.id do
          Binder.classParts walk n (← symbol)) := by
    have hparts := (Opens.after hsymbol fun cls => classParts h cls).inScope .class_
    refine (Opens.bind (.all hdecorators) fun _ => hparts.withModifiers _).ofCount fun i => ?_
    have hcount := n.count_classLike_le i
    rw [← List.singleton_append]
    simp only [ClassLike.children, numbers_append, numbers_toList, List.count_append] at hcount ⊢
    omega
  cases declared? with
  | none => exact hwhole fun base => (declares base).classExpressionSymbol n
  | some id => exact hwhole fun base => .pure id

theorem classStatement {cls : Node} (h : W.Covers cls) (n : Node) :
    Opens (numbers cls) W fun walk => Binder.classStatement walk n cls := by
  refine .withModifiers _ ?_
  cases cls.classLike.name with
  | none =>
      exact .after (fun base => .changeGet fun b hb => (declares base).newSymbol b _ _ hb)
        fun id => class_ h (some id)
  | some name =>
      exact .after (fun base => (declares base).declareHere name _ _ _) fun id => class_ h (some id)

/-- An interface or type alias has a scope for its type parameters. -/
theorem typeDeclaration (h : W.Covers n) (hsplits : n.form.splits = false)
    (hopens : n.form.opens = true) (name : Identifier) (kind : DeclarationKind) (ms : Modifiers)
    (types? : Option (List Node)) :
    Opens (numbers n) W fun walk => Binder.typeDeclaration walk n name kind ms types? :=
  .after (fun base => (declares base).declareHere name kind _ _) fun _ =>
    inside h (fun base => (declares base).declareTypeParameters _) .block hsplits hopens

theorem enumMember (h : W.Covers n) (owner : SymbolId) :
    Opens (numbers n) W fun walk => Binder.enumMember walk owner n := by
  have hwalk : Opens (numbers n) W fun walk => walk n := .walk h.here
  unfold Binder.enumMember
  cases n.form with
  | enumMember key value? =>
      refine .after (fun base => (declares base).declareMember (t := .exports owner) rfl n key rfl)
        fun id? => ?_
      cases id? with
      | none => exact hwalk
      | some id =>
          exact .after (fun base => .change fun b hb => (declares base).setParent b id owner hb)
            fun _ => hwalk
  | _ => exact hwalk

/-- The statements of a namespace, or the namespace after a dot. -/
theorem moduleBody {body : Node} (h : W.Covers body) :
    Opens (numbers body) W fun walk => Binder.moduleBody walk body := by
  unfold Binder.moduleBody
  cases hform : body.form with
  | moduleBlock statements =>
      have hstatements : Opens (numbers statements) W fun walk => statements.forM walk :=
        .all fun c hc => (h.plain (by rw [hform]; rfl) (by rw [hform]; rfl)
          (by rw [hform]; exact hc)).here
      refine hstatements.ofParts fun i => ?_
      rw [hform]
      exact Nat.le_refl _
  | _ => exact .walk h.here

theorem moduleDeclaration (h : W.Covers n) {ms : Modifiers} {name : ModuleName}
    {body? : Option Node} {isGlobal : Bool}
    (hform : n.form = .moduleDeclaration ms name body? isGlobal) :
    Opens (numbers n) W fun walk => Binder.moduleDeclaration walk n ms name body? isGlobal := by
  have hbody : ∀ body ∈ body?, (W.within n.id).Covers body := fun body hbody =>
    h.inside (by rw [hform]; rfl) (by rw [hform]; rfl)
      (by rw [hform]; simp [Form.children, Form.directChildren, Option.mem_def.mp hbody])
  have hwhole : Opens (numbers body?) (W.within n.id) fun walk =>
      body?.forM (Binder.moduleBody walk) := by
    cases body? with
    | none => exact .const fun _ => .pure ()
    | some body =>
        rw [numbers_some]
        exact moduleBody (hbody body rfl)
  refine .withModifiers ms (.after (fun base => (declares base).moduleSymbol? n ms name isGlobal)
    fun id? => ?_)
  have hscope : Opens (numbers n) W fun walk => (Binder.inScope .module_ n.id do
      let scope ← Binder.currentScope
      modify fun b => b.modifyScope scope fun s => { s with container? := id? }
      body?.forM (Binder.moduleBody walk)) := by
    refine Opens.ofScope (.inScope .module_ <| .after (fun _ => .currentScope) fun scope =>
      .after (fun base => .change fun b hb => (declares base).setContainer b scope id? hb) fun _ =>
        hwhole) fun i => ?_
    rw [hform]
    simp [Form.parts, Form.directChildren]
  cases id? with
  | none => exact hscope
  | some id =>
      exact .after (fun base => .change fun b hb => (declares base).setSymbolOf b n.id id hb)
        fun _ => hscope

theorem catchClause (h : W.Covers n) {binding? : Option Node} {body : Node}
    (hform : n.form = .catchClause binding? body) :
    Opens (numbers n) W fun walk => Binder.catchClause walk n binding? body := by
  have hchild : ∀ c ∈ binding?.toList ++ [body], (W.within n.id).Covers c := fun c hc =>
    h.inside (by rw [hform]; rfl) (by rw [hform]; rfl) (by rw [hform]; exact hc)
  have hbody : Opens (numbers body) (W.within n.id) fun walk => walk body :=
    .walk (hchild body (List.mem_append_right _ (List.mem_singleton.mpr rfl))).here
  have hids : ∀ i, (numbers binding? ++ numbers body).count i ≤ (numbers n.form.parts).count i := by
    intro i
    rw [hform]
    simp [Form.parts, Form.directChildren]
  refine Opens.ofScope (.inScope .catchClause ?_) hids
  cases binding? with
  | none => exact hbody
  | some v =>
      have hboth : Opens (numbers v ++ numbers body) (W.within n.id) fun walk => (do
          walk v
          walk body) :=
        .bind (.walk (hchild v List.mem_cons_self).here) fun _ => hbody
      rw [numbers_some]
      dsimp only
      cases v.form with
      | variableDeclaration name _ _ _ =>
          exact .after (fun _ => .currentScope) fun s =>
            .after (fun base => (declares base).declareBinding s _ rfl _ _) fun _ => hboth
      | _ => exact hboth

theorem genericType (h : W.Covers n) (hsplits : n.form.splits = false)
    (hopens : n.form.opens = true) (f : FunctionLike) :
    Opens (numbers n) W fun walk => Binder.genericType walk n f := by
  unfold Binder.genericType
  cases f.typeParameters with
  | none => exact below h
  | some types =>
      exact inside h (fun base => (declares base).declareTypeParameters _) .block hsplits hopens

theorem typeElement (h : W.Covers n) (hsplits : n.form.splits = false)
    (hopens : n.form.opens = true) (element : Form) :
    Opens (numbers n) W fun walk => Binder.typeElement walk n element := by
  unfold Binder.typeElement
  cases element with
  | methodSignature _ _ f | callSignature f | constructSignature f =>
      exact genericType h hsplits hopens f
  | _ => exact below h

theorem variableParts {kind : VariableKind} {ns : List Node} (h : ∀ c ∈ ns, W.Covers c)
    (isExported : Bool) :
    Opens (numbers ns) W fun walk => (do
      Binder.declareVariables kind ns isExported
      ns.forM walk) :=
  .after (fun base => (declares base).declareVariables kind ns isExported) fun _ =>
    .all fun c hc => (h c hc).here

/-- A list of variables, which is one node below its statement. -/
theorem variableList (h : W.Covers n) {kind : VariableKind} {ns : List Node}
    (hform : n.form = .variableList kind ns) (isExported : Bool) :
    Opens (numbers n) W fun walk => (do
      Binder.declareVariables kind ns isExported
      ns.forM walk) := by
  refine (variableParts (fun c hc => h.plain ?_ ?_ ?_) isExported).ofParts fun i => ?_ <;>
    rw [hform]
  · rfl
  · rfl
  · exact hc
  · exact Nat.le_refl _

theorem functionStatement {func : Node} (h : W.Covers func) (n : Node) (ms : Modifiers)
    (name? : Option Identifier) :
    Opens (numbers func) W fun walk => (Binder.withModifiers ms do
      if let some name := name? then
        let _ ← Binder.declareHere name (.function func.func.body.isSome) n.span ms.isExport
      Binder.function walk func none) := by
  refine .withModifiers ms ?_
  cases name? with
  | none => exact function h none
  | some name =>
      exact .after (fun base => (declares base).declareHere name _ _ _) fun _ => function h none

/-- The binder opens scopes for numbers in the node that it visits, and goes on along the paths
down from it. -/
theorem step (hn : W.Covers n) : Opens (numbers n) W fun walk => Binder.step walk n := by
  unfold Binder.step
  cases hform : n.form with
  | forStmt _ _ _ _ | forInStmt _ _ _ | forOfStmt _ _ _ _ | block _ _ _ | conditionalType _ _ _ _ =>
      exact scopedBelow hn .block (by rw [hform]; rfl) (by rw [hform]; rfl)
  | switchStmt subject clauses => exact switchStmt hn hform
  | varStmt ms list =>
      refine ofChild hn (c := list) (by rw [hform]; exact List.mem_cons_self) fun W h => ?_
      dsimp only
      cases hlist : list.form with
      | variableList kind ns => exact .withModifiers ms (variableList h hlist _)
      | _ => exact (Opens.const fun _ => .pure ()).ofCount fun i => Nat.zero_le _
  | variableList kind ns => exact variableList hn hform false
  | functionStmt ms name? func =>
      exact ofChild hn (c := func) (by rw [hform]; exact List.mem_cons_self) fun W h =>
        functionStatement h n ms name?
  | functionExpr _ name? func =>
      exact ofChild hn (c := func) (by rw [hform]; exact List.mem_cons_self) fun W h =>
        function h name?
  | functionLike _ => exact function hn none
  | arrowFunction f _ =>
      refine Opens.ofScope (.inScope .function <| functionParts fun c hc =>
        hn.inside (by rw [hform]; rfl) (by rw [hform]; rfl) (by rw [hform]; exact hc)) fun i => ?_
      rw [hform]
      exact Nat.le_refl _
  | classStmt cls =>
      exact ofChild hn (c := cls) (by rw [hform]; exact List.mem_cons_self) fun W h =>
        classStatement h n
  | classExpr cls =>
      exact ofChild hn (c := cls) (by rw [hform]; exact List.mem_cons_self) fun W h =>
        class_ h none
  | interfaceStmt ms name types? _ _ | typeAliasStmt ms name types? _ =>
      exact typeDeclaration hn (by rw [hform]; rfl) (by rw [hform]; rfl) name _ ms types?
  | enumStmt ms name members =>
      have hmembers : Opens (numbers members) W fun walk => Binder.enumDeclaration walk n ms name
          members :=
        .withModifiers ms <| .after (fun base => (declares base).declareHere name _ _ _) fun id =>
          .forM fun c hc => enumMember (hn.plain (by rw [hform]; rfl) (by rw [hform]; rfl)
            (by rw [hform]; exact hc)) id
      refine hmembers.ofParts fun i => ?_
      rw [hform]
      simp [Form.parts, Form.directChildren]
  | moduleDeclaration ms name body? isGlobal => exact moduleDeclaration hn hform
  | importStmt _ clause? _ _ =>
      exact (Opens.const fun base => .option fun clause =>
        (declares base).declareImport clause _).ofCount fun i => Nat.zero_le _
  | importEqualsStmt ms isTypeOnly name _ =>
      exact (Opens.const fun base => (declares base).declareAlias name isTypeOnly _ _).ofCount
        fun i => Nat.zero_le _
  | catchClause binding? body => exact catchClause hn hform
  | functionType f | constructorType _ f =>
      exact genericType hn (by rw [hform]; rfl) (by rw [hform]; rfl) f
  | mappedType _ key _ _ _ =>
      exact inside hn (fun base => (declares base).declareTypeParameter _ key) .block
        (by rw [hform]; rfl) (by rw [hform]; rfl)
  | inferType bound =>
      exact .after (fun base => (declares base).declareTypeParameter [] bound) fun _ => below hn
  | typeElement _ element =>
      exact typeElement hn (by rw [hform]; rfl) (by rw [hform]; rfl) element
  | _ => exact below hn

end Opens

theorem opensWithin_walkNode (fuel : Nat) : OpensWithin (walkNode fuel) := by
  induction fuel with
  | zero =>
      intro m p b
      exact (Opened.refl b).mono (List.nil_subset _)
  | succ fuel ih =>
      intro m p b
      exact (Opens.step (W := m.Path) fun _ _ hpath => hpath).opened ih p b

end Binder
end Erasure

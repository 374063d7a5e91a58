import Erasure.Check.File
import Erasure.Print.ValueUse
import Erasure.Proofs.Scope.Visits

/-!
Where the walks that read scopes stand. The walk over used values and the checker enter again the
scopes that the binder recorded: on the path to a node that they visit, each enters the scopes that
it sees. The first one sees the scope of a `switch` at its subject, and neither sees the scope of a
class at its base.
-/

namespace Erasure

/-- The scope at the end of a path, for a walk that enters the recorded scopes that it sees. -/
def Bindings.follow (b : Bindings) (sees : Passage → Bool) (start : ScopeId)
    (ws : List Passage) : ScopeId :=
  ws.foldl (fun scope w => if sees w then (b.scopeOf? w.node).getD scope else scope) start

theorem Bindings.follow_append (b : Bindings) (sees : Passage → Bool) (start : ScopeId)
    (ws ws' : List Passage) :
    b.follow sees start (ws ++ ws') = b.follow sees (b.follow sees start ws) ws' :=
  List.foldl_append

namespace Passage

/-- The passages that the walk over used values sees. -/
def isUsed : Passage → Bool
  | scope _ | subject _ => true
  | base _ => false

end Passage

/-- A path from a statement of a file down to a node. -/
def SourceFile.Path (f : SourceFile) (ws : List Passage) (n : Node) : Prop :=
  ∃ statement ∈ f.statements, statement.Path ws n

/-- A scope is the one that a walk has at a node, if it enters the scopes that it sees. -/
def SourceFile.StandsAt (f : SourceFile) (b : Bindings) (sees : Passage → Bool) (n : Node)
    (scope : ScopeId) : Prop :=
  ∃ ws, f.Path ws n ∧ scope = b.follow sees Bindings.rootScope ws

namespace SourceFile.StandsAt

variable {f : SourceFile} {b : Bindings} {sees : Passage → Bool} {n c m : Node}
  {scope : ScopeId}

theorem of_mem (h : n ∈ f.statements) : f.StandsAt b sees n Bindings.rootScope :=
  ⟨[], ⟨n, h, .here n⟩, rfl⟩

theorem way (h : f.StandsAt b sees n scope) {w? : Option Passage} (hway : n.Way w? c) :
    f.StandsAt b sees c (b.follow sees scope w?.toList) := by
  obtain ⟨ws, ⟨s, hs, hpath⟩, rfl⟩ := h
  exact ⟨_, ⟨s, hs, hpath.child hway⟩, (b.follow_append sees _ ws _).symm⟩

/-- A part without a scope. -/
theorem stay (h : f.StandsAt b sees n scope) (hway : n.Way none c) : f.StandsAt b sees c scope :=
  h.way hway

/-- A part beside a scope that the walk does not see. -/
theorem pass (h : f.StandsAt b sees n scope) {w : Passage} (hway : n.Way (some w) c)
    (hw : sees w = false) : f.StandsAt b sees c scope := by
  have hc := h.way hway
  simpa [Bindings.follow, hw] using hc

/-- A part in a scope that the walk sees. -/
theorem enter (h : f.StandsAt b sees n scope) {w : Passage} (hway : n.Way (some w) c)
    (hw : sees w = true) : f.StandsAt b sees c ((b.scopeOf? w.node).getD scope) := by
  have hc := h.way hway
  simpa [Bindings.follow, hw] using hc

theorem plain (h : f.StandsAt b sees n scope) (hsplits : n.form.splits = false)
    (hopens : n.form.opens = false) (hc : c ∈ n.form.children) : f.StandsAt b sees c scope :=
  h.stay (.plain hsplits hopens hc)

theorem visited (h : ∀ c ∈ n.form.children, f.StandsAt b sees c scope) :
    ∀ m ∈ n.visited, f.StandsAt b sees m scope :=
  Node.forall_visited h fun _ hc hinner _ hm =>
    hc.plain (Form.splits_of_isInner hinner) (Form.opens_of_isInner hinner) hm

end SourceFile.StandsAt

namespace ValueUses

/-- The walk over used values stands in the scope that the path to a node leads to. -/
def At (f : SourceFile) (b : Bindings) : Node → ScopeId → Prop := f.StandsAt b Passage.isUsed

section
variable {f : SourceFile} {b : Bindings} {n : Node} {p : ScopeId} (h : At f b n p)
include h

theorem visits_below (hsplits : n.form.splits = false) (hopens : n.form.opens = false) :
    VisitsOnly (At f b) p fun walk : NodeWalk ScopeId ValueUses => n.visited.forM walk :=
  .all (SourceFile.StandsAt.visited fun _ hc => h.plain hsplits hopens hc)

theorem visits_inScopeOf (hsplits : n.form.splits = false) (hopens : n.form.opens = true) :
    VisitsOnly (At f b) p fun walk => inScopeOf b n.id (n.visited.forM walk) :=
  .withReader <| .all <| SourceFile.StandsAt.visited fun _ hc =>
    h.enter (.into hsplits hopens hc) rfl

theorem visits_switch {subject : Node} {clauses : List Node}
    (hform : n.form = .switchStmt subject clauses) :
    VisitsOnly (At f b) p fun walk => inScopeOf b n.id (n.visited.forM walk) := by
  refine .withReader <| .all <| SourceFile.StandsAt.visited fun c hc => ?_
  rw [hform] at hc
  rcases List.mem_cons.mp hc with rfl | hc
  · exact h.enter (.subject hform) rfl
  · exact h.enter (.clause hform hc) rfl

theorem visits_classParts {c : ClassLike} (hform : n.form = .classLike c) :
    VisitsOnly (At f b) p fun walk => classParts b walk n c := by
  refine .bind (.all fun d hd => h.stay (.decorator hform hd)) fun _ => ?_
  have hmembers : VisitsOnly (At f b) p fun walk => inScopeOf b n.id (c.members.forM walk) :=
    .withReader <| .all fun m hm => h.enter (.classPart hform (List.mem_append_right _ hm)) rfl
  cases hbase : c.base with
  | none => exact hmembers
  | some base =>
      have hat : At f b base p := h.pass (.base hform hbase) rfl
      dsimp only
      cases hheritage : base.form with
      | heritage isType expression types? =>
          refine .bind (.walk (hat.plain ?_ ?_ ?_)) fun _ => hmembers <;> rw [hheritage]
          · rfl
          · rfl
          · exact List.mem_cons_self
      | _ => exact hmembers

/-- What the walk over used values visits from a node stands where the paths on lead to. -/
theorem visits_step : VisitsOnly (At f b) p fun walk => step b walk n := by
  unfold step
  refine .ite (fun _ => .const _) fun hvalue => ?_
  cases hform : n.form with
  | forStmt _ _ _ _ | forInStmt _ _ _ | forOfStmt _ _ _ _ | block _ _ _ | arrowFunction _ _
  | catchClause _ _ =>
      exact visits_inScopeOf h (by rw [hform]; rfl) (by rw [hform]; rfl)
  | switchStmt subject clauses => exact visits_switch h hform
  | functionLike f =>
      exact .ite (fun _ => .const _) fun _ =>
        visits_inScopeOf h (by rw [hform]; rfl) (by rw [hform]; rfl)
  | moduleDeclaration ms name body? isGlobal =>
      exact .ite (fun _ => .const _) fun _ =>
        visits_inScopeOf h (by rw [hform]; rfl) (by rw [hform]; rfl)
  | classLike c => exact .ite (fun _ => .const _) fun _ => visits_classParts h hform
  | classMember decorators ms member =>
      exact .ite (fun _ => .const _) fun _ =>
        visits_below h (by rw [hform]; rfl) (by rw [hform]; rfl)
  | objectLiteral properties layout =>
      exact .after fun _ => visits_below h (by rw [hform]; rfl) (by rw [hform]; rfl)
  | identifier name => exact .const _
  | exportStmt ms isTypeOnly clause? specifier? attributes? =>
      have hbelow := visits_below h (by rw [hform]; rfl) (by rw [hform]; rfl)
      rcases clause? with _ | _ | specifiers
      · exact hbelow
      · exact hbelow
      · cases specifier? with
        | none => exact .const _
        | some specifier => exact hbelow
  | importEqualsStmt ms isTypeOnly name reference =>
      have hbelow := visits_below h (by rw [hform]; rfl) (by rw [hform]; rfl)
      cases reference with
      | entity reference => exact .const _
      | external specifier => exact hbelow
  | _ =>
      first
      | exact visits_below h (by rw [hform]; rfl) (by rw [hform]; rfl)
      | (rw [hform] at hvalue; exact (hvalue rfl).elim)

end

end ValueUses

theorem Node.way_func {n c : Node} (hc : c ∈ n.func.children) :
    n.Way (some (.scope n.id)) c := by
  unfold func Form.function? at hc
  split at hc
  · rename_i f hform
    refine .into ?_ ?_ ?_ <;> rw [hform]
    · rfl
    · rfl
    · exact hc
  · cases hc

/-- Statements with a scope around all of their parts. -/
def Form.isScopedStatement : Form → Bool
  | .forStmt _ _ _ _ | .forInStmt _ _ _ | .forOfStmt _ _ _ _ | .interfaceStmt _ _ _ _ _
  | .typeAliasStmt _ _ _ _ => true
  | _ => false

namespace Check

/-- The checker stands in the scope that the path to a node leads to, and checks the same file. -/
def At (f : SourceFile) (b : Bindings) (n : Node) (p : CheckPlace) : Prop :=
  p.job.bindings = b ∧ f.StandsAt b Passage.isInto n p.scope

section
variable {f : SourceFile} {b : Bindings} {n c : Node} {p : CheckPlace} (h : At f b n p)
include h

theorem At.stay (hway : n.Way none c) : At f b c p := ⟨h.1, h.2.stay hway⟩

theorem At.plain (hsplits : n.form.splits = false) (hopens : n.form.opens = false)
    (hc : c ∈ n.form.children) : At f b c p :=
  h.stay (.plain hsplits hopens hc)

/-- A part in the scope of a node. -/
theorem At.enter (hway : n.Way (some (.scope n.id)) c) :
    At f b c { p with scope := (p.job.bindings.scopeOf? n.id).getD p.scope } := by
  refine ⟨h.1, ?_⟩
  rw [h.1]
  exact h.2.enter hway rfl

theorem At.into (hsplits : n.form.splits = false) (hopens : n.form.opens = true)
    (hc : c ∈ n.form.children) :
    At f b c { p with scope := (p.job.bindings.scopeOf? n.id).getD p.scope } :=
  h.enter (.into hsplits hopens hc)

omit h in
theorem At.visited (h : ∀ c ∈ n.form.children, At f b c p) : ∀ m ∈ n.visited, At f b m p :=
  Node.forall_visited h fun _ hc hinner _ hm =>
    hc.plain (Form.splits_of_isInner hinner) (Form.opens_of_isInner hinner) hm

theorem visits_below (hsplits : n.form.splits = false) (hopens : n.form.opens = false) :
    VisitsOnly (At f b) p fun walk : NodeWalk CheckPlace CheckState => n.visited.forM walk :=
  .all (At.visited fun _ hc => h.plain hsplits hopens hc)

theorem visits_inScopeOf (hsplits : n.form.splits = false) (hopens : n.form.opens = true) :
    VisitsOnly (At f b) p fun walk => inScopeOf n.id (n.visited.forM walk) :=
  .withReader <| .all <| At.visited fun _ hc => h.into hsplits hopens hc

theorem visits_function (owner : FunctionOwner) :
    VisitsOnly (At f b) p fun walk => function walk owner n :=
  .after fun _ => .after fun _ => .withReader <| .withReader <| .all fun c hc => by
    have hat := h.enter (Node.way_func hc)
    exact hat

theorem visits_arrowFunction {g : FunctionLike} {isBare : Bool}
    (hform : n.form = .arrowFunction g isBare) :
    VisitsOnly (At f b) p fun walk => arrowFunction walk n g := by
  refine .after fun around => .after fun _ => .withReader <| .withReader ?_
  have hparts : VisitsOnly (At f b)
      { p with
        scope := (p.job.bindings.scopeOf? n.id).getD p.scope
        function := arrowPlace around g, jumpTargets := [] }
      fun walk : NodeWalk CheckPlace CheckState => g.children.forM walk :=
    .all fun c hc => h.into (by rw [hform]; rfl) (by rw [hform]; rfl) (by rw [hform]; exact hc)
  cases g.body with
  | none => exact hparts
  | some body =>
      cases (arrowPlace around g).returnType? with
      | none => exact hparts
      | some type => exact .ite (fun _ => .after fun _ => hparts) fun _ => hparts

omit h in
theorem visits_field {key : Node} {type? initial? : Option Node} (hkey : At f b key p)
    (htype : ∀ t ∈ type?, At f b t p) (hinitial : ∀ t ∈ initial?, At f b t p) (isStatic : Bool) :
    VisitsOnly (At f b) p fun walk => field walk key type? initial? isStatic := by
  refine .after fun around => .bind (.walk hkey) fun _ => .bind (.optional htype) fun _ =>
    .option fun initial hmem => ?_
  have hwalk : VisitsOnly (At f b) p fun walk : NodeWalk CheckPlace CheckState =>
      inFunction (fieldPlace around isStatic) (walk initial) :=
    .withReader (.walk (hinitial initial hmem))
  exact .ite (fun _ => .after fun _ => hwalk) fun _ => hwalk

omit h in
theorem visits_functionMember {key func : Node} (hkey : At f b key p) (hfunc : At f b func p)
    (isStatic : Bool) :
    VisitsOnly (At f b) p fun walk => functionMember walk key func isStatic :=
  .bind (.walk hkey) fun _ => visits_function hfunc _

omit h in
theorem visits_memberForm {member : Form} (h : ∀ c ∈ member.directChildren, At f b c p)
    (isStatic : Bool) : VisitsOnly (At f b) p fun walk => memberForm walk isStatic member := by
  cases member with
  | propertyMember key _ _ type? initial? =>
      refine visits_field (h key List.mem_cons_self) (fun t ht => h t ?_) (fun t ht => h t ?_) _
      · simp [Form.directChildren, Option.mem_def.mp ht]
      · simp [Form.directChildren, Option.mem_def.mp ht]
  | methodMember key _ func | getterMember key func | setterMember key func =>
      exact visits_functionMember (h key List.mem_cons_self)
        (h func (List.mem_cons_of_mem _ List.mem_cons_self)) _
  | constructorMember func => exact visits_function (h func List.mem_cons_self) _
  | indexMember parameters type? =>
      refine .bind (.all fun c hc => h c (List.mem_append_left _ hc)) fun _ =>
        .optional fun t ht => h t (List.mem_append_right _ ?_)
      simp [Option.mem_def.mp ht]
  | staticBlock body => exact .after fun _ => .withReader (.walk (h body List.mem_cons_self))
  | _ => exact .const _

theorem visits_classMember {decorators : List Node} {ms : Modifiers} {member : Form}
    (hform : n.form = .classMember decorators ms member) :
    VisitsOnly (At f b) p fun walk => classMember walk decorators ms member := by
  have hchild : ∀ c ∈ decorators ++ member.directChildren, At f b c p := fun c hc =>
    h.plain (by rw [hform]; rfl) (by rw [hform]; rfl) (by rw [hform]; exact hc)
  refine .bind (.all fun d hd => hchild d (List.mem_append_left _ hd)) fun _ =>
    .withReader (visits_memberForm (fun c hc => ?_) _)
  exact hchild c (List.mem_append_right _ hc)

theorem visits_class {c : ClassLike} (hform : n.form = .classLike c) :
    VisitsOnly (At f b) p fun walk => class_ walk n c := by
  have hpart : ∀ m ∈ c.typeParameters.getD [] ++ c.interfaces ++ c.members,
      At f b m { p with scope := (p.job.bindings.scopeOf? n.id).getD p.scope } := fun m hm =>
    h.enter (.classPart hform hm)
  refine .bind (.all fun d hd => h.stay (.decorator hform hd)) fun _ => .withReader ?_
  refine .bind (.optional fun base hbase => ⟨h.1, h.2.pass (.base hform hbase) rfl⟩) fun _ => ?_
  refine .after fun _ => .withReader <| .withReader <| .after fun _ => ?_
  refine .bind (.all fun m hm => ?_) fun _ => .bind (.all fun m hm => ?_) fun _ =>
    .all fun m hm => ?_
  · exact hpart m (List.mem_append_left _ (List.mem_append_left _ hm))
  · exact hpart m (List.mem_append_left _ (List.mem_append_right _ hm))
  · exact hpart m (List.mem_append_right _ hm)

/-- An element of an object is visited in its parts. -/
theorem visits_objectElement : VisitsOnly (At f b) p fun walk => objectElement walk n := by
  have hpart (hinner : n.form.isInner = true) : ∀ c ∈ n.form.children, At f b c p := fun _ hc =>
    h.plain (Form.splits_of_isInner hinner) (Form.opens_of_isInner hinner) hc
  unfold objectElement
  cases hform : n.form with
  | shorthandProperty name initial? =>
      refine .after fun _ => .optional fun c hc => hpart (by rw [hform]; rfl) c ?_
      rw [hform]
      simp [Form.children, Form.directChildren, Option.mem_def.mp hc]
  | methodProperty key func | getterProperty key func | setterProperty key func =>
      rw [hform] at hpart
      exact .bind (.walk (hpart rfl key List.mem_cons_self)) fun _ =>
        visits_function (hpart rfl func (List.mem_cons_of_mem _ List.mem_cons_self)) _
  | _ => exact .walk h

theorem visits_type (hsplits : n.form.splits = false) (hopens : n.form.opens = true) :
    VisitsOnly (At f b) p fun walk => type walk n := by
  have hparts : VisitsOnly (At f b)
      { p with scope := (p.job.bindings.scopeOf? n.id).getD p.scope, isInType := true }
      fun walk : NodeWalk CheckPlace CheckState => n.visited.forM walk :=
    .all (At.visited fun _ hc => h.into hsplits hopens hc)
  refine .withReader <| .withReader ?_
  cases n.form with
  | referenceType name types? => exact .after fun _ => hparts
  | functionType g | constructorType _ g => exact .after fun _ => hparts
  | _ => exact hparts

theorem visits_typeElement (element : Form) (hsplits : n.form.splits = false)
    (hopens : n.form.opens = true) :
    VisitsOnly (At f b) p fun walk => typeElement walk n element := by
  have hparts : VisitsOnly (At f b)
      { p with scope := (p.job.bindings.scopeOf? n.id).getD p.scope }
      fun walk : NodeWalk CheckPlace CheckState => n.visited.forM walk :=
    .all (At.visited fun _ hc => h.into hsplits hopens hc)
  refine .withReader ?_
  cases element with
  | methodSignature _ _ g | callSignature g | constructSignature g => exact .after fun _ => hparts
  | _ => exact hparts

theorem visits_moduleDeclaration {ms : Modifiers} {name : ModuleName} {body? : Option Node}
    {isGlobal : Bool} (hform : n.form = .moduleDeclaration ms name body? isGlobal) :
    VisitsOnly (At f b) p fun walk => moduleDeclaration walk n ms name body? isGlobal := by
  refine .withReader <| .withReader <| .withReader <| .bind ?_ fun _ => .all ?_
  · cases body? with
    | none => exact .const _
    | some body => exact .const _
  · exact At.visited fun _ hc => h.into (by rw [hform]; rfl) (by rw [hform]; rfl) hc

omit h in
theorem visits_returnStatement {value? : Option Node} (hvalue : ∀ v ∈ value?, At f b v p) :
    VisitsOnly (At f b) p fun walk => returnStatement walk n value? := by
  have hwalk : VisitsOnly (At f b) p fun walk : NodeWalk CheckPlace CheckState =>
      value?.forM walk :=
    .optional hvalue
  refine .after fun around => .ite (fun _ => .after fun _ => hwalk) fun _ => ?_
  cases value? with
  | none => exact hwalk
  | some value =>
      cases around.function.returnType? with
      | none => exact hwalk
      | some type => exact .ite (fun _ => .after fun _ => hwalk) fun _ => hwalk

theorem visits_loop (head? : Option Node) (hsplits : n.form.splits = false)
    (hopens : n.form.opens = true) : VisitsOnly (At f b) p fun walk => loop walk n head? :=
  .withReader <| .bind (.const _) fun _ => .withReader <| .all <|
    At.visited fun _ hc => h.into hsplits hopens hc

omit h in
theorem visits_enumStatement {members : List Node} (name : Identifier)
    (hmembers : ∀ m ∈ members, At f b m p) :
    VisitsOnly (At f b) p fun walk => enumStatement walk name members := by
  refine .after fun around => .withReader ?_
  have hwalk : VisitsOnly (At f b)
      { p with currentEnum? := around.job.bindings.symbolOf? name.id }
      fun walk : NodeWalk CheckPlace CheckState => members.forM walk :=
    .all hmembers
  exact .ite (fun _ => .after fun _ => hwalk) fun _ => hwalk

omit h in
theorem visits_exportAssignment {value : Node} (isEquals : Bool) (hvalue : At f b value p) :
    VisitsOnly (At f b) p fun walk => exportAssignment walk n isEquals value := by
  unfold exportAssignment
  cases value.identifier? with
  | none => exact .ite (fun _ => .after fun _ => .walk hvalue) fun _ => .walk hvalue
  | some name => exact .ite (fun _ => .after fun _ => .const _) fun _ => .const _

theorem visits_switch {subject : Node} {clauses : List Node}
    (hform : n.form = .switchStmt subject clauses) :
    VisitsOnly (At f b) p fun walk : NodeWalk CheckPlace CheckState => (do
      walk subject
      inScopeOf n.id (withTarget .switch (clauses.forM walk))) :=
  .bind (.walk ⟨h.1, h.2.pass (.subject hform) rfl⟩) fun _ =>
    .withReader <| .withReader <| .all fun _ hc => h.enter (.clause hform hc)

/-- A statement, or an expression without rules of its own. -/
theorem visits_statementForm (hclass : ∀ c, n.form ≠ .classLike c)
    (hscope : n.form.opens = true → n.form.isScopedStatement = true) :
    VisitsOnly (At f b) p fun walk => statementForm walk n := by
  have hbelow (hsplits : n.form.splits = false) (hopens : n.form.opens = false) :=
    visits_below h hsplits hopens
  have hpart (hsplits : n.form.splits = false) (hopens : n.form.opens = false) :
      ∀ c ∈ n.form.children, At f b c p := fun _ hc => h.plain hsplits hopens hc
  unfold statementForm
  cases hform : n.form with
  | returnStmt value? =>
      rw [hform] at hpart
      refine visits_returnStatement fun v hv => hpart rfl rfl v ?_
      simp [Form.children, Form.directChildren, Option.mem_def.mp hv]
  | breakStmt label? | continueStmt label? => exact .after fun _ => .const _
  | doStmt body condition | whileStmt condition body =>
      rw [hform] at hbelow
      exact .withReader (visits_below (p := { p with jumpTargets := _ }) h (by rw [hform]; rfl)
        (by rw [hform]; rfl))
  | forStmt _ _ _ _ | forInStmt _ _ _ | forOfStmt _ _ _ _ =>
      exact visits_loop h _ (by rw [hform]; rfl) (by rw [hform]; rfl)
  | switchStmt subject clauses => exact visits_switch h hform
  | labeledStmt label body =>
      rw [hform] at hpart
      exact .withReader (.walk (hpart rfl rfl body List.mem_cons_self))
  | enumStmt ms name members =>
      rw [hform] at hpart
      exact visits_enumStatement name (hpart rfl rfl)
  | interfaceStmt _ _ _ _ _ | typeAliasStmt _ _ _ _ =>
      exact visits_inScopeOf h (by rw [hform]; rfl) (by rw [hform]; rfl)
  | importEqualsStmt ms isTypeOnly name reference =>
      cases reference with
      | entity reference =>
          rw [hform] at hbelow
          exact hbelow rfl rfl
      | external specifier => exact .ite (fun _ => .const _) fun _ => .const _
  | exportAssignment isEquals value =>
      rw [hform] at hpart
      exact visits_exportAssignment isEquals (hpart rfl rfl value List.mem_cons_self)
  | exportStmt ms isTypeOnly clause? specifier? attributes? =>
      rw [hform] at hbelow
      have hvisited := hbelow rfl rfl
      cases isTypeOnly with
      | true => exact hvisited
      | false =>
          rcases clause? with _ | _ | specifiers
          · exact hvisited
          · exact hvisited
          · cases specifier? with
            | none => exact .const _
            | some specifier => exact hvisited
  | withStmt object body =>
      rw [hform] at hpart
      exact .bind (.walk (hpart rfl rfl object List.mem_cons_self)) fun _ =>
        .withReader (.walk (hpart rfl rfl body (List.mem_cons_of_mem _ List.mem_cons_self)))
  | classLike c => exact (hclass c hform).elim
  | _ =>
      rw [hform] at hbelow hscope
      first
      | exact hbelow rfl rfl
      | cases hscope rfl

/-- Types, and syntax without rules of its own. -/
theorem visits_other (hclass : ∀ c, n.form ≠ .classLike c)
    (hscope : n.form.opens = true → n.form.isTypeSyntax = true ∨ n.form.isScopedStatement = true)
    (htype : n.form.isTypeSyntax = true → n.form.splits = false ∧ n.form.opens = true) :
    VisitsOnly (At f b) p fun walk =>
      if n.form.isTypeSyntax then type walk n
      else withModifiers (n.form.modifiers?.getD {}) (statementForm walk n) :=
  .ite (fun h' => visits_type h (htype h').1 (htype h').2) fun h' => .withReader <|
    visits_statementForm (p := { p with isAmbient := _ }) h hclass fun hopens =>
      (hscope hopens).resolve_left h'

/-- What the checker visits from a node stands where the paths on lead to. -/
theorem visits_step : VisitsOnly (At f b) p fun walk => step walk n := by
  have hbelow (hsplits : n.form.splits = false) (hopens : n.form.opens = false) :=
    visits_below h hsplits hopens
  have hother := visits_other h
  unfold step
  cases hform : n.form with
  | identifier name => exact .const _
  | superExpr => exact .const _
  | binary left operator right _ _ =>
      rw [hform] at hbelow
      exact .bind (hbelow rfl rfl) fun _ => .const _
  | prefixUnary operator operand | postfixUnary operator operand =>
      rw [hform] at hbelow
      exact .bind (hbelow rfl rfl) fun _ => .const _
  | objectLiteral properties layout =>
      refine .forM fun e he => visits_objectElement (h.plain ?_ ?_ ?_) <;> rw [hform]
      · rfl
      · rfl
      · exact he
  | arrowFunction g isBare => exact visits_arrowFunction h hform
  | functionLike g => exact visits_function h .nothing
  | classLike c => exact visits_class h hform
  | classMember decorators ms member => exact visits_classMember h hform
  | heritage isType expression types? =>
      have hparts : ∀ c ∈ types?.getD [], At f b c p := fun c hc =>
        h.plain (by rw [hform]; rfl) (by rw [hform]; rfl)
          (by rw [hform]; exact List.mem_cons_of_mem _ hc)
      rw [hform] at hother
      rcases isType with _ | _
      · have hplain := hother (fun c hc => by cases hc) (fun hopens => by cases hopens)
          fun htype => by cases htype
        exact hplain
      · exact .all hparts
  | variableDeclaration name _ type? initial? =>
      rw [hform] at hbelow
      exact .after fun _ => hbelow rfl rfl
  | parameter q =>
      rw [hform] at hbelow
      exact .after fun _ => hbelow rfl rfl
  | block statements _ _ =>
      refine .withReader (.after fun _ => .all (At.visited fun _ hc => h.into ?_ ?_ hc)) <;>
        rw [hform] <;> rfl
  | caseClause _ statements _ =>
      rw [hform] at hbelow
      exact .after fun _ => hbelow rfl rfl
  | catchClause _ _ => exact visits_inScopeOf h (by rw [hform]; rfl) (by rw [hform]; rfl)
  | moduleDeclaration ms name body? isGlobal => exact visits_moduleDeclaration h hform
  | typeElement _ element =>
      exact visits_typeElement h element (by rw [hform]; rfl) (by rw [hform]; rfl)
  | typeParameter _ _ _ _ =>
      rw [hform] at hbelow
      exact hbelow rfl rfl
  | _ =>
      rw [hform] at hother
      refine hother (fun c hc => by cases hc) (fun hopens => ?_) fun htype => ?_
      · first | exact .inl rfl | exact .inr rfl | cases hopens
      · first | exact ⟨rfl, rfl⟩ | cases htype

end
end Check
end Erasure

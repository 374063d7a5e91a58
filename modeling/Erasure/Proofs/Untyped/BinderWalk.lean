import Erasure.Proofs.Untyped.Binder

/-!
The walk of the binder over syntax and over the syntax without its types, one lemma for each part of
the walk.
-/

namespace Erasure.Binder

variable {M N : Matching} {outside : NodeId → Prop} {walk walk' : Node → Binder Unit}

/-- Walks that agree on syntax outside of types; a type is walked over by the first one only. -/
structure WalksAlike (outside : NodeId → Prop) (walk walk' : Node → Binder Unit) : Prop where
  value : ∀ (M : Matching) (n : Node), n.Apart outside →
    Agrees M outside (walk n) (walk' n.untyped) AnyResult
  type : ∀ t : Node, t.Foreign outside → ∀ (p : BinderPlace) (b : Bindings),
    p.scope < b.scopes.size → b.Grown outside (walk t p b).2
  blank : walk' .blankType = pure ()

@[simp]
theorem getD_map_untyped (ns? : Option (List Node)) :
    (ns?.map (List.map Node.untyped)).getD [] = (ns?.getD []).map Node.untyped := by
  cases ns? <;> rfl

namespace Agrees

theorem values (hwalk : WalksAlike outside walk walk') {ns : List Node}
    (hns : ∀ n ∈ ns, n.Apart outside) :
    Agrees M outside (ns.forM walk) ((ns.map Node.untyped).forM walk') AnyResult :=
  .forM fun N _ n hn => hwalk.value N n (hns n hn)

theorem optional (hwalk : WalksAlike outside walk walk') {n? : Option Node}
    (hn : ∀ n ∈ n?, n.Apart outside) :
    Agrees M outside (n?.forM walk) ((n?.map Node.untyped).forM walk') AnyResult :=
  .option fun n hmem => hwalk.value M n (hn n hmem)

/-- A type is walked over on one side only. -/
theorem type (hwalk : WalksAlike outside walk walk') {t : Node} (ht : t.Foreign outside)
    {m m' : Binder Unit} (h : Agrees M outside m m' AnyResult) :
    Agrees M outside (do walk t; m) m' AnyResult := by
  intro N p p' b b' hM hp hb
  have hgrown := hwalk.type t ht p b (hb.scope_lt _ _ hp.scope).1
  exact h N p p' _ b' hM hp (hb.of_grown hgrown)

theorem types (hwalk : WalksAlike outside walk walk') {ts : List Node}
    (hts : ∀ t ∈ ts, t.Foreign outside) {m m' : Binder Unit}
    (h : Agrees M outside m m' AnyResult) : Agrees M outside (do ts.forM walk; m) m' AnyResult := by
  induction ts with
  | nil => exact h
  | cons t ts ih =>
      obtain ⟨ht, hts⟩ := List.forall_mem_cons.mp hts
      exact .type hwalk ht (ih hts)

theorem optionalType (hwalk : WalksAlike outside walk walk') {t? : Option Node}
    (ht : ∀ t ∈ t?, t.Foreign outside) {m m' : Binder Unit}
    (h : Agrees M outside m m' AnyResult) : Agrees M outside (do t?.forM walk; m) m' AnyResult := by
  cases t? with
  | none => exact h
  | some t => exact .type hwalk (ht t rfl) h

theorem erased (hwalk : WalksAlike outside walk walk') {hasClauses : Bool} {ns ms : List Node}
    (h : Erases outside hasClauses ns ms) :
    Agrees M outside (ns.forM walk) (ms.forM walk') AnyResult := by
  induction h generalizing M with
  | nil => exact .unit
  | value hn _ ih => exact .bind (hwalk.value M _ hn) fun _ _ _ _ _ => ih
  | type ht _ _ ih => exact .type hwalk ht ih
  | @blank ns ms _ ih =>
      change Agrees M outside _ (walk' .blankType >>= fun _ => ms.forM walk') AnyResult
      rw [hwalk.blank]
      exact ih

theorem below (hwalk : WalksAlike outside walk walk') {n : Node} (hn : n.Apart outside) :
    Agrees M outside (n.visited.forM walk) (n.untyped.visited.forM walk') AnyResult :=
  .erased hwalk (Node.erases_visited hn)

theorem declareHere {name : Identifier} (hname : outside name.id) (kind : DeclarationKind)
    (span : Span) (isExported : Bool) :
    Agrees M outside (declareHere name kind span isExported) (declareHere name kind span isExported)
      SymbolResult :=
  .bind .currentScope fun _ _ _ _ hs => .declareExcluding hs hname _ _ _ _

theorem declareBinding {s s' : ScopeId} (hs : M.scopes s s') {n : Node} (hn : n.Apart outside)
    (kind : DeclarationKind) (span : Span) (isExported : Bool) :
    Agrees M outside (declareBinding s n kind span isExported)
      (declareBinding s' n.untyped kind span isExported) AnyResult := by
  unfold Binder.declareBinding
  rw [Node.bindingIdentifiers_untyped]
  refine .forM_same fun N hN i hi => ?_
  have hi := Node.Apart.bindingIdentifiers n hn i hi
  exact .bind (.declareExcluding (hN.scopes _ _ hs) hi _ _ _ _) fun _ _ _ _ _ => .unit

theorem declareVariables (kind : VariableKind) {ns : List Node} (hns : ∀ n ∈ ns, n.Apart outside)
    (isExported : Bool) :
    Agrees M outside (declareVariables kind ns isExported)
      (declareVariables kind (ns.map Node.untyped) isExported) AnyResult := by
  intro N p p' b b' hM hp hb
  have hscope : N.scopes (if kind = .var then b.functionContainer p.scope else p.scope)
      (if kind = .var then b'.functionContainer p'.scope else p'.scope) := by
    split
    · exact hb.functionContainer hp.scope
    · exact hp.scope
  refine Agrees.forM (u := Node.untyped) (f := fun d => _) (g := fun d => _) (M := N)
    (fun L hL n hn => ?_) N p p' b b' N.le_refl hp hb
  have hform := (hns n hn).form
  rw [Node.form_untyped, Node.span_untyped]
  cases hn : n.form with
  | variableDeclaration name _ _ _ =>
      rw [hn] at hform
      exact .declareBinding (hL.scopes _ _ hscope) hform.1 _ _ _
  | _ => exact .unit

theorem declareTypeParameter (excluded : SymbolFlags) {n : Node} (hn : n.Apart outside) :
    Agrees M outside (declareTypeParameter excluded n) (declareTypeParameter excluded n.untyped)
      AnyResult := by
  have hname := hn.name
  unfold Binder.declareTypeParameter
  rw [Node.form_untyped, Node.span_untyped]
  cases hform : n.form with
  | typeParameter _ name _ _ =>
      rw [hform] at hname
      have hname := hname name.id (List.mem_singleton.mpr rfl)
      exact .bind .currentScope fun _ _ _ _ hs =>
        .bind (.declareExcluding hs hname _ _ _ _) fun _ _ _ _ _ => .unit
  | _ => exact .unit

theorem declareTypeParameters {ns : List Node} (hns : ∀ n ∈ ns, n.Apart outside) :
    Agrees M outside (declareTypeParameters ns) (declareTypeParameters (ns.map Node.untyped))
      AnyResult :=
  .forM fun _ _ n hn => .declareTypeParameter _ (hns n hn)

theorem declareParameter {n : Node} (hn : n.Apart outside) :
    Agrees M outside (declareParameter n) (declareParameter n.untyped) AnyResult := by
  have hname := hn.parameter.name
  unfold Binder.declareParameter Parameter.isThis
  simp only [Node.parameter_untyped, Parameter.name_untyped, Node.bindingName?_untyped,
    Node.span_untyped]
  split
  · exact .bind .currentScope fun _ _ _ _ hs => .declareBinding hs hname _ _ _
  · exact .unit

theorem declareAlias {name : Identifier} (hname : outside name.id) (isTypeOnly : Bool) (span : Span)
    (isExported : Bool) :
    Agrees M outside (declareAlias name isTypeOnly span isExported)
      (declareAlias name isTypeOnly span isExported) AnyResult :=
  .bind (.declareHere hname _ _ _) fun _ _ _ _ _ => .unit

theorem declareBound {clause : ImportClause} (hclause : ∀ i ∈ clause.nameIds, outside i)
    (span : Span) :
    Agrees M outside (declareBound clause span) (declareBound clause span) AnyResult := by
  unfold Binder.declareBound
  unfold ImportClause.nameIds at hclause
  split
  · rename_i name hform
    rw [hform] at hclause
    exact .declareAlias (hclause _ (List.mem_append_right _ (List.mem_singleton.mpr rfl))) _ _ _
  · rename_i specifiers hform
    rw [hform] at hclause
    refine .forM_same fun _ _ s hs => .declareAlias (hclause _ (List.mem_append_right _ ?_)) _ _ _
    exact List.mem_map.mpr ⟨s, hs, rfl⟩
  · exact .unit

theorem declareImport {clause : ImportClause} (hclause : ∀ i ∈ clause.nameIds, outside i)
    (span : Span) :
    Agrees M outside (declareImport clause span) (declareImport clause span) AnyResult := by
  rw [declareImport_eq]
  refine .bind (R := AnyResult) ?_ fun _ _ _ _ _ => .declareBound hclause span
  cases hname : clause.name? with
  | none => exact .unit
  | some name =>
      refine .declareAlias (hclause _ (List.mem_append_left _ ?_)) _ _ _
      exact List.mem_map.mpr ⟨name, by rw [hname]; exact List.mem_singleton.mpr rfl, rfl⟩

theorem functionBody (hwalk : WalksAlike outside walk walk') {body? : Option Node}
    (hbody : ∀ n ∈ body?, n.Apart outside) :
    Agrees M outside
      (match body? with
        | none => Pure.pure ()
        | some body => if body.form.isBlock then body.statements.forM walk else walk body)
      (match body?.map Node.untyped with
        | none => Pure.pure ()
        | some body => if body.form.isBlock then body.statements.forM walk' else walk' body)
      AnyResult := by
  cases body? with
  | none => exact .unit
  | some body =>
      have hbody := hbody body rfl
      simp only [Option.map_some, Node.form_untyped, Form.isBlock_untyped, Node.statements_untyped]
      split
      · exact .values hwalk hbody.statements
      · exact hwalk.value M body hbody

theorem functionParts (hwalk : WalksAlike outside walk walk') {f : FunctionLike}
    (hf : f.Apart outside) :
    Agrees M outside (functionParts walk f) (functionParts walk' f.untyped) AnyResult := by
  unfold Binder.functionParts
  simp only [FunctionLike.typeParameters_untyped, getD_map_untyped, FunctionLike.parameters_untyped,
    FunctionLike.returnType_untyped, FunctionLike.body_untyped]
  refine .bind (.declareTypeParameters hf.typeParameters) fun _ _ _ _ _ => ?_
  refine .bind (.values hwalk hf.typeParameters) fun _ _ _ _ _ => ?_
  refine .bind (.forM fun _ _ n hn => .declareParameter (hf.parameters n hn)) fun _ _ _ _ _ => ?_
  refine .bind (.values hwalk hf.parameters) fun _ _ _ _ _ => ?_
  exact .optionalType hwalk (fun t ht => (hf.returnType t ht).1) (.functionBody hwalk hf.body)

theorem function (hwalk : WalksAlike outside walk walk') {n : Node} (hn : n.Apart outside)
    {name? : Option Identifier} (hname : ∀ i ∈ name?, outside i.id) :
    Agrees M outside (function walk n name?) (function walk' n.untyped name?) AnyResult := by
  unfold Binder.function
  rw [Node.span_untyped, Node.func_untyped]
  refine .inScope .function n.id_untyped fun N _ => ?_
  cases name? with
  | none => exact .functionParts hwalk hn.func
  | some name =>
      exact .bind (.declareHere (hname name rfl) _ _ _) fun _ _ _ _ _ =>
        .functionParts hwalk hn.func

theorem declareMember {t t' : TableRef} (ht : t.Matches M t') {member : Node}
    (hmember : outside member.id) (key : Node) (kind : DeclarationKind) :
    Agrees M outside (declareMember t member key kind)
      (declareMember t' member.untyped key.untyped kind) fun N => Option.Rel N.symbols := by
  unfold Binder.declareMember
  rw [Node.staticKey?_untyped, Node.id_untyped, Node.span_untyped, Node.span_untyped]
  cases key.staticKey? with
  | none => exact .pure fun _ _ => .none
  | some text =>
      refine .bind (.declaration hmember _ _ _) fun N hN d d' hd => ?_
      refine .bind (.declareIn (ht.mono hN) text hd) fun _ _ _ _ hy => ?_
      exact .pure fun _ hle => .some (hle.symbols _ _ hy)

theorem declareParameterProperty {cls cls' : SymbolId} (hcls : M.symbols cls cls') {n : Node}
    (hn : n.Apart outside) :
    Agrees M outside (declareParameterProperty cls n) (declareParameterProperty cls' n.untyped)
      AnyResult := by
  unfold Binder.declareParameterProperty
  simp only [Node.parameter_untyped, Parameter.modifiers_untyped, Parameter.name_untyped,
    Node.bindingName?_untyped, Node.id_untyped, Node.span_untyped]
  split
  · split
    · refine .bind (.declaration hn.id _ _ _) fun N hN d d' hd => ?_
      exact .bind (.declareIn (.members (hN.symbols _ _ hcls)) _ hd) fun _ _ _ _ _ => .unit
    · exact .unit
  · exact .unit

theorem functionMember (hwalk : WalksAlike outside walk walk') {t t' : TableRef}
    (ht : t.Matches M t') {member key func : Node} (hmember : outside member.id)
    (hkey : key.Apart outside) (hfunc : func.Apart outside) {kind kind' : DeclarationKind}
    (hkind : kind' = kind) :
    Agrees M outside (functionMember walk t member key func kind)
      (functionMember walk' t' member.untyped key.untyped func.untyped kind') AnyResult := by
  subst hkind
  exact .bind (.declareMember ht hmember key kind') fun _ _ _ _ _ =>
    .bind (hwalk.value _ key hkey) fun _ _ _ _ _ => .function hwalk hfunc (by simp)

theorem indexMember (hwalk : WalksAlike outside walk walk') {parameters : List Node}
    {type : Option Node} (hparameters : ∀ p ∈ parameters, p.Apart outside)
    (htype : ∀ t ∈ type, t.Foreign outside) :
    Agrees M outside (indexMember walk parameters type)
      (indexMember walk' (parameters.map Node.untyped) none) AnyResult := by
  refine .bind (.forM fun N _ p hp => ?_) fun L _ _ _ _ => ?_
  · rw [Node.parameter_untyped]
    have hnone : p.parameter.untyped.type = none := by
      cases p.parameter
      rfl
    rw [hnone]
    have htype := (hparameters p hp).parameter.type
    cases hform : p.parameter.type with
    | none => exact .unit
    | some t => exact .type hwalk (htype t hform).1 .unit
  · cases type with
    | none => exact .unit
    | some t => exact .type hwalk (htype t rfl) .unit

theorem memberParts (hwalk : WalksAlike outside walk walk') {cls cls' : SymbolId}
    (hcls : M.symbols cls cls') {n : Node} (hn : outside n.id) (ms : Modifiers) {member : Form}
    (hmember : member.Apart outside) :
    Agrees M outside (memberParts walk cls n ms member)
      (memberParts walk' cls' n.untyped ms member.untyped) AnyResult := by
  have htable : TableRef.Matches M (if ms.isStatic then .exports cls else .members cls)
      (if ms.isStatic then .exports cls' else .members cls') := by
    split
    · exact .exports hcls
    · exact .members hcls
  unfold Binder.memberParts
  cases member with
  | propertyMember key _ _ type initializer =>
      refine .bind (.declareMember htable hn key _) fun _ _ _ _ _ => ?_
      refine .bind (hwalk.value _ key hmember.1) fun L _ _ _ _ => ?_
      refine .optionalType hwalk (fun t ht => (hmember.2.1 t (Option.mem_toList.mpr ht)).1) ?_
      have hinitial := optional (M := L) hwalk (apartOption_iff.mp hmember.2.2)
      rwa [← untypedOption_eq_map] at hinitial
  | methodMember key _ func =>
      exact .functionMember hwalk htable hn hmember.1 hmember.2 (by simp)
  | getterMember key func => exact .functionMember hwalk htable hn hmember.1 hmember.2 rfl
  | setterMember key func => exact .functionMember hwalk htable hn hmember.1 hmember.2 rfl
  | constructorMember func =>
      have hproperties : Agrees M outside
          (func.func.parameters.forM (Binder.declareParameterProperty cls))
          (func.untyped.func.parameters.forM (Binder.declareParameterProperty cls'))
          AnyResult := by
        rw [Node.func_untyped, FunctionLike.parameters_untyped]
        refine .forM fun N hN p hp => .declareParameterProperty (hN.symbols _ _ hcls) ?_
        exact (Node.Apart.func hmember).parameters p hp
      exact .bind hproperties fun _ _ _ _ _ => .function hwalk hmember (by simp)
  | indexMember parameters type =>
      have hindex := indexMember (M := M) hwalk (apartAll_iff.mp hmember.1)
        fun t ht => (hmember.2 t (Option.mem_toList.mpr ht)).1
      rwa [← untypedAll_eq_map] at hindex
  | staticBlock body =>
      have hblock : body.untyped.form.isBlock = body.form.isBlock := by
        rw [Node.form_untyped, Form.isBlock_untyped]
      change Agrees M outside (if body.form.isBlock then _ else _)
        (if body.untyped.form.isBlock then _ else _) AnyResult
      rw [hblock]
      split
      · refine .inScope .function body.id_untyped fun N _ => ?_
        rw [Node.statements_untyped]
        exact .values hwalk (Node.Apart.statements hmember)
      · exact .unit
  | _ => exact .unit

theorem classMember (hwalk : WalksAlike outside walk walk') {cls cls' : SymbolId}
    (hcls : M.symbols cls cls') {n : Node} (hn : n.Apart outside) :
    Agrees M outside (classMember walk cls n) (classMember walk' cls' n.untyped) AnyResult := by
  have hform := hn.form
  unfold Binder.classMember
  rw [Node.form_untyped]
  cases hmember : n.form with
  | classMember decorators ms member =>
      rw [hmember] at hform
      have hdecorators := values (M := M) hwalk (apartAll_iff.mp hform.1)
      rw [← untypedAll_eq_map] at hdecorators
      refine .bind hdecorators fun N hN _ _ _ => .withModifiers ms ?_
      exact .memberParts hwalk (hN.symbols _ _ hcls) hn.id ms hform.2.2
  | _ => exact .unit

theorem newSymbol (name : String) (flag : SymbolFlag) :
    Agrees M outside (modifyGet fun b => b.newSymbol name flag : Binder SymbolId)
      (modifyGet fun b => b.newSymbol name flag : Binder SymbolId) SymbolResult :=
  .declares fun N b b' _ hb =>
    ⟨_, N.le_addSymbol b.symbols.size b'.symbols.size, .inr ⟨rfl, rfl⟩, hb.newSymbol name flag⟩

theorem classExpressionSymbol {n : Node} (hn : n.Apart outside) :
    Agrees M outside (classExpressionSymbol n) (classExpressionSymbol n.untyped) SymbolResult := by
  have hname := hn.className
  unfold Binder.classExpressionSymbol
  rw [Node.classLike_untyped, ClassLike.name_untyped, Node.span_untyped]
  cases h : n.classLike.name with
  | none => exact .newSymbol _ _
  | some name => exact .declareHere (hname name h) _ _ _

theorem classParts (hwalk : WalksAlike outside walk walk') {n : Node} (hn : n.Apart outside)
    {cls cls' : SymbolId} (hcls : M.symbols cls cls') :
    Agrees M outside (classParts walk n cls) (classParts walk' n.untyped cls') AnyResult := by
  have hclass := hn.classLike
  unfold Binder.classParts
  simp only [Node.id_untyped, Node.classLike_untyped, ClassLike.typeParameters_untyped,
    getD_map_untyped, ClassLike.base_untyped, ClassLike.interfaces_untyped,
    ClassLike.members_untyped]
  refine .bind (.change fun _ _ _ hN hb => hb.setSymbolOf _ (hN.symbols _ _ hcls))
    fun N₁ h₁ _ _ _ => ?_
  refine .bind (.declareTypeParameters hclass.typeParameters) fun N₂ h₂ _ _ _ => ?_
  refine .bind (.values hwalk hclass.typeParameters) fun N₃ h₃ _ _ _ => ?_
  refine .bind (.optional hwalk hclass.base) fun N₄ h₄ _ _ _ => ?_
  refine .types hwalk hclass.interfaces (.forM fun N₅ h₅ m hm => .classMember hwalk ?_ ?_)
  · have hle := Matching.le_trans h₁ (Matching.le_trans h₂ (Matching.le_trans h₃
      (Matching.le_trans h₄ h₅)))
    exact hle.symbols _ _ hcls
  · exact hclass.members m hm

theorem class_ (hwalk : WalksAlike outside walk walk') {n : Node} (hn : n.Apart outside)
    {declared? declared?' : Option SymbolId}
    (hdeclared : Option.Rel M.symbols declared? declared?') :
    Agrees M outside (class_ walk n declared?) (class_ walk' n.untyped declared?') AnyResult := by
  unfold Binder.class_
  simp only [Node.classLike_untyped, ClassLike.decorators_untyped, ClassLike.modifiers_untyped]
  refine .bind (.values hwalk hn.classLike.decorators) fun N hN _ _ _ => .withModifiers _ ?_
  refine .inScope .class_ n.id_untyped fun L hL => ?_
  cases hdeclared with
  | none => exact .bind (.classExpressionSymbol hn) fun _ _ _ _ hy => .classParts hwalk hn hy
  | some hy => exact .classParts hwalk hn ((Matching.le_trans hN hL).symbols _ _ hy)

theorem classStatement (hwalk : WalksAlike outside walk walk') (n : Node) {cls : Node}
    (hcls : cls.Apart outside) :
    Agrees M outside (classStatement walk n cls) (classStatement walk' n.untyped cls.untyped)
      AnyResult := by
  have hname := hcls.className
  unfold Binder.classStatement
  simp only [Node.classLike_untyped, ClassLike.modifiers_untyped, ClassLike.name_untyped,
    Node.span_untyped]
  refine .withModifiers _ ?_
  cases h : cls.classLike.name with
  | none => exact .bind (.newSymbol _ _) fun _ _ _ _ hy => .class_ hwalk hcls (.some hy)
  | some name =>
      refine .bind (.declareHere (hname name h) _ _ _) fun _ _ _ _ hy => ?_
      exact .class_ hwalk hcls (.some hy)

theorem typeDeclaration (hwalk : WalksAlike outside walk walk') {n : Node} (hn : n.Apart outside)
    {name : Identifier} (hname : outside name.id) (kind : DeclarationKind) (ms : Modifiers)
    {typeParameters : Option (List Node)} (htypes : ∀ c ∈ typeParameters.getD [], c.Apart outside) :
    Agrees M outside (typeDeclaration walk n name kind ms typeParameters)
      (typeDeclaration walk' n.untyped name kind ms (untypedLists typeParameters)) AnyResult := by
  unfold Binder.typeDeclaration
  rw [Node.span_untyped, untypedLists_eq_map, getD_map_untyped]
  refine .bind (.declareHere hname _ _ _) fun _ _ _ _ _ => ?_
  refine .inScope .block n.id_untyped fun _ _ => ?_
  exact .bind (.declareTypeParameters htypes) fun _ _ _ _ _ => .below hwalk hn

theorem enumMember (hwalk : WalksAlike outside walk walk') {owner owner' : SymbolId}
    (howner : M.symbols owner owner') {n : Node} (hn : n.Apart outside) :
    Agrees M outside (enumMember walk owner n) (enumMember walk' owner' n.untyped) AnyResult := by
  unfold Binder.enumMember
  rw [Node.form_untyped]
  cases n.form with
  | enumMember key _ =>
      refine .bind (.declareMember (.exports howner) hn.id key _) fun N hN y? y?' hy => ?_
      cases hy with
      | none => exact hwalk.value N n hn
      | some hy =>
          refine .bind (.change fun K b b' hK hb => ?_) fun K _ _ _ _ => hwalk.value K n hn
          refine hb.modifySymbol (hK.symbols _ _ hy) fun _ _ hm => { hm with parent := .some ?_ }
          exact (Matching.le_trans hN hK).symbols _ _ howner
  | _ => exact hwalk.value M n hn

theorem enumDeclaration (hwalk : WalksAlike outside walk walk') (n : Node) (ms : Modifiers)
    {name : Identifier} (hname : outside name.id) {members : List Node}
    (hmembers : ∀ c ∈ members, c.Apart outside) :
    Agrees M outside (enumDeclaration walk n ms name members)
      (enumDeclaration walk' n.untyped ms name (members.map Node.untyped)) AnyResult := by
  unfold Binder.enumDeclaration
  rw [Node.span_untyped]
  refine .withModifiers ms (.bind (.declareHere hname _ _ _) fun N hN y y' hy => ?_)
  exact .forM fun L hL c hc => .enumMember hwalk (hL.symbols _ _ hy) (hmembers c hc)

theorem moduleSymbol? (n : Node) (ms : Modifiers) {name : ModuleName}
    (hname : ∀ i ∈ name.identifier?, outside i.id) (isGlobal : Bool) :
    Agrees M outside (moduleSymbol? n ms name isGlobal) (moduleSymbol? n.untyped ms name isGlobal)
      fun N => Option.Rel N.symbols := by
  have hnone : Agrees M outside
      (do modify fun b => { b with augmentsGlobals := true }; return none :
        Binder (Option SymbolId))
      (do modify fun b => { b with augmentsGlobals := true }; return none :
        Binder (Option SymbolId))
      fun N => Option.Rel N.symbols :=
    .bind (.change fun _ _ _ _ hb => { hb with }) fun _ _ _ _ _ => .pure fun _ _ => .none
  unfold Binder.moduleSymbol?
  rw [Node.isInstantiated_untyped, Node.span_untyped]
  cases name with
  | identifier name =>
      dsimp only
      split
      · refine .bind (.declareHere (hname name rfl) _ _ _) fun _ _ _ _ hy => ?_
        exact .pure fun _ hle => .some (hle.symbols _ _ hy)
      · exact hnone
  | string _ => exact hnone

theorem moduleBody (hwalk : WalksAlike outside walk walk') {body : Node}
    (hbody : body.Apart outside) :
    Agrees M outside (moduleBody walk body) (moduleBody walk' body.untyped) AnyResult := by
  have hform := hbody.form
  unfold Binder.moduleBody
  rw [Node.form_untyped]
  cases h : body.form with
  | moduleBlock statements =>
      rw [h] at hform
      have hstatements := values (M := M) hwalk (apartAll_iff.mp hform)
      rwa [← untypedAll_eq_map] at hstatements
  | _ => exact hwalk.value M body hbody

theorem moduleDeclaration (hwalk : WalksAlike outside walk walk') (n : Node) (ms : Modifiers)
    {name : ModuleName} (hname : ∀ i ∈ name.identifier?, outside i.id) {body? : Option Node}
    (hbody : ∀ c ∈ body?, c.Apart outside) (isGlobal : Bool) :
    Agrees M outside (moduleDeclaration walk n ms name body? isGlobal)
      (moduleDeclaration walk' n.untyped ms name (body?.map Node.untyped) isGlobal) AnyResult := by
  unfold Binder.moduleDeclaration
  refine .withModifiers ms (.bind (.moduleSymbol? n ms hname isGlobal) fun N _ y? y?' hy => ?_)
  have hscope : ∀ K, N ≤ K → Agrees K outside
      (Binder.inScope .module_ n.id do
        let scope ← Binder.currentScope
        modify fun b => b.modifyScope scope fun s => { s with container? := y? }
        body?.forM (Binder.moduleBody walk))
      (Binder.inScope .module_ n.untyped.id do
        let scope ← Binder.currentScope
        modify fun b => b.modifyScope scope fun s => { s with container? := y?' }
        (body?.map Node.untyped).forM (Binder.moduleBody walk')) AnyResult := by
    intro K hK
    refine .inScope .module_ n.id_untyped fun L hL => .bind .currentScope fun L₁ h₁ s s' hs => ?_
    refine .bind (.change fun L₂ b b' h₂ hb => ?_) fun _ _ _ _ _ =>
      .option fun c hc => .moduleBody hwalk (hbody c hc)
    refine hb.modifyScope (h₂.scopes _ _ hs) fun _ _ hm => { hm with container := ?_ }
    exact rel_imp (Matching.le_trans hK (Matching.le_trans hL (Matching.le_trans h₁ h₂))).symbols hy
  cases hy with
  | none => exact hscope N N.le_refl
  | some hy =>
      refine .bind (.change fun K b b' hK hb => ?_) fun K hK _ _ _ => hscope K hK
      rw [Node.id_untyped]
      exact hb.setSymbolOf _ (hK.symbols _ _ hy)

theorem catchClause (hwalk : WalksAlike outside walk walk') (n : Node) {binding? : Option Node}
    (hbinding : ∀ c ∈ binding?, c.Apart outside) {body : Node} (hbody : body.Apart outside) :
    Agrees M outside (catchClause walk n binding? body)
      (catchClause walk' n.untyped (binding?.map Node.untyped) body.untyped) AnyResult := by
  unfold Binder.catchClause
  refine .inScope .catchClause n.id_untyped fun N _ => ?_
  cases binding? with
  | none => exact hwalk.value N body hbody
  | some v =>
      have hv := hbinding v rfl
      have hform := hv.form
      have hboth : ∀ K : Matching, Agrees K outside (do walk v; walk body)
          (do walk' v.untyped; walk' body.untyped) AnyResult := fun K =>
        .bind (hwalk.value K v hv) fun L _ _ _ _ => hwalk.value L body hbody
      simp only [Option.map_some, Node.form_untyped, Node.span_untyped]
      cases h : v.form with
      | variableDeclaration name _ _ _ =>
          rw [h] at hform
          refine .bind .currentScope fun _ _ _ _ hs => ?_
          exact .bind (.declareBinding hs hform.1 _ _ _) fun K _ _ _ _ => hboth K
      | _ => exact hboth N

theorem variableParts (hwalk : WalksAlike outside walk walk') (kind : VariableKind) {ns : List Node}
    (hns : ApartAll outside ns) (isExported : Bool) :
    Agrees M outside (do Binder.declareVariables kind ns isExported; ns.forM walk)
      (do Binder.declareVariables kind (untypedAll ns) isExported; (untypedAll ns).forM walk')
      AnyResult := by
  rw [untypedAll_eq_map]
  exact .bind (.declareVariables kind (apartAll_iff.mp hns) isExported) fun _ _ _ _ _ =>
    .values hwalk (apartAll_iff.mp hns)

theorem step (hwalk : WalksAlike outside walk walk') {n : Node} (hn : n.Apart outside) :
    Agrees M outside (step walk n) (step walk' n.untyped) AnyResult := by
  have hname := hn.name
  have hapart := hn.form
  have hid : n.untyped.id = n.id := n.id_untyped
  have hbelow : ∀ L : Matching, Agrees L outside (n.visited.forM walk)
      (n.untyped.visited.forM walk') AnyResult := fun _ => .below hwalk hn
  unfold Binder.step
  rw [Node.form_untyped, Node.span_untyped]
  cases hform : n.form with
  | forStmt _ _ _ _ | forInStmt _ _ _ | forOfStmt _ _ _ _ | block _ _ _ =>
      exact .inScope .block hid fun L _ => hbelow L
  | conditionalType _ _ _ _ | functionType _ | constructorType _ _ | mappedType _ _ _ _ _
  | inferType _ | typeElement _ _ =>
      rw [hform] at hapart
      exact hapart.elim
  | switchStmt subject clauses =>
      rw [hform] at hapart
      refine .bind (hwalk.value M subject hapart.1) fun N _ _ _ _ => ?_
      refine .inScope .block hid fun L _ => ?_
      rw [untypedAll_eq_map]
      exact .values hwalk (apartAll_iff.mp hapart.2)
  | varStmt ms list =>
      rw [hform] at hapart
      have hlist := Node.Apart.form hapart
      obtain ⟨_, _, form⟩ := list
      cases form with
      | variableList kind declarations =>
          exact .withModifiers ms (.variableParts hwalk kind hlist ms.isExport)
      | _ => exact .unit
  | variableList kind declarations =>
      rw [hform] at hapart
      exact .variableParts hwalk kind hapart false
  | functionStmt ms name? func =>
      rw [hform] at hapart hname
      have hbody : func.untyped.func.body.isSome = func.func.body.isSome := by simp
      refine .withModifiers ms ?_
      cases name? with
      | none => exact .function hwalk hapart (by simp)
      | some name =>
          dsimp only
          rw [hbody]
          exact .bind (.declareHere (hname _ (List.mem_singleton.mpr rfl)) _ _ _) fun _ _ _ _ _ =>
            .function hwalk hapart (by simp)
  | functionExpr _ name? func =>
      rw [hform] at hapart hname
      refine .function hwalk hapart fun i hi => hname i.id ?_
      exact List.mem_map.mpr ⟨i, Option.mem_toList.mpr hi, rfl⟩
  | functionLike f => exact .function hwalk hn (by simp)
  | arrowFunction f isBare =>
      rw [hform] at hapart
      exact .inScope .function hid fun _ _ => .functionParts hwalk hapart
  | classStmt cls =>
      rw [hform] at hapart
      exact .classStatement hwalk n hapart
  | classExpr cls =>
      rw [hform] at hapart
      exact .class_ hwalk hapart .none
  | interfaceStmt ms name typeParameters bases members =>
      rw [hform] at hapart hname
      exact .typeDeclaration hwalk hn (hname _ (List.mem_singleton.mpr rfl)) _ ms
        (apartLists_iff.mp hapart.1)
  | typeAliasStmt ms name typeParameters type =>
      rw [hform] at hapart hname
      exact .typeDeclaration hwalk hn (hname _ (List.mem_singleton.mpr rfl)) _ ms
        (apartLists_iff.mp hapart.1)
  | enumStmt ms name members =>
      rw [hform] at hapart hname
      have henum := enumDeclaration (M := M) hwalk n ms (hname _ (List.mem_singleton.mpr rfl))
        (apartAll_iff.mp hapart)
      rwa [← untypedAll_eq_map] at henum
  | moduleDeclaration ms name body? isGlobal =>
      rw [hform] at hapart hname
      have hidentifier : ∀ i ∈ name.identifier?, outside i.id := by
        intro i hi
        cases name with
        | identifier name =>
            cases hi
            exact hname _ (List.mem_singleton.mpr rfl)
        | string _ => cases hi
      have hmodule := moduleDeclaration (M := M) hwalk n ms hidentifier
        (apartOption_iff.mp hapart) isGlobal
      rwa [← untypedOption_eq_map] at hmodule
  | importStmt ms clause? specifier attributes =>
      rw [hform] at hname
      cases clause? with
      | none => exact .unit
      | some clause => exact .declareImport hname _
  | importEqualsStmt ms isTypeOnly name reference =>
      rw [hform] at hname
      exact .declareAlias (hname _ (List.mem_singleton.mpr rfl)) _ _ _
  | catchClause binding body =>
      rw [hform] at hapart
      have hcatch := catchClause (M := M) hwalk n (apartOption_iff.mp hapart.1) hapart.2
      rwa [← untypedOption_eq_map] at hcatch
  | _ => exact hbelow M

end Agrees

theorem walkNode_alike (fuel : Nat) : WalksAlike outside (walkNode fuel) (walkNode fuel) := by
  induction fuel with
  | zero =>
      exact ⟨fun _ _ _ => .unit, fun _ _ _ b _ => .refl b outside, rfl⟩
  | succ fuel ih =>
      refine ⟨fun _ _ hn => .step ih hn, fun t ht p b hp => ?_, rfl⟩
      exact grown_walkNode_of_foreign ht (fuel + 1) p hp

end Erasure.Binder

namespace Erasure

/-- The scope of the file stands for itself. -/
def Matching.root : Matching where
  scopes s s' := s = 0 ∧ s' = 0
  symbols _ _ := False

/-- The bindings that a walk starts with. -/
theorem SourceFile.matches_root (outside : NodeId → Prop) :
    Bindings.Matches .root outside (({} : Bindings).newScope .sourceFile none 0).2
      (({} : Bindings).newScope .sourceFile none 0).2 where
  root := ⟨rfl, rfl⟩
  scope := by
    rintro s s' ⟨rfl, rfl⟩
    exact ⟨rfl, .none, .empty, .none⟩
  symbol := by rintro y y' ⟨⟩
  scope_lt := by
    rintro s s' ⟨rfl, rfl⟩
    decide
  symbol_lt := by rintro y y' ⟨⟩
  scopes_lt_iff := by
    rintro s s' t t' ⟨rfl, rfl⟩ ⟨rfl, rfl⟩
    rfl
  symbols_eq_iff := by rintro y y' z z' ⟨⟩
  scopeOf? n _ := by
    by_cases hn : n = 0
    · subst hn
      rw [Bindings.scopeOf?_newScope_self]
      exact .some ⟨rfl, rfl⟩
    · rw [Bindings.scopeOf?_newScope_of_ne _ _ _ _ hn]
      exact .none
  symbolOf? n _ := .none

/-- The bindings of a file and of the file without its types match. -/
theorem SourceFile.exists_matches_bind {f : SourceFile} {outside : NodeId → Prop}
    (hf : ∀ n ∈ f.statements, n.Apart outside) :
    ∃ M, f.bind.Matches M outside f.untyped.bind := by
  have hwalk : Binder.WalksAlike outside _ _ := Binder.walkNode_alike f.nodeCount
  have hroot := SourceFile.matches_root outside
  have hagrees := Binder.Agrees.values (M := Matching.root) hwalk hf
  rw [← untypedAll_eq_map] at hagrees
  obtain ⟨N, -, -, hbind⟩ := hagrees _ ⟨0, f.fileName.endsWith ".d.ts"⟩
    ⟨0, f.fileName.endsWith ".d.ts"⟩ _ _ (Matching.le_refl _) ⟨⟨rfl, rfl⟩, rfl⟩ hroot
  exact ⟨N, hbind⟩

end Erasure

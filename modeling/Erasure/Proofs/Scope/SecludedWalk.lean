import Erasure.Proofs.Scope.Invariant
import Erasure.Proofs.Scope.Secluded

/-!
The walk of the binder over hidden syntax. Whatever the syntax is, it opens scopes and declares
names only where the syntax can stand, so that it adds to the bindings and changes none of them.
-/

namespace Erasure

variable {outside : NodeId → Prop}

namespace Node.Hidden

variable {n c : Node}

theorem func_children (h : n.Hidden outside) (hc : c ∈ n.func.children) : c.Hidden outside := by
  unfold Node.func Form.function? at hc
  split at hc
  · rename_i hform
    exact h.child (by rw [hform]; exact hc)
  · cases hc

theorem parameter_name (h : n.Hidden outside) : n.parameter.name.Hidden outside := by
  unfold Node.parameter
  split
  · rename_i p hform
    refine h.child ?_
    rw [hform]
    exact List.mem_append_left _ (List.mem_append_left _
      (List.mem_append_right _ (List.mem_singleton.mpr rfl)))
  · exact h

theorem statements (h : n.Hidden outside) (hc : c ∈ n.statements) : c.Hidden outside := by
  unfold Node.statements at hc
  split at hc
  · rename_i hform
    exact h.child (by rw [hform]; exact hc)
  · rename_i hform
    exact h.child (by rw [hform]; exact hc)
  · cases hc

end Node.Hidden

namespace Binder

variable {base : Bindings} {at_ : Standing} {walk : Node → Binder Unit}

/-- A walk over hidden syntax that only adds to the base. -/
def WalksSecluded (base : Bindings) (outside : NodeId → Prop) (walk : Node → Binder Unit) : Prop :=
  ∀ at_ c, Node.Fits outside at_ c → Secluded base outside at_ (walk c) fun _ => True

namespace Secluded

theorem declareTypeParameters (hat : at_ ≠ .outer) {ns : List Node}
    (hns : ∀ n ∈ ns, n.Hidden outside) :
    Secluded base outside at_ (declareTypeParameters ns) fun _ => True :=
  .forM fun n hn => .declareTypeParameter hat _ (hns n hn).name

theorem declareParameter (hat : at_ ≠ .outer) {n : Node} (hn : n.Hidden outside) :
    Secluded base outside at_ (declareParameter n) fun _ => True := by
  unfold Binder.declareParameter
  dsimp only
  split
  · exact .bind .currentScope fun s hs =>
      .declareBinding hat (hs hat) hn.parameter_name.bindingIdentifiers _ _ _
  · exact .pure trivial

theorem functionParts (hwalk : WalksSecluded base outside walk) {f : FunctionLike}
    (hf : ∀ c ∈ f.children, c.Hidden outside) :
    Secluded base outside .inside (functionParts walk f) fun _ => True := by
  have hinside : ∀ c, c.Hidden outside → Secluded base outside .inside (walk c) fun _ => True :=
    fun c hc => hwalk .inside c (.inside hc)
  have htypes : ∀ c ∈ f.typeParameters.getD [], c.Hidden outside :=
    fun c hc => hf c (by simp [FunctionLike.children, hc])
  have hparameters : ∀ c ∈ f.parameters, c.Hidden outside :=
    fun c hc => hf c (by simp [FunctionLike.children, hc])
  refine .bind (.declareTypeParameters (by decide) htypes) fun _ _ => ?_
  refine .bind (.forM fun c hc => hinside c (htypes c hc)) fun _ _ => ?_
  refine .bind (.forM fun c hc => .declareParameter (by decide) (hparameters c hc)) fun _ _ => ?_
  refine .bind (.forM fun c hc => hinside c (hparameters c hc)) fun _ _ => ?_
  refine .bind (.option fun c hc => hinside c (hf c ?_)) fun _ _ => ?_
  · simp [FunctionLike.children, Option.mem_def.mp hc]
  · cases hbody : f.body with
    | none => exact .pure trivial
    | some body =>
        have hhidden : body.Hidden outside := hf body (by simp [FunctionLike.children, hbody])
        dsimp only
        split
        · exact .forM fun c hc => hinside c (hhidden.statements hc)
        · exact hinside body hhidden

theorem function (hwalk : WalksSecluded base outside walk) {n : Node} (hn : n.Hidden outside)
    {name? : Option Identifier} (hname : ∀ i ∈ name?, ¬ outside i.id) :
    Secluded base outside at_ (function walk n name?) fun _ => True := by
  have hopened : at_.opened .function = .inside := by cases at_ <;> rfl
  refine .inScope .function hn.id (hopened ▸ ?_)
  cases name? with
  | none => exact .functionParts hwalk fun c => hn.func_children
  | some name =>
      refine .bind (.declareHere (by decide) (hname name rfl) _ _ _) fun _ _ => ?_
      exact .functionParts hwalk fun c => hn.func_children

theorem declareMember {t : TableRef} (ht : t.IsNew base) {member : Node}
    (hmember : ¬ outside member.id) (key : Node) (kind : DeclarationKind) :
    Secluded base outside at_ (declareMember t member key kind) fun id? =>
      ∀ y ∈ id?, base.symbols.size ≤ y := by
  unfold Binder.declareMember
  split
  · refine .bind (.declaration hmember _ _ _) fun d hd => ?_
    refine .bind (.declareIn ht _ hd) fun y hy => .pure ?_
    rintro _ ⟨⟩
    exact hy
  · exact .pure (by simp)

theorem declareParameterProperty {cls : SymbolId} (hcls : base.symbols.size ≤ cls) {n : Node}
    (hn : n.Hidden outside) :
    Secluded base outside at_ (declareParameterProperty cls n) fun _ => True := by
  unfold Binder.declareParameterProperty
  dsimp only
  split
  · split
    · refine .bind (.declaration hn.id _ _ _) fun d hd => ?_
      exact .bind (.declareIn (t := .members cls) hcls _ hd) fun _ _ => .pure trivial
    · exact .pure trivial
  · exact .pure trivial

theorem functionMember (hwalk : WalksSecluded base outside walk) {t : TableRef} (ht : t.IsNew base)
    {member key func : Node} (hmember : ¬ outside member.id) (hkey : key.Fits outside at_)
    (hfunc : func.Hidden outside) (kind : DeclarationKind) :
    Secluded base outside at_ (functionMember walk t member key func kind) fun _ => True :=
  .bind (.declareMember ht hmember key kind) fun _ _ =>
    .bind (hwalk at_ key hkey) fun _ _ => .function hwalk hfunc (by simp)

theorem indexMember (hwalk : WalksSecluded base outside walk) {parameters : List Node}
    {type : Option Node} (hparameters : ∀ p ∈ parameters, p.Fits outside at_)
    (htype : ∀ t ∈ type, t.Fits outside at_) :
    Secluded base outside at_ (indexMember walk parameters type) fun _ => True := by
  refine .bind (.forM fun p hp => .option fun t ht => hwalk at_ t ?_) fun _ _ =>
    .option fun t ht => hwalk at_ t (htype t ht)
  unfold Node.parameter at ht
  split at ht
  · rename_i q hform
    refine (hparameters p hp).child (by rw [hform]; rfl) ?_
    rw [hform]
    have hq : t ∈ q.children := by simp [Parameter.children, Option.mem_def.mp ht]
    exact hq
  · cases ht

/-- The parts of a member stand where its class stands; a static block is a function. -/
theorem memberParts (hwalk : WalksSecluded base outside walk) {cls : SymbolId}
    (hcls : base.symbols.size ≤ cls) {n : Node} {decorators : List Node} {ms : Modifiers}
    {member : Form} (hform : n.form = .classMember decorators ms member) (hn : n.Hidden outside)
    (hparts : ∀ c ∈ n.memberParts, c.Fits outside at_) :
    Secluded base outside at_ (memberParts walk cls n ms member) fun _ => True := by
  have hchild : ∀ c ∈ member.directChildren, c.Hidden outside := fun c hc =>
    hn.child (by rw [hform]; exact List.mem_append_right _ hc)
  have htable : (if ms.isStatic then TableRef.exports cls else .members cls).IsNew base := by
    split <;> exact hcls
  unfold Node.memberParts at hparts
  rw [hform] at hparts
  unfold Binder.memberParts
  cases member with
  | propertyMember key _ _ type initializer =>
      have hfits : ∀ c ∈ key :: type.toList ++ initializer.toList, c.Fits outside at_ :=
        fun c hc => hparts c (List.mem_append_right _ hc)
      refine .bind (.declareMember htable hn.id key _) fun _ _ => ?_
      refine .bind (hwalk at_ key (hfits key List.mem_cons_self)) fun _ _ => ?_
      refine .bind (.option fun t ht => hwalk at_ t (hfits t ?_)) fun _ _ =>
        .option fun e he => hwalk at_ e (hfits e ?_)
      · exact List.mem_append_left _ (List.mem_cons_of_mem _ (Option.mem_toList.mpr ht))
      · exact List.mem_append_right _ (Option.mem_toList.mpr he)
  | methodMember key _ func | getterMember key func | setterMember key func =>
      have hkey := hparts key (List.mem_append_right _ List.mem_cons_self)
      exact .functionMember hwalk htable hn.id hkey
        (hchild func (List.mem_cons_of_mem _ (List.mem_singleton.mpr rfl))) _
  | constructorMember func =>
      have hfunc := hchild func (List.mem_singleton.mpr rfl)
      refine .bind (.forM fun p hp => .declareParameterProperty hcls (hfunc.func_children ?_))
        fun _ _ => .function hwalk hfunc (by simp)
      simp [FunctionLike.children, hp]
  | indexMember parameters type =>
      have hfits : ∀ c ∈ parameters ++ type.toList, c.Fits outside at_ :=
        fun c hc => hparts c (List.mem_append_right _ hc)
      exact .indexMember hwalk (fun p hp => hfits p (List.mem_append_left _ hp))
        fun t ht => hfits t (List.mem_append_right _ (Option.mem_toList.mpr ht))
  | staticBlock body =>
      have hbody := hchild body (List.mem_singleton.mpr rfl)
      have hopened : at_.opened .function = .inside := by cases at_ <;> rfl
      dsimp only
      split
      · refine .inScope .function hbody.id (hopened ▸ ?_)
        exact .forM fun c hc => hwalk .inside c (.inside (hbody.statements hc))
      · exact .pure trivial
  | _ => exact .pure trivial

theorem mem_memberParts_of_decorator {n d : Node} {decorators : List Node} {ms : Modifiers}
    {member : Form} (hform : n.form = .classMember decorators ms member) (hd : d ∈ decorators) :
    d ∈ n.memberParts := by
  unfold Node.memberParts
  rw [hform]
  split
  · rename_i heq
    cases heq
    exact hd
  · rename_i heq
    cases heq
    exact List.mem_append_left _ hd
  · rename_i hno
    exact (hno _ _ _ rfl).elim

theorem classMember (hwalk : WalksSecluded base outside walk) {cls : SymbolId}
    (hcls : base.symbols.size ≤ cls) {n : Node} (hn : n.Hidden outside)
    (hparts : ∀ c ∈ n.memberParts, c.Fits outside at_) :
    Secluded base outside at_ (classMember walk cls n) fun _ => True := by
  unfold Binder.classMember
  split
  · rename_i decorators ms member hform
    refine .bind (.forM fun d hd => hwalk at_ d (hparts d ?_)) fun _ _ => ?_
    · exact mem_memberParts_of_decorator hform hd
    · exact .withModifiers ms (.memberParts hwalk hcls hform hn hparts)
  · exact .pure trivial

theorem hidden_of_mem_memberParts {n c : Node} (hn : n.Hidden outside) (hc : c ∈ n.memberParts) :
    c.Hidden outside := by
  unfold Node.memberParts at hc
  split at hc
  · rename_i hform
    exact hn.child (by rw [hform]; exact List.mem_append_left _ hc)
  · rename_i hform
    exact hn.child (by rw [hform]; exact hc)
  · cases hc

/-- The class of a hidden node. What is evaluated where it stands can stand there. -/
structure ClassFits (outside : NodeId → Prop) (at_ : Standing) (n : Node) : Prop where
  id : ¬ outside n.id
  name : ∀ i ∈ n.classLike.name, ¬ outside i.id
  members : ∀ c ∈ n.classLike.members, c.Hidden outside
  parts : ∀ c ∈ n.classLike.openParts, c.Fits outside at_

theorem hidden_of_mem_classLike {n c : Node} (hn : n.Hidden outside)
    (hc : c ∈ n.classLike.children) : c.Hidden outside := by
  unfold Node.classLike at hc
  split at hc
  · rename_i hform
    exact hn.child (by rw [hform]; exact hc)
  · cases hc

theorem hidden_of_mem_openParts {n c : Node} (hn : n.Hidden outside)
    (hc : c ∈ n.classLike.openParts) : c.Hidden outside := by
  rcases List.mem_append.mp hc with hc | hc
  · exact hidden_of_mem_classLike hn (List.mem_append_left _ hc)
  · obtain ⟨m, hm, hc⟩ := List.mem_flatMap.mp hc
    exact hidden_of_mem_memberParts (hidden_of_mem_classLike hn (List.mem_append_right _ hm)) hc

theorem ClassFits.of_hidden {n : Node} (hn : n.Hidden outside)
    (hparts : ∀ c ∈ n.classLike.openParts, c.Contained at_) : ClassFits outside at_ n where
  id := hn.id
  name i hi := by
    unfold Node.classLike at hi
    split at hi
    · rename_i hform
      refine hn.name i.id ?_
      rw [hform]
      exact List.mem_map.mpr ⟨i, Option.mem_toList.mpr hi, rfl⟩
    · cases hi
  members c hc := hidden_of_mem_classLike hn (List.mem_append_right _ hc)
  parts c hc := ⟨hparts c hc, hidden_of_mem_openParts hn hc⟩

theorem ClassFits.of_fits {n cls : Node} (hn : n.Fits outside at_)
    (hform : n.form = .classExpr cls) :
    ClassFits outside at_ cls := by
  have hcls : cls.Hidden outside := by
    refine hn.hidden.child ?_
    rw [hform]
    exact List.mem_singleton.mpr rfl
  have hparts : ∀ isConditional, n.SelfContained isConditional →
      ∀ c ∈ cls.classLike.openParts, c.SelfContained isConditional := by
    intro isConditional h
    cases h with
    | function h => rw [hform] at h; cases h
    | class_ h hbelow =>
        rw [hform] at h
        cases h
        exact hbelow
    | conditional h => rw [hform] at h; cases h
    | infer h => rw [hform] at h; cases h
    | plain h => rw [hform] at h; cases h
  refine .of_hidden hcls ?_
  cases at_ with
  | outer => exact hparts false hn.contained
  | fresh => exact hparts true hn.contained
  | inside => exact fun _ _ => trivial

theorem ClassFits.opened {n : Node} (h : ClassFits outside at_ n) (kind : ScopeKind) :
    ClassFits outside (at_.opened kind) n :=
  { h with parts := fun c hc => (h.parts c hc).opened kind }

theorem classParts (hwalk : WalksSecluded base outside walk) (hat : at_ ≠ .outer) {n : Node}
    (hn : ClassFits outside at_ n) {cls : SymbolId} (hcls : base.symbols.size ≤ cls) :
    Secluded base outside at_ (classParts walk n cls) fun _ => True := by
  have htypes : ∀ c ∈ n.classLike.typeParameters.getD [], c.Fits outside at_ :=
    fun c hc => hn.parts c (by simp [ClassLike.openParts, hc])
  refine .bind (.change fun b hb => hb.setSymbolOf hn.id cls) fun _ _ => ?_
  refine .bind (.declareTypeParameters hat fun c hc => (htypes c hc).hidden) fun _ _ => ?_
  refine .bind (.forM fun c hc => hwalk at_ c (htypes c hc)) fun _ _ => ?_
  refine .bind (.option fun c hc => hwalk at_ c (hn.parts c ?_)) fun _ _ => ?_
  · simp [ClassLike.openParts, Option.mem_def.mp hc]
  refine .bind (.forM fun c hc => hwalk at_ c (hn.parts c ?_)) fun _ _ => ?_
  · simp [ClassLike.openParts, hc]
  refine .forM fun c hc => .classMember hwalk hcls (hn.members c hc) fun d hd => hn.parts d ?_
  exact List.mem_append_right _ (List.mem_flatMap.mpr ⟨c, hc, hd⟩)

theorem classExpressionSymbol (hat : at_ ≠ .outer) {n : Node}
    (hn : ∀ i ∈ n.classLike.name, ¬ outside i.id) :
    Secluded base outside at_ (classExpressionSymbol n) (base.symbols.size ≤ ·) := by
  unfold Binder.classExpressionSymbol
  split
  · rename_i name hname
    exact .declareHere hat (hn name hname) _ _ _
  · exact .changeGet fun b hb => ⟨hb.newSymbol _ _, hb.symbols_le⟩

theorem class_ (hwalk : WalksSecluded base outside walk) {n : Node} (hn : ClassFits outside at_ n)
    {declared? : Option SymbolId} (hdeclared : ∀ y ∈ declared?, base.symbols.size ≤ y) :
    Secluded base outside at_ (class_ walk n declared?) fun _ => True := by
  have hopened := hn.opened .class_
  have hat := Standing.opened_ne_outer at_ .class_
  refine .bind (.forM fun d hd => hwalk at_ d (hn.parts d ?_)) fun _ _ => ?_
  · simp [ClassLike.openParts, hd]
  refine .withModifiers _ (.inScope .class_ hn.id ?_)
  cases declared? with
  | none =>
      exact .bind (.classExpressionSymbol hat hn.name) fun _ hy =>
        .classParts hwalk hat hopened hy
  | some y => exact .classParts hwalk hat hopened (hdeclared y rfl)

theorem classStatement (hwalk : WalksSecluded base outside walk) (n : Node) {cls : Node}
    (hcls : cls.Hidden outside) :
    Secluded base outside .inside (classStatement walk n cls) fun _ => True := by
  have hclass : ClassFits outside .inside cls := .of_hidden hcls fun _ _ => trivial
  refine .withModifiers _ ?_
  cases hname : cls.classLike.name with
  | none =>
      refine .bind (.changeGet fun b hb => ⟨hb.newSymbol _ _, hb.symbols_le⟩) fun y hy => ?_
      exact .class_ hwalk hclass (by simpa using hy)
  | some name =>
      refine .bind (.declareHere (by decide) (hclass.name name hname) _ _ _) fun y hy => ?_
      exact .class_ hwalk hclass (by simpa using hy)

theorem typeDeclaration (hwalk : WalksSecluded base outside walk) {n : Node}
    (hn : n.Hidden outside) {name : Identifier} (hname : ¬ outside name.id) (kind : DeclarationKind)
    (ms : Modifiers) {typeParameters : Option (List Node)}
    (htypes : ∀ c ∈ typeParameters.getD [], c ∈ n.form.children) :
    Secluded base outside .inside (typeDeclaration walk n name kind ms typeParameters)
      fun _ => True := by
  refine .bind (.declareHere (by decide) hname _ _ _) fun _ _ => ?_
  refine .inScope .block hn.id ?_
  refine .bind (.declareTypeParameters (by decide) fun c hc => hn.child (htypes c hc)) fun _ _ => ?_
  refine .forM fun c hc => hwalk .inside c ?_
  exact Node.Fits.visited_of_children (fun c hc => .inside (hn.child hc)) c hc

theorem enumMember (hwalk : WalksSecluded base outside walk) {owner : SymbolId}
    (howner : base.symbols.size ≤ owner) {n : Node} (hn : n.Hidden outside) :
    Secluded base outside .inside (enumMember walk owner n) fun _ => True := by
  have hbelow : Secluded base outside .inside (walk n) fun _ => True :=
    hwalk .inside n (.inside hn)
  unfold Binder.enumMember
  split
  · refine .bind (.declareMember (t := .exports owner) howner hn.id _ _) fun y? hy => ?_
    cases y? with
    | none => exact hbelow
    | some y =>
        refine .bind (.change fun b hb => hb.modifySymbol (hy y rfl) (fun _ => id) fun _ => id)
          fun _ _ => hbelow
  · exact hbelow

theorem enumDeclaration (hwalk : WalksSecluded base outside walk) (n : Node) (ms : Modifiers)
    {name : Identifier} (hname : ¬ outside name.id) {members : List Node}
    (hmembers : ∀ c ∈ members, c.Hidden outside) :
    Secluded base outside .inside (enumDeclaration walk n ms name members) fun _ => True :=
  .withModifiers ms <| .bind (.declareHere (by decide) hname _ _ _) fun _ hy =>
    .forM fun c hc => .enumMember hwalk hy (hmembers c hc)

theorem moduleSymbol? (n : Node) (ms : Modifiers) {name : ModuleName}
    (hname : ∀ i ∈ name.identifier?, ¬ outside i.id) (isGlobal : Bool) :
    Secluded base outside .inside (moduleSymbol? n ms name isGlobal) fun id? =>
      ∀ y ∈ id?, base.symbols.size ≤ y := by
  have hnone : Secluded base outside .inside (do
      modify fun b => { b with augmentsGlobals := true }
      return none) fun id? : Option SymbolId => ∀ y ∈ id?, base.symbols.size ≤ y :=
    .bind (.change fun b hb => ⟨{ hb with }, .of_scopes rfl⟩) fun _ _ => .pure (by simp)
  unfold Binder.moduleSymbol?
  cases name with
  | identifier name =>
      dsimp only
      split
      · refine .bind (.declareHere (by decide) (hname name rfl) _ _ _) fun y hy => .pure ?_
        simpa using hy
      · exact hnone
  | string _ => exact hnone

theorem moduleBody (hwalk : WalksSecluded base outside walk) {body : Node}
    (hbody : body.Hidden outside) :
    Secluded base outside .inside (moduleBody walk body) fun _ => True := by
  unfold Binder.moduleBody
  split
  · rename_i statements hform
    exact .forM fun c hc => hwalk .inside c (.inside (hbody.child (by rw [hform]; exact hc)))
  · exact hwalk .inside body (.inside hbody)

theorem moduleDeclaration (hwalk : WalksSecluded base outside walk) {n : Node}
    (hn : ¬ outside n.id) (ms : Modifiers) {name : ModuleName}
    (hname : ∀ i ∈ name.identifier?, ¬ outside i.id) {body? : Option Node}
    (hbody : ∀ c ∈ body?, c.Hidden outside) (isGlobal : Bool) :
    Secluded base outside .inside (moduleDeclaration walk n ms name body? isGlobal)
      fun _ => True := by
  refine .withModifiers ms (.bind (.moduleSymbol? n ms hname isGlobal) fun y? hy => ?_)
  have hscope : Secluded base outside .inside (Binder.inScope .module_ n.id do
      let scope ← Binder.currentScope
      modify fun b => b.modifyScope scope fun s => { s with container? := y? }
      body?.forM (Binder.moduleBody walk)) fun _ => True := by
    refine .inScope .module_ hn (.bind .currentScope fun s hs => ?_)
    refine .bind (.change fun b hb => ?_) fun _ _ =>
      .option fun c hc => .moduleBody hwalk (hbody c hc)
    exact hb.modifyScope (hs (by decide)) (fun _ => rfl) (fun _ => rfl) (fun _ => id)
      fun _ y hcontainer => .inr (hy y hcontainer)
  cases y? with
  | none => exact hscope
  | some y => exact .bind (.change fun b hb => hb.setSymbolOf hn y) fun _ _ => hscope

theorem catchClause (hwalk : WalksSecluded base outside walk) {n : Node} (hn : ¬ outside n.id)
    {binding? : Option Node} (hbinding : ∀ c ∈ binding?, c.Fits outside at_) {body : Node}
    (hbody : body.Fits outside at_) :
    Secluded base outside at_ (catchClause walk n binding? body) fun _ => True := by
  have hat := Standing.opened_ne_outer at_ .catchClause
  have hwalked := hwalk _ body (hbody.opened .catchClause)
  refine .inScope .catchClause hn ?_
  cases binding? with
  | none => exact hwalked
  | some v =>
      have hv := (hbinding v rfl).opened .catchClause
      have hboth := Secluded.bind (hwalk _ v hv) fun _ _ => hwalked
      dsimp only
      split
      · rename_i name _ _ _ hform
        have hname : name.Hidden outside :=
          hv.hidden.child (by rw [hform]; exact List.mem_cons_self)
        refine .bind .currentScope fun s hs => ?_
        exact .bind (.declareBinding hat (hs hat) hname.bindingIdentifiers _ _ _) fun _ _ => hboth
      · exact hboth

theorem genericType (hwalk : WalksSecluded base outside walk) {n : Node} (hn : ¬ outside n.id)
    (hparts : ∀ c ∈ n.form.children, c.Fits outside at_) {f : FunctionLike}
    (htypes : ∀ c ∈ f.typeParameters.getD [], c ∈ n.form.children) :
    Secluded base outside at_ (genericType walk n f) fun _ => True := by
  have hbelow := Node.Fits.visited_of_children hparts
  unfold Binder.genericType
  cases htype : f.typeParameters with
  | none => exact .forM fun c hc => hwalk at_ c (hbelow c hc)
  | some typeParameters =>
      rw [htype] at htypes
      have hat := Standing.opened_ne_outer at_ .block
      refine .inScope .block hn (.bind (.declareTypeParameters hat fun c hc => ?_) fun _ _ => ?_)
      · exact (hparts c (htypes c hc)).hidden
      · exact .forM fun c hc => hwalk _ c ((hbelow c hc).opened .block)

theorem typeElement (hwalk : WalksSecluded base outside walk) {n : Node} (hn : ¬ outside n.id)
    {ms : Modifiers} {element : Form} (hform : n.form = .typeElement ms element)
    (hparts : ∀ c ∈ n.form.children, c.Fits outside at_) :
    Secluded base outside at_ (typeElement walk n element) fun _ => True := by
  have hfunction : ∀ f : FunctionLike, ∀ c ∈ f.typeParameters.getD [], c ∈ f.children :=
    fun f c hc => List.mem_append_left _ (List.mem_append_left _ (List.mem_append_left _ hc))
  cases element with
  | methodSignature _ _ f =>
      refine .genericType hwalk hn hparts fun c hc => ?_
      rw [hform]
      exact List.mem_cons_of_mem _ (hfunction f c hc)
  | callSignature f | constructSignature f =>
      refine .genericType hwalk hn hparts fun c hc => ?_
      rw [hform]
      exact hfunction f c hc
  | _ => exact .forM fun c hc => hwalk _ c (Node.Fits.visited_of_children hparts c hc)

theorem declareAlias (hat : at_ ≠ .outer) {name : Identifier} (hname : ¬ outside name.id)
    (isTypeOnly : Bool) (span : Span) (isExported : Bool) :
    Secluded base outside at_ (declareAlias name isTypeOnly span isExported) fun _ => True :=
  .bind (.declareHere hat hname _ _ _) fun _ _ => .pure trivial

theorem declareBound (hat : at_ ≠ .outer) {clause : ImportClause}
    (hclause : ∀ i ∈ clause.nameIds, ¬ outside i) (span : Span) :
    Secluded base outside at_ (declareBound clause span) fun _ => True := by
  unfold Binder.declareBound
  unfold ImportClause.nameIds at hclause
  split
  · rename_i name hform
    rw [hform] at hclause
    have hname := hclause _ (List.mem_append_right _ (List.mem_singleton.mpr rfl))
    exact .declareAlias hat hname _ _ _
  · rename_i specifiers hform
    rw [hform] at hclause
    refine .forM fun s hs => .declareAlias hat (hclause _ (List.mem_append_right _ ?_)) _ _ _
    exact List.mem_map.mpr ⟨s, hs, rfl⟩
  · exact .pure trivial

theorem declareImport (hat : at_ ≠ .outer) {clause : ImportClause}
    (hclause : ∀ i ∈ clause.nameIds, ¬ outside i) (span : Span) :
    Secluded base outside at_ (declareImport clause span) fun _ => True := by
  rw [declareImport_eq]
  refine .bind (.option fun name hname => .declareAlias hat (hclause _ ?_) _ _ _) fun _ _ =>
    .declareBound hat hclause span
  exact List.mem_append_left _ (List.mem_map.mpr ⟨name, Option.mem_toList.mpr hname, rfl⟩)

theorem opensFunction_eq_false {form : Form} (h : form.declaresName = true) :
    form.opensFunction = false := by
  cases form <;> first | rfl | exact (Bool.false_ne_true h).elim

/-- What declares a name stands in a function. -/
theorem eq_inside {n : Node} (hn : n.Fits outside at_) (hdeclares : n.form.declaresName = true) :
    at_ = .inside := by
  have hnot : ∀ isConditional, ¬ n.SelfContained isConditional := by
    intro isConditional h
    have hplain := Form.isPlain_of_declaresName hdeclares
    cases h with
    | function h => exact Bool.false_ne_true ((opensFunction_eq_false hdeclares).symm.trans h)
    | class_ h => rw [h] at hdeclares; cases hdeclares
    | conditional h => rw [h] at hdeclares; cases hdeclares
    | infer h => rw [h] at hdeclares; cases hdeclares
    | plain h => exact Bool.false_ne_true (hplain.symm.trans h)
  cases at_ with
  | outer => exact (hnot false hn.contained).elim
  | fresh => exact (hnot true hn.contained).elim
  | inside => rfl

theorem ne_outer_of_infer {n bound : Node} (hn : n.Fits outside at_)
    (hform : n.form = .inferType bound) : at_ ≠ .outer := by
  rintro rfl
  cases hn.contained with
  | function h => rw [hform] at h; cases h
  | class_ h => rw [hform] at h; cases h
  | conditional h => rw [hform] at h; cases h
  | plain h => rw [hform] at h; cases h

theorem infer_fits {n bound : Node} (hn : n.Fits outside at_) (hform : n.form = .inferType bound) :
    ∀ c ∈ n.form.children, c.Fits outside at_ := by
  intro c hc
  refine ⟨?_, hn.hidden.child hc⟩
  cases at_ with
  | outer => exact (ne_outer_of_infer hn hform rfl).elim
  | fresh =>
      cases hn.contained with
      | function h => rw [hform] at h; cases h
      | class_ h => rw [hform] at h; cases h
      | conditional h => rw [hform] at h; cases h
      | infer _ hbelow => exact hbelow c hc
      | plain h => rw [hform] at h; cases h
  | inside => trivial

theorem conditional_fits {n check extended whenTrue whenFalse : Node} (hn : n.Fits outside at_)
    (hform : n.form = .conditionalType check extended whenTrue whenFalse) :
    ∀ c ∈ n.form.children, c.Fits outside (at_.opened .block) := by
  intro c hc
  refine ⟨?_, hn.hidden.child hc⟩
  have hcontained : ∀ isConditional, n.SelfContained isConditional → c.SelfContained true := by
    intro isConditional h
    cases h with
    | function h => rw [hform] at h; cases h
    | class_ h => rw [hform] at h; cases h
    | conditional _ hbelow => exact hbelow c hc
    | infer h => rw [hform] at h; cases h
    | plain h => rw [hform] at h; cases h
  cases at_ with
  | outer => exact hcontained false hn.contained
  | fresh => exact hcontained true hn.contained
  | inside => trivial

theorem declaredIdentifiers_hidden {n : Node} (hn : n.Hidden outside) :
    ∀ i ∈ declaredIdentifiers n, ¬ outside i.id := by
  intro i hi
  unfold declaredIdentifiers at hi
  split at hi
  · rename_i name _ _ _ hform
    have hname : name.Hidden outside := hn.child (by rw [hform]; exact List.mem_cons_self)
    exact hname.bindingIdentifiers i hi
  · cases hi

theorem variableParts (hwalk : WalksSecluded base outside walk) (kind : VariableKind)
    {declarations : List Node} (hns : ∀ n ∈ declarations, n.Hidden outside) (isExported : Bool) :
    Secluded base outside .inside (do
      Binder.declareVariables kind declarations isExported
      declarations.forM walk) fun _ => True :=
  .bind (.declareVariables kind (fun n hn => declaredIdentifiers_hidden (hns n hn)) isExported)
    fun _ _ => .forM fun n hn => hwalk .inside n (.inside (hns n hn))

theorem step (hwalk : WalksSecluded base outside walk) {n : Node} (hn : n.Fits outside at_) :
    Secluded base outside at_ (step walk n) fun _ => True := by
  have hid := hn.hidden.id
  have hname := hn.hidden.name
  have hchild : ∀ c ∈ n.form.children, c.Hidden outside := fun c hc => hn.hidden.child hc
  have hfits : n.form.isPlain = true → ∀ c ∈ n.form.children, c.Fits outside at_ :=
    fun hplain c hc => hn.child hplain hc
  have hvisited : (∀ c ∈ n.form.children, c.Fits outside at_) →
      ∀ c ∈ n.visited, c.Fits outside at_ := Node.Fits.visited_of_children
  have hat : n.form.declaresName = true → at_ = .inside := eq_inside hn
  unfold Binder.step
  cases hform : n.form with
  | forStmt _ _ _ _ | forInStmt _ _ _ | forOfStmt _ _ _ _ | block _ _ _ =>
      rw [hform] at hfits
      refine .inScope .block hid (.forM fun c hc => hwalk _ c ?_)
      exact (hvisited (by rw [hform]; exact hfits rfl) c hc).opened .block
  | conditionalType _ _ _ _ =>
      refine .inScope .block hid (.forM fun c hc => hwalk _ c ?_)
      exact Node.Fits.visited_of_children (conditional_fits hn hform) c hc
  | switchStmt subject clauses =>
      rw [hform] at hfits
      refine .bind (hwalk at_ subject (hfits rfl subject List.mem_cons_self)) fun _ _ => ?_
      refine .inScope .block hid (.forM fun c hc => hwalk _ c ?_)
      exact (hfits rfl c (List.mem_cons_of_mem _ hc)).opened .block
  | varStmt ms list =>
      rw [hform] at hat hchild
      obtain rfl := hat rfl
      have hlist := hchild list (List.mem_singleton.mpr rfl)
      dsimp only
      split
      · rename_i kind declarations hlistform
        refine .withModifiers ms (.variableParts hwalk kind (fun c hc => hlist.child ?_) _)
        rw [hlistform]
        exact hc
      · exact .pure trivial
  | variableList kind declarations =>
      rw [hform] at hat hchild
      obtain rfl := hat rfl
      exact .variableParts hwalk kind hchild false
  | functionStmt ms name? func =>
      rw [hform] at hat hchild hname
      obtain rfl := hat rfl
      have hfunc : Secluded base outside .inside (Binder.function walk func none) fun _ => True :=
        .function hwalk (hchild func (List.mem_singleton.mpr rfl)) (by simp)
      refine .withModifiers ms ?_
      cases name? with
      | none => exact hfunc
      | some name =>
          have hnew := hname name.id (List.mem_singleton.mpr rfl)
          exact .bind (.declareHere (by decide) hnew _ _ _) fun _ _ => hfunc
  | functionExpr _ name? func =>
      rw [hform] at hchild hname
      refine .function hwalk (hchild func (List.mem_singleton.mpr rfl)) fun i hi => ?_
      exact hname i.id (List.mem_map.mpr ⟨i, Option.mem_toList.mpr hi, rfl⟩)
  | functionLike f => exact .function hwalk hn.hidden (by simp)
  | arrowFunction f isBare =>
      rw [hform] at hchild
      have hopened : at_.opened .function = .inside := by cases at_ <;> rfl
      exact .inScope .function hid (hopened ▸ .functionParts hwalk hchild)
  | classStmt cls =>
      rw [hform] at hat hchild
      obtain rfl := hat rfl
      exact .classStatement hwalk n (hchild cls (List.mem_singleton.mpr rfl))
  | classExpr cls =>
      exact .class_ hwalk (.of_fits hn hform) (by simp)
  | interfaceStmt ms name typeParameters bases members =>
      rw [hform] at hat hname
      obtain rfl := hat rfl
      refine .typeDeclaration hwalk hn.hidden (hname _ (List.mem_singleton.mpr rfl)) _ _ ?_
      intro c hc
      rw [hform]
      exact List.mem_append_left _ (List.mem_append_left _ hc)
  | typeAliasStmt ms name typeParameters type =>
      rw [hform] at hat hname
      obtain rfl := hat rfl
      refine .typeDeclaration hwalk hn.hidden (hname _ (List.mem_singleton.mpr rfl)) _ _ ?_
      intro c hc
      rw [hform]
      exact List.mem_append_left _ hc
  | enumStmt ms name members =>
      rw [hform] at hat hname hchild
      obtain rfl := hat rfl
      exact .enumDeclaration hwalk n ms (hname _ (List.mem_singleton.mpr rfl)) hchild
  | moduleDeclaration ms name body? isGlobal =>
      rw [hform] at hat hname hchild
      obtain rfl := hat rfl
      refine .moduleDeclaration hwalk hid ms ?_ (fun c hc => hchild c (Option.mem_toList.mpr hc)) _
      intro i hi
      cases name with
      | identifier name => cases hi; exact hname _ (List.mem_singleton.mpr rfl)
      | string _ => cases hi
  | importStmt ms clause? specifier attributes =>
      rw [hform] at hat hname
      obtain rfl := hat rfl
      refine .option fun clause hclause => ?_
      cases hclause
      exact .declareImport (by decide) hname _
  | importEqualsStmt ms isTypeOnly name reference =>
      rw [hform] at hat hname
      obtain rfl := hat rfl
      exact .declareAlias (by decide) (hname _ (List.mem_singleton.mpr rfl)) _ _ _
  | catchClause binding body =>
      rw [hform] at hfits
      refine .catchClause hwalk hid (fun c hc => hfits rfl c ?_) (hfits rfl body ?_)
      · exact List.mem_append_left _ (Option.mem_toList.mpr hc)
      · exact List.mem_append_right _ (List.mem_singleton.mpr rfl)
  | functionType f | constructorType _ f =>
      refine .genericType hwalk hid (hfits (by rw [hform]; rfl)) fun c hc => ?_
      rw [hform]
      exact List.mem_append_left _ (List.mem_append_left _ (List.mem_append_left _ hc))
  | mappedType _ key nameType _ type =>
      have hopened := Standing.opened_ne_outer at_ .block
      refine .inScope .block hid (.bind (.declareTypeParameter hopened _ ?_) fun _ _ => ?_)
      · exact (hchild key (by rw [hform]; exact List.mem_cons_self)).name
      · refine .forM fun c hc => hwalk _ c ?_
        exact (hvisited (hfits (by rw [hform]; rfl)) c hc).opened .block
  | inferType bound =>
      refine .bind (.declareTypeParameter (ne_outer_of_infer hn hform) _ ?_) fun _ _ => ?_
      · exact (hchild bound (by rw [hform]; exact List.mem_singleton.mpr rfl)).name
      · exact .forM fun c hc => hwalk _ c (hvisited (infer_fits hn hform) c hc)
  | typeElement _ element => exact .typeElement hwalk hid hform (hfits (by rw [hform]; rfl))
  | classMember _ _ _ =>
      rw [hform] at hat
      obtain rfl := hat rfl
      exact .forM fun c hc => hwalk _ c (hvisited (fun c hc => .inside (hchild c hc)) c hc)
  | _ => exact .forM fun c hc => hwalk _ c (hvisited (hfits (by rw [hform]; rfl)) c hc)

end Secluded

/-- The walk over hidden syntax only adds to the base. -/
theorem walkNode_secluded (fuel : Nat) : WalksSecluded base outside (walkNode fuel) := by
  induction fuel with
  | zero => exact fun _ _ _ => .pure trivial
  | succ fuel ih => exact fun _ _ hn => .step ih hn

/-- A type leaves the bindings that were there before it as they were. -/
theorem grown_walkNode_of_foreign {t : Node} (ht : t.Foreign outside) (fuel : Nat) (p : BinderPlace)
    (hp : p.scope < base.scopes.size) : base.Grown outside (walkNode fuel t p base).2 := by
  have hfits : t.Fits outside .outer := ⟨ht.selfContained, ht.numbers⟩
  have hholds : Standing.outer.Holds base base p.scope :=
    ⟨hp, fun h => (h rfl).elim, fun h => by cases h⟩
  exact (walkNode_secluded fuel _ _ hfits p base (.refl base outside) hholds).1.grown

end Binder
end Erasure

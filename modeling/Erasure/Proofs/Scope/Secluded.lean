import Erasure.Proofs.Scope.Growth
import Erasure.Proofs.Untyped.Tree

/-!
Steps of the binder that only add to the bindings that they start from: those that declare names in
scopes that were opened since, and variables in functions that were.
-/

namespace Erasure

/-- Where a step stands, seen from the bindings that it starts from. -/
inductive Standing where
  /-- In any scope. -/
  | outer
  /-- In a scope that was opened since. -/
  | fresh
  /-- In a function that was opened since. -/
  | inside
  deriving DecidableEq

/-- A scope lies where a step stands. -/
structure Standing.Holds (base : Bindings) (at_ : Standing) (b : Bindings) (s : ScopeId) :
    Prop where
  lt : s < b.scopes.size
  fresh : at_ ≠ .outer → base.scopes.size ≤ s
  inside : at_ = .inside → base.scopes.size ≤ b.functionContainer s

theorem Standing.Holds.later {base b c : Bindings} {at_ : Standing} {s : ScopeId}
    (h : at_.Holds base b s) (hlater : b.Later c) : at_.Holds base c s where
  lt := Nat.lt_of_lt_of_le h.lt hlater.scopes_le
  fresh := h.fresh
  inside hat := by
    rw [hlater.functionContainer h.lt]
    exact h.inside hat

namespace Binder

/-- A step that adds to the base only, with a result that satisfies a condition. -/
def Secluded (base : Bindings) (outside : NodeId → Prop) (at_ : Standing) {α : Type}
    (m : Binder α) (P : α → Prop) : Prop :=
  ∀ (p : BinderPlace) (b : Bindings), base.Grown outside b → at_.Holds base b p.scope →
    base.Adds outside b (m p b).2 ∧ P (m p b).1

namespace Secluded

variable {base : Bindings} {outside : NodeId → Prop} {at_ : Standing} {α β : Type}
variable {m : Binder α} {k : α → Binder β} {P : α → Prop} {Q : β → Prop}

theorem pure {a : α} (h : P a) : Secluded base outside at_ (Pure.pure a) P :=
  fun _ b hb _ => ⟨⟨hb, .refl b⟩, h⟩

theorem bind (h : Secluded base outside at_ m P)
    (hk : ∀ a, P a → Secluded base outside at_ (k a) Q) :
    Secluded base outside at_ (m >>= k) Q := by
  intro p b hb hp
  obtain ⟨hadds, ha⟩ := h p b hb hp
  obtain ⟨hadds', ha'⟩ := hk _ ha p _ hadds.grown (hp.later hadds.later)
  exact ⟨hadds.trans hadds', ha'⟩

theorem forM {γ : Type} {as : List γ} {f : γ → Binder Unit}
    (h : ∀ a ∈ as, Secluded base outside at_ (f a) fun _ => True) :
    Secluded base outside at_ (as.forM f) fun _ => True := by
  induction as with
  | nil => exact .pure trivial
  | cons a as ih =>
      obtain ⟨ha, has⟩ := List.forall_mem_cons.mp h
      exact .bind ha fun _ _ => ih has

theorem option {γ : Type} {a? : Option γ} {f : γ → Binder Unit}
    (h : ∀ a ∈ a?, Secluded base outside at_ (f a) fun _ => True) :
    Secluded base outside at_ (a?.forM f) fun _ => True := by
  cases a? with
  | none => exact .pure trivial
  | some a => exact h a rfl

/-- A step that is left out unless a condition holds. -/
theorem when {γ : Type} {c : Prop} [Decidable c] {m : Binder γ} {k : γ → Binder β} {a : γ}
    {R : γ → Prop} (hm : c → Secluded base outside at_ m R) (ha : ¬ c → R a)
    (hk : ∀ a, R a → Secluded base outside at_ (k a) Q) :
    Secluded base outside at_ (if c then m >>= k else k a) Q := by
  split
  · rename_i hc
    exact .bind (hm hc) hk
  · rename_i hc
    exact hk a (ha hc)

end Secluded

variable {base : Bindings} {outside : NodeId → Prop} {at_ : Standing}

theorem Secluded.changeGet {α : Type} {P : α → Prop} {f : Bindings → α × Bindings}
    (h : ∀ b, base.Grown outside b → base.Adds outside b (f b).2 ∧ P (f b).1) :
    Secluded base outside at_ (modifyGet f : Binder α) P :=
  fun _ b hb _ => h b hb

theorem Secluded.change {f : Bindings → Bindings}
    (h : ∀ b, base.Grown outside b → base.Adds outside b (f b)) :
    Secluded base outside at_ (modify f : Binder Unit) fun _ => True :=
  fun _ b hb _ => ⟨h b hb, trivial⟩

theorem Secluded.currentScope :
    Secluded base outside at_ currentScope fun s => at_ ≠ .outer → base.scopes.size ≤ s :=
  fun _ b hb hp => ⟨⟨hb, .refl b⟩, hp.fresh⟩

theorem Secluded.withModifiers {α : Type} {m : Binder α} {P : α → Prop} (ms : Modifiers)
    (h : Secluded base outside at_ m P) : Secluded base outside at_ (withModifiers ms m) P :=
  fun p b hb hp => h { p with isAmbient := p.isAmbient || ms.isAmbient } b hb hp

theorem Secluded.declaration {node : NodeId} (hnode : ¬ outside node) (kind : DeclarationKind)
    (nameSpan span : Span) :
    Secluded base outside at_ (declaration node kind nameSpan span) fun d => ¬ outside d.node :=
  fun _ b hb _ => ⟨⟨hb, .refl b⟩, hnode⟩

theorem Secluded.declareIn {t : TableRef} (ht : t.IsNew base) (name : String) {d : Declaration}
    (hd : ¬ outside d.node) :
    Secluded base outside at_ (declareIn t name d) (base.symbols.size ≤ ·) :=
  fun _ _ hb _ => (hb.declareExcluding ht name d.kind.excludes hd).symm

theorem Secluded.currentNamespace? (hat : at_ ≠ .outer) :
    Secluded base outside at_ currentNamespace? fun owner? =>
      ∀ owner ∈ owner?, base.symbols.size ≤ owner := by
  intro p b hb hp
  refine ⟨⟨hb, .refl b⟩, fun owner howner => ?_⟩
  change owner ∈ (if (b.scope p.scope).kind = .module_ then (b.scope p.scope).container? else none)
    at howner
  split at howner
  · exact hb.container p.scope owner (hp.fresh hat) howner
  · cases howner

theorem Secluded.shareExport {scope : ScopeId} (hscope : base.scopes.size ≤ scope) (name : String)
    {y : SymbolId} (hy : base.symbols.size ≤ y) (owner : SymbolId) :
    Secluded base outside at_ (shareExport scope name y owner) fun _ => True := by
  refine .change fun b hb => ?_
  have hshared : base.Adds outside b
      (if (b.find? name (.locals scope)).isSome then b else b.insert name y (.locals scope)) := by
    split
    · exact ⟨hb, .refl b⟩
    · exact hb.insert (t := .locals scope) hscope name hy
  exact hshared.trans (hshared.grown.modifySymbol hy (fun _ => id) fun _ => id)

theorem Secluded.declareExcluding (hat : at_ ≠ .outer) {scope : ScopeId}
    (hscope : base.scopes.size ≤ scope) {name : Identifier} (hname : ¬ outside name.id)
    (kind : DeclarationKind) (excluded : SymbolFlags) (span : Span) (isExported : Bool) :
    Secluded base outside at_ (declareExcluding scope name kind excluded span isExported)
      (base.symbols.size ≤ ·) := by
  unfold Binder.declareExcluding
  refine .bind (.declaration hname kind name.span span) fun d hd => ?_
  refine .bind .currentScope fun here _ => ?_
  refine .when (a := none) (R := fun owner? : Option SymbolId =>
    ∀ owner ∈ owner?, base.symbols.size ≤ owner) (fun _ => .currentNamespace? hat) (by simp)
    fun owner? howner => ?_
  have htable : ((owner?.map TableRef.exports).getD (.locals scope)).IsNew base := by
    cases owner? with
    | none => exact hscope
    | some owner => exact howner owner rfl
  refine .bind (.changeGet fun b hb => (hb.declareExcluding htable name.text excluded hd).symm)
    fun y hy => ?_
  cases owner? with
  | none =>
      exact .when (a := ()) (R := fun _ => True)
        (fun _ => .change fun b hb => hb.modifySymbol hy (fun _ => id) fun _ => id)
        (fun _ => trivial) fun _ _ => .pure hy
  | some owner =>
      refine .bind (.shareExport hscope name.text hy owner) fun _ _ => ?_
      exact .when (a := ()) (R := fun _ => True)
        (fun _ => .change fun b hb => hb.modifySymbol hy (fun _ => id) fun _ => id)
        (fun _ => trivial) fun _ _ => .pure hy

theorem Secluded.declareHere (hat : at_ ≠ .outer) {name : Identifier} (hname : ¬ outside name.id)
    (kind : DeclarationKind) (span : Span) (isExported : Bool) :
    Secluded base outside at_ (declareHere name kind span isExported) (base.symbols.size ≤ ·) :=
  .bind .currentScope fun _ hs => .declareExcluding hat (hs hat) hname _ _ _ _

theorem Secluded.declareBinding (hat : at_ ≠ .outer) {scope : ScopeId}
    (hscope : base.scopes.size ≤ scope) {n : Node}
    (hn : ∀ i ∈ n.bindingIdentifiers, ¬ outside i.id) (kind : DeclarationKind) (span : Span)
    (isExported : Bool) :
    Secluded base outside at_ (declareBinding scope n kind span isExported) fun _ => True :=
  .forM fun i hi =>
    .bind (.declareExcluding hat hscope (hn i hi) _ _ _ _) fun _ _ => .pure trivial

/-- The names that a variable declares. -/
def declaredIdentifiers (n : Node) : List Identifier :=
  match n.form with
  | .variableDeclaration name _ _ _ => name.bindingIdentifiers
  | _ => []

theorem Secluded.declareVariables (kind : VariableKind) {ns : List Node}
    (hns : ∀ n ∈ ns, ∀ i ∈ declaredIdentifiers n, ¬ outside i.id) (isExported : Bool) :
    Secluded base outside .inside (declareVariables kind ns isExported) fun _ => True := by
  intro p b hb hp
  have hscope : base.scopes.size ≤
      if kind = .var then b.functionContainer p.scope else p.scope := by
    split
    · exact hp.inside rfl
    · exact hp.fresh (by decide)
  refine Secluded.forM (f := fun d => _) (fun n hn => ?_) p b hb hp
  have hids := hns n hn
  unfold declaredIdentifiers at hids
  split
  · rename_i name _ _ _ hform
    rw [hform] at hids
    exact .declareBinding (by decide) hscope hids _ _ _
  · exact .pure trivial

theorem Secluded.declareTypeParameter (hat : at_ ≠ .outer) (excluded : SymbolFlags) {n : Node}
    (hn : ∀ i ∈ n.form.nameIds, ¬ outside i) :
    Secluded base outside at_ (declareTypeParameter excluded n) fun _ => True := by
  unfold Binder.declareTypeParameter
  split
  · rename_i name _ _ hform
    have hname : ¬ outside name.id := hn name.id (by rw [hform]; exact List.mem_singleton.mpr rfl)
    exact .bind .currentScope fun _ hs =>
      .bind (.declareExcluding hat (hs hat) hname _ _ _ _) fun _ _ => .pure trivial
  · exact .pure trivial

end Binder

/-- No number of the tree satisfies `outside`. -/
def Node.Hidden (outside : NodeId → Prop) (n : Node) : Prop := ∀ i, n.Owns i → ¬ outside i

namespace Node.Hidden

variable {outside : NodeId → Prop} {n c : Node}

theorem id (h : n.Hidden outside) : ¬ outside n.id := h n.id (.self rfl)

theorem name (h : n.Hidden outside) : ∀ i ∈ n.form.nameIds, ¬ outside i :=
  fun i hi => h i (.name hi)

theorem child (h : n.Hidden outside) (hc : c ∈ n.form.children) : c.Hidden outside :=
  fun i hi => h i (.child hc hi)

end Node.Hidden

mutual

theorem Node.owns_bindingIdentifiers :
    (n : Node) → ∀ i ∈ n.bindingIdentifiers, n.Owns i.id
  | ⟨id, span, form⟩ => fun i hi => by
      rw [Node.bindingIdentifiers] at hi
      exact form.owns_bindingIdentifiersAt id span i hi

theorem Form.owns_bindingIdentifiersAt (form : Form) (id : NodeId) (span : Span) :
    ∀ i ∈ form.bindingIdentifiersAt id span, (Node.mk id span form).Owns i.id := by
  intro i hi
  cases form with
  | bindingIdentifier text =>
      rw [Form.bindingIdentifiersAt, List.mem_singleton] at hi
      exact .self (by rw [hi])
  | objectPattern elements =>
      rw [Form.bindingIdentifiersAt] at hi
      obtain ⟨c, hc, hi⟩ := owns_bindingIdentifiersOf elements i hi
      exact .child hc hi
  | arrayPattern elements _ =>
      rw [Form.bindingIdentifiersAt] at hi
      obtain ⟨c, hc, hi⟩ := owns_bindingIdentifiersOfHoles elements i hi
      exact .child (List.mem_filterMap.mpr ⟨some c, hc, rfl⟩) hi
  | bindingElement _ property name initializer =>
      rw [Form.bindingIdentifiersAt] at hi
      have hname : name ∈ property.toList ++ [name] ++ initializer.toList :=
        List.mem_append_left _ (List.mem_append_right _ (List.mem_singleton.mpr rfl))
      exact .child hname (name.owns_bindingIdentifiers i hi)
  | _ => cases hi

theorem owns_bindingIdentifiersOf : (ns : List Node) →
    ∀ i ∈ bindingIdentifiersOf ns, ∃ n ∈ ns, n.Owns i.id
  | [] => fun i hi => by cases hi
  | n :: ns => fun i hi => by
      rw [bindingIdentifiersOf, List.mem_append] at hi
      rcases hi with hi | hi
      · exact ⟨n, List.mem_cons_self, n.owns_bindingIdentifiers i hi⟩
      · obtain ⟨m, hm, hi⟩ := owns_bindingIdentifiersOf ns i hi
        exact ⟨m, List.mem_cons_of_mem n hm, hi⟩

theorem owns_bindingIdentifiersOfHoles : (ns : List (Option Node)) →
    ∀ i ∈ bindingIdentifiersOfHoles ns, ∃ n, some n ∈ ns ∧ n.Owns i.id
  | [] => fun i hi => by cases hi
  | n? :: ns => fun i hi => by
      rw [bindingIdentifiersOfHoles, List.mem_append] at hi
      rcases hi with hi | hi
      · obtain ⟨n, rfl, howns⟩ := owns_bindingIdentifiersOfHole n? i hi
        exact ⟨n, List.mem_cons_self, howns⟩
      · obtain ⟨m, hm, hi⟩ := owns_bindingIdentifiersOfHoles ns i hi
        exact ⟨m, List.mem_cons_of_mem n? hm, hi⟩

theorem owns_bindingIdentifiersOfHole : (n? : Option Node) →
    ∀ i ∈ bindingIdentifiersOfHole n?, ∃ n, n? = some n ∧ n.Owns i.id
  | none => fun i hi => by cases hi
  | some n => fun i hi => ⟨n, rfl, n.owns_bindingIdentifiers i hi⟩

end

theorem Node.Hidden.bindingIdentifiers {outside : NodeId → Prop} {n : Node} (h : n.Hidden outside) :
    ∀ i ∈ n.bindingIdentifiers, ¬ outside i.id :=
  fun i hi => h i.id (n.owns_bindingIdentifiers i hi)

/-- Syntax that can stand somewhere: in a new function all can, elsewhere what declares nothing. -/
def Node.Contained : Standing → Node → Prop
  | .outer, n => n.SelfContained false
  | .fresh, n => n.SelfContained true
  | .inside, _ => True

/-- Hidden syntax that can stand somewhere. -/
structure Node.Fits (outside : NodeId → Prop) (at_ : Standing) (n : Node) : Prop where
  contained : n.Contained at_
  hidden : n.Hidden outside

/-- A function is not plain. -/
theorem Form.isPlain_of_opensFunction {form : Form} (h : form.opensFunction = true) :
    form.isPlain = false := by
  cases form <;> first | rfl | exact (Bool.false_ne_true h).elim

/-- What declares a name is not plain. -/
theorem Form.isPlain_of_declaresName {form : Form} (h : form.declaresName = true) :
    form.isPlain = false := by
  cases form <;> first | rfl | exact (Bool.false_ne_true h).elim

theorem Node.SelfContained.children {n : Node} {isConditional : Bool}
    (h : n.SelfContained isConditional) (hplain : n.form.isPlain = true) :
    ∀ m ∈ n.form.children, m.SelfContained isConditional := by
  cases h with
  | function h =>
      exact (Bool.false_ne_true ((Form.isPlain_of_opensFunction h).symm.trans hplain)).elim
  | class_ h => rw [h] at hplain; cases hplain
  | conditional h => rw [h] at hplain; cases hplain
  | infer h => rw [h] at hplain; cases hplain
  | plain _ hbelow => exact hbelow

/-- What needs no conditional type around it can have one. -/
theorem Node.SelfContained.true {n : Node} {isConditional : Bool}
    (h : n.SelfContained isConditional) : n.SelfContained true := by
  induction h with
  | function h => exact .function h
  | class_ h _ ih => exact .class_ h ih
  | conditional h hbelow => exact .conditional h hbelow
  | infer h hbelow => exact .infer h hbelow
  | plain h _ ih => exact .plain h ih

namespace Node.Fits

variable {outside : NodeId → Prop} {at_ : Standing} {n c : Node}

theorem inside (h : n.Hidden outside) : n.Fits outside .inside := ⟨trivial, h⟩

theorem child (h : n.Fits outside at_) (hplain : n.form.isPlain = true)
    (hc : c ∈ n.form.children) : c.Fits outside at_ := by
  refine ⟨?_, h.hidden.child hc⟩
  cases at_ with
  | outer => exact Node.SelfContained.children h.contained hplain c hc
  | fresh => exact Node.SelfContained.children h.contained hplain c hc
  | inside => trivial

theorem isPlain_of_isInner {form : Form} (h : form.isInner = true) : form.isPlain = true := by
  cases form <;> first | rfl | cases h

/-- Visited parts stand where the children stand. -/
theorem visited_of_children (h : ∀ c ∈ n.form.children, c.Fits outside at_) :
    ∀ c ∈ n.visited, c.Fits outside at_ := by
  intro c hc
  have hparts : c ∈ n.form.children.flatMap
      fun m => if m.form.isInner then m.form.children else [m] := by
    unfold Node.visited at hc
    split at hc
    · cases hc
    · cases hc
    · exact hc
  obtain ⟨m, hm, hc⟩ := List.mem_flatMap.mp hparts
  split at hc
  · rename_i hinner
    exact (h m hm).child (isPlain_of_isInner hinner) hc
  · obtain rfl := List.mem_singleton.mp hc
    exact h c hm

end Node.Fits

/-- Where the syntax in a scope of some kind stands. -/
def Standing.opened : Standing → ScopeKind → Standing
  | .inside, _ => .inside
  | _, kind => if kind.isFunctionContainer then .inside else .fresh

theorem Standing.opened_ne_outer (at_ : Standing) (kind : ScopeKind) :
    at_.opened kind ≠ .outer := by
  cases at_ <;> cases kind <;> decide

/-- What can stand somewhere can stand in a scope there. -/
theorem Node.Fits.opened {outside : NodeId → Prop} {at_ : Standing} {n : Node}
    (h : n.Fits outside at_) (kind : ScopeKind) : n.Fits outside (at_.opened kind) := by
  refine ⟨?_, h.hidden⟩
  have hcontained := h.contained
  cases at_ with
  | inside => trivial
  | outer | fresh =>
      cases kind with
      | sourceFile | module_ | function => trivial
      | block | class_ | catchClause => exact Node.SelfContained.true hcontained

namespace Bindings

theorem scopeChain_newScope (b : Bindings) (kind : ScopeKind) {parent : ScopeId}
    (hparent : parent < b.scopes.size) (node : NodeId) :
    (b.newScope kind (some parent) node).2.scopeChain b.scopes.size =
      b.scopes.size :: (b.newScope kind (some parent) node).2.scopeChain parent := by
  rw [Bindings.scopeChain, scope_newScope_self]
  simp only [hparent, if_true]

theorem functionContainer_newScope {base b : Bindings} {outside : NodeId → Prop}
    (hb : base.Grown outside b) (kind : ScopeKind) {parent : ScopeId}
    (hparent : parent < b.scopes.size) {node : NodeId} (hnode : ¬ outside node) :
    (b.newScope kind (some parent) node).2.functionContainer b.scopes.size =
      if kind.isFunctionContainer then b.scopes.size else b.functionContainer parent := by
  have hlater := (hb.newScope kind (some parent) hnode).later
  rw [← hlater.functionContainer hparent]
  unfold Bindings.functionContainer
  rw [b.scopeChain_newScope kind hparent node, List.find?_cons, scope_newScope_self]
  cases kind.isFunctionContainer <;> rfl

end Bindings

theorem Standing.Holds.opened {base b : Bindings} {outside : NodeId → Prop} {at_ : Standing}
    {parent : ScopeId} (h : at_.Holds base b parent) (hb : base.Grown outside b) (kind : ScopeKind)
    {node : NodeId} (hnode : ¬ outside node) :
    (at_.opened kind).Holds base (b.newScope kind (some parent) node).2 b.scopes.size where
  lt := by simp
  fresh _ := hb.scopes_le
  inside hinside := by
    rw [Bindings.functionContainer_newScope hb kind h.lt hnode]
    split
    · exact hb.scopes_le
    · rename_i hkind
      cases at_ with
      | inside => exact h.inside rfl
      | outer | fresh => simp [Standing.opened, hkind] at hinside

namespace Binder

variable {base : Bindings} {outside : NodeId → Prop} {at_ : Standing}

theorem Secluded.inScope (kind : ScopeKind) {node : NodeId} (hnode : ¬ outside node)
    {m : Binder Unit} (h : Secluded base outside (at_.opened kind) m fun _ => True) :
    Secluded base outside at_ (inScope kind node m) fun _ => True := by
  intro p b hb hp
  have hnew := hb.newScope kind (some p.scope) hnode
  obtain ⟨hadds, -⟩ := h { p with scope := b.scopes.size } _ hnew.grown (hp.opened hb kind hnode)
  exact ⟨hnew.trans hadds, trivial⟩

end Binder
end Erasure

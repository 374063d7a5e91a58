import Erasure.Proofs.Untyped.BinderWalk
import Erasure.Scope.EnumValue

/-!
Values of enum members, with and without the types of a file. Enums inside of types give values to
members inside of types only.
-/

namespace Erasure.EnumValues

variable {M : Matching} {outside : NodeId → Prop} {b b' : Bindings} {v v' : EnumValues}

/-- The same values of the members whose numbers satisfy `outside`. -/
def Alike (outside : NodeId → Prop) (v v' : EnumValues) : Prop :=
  ∀ i, outside i → v[i]? = v'[i]?

theorem getElem?_insert_self (v : EnumValues) (i : NodeId) (x : EnumValue) :
    (v.insert i x)[i]? = some x := by
  simp

theorem getElem?_insert_of_ne (v : EnumValues) {i j : NodeId} (h : j ≠ i) (x : EnumValue) :
    (v.insert i x)[j]? = v[j]? := by
  simp [Std.TreeMap.getElem?_insert, Ne.symm h]

theorem Alike.insert (h : Alike outside v v') (i : NodeId) (x : EnumValue) :
    Alike outside (v.insert i x) (v'.insert i x) := by
  intro j hj
  by_cases hji : j = i
  · subst hji
    rw [getElem?_insert_self, getElem?_insert_self]
  · rw [getElem?_insert_of_ne v hji, getElem?_insert_of_ne v' hji]
    exact h j hj

theorem Alike.insert_left (h : Alike outside v v') {i : NodeId} (hi : ¬ outside i) (x : EnumValue) :
    Alike outside (v.insert i x) v' := by
  intro j hj
  have hji : j ≠ i := fun heq => hi (heq ▸ hj)
  rw [getElem?_insert_of_ne v hji]
  exact h j hj

theorem Alike.member? (h : Alike outside v v') (hb : b.Matches M outside b') {y y' : SymbolId}
    (hy : M.symbols y y') (name : String) : v.member? b y name = v'.member? b' y' name := by
  refine eq_of_rel (rel_bind ((hb.symbol y y' hy).exports.find? name) fun z z' hz => ?_)
  refine rel_bind (hb.symbol z z' hz).declaration? fun d d' hd => rel_of_eq ?_
  rw [← hd.node]
  exact h d.node hd.shared

/-- Initializers that are evaluated in matching enums. -/
structure Scope.Alike (M : Matching) (outside : NodeId → Prop) (s s' : Scope) : Prop where
  bindings : s.bindings.Matches M outside s'.bindings
  values : EnumValues.Alike outside s.values s'.values
  owner : Option.Rel M.symbols s.owner? s'.owner?

namespace Scope.Alike

variable {s s' : Scope}

theorem enum? (h : s.Alike M outside s') (name : String) :
    Option.Rel M.symbols (s.enum? name) (s'.enum? name) := by
  have hscope : M.scopes
      (((s.owner?.bind fun y => (s.bindings.symbol y).declaration?).map Declaration.scope).getD
        Bindings.rootScope)
      (((s'.owner?.bind fun y => (s'.bindings.symbol y).declaration?).map Declaration.scope).getD
        Bindings.rootScope) := by
    have hdeclaration : Option.Rel (Declaration.Matches M outside)
        (s.owner?.bind fun y => (s.bindings.symbol y).declaration?)
        (s'.owner?.bind fun y => (s'.bindings.symbol y).declaration?) :=
      rel_bind h.owner fun y y' hy => (h.bindings.symbol y y' hy).declaration?
    exact rel_getD (rel_map hdeclaration fun _ _ hd => hd.scope) h.bindings.root
  refine rel_bind (h.bindings.resolve? hscope name SymbolFlags.enum) fun y y' hy => ?_
  rw [(h.bindings.symbol y y' hy).has]
  split
  · exact .some hy
  · exact .none

theorem memberOf? (h : s.Alike M outside s') (target : Node) (name : String) :
    s'.memberOf? target.untyped name = s.memberOf? target name := by
  unfold Scope.memberOf?
  rw [Node.identifier?_untyped]
  cases target.identifier? with
  | none => rfl
  | some object =>
      refine (eq_of_rel (rel_bind (h.enum? object) fun y y' hy => rel_of_eq ?_)).symm
      exact h.values.member? h.bindings hy name

theorem named? (h : s.Alike M outside s') (name : String) : s'.named? name = s.named? name := by
  have howner : (s.owner?.bind fun y => s.values.member? s.bindings y name) =
      s'.owner?.bind fun y => s'.values.member? s'.bindings y name :=
    eq_of_rel (rel_bind h.owner fun y y' hy => rel_of_eq (h.values.member? h.bindings hy name))
  unfold Scope.named?
  split
  · rfl
  · split
    · rfl
    · exact howner.symm

end Scope.Alike

theorem templateSpan?_untyped {evaluate evaluate' : Node → Option EnumValue}
    (h : ∀ n, n.Apart outside → evaluate' n.untyped = evaluate n) {n : Node}
    (hn : n.Apart outside) :
    templateSpan? evaluate' n.untyped = templateSpan? evaluate n := by
  have hform := hn.form
  unfold templateSpan?
  rw [Node.form_untyped]
  cases hn : n.form with
  | templateSpan expression literal =>
      rw [hn] at hform
      change (do return (← evaluate' expression.untyped).text ++ (← templatePart? literal)) = _
      rw [h expression hform]
  | _ => rfl

theorem evaluate?_untyped {s s' : Scope} (h : s.Alike M outside s') (fuel : Nat) :
    ∀ n : Node, n.Apart outside → evaluate? s' fuel n.untyped = evaluate? s fuel n := by
  induction fuel with
  | zero => exact fun _ _ => rfl
  | succ fuel ih =>
      intro n hn
      have hform := hn.form
      unfold evaluate?
      rw [Node.form_untyped]
      cases hn : n.form with
      | template head spans =>
          rw [hn] at hform
          have hspans : (untypedAll spans).mapM (templateSpan? (evaluate? s' fuel)) =
              spans.mapM (templateSpan? (evaluate? s fuel)) := by
            clear hn
            induction spans with
            | nil => rfl
            | cons c cs ihs =>
                rw [untypedAll, List.mapM_cons, List.mapM_cons, templateSpan?_untyped ih hform.1,
                  ihs hform.2]
          change (do
            let first ← templatePart? head
            let rest ← (untypedAll spans).mapM (templateSpan? (evaluate? s' fuel))
            return EnumValue.string (first ++ String.join rest)) = _
          rw [hspans]
      | parenthesized inner =>
          rw [hn] at hform
          exact ih inner hform
      | identifier name => exact h.named? name
      | propertyAccess target name _ _ =>
          change (if name.isPrivate then none else s'.memberOf? target.untyped name.ident.text) = _
          rw [h.memberOf?]
      | elementAccess target index _ =>
          obtain ⟨_, _, form⟩ := index
          cases form <;> first | rfl | exact h.memberOf? target _
      | prefixUnary operator operand =>
          rw [hn] at hform
          change (do unary? operator (← evaluate? s' fuel operand.untyped)) = _
          rw [ih operand hform]
      | binary left operator right _ _ =>
          rw [hn] at hform
          change (do
            let x ← evaluate? s' fuel left.untyped
            let y ← evaluate? s' fuel right.untyped
            binary? operator x y) = _
          rw [ih left hform.1, ih right hform.2]
      | _ => rfl

/-- The value of a member after the member before it. -/
def memberValue? (b : Bindings) (owner? : Option SymbolId) (p : Progress)
    (initializer : Option Node) : Option EnumValue :=
  match initializer with
  | some e => evaluate? ⟨b, p.values, owner?⟩ (Limits.enumFold + 1) e
  | none =>
      match p.previous? with
      | none => some (.number 0.0)
      | some previous => increment? previous

/-- The state after a member with a value. -/
def Progress.record (p : Progress) (member : NodeId) (value : Option EnumValue) : Progress where
  values := match value with
    | some v => p.values.insert member v
    | none => p.values
  previous? := some value

theorem evaluateMember_enumMember (b : Bindings) (owner? : Option SymbolId) (p : Progress)
    {n key : Node} {initializer : Option Node} (h : n.form = .enumMember key initializer) :
    evaluateMember b owner? p n = p.record n.id (memberValue? b owner? p initializer) := by
  unfold evaluateMember
  rw [h]
  rfl

/-- The state between two members, with the same values outside of types. -/
structure Progress.Alike (outside : NodeId → Prop) (p p' : Progress) : Prop where
  values : EnumValues.Alike outside p.values p'.values
  previous : p.previous? = p'.previous?

theorem Progress.Alike.record {p p' : Progress} (h : p.Alike outside p') (member : NodeId)
    (value : Option EnumValue) :
    (p.record member value).Alike outside (p'.record member value) := by
  refine ⟨?_, rfl⟩
  cases value with
  | none => exact h.values
  | some v => exact h.values.insert member v

theorem memberValue?_untyped (hb : b.Matches M outside b') {y? y?' : Option SymbolId}
    (hy : Option.Rel M.symbols y? y?') {p p' : Progress} (hp : p.Alike outside p')
    {initializer : Option Node} (h : ApartOption outside initializer) :
    memberValue? b' y?' p' (untypedOption initializer) = memberValue? b y? p initializer := by
  have hscope : Scope.Alike M outside ⟨b, p.values, y?⟩ ⟨b', p'.values, y?'⟩ := ⟨hb, hp.values, hy⟩
  unfold memberValue?
  cases initializer with
  | none =>
      change (match p'.previous? with | none => _ | some _ => _) = _
      rw [← hp.previous]
  | some e => exact evaluate?_untyped hscope _ e h

theorem evaluateMember_alike (hb : b.Matches M outside b') {y? y?' : Option SymbolId}
    (hy : Option.Rel M.symbols y? y?') {p p' : Progress} (hp : p.Alike outside p') {n : Node}
    (hn : n.Apart outside) :
    (evaluateMember b y? p n).Alike outside (evaluateMember b' y?' p' n.untyped) := by
  have hform := hn.form
  cases h : n.form with
  | enumMember key initializer =>
      rw [h] at hform
      have huntyped : n.untyped.form = .enumMember key.untyped (untypedOption initializer) := by
        rw [Node.form_untyped, h]
        rfl
      rw [evaluateMember_enumMember b y? p h, evaluateMember_enumMember b' y?' p' huntyped,
        memberValue?_untyped hb hy hp hform.2, Node.id_untyped]
      exact hp.record _ _
  | _ =>
      unfold evaluateMember
      rw [Node.form_untyped, h]
      exact hp

theorem evaluateEnum_alike (hb : b.Matches M outside b') (hv : Alike outside v v') {n : Node}
    (hn : n.Apart outside) :
    Alike outside (evaluateEnum b v n) (evaluateEnum b' v' n.untyped) := by
  have hform := hn.form
  have hname := hn.name
  unfold evaluateEnum
  rw [Node.form_untyped]
  cases h : n.form with
  | enumStmt ms name members =>
      rw [h] at hform hname
      have howner := hb.symbolOf? name.id (hname name.id (List.mem_singleton.mpr rfl))
      have hmembers : ∀ (p p' : Progress), p.Alike outside p' →
          (members.foldl (evaluateMember b (b.symbolOf? name.id)) p).Alike outside
            ((untypedAll members).foldl (evaluateMember b' (b'.symbolOf? name.id)) p') := by
        clear h hname hv
        induction members with
        | nil => exact fun _ _ hp => hp
        | cons c cs ih =>
            exact fun p p' hp => ih hform.2 _ _ (evaluateMember_alike hb howner hp hform.1)
      exact (hmembers { values := v } { values := v' } ⟨hv, rfl⟩).values
  | _ => exact hv

theorem Alike.refl (v : EnumValues) : Alike outside v v := fun _ _ => rfl

theorem Alike.trans {w : EnumValues} (h : Alike outside v v') (h' : Alike outside v' w) :
    Alike outside v w :=
  fun i hi => (h i hi).trans (h' i hi)

/-- Members inside of types give no value to members outside. -/
theorem evaluateMember_hidden (y? : Option SymbolId) (p : Progress) {n : Node}
    (hn : ¬ outside n.id) : Alike outside (evaluateMember b y? p n).values p.values := by
  cases h : n.form with
  | enumMember key initializer =>
      rw [evaluateMember_enumMember b y? p h]
      unfold Progress.record
      cases memberValue? b y? p initializer with
      | none => exact .refl _
      | some value => exact (Alike.refl _).insert_left hn value
  | _ =>
      unfold evaluateMember
      rw [h]
      exact .refl _

theorem evaluateEnum_hidden {n : Node} (hn : n.Hidden outside) :
    Alike outside (evaluateEnum b v n) v := by
  unfold evaluateEnum
  cases h : n.form with
  | enumStmt ms name members =>
      have hmembers : ∀ c ∈ members, ¬ outside c.id := by
        intro c hc
        refine (hn.child ?_).id
        rw [h]
        exact hc
      have hfold : ∀ p : Progress,
          Alike outside (members.foldl (evaluateMember b (b.symbolOf? name.id)) p).values
            p.values := by
        clear h
        induction members with
        | nil => exact fun _ => .refl _
        | cons c cs ih =>
            obtain ⟨hc, hcs⟩ := List.forall_mem_cons.mp hmembers
            exact fun p => (ih hcs _).trans (evaluateMember_hidden _ p hc)
      exact hfold _
  | _ => exact .refl _

theorem hidden_of_mem_visited {n c : Node} (hn : n.Hidden outside) (hc : c ∈ n.visited) :
    c.Hidden outside := by
  obtain ⟨d, hd, hc⟩ : ∃ d ∈ n.form.children, c ∈ d.visitedParts := by
    unfold Node.visited at hc
    split at hc
    · cases hc
    · cases hc
    · exact List.mem_flatMap.mp hc
  have hhidden := hn.child hd
  unfold Node.visitedParts at hc
  split at hc
  · exact hhidden.child hc
  · rw [List.mem_singleton.mp hc]
    exact hhidden

theorem hidden_of_mem_visitedWithin (fuel : Nat) {n c : Node} (hn : n.Hidden outside)
    (hc : c ∈ n.visitedWithin fuel) : c.Hidden outside := by
  induction fuel generalizing n with
  | zero => cases hc
  | succ fuel ih =>
      rcases List.mem_cons.mp hc with rfl | hc
      · exact hn
      · obtain ⟨d, hd, hc⟩ := List.mem_flatMap.mp hc
        exact ih (hidden_of_mem_visited hn hd) hc

theorem foldl_evaluateEnum_hidden (ns : List Node) (hns : ∀ n ∈ ns, n.Hidden outside) :
    Alike outside (ns.foldl (evaluateEnum b) v) v := by
  induction ns generalizing v with
  | nil => exact .refl v
  | cons n ns ih =>
      obtain ⟨hn, hns⟩ := List.forall_mem_cons.mp hns
      exact (ih hns).trans (evaluateEnum_hidden hn)

/-- Values after the enums in a list of trees. -/
def afterTrees (b : Bindings) (fuel : Nat) (v : EnumValues) (ns : List Node) : EnumValues :=
  (ns.flatMap (Node.visitedWithin fuel)).foldl (evaluateEnum b) v

theorem afterTrees_zero (b : Bindings) (v : EnumValues) (ns : List Node) :
    afterTrees b 0 v ns = v := by
  have hnone : ns.flatMap (Node.visitedWithin 0) = [] := List.flatMap_eq_nil_iff.mpr fun _ _ => rfl
  rw [afterTrees, hnone, List.foldl_nil]

theorem afterTrees_cons (b : Bindings) (fuel : Nat) (v : EnumValues) (n : Node) (ns : List Node) :
    afterTrees b fuel v (n :: ns) =
      afterTrees b fuel ((n.visitedWithin fuel).foldl (evaluateEnum b) v) ns := by
  rw [afterTrees, List.flatMap_cons, List.foldl_append, afterTrees]

theorem foldl_visitedWithin_succ (b : Bindings) (fuel : Nat) (v : EnumValues) (n : Node) :
    (n.visitedWithin (fuel + 1)).foldl (evaluateEnum b) v =
      afterTrees b fuel (evaluateEnum b v n) n.visited := rfl

theorem afterTrees_alike (hb : b.Matches M outside b') (fuel : Nat) (hv : Alike outside v v')
    {hasClauses : Bool} {ns ms : List Node} (h : Erases outside hasClauses ns ms) :
    Alike outside (afterTrees b fuel v ns) (afterTrees b' fuel v' ms) := by
  induction fuel generalizing v v' hasClauses ns ms with
  | zero =>
      rw [afterTrees_zero, afterTrees_zero]
      exact hv
  | succ fuel ih =>
      induction h generalizing v v' with
      | nil => exact hv
      | value hn _ ihs =>
          rw [afterTrees_cons, afterTrees_cons, foldl_visitedWithin_succ, foldl_visitedWithin_succ]
          exact ihs (ih (evaluateEnum_alike hb hv hn) (Node.erases_visited hn))
      | type ht _ _ ihs =>
          rw [afterTrees_cons]
          refine ihs ((foldl_evaluateEnum_hidden _ fun c hc => ?_).trans hv)
          exact hidden_of_mem_visitedWithin (fuel + 1) ht.numbers hc
      | blank _ ihs =>
          rw [afterTrees_cons]
          exact ihs hv

/-- A file gives the same values to members outside of types with and without its types. -/
theorem alike_ofFile {f : SourceFile} (hf : ∀ n ∈ f.statements, n.Apart outside)
    (hb : b.Matches M outside b') : Alike outside (ofFile f b) (ofFile f.untyped b') := by
  have hstatements : Erases outside false f.statements (untypedAll f.statements) :=
    .all (apartAll_iff.mpr hf)
  exact afterTrees_alike hb f.nodeCount (.refl {}) hstatements

end Erasure.EnumValues

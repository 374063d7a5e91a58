import Erasure.Proofs.Untyped.Tree

/-!
What a traversal of a tree meets that a traversal without its types does not: types, and nothing
else.
-/

namespace Erasure

variable {outside : NodeId → Prop}

@[simp]
theorem Node.id_untyped (n : Node) : n.untyped.id = n.id := by
  cases n
  rfl

@[simp]
theorem Node.span_untyped (n : Node) : n.untyped.span = n.span := by
  cases n
  rfl

@[simp]
theorem Node.form_untyped (n : Node) : n.untyped.form = n.form.untyped := by
  cases n
  rfl

@[simp]
theorem untypedAll_eq_map (ns : List Node) : untypedAll ns = ns.map Node.untyped := by
  induction ns with
  | nil => rfl
  | cons n ns ih => rw [untypedAll, ih, List.map_cons]

@[simp]
theorem untypedOption_eq_map (n? : Option Node) : untypedOption n? = n?.map Node.untyped := by
  cases n? <;> rfl

@[simp]
theorem untypedLists_eq_map (ns? : Option (List Node)) :
    untypedLists ns? = ns?.map (List.map Node.untyped) := by
  cases ns? with
  | none => rfl
  | some ns => rw [untypedLists, untypedAll_eq_map, Option.map_some]

@[simp]
theorem untypedHoles_eq_map (ns : List (Option Node)) :
    untypedHoles ns = ns.map (Option.map Node.untyped) := by
  induction ns with
  | nil => rfl
  | cons n? ns ih => rw [untypedHoles, ih, untypedOption_eq_map, List.map_cons]

theorem Node.apart_iff {n : Node} : n.Apart outside ↔
    outside n.id ∧ (∀ i ∈ n.form.nameIds, outside i) ∧ n.form.Apart outside := by
  cases n
  rfl

theorem apartAll_iff {ns : List Node} : ApartAll outside ns ↔ ∀ n ∈ ns, n.Apart outside := by
  induction ns with
  | nil => simp [ApartAll]
  | cons n ns ih => simp [ApartAll, ih]

theorem apartOption_iff {n? : Option Node} :
    ApartOption outside n? ↔ ∀ n ∈ n?, n.Apart outside := by
  cases n? <;> simp [ApartOption]

theorem apartLists_iff {ns? : Option (List Node)} :
    ApartLists outside ns? ↔ ∀ n ∈ ns?.getD [], n.Apart outside := by
  cases ns? <;> simp [ApartLists, apartAll_iff]

theorem apartHoles_iff {ns : List (Option Node)} :
    ApartHoles outside ns ↔ ∀ n, some n ∈ ns → n.Apart outside := by
  induction ns with
  | nil => simp [ApartHoles]
  | cons n? ns ih => cases n? <;> simp [ApartHoles, ApartOption, ih]

/-- The second list is the first one without types, where blanks may stand for them. What is left
out are types, unless the lists belong to syntax with clauses. -/
inductive Erases (outside : NodeId → Prop) (hasClauses : Bool) : List Node → List Node → Prop where
  | nil : Erases outside hasClauses [] []
  | value {n : Node} {ns ms : List Node} (h : n.Apart outside)
      (hs : Erases outside hasClauses ns ms) :
      Erases outside hasClauses (n :: ns) (n.untyped :: ms)
  | type {t : Node} {ns ms : List Node} (h : t.Foreign outside)
      (hkind : hasClauses = true ∨ t.form.isTypeSyntax = true)
      (hs : Erases outside hasClauses ns ms) : Erases outside hasClauses (t :: ns) ms
  | blank {ns ms : List Node} (hs : Erases outside hasClauses ns ms) :
      Erases outside hasClauses ns (.blankType :: ms)

namespace Erases

variable {ns ms ns' ms' : List Node} {n : Node} {n? : Option Node} {hasClauses : Bool}

theorem append (h : Erases outside hasClauses ns ms) (h' : Erases outside hasClauses ns' ms') :
    Erases outside hasClauses (ns ++ ns') (ms ++ ms') := by
  induction h with
  | nil => exact h'
  | value h _ ih => exact .value h ih
  | type h hkind _ ih => exact .type h hkind ih
  | blank _ ih => exact .blank ih

theorem all (h : ApartAll outside ns) : Erases outside hasClauses ns (untypedAll ns) := by
  induction ns with
  | nil => exact .nil
  | cons n ns ih => exact .value h.1 (ih h.2)

theorem one (h : n.Apart outside) : Erases outside hasClauses [n] [n.untyped] := .value h .nil

theorem option (h : ApartOption outside n?) :
    Erases outside hasClauses n?.toList (untypedOption n?).toList := by
  cases n? with
  | none => exact .nil
  | some n => exact .one h

theorem lists {ns? : Option (List Node)} (h : ApartLists outside ns?) :
    Erases outside hasClauses (ns?.getD []) ((untypedLists ns?).getD []) := by
  cases ns? with
  | none => exact .nil
  | some ns => exact .all h

theorem holes {ns : List (Option Node)} (h : ApartHoles outside ns) :
    Erases outside hasClauses (ns.filterMap id) ((untypedHoles ns).filterMap id) := by
  induction ns with
  | nil => exact .nil
  | cons n? ns ih =>
      cases n? with
      | none => exact ih h.2
      | some n => exact .value h.1 (ih h.2)

theorem types (h : ForeignTypes outside ns) : Erases outside hasClauses ns [] := by
  induction ns with
  | nil => exact .nil
  | cons t ts ih =>
      obtain ⟨ht, hs⟩ := List.forall_mem_cons.mp h
      exact .type ht.1 (.inr ht.2) (ih hs)

theorem clauses (h : ForeignClauses outside ns) : Erases outside true ns [] := by
  induction ns with
  | nil => exact .nil
  | cons t ts ih =>
      obtain ⟨ht, hs⟩ := List.forall_mem_cons.mp h
      exact .type ht (.inl rfl) (ih hs)

theorem blanked {t : Node} (h : t.ForeignType outside) :
    Erases outside hasClauses [t] [.blankType] :=
  .type h.1 (.inr h.2) (.blank .nil)

/-- Inner parts are no syntax with clauses. -/
theorem of_isInner {form : Form} (hinner : form.isInner = true)
    (h : Erases outside form.hasClauses ns ms) : Erases outside hasClauses ns ms := by
  have hform : form.hasClauses = false := by
    cases form <;> first | rfl | cases hinner
  rw [hform] at h
  induction h with
  | nil => exact .nil
  | value h _ ih => exact .value h ih
  | type h hkind _ ih => exact .type h (.inr (hkind.resolve_left Bool.false_ne_true)) ih
  | blank _ ih => exact .blank ih

end Erases

theorem FunctionLike.erases_children {f : FunctionLike} (h : f.Apart outside) :
    Erases outside false f.children f.untyped.children := by
  obtain ⟨isAsync, isGenerator, typeParameters, parameters, returnType, body⟩ := f
  obtain ⟨htypes, hparameters, hreturn, hbody⟩ := h
  exact (((Erases.lists htypes).append (.all hparameters)).append (.types hreturn)).append
    (.option hbody)

theorem Parameter.erases_children {p : Parameter} (h : p.Apart outside) :
    Erases outside false p.children p.untyped.children := by
  obtain ⟨decorators, _, _, name, _, type, initializer⟩ := p
  obtain ⟨hdecorators, hname, htype, hinitializer⟩ := h
  exact (((Erases.all hdecorators).append (.one hname)).append (.types htype)).append
    (.option hinitializer)

theorem ClassLike.erases_children {c : ClassLike} (h : c.Apart outside) :
    Erases outside true c.children c.untyped.children := by
  obtain ⟨decorators, _, _, typeParameters, base, interfaces, members⟩ := c
  obtain ⟨hdecorators, htypes, hbase, hinterfaces, hmembers⟩ := h
  exact ((((Erases.all hdecorators).append (.lists htypes)).append (.option hbase)).append
    (.clauses hinterfaces)).append (.all hmembers)

theorem Form.erases_directChildren {form : Form} (h : form.Apart outside) :
    Erases outside form.hasClauses form.directChildren form.untyped.directChildren := by
  cases form with
  | template _ ns | arrayLiteral ns _ | objectLiteral ns _ | enumStmt _ _ ns | block ns _ _
  | variableList _ ns | objectPattern ns | importAttributes _ ns | moduleBlock ns => exact .all h
  | functionExpr _ _ n | classExpr n | parenthesized n | propertyAccess n _ _ _
  | prefixUnary _ n | postfixUnary _ n | typeofExpr n | voidExpr n | deleteExpr n
  | awaitExpr n | spread n | nonNull n | templateSpan n _ | spreadProperty n | computedKey n
  | blockStmt n | exprStmt n | varStmt _ n | functionStmt _ _ n | classStmt n | moduleStmt n
  | exportAssignment _ n | labeledStmt _ n | throwStmt n | importAttribute _ n | decorator n
  | constructorMember n | staticBlock n => exact .one h
  | elementAccess m n _ | binary m _ n _ _ | propertyAssignment m n | methodProperty m n
  | getterProperty m n | setterProperty m n | doStmt m n | whileStmt m n | withStmt m n
  | methodMember m _ n | getterMember m n | setterMember m n => exact .value h.1 (.one h.2)
  | conditional l m n _ | forInStmt l m n | forOfStmt _ l m n =>
      exact .value h.1 (.value h.2.1 (.one h.2.2))
  | yieldExpr _ n | shorthandProperty _ n | importStmt _ _ _ n | exportStmt _ _ _ _ n
  | returnStmt n | moduleDeclaration _ _ n _ => exact .option h
  | arrowFunction func _ | functionLike func => exact func.erases_children h
  | parameter p => exact p.erases_children h
  | classLike c => exact c.erases_children h
  | call callee typeArguments arguments _ =>
      exact .value h.1 ((Erases.types h.2.1).append (.all h.2.2))
  | newExpr callee typeArguments arguments =>
      exact .value h.1 ((Erases.types h.2.1).append (.lists h.2.2))
  | taggedTemplate tag typeArguments quasi =>
      exact .value h.1 ((Erases.types h.2.1).append (.one h.2.2))
  | asExpr operand type | satisfiesExpr operand type | typeAssertion type operand =>
      exact .value h.1 (.blanked h.2)
  | instantiation operand typeArguments => exact .value h.1 (.types h.2)
  | interfaceStmt _ _ typeParameters bases members =>
      exact ((Erases.lists h.1).append (.clauses h.2.1)).append (.types h.2.2)
  | typeAliasStmt _ _ typeParameters type => exact (Erases.lists h.1).append (.blanked h.2)
  | ifStmt condition thenBranch elseBranch =>
      exact .value h.1 (.value h.2.1 (.option h.2.2))
  | forStmt initializer condition incrementor body =>
      exact (((Erases.option h.1).append (.option h.2.1)).append (.option h.2.2.1)).append
        (.one h.2.2.2)
  | switchStmt expression clauses => exact .value h.1 (.all h.2)
  | tryStmt block handler finalizer =>
      exact .value h.1 ((Erases.option h.2.1).append (.option h.2.2))
  | variableDeclaration name _ type initializer | propertyMember name _ _ type initializer =>
      exact .value h.1 ((Erases.types h.2.1).append (.option h.2.2))
  | arrayPattern elements _ => exact .holes h
  | bindingElement _ property name initializer =>
      exact ((Erases.option h.1).append (.one h.2.1)).append (.option h.2.2)
  | caseClause expression statements _ => exact (Erases.option h.1).append (.all h.2)
  | catchClause binding block => exact (Erases.option h.1).append (.one h.2)
  | typeParameter _ _ bound fallback => exact (Erases.types h.1).append (.types h.2)
  | heritage _ expression typeArguments => exact .value h.1 (.types h.2)
  | indexMember parameters type => exact (Erases.all h.1).append (.types h.2)
  | enumMember name initializer => exact .value h.1 (.option h.2)
  | _ => first | exact .nil | exact h.elim

theorem Form.erases_children {form : Form} (h : form.Apart outside) :
    Erases outside form.hasClauses form.children form.untyped.children := by
  cases form with
  | classMember decorators ms member =>
      refine (Erases.all h.1).append ?_
      have hclauses : (Form.classMember decorators ms member).hasClauses = member.hasClauses :=
        h.2.1.symm
      rw [hclauses]
      exact Form.erases_directChildren h.2.2
  | typeElement _ _ => exact h.elim
  | _ => exact Form.erases_directChildren h

theorem Form.isInner_untyped (form : Form) : form.untyped.isInner = form.isInner := by
  cases form <;> rfl

/-- A part that is visited in place of the node that it belongs to. -/
def Node.visitedParts (n : Node) : List Node :=
  if n.form.isInner then n.form.children else [n]

theorem Erases.visitedParts {ns ms : List Node} {hasClauses : Bool}
    (h : Erases outside hasClauses ns ms) :
    Erases outside hasClauses (ns.flatMap Node.visitedParts) (ms.flatMap Node.visitedParts) := by
  induction h with
  | nil => exact .nil
  | @value n ns ms h _ ih =>
      refine Erases.append ?_ ih
      rw [Node.visitedParts, Node.visitedParts, Node.form_untyped, Form.isInner_untyped]
      split
      · rename_i hinner
        exact .of_isInner hinner (Form.erases_children (Node.apart_iff.mp h).2.2)
      · exact .one h
  | @type t ns ms h hkind _ ih =>
      have hwhole : t.visitedParts = [t] := by simp [Node.visitedParts, h.isWhole]
      rw [List.flatMap_cons, hwhole]
      exact .type h hkind ih
  | blank _ ih => exact .blank ih

/-- What is visited from a node and not from the node without types are its types. -/
theorem Node.erases_visited {n : Node} (h : n.Apart outside) :
    Erases outside n.form.hasClauses n.visited n.untyped.visited := by
  obtain ⟨id, span, form⟩ := n
  have hchildren := (Form.erases_children (Node.apart_iff.mp h).2.2).visitedParts
  cases form with
  | importStmt _ _ _ _ | exportStmt _ _ _ _ _ => exact .nil
  | _ => exact hchildren

end Erasure

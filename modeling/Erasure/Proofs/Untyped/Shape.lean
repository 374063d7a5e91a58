import Erasure.Print.File
import Erasure.Proofs.Untyped.Uses

/-!
What printing asks about syntax has the same answer without its types: what is left of an
expression, which parts of a class are printed, and how statements begin.
-/

namespace Erasure

variable {outside : NodeId → Prop}

mutual

@[simp]
theorem Node.skipParentheses_untyped :
    (n : Node) → n.untyped.skipParentheses = n.skipParentheses.untyped
  | ⟨id, span, form⟩ => by
      have h := form.insideParentheses?_untyped
      rw [Node.untyped, Node.skipParentheses, Node.skipParentheses, h]
      cases form.insideParentheses? <;> rfl

theorem Form.insideParentheses?_untyped (form : Form) :
    form.untyped.insideParentheses? = form.insideParentheses?.map Node.untyped := by
  cases form with
  | parenthesized inner => exact congrArg some inner.skipParentheses_untyped
  | _ => rfl

end

@[simp]
theorem Form.isAssertion_untyped (form : Form) : form.untyped.isAssertion = form.isAssertion := by
  cases form <;> rfl

mutual

@[simp]
theorem Node.erased_untyped : (n : Node) → n.untyped.erased = n.erased.untyped
  | ⟨id, span, form⟩ => by
      have h := form.insideErased?_untyped
      rw [Node.untyped, Node.erased, Node.erased, h]
      cases form.insideErased? <;> rfl

theorem Form.insideErased?_untyped (form : Form) :
    form.untyped.insideErased? = form.insideErased?.map Node.untyped := by
  cases form with
  | asExpr operand _ | satisfiesExpr operand _ | typeAssertion _ operand | nonNull operand
  | instantiation operand _ => exact congrArg some operand.erased_untyped
  | parenthesized inner =>
      change (if inner.untyped.skipParentheses.form.isAssertion then some inner.untyped.erased
        else none) = Option.map Node.untyped
          (if inner.skipParentheses.form.isAssertion then some inner.erased else none)
      rw [Node.skipParentheses_untyped, Node.form_untyped, Form.isAssertion_untyped]
      split
      · exact congrArg some inner.erased_untyped
      · rfl
  | _ => rfl

end

mutual

theorem Node.Apart.erased : (n : Node) → n.Apart outside → n.erased.Apart outside
  | ⟨id, span, form⟩, h => by
      rw [Node.erased]
      cases hinside : form.insideErased? with
      | none => exact h
      | some inner => exact Form.Apart.insideErased? form h.2.2 inner hinside

theorem Form.Apart.insideErased? (form : Form) (h : form.Apart outside) (inner : Node)
    (hinner : form.insideErased? = some inner) : inner.Apart outside := by
  cases form with
  | asExpr operand _ | satisfiesExpr operand _ | typeAssertion _ operand
  | instantiation operand _ =>
      obtain rfl := Option.some.inj hinner
      exact Node.Apart.erased operand h.1
  | nonNull operand =>
      obtain rfl := Option.some.inj hinner
      exact Node.Apart.erased operand h
  | parenthesized content =>
      rw [Form.insideErased?] at hinner
      split at hinner
      · obtain rfl := Option.some.inj hinner
        exact Node.Apart.erased content h
      · cases hinner
  | _ => cases hinner

end

mutual

@[simp]
theorem Node.firstPrinted_untyped : (n : Node) → n.untyped.firstPrinted = n.firstPrinted.untyped
  | ⟨id, span, form⟩ => by
      have h := form.firstPrinted?_untyped
      rw [Node.untyped, Node.firstPrinted, Node.firstPrinted, h]
      cases form.firstPrinted? <;> rfl

theorem Form.firstPrinted?_untyped (form : Form) :
    form.untyped.firstPrinted? = form.firstPrinted?.map Node.untyped := by
  cases form with
  | binary n _ _ _ _ | conditional n _ _ _ | call n _ _ _ | propertyAccess n _ _ _
  | elementAccess n _ _ | nonNull n | asExpr n _ | satisfiesExpr n _ | typeAssertion _ n
  | instantiation n _ | taggedTemplate n _ _ | postfixUnary _ n =>
      exact congrArg some n.firstPrinted_untyped
  | parenthesized inner =>
      change (if inner.untyped.skipParentheses.form.isAssertion then
          some inner.untyped.firstPrinted else none) = Option.map Node.untyped
        (if inner.skipParentheses.form.isAssertion then some inner.firstPrinted else none)
      rw [Node.skipParentheses_untyped, Node.form_untyped, Form.isAssertion_untyped]
      split
      · exact congrArg some inner.firstPrinted_untyped
      · rfl
  | _ => rfl

end

mutual

@[simp]
theorem Node.skipOuter_untyped : (n : Node) → n.untyped.skipOuter = n.skipOuter.untyped
  | ⟨id, span, form⟩ => by
      have h := form.insideOuter?_untyped
      rw [Node.untyped, Node.skipOuter, Node.skipOuter, h]
      cases form.insideOuter? <;> rfl

theorem Form.insideOuter?_untyped (form : Form) :
    form.untyped.insideOuter? = form.insideOuter?.map Node.untyped := by
  cases form with
  | parenthesized n | nonNull n | asExpr n _ | satisfiesExpr n _ | typeAssertion _ n =>
      exact congrArg some n.skipOuter_untyped
  | _ => rfl

end

namespace Form

variable (form : Form)

@[simp]
theorem isObject_untyped : form.untyped.isObject = form.isObject := by
  cases form <;> rfl

@[simp]
theorem isStatementLike_untyped : form.untyped.isStatementLike = form.isStatementLike := by
  cases form <;> rfl

@[simp]
theorem isBlockStatement_untyped : form.untyped.isBlockStatement = form.isBlockStatement := by
  cases form <;> rfl

@[simp]
theorem isIfStatement_untyped : form.untyped.isIfStatement = form.isIfStatement := by
  cases form <;> rfl

@[simp]
theorem precedence_untyped : form.untyped.precedence = form.precedence := by
  cases form with
  | newExpr callee typeArguments arguments =>
      cases arguments <;> rfl
  | _ => rfl

end Form

namespace Print

variable (form : Form)

@[simp]
theorem isPlainInteger_untyped : isPlainInteger form.untyped = isPlainInteger form := by
  cases form <;> rfl

@[simp]
theorem isImportKeyword_untyped : isImportKeyword form.untyped = isImportKeyword form := by
  cases form <;> rfl

@[simp]
theorem isHole_untyped : isHole form.untyped = isHole form := by
  cases form <;> rfl

@[simp]
theorem isLogical_untyped : isLogical form.untyped = isLogical form := by
  cases form <;> rfl

@[simp]
theorem isObjectPattern_untyped : isObjectPattern form.untyped = isObjectPattern form := by
  cases form <;> rfl

end Print

/-- Lists of mapped nodes are counted, searched and cut as the lists themselves. -/
theorem takeWhile_untyped {p : Node → Bool} (hp : ∀ n, p n.untyped = p n) (ns : List Node) :
    (ns.map Node.untyped).takeWhile p = (ns.takeWhile p).map Node.untyped := by
  rw [List.takeWhile_map]
  exact congrArg (fun q => (ns.takeWhile q).map Node.untyped) (funext hp)

theorem any_untyped {p : Node → Bool} (hp : ∀ n, p n.untyped = p n) (ns : List Node) :
    (ns.map Node.untyped).any p = ns.any p := by
  rw [List.any_map]
  exact congrArg ns.any (funext hp)

namespace Print

variable (n : Node)

@[simp]
theorem isDirective_untyped : isDirective n.untyped = isDirective n := by
  unfold isDirective
  rw [Node.form_untyped]
  cases n.form with
  | exprStmt inner =>
      obtain ⟨_, _, form⟩ := inner
      cases form <;> rfl
  | _ => rfl

@[simp]
theorem isUseStrict_untyped : isUseStrict n.untyped = isUseStrict n := by
  unfold isUseStrict
  rw [Node.form_untyped]
  cases n.form with
  | exprStmt inner =>
      obtain ⟨_, _, form⟩ := inner
      cases form <;> rfl
  | _ => rfl

@[simp]
theorem isSuperCall_untyped : isSuperCall n.untyped = isSuperCall n := by
  unfold isSuperCall
  rw [Node.form_untyped]
  cases n.form with
  | exprStmt inner =>
      obtain ⟨_, _, form⟩ := inner
      cases form with
      | call callee _ _ _ =>
          obtain ⟨_, _, form⟩ := callee
          cases form <;> rfl
      | _ => rfl
  | _ => rfl

@[simp]
theorem isExportStar_untyped : isExportStar n.untyped = isExportStar n := by
  unfold isExportStar
  rw [Node.form_untyped]
  cases n.form with
  | exportStmt _ isTypeOnly clause? specifier? _ =>
      cases isTypeOnly <;> cases clause? <;> cases specifier? <;> rfl
  | _ => rfl

@[simp]
theorem isExportEquals_untyped : isExportEquals n.untyped = isExportEquals n := by
  unfold isExportEquals
  rw [Node.form_untyped]
  cases n.form with
  | exportAssignment isEquals _ => cases isEquals <;> rfl
  | _ => rfl

@[simp]
theorem prologueLength_untyped (ns : List Node) :
    prologueLength (ns.map Node.untyped) = prologueLength ns := by
  rw [prologueLength, takeWhile_untyped isDirective_untyped, List.length_map, prologueLength]

@[simp]
theorem injectionPoint_untyped (isDerived : Bool) (ns : List Node) :
    injectionPoint isDerived (ns.map Node.untyped) = injectionPoint isDerived ns := by
  have hindex : (ns.map Node.untyped).findIdx? isSuperCall = ns.findIdx? isSuperCall := by
    rw [List.findIdx?_map]
    exact congrArg (ns.findIdx? ·) (funext isSuperCall_untyped)
  rw [injectionPoint, hindex, prologueLength_untyped, injectionPoint]

@[simp]
theorem initialized?_untyped :
    initialized? n.untyped = (initialized? n).map fun d => (d.1.untyped, d.2.untyped) := by
  unfold initialized?
  rw [Node.form_untyped]
  cases n.form with
  | variableDeclaration name _ _ initial? => cases initial? <;> rfl
  | _ => rfl

theorem filterMap_initialized?_untyped (ns : List Node) :
    (ns.map Node.untyped).filterMap initialized? =
      (ns.filterMap initialized?).map fun d => (d.1.untyped, d.2.untyped) := by
  rw [List.filterMap_map, List.map_filterMap]
  exact congrArg (ns.filterMap ·) (funext initialized?_untyped)

theorem apart_of_initialized? {n : Node} (hn : n.Apart outside) {d : Node × Node}
    (hd : initialized? n = some d) : d.1.Apart outside ∧ d.2.Apart outside := by
  have hform := hn.form
  unfold initialized? at hd
  split at hd
  · rename_i name isDefinite type initial h
    rw [h] at hform
    obtain rfl := Option.some.inj hd
    exact ⟨hform.1, hform.2.2⟩
  · cases hd

/-- The name that an initial value gets, if it is a function or a class. -/
theorem initialName_untyped (name initial : Node) :
    (match initial.untyped.skipOuter.form with
      | .functionExpr _ _ _ | .arrowFunction _ _ | .classExpr _ => name.untyped.bindingName?
      | _ => none) =
    (match initial.skipOuter.form with
      | .functionExpr _ _ _ | .arrowFunction _ _ | .classExpr _ => name.bindingName?
      | _ => none) := by
  rw [Node.skipOuter_untyped, Node.form_untyped, Node.bindingName?_untyped]
  cases initial.skipOuter.form <;> rfl

@[simp]
theorem namedFunction?_untyped (ns : List Node) :
    namedFunction? (ns.map Node.untyped) = namedFunction? ns := by
  cases ns with
  | nil => rfl
  | cons n ns =>
      cases ns with
      | cons => rfl
      | nil =>
          obtain ⟨_, _, form⟩ := n
          cases form with
          | variableDeclaration name isDefinite type initial? =>
              cases initial? with
              | none => rfl
              | some initial => exact initialName_untyped name initial
          | _ => rfl

end Print

@[simp]
theorem Parameter.isThis_untyped (p : Parameter) : p.untyped.isThis = p.isThis := by
  rw [Parameter.isThis, Parameter.name_untyped, Node.bindingName?_untyped, Parameter.isThis]

namespace ClassLike

variable (c : ClassLike)

/-- The constructor that a member of a class is, if it has a body. -/
theorem constructorMember_untyped (m : Node) :
    (match m.untyped.form with
      | .classMember _ _ (.constructorMember func) =>
          if func.func.body.isSome then some func else none
      | _ => none) =
    Option.map Node.untyped (match m.form with
      | .classMember _ _ (.constructorMember func) =>
          if func.func.body.isSome then some func else none
      | _ => none) := by
  rw [Node.form_untyped]
  cases m.form with
  | classMember _ _ member =>
      cases member with
      | constructorMember func =>
          change (if func.untyped.func.body.isSome then some func.untyped else none) =
            Option.map Node.untyped (if func.func.body.isSome then some func else none)
          rw [Node.func_untyped, FunctionLike.body_untyped, Option.isSome_map]
          split <;> rfl
      | _ => rfl
  | _ => rfl

@[simp]
theorem constructor?_untyped : c.untyped.constructor? = c.constructor?.map Node.untyped := by
  unfold ClassLike.constructor?
  rw [ClassLike.members_untyped, List.findSome?_map, List.map_findSome?]
  exact congrArg (c.members.findSome? ·) (funext constructorMember_untyped)

@[simp]
theorem isDerived_untyped : c.untyped.isDerived = c.isDerived := by
  unfold ClassLike.isDerived
  rw [ClassLike.base_untyped]
  cases c.base with
  | none => rfl
  | some base =>
      obtain ⟨_, _, form⟩ := base
      cases form with
      | heritage _ expression _ =>
          obtain ⟨_, _, form⟩ := expression
          cases form <;> rfl
      | _ => rfl

end ClassLike

/-- An assignment without the types in it. -/
def FieldAssignment.untyped : FieldAssignment → FieldAssignment
  | .parameter name => .parameter name
  | .field key value => .field key.untyped value.untyped

def FieldAssignment.Apart (outside : NodeId → Prop) : FieldAssignment → Prop
  | .parameter _ => True
  | .field key value => key.Apart outside ∧ value.Apart outside

namespace ClassMember

/-- A member without its types. -/
def untyped (m : ClassMember) : ClassMember where
  node := m.node.untyped
  decorators := m.decorators.map Node.untyped
  modifiers := m.modifiers
  form := m.form.untyped

structure Apart (outside : NodeId → Prop) (m : ClassMember) : Prop where
  decorators : ∀ d ∈ m.decorators, d.Apart outside
  form : m.form.Apart outside

theorem ofNode?_untyped (n : Node) : ofNode? n.untyped = (ofNode? n).map untyped := by
  unfold ofNode?
  rw [Node.form_untyped]
  cases n.form with
  | classMember decorators modifiers form =>
      change some _ = some _
      rw [untypedAll_eq_map]
      rfl
  | _ => rfl

theorem filterMap_ofNode?_untyped (ns : List Node) :
    (ns.map Node.untyped).filterMap ofNode? = (ns.filterMap ofNode?).map untyped := by
  rw [List.filterMap_map, List.map_filterMap]
  exact congrArg (ns.filterMap ·) (funext ofNode?_untyped)

theorem apart_of_ofNode? {n : Node} {m : ClassMember} (hn : n.Apart outside)
    (hm : ofNode? n = some m) : m.Apart outside := by
  have hform := hn.form
  unfold ofNode? at hm
  split at hm
  · rename_i decorators modifiers form h
    rw [h] at hform
    obtain rfl := Option.some.inj hm
    exact ⟨apartAll_iff.mp hform.1, hform.2.2⟩
  · cases hm

@[simp]
theorem isPrivateKey_untyped (form : Form) : isPrivateKey form.untyped = isPrivateKey form := by
  cases form <;> rfl

variable (m : ClassMember)

@[simp]
theorem form_untyped : m.untyped.form = m.form.untyped := rfl

@[simp]
theorem isStatic_untyped : m.untyped.isStatic = m.isStatic := rfl

@[simp]
theorem isAccessorField_untyped : m.untyped.isAccessorField = m.isAccessorField := rfl

@[simp]
theorem isErased_untyped : m.untyped.isErased = m.isErased :=
  m.form.isErasedMember_untyped m.modifiers.isWithoutCode

theorem assignedField?_untyped : m.untyped.assignedField? =
    m.assignedField?.map fun field => (field.1.untyped, field.2.map Node.untyped) := by
  have herased := m.isErased_untyped
  obtain ⟨node, decorators, modifiers, form⟩ := m
  cases form with
  | propertyMember key isOptional isDefinite type initial? =>
      unfold assignedField?
      change (if isPrivateKey key.untyped.form || _ || _ then none else
        some (key.untyped, untypedOption initial?)) = _
      rw [Node.form_untyped, isPrivateKey_untyped, herased, untypedOption_eq_map]
      change (if _ then _ else _) = Option.map _ (if _ then none else some (key, initial?))
      split
      · rename_i h
        rw [isAccessorField_untyped] at h
        rw [if_pos h]
        rfl
      · rename_i h
        rw [isAccessorField_untyped] at h
        rw [if_neg h]
        rfl
  | _ => rfl

theorem instanceAssignment?_untyped :
    m.untyped.instanceAssignment? = m.instanceAssignment?.map FieldAssignment.untyped := by
  rw [instanceAssignment?, isStatic_untyped, assignedField?_untyped, instanceAssignment?]
  split
  · rfl
  · rcases m.assignedField? with _ | ⟨key, _ | initial⟩ <;> rfl

theorem staticAssignment?_untyped : m.untyped.staticAssignment? =
    m.staticAssignment?.map fun field => (field.1.untyped, field.2.untyped) := by
  rw [staticAssignment?, isStatic_untyped, assignedField?_untyped, staticAssignment?]
  split
  · rcases m.assignedField? with _ | ⟨key, _ | initial⟩ <;> rfl
  · rfl

variable {m}

theorem Apart.assignedField? (h : m.Apart outside) {key : Node} {initial? : Option Node}
    (hfield : m.assignedField? = some (key, initial?)) :
    key.Apart outside ∧ ∀ n ∈ initial?, n.Apart outside := by
  have hform := h.form
  unfold ClassMember.assignedField? at hfield
  split at hfield
  · rename_i hm
    rw [hm] at hform
    split at hfield
    · cases hfield
    · cases hfield
      exact ⟨hform.1, apartOption_iff.mp hform.2.2⟩
  · cases hfield

theorem Apart.instanceAssignment? (h : m.Apart outside) {a : FieldAssignment}
    (ha : m.instanceAssignment? = some a) : a.Apart outside := by
  unfold ClassMember.instanceAssignment? at ha
  split at ha
  · cases ha
  · obtain ⟨⟨key, initial?⟩, hfield, hinitial⟩ := Option.bind_eq_some_iff.mp ha
    obtain ⟨initial, rfl, rfl⟩ := Option.map_eq_some_iff.mp hinitial
    obtain ⟨hkey, hvalue⟩ := h.assignedField? hfield
    exact ⟨hkey, hvalue initial rfl⟩

theorem Apart.staticAssignment? (h : m.Apart outside) {field : Node × Node}
    (hf : m.staticAssignment? = some field) :
    field.1.Apart outside ∧ field.2.Apart outside := by
  unfold ClassMember.staticAssignment? at hf
  split at hf
  · obtain ⟨⟨key, initial?⟩, hfield, hinitial⟩ := Option.bind_eq_some_iff.mp hf
    obtain ⟨initial, rfl, rfl⟩ := Option.map_eq_some_iff.mp hinitial
    obtain ⟨hkey, hvalue⟩ := h.assignedField? hfield
    exact ⟨hkey, hvalue initial rfl⟩
  · cases hf

end ClassMember

namespace FieldPlan

/-- A plan without the types in it. -/
def untyped (plan : FieldPlan) : FieldPlan :=
  { plan with assignments := plan.assignments.map FieldAssignment.untyped }

@[simp]
theorem keeps_untyped (plan : FieldPlan) (m : ClassMember) (key : Node) :
    plan.untyped.keeps m.untyped key.untyped = plan.keeps m key := by
  rw [keeps, Node.form_untyped, ClassMember.isPrivateKey_untyped]
  rfl

/-- The parameters of a constructor that are properties. -/
theorem properties_untyped (ns : List Node) :
    (((ns.map Node.untyped).filter fun n => n.parameter.modifiers.isParameterProperty).filterMap
        fun n => n.parameter.name.bindingName?) =
      (ns.filter fun n => n.parameter.modifiers.isParameterProperty).filterMap
        fun n => n.parameter.name.bindingName? := by
  rw [List.filter_map, List.filterMap_map]
  have hname : (fun n : Node => n.parameter.name.bindingName?) ∘ Node.untyped =
      fun n : Node => n.parameter.name.bindingName? := by
    funext n
    simp
  have hproperty : (fun n : Node => n.parameter.modifiers.isParameterProperty) ∘ Node.untyped =
      fun n : Node => n.parameter.modifiers.isParameterProperty := by
    funext n
    simp
  rw [hname, hproperty]

theorem fields_untyped (ns : List Node) :
    ((ns.map Node.untyped).filterMap ClassMember.ofNode?).filterMap
        ClassMember.instanceAssignment? =
      ((ns.filterMap ClassMember.ofNode?).filterMap ClassMember.instanceAssignment?).map
        FieldAssignment.untyped := by
  rw [ClassMember.filterMap_ofNode?_untyped, List.filterMap_map, List.map_filterMap]
  exact congrArg (List.filterMap · _) (funext ClassMember.instanceAssignment?_untyped)

theorem ofClass_untyped (usesDefine hoistsStatics : Bool) (c : ClassLike) :
    ofClass usesDefine hoistsStatics c.untyped = (ofClass usesDefine hoistsStatics c).untyped := by
  have hparameters : (c.untyped.constructor?.map fun n => n.func.parameters).getD [] =
      ((c.constructor?.map fun n => n.func.parameters).getD []).map Node.untyped := by
    rw [ClassLike.constructor?_untyped]
    cases c.constructor? with
    | none => rfl
    | some func => simp
  unfold ofClass
  dsimp only
  rw [hparameters, properties_untyped, ClassLike.members_untyped, fields_untyped]
  unfold untyped
  dsimp only
  rw [List.map_append, List.map_map]
  split <;> rfl

theorem apart_ofClass {usesDefine hoistsStatics : Bool} {c : ClassLike} (hc : c.Apart outside) :
    ∀ a ∈ (ofClass usesDefine hoistsStatics c).assignments, a.Apart outside := by
  intro a ha
  rcases List.mem_append.mp ha with ha | ha
  · obtain ⟨i, -, rfl⟩ := List.mem_map.mp ha
    trivial
  · split at ha
    · cases ha
    · obtain ⟨m, hm, ha⟩ := List.mem_filterMap.mp ha
      obtain ⟨n, hn, hm⟩ := List.mem_filterMap.mp hm
      exact (ClassMember.apart_of_ofNode? (hc.members n hn) hm).instanceAssignment? ha

end FieldPlan

end Erasure

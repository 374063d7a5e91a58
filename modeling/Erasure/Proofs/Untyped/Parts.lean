import Erasure.Print.Statement
import Erasure.Proofs.Untyped.Visit

/-!
What is asked about syntax has the same answer without its types, and the parts of syntax without
types are its parts without types.
-/

namespace Erasure

variable {outside : NodeId → Prop}

namespace FunctionLike

variable (f : FunctionLike)

@[simp]
theorem isAsync_untyped : f.untyped.isAsync = f.isAsync := by
  cases f
  rfl

@[simp]
theorem isGenerator_untyped : f.untyped.isGenerator = f.isGenerator := by
  cases f
  rfl

@[simp]
theorem typeParameters_untyped :
    f.untyped.typeParameters = f.typeParameters.map (List.map Node.untyped) := by
  cases f
  exact untypedLists_eq_map _

@[simp]
theorem parameters_untyped : f.untyped.parameters = f.parameters.map Node.untyped := by
  cases f
  exact untypedAll_eq_map _

@[simp]
theorem returnType_untyped : f.untyped.returnType = none := by
  cases f
  rfl

@[simp]
theorem body_untyped : f.untyped.body = f.body.map Node.untyped := by
  cases f
  exact untypedOption_eq_map _

end FunctionLike

namespace Parameter

variable (p : Parameter)

@[simp]
theorem modifiers_untyped : p.untyped.modifiers = p.modifiers := by
  cases p
  rfl

@[simp]
theorem isRest_untyped : p.untyped.isRest = p.isRest := by
  cases p
  rfl

@[simp]
theorem name_untyped : p.untyped.name = p.name.untyped := by
  cases p
  rfl

@[simp]
theorem initializer_untyped : p.untyped.initializer = p.initializer.map Node.untyped := by
  cases p
  exact untypedOption_eq_map _

end Parameter

namespace ClassLike

variable (c : ClassLike)

@[simp]
theorem decorators_untyped : c.untyped.decorators = c.decorators.map Node.untyped := by
  cases c
  exact untypedAll_eq_map _

@[simp]
theorem modifiers_untyped : c.untyped.modifiers = c.modifiers := by
  cases c
  rfl

@[simp]
theorem name_untyped : c.untyped.name = c.name := by
  cases c
  rfl

@[simp]
theorem typeParameters_untyped :
    c.untyped.typeParameters = c.typeParameters.map (List.map Node.untyped) := by
  cases c
  exact untypedLists_eq_map _

@[simp]
theorem base_untyped : c.untyped.base = c.base.map Node.untyped := by
  cases c
  exact untypedOption_eq_map _

@[simp]
theorem interfaces_untyped : c.untyped.interfaces = [] := by
  cases c
  rfl

@[simp]
theorem members_untyped : c.untyped.members = c.members.map Node.untyped := by
  cases c
  exact untypedAll_eq_map _

end ClassLike

@[simp]
theorem Form.isBlock_untyped (form : Form) : form.untyped.isBlock = form.isBlock := by
  cases form <;> rfl

namespace Node

variable (n : Node)

@[simp]
theorem func_untyped : n.untyped.func = n.func.untyped := by
  unfold Node.func
  rw [Node.form_untyped]
  cases n.form <;> rfl

@[simp]
theorem classLike_untyped : n.untyped.classLike = n.classLike.untyped := by
  unfold Node.classLike
  rw [Node.form_untyped]
  cases n.form <;> rfl

@[simp]
theorem parameter_untyped : n.untyped.parameter = n.parameter.untyped := by
  unfold Node.parameter
  rw [Node.form_untyped]
  cases n.form <;> rfl

@[simp]
theorem statements_untyped : n.untyped.statements = n.statements.map Node.untyped := by
  unfold Node.statements
  rw [Node.form_untyped]
  cases n.form with
  | block statements _ _ | moduleBlock statements => exact untypedAll_eq_map statements
  | _ => rfl

@[simp]
theorem bindingName?_untyped : n.untyped.bindingName? = n.bindingName? := by
  unfold Node.bindingName?
  rw [Node.form_untyped, Node.id_untyped, Node.span_untyped]
  cases n.form <;> rfl

@[simp]
theorem identifier?_untyped : n.untyped.identifier? = n.identifier? := by
  unfold Node.identifier?
  rw [Node.form_untyped]
  cases n.form <;> rfl

end Node

namespace Node.Apart

variable {n : Node}

theorem id (h : n.Apart outside) : outside n.id := (Node.apart_iff.mp h).1

theorem name (h : n.Apart outside) : ∀ i ∈ n.form.nameIds, outside i := (Node.apart_iff.mp h).2.1

theorem form (h : n.Apart outside) : n.form.Apart outside := (Node.apart_iff.mp h).2.2

theorem func (h : n.Apart outside) : n.func.Apart outside := by
  have hform := h.form
  unfold Node.func Form.function?
  split
  · rename_i hn
    rw [hn] at hform
    exact hform
  · exact ⟨trivial, trivial, by simp [ForeignTypes], trivial⟩

theorem classLike (h : n.Apart outside) : n.classLike.Apart outside := by
  have hform := h.form
  unfold Node.classLike
  split
  · rename_i hn
    rw [hn] at hform
    exact hform
  · exact ⟨trivial, trivial, trivial, by simp [ForeignClauses], trivial⟩

theorem className (h : n.Apart outside) : ∀ i ∈ n.classLike.name, outside i.id := by
  have hname := h.name
  unfold Node.classLike
  split
  · rename_i hn
    rw [hn] at hname
    exact fun i hi => hname i.id (List.mem_map.mpr ⟨i, Option.mem_toList.mpr hi, rfl⟩)
  · simp

theorem parameter (h : n.Apart outside) : n.parameter.Apart outside := by
  have hform := h.form
  unfold Node.parameter
  split
  · rename_i hn
    rw [hn] at hform
    exact hform
  · exact ⟨trivial, h, by simp [ForeignTypes], trivial⟩

end Node.Apart

namespace FunctionLike.Apart

variable {f : FunctionLike}

theorem typeParameters (h : f.Apart outside) :
    ∀ n ∈ f.typeParameters.getD [], n.Apart outside := by
  cases f
  exact apartLists_iff.mp h.1

theorem parameters (h : f.Apart outside) : ∀ n ∈ f.parameters, n.Apart outside := by
  cases f
  exact apartAll_iff.mp h.2.1

theorem returnType (h : f.Apart outside) : ∀ t ∈ f.returnType, t.ForeignType outside := by
  cases f
  exact fun t ht => h.2.2.1 t (Option.mem_toList.mpr ht)

theorem body (h : f.Apart outside) : ∀ n ∈ f.body, n.Apart outside := by
  cases f
  exact apartOption_iff.mp h.2.2.2

end FunctionLike.Apart

namespace Parameter.Apart

variable {p : Parameter}

theorem name (h : p.Apart outside) : p.name.Apart outside := by
  cases p
  exact h.2.1

theorem type (h : p.Apart outside) : ∀ t ∈ p.type, t.ForeignType outside := by
  cases p
  exact fun t ht => h.2.2.1 t (Option.mem_toList.mpr ht)

theorem initializer (h : p.Apart outside) : ∀ n ∈ p.initializer, n.Apart outside := by
  cases p
  exact apartOption_iff.mp h.2.2.2

end Parameter.Apart

namespace ClassLike.Apart

variable {c : ClassLike}

theorem decorators (h : c.Apart outside) : ∀ n ∈ c.decorators, n.Apart outside := by
  cases c
  exact apartAll_iff.mp h.1

theorem typeParameters (h : c.Apart outside) :
    ∀ n ∈ c.typeParameters.getD [], n.Apart outside := by
  cases c
  exact apartLists_iff.mp h.2.1

theorem base (h : c.Apart outside) : ∀ n ∈ c.base, n.Apart outside := by
  cases c
  exact apartOption_iff.mp h.2.2.1

theorem interfaces (h : c.Apart outside) : ∀ t ∈ c.interfaces, t.Foreign outside := by
  cases c
  exact h.2.2.2.1

theorem members (h : c.Apart outside) : ∀ n ∈ c.members, n.Apart outside := by
  cases c
  exact apartAll_iff.mp h.2.2.2.2

end ClassLike.Apart

theorem Node.Apart.statements {n : Node} (h : n.Apart outside) :
    ∀ c ∈ n.statements, c.Apart outside := by
  have hform := h.form
  unfold Node.statements
  cases hn : n.form with
  | block statements _ _ | moduleBlock statements =>
      rw [hn] at hform
      exact apartAll_iff.mp hform
  | _ => simp

mutual

@[simp]
theorem Node.bindingIdentifiers_untyped :
    (n : Node) → n.untyped.bindingIdentifiers = n.bindingIdentifiers
  | ⟨id, span, form⟩ => form.bindingIdentifiersAt_untyped id span

theorem Form.bindingIdentifiersAt_untyped (form : Form) (id : NodeId) (span : Span) :
    form.untyped.bindingIdentifiersAt id span = form.bindingIdentifiersAt id span := by
  cases form with
  | objectPattern elements => exact bindingIdentifiersOf_untypedAll elements
  | arrayPattern elements _ => exact bindingIdentifiersOfHoles_untypedHoles elements
  | bindingElement _ _ name _ => exact name.bindingIdentifiers_untyped
  | _ => rfl

theorem bindingIdentifiersOf_untypedAll :
    (ns : List Node) → bindingIdentifiersOf (untypedAll ns) = bindingIdentifiersOf ns
  | [] => rfl
  | n :: ns => by
      rw [untypedAll, bindingIdentifiersOf, bindingIdentifiersOf, n.bindingIdentifiers_untyped,
        bindingIdentifiersOf_untypedAll ns]

theorem bindingIdentifiersOfHoles_untypedHoles : (ns : List (Option Node)) →
    bindingIdentifiersOfHoles (untypedHoles ns) = bindingIdentifiersOfHoles ns
  | [] => rfl
  | n? :: ns => by
      rw [untypedHoles, bindingIdentifiersOfHoles, bindingIdentifiersOfHoles,
        bindingIdentifiersOfHole_untypedOption n?, bindingIdentifiersOfHoles_untypedHoles ns]

theorem bindingIdentifiersOfHole_untypedOption : (n? : Option Node) →
    bindingIdentifiersOfHole (untypedOption n?) = bindingIdentifiersOfHole n?
  | none => rfl
  | some n => n.bindingIdentifiers_untyped

end

mutual

theorem Node.Apart.bindingIdentifiers :
    (n : Node) → n.Apart outside → ∀ i ∈ n.bindingIdentifiers, outside i.id
  | ⟨id, span, form⟩, h => Form.Apart.bindingIdentifiersAt form id span h.1 h.2.2

theorem Form.Apart.bindingIdentifiersAt (form : Form) (id : NodeId) (span : Span) (hid : outside id)
    (h : form.Apart outside) : ∀ i ∈ form.bindingIdentifiersAt id span, outside i.id := by
  cases form with
  | bindingIdentifier text => exact fun i hi => by rw [List.mem_singleton.mp hi]; exact hid
  | objectPattern elements => exact ApartAll.bindingIdentifiersOf elements h
  | arrayPattern elements _ => exact ApartHoles.bindingIdentifiersOfHoles elements h
  | bindingElement _ _ name _ => exact Node.Apart.bindingIdentifiers name h.2.1
  | _ => exact fun i hi => by cases hi

theorem ApartAll.bindingIdentifiersOf :
    (ns : List Node) → ApartAll outside ns → ∀ i ∈ bindingIdentifiersOf ns, outside i.id
  | [], _ => fun i hi => by cases hi
  | n :: ns, h => fun i hi => by
      rcases List.mem_append.mp hi with hi | hi
      · exact Node.Apart.bindingIdentifiers n h.1 i hi
      · exact ApartAll.bindingIdentifiersOf ns h.2 i hi

theorem ApartHoles.bindingIdentifiersOfHoles : (ns : List (Option Node)) → ApartHoles outside ns →
    ∀ i ∈ bindingIdentifiersOfHoles ns, outside i.id
  | [], _ => fun i hi => by cases hi
  | n? :: ns, h => fun i hi => by
      rcases List.mem_append.mp hi with hi | hi
      · exact ApartOption.bindingIdentifiersOfHole n? h.1 i hi
      · exact ApartHoles.bindingIdentifiersOfHoles ns h.2 i hi

theorem ApartOption.bindingIdentifiersOfHole : (n? : Option Node) → ApartOption outside n? →
    ∀ i ∈ bindingIdentifiersOfHole n?, outside i.id
  | none, _ => fun i hi => by cases hi
  | some n, h => Node.Apart.bindingIdentifiers n h

end

@[simp]
theorem Node.staticKey?_untyped (n : Node) : n.untyped.staticKey? = n.staticKey? := by
  unfold Node.staticKey?
  rw [Node.form_untyped]
  cases n.form with
  | computedKey expression =>
      obtain ⟨_, _, form⟩ := expression
      cases form <;> rfl
  | _ => rfl

theorem Form.modifiers?_untyped (form : Form) : form.untyped.modifiers? = form.modifiers? := by
  cases form with
  | classStmt cls =>
      obtain ⟨_, _, form⟩ := cls
      cases form with
      | classLike c => exact congrArg some c.modifiers_untyped
      | _ => rfl
  | moduleStmt declaration =>
      obtain ⟨_, _, form⟩ := declaration
      cases form <;> rfl
  | _ => rfl

@[simp]
theorem Form.isModuleIndicator_untyped (form : Form) :
    form.untyped.isModuleIndicator = form.isModuleIndicator := by
  have hmodifiers := form.modifiers?_untyped
  cases form <;> first | rfl | exact congrArg (Option.any Modifiers.isExport) hmodifiers

@[simp]
theorem Form.isTypeOnlyStatement_untyped (form : Form) :
    form.untyped.isTypeOnlyStatement = form.isTypeOnlyStatement := by
  have hmodifiers := form.modifiers?_untyped
  cases form <;> first | rfl | exact congrArg (Option.any Modifiers.isAmbient) hmodifiers

mutual

@[simp]
theorem Node.isInstantiated_untyped (preserve : Bool) :
    (n : Node) → n.untyped.isInstantiated preserve = n.isInstantiated preserve
  | ⟨_, _, form⟩ => form.isInstantiated_untyped preserve

theorem Form.isInstantiated_untyped (preserve : Bool) (form : Form) :
    form.untyped.isInstantiated preserve = form.isInstantiated preserve := by
  have htypeOnly := form.isTypeOnlyStatement_untyped
  cases form with
  | moduleDeclaration modifiers _ body _ =>
      exact congrArg (!modifiers.isAmbient && ·) (anyInstantiatedIn_untyped preserve body)
  | moduleBlock statements => exact anyInstantiated_untyped preserve statements
  | moduleStmt declaration => exact declaration.isInstantiated_untyped preserve
  | _ => first | rfl | exact congrArg Bool.not htypeOnly

theorem anyInstantiated_untyped (preserve : Bool) :
    (ns : List Node) → anyInstantiated preserve (untypedAll ns) = anyInstantiated preserve ns
  | [] => rfl
  | n :: ns => by
      rw [untypedAll, anyInstantiated, anyInstantiated, n.isInstantiated_untyped preserve,
        anyInstantiated_untyped preserve ns]

theorem anyInstantiatedIn_untyped (preserve : Bool) : (n? : Option Node) →
    anyInstantiatedIn preserve (untypedOption n?) = anyInstantiatedIn preserve n?
  | none => rfl
  | some n => n.isInstantiated_untyped preserve

end

end Erasure

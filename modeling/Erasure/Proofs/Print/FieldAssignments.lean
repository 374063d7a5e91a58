import Erasure.Compile
import Erasure.Proofs.Print.EnumConstant
import Erasure.Proofs.Scope.Bindings
import Mathlib.Data.List.Forall2
import Mathlib.Data.List.TakeWhile

/-!
The assignments that initialize the fields of an object in its constructor: which they are, where
they stand among the statements, and what the names in them stand for there.
-/

namespace Erasure

namespace ClassMember
variable {m : ClassMember} {key value : Node} {initial? : Option Node}

/-- A field that can be written as an assignment: its name is not private, it is no accessor, and
it is not declared only. -/
structure IsField (m : ClassMember) (key : Node) (initial? : Option Node) : Prop where
  form : ∃ isOptional isDefinite type?,
    m.form = .propertyMember key isOptional isDefinite type? initial?
  isPublic : isPrivateKey key.form = false
  isPlain : m.isAccessorField = false
  isKept : m.isErased = false

theorem assignedField?_eq_some_iff :
    m.assignedField? = some (key, initial?) ↔ m.IsField key initial? := by
  constructor
  · intro h
    unfold assignedField? at h
    split at h
    · rename_i k o d t i hform
      split at h
      · cases h
      · rename_i hplain
        cases h
        simp only [Bool.or_eq_true, not_or, Bool.not_eq_true] at hplain
        exact ⟨⟨o, d, t, hform⟩, hplain.1.1, hplain.1.2, hplain.2⟩
    · cases h
  · rintro ⟨⟨o, d, t, hform⟩, hpublic, hplain, hkept⟩
    simp [assignedField?, hform, hpublic, hplain, hkept]

theorem staticAssignment?_eq_some_iff :
    m.staticAssignment? = some (key, value) ↔ m.isStatic = true ∧ m.IsField key (some value) := by
  unfold staticAssignment?
  simp only [← assignedField?_eq_some_iff]
  cases m.isStatic with
  | false => simp
  | true =>
      cases m.assignedField? with
      | none => simp
      | some field => obtain ⟨k, _ | v⟩ := field <;> simp

theorem instanceAssignment?_eq_some_iff {a : FieldAssignment} :
    m.instanceAssignment? = some a ↔
      ∃ key value, a = .field key value ∧ m.isStatic = false ∧ m.IsField key (some value) := by
  unfold instanceAssignment?
  simp only [← assignedField?_eq_some_iff]
  cases m.isStatic with
  | true => simp
  | false =>
      cases m.assignedField? with
      | none => simp
      | some field => obtain ⟨k, _ | v⟩ := field <;> simp [eq_comm]

end ClassMember

namespace FieldPlan
variable {plan : FieldPlan} {m : ClassMember} {key : Node} {initial? : Option Node}

/-- A field that could become an assignment stays in the class if fields are defined, and if it is
static and has no variable of the class to be assigned to. -/
theorem keeps_of_isField (h : m.IsField key initial?) :
    plan.keeps m key = (plan.usesDefine || m.isStatic && !plan.hoistsStatics) := by
  unfold keeps
  rw [h.isPublic, h.isPlain, Bool.or_false, Bool.or_false]

end FieldPlan

namespace Print
variable {print : Slot → Node → Print Bool} {c : ClassLike} {plan : FieldPlan} {m : ClassMember}
  {key : Node} {initial? : Option Node}

theorem classMember_of_isField (h : m.IsField key initial?) :
    classMember print c plan m = fieldMember print plan m key initial? := by
  obtain ⟨o, d, t, hform⟩ := h.form
  unfold classMember
  rw [h.isKept, hform]
  rfl

/-- A field that moves leaves nothing in the class. -/
theorem classMember_of_moved (h : m.IsField key initial?) (hkeeps : plan.keeps m key = false) :
    classMember print c plan m = pure () := by
  rw [classMember_of_isField h, fieldMember, hkeeps]
  rfl

end Print

namespace ClassMember

/-- A field of instances with an initializer, whose name is not private and which is neither an
accessor nor declared only. -/
def isInitializedField (m : ClassMember) : Bool :=
  match m.form with
  | .propertyMember key _ _ _ (some _) =>
      !m.isStatic && !isPrivateKey key.form && !m.isAccessorField && !m.modifiers.isWithoutCode
  | _ => false

/-- An assignment that initializes a field as its declaration does. -/
def IsInitializedBy (m : ClassMember) (a : FieldAssignment) : Prop :=
  ∃ key isOptional isDefinite type? value,
    m.form = .propertyMember key isOptional isDefinite type? (some value) ∧ a = .field key value

variable {m : ClassMember}

theorem isInitializedField_iff :
    m.isInitializedField = true ↔
      m.isStatic = false ∧ ∃ key value, m.IsField key (some value) := by
  unfold isInitializedField
  constructor
  · intro h
    split at h
    · rename_i key o d t value hform
      simp only [Bool.and_eq_true, Bool.not_eq_true'] at h
      obtain ⟨⟨⟨hstatic, hpublic⟩, hplain⟩, hkept⟩ := h
      have herased : m.isErased = false := by
        rw [isErased, hform]
        exact hkept
      exact ⟨hstatic, key, value, ⟨o, d, t, hform⟩, hpublic, hplain, herased⟩
    · cases h
  · rintro ⟨hstatic, key, value, ⟨o, d, t, hform⟩, hpublic, hplain, hkept⟩
    have hcode : m.modifiers.isWithoutCode = false := by
      rw [isErased, hform] at hkept
      exact hkept
    simp [hform, hstatic, hpublic, hplain, hcode]

theorem isInitializedField_eq_isSome : m.isInitializedField = m.instanceAssignment?.isSome := by
  rw [Bool.eq_iff_iff, isInitializedField_iff, Option.isSome_iff_exists]
  simp only [instanceAssignment?_eq_some_iff]
  constructor
  · rintro ⟨hstatic, key, value, hfield⟩
    exact ⟨_, key, value, rfl, hstatic, hfield⟩
  · rintro ⟨a, key, value, -, hstatic, hfield⟩
    exact ⟨hstatic, key, value, hfield⟩

theorem isInitializedBy_of_instanceAssignment? {a : FieldAssignment}
    (h : m.instanceAssignment? = some a) : m.IsInitializedBy a := by
  obtain ⟨key, value, rfl, -, hfield⟩ := instanceAssignment?_eq_some_iff.mp h
  obtain ⟨o, d, t, hform⟩ := hfield.form
  exact ⟨key, o, d, t, value, hform, rfl⟩

end ClassMember

namespace ClassLike

/-- The names of the parameters of the constructor that are properties. -/
def parameterProperties (c : ClassLike) : List Identifier :=
  (((c.constructor?.map fun n => n.func.parameters).getD []).filter fun n =>
    n.parameter.modifiers.isParameterProperty).filterMap fun n => n.parameter.name.bindingName?

def initializedFields (c : ClassLike) : List ClassMember :=
  (c.members.filterMap ClassMember.ofNode?).filter ClassMember.isInitializedField

end ClassLike

/-- There is one assignment for each parameter that is a property, and then one for each field, in
the order of their declarations. -/
theorem FieldPlan.assignments_ofClass (hoistsStatics : Bool) (c : ClassLike) :
    ∃ fields, (ofClass false hoistsStatics c).assignments =
        c.parameterProperties.map .parameter ++ fields ∧
      List.Forall₂ ClassMember.IsInitializedBy c.initializedFields fields := by
  refine ⟨_, rfl, ?_⟩
  unfold ClassLike.initializedFields
  induction c.members.filterMap ClassMember.ofNode? with
  | nil => exact .nil
  | cons m ms ih =>
      rw [List.filter_cons, List.filterMap_cons, ClassMember.isInitializedField_eq_isSome]
      cases hassigned : m.instanceAssignment? with
      | none => exact ih
      | some a => exact .cons (ClassMember.isInitializedBy_of_instanceAssignment? hassigned) ih

/-- A field that is assigned leaves nothing in the class. -/
theorem Print.classMember_of_initializedField (print : Slot → Node → Print Bool) {c : ClassLike}
    {plan : FieldPlan} (hdefine : plan.usesDefine = false) {m : ClassMember}
    (hm : m.isInitializedField = true) : classMember print c plan m = pure () := by
  obtain ⟨hstatic, key, value, hfield⟩ := ClassMember.isInitializedField_iff.mp hm
  refine classMember_of_moved hfield ?_
  rw [FieldPlan.keeps_of_isField hfield, hdefine, hstatic]
  rfl

/-- A node that calls the constructor of the base class when it is evaluated. -/
def Node.CallsSuper (n : Node) : Prop := ∃ fuel, n.callsSuperWithin fuel = true

theorem Node.visited_exprStmt {n inner : Node} (hform : n.form = .exprStmt inner)
    (hinner : inner.form.isInner = false) : n.visited = [inner] := by
  rw [Node.visited, hform]
  change (if inner.form.isInner then _ else [inner]) ++ [] = [inner]
  rw [if_neg (by rw [hinner]; exact Bool.false_ne_true), List.append_nil]

namespace Print

theorem callsSuper_of_isSuperCall {n : Node} (h : isSuperCall n = true) : n.CallsSuper := by
  unfold isSuperCall at h
  split at h
  · rename_i inner hform
    split at h
    · rename_i callee types arguments optional hcall
      split at h
      · rename_i hsuper
        refine ⟨2, ?_⟩
        have hinner : inner.callsSuperWithin 1 = true := by
          rw [Node.callsSuperWithin, hcall]
          simp [hsuper]
        rw [Node.callsSuperWithin, hform, Node.visited_exprStmt hform (by rw [hcall]; rfl)]
        simpa using hinner
      · cases h
    · cases h
  · cases h

theorem not_callsSuper_of_isDirective {n : Node} (h : isDirective n = true) : ¬ n.CallsSuper := by
  rintro ⟨fuel, hcalls⟩
  unfold isDirective at h
  split at h
  · rename_i inner hform
    split at h
    · rename_i raw value hstring
      cases fuel with
      | zero => cases hcalls
      | succ fuel =>
          have hinner : inner.visited = [] := by
            rw [Node.visited, hstring]
            rfl
          rw [Node.callsSuperWithin, hform,
            Node.visited_exprStmt hform (by rw [hstring]; rfl)] at hcalls
          cases fuel <;> simp [Node.callsSuperWithin, hstring, hinner] at hcalls
    · cases h
  · cases h

/-- Without a base class the assignments stand behind the strings at the start. -/
theorem take_injectionPoint_of_base (statements : List Node) :
    statements.take (injectionPoint false statements) = statements.takeWhile isDirective := by
  have hpoint : injectionPoint false statements = (statements.takeWhile isDirective).length := by
    unfold injectionPoint
    cases statements.findIdx? isSuperCall <;> rfl
  rw [hpoint]
  exact (List.prefix_iff_eq_take.mp (List.takeWhile_prefix _)).symm

/-- In a derived class they stand behind the first statement that calls the constructor of the base
class exactly if that statement is such a call. -/
theorem take_injectionPoint_of_derived {statements before after : List Node} {first : Node}
    (hstatements : statements = before ++ first :: after)
    (hbefore : ∀ n ∈ before, ¬ n.CallsSuper) (hfirst : first.CallsSuper) :
    statements.take (injectionPoint true statements) = before ++ [first] ↔
      isSuperCall first = true := by
  subst hstatements
  have hsplit : (before ++ first :: after).take (before.length + 1) = before ++ [first] := by
    rw [List.take_append, List.take_of_length_le (Nat.le_succ _)]
    simp
  constructor
  · intro htake
    unfold injectionPoint at htake
    cases hindex : (before ++ first :: after).findIdx? isSuperCall with
    | none =>
        -- Then `first` would be one of the strings at the start.
        have hmem : first ∈ (before ++ first :: after).takeWhile isDirective := by
          rw [List.prefix_iff_eq_take.mp (List.takeWhile_prefix _)]
          rw [hindex] at htake
          exact htake ▸ List.mem_append_right _ (List.mem_singleton.mpr rfl)
        exact absurd hfirst (not_callsSuper_of_isDirective (List.mem_takeWhile_imp hmem))
    | some j =>
        obtain ⟨hlt, hcall, -⟩ := List.findIdx?_eq_some_iff_getElem.mp hindex
        rw [hindex] at htake
        have hlength := congrArg List.length htake
        obtain rfl : j = before.length := by
          simp only [Option.filter, if_true, List.length_take, List.length_append,
            List.length_cons, List.length_nil] at hlength hlt
          omega
        simpa using hcall
  · intro hcall
    have hindex : (before ++ first :: after).findIdx? isSuperCall = some before.length := by
      refine List.findIdx?_eq_some_iff_getElem.mpr ⟨by simp, by simpa using hcall, fun j hj => ?_⟩
      rw [List.getElem_append_left hj]
      exact fun hsuper => hbefore _ (List.getElem_mem hj) (callsSuper_of_isSuperCall hsuper)
    rw [← hsplit, injectionPoint, hindex]
    rfl

variable (print : Slot → Node → Print Bool)

/-- A class without constructor gets one, and all other members stand in their order. -/
theorem classMembers_of_assignments {c : ClassLike} {hoistsStatics : Bool}
    (hassigned : (FieldPlan.ofClass false hoistsStatics c).assignments ≠ []) :
    let plan := FieldPlan.ofClass false hoistsStatics c
    classMembers print c plan = (do
      if c.constructor?.isNone then addedConstructor print c plan
      (c.members.filterMap ClassMember.ofNode?).forM fun m => do
        if ← commented m.node.span (classMember print c plan m) then line) := by
  have hempty : (FieldPlan.ofClass false hoistsStatics c).assignments.isEmpty = false := by
    simpa using hassigned
  dsimp only
  unfold classMembers
  rw [hempty, Bool.not_false, Bool.and_true]
  rfl

/-- The constructor of a class with the assignments among its statements, all in its scope. -/
theorem classMember_constructor {c : ClassLike} {plan : FieldPlan} {func body : Node}
    {statements : List Node} {isMultiLine isSingleLine : Bool} (hassigned : plan.assignments ≠ [])
    (hbody : func.func.body = some body)
    (hform : body.form = .block statements isMultiLine isSingleLine) {m : ClassMember}
    (hm : m.form = .constructorMember func) :
    let point := injectionPoint c.isDerived statements
    classMember print c plan m = (do
      memberHead print m
      write "constructor"
      inScopeOf func.id do
        parameters print func.func.parameters
        space
        withTarget .nested <| braced body.span do
          statementList print (statements.take point)
          plan.assignments.forM fun a => do
            fieldAssignment print a
            line
          statementList print (statements.drop point)) := by
  have hempty : plan.assignments.isEmpty = false := by simpa using hassigned
  have hkept : m.isErased = false := by
    rw [ClassMember.isErased, hm, Form.isErasedMember, hbody]
    rfl
  simp only [classMember, hkept, hm, constructorMember, hbody, signatureAndBody, functionBody,
    hform, hempty, Bool.false_and, Bool.false_eq_true, if_false]

end Print

/-- The fields of a class whose fields become assignments. Every parameter that is a property and
every initialized field is assigned once, in the order of their declarations, and nowhere else. A
class without constructor gets one. In the constructor that a class has, the assignments stand
behind the strings at the start, or in a derived class behind the first statement that calls the
constructor of the base class exactly if that statement is nothing but this call. A name in them
stands for what it stands for in the class exactly if the constructor declares no other value with
that name. -/
theorem fields_initialized_in_constructor (print : Slot → Node → Print Bool) {c : ClassLike}
    {hoistsStatics : Bool}
    (hassigned : (FieldPlan.ofClass false hoistsStatics c).assignments ≠ []) :
    let plan := FieldPlan.ofClass false hoistsStatics c
    (∃ fields, plan.assignments = c.parameterProperties.map .parameter ++ fields ∧
        List.Forall₂ ClassMember.IsInitializedBy c.initializedFields fields) ∧
      (∀ m ∈ c.initializedFields, Print.classMember print c plan m = pure ()) ∧
      Print.classMembers print c plan = (do
        if c.constructor?.isNone then Print.addedConstructor print c plan
        (c.members.filterMap ClassMember.ofNode?).forM fun m => do
          if ← Print.commented m.node.span (Print.classMember print c plan m) then Print.line) ∧
      ∀ (func body : Node) (statements : List Node) (isMultiLine isSingleLine : Bool),
        c.constructor? = some func → func.func.body = some body →
        body.form = .block statements isMultiLine isSingleLine →
        let point := Print.injectionPoint c.isDerived statements
        (∀ m : ClassMember, m.form = .constructorMember func →
          Print.classMember print c plan m = (do
            Print.memberHead print m
            Print.write "constructor"
            Print.inScopeOf func.id do
              Print.parameters print func.func.parameters
              Print.space
              Print.withTarget .nested <| Print.braced body.span do
                Print.statementList print (statements.take point)
                plan.assignments.forM fun a => do
                  Print.fieldAssignment print a
                  Print.line
                Print.statementList print (statements.drop point))) ∧
        (c.isDerived = false → statements.take point = statements.takeWhile Print.isDirective) ∧
        (c.isDerived = true → ∀ before first after, statements = before ++ first :: after →
          (∀ n ∈ before, ¬ n.CallsSuper) → first.CallsSuper →
          (statements.take point = before ++ [first] ↔ Print.isSuperCall first = true)) ∧
        ∀ (b : Bindings) (inner outer : ScopeId), b.scopeOf? func.id = some inner →
          (b.scope inner).parent? = some outer → outer < inner → ∀ name,
          (b.resolve? inner name SymbolFlags.value = b.resolve? outer name SymbolFlags.value ↔
            ∀ id ∈ b.resolveIn? name SymbolFlags.value inner,
              b.resolve? outer name SymbolFlags.value = some id) := by
  refine ⟨FieldPlan.assignments_ofClass hoistsStatics c, fun m hm => ?_, ?_, ?_⟩
  · exact Print.classMember_of_initializedField print rfl (List.mem_filter.mp hm).2
  · exact Print.classMembers_of_assignments print hassigned
  intro func body statements isMultiLine isSingleLine hfunc hbody hform
  refine ⟨fun m hm => ?_, fun hbase => ?_,
    fun hderived before first after hstatements hbefore hfirst => ?_,
    fun b inner outer _ hparent hlt name => ?_⟩
  · exact Print.classMember_constructor print hassigned hbody hform hm
  · rw [hbase]
    exact Print.take_injectionPoint_of_base statements
  · rw [hderived]
    exact Print.take_injectionPoint_of_derived hstatements hbefore hfirst
  · rw [Bindings.resolve?_eq_iff_of_scopeChain (Bindings.scopeChain_of_parent hparent hlt)]
    simp

/-- The call of the constructor of a base class. -/
def superCall : Node :=
  .ofForm (.exprStmt (.ofForm (.call (.ofForm .superExpr) none [] false)))

/-- The constructor that only calls that of the base class. -/
def derivedConstructor : Node :=
  .ofForm (.functionLike
    { isAsync := false, isGenerator := false, typeParameters := none, parameters := []
      returnType := none, body := some (.ofForm (.block [superCall] false true)) })

/-- The class `class extends A \x7b x = 1; constructor() \x7b super(); \x7d \x7d`. -/
def derivedClass : ClassLike where
  decorators := []
  modifiers := {}
  name := none
  typeParameters := none
  base := some (.ofForm (.heritage false (.ofForm (.identifier "A")) none))
  interfaces := []
  members := [
    .ofForm (.classMember [] {} (.propertyMember (.ofForm (.identifierKey "x")) false false none
      (some (.ofForm (.numericLiteral "1"))))),
    .ofForm (.classMember [] {} (.constructorMember derivedConstructor))]

theorem derivedClass_initialized :
    (∃ fields, (FieldPlan.ofClass false false derivedClass).assignments = fields ∧
      List.Forall₂ ClassMember.IsInitializedBy derivedClass.initializedFields fields) ∧
      derivedClass.initializedFields.length = 1 ∧
      [superCall].take (Print.injectionPoint true [superCall]) = [] ++ [superCall] := by
  have hassigned : (FieldPlan.ofClass false false derivedClass).assignments ≠ [] :=
    List.cons_ne_nil _ _
  obtain ⟨hfields, -, -, hconstructor⟩ :=
    fields_initialized_in_constructor (Print.nodeWithin 0) hassigned
  have hplaced := (hconstructor derivedConstructor _ [superCall] false true rfl rfl rfl).2.2.1 rfl
    [] superCall [] rfl (fun _ h => nomatch h) ⟨2, rfl⟩
  exact ⟨hfields, rfl, hplaced.mpr rfl⟩

/-- The options under which fields become assignments. -/
def assigningOptions : Options := { useDefineForClassFields? := some false }

/-- A derived class that calls the constructor of its base class inside of an expression. -/
def enclosedCall : String :=
  "class B extends Set \x7b x = 1; constructor() \x7b !super() \x7d \x7d"

/-- The field is set before there is an object. -/
theorem fields_initialized_wrongly :
    (compileWith assigningOptions "input.ts" enclosedCall).diagnostics = [] ∧
      (compileWith assigningOptions "input.ts" enclosedCall).output? =
        some ("class B extends Set \x7b\n    constructor() \x7b\n        this.x = 1;\n" ++
          "        !super();\n    \x7d\n\x7d\n") := by
  decide +kernel

end Erasure

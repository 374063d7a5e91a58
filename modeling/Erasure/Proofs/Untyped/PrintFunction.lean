import Erasure.Proofs.Untyped.PrintOperand

/-!
Patterns, functions, classes and expressions as a whole are printed alike with and without the types
in them, given that the nodes below them are.
-/

namespace Erasure.Print

variable {M : Matching} {outside : NodeId → Prop}

namespace Alike

section
variable {print print' : Slot → Node → Print Bool}
variable (hprint : NodesAlike M outside print print')
include hprint

theorem binding {n : Node} (hn : n.Apart outside) :
    Alike M outside (Print.binding print n) (Print.binding print' n.untyped) :=
  .discard (hprint _ n hn)

theorem bindingElement (container? : Option String) {n : Node} (hn : n.Apart outside) :
    Alike M outside (Print.bindingElement print container? n)
      (Print.bindingElement print' container? n.untyped) := by
  have hform := hn.form
  unfold Print.bindingElement
  rw [Node.form_untyped]
  cases h : n.form with
  | bindingElement isRest property? name initial? =>
      rw [h] at hform
      obtain ⟨hproperty, hname, hinitial⟩ := hform
      have hrest : Alike M outside
          (do Functor.discard (print (.binding container?) name); Print.initializer print initial?)
          (do Functor.discard (print' (.binding container?) name.untyped)
              Print.initializer print' (untypedOption initial?)) :=
        .seq (.discard (hprint _ name hname)) (initializer hprint hinitial)
      refine .when Iff.rfl (write "...") ?_
      cases property? with
      | some key => exact (propertyKey hprint hproperty).seq ((write ": ").seq hrest)
      | none =>
          refine .ite Iff.rfl ?_ hrest
          rw [name.bindingName?_untyped]
          cases name.bindingName? with
          | none => exact hrest
          | some i => exact (identifier i).seq ((write ": ").seq hrest)
  | _ => exact unit

theorem objectPattern (container? : Option String) {elements : List Node}
    (helements : ApartAll outside elements) :
    Alike M outside (Print.objectPattern print container? elements)
      (Print.objectPattern print' container? (untypedAll elements)) := by
  have hempty : (untypedAll elements).isEmpty = elements.isEmpty := by
    rw [untypedAll_eq_map, List.isEmpty_map]
  unfold Print.objectPattern
  rw [hempty]
  refine .ite Iff.rfl (write _) ((write _).seq (.seq ?_ (write _)))
  exact .commaNodes helements fun _ hn => bindingElement hprint container? hn

theorem arrayPattern (container? : Option String) {elements : List (Option Node)}
    (helements : ApartHoles outside elements) :
    Alike M outside (Print.arrayPattern print container? elements)
      (Print.arrayPattern print' container? (untypedHoles elements)) := by
  have hlast : (untypedHoles elements).getLast?.any Option.isNone =
      elements.getLast?.any Option.isNone := by
    rw [untypedHoles_eq_map, List.getLast?_map, Option.any_map]
    exact congrArg (elements.getLast?.any ·) (funext fun n? => Option.isNone_map)
  unfold Print.arrayPattern
  rw [hlast]
  refine (write "[").seq (.seq ?_ (.when Iff.rfl (write ",") (write "]")))
  rw [untypedHoles_eq_map]
  refine commaSeparated fun n? hn => .option fun n hmem => ?_
  obtain rfl := hmem
  exact bindingElement hprint container? (apartHoles_iff.mp helements n hn)

theorem bindingTarget (container? : Option String) {n : Node} (hn : n.Apart outside) :
    Alike M outside (Print.bindingTarget print container? n)
      (Print.bindingTarget print' container? n.untyped) := by
  have hform := hn.form
  unfold Print.bindingTarget
  rw [Node.form_untyped, Node.span_untyped]
  cases h : n.form with
  | bindingIdentifier name => exact .file fun _ => .write _
  | objectPattern elements =>
      rw [h] at hform
      exact objectPattern hprint container? hform
  | arrayPattern elements _ =>
      rw [h] at hform
      exact arrayPattern hprint container? hform
  | _ => exact unit

theorem variableDeclaration {n : Node} (hn : n.Apart outside) :
    Alike M outside (Print.variableDeclaration print n)
      (Print.variableDeclaration print' n.untyped) := by
  have hform := hn.form
  unfold Print.variableDeclaration
  rw [Node.form_untyped]
  cases h : n.form with
  | variableDeclaration name _ _ initial? =>
      rw [h] at hform
      exact (binding hprint hform.1).seq (initializer hprint hform.2.2)
  | _ => exact unit

theorem variableList (kind : VariableKind) {ns : List Node} (hns : ApartAll outside ns) :
    Alike M outside (Print.variableList print kind ns)
      (Print.variableList print' kind (untypedAll ns)) :=
  (write kind.keyword).seq
    (space.seq (.commaNodes hns fun _ hn => variableDeclaration hprint hn))

theorem variableAssignment (container : String) {declared : Node × Node}
    (hname : declared.1.Apart outside) (hinitial : declared.2.Apart outside) :
    Alike M outside (Print.variableAssignment print container declared)
      (Print.variableAssignment print' container (declared.1.untyped, declared.2.untyped)) := by
  obtain ⟨name, initial⟩ := declared
  unfold Print.variableAssignment
  dsimp only
  rw [Node.form_untyped, isObjectPattern_untyped]
  refine .when Iff.rfl (write "(") (.seq (.discard (hprint _ name hname)) ?_)
  exact (write " = ").seq ((value hprint hinitial).seq (.ite Iff.rfl (write ")") unit))

theorem variableAssignments (container : String) {ns : List Node} (hns : ApartAll outside ns) :
    Alike M outside (Print.variableAssignments print container ns)
      (Print.variableAssignments print' container (untypedAll ns)) := by
  have hdeclared : ∀ d ∈ ns.filterMap initialized?, d.1.Apart outside ∧ d.2.Apart outside := by
    intro d hd
    obtain ⟨n, hn, hd⟩ := List.mem_filterMap.mp hd
    exact apart_of_initialized? (apartAll_iff.mp hns n hn) hd
  unfold Print.variableAssignments
  rw [untypedAll_eq_map, filterMap_initialized?_untyped]
  dsimp only
  rw [List.isEmpty_map]
  refine .seq (commaSeparated fun d hd => ?_) (.ite Iff.rfl (write ";") unit)
  exact variableAssignment hprint container (hdeclared d hd).1 (hdeclared d hd).2

theorem exportedVariables (container : String) (kind : VariableKind) {ns : List Node}
    (hns : ApartAll outside ns) :
    Alike M outside (Print.exportedVariables print container kind ns)
      (Print.exportedVariables print' container kind (untypedAll ns)) := by
  have hnamed : namedFunction? (untypedAll ns) = namedFunction? ns := by
    rw [untypedAll_eq_map, namedFunction?_untyped]
  refine .target fun t => ?_
  rw [hnamed]
  split
  · refine (variableList hprint kind hns).seq ((write ";").seq (line.seq ?_))
    exact .file fun _ => .write _
  · exact variableAssignments hprint container hns

theorem variableStatement (ms : Modifiers) (kind : VariableKind) {ns : List Node}
    (hns : ApartAll outside ns) :
    Alike M outside (Print.variableStatement print ms kind ns)
      (Print.variableStatement print' ms kind (untypedAll ns)) := by
  refine .target fun t => .ite Iff.rfl unit ?_
  split
  · exact exportedVariables hprint _ kind hns
  · exact .when Iff.rfl (write "export ") ((variableList hprint kind hns).seq (write ";"))

theorem statementList {ns : List Node} (hns : ApartAll outside ns) :
    Alike M outside (Print.statementList print ns)
      (Print.statementList print' (untypedAll ns)) :=
  .nodes hns fun n hn => (hprint .statement n hn).bind fun _ => .ite Iff.rfl line unit

theorem inlineStatements {ns : List Node} (hns : ApartAll outside ns) :
    Alike M outside (Print.inlineStatements print ns)
      (Print.inlineStatements print' (untypedAll ns)) := by
  refine .nodes hns fun n hn => mark.bind fun start => space.seq ?_
  exact (hprint .statement n hn).bind fun _ => .ite Iff.rfl (rewind start) unit

omit hprint in
theorem braced (span : Span) {m m' : Print Unit} (h : Alike M outside m m') :
    Alike M outside (Print.braced span m) (Print.braced span m') :=
  (write _).seq ((braceComments _).seq
    (.seq (.indented (line.seq (h.seq (closingComments _)))) (line.seq (write _))))

theorem block {n : Node} (hn : n.Apart outside) :
    Alike M outside (Print.block print n) (Print.block print' n.untyped) := by
  have hform := hn.form
  unfold Print.block
  rw [Node.form_untyped, Node.id_untyped, Node.span_untyped]
  cases h : n.form with
  | block statements isMultiLine isSingleLine =>
      rw [h] at hform
      have hempty : (untypedAll statements).isEmpty = statements.isEmpty := by
        rw [untypedAll_eq_map, List.isEmpty_map]
      change Alike M outside _ (Print.inScopeOf n.id
        (if (untypedAll statements).isEmpty && !isMultiLine then _ else _))
      rw [hempty]
      refine .inScopeOf hn.id (.ite Iff.rfl ((skipComments _).seq (write _)) ?_)
      exact braced _ (.withTarget _ (statementList hprint hform))
  | _ => exact unit

theorem functionBody {n : Node} (hn : n.Apart outside) {added : List FieldAssignment}
    (hadded : ∀ a ∈ added, a.Apart outside) (isDerived : Bool) :
    Alike M outside (Print.functionBody print n added isDerived)
      (Print.functionBody print' n.untyped (added.map FieldAssignment.untyped) isDerived) := by
  have hform := hn.form
  unfold Print.functionBody
  rw [Node.form_untyped, Node.span_untyped, List.isEmpty_map]
  cases h : n.form with
  | block statements isMultiLine isSingleLine =>
      rw [h] at hform
      refine .withTarget _ (.ite Iff.rfl ?_ ?_)
      · exact (write _).seq ((inlineStatements hprint hform).seq
          ((skipComments _).seq (write _)))
      · have hall := apartAll_iff.mp hform
        have hpart : ∀ ns : List Node, (∀ n ∈ ns, n.Apart outside) →
            Alike M outside (Print.statementList print ns)
              (Print.statementList print' (ns.map Node.untyped)) := by
          intro ns hns
          rw [← untypedAll_eq_map]
          exact statementList hprint (apartAll_iff.mpr hns)
        rw [untypedAll_eq_map, injectionPoint_untyped]
        dsimp only
        rw [← List.map_take, ← List.map_drop]
        refine braced _ (.seq (hpart _ fun n hn => hall n (List.mem_of_mem_take hn)) ?_)
        refine .seq (forM fun a ha => ?_) (hpart _ fun n hn => hall n (List.mem_of_mem_drop hn))
        exact (fieldAssignment hprint (hadded a ha)).seq line
  | _ => exact unit

theorem parameter {n : Node} (hn : n.Apart outside) :
    Alike M outside (Print.parameter print n) (Print.parameter print' n.untyped) := by
  have hparameter := hn.parameter
  unfold Print.parameter
  rw [Node.parameter_untyped]
  dsimp only
  rw [Parameter.isRest_untyped, Parameter.name_untyped, Parameter.initializer_untyped,
    ← untypedOption_eq_map]
  refine .when Iff.rfl (write "...") ((binding hprint hparameter.name).seq ?_)
  exact initializer hprint (apartOption_iff.mpr hparameter.initializer)

theorem parameters {ns : List Node} (hns : ∀ n ∈ ns, n.Apart outside) :
    Alike M outside (Print.parameters print ns)
      (Print.parameters print' (ns.map Node.untyped)) := by
  have hfilter : (ns.map Node.untyped).filter (fun n => !n.parameter.isThis) =
      (ns.filter fun n => !n.parameter.isThis).map Node.untyped := by
    rw [List.filter_map]
    refine congrArg (fun p => (ns.filter p).map Node.untyped) (funext fun n => ?_)
    rw [Function.comp_apply, Node.parameter_untyped, Parameter.isThis_untyped]
  unfold Print.parameters
  rw [hfilter]
  refine (write "(").seq (.seq (commaSeparated fun n hn => ?_) (write ")"))
  exact parameter hprint (hns n (List.mem_filter.mp hn).1)

theorem signatureAndBody {n body : Node} (hn : n.Apart outside) (hbody : body.Apart outside)
    {added : List FieldAssignment} (hadded : ∀ a ∈ added, a.Apart outside) (isDerived : Bool) :
    Alike M outside (Print.signatureAndBody print n body added isDerived)
      (Print.signatureAndBody print' n.untyped body.untyped (added.map FieldAssignment.untyped)
        isDerived) := by
  unfold Print.signatureAndBody
  rw [Node.id_untyped, Node.func_untyped, FunctionLike.parameters_untyped]
  refine .inScopeOf hn.id ((parameters hprint hn.func.parameters).seq (space.seq ?_))
  exact functionBody hprint hbody hadded isDerived

theorem function {n : Node} (hn : n.Apart outside) (name? : Option String) :
    Alike M outside (Print.function print n name?) (Print.function print' n.untyped name?) := by
  have hbody := hn.func.body
  unfold Print.function
  rw [Node.func_untyped]
  dsimp only
  rw [FunctionLike.body_untyped, FunctionLike.isAsync_untyped, FunctionLike.isGenerator_untyped]
  cases h : n.func.body with
  | none => exact unit
  | some body =>
      refine .when Iff.rfl (write "async ") ((write "function").seq ?_)
      refine .when Iff.rfl (write "*") (space.seq (.seq (option_same fun _ _ => write _) ?_))
      exact signatureAndBody hprint hn (hbody body h) (by simp) false

theorem method (keyword? : Option String) {key n : Node} (hkey : key.Apart outside)
    (hn : n.Apart outside) :
    Alike M outside (Print.method print keyword? key n)
      (Print.method print' keyword? key.untyped n.untyped) := by
  have hbody := hn.func.body
  unfold Print.method
  rw [Node.func_untyped]
  dsimp only
  rw [FunctionLike.body_untyped, FunctionLike.isAsync_untyped, FunctionLike.isGenerator_untyped]
  cases h : n.func.body with
  | none => exact unit
  | some body =>
      refine .when Iff.rfl (write "async ") (.seq ?_ ?_)
      · exact option_same fun keyword _ => (write keyword).seq space
      · refine .when Iff.rfl (write "*") ((propertyKey hprint hkey).seq ?_)
        exact signatureAndBody hprint hn (hbody body h) (by simp) false

theorem functionExpression (name? : Option Identifier) {n : Node} (hn : n.Apart outside) :
    Alike M outside (Print.functionExpression print name? n)
      (Print.functionExpression print' name? n.untyped) :=
  .file fun _ => function hprint hn _

omit hprint in
theorem declaredName? (name? : Option Identifier) (isExported : Bool) :
    Alike M outside (Print.declaredName? name? isExported)
      (Print.declaredName? name? isExported) := by
  refine .job fun j j' hj => ?_
  rw [hj.file, hj.isCommonJS, hj.linkage.defaultName]
  exact .pure _

omit hprint in
theorem exportKeywords (ms : Modifiers) :
    Alike M outside (Print.exportKeywords ms) (Print.exportKeywords ms) := by
  refine .target fun t => .ite Iff.rfl ?_ unit
  exact (write "export ").seq (.ite Iff.rfl (write "default ") unit)

theorem functionDeclaration (ms : Modifiers) (name? : Option Identifier) {n : Node}
    (hn : n.Apart outside) :
    Alike M outside (Print.functionDeclaration print ms name? n)
      (Print.functionDeclaration print' ms name? n.untyped) := by
  unfold Print.functionDeclaration
  rw [Node.func_untyped, FunctionLike.body_untyped, Option.isNone_map]
  refine .ite Iff.rfl unit ((exportKeywords ms).seq ?_)
  refine (declaredName? name? ms.isExport).bind fun name? => (function hprint hn name?).seq ?_
  refine .target fun t => ?_
  split
  · exact .ite Iff.rfl (line.seq (write _)) unit
  · exact unit

theorem arrowBody {body? : Option Node} (hbody : ∀ body ∈ body?, body.Apart outside) :
    Alike M outside
      (do
        if let some body := body? then
          if body.form.isBlock then Print.functionBody print body [] false
          else if body.firstPrinted.form.isObject then
            Print.write "("
            Print.value print body
            Print.write ")"
          else Print.value print body)
      (do
        if let some body := body?.map Node.untyped then
          if body.form.isBlock then Print.functionBody print' body [] false
          else if body.firstPrinted.form.isObject then
            Print.write "("
            Print.value print' body
            Print.write ")"
          else Print.value print' body) := by
  cases body? with
  | none => exact unit
  | some body =>
      have hbody := hbody body rfl
      dsimp only [Option.map_some]
      rw [Node.form_untyped, Form.isBlock_untyped, Node.firstPrinted_untyped, Node.form_untyped,
        Form.isObject_untyped]
      refine .ite Iff.rfl (functionBody hprint hbody (by simp) false) (.ite Iff.rfl ?_ ?_)
      · exact (write "(").seq ((value hprint hbody).seq (write ")"))
      · exact value hprint hbody

theorem arrowFunction {n : Node} (hn : n.Apart outside) {f : FunctionLike} (hf : f.Apart outside)
    (isBare : Bool) :
    Alike M outside (Print.arrowFunction print n f isBare)
      (Print.arrowFunction print' n.untyped f.untyped isBare) := by
  have hbody := arrowBody hprint hf.body
  unfold Print.arrowFunction
  rw [Node.id_untyped, FunctionLike.isAsync_untyped, FunctionLike.parameters_untyped,
    FunctionLike.body_untyped]
  refine .inScopeOf hn.id (.withTarget _ (.when Iff.rfl (write "async ") ?_))
  have hend := (write " => ").seq hbody
  have hparameters := parameters hprint hf.parameters
  have hbare : ∀ c ∈ f.parameters.filter fun _ => isBare, c.Apart outside :=
    fun c hc => hf.parameters c (List.mem_filter.mp hc).1
  have hfilter : (f.parameters.map Node.untyped).filter (fun _ => isBare) =
      (f.parameters.filter fun _ => isBare).map Node.untyped := List.filter_map
  rw [hfilter]
  cases h : f.parameters.filter fun _ => isBare with
  | nil => exact hparameters.seq hend
  | cons c cs =>
      cases cs with
      | nil =>
          rw [h] at hbare
          have hname := binding hprint (hbare c (List.mem_singleton.mpr rfl)).parameter.name
          rw [← Parameter.name_untyped, ← Node.parameter_untyped] at hname
          exact hname.seq hend
      | cons => exact hparameters.seq hend

theorem decorator {n : Node} (hn : n.Apart outside) :
    Alike M outside (Print.decorator print n) (Print.decorator print' n.untyped) := by
  have hform := hn.form
  unfold Print.decorator
  rw [Node.form_untyped]
  cases h : n.form with
  | decorator inner =>
      rw [h] at hform
      exact (write "@").seq (operand hprint .leftHandSide hform)
  | _ => exact unit

theorem memberHead {m : ClassMember} (hm : m.Apart outside) :
    Alike M outside (Print.memberHead print m) (Print.memberHead print' m.untyped) :=
  .seq (forM fun d hd => (decorator hprint (hm.decorators d hd)).seq line)
    (.ite Iff.rfl (write "static ") unit)

theorem fieldMember (plan : FieldPlan) {m : ClassMember} (hm : m.Apart outside) {key : Node}
    (hkey : key.Apart outside) {initial? : Option Node} (hinitial : ApartOption outside initial?) :
    Alike M outside (Print.fieldMember print plan m key initial?)
      (Print.fieldMember print' plan.untyped m.untyped key.untyped (untypedOption initial?)) := by
  unfold Print.fieldMember
  rw [FieldPlan.keeps_untyped, ClassMember.isAccessorField_untyped]
  refine .ite Iff.rfl ((memberHead hprint hm).seq ?_) unit
  refine .when Iff.rfl (write "accessor ") ((propertyKey hprint hkey).seq ?_)
  exact (initializer hprint hinitial).seq (write ";")

theorem methodMember {m : ClassMember} (hm : m.Apart outside) (keyword? : Option String)
    {key func : Node} (hkey : key.Apart outside) (hfunc : func.Apart outside) :
    Alike M outside (Print.methodMember print m keyword? key func)
      (Print.methodMember print' m.untyped keyword? key.untyped func.untyped) :=
  (memberHead hprint hm).seq (method hprint keyword? hkey hfunc)

theorem constructorMember (c : ClassLike) {plan : FieldPlan}
    (hplan : ∀ a ∈ plan.assignments, a.Apart outside) {m : ClassMember} (hm : m.Apart outside)
    {func : Node} (hfunc : func.Apart outside) :
    Alike M outside (Print.constructorMember print c plan m func)
      (Print.constructorMember print' c.untyped plan.untyped m.untyped func.untyped) := by
  have hapart := hfunc.func.body
  unfold Print.constructorMember
  rw [Node.func_untyped, FunctionLike.body_untyped, ClassLike.isDerived_untyped]
  cases h : func.func.body with
  | none => exact unit
  | some body =>
      refine (memberHead hprint hm).seq ((write "constructor").seq ?_)
      exact signatureAndBody hprint hfunc (hapart body h) hplan c.isDerived

theorem classMember (c : ClassLike) {plan : FieldPlan}
    (hplan : ∀ a ∈ plan.assignments, a.Apart outside) {m : ClassMember} (hm : m.Apart outside) :
    Alike M outside (Print.classMember print c plan m)
      (Print.classMember print' c.untyped plan.untyped m.untyped) := by
  have hform := hm.form
  unfold Print.classMember
  rw [ClassMember.isErased_untyped, ClassMember.form_untyped]
  refine .ite Iff.rfl unit ?_
  cases h : m.form with
  | propertyMember key _ _ _ initial? =>
      rw [h] at hform
      exact fieldMember hprint plan hm hform.1 hform.2.2
  | methodMember key _ func =>
      rw [h] at hform
      exact methodMember hprint hm none hform.1 hform.2
  | getterMember key func =>
      rw [h] at hform
      exact methodMember hprint hm (some "get") hform.1 hform.2
  | setterMember key func =>
      rw [h] at hform
      exact methodMember hprint hm (some "set") hform.1 hform.2
  | constructorMember func =>
      rw [h] at hform
      exact constructorMember hprint c hplan hm hform
  | staticBlock body =>
      rw [h] at hform
      exact (write "static ").seq (block hprint hform)
  | semicolonMember => exact .write _
  | _ => exact unit

theorem assignments {as : List FieldAssignment} (has : ∀ a ∈ as, a.Apart outside) :
    Alike M outside
      (as.forM fun a => do Print.fieldAssignment print a; Print.line)
      ((as.map FieldAssignment.untyped).forM fun a => do
        Print.fieldAssignment print' a; Print.line) :=
  forM fun a ha => (fieldAssignment hprint (has a ha)).seq line

theorem addedConstructor (c : ClassLike) {plan : FieldPlan}
    (hplan : ∀ a ∈ plan.assignments, a.Apart outside) :
    Alike M outside (Print.addedConstructor print c plan)
      (Print.addedConstructor print' c.untyped plan.untyped) := by
  unfold Print.addedConstructor
  rw [ClassLike.isDerived_untyped]
  have hassignments := assignments hprint hplan
  refine (write _).seq (.seq (.indented (line.seq ?_)) ((write _).seq line))
  refine .ite Iff.rfl ?_ hassignments
  exact (write _).seq (line.seq hassignments)

theorem classMembers {c : ClassLike} (hc : c.Apart outside) {plan : FieldPlan}
    (hplan : ∀ a ∈ plan.assignments, a.Apart outside) :
    Alike M outside (Print.classMembers print c plan)
      (Print.classMembers print' c.untyped plan.untyped) := by
  have hmembers : Alike M outside
      ((c.members.filterMap ClassMember.ofNode?).forM fun m => do
        if ← Print.commented m.node.span (Print.classMember print c plan m) then Print.line)
      ((c.untyped.members.filterMap ClassMember.ofNode?).forM fun m => do
        if ← Print.commented m.node.span (Print.classMember print' c.untyped plan.untyped m) then
          Print.line) := by
    rw [ClassLike.members_untyped, ClassMember.filterMap_ofNode?_untyped]
    refine forM fun m hm => ?_
    obtain ⟨n, hn, hm⟩ := List.mem_filterMap.mp hm
    have hspan : m.untyped.node.span = m.node.span := m.node.span_untyped
    rw [hspan]
    refine (Alike.commented _ ?_).bind fun _ => .ite Iff.rfl line unit
    exact classMember hprint c hplan (ClassMember.apart_of_ofNode? (hc.members n hn) hm)
  have hempty : plan.untyped.assignments.isEmpty = plan.assignments.isEmpty := List.isEmpty_map
  unfold Print.classMembers
  rw [ClassLike.constructor?_untyped, Option.isNone_map, hempty]
  refine .seq (forM_same fun i _ => (identifier i).seq ((write ";").seq line)) ?_
  exact .when Iff.rfl (addedConstructor hprint c hplan) hmembers

theorem extendsClause {c : ClassLike} (hc : c.Apart outside) :
    Alike M outside (Print.extendsClause print c) (Print.extendsClause print' c.untyped) := by
  unfold Print.extendsClause
  rw [ClassLike.base_untyped, ← untypedOption_eq_map]
  refine .node? (apartOption_iff.mpr hc.base) fun base hbase => ?_
  have hform := hbase.form
  rw [Node.form_untyped]
  cases h : base.form with
  | heritage _ inner _ =>
      rw [h] at hform
      exact (write " extends ").seq (operand hprint .leftHandSide hform.1)
  | _ => exact unit

theorem classBody {n : Node} (hn : n.Apart outside) (name? : Option String)
    (hoistsStatics : Bool) :
    Alike M outside (Print.classBody print n name? hoistsStatics)
      (Print.classBody print' n.untyped name? hoistsStatics) := by
  have hc := hn.classLike
  unfold Print.classBody
  rw [Node.classLike_untyped, Node.id_untyped, Node.span_untyped]
  refine .options fun o => (write "class").seq ?_
  refine .seq (option_same fun _ _ => write _) ((extendsClause hprint hc).seq ((write _).seq ?_))
  refine .seq (.inScopeOf hn.id (.withTarget _ (.indented (line.seq ?_)))) (line.seq (write _))
  rw [FieldPlan.ofClass_untyped]
  exact (classMembers hprint hc (FieldPlan.apart_ofClass hc)).seq (closingComments _)

theorem classExpression {n : Node} (hn : n.Apart outside) :
    Alike M outside (Print.classExpression print n) (Print.classExpression print' n.untyped) := by
  have hc := hn.classLike
  unfold Print.classExpression
  rw [Node.classLike_untyped]
  dsimp only
  rw [ClassLike.decorators_untyped, ClassLike.name_untyped]
  refine .seq (forM fun d hd => (decorator hprint (hc.decorators d hd)).seq space) ?_
  exact .file fun _ => classBody hprint hn _ false

theorem staticAssignments (name : String) {c : ClassLike} (hc : c.Apart outside) :
    Alike M outside (Print.staticAssignments print name c)
      (Print.staticAssignments print' name c.untyped) := by
  have hfields : (c.untyped.members.filterMap ClassMember.ofNode?).filterMap
        ClassMember.staticAssignment? =
      ((c.members.filterMap ClassMember.ofNode?).filterMap ClassMember.staticAssignment?).map
        fun field => (field.1.untyped, field.2.untyped) := by
    rw [ClassLike.members_untyped, ClassMember.filterMap_ofNode?_untyped, List.filterMap_map,
      List.map_filterMap]
    exact congrArg (List.filterMap · _) (funext ClassMember.staticAssignment?_untyped)
  unfold Print.staticAssignments
  dsimp only
  rw [hfields]
  refine forM fun field hfield => line.seq ?_
  obtain ⟨m, hm, hfield⟩ := List.mem_filterMap.mp hfield
  obtain ⟨n, hn, hm⟩ := List.mem_filterMap.mp hm
  have hapart := (ClassMember.apart_of_ofNode? (hc.members n hn) hm).staticAssignment? hfield
  exact memberAssignment hprint name hapart.1 hapart.2

theorem classDeclaration {n : Node} (hn : n.Apart outside) :
    Alike M outside (Print.classDeclaration print n) (Print.classDeclaration print' n.untyped) := by
  have hc := hn.classLike
  unfold Print.classDeclaration
  rw [Node.classLike_untyped]
  dsimp only
  rw [ClassLike.decorators_untyped, ClassLike.name_untyped, ClassLike.modifiers_untyped]
  refine .ite Iff.rfl unit (.seq (forM fun d hd => ?_) ?_)
  · exact (decorator hprint (hc.decorators d hd)).seq line
  refine (exportKeywords _).seq ((declaredName? _ _).bind fun name? => ?_)
  refine (classBody hprint hn _ _).seq ?_
  cases name? with
  | none => exact unit
  | some name =>
      refine .options fun o => .when Iff.rfl (staticAssignments hprint name hc) ?_
      exact .target fun t => option_same fun _ _ => line.seq (write _)

end
end Alike
end Erasure.Print

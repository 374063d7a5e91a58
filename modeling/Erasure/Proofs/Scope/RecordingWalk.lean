import Erasure.Proofs.Parse.Numbering.Statements
import Erasure.Proofs.Scope.Growth
import Erasure.Proofs.Scope.Recording

/-!
The walk of the binder over a tree with different numbers. It declares every node at most once, so
that the bindings of a parsed file are well formed.
-/

namespace Erasure

theorem Node.count_statements_parts_le (n : Node) (i : NodeId) :
    (numbers n.statements).count i ≤ (numbers n.form.parts).count i := by
  unfold statements
  split
  · rename_i hform
    rw [hform]
    exact Nat.le_refl _
  · rename_i hform
    rw [hform]
    exact Nat.le_refl _
  · exact Nat.zero_le _

theorem Node.count_statements_le (n : Node) (i : NodeId) :
    (numbers n.statements).count i ≤ (numbers n).count i := by
  rw [count_numbers_eq]
  exact Nat.le_add_left_of_le (n.count_statements_parts_le i)

/-- A function node holds what its function declares, and the properties of its parameters. -/
theorem Node.count_func_le (n : Node) (i : NodeId) :
    (n.func.parameters.flatMap propertyNumbers).count i + n.func.interior.count i ≤
      (numbers n).count i := by
  rw [count_numbers_eq]
  cases hform : n.form with
  | functionLike f =>
      have hfunc : n.func = f := by rw [func, hform]; rfl
      rw [hfunc]
      exact Nat.le_add_left_of_le (f.count_interior_le i)
  | _ =>
      have hfunc : n.func = FunctionLike.empty := by rw [func, hform]; rfl
      rw [hfunc]
      exact Nat.zero_le _

theorem Node.count_parameter_type_le (n : Node) (i : NodeId) :
    (numbers n.parameter.type).count i ≤ (numbers n).count i := by
  rw [count_numbers_eq]
  unfold parameter
  split
  · rename_i p hform
    rw [hform]
    refine Nat.le_add_left_of_le ?_
    show _ ≤ (numbers p.children).count i
    simp only [Parameter.children, numbers_append, numbers_toList, List.count_append]
    omega
  · exact Nat.zero_le _

theorem Node.count_classLike_le (n : Node) (i : NodeId) :
    [n.id].count i + ((numbers n.classLike.name).count i + (numbers n.classLike.children).count i) ≤
      (numbers n).count i := by
  rw [count_numbers_eq, Nat.add_assoc]
  refine Nat.add_le_add_left ?_ _
  unfold classLike
  split
  · rename_i hform
    rw [hform]
    exact Nat.le_refl _
  · exact Nat.zero_le _

namespace Binder

/-- A walk that declares nodes in the interior of what it visits. -/
def WalksInterior (walk : Node → Binder Unit) : Prop :=
  ∀ known n, Records known n.interior (walk n) Anything

namespace Records

variable {known : Nat} {walk : Node → Binder Unit}

section
variable (hwalk : WalksInterior walk)
include hwalk

theorem walkAll (ns : List Node) :
    Records known (ns.flatMap Node.interior) (ns.forM walk) Anything :=
  .forM fun n _ => hwalk known n

theorem walkNumbers (ns : List Node) : Records known (numbers ns) (ns.forM walk) Anything :=
  (walkAll hwalk ns).weaken fun i => Node.count_flatMap_interior_le ns i

theorem walkOption (n? : Option Node) : Records known (numbers n?) (n?.forM walk) Anything :=
  (Records.option fun n _ => hwalk known n).weaken fun i => Node.count_flatMap_interior_le _ i

theorem walkOne (n : Node) : Records known (numbers n) (walk n) Anything :=
  (hwalk known n).weaken fun i => n.count_interior_le i

theorem walkVisited (n : Node) : Records known n.interior (n.visited.forM walk) Anything :=
  (walkAll hwalk n.visited).weaken fun i =>
    Nat.le_trans (n.count_visited_le i) (n.count_children_le i)

theorem functionBody (body? : Option Node) :
    Records known (numbers body?) (match body? with
      | none => Pure.pure ()
      | some body => if body.form.isBlock then body.statements.forM walk else walk body)
      Anything := by
  cases body? with
  | none => exact .pure fun _ _ => trivial
  | some body =>
      rw [numbers_some]
      exact .ite (fun _ => (walkNumbers hwalk _).weaken fun i => body.count_statements_le i)
        fun _ => walkOne hwalk body

theorem functionParts (f : FunctionLike) :
    Records known f.interior (functionParts walk f) Anything := by
  refine (Records.seq (declareTypeParameters _) fun _ => .seq (walkAll hwalk _) fun _ =>
    .seq (.forM fun n _ => declareParameter n) fun _ => .seq (walkAll hwalk _) fun _ =>
      .seq (walkOption hwalk _) fun _ => functionBody hwalk f.body).weaken fun i => ?_
  have htypes := Node.count_flatMap_introduced_add_interior (f.typeParameters.getD []) i
  have hparameters := count_flatMap_append f.parameters
    (fun n => n.parameter.name.bindingNumbers) Node.interior i
  change _ ≤ (numbers _ ++ (f.parameters.flatMap (fun n =>
    n.parameter.name.bindingNumbers ++ n.interior) ++ _)).count i
  simp only [List.count_append]
  omega

theorem function (n : Node) (name? : Option Identifier) :
    Records known (numbers name? ++ n.func.interior) (function walk n name?) Anything := by
  refine .inScope .function n.id ?_
  cases name? with
  | none => exact functionParts hwalk n.func
  | some name =>
      refine .bind (declareHere name _ _ _) fun _ _ _ _ => ?_
      exact functionParts hwalk n.func

omit hwalk in
theorem declareParameterProperty (cls : SymbolId) (n : Node) :
    Records known n.propertyNumbers (declareParameterProperty cls n) Anything := by
  refine .ite (fun hproperty => ?_) fun _ => .pure fun _ _ => trivial
  have hnumbers : n.propertyNumbers = [n.id] := by
    unfold Node.parameter at hproperty
    split at hproperty
    · rename_i p hform
      rw [Node.propertyNumbers, hform]
    · cases hproperty
  rw [hnumbers]
  split
  · rename_i name _
    exact .bind (r := []) (declareOwn (.members cls) name.text n.id _ name.span n.span)
      fun _ _ _ _ => .pure fun _ _ => trivial
  · exact .pure fun _ _ => trivial

theorem functionMember (t : TableRef) (member key func : Node) (kind : DeclarationKind) :
    Records known (member.id :: numbers [key, func]) (functionMember walk t member key func kind)
      Anything := by
  refine (Records.bind (declareMember t member key kind) fun _ _ _ _ => .seq (walkOne hwalk key)
    fun _ => function hwalk func none).weaken fun i => ?_
  have hfunc := func.count_func_le i
  simp only [numbers_cons, numbers_nil, numbers_none, List.count_append, List.count_cons,
    List.count_nil]
  omega

theorem indexMember (parameters : List Node) (type : Option Node) :
    Records known (numbers (parameters ++ type.toList)) (indexMember walk parameters type)
      Anything := by
  have hparameters : Records known (numbers parameters)
      (parameters.forM fun p => p.parameter.type.forM walk) Anything :=
    (Records.forM fun (p : Node) _ => walkOption hwalk p.parameter.type).weaken fun i =>
      count_flatMap_le fun p _ => p.count_parameter_type_le i
  rw [numbers_append, numbers_toList]
  exact .seq hparameters fun _ => walkOption hwalk type

theorem memberParts (cls : SymbolId) (n : Node) (ms : Modifiers) (member : Form) :
    Records known (n.id :: numbers member.parts) (memberParts walk cls n ms member) Anything := by
  unfold Binder.memberParts
  cases member with
  | propertyMember key _ _ type initializer =>
      refine (Records.bind (declareMember _ n key _) fun _ _ _ _ => .seq (walkOne hwalk key)
        fun _ => .seq (walkOption hwalk type) fun _ => walkOption hwalk initializer).weaken
          fun i => ?_
      show _ ≤ (n.id :: numbers (key :: type.toList ++ initializer.toList)).count i
      simp only [numbers_append, numbers_cons, numbers_toList, List.count_append, List.count_cons,
        List.count_nil]
      omega
  | methodMember key _ func | getterMember key func | setterMember key func =>
      exact functionMember hwalk _ n key func _
  | constructorMember func =>
      refine (Records.seq (.forM fun p _ => declareParameterProperty cls p) fun _ =>
        function hwalk func none).weaken fun i => ?_
      have hfunc := func.count_func_le i
      show _ ≤ (n.id :: numbers [func]).count i
      simp only [numbers_cons, numbers_nil, numbers_none, List.count_append, List.count_cons,
        List.count_nil]
      omega
  | indexMember parameters type =>
      refine (indexMember hwalk parameters type).weaken fun i => ?_
      rw [List.count_cons]
      exact Nat.le_add_right _ _
  | staticBlock body =>
      refine Records.weaken (.ite (fun _ => inScope .function body.id
        (walkNumbers hwalk body.statements)) fun _ => .pure fun _ _ => trivial) fun i => ?_
      have hbody := body.count_statements_le i
      show _ ≤ (n.id :: numbers [body]).count i
      simp only [numbers_cons, numbers_nil, List.append_nil, List.count_cons]
      omega
  | _ => exact .pure fun _ _ => trivial

theorem classMember (cls : SymbolId) (n : Node) :
    Records known (numbers n) (classMember walk cls n) Anything := by
  unfold Binder.classMember
  split
  · rename_i decorators ms member hform
    refine (Records.seq (walkNumbers hwalk decorators) fun _ =>
      .withModifiers ms (memberParts hwalk cls n ms member)).weaken fun i => ?_
    rw [Node.count_numbers_eq, hform]
    show _ ≤ _ + (numbers (decorators ++ member.parts)).count i
    simp only [numbers_append, List.count_append, List.count_cons, List.count_nil]
    omega
  · exact .pure fun _ _ => trivial

theorem classParts (n : Node) {cls : SymbolId} (hcls : cls < known) :
    Records known ([n.id] ++ (numbers (n.classLike.typeParameters.getD []) ++
      (numbers n.classLike.base ++ (numbers n.classLike.interfaces ++
        numbers n.classLike.members)))) (classParts walk n cls) Anything := by
  have hmembers : Records known (numbers n.classLike.members)
      (n.classLike.members.forM (Binder.classMember walk cls)) Anything :=
    .forM fun c _ => classMember hwalk cls c
  refine (Records.seq (setSymbolOf n.id hcls) fun _ => .seq (declareTypeParameters _) fun _ =>
    .seq (walkAll hwalk _) fun _ => .seq (walkOption hwalk _) fun _ =>
      .seq (walkNumbers hwalk _) fun _ => hmembers).weaken fun i => ?_
  have htypes := Node.count_flatMap_introduced_add_interior (n.classLike.typeParameters.getD []) i
  simp only [List.count_append]
  omega

omit hwalk in
theorem classExpressionSymbol (n : Node) :
    Records known (numbers n.classLike.name) (classExpressionSymbol n) Exists := by
  unfold Binder.classExpressionSymbol
  split
  · rename_i name hname
    rw [hname]
    exact declareHere name _ _ _
  · exact .newSymbol _ _

/-- A class of a statement has its name declared outside. -/
theorem class_ (n : Node) (declared? : Option SymbolId) (hdeclared : ∀ y ∈ declared?, y < known) :
    Records known ([n.id] ++ ((if declared?.isSome then [] else numbers n.classLike.name) ++
      numbers n.classLike.children)) (class_ walk n declared?) Anything := by
  have hparts : Records known (numbers n.classLike.decorators ++
      ((if declared?.isSome then [] else numbers n.classLike.name) ++
        ([n.id] ++ (numbers (n.classLike.typeParameters.getD []) ++
          (numbers n.classLike.base ++ (numbers n.classLike.interfaces ++
            numbers n.classLike.members)))))) (Binder.class_ walk n declared?) Anything := by
    refine .seq (walkNumbers hwalk _) fun _ => .withModifiers _ (.inScope .class_ n.id ?_)
    cases declared? with
    | none =>
        exact .bind (classExpressionSymbol n) fun _ _ _ hy => classParts hwalk n hy
    | some y => exact classParts hwalk n (hdeclared y rfl)
  refine hparts.weaken fun i => ?_
  simp only [ClassLike.children, numbers_append, numbers_toList, List.count_append]
  omega

theorem classStatement (n cls : Node) :
    Records known (numbers cls) (classStatement walk n cls) Anything := by
  have hparts : Records known (numbers cls.classLike.name ++ ([cls.id] ++ ([] ++
      numbers cls.classLike.children))) (Binder.classStatement walk n cls) Anything := by
    refine .withModifiers _ ?_
    cases cls.classLike.name with
    | none =>
        refine .bind (u := numbers (none : Option Identifier)) (.newSymbol _ _) fun y _ _ hy => ?_
        exact class_ hwalk cls (some y) fun _ h => Option.mem_some.mp h ▸ hy
    | some name =>
        refine .bind (declareHere name _ _ _) fun y _ _ hy => ?_
        exact class_ hwalk cls (some y) fun _ h => Option.mem_some.mp h ▸ hy
  refine hparts.weaken fun i => ?_
  have hcls := cls.count_classLike_le i
  simp only [List.count_append, List.count_nil]
  omega

theorem typeDeclaration (n : Node) (name : Identifier) (kind : DeclarationKind) (ms : Modifiers)
    (types? : Option (List Node)) :
    Records known ([name.id] ++ ((types?.getD []).flatMap Node.introduced ++
      n.visited.flatMap Node.interior)) (typeDeclaration walk n name kind ms types?) Anything :=
  .bind (declareHere name kind _ _) fun _ _ _ _ => .inScope .block n.id <|
    .seq (declareTypeParameters _) fun _ => walkAll hwalk _

theorem enumMember {owner : SymbolId} (howner : owner < known) (n : Node) :
    Records known (numbers n) (enumMember walk owner n) Anything := by
  unfold Binder.enumMember
  split
  · rename_i key _ hform
    have hintroduced : n.introduced = [n.id] := by rw [Node.introduced, hform]
    refine (Records.bind (r := n.interior) (declareMember (.exports owner) n key _)
      fun y? _ hle _ => ?_).weaken fun i => ?_
    · cases y? with
      | none => exact hwalk _ n
      | some y =>
          refine .step (.change fun b hb hsize => ?_) fun _ => hwalk _ n
          exact hb.setOwner y (Nat.lt_of_lt_of_le (Nat.lt_of_lt_of_le howner hle) hsize)
    · rw [List.count_append, ← hintroduced]
      exact Nat.le_of_eq (n.count_introduced_add_interior i)
  · exact walkOne hwalk n

theorem enumDeclaration (n : Node) (ms : Modifiers) (name : Identifier) (members : List Node) :
    Records known ([name.id] ++ numbers members) (enumDeclaration walk n ms name members)
      Anything :=
  .withModifiers ms <| .bind (declareHere name _ _ _) fun _ _ _ hy =>
    .forM fun c _ => enumMember hwalk hy c

omit hwalk in
theorem moduleSymbol? (n : Node) (ms : Modifiers) (name : ModuleName) (isGlobal : Bool) :
    Records known (numbers name) (moduleSymbol? n ms name isGlobal) ExistsIfAny := by
  have hglobal : Records known (numbers name) (do
      modify fun b => { b with augmentsGlobals := true }
      return (none : Option SymbolId) : Binder _) ExistsIfAny :=
    .step (.change fun _ hb _ => hb.of_eq rfl rfl rfl rfl) fun _ =>
      .pure fun _ _ _ hy => by cases hy
  unfold Binder.moduleSymbol?
  cases name with
  | identifier name =>
      refine .ite (fun _ => ?_) fun _ => hglobal
      refine .bind (r := []) (declareHere name _ _ _) fun y _ _ hy => .pure fun n hn => ?_
      rintro _ ⟨⟩
      exact Nat.lt_of_lt_of_le hy hn
  | string _ => exact hglobal

theorem moduleBody (body : Node) :
    Records known (numbers body) (moduleBody walk body) Anything := by
  unfold Binder.moduleBody
  split
  · rename_i statements hform
    refine (walkNumbers hwalk statements).weaken fun i => ?_
    rw [Node.count_numbers_eq, hform]
    exact Nat.le_add_left _ _
  · exact walkOne hwalk body

theorem moduleDeclaration (n : Node) (ms : Modifiers) (name : ModuleName) (body? : Option Node)
    (isGlobal : Bool) :
    Records known (numbers name ++ ([n.id] ++ numbers body?))
      (moduleDeclaration walk n ms name body? isGlobal) Anything := by
  refine .withModifiers ms (.bind (moduleSymbol? n ms name isGlobal) fun y? k _ hy => ?_)
  have hbody : Records k (numbers body?) (body?.forM (Binder.moduleBody walk)) Anything :=
    .option fun body _ => moduleBody hwalk body
  have hscope : Records k (numbers body?) (Binder.inScope .module_ n.id do
      let scope ← Binder.currentScope
      modify fun b => b.modifyScope scope fun s => { s with container? := y? }
      body?.forM (Binder.moduleBody walk)) Anything := by
    refine .inScope .module_ n.id (.step .currentScope fun scope => .step ?_ fun _ => hbody)
    exact .change fun b hb hsize =>
      hb.setContainer scope fun y hmem => Nat.lt_of_lt_of_le (hy y hmem) hsize
  cases y? with
  | none => exact hscope.weaken fun i => by rw [List.count_append]; exact Nat.le_add_left _ _
  | some y => exact .seq (setSymbolOf n.id (hy y rfl)) fun _ => hscope

theorem catchClause (n : Node) (binding? : Option Node) (body : Node) :
    Records known (numbers binding? ++ numbers body) (catchClause walk n binding? body)
      Anything := by
  refine .inScope .catchClause n.id ?_
  cases binding? with
  | none => exact walkOne hwalk body
  | some v =>
      dsimp only
      split
      · rename_i name _ _ _ hform
        have hintroduced : v.introduced = name.bindingNumbers := by rw [Node.introduced, hform]
        refine (Records.step .currentScope fun s => .seq (declareBinding s name _ _ _) fun _ =>
          .seq (hwalk _ v) fun _ => walkOne hwalk body).weaken fun i => ?_
        have hv := v.count_introduced_add_interior i
        rw [hintroduced] at hv
        simp only [numbers_some, List.count_append]
        omega
      · rw [numbers_some]
        exact .seq (walkOne hwalk v) fun _ => walkOne hwalk body

theorem genericType (n : Node) (f : FunctionLike) :
    Records known ((f.typeParameters.getD []).flatMap Node.introduced ++
      n.visited.flatMap Node.interior) (genericType walk n f) Anything := by
  unfold Binder.genericType
  cases f.typeParameters with
  | none => exact walkAll hwalk n.visited
  | some types =>
      exact .inScope .block n.id (.seq (declareTypeParameters types) fun _ => walkAll hwalk _)

theorem typeElement (n : Node) {ms : Modifiers} {element : Form}
    (hform : n.form = .typeElement ms element) :
    Records known (numbers n) (typeElement walk n element) Anything := by
  have hfunction : ∀ f : FunctionLike, f.children.Sublist n.form.children →
      Records known (numbers n) (Binder.genericType walk n f) Anything := fun f hf =>
    (genericType hwalk n f).weaken fun i =>
      n.count_declared_children_le (f.typeParameters_sublist.trans hf) i
  rw [hform] at hfunction
  cases element with
  | methodSignature name _ f => exact hfunction f (List.sublist_cons_self name f.children)
  | callSignature f | constructSignature f => exact hfunction f (List.Sublist.refl _)
  | _ => exact (walkVisited hwalk n).weaken fun i => n.count_interior_le i

theorem variableParts (kind : VariableKind) (declarations : List Node)
    (isExported : Bool) :
    Records known (numbers declarations) (do
      Binder.declareVariables kind declarations isExported
      declarations.forM walk) Anything := by
  refine (Records.seq (declareVariables kind declarations isExported) fun _ =>
    walkAll hwalk declarations).weaken fun i => ?_
  rw [List.count_append]
  exact Nat.le_of_eq (Node.count_flatMap_introduced_add_interior declarations i)

theorem functionStatement (n func : Node) (name? : Option Identifier) (isExported : Bool) :
    Records known (numbers name? ++ func.func.interior) (do
      if let some name := name? then
        let _ ← Binder.declareHere name (.function func.func.body.isSome) n.span isExported
      Binder.function walk func none) Anything := by
  cases name? with
  | none => exact function hwalk func none
  | some name => exact .bind (declareHere name _ _ _) fun _ _ _ _ => function hwalk func none

theorem walkStep (n : Node) : Records known n.interior (Binder.step walk n) Anything := by
  have hbelow : Records known n.interior (n.visited.forM walk) Anything := walkVisited hwalk n
  have hwhole : ∀ {ids : List NodeId} {m : Binder Unit}, n.form.introduces = false →
      Records known ids m Anything → (∀ i, ids.count i ≤
        [n.id].count i + n.form.ownNumbers.count i + (numbers n.form.parts).count i) →
          Records known n.interior m Anything := by
    intro ids m hform h hle
    rw [Node.interior_eq hform]
    exact h.weaken fun i => (n.count_numbers_eq i).symm ▸ hle i
  have hchildren : ∀ {ns : List Node}, ns.Sublist n.form.children → ∀ i,
      (ns.flatMap Node.introduced).count i + (n.visited.flatMap Node.interior).count i ≤
        (numbers n.form.parts).count i := fun hns i => n.count_introduced_add_visited_le hns i
  unfold Binder.step
  cases hform : n.form with
  | forStmt _ _ _ _ | forInStmt _ _ _ | forOfStmt _ _ _ _ | block _ _ _ | conditionalType _ _ _ _ =>
      exact .inScope .block n.id hbelow
  | switchStmt subject clauses =>
      rw [hform] at hwhole
      exact hwhole rfl (.seq (walkOne hwalk subject) fun _ => .inScope .block n.id
        (walkNumbers hwalk clauses)) fun i => Nat.le_add_left _ _
  | varStmt ms list =>
      rw [hform] at hwhole
      dsimp only
      split
      · rename_i kind declarations hlist
        refine hwhole rfl (.withModifiers ms (variableParts hwalk kind declarations _)) fun i => ?_
        refine Nat.le_add_left_of_le ?_
        show _ ≤ (numbers [list]).count i
        rw [numbers_cons, numbers_nil, List.append_nil, Node.count_numbers_eq, hlist]
        exact Nat.le_add_left _ _
      · exact .pure fun _ _ => trivial
  | variableList kind declarations =>
      rw [hform] at hwhole
      exact hwhole rfl (variableParts hwalk kind declarations false) fun i => Nat.le_add_left _ _
  | functionStmt ms name? func =>
      rw [hform] at hwhole
      refine hwhole rfl (.withModifiers ms (functionStatement hwalk n func name? _)) fun i => ?_
      have hfunc := func.count_func_le i
      show _ ≤ _ + (numbers name?).count i + (numbers [func]).count i
      simp only [numbers_cons, numbers_nil, List.append_nil, List.count_append]
      omega
  | functionExpr _ name? func =>
      rw [hform] at hwhole
      refine hwhole rfl (function hwalk func name?) fun i => ?_
      have hfunc := func.count_func_le i
      show _ ≤ _ + (numbers name?).count i + (numbers [func]).count i
      simp only [numbers_cons, numbers_nil, List.append_nil, List.count_append]
      omega
  | functionLike f =>
      rw [hform] at hwhole
      refine hwhole rfl (function hwalk n none) fun i => ?_
      have hfunc := n.count_func_le i
      rw [Node.count_numbers_eq, hform] at hfunc
      rw [numbers_none, List.nil_append]
      exact Nat.le_of_add_left_le hfunc
  | arrowFunction f _ =>
      rw [hform] at hwhole
      refine hwhole rfl (.inScope .function n.id (functionParts hwalk f)) fun i => ?_
      exact Nat.le_add_left_of_le (Nat.le_of_add_left_le (f.count_interior_le i))
  | classStmt cls =>
      rw [hform] at hwhole
      refine hwhole rfl (classStatement hwalk n cls) fun i => Nat.le_add_left_of_le ?_
      show _ ≤ (numbers [cls]).count i
      exact Nat.le_of_eq (by rw [numbers_cons, numbers_nil, List.append_nil])
  | classExpr cls =>
      rw [hform] at hwhole
      refine hwhole rfl (class_ hwalk cls none fun _ h => by cases h) fun i => ?_
      have hcls := cls.count_classLike_le i
      refine Nat.le_add_left_of_le ?_
      show _ ≤ (numbers [cls]).count i
      rw [numbers_cons, numbers_nil, List.append_nil, List.count_append, List.count_append]
      exact hcls
  | interfaceStmt ms name types? bases members =>
      rw [hform] at hwhole hchildren
      refine hwhole rfl (typeDeclaration hwalk n name _ ms types?) fun i => ?_
      have hle := hchildren (List.sublist_append_of_sublist_left (List.sublist_append_left
        (types?.getD []) bases)) i
      show _ ≤ _ + [name.id].count i + _
      simp only [List.count_append]
      omega
  | typeAliasStmt ms name types? type =>
      rw [hform] at hwhole hchildren
      refine hwhole rfl (typeDeclaration hwalk n name _ ms types?) fun i => ?_
      have hle := hchildren (List.sublist_append_left (types?.getD []) [type]) i
      show _ ≤ _ + [name.id].count i + _
      simp only [List.count_append]
      omega
  | enumStmt ms name members =>
      rw [hform] at hwhole
      refine hwhole rfl (enumDeclaration hwalk n ms name members) fun i => ?_
      show _ ≤ _ + [name.id].count i + (numbers members).count i
      rw [List.count_append]
      omega
  | moduleDeclaration ms name body? isGlobal =>
      rw [hform] at hwhole
      refine hwhole rfl (moduleDeclaration hwalk n ms name body? isGlobal) fun i => ?_
      show _ ≤ _ + (numbers name).count i + (numbers body?).count i
      simp only [List.count_append]
      omega
  | importStmt _ clause? specifier _ =>
      rw [hform] at hwhole
      refine hwhole rfl (.option fun clause _ => declareImport clause n.span) fun i => ?_
      show (numbers clause?).count i ≤ _ + (numbers clause? ++ numbers specifier).count i + _
      rw [List.count_append]
      omega
  | importEqualsStmt ms isTypeOnly name reference =>
      rw [hform] at hwhole
      refine hwhole rfl (declareAlias name isTypeOnly n.span ms.isExport) fun i => ?_
      show _ ≤ _ + ([name.id] ++ numbers reference).count i + _
      rw [List.count_append]
      omega
  | catchClause binding? body =>
      rw [hform] at hwhole
      refine hwhole rfl (catchClause hwalk n binding? body) fun i => Nat.le_add_left_of_le ?_
      show _ ≤ (numbers (binding?.toList ++ [body])).count i
      exact Nat.le_of_eq (by
        rw [numbers_append, numbers_toList, numbers_cons, numbers_nil, List.append_nil])
  | functionType f | constructorType _ f =>
      rw [hform] at hwhole hchildren
      refine hwhole rfl (genericType hwalk n f) fun i => Nat.le_add_left_of_le ?_
      rw [List.count_append]
      exact hchildren f.typeParameters_sublist i
  | mappedType _ key nameType _ type =>
      rw [hform] at hwhole hchildren
      refine hwhole rfl (.inScope .block n.id (.seq (declareTypeParameter _ key) fun _ =>
        walkAll hwalk n.visited)) fun i => Nat.le_add_left_of_le ?_
      have hle := hchildren (List.singleton_sublist.mpr List.mem_cons_self) i
      rw [List.flatMap_singleton] at hle
      rw [List.count_append]
      exact hle
  | inferType bound =>
      rw [hform] at hwhole hchildren
      refine hwhole rfl (.seq (declareTypeParameter [] bound) fun _ => walkAll hwalk n.visited)
        fun i => Nat.le_add_left_of_le ?_
      have hle := hchildren (List.Sublist.refl [bound]) i
      rw [List.flatMap_singleton] at hle
      rw [List.count_append]
      exact hle
  | typeElement _ element =>
      have helement : Records known (numbers n) (Binder.typeElement walk n element) Anything :=
        typeElement hwalk n hform
      rw [hform] at hwhole
      refine hwhole rfl helement fun i => Nat.le_of_eq ?_
      rw [Node.count_numbers_eq, hform]
  | _ => exact hbelow

end

theorem walkNode (fuel : Nat) : WalksInterior (walkNode fuel) := by
  induction fuel with
  | zero => exact fun _ _ => .pure fun _ _ => trivial
  | succ fuel ih => exact fun _ n => walkStep ih n

end Records
end Binder

theorem Bindings.wellFormed_root :
    (({} : Bindings).newScope .sourceFile none 0).2.WellFormed := by
  have hscope : ∀ s, (({} : Bindings).newScope .sourceFile none 0).2.scope s =
      { kind := .sourceFile, parent? := none } ∨
        (({} : Bindings).newScope .sourceFile none 0).2.scope s = default := by
    intro s
    cases s with
    | zero => exact .inl rfl
    | succ s => exact .inr (scope_of_size_le _ (Nat.le_add_left 1 s))
  constructor
  case toLinked => exact linked_empty.newScope .sourceFile none 0
  case owner_lt => exact fun y z hz => by cases hz
  case parent_lt =>
    intro s t ht
    rcases hscope s with heq | heq <;> rw [heq] at ht <;> cases ht
  case rooted => exact fun s hpos hs => absurd hs (Nat.not_lt.mpr hpos)
  case scopeOf_lt =>
    intro n s hs
    by_cases hn : n = 0
    · rw [hn, scopeOf?_newScope_self] at hs
      exact Option.some.inj hs ▸ Nat.zero_lt_one
    · rw [scopeOf?_newScope_of_ne _ _ _ _ hn] at hs
      simp [scopeOf?] at hs
  case symbolOf_lt =>
    intro n y hy
    change (({} : Bindings)).symbolOf? n = some y at hy
    simp [symbolOf?] at hy
  case declared => exact fun y d hd => by cases hd
  case distinct => exact fun y => List.nodup_nil

/-- The walk outwards from any scope ends in the scope of the file. -/
theorem Bindings.WellFormed.rootScope_mem_scopeChain {b : Bindings} (h : b.WellFormed) (s : ScopeId)
    (hs : s < b.scopes.size) : Bindings.rootScope ∈ b.scopeChain s := by
  induction s using Nat.strongRecOn with
  | ind s ih =>
      rw [Bindings.scopeChain]
      cases hparent : (b.scope s).parent? with
      | none =>
          have hzero : s = 0 := by
            by_contra hne
            exact h.rooted s (Nat.pos_of_ne_zero hne) hs hparent
          exact List.mem_singleton.mpr hzero.symm
      | some t =>
          have hlt := h.parent_lt s t hparent
          simp only [hlt, if_true]
          exact List.mem_cons_of_mem _ (ih t hlt (Nat.lt_trans hlt hs))

/-- A file whose nodes have different numbers has well-formed bindings. -/
theorem SourceFile.wellFormed_bind (f : SourceFile) (hf : (numbers f.statements).Nodup) :
    f.bind.WellFormed := by
  have hrecords : Binder.Records 0 (numbers f.statements)
      (f.statements.forM (Binder.walkNode f.nodeCount)) Binder.Anything :=
    Binder.Records.walkNumbers (Binder.Records.walkNode f.nodeCount) f.statements
  exact (hrecords hf _ _ Bindings.wellFormed_root Nat.zero_lt_one (Nat.zero_le _)
    fun i _ y d hd => by cases hd).1.wellFormed

/-- The bindings of a parsed file are well formed: what they refer to exists, scopes lie in the
scope of the file, tables hold symbols under their names, and the node of a declaration leads to the
only symbol that has it. The walk that finds them stands after a scope where it stood before. -/
theorem wellFormed_bind_parseSource (fileName source : String) :
    let b := (parseSource fileName source).1.bind
    b.WellFormed ∧ (∀ s, s < b.scopes.size → Bindings.rootScope ∈ b.scopeChain s) ∧
      ∀ (fuel : Nat) (kind : ScopeKind) (node : NodeId) (statements : List Node) (s : Standpoint),
        ((s.enter kind node).run (statements.forM (Binder.walkNode fuel))).leave =
          s.run (Binder.inScope kind node (statements.forM (Binder.walkNode fuel))) := by
  have hwellFormed := SourceFile.wellFormed_bind (parseSource fileName source).1
    (Parse.nodup_numbers_file fileName source)
  refine ⟨hwellFormed, hwellFormed.rootScope_mem_scopeChain, ?_⟩
  intro fuel kind node statements s
  exact s.leave_run_enter kind node fun base =>
    .forM fun n _ => (Binder.isInvariant_later base).walkNode fuel n

end Erasure

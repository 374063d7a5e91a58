import Erasure.Proofs.Parse.Spans.Types

/-!
The spans of classes, primary expressions, arrow functions and operators. A name before an arrow
becomes the name of a parameter where it stands.
-/

namespace Erasure.Parse

variable {g : Grammar} [hg : Spanning g] {start : Nat} {passed : Bool} {held : List Node}

instance (isType : Bool) : Spans start false [] (heritage g isType) := by
  unfold heritage
  refine .pos fun start => .node fun n => ?_
  have hparts {source : String} {stop : Nat} (h : ∀ c ∈ [n], c.Lies source start stop) :=
    (List.forall_mem_singleton.mp h).splitInstantiation
  generalize n.splitInstantiation = parts at hparts ⊢
  obtain ⟨expression, inner⟩ := parts
  refine Spans.apart ?_ hparts
  refine .ite (fun _ => ?_) fun _ => .take fun typeArguments => ?_
  · exact .finish (expression :: inner.getD [])
  · exact .finish (expression :: typeArguments.getD [])

instance (isType : Bool) : Spans start false [] (heritageStep g isType) := by
  unfold heritageStep
  exact .node fun _ => .step fun _ => .pure

instance (isType : Bool) : Spans start false [] (heritageList g isType) :=
  inferInstanceAs (Spans start false [] (collect _))

theorem heritageClauseStep_spans (x : Option Node × List Node) :
    Spans start passed (nodes x) (heritageClauseStep g x) := by
  obtain ⟨base, interfaces⟩ := x
  unfold heritageClauseStep
  refine .step fun _ => .ite (fun _ => .take fun bases => ?_) fun _ => .step fun _ =>
    .ite (fun _ => .take fun more => .pure) fun _ => .pure
  cases base with
  | some base => exact .pure
  | none => cases bases <;> exact .pure

instance : Spans start false [] (heritageClauses g) := .loop (by simp) heritageClauseStep_spans

instance : Moves (propertyKey g) := .of_spans (fun _ => inferInstance) fun _ => List.cons_ne_nil _ _

instance (isAsync isGenerator bodyRequired : Bool) :
    Moves (functionRest g start isAsync isGenerator bodyRequired) := by
  have : Proceeds (typeParameters? g) := proceeds g
  have : Proceeds (returnType? g) := proceeds g
  have : Proceeds (functionBody? g isAsync isGenerator bodyRequired) := proceeds g
  unfold functionRest
  infer_instance

instance (bodyRequired : Bool) (getter setter : Node → Node → Form) :
    Moves (accessor g start bodyRequired getter setter) := by
  have : Proceeds (propertyKey g) := proceeds g
  have : Proceeds (functionRest g start false false bodyRequired) := proceeds g
  unfold accessor
  infer_instance

theorem accessor_spans (bodyRequired : Bool) {getter setter : Node → Node → Form}
    (hgetter : ∀ name func, (getter name func).directChildren = [name, func])
    (hsetter : ∀ name func, (setter name func).directChildren = [name, func]) :
    Spans start passed [] (accessor g start bodyRequired getter setter) := by
  unfold accessor
  refine .step fun isGet => .step fun _ => .node fun name => .node fun func => ?_
  cases isGet
  · exact .form [name, func] (by simp) (hsetter name func)
  · exact .form [name, func] (by simp) (hgetter name func)

instance : Spans start false [] (propertyInitializer? g) :=
  inferInstanceAs (Spans start false [] (withContext _ _))

theorem namedMember_spans (ms : Modifiers) : Spans start passed [] (namedMember g start ms) := by
  unfold namedMember
  refine .step fun isGenerator => .node fun name => .step fun isOptional => .step fun _ =>
    .ite (fun _ => ?_) fun _ => ?_
  · exact .node fun func => .form [name, func]
  · exact .step fun isDefinite => .take fun type => .take fun initializer => .step fun _ =>
      .form (name :: type.toList ++ initializer.toList)

theorem member?_spans (ms : Modifiers) : Spans start passed [] (member? g start ms) := by
  unfold member?
  refine .step fun _ => .ite (fun _ => ?_) fun _ => .step fun _ => .ite (fun _ => ?_) fun _ =>
    .step fun _ => .ite (fun _ => ?_) fun _ => .step fun _ => .ite (fun _ => ?_) fun _ => ?_
  · exact .step fun _ => .node fun body => .someForm [body]
  · exact .bind (accessor_spans false (fun _ _ => rfl) fun _ _ => rfl) fun m => .pure
  · exact .step fun _ => .node fun func => .someForm [func]
  · refine .take fun x => .step fun _ => ?_
    obtain ⟨ps, type⟩ := x
    exact .someForm (ps ++ type.toList)
  · exact .step fun _ => .step fun _ => .ite
      (fun _ => .bind (namedMember_spans ms) fun m => .pure) fun _ => .pure

instance (ms : Modifiers) : Moves (namedMember g start ms) := by
  have (isAsync isGenerator bodyRequired : Bool) :
      Proceeds (functionRest g start isAsync isGenerator bodyRequired) := proceeds g
  have : Proceeds (typeClause? g) := proceeds g
  have : Proceeds (propertyInitializer? g) := proceeds g
  unfold namedMember
  infer_instance

/-- If there is a member, a token was passed over. -/
theorem member?_moves (ms : Modifiers) (n : Nat) :
    Gives (fun a => n ≤ a.pos) (member? g start ms) fun m a => m.isSome = true → n ≤ a.prevEnd := by
  have hmove {p : Parse (Option Form)} (h : Moves p) :
      Gives (fun a => n ≤ a.pos) p fun m a => m.isSome = true → n ≤ a.prevEnd :=
    (h.gives n).imp fun _ _ ha _ => ha
  have : Proceeds (block g) := proceeds g
  have (isAsync isGenerator : Bool) :
      Proceeds (functionRest g start isAsync isGenerator false) := proceeds g
  unfold member?
  refine .step fun _ => .ite (fun _ => ?_) fun _ => .step fun _ => .ite (fun _ => ?_) fun _ =>
    .step fun _ => .ite (fun _ => ?_) fun _ => .step fun _ => .ite (fun _ => ?_) fun _ => ?_
  · exact hmove inferInstance
  · exact hmove inferInstance
  · exact hmove inferInstance
  · exact hmove inferInstance
  · exact .step fun _ => .step fun _ => .ite (fun _ => hmove inferInstance) fun _ =>
      .pure fun _ _ => nofun

/-- If something is found, a token was passed over. -/
theorem Spans.found {α β : Type} [Bearer α] [Bearer β] {p : Parse (Option α)}
    {f : Option α → Parse β} (hp : Spans start passed held p)
    (hmoves : ∀ n : Nat, Gives (fun a => n ≤ a.pos) p fun x a => x.isSome = true → n ≤ a.prevEnd)
    (hsome : ∀ x, Spans start true (held ++ nodes x) (f (some x)))
    (hnone : Spans start passed held (f none)) : Spans start passed held (p >>= f) where
  proceeds := .bind hp.proceeds (Option.rec hnone.proceeds fun x => (hsome x).proceeds)
  gives := .forget ((hp.gives.hold hp.proceeds).and (hmoves start).behind) fun x => by
    cases x with
    | none => exact hnone.gives.weaken fun _ ha => ha.1.1
    | some x =>
        refine (hsome x).gives.weaken fun _ ha => ⟨ha.2 rfl, ha.1.1.held.append ?_⟩
        simpa using ha.1.2

instance : Spans start false [] (classMember? g) := by
  unfold classMember?
  refine .pos fun start => .ifSign (.grow (.finish []) fun _ => .pure) (.take fun ds =>
    .step fun ms => .found ((member?_spans ms).weaken id (by simp)) (member?_moves ms)
      (fun m => ?_) ?_)
  · exact .grow (.finish (ds ++ m.directChildren)) fun _ => .pure
  · exact .error

instance : Spans start false [] (classMemberStep g) := by
  unfold classMemberStep
  refine .step fun _ => .ite (fun _ => .pure) fun _ => .step fun start => .take fun m => ?_
  exact .step fun _ => .ite (fun _ => .pure) fun _ => .step fun _ => .ite
    (fun _ => .step fun _ => .pure) fun _ => .pure

instance : Spans start false [] (classMembers g) := by
  unfold classMembers
  exact .step fun _ => .ite (fun _ => .pure) fun _ => .take fun members => .step fun _ => .pure

theorem classLike_spans (ds : List Node) (ms : Modifiers) :
    Spans start passed ds (classLike g start ds ms) := by
  unfold classLike
  refine .move fun _ => .step fun name => .take fun typeParameters =>
    .take fun ⟨base, interfaces⟩ =>
    .take fun members => ?_
  exact .finish (ds ++ typeParameters.getD [] ++ base.toList ++ interfaces ++ members)

theorem arrayLiteral_spans : Spans start passed [] (arrayLiteral g start) := by
  unfold arrayLiteral
  refine .move fun _ => .bind ?_ fun list => .step fun _ => .finish list.1
  exact (delimitedList_spans argument_fills).fresh.withContext _

theorem namedProperty_spans (isAsync : Bool) :
    Spans start passed [] (namedProperty g start isAsync) := by
  unfold namedProperty
  refine .step fun isGenerator => .step fun isName => .node fun name => .step fun _ =>
    .step fun _ =>
    .ite (fun _ => ?_) fun _ => .step fun _ => .ite (fun _ => ?_) fun _ => .step fun _ => ?_
  · exact .node fun func => .form [name, func]
  · split
    · exact .take fun initializer => .form initializer.toList
    · exact .form []
  · exact .node fun value => .form [name, value]

omit hg in
theorem namedProperty_plain (isAsync : Bool) :
    Results Form.Plain (namedProperty g start isAsync) := by
  unfold namedProperty
  refine .last fun _ => .last fun _ => .last fun name => .last fun _ => .last fun _ => .ite ?_ ?_
  · exact .last fun _ => .pure ⟨rfl, rfl, rfl⟩
  · refine .last fun _ => .ite ?_ (.last fun _ => .last fun _ => .pure ⟨rfl, rfl, rfl⟩)
    split
    · exact .last fun _ => .pure ⟨rfl, rfl, rfl⟩
    · exact .pure ⟨rfl, rfl, rfl⟩

omit hg in
theorem accessor_plain (bodyRequired : Bool) {getter setter : Node → Node → Form}
    (hgetter : ∀ name func, (getter name func).Plain)
    (hsetter : ∀ name func, (setter name func).Plain) :
    Results Form.Plain (accessor g start bodyRequired getter setter) := by
  unfold accessor
  refine .last fun isGet => .last fun _ => .last fun name => .last fun func => .pure ?_
  cases isGet
  · exact hsetter name func
  · exact hgetter name func

instance (isAsync : Bool) : Moves (namedProperty g start isAsync) where
  proceeds := proceeds g
  gives n := by
    have : Proceeds (initializer? g) := proceeds g
    have (isGenerator : Bool) : Proceeds (functionRest g start isAsync isGenerator true) :=
      proceeds g
    unfold namedProperty
    refine .step fun isGenerator => .step fun isName => .forget (Moves.gives n) fun name => ?_
    refine .forget (.passed n) fun _ => .forget (.passed n) fun _ => .ite (fun _ => .passed n)
      fun _ => ?_
    refine .forget (.passed n) fun _ => .ite (fun _ => ?_) fun _ => .passed n
    split <;> exact .passed n

instance : Spans start false [] (objectProperty g) := by
  have hproperty {p : Parse Form} (start : Nat) (h : Spans start false [] p) [Moves p]
      (hplain : Results Form.Plain p) :
      Spans start false [] (p >>= fun property => finish start property) :=
    have := h.proceeds
    .drawOn (.of_results hplain) fun property hplain =>
      .finish property.directChildren (by simp) hplain.pieces hplain.literal hplain.statements
  unfold objectProperty
  refine .pos fun start => .ifSign (.node fun operand => .finish [operand]) (.step fun ms =>
    .step fun _ => .ite (fun _ => ?_) fun _ => ?_)
  · refine hproperty start (accessor_spans true ?_ ?_) (accessor_plain true ?_ ?_)
    · exact fun _ _ => rfl
    · exact fun _ _ => rfl
    · exact fun _ _ => ⟨rfl, rfl, rfl⟩
    · exact fun _ _ => ⟨rfl, rfl, rfl⟩
  · exact hproperty start (namedProperty_spans _) (namedProperty_plain _)

theorem objectLiteral_spans : Spans start passed [] (objectLiteral g start) := by
  unfold objectLiteral
  refine .move fun _ => .bind ?_ fun list => .step fun _ => .finish list.1
  exact (delimitedList_spans (.of_spans fun _ => inferInstance)).fresh.withContext _

theorem functionExpression_spans : Spans start false [] (functionExpression g start) := by
  unfold functionExpression
  refine .step fun ms => .step fun _ => .step fun isGenerator => .step fun name =>
    .node fun func => ?_
  exact .finish [func]

theorem classExpression_spans : Spans start false [] (classExpression g start) := by
  unfold classExpression
  exact .take fun ds => .grow ((classLike_spans ds {}).weaken id (by simp)) fun cls => .finish [cls]

theorem newExpression_spans : Spans start false [] (newExpression g start) := by
  unfold newExpression
  refine .move fun _ => .step fun _ => .ite (fun _ => .step fun name => .finish []) fun _ => ?_
  show Spans start true [] ((do
    let calleeStart ← pos
    let operand ← g .primary
    memberChain g calleeStart false operand) >>= fun n => do
      let arguments ← when? (isToken .openParen) (argumentList g)
      finish start (.newExpr n.splitInstantiation.1 n.splitInstantiation.2 arguments))
  refine .grow (.pos fun calleeStart => .node fun operand => memberChain_spans false operand)
    fun n => ?_
  have hparts {source : String} {stop : Nat} (h : ∀ c ∈ [n], c.Lies source start stop) :=
    (List.forall_mem_singleton.mp h).splitInstantiation
  generalize n.splitInstantiation = parts at hparts ⊢
  refine Spans.apart (.take fun arguments => ?_) hparts
  exact .finish (parts.1 :: parts.2.getD [] ++ arguments.getD [])

theorem tokenNode_spans {form : Form} (hparts : form.pieces = [] := by exact rfl)
    (hliteral : form.literal? = none := by exact rfl)
    (hstatements : form.statements = [] := by exact rfl) :
    Spans start passed held (tokenNode start form) :=
  .move fun _ => .finish [] (by simp) hparts hliteral hstatements

theorem parenthesized_spans : Spans start false [] (parenthesized g start) := by
  unfold parenthesized
  exact .step fun _ => .node fun inner => .step fun _ => .finish [inner]

theorem nameExpression_spans : Spans start false [] (nameExpression start) := by
  unfold nameExpression
  exact .step fun _ => .ite (fun _ => .move fun name => .finish []) fun _ => .error

instance : Spans start false [] (primary g) := by
  unfold primary
  refine .begins fun start => .stay fun k => ?_
  split
  iterate 2
    exact .number (fun _ => ⟨rfl, rfl⟩) fun _ => rfl
  · exact .literal (fun _ _ => ⟨rfl, rfl⟩) fun _ _ => rfl
  iterate 2
    exact .of_spans inferInstance
  iterate 5
    exact .of_spans tokenNode_spans
  · exact .of_spans parenthesized_spans
  · exact .of_spans arrayLiteral_spans
  · exact .of_spans objectLiteral_spans
  · exact .stay fun _ => .ite (.of_spans functionExpression_spans) (.of_spans nameExpression_spans)
  · exact .of_spans functionExpression_spans
  iterate 2
    exact .of_spans classExpression_spans
  · exact .of_spans newExpression_spans
  iterate 2
    exact .rescanSlash (.number (fun _ => ⟨rfl, rfl⟩) fun _ => rfl)
  · exact .of_spans (.move fun name => .finish [])
  · exact .of_spans nameExpression_spans

instance (isAsync : Bool) : Spans start false [] (arrowBody g isAsync) := by
  unfold arrowBody
  exact .step fun _ => .step fun _ => .ite (fun _ => inferInstance) fun _ => inferInstance

instance (isCertain : Bool) : Spans start false [] (parenthesizedArrow? g isCertain) := by
  unfold parenthesizedArrow?
  refine .pos fun start => .step fun isAsync => .take fun typeParameters => .step fun _ =>
    .ite (fun _ => .pure) fun _ => .draw fun ps => .take fun returnType => .step fun _ =>
    .ite (fun _ => .pure) fun _ => .node fun body => ?_
  exact .grow (.finish (typeParameters.getD [] ++ ps ++ returnType.toList ++ [body])) fun _ => .pure

instance : Spans start false [] (speculativeArrow? g) := by
  have hread : Spans start false [] (do
      let errors ← errorCount
      let arrow ← parenthesizedArrow? g false
      return if (← errorCount) = errors then arrow else none) := by
    refine .step fun errors => .take fun arrow => .step fun after => .pure ?_
    split <;> simp
  exact inferInstanceAs (Spans start false [] (attempt _))

instance : Spans start false [] (arrowFunction? g) := by
  unfold arrowFunction?
  refine .step fun _ => .ite (fun _ => .pure) fun _ => .step fun evidence => ?_
  cases evidence
  · exact .pure
  · infer_instance
  · infer_instance

/-- The parameter stands where its name stands. -/
theorem bareArrow_spans (name : Node) (isAsync : Bool) :
    Spans start true [name] (bareArrow g start name isAsync) := by
  unfold bareArrow
  refine .step fun id => .node fun body => ?_
  let p : Parameter := ⟨[], {}, false, name, false, none, none⟩
  have hfinish : Spans start true ([⟨id, name.span, .parameter p⟩] ++ [body])
      (finish start (.arrowFunction ⟨isAsync, false, none, [⟨id, name.span, .parameter p⟩], none,
        some body⟩ true)) :=
    .finish ([⟨id, name.span, .parameter p⟩] ++ [body])
  refine hfinish.apart fun h => List.forall_mem_append.mpr ⟨?_, ?_⟩
  · exact List.forall_mem_singleton.mpr ((h name (by simp)).around rfl rfl rfl rfl)
  · exact List.forall_mem_singleton.mpr (h body (by simp))

instance : Spans start false [] (asyncBareArrow? g) := by
  unfold asyncBareArrow?
  refine .step fun _ => .ite (fun _ => .pure) fun _ => .pos fun start => .move fun _ =>
    .take fun name => .grow ?_ fun _ => .pure
  exact (bareArrow_spans name.toBinding true).weaken id (by simp)

theorem skipMarkup_spans : Spans start passed held (skipMarkup start) := by
  have : Proceeds (loop 0 markupStep) := inferInstance
  exact .error

theorem prefixOperation_spans {form : Node → Form}
    (hparts : ∀ operand, (form operand).pieces = [operand] := by exact fun _ => rfl)
    (hliteral : ∀ operand, (form operand).literal? = none := by exact fun _ => rfl)
    (hstatements : ∀ operand, (form operand).statements = [] := by exact fun _ => rfl) :
    Spans start false [] (prefixOperation g start form) := by
  unfold prefixOperation
  exact .move fun _ => .node fun operand =>
    .finish [operand] (by simp) (hparts _) (hliteral _) (hstatements _)

theorem typeAssertion_spans : Spans start false [] (typeAssertion g start) := by
  unfold typeAssertion
  exact .move fun _ => .node fun type => .step fun _ => .node fun operand => .finish [operand, type]

theorem postfixOperation_spans : Spans start false [] (postfixOperation g start) := by
  unfold postfixOperation
  refine .node fun operand => .step fun operator => .step fun _ => .ite (fun _ => ?_) fun _ => .pure
  exact .step fun _ => .finish [operand]

instance : Spans start false [] (unaryInner g) := by
  unfold unaryInner
  refine .pos fun start => .step fun operator => ?_
  split
  iterate 9
    exact prefixOperation_spans
  · exact .step fun _ => .ite (fun _ => prefixOperation_spans) fun _ => postfixOperation_spans
  · exact .step fun _ => .ite (fun _ => skipMarkup_spans) fun _ => typeAssertion_spans
  · exact postfixOperation_spans

instance : Spans start false [] (unary g) := inferInstanceAs (Spans start false [] (nested _ _))

theorem binaryStep_spans (left : Node) (operator : TokenKind) (level : Precedence) :
    Spans start true [left] (binaryStep g start left operator level) := by
  unfold binaryStep
  refine .step fun breakBefore => .step fun advanced => .step fun breakAfter => ?_
  refine .node fun right => ?_
  have hnode : Spans start true ([left] ++ [right])
      (binaryNode start left operator right breakBefore breakAfter) :=
    binaryNode_spans left operator right breakBefore breakAfter
  exact .ite (fun _ => .step fun leftChecked => .step fun rightChecked => hnode) fun _ => hnode

theorem assertionStep_spans (operand : Node) (operator : TokenKind) :
    Spans start true [operand] (assertionStep g start operand operator) := by
  unfold assertionStep
  refine .step fun _ => .node fun type => ?_
  split
  · exact .finish [operand, type]
  · exact .finish [operand, type]

theorem operationStep_spans (above : Precedence) (x : Node × Nat) :
    Spans start true (nodes x) (operationStep g start above x) := by
  obtain ⟨left, chain⟩ := x
  unfold operationStep
  refine .step fun level? => ?_
  cases level? with
  | none => exact .pure
  | some level =>
      refine .step fun _ => .ite (fun _ => .pure) fun _ => .step fun operator => .ite (fun _ => ?_)
        fun _ => ?_
      · refine .step fun _ => .ite (fun _ => .pure) fun _ => ?_
        exact .grow ((assertionStep_spans left operator).weaken id (by simp)) fun _ => .pure
      · exact .grow ((binaryStep_spans left operator level).weaken id (by simp)) fun _ => .pure

instance (above : Precedence) : Spans start false [] (binary g above) := by
  unfold binary binaryRest
  refine .pos fun start => .node fun n => .step fun _ => .bind ?_ fun ⟨_, _⟩ => .pure
  exact .loop (by simp) (operationStep_spans above)

theorem conditionalRest_spans (condition : Node) :
    Spans start true [condition] (conditionalRest g start condition) := by
  unfold conditionalRest
  refine .step fun beforeQuestion => .step fun isConditional => .ite (fun _ => .pure) fun _ => ?_
  refine .step fun afterQuestion => .node fun whenTrue => .step fun beforeColon => ?_
  refine .step fun required => .step fun afterColon => .node fun whenFalse => ?_
  exact .finish [condition, whenTrue, whenFalse]

theorem yieldExpression_spans : Spans start false [] (yieldExpression g start) := by
  unfold yieldExpression
  refine .move fun _ => .step fun _ => .ite (fun _ => ?_) fun _ => .finish []
  exact .step fun _ => .node fun operand => .finish [operand]

theorem assignmentRest_spans (target : Node) :
    Spans start true [target] (assignmentRest g start target) := by
  unfold assignmentRest
  refine .step fun operator => .step fun breakBefore => .step fun advanced => ?_
  exact .step fun breakAfter => .node fun value =>
    binaryNode_spans target operator value breakBefore breakAfter

/-- Before an arrow a name becomes the name of a parameter. -/
theorem operationRest_spans (first : Node) :
    Spans start true [first] (operationRest g start first) := by
  have hrest : Spans start true [first] (do
      if ← isAssignmentTo first then assignmentRest g start first
      else conditionalRest g start first) :=
    .step fun _ => .ite (fun _ => assignmentRest_spans first) fun _ => conditionalRest_spans first
  unfold operationRest
  refine .step fun _ => .ite (fun _ => ?_) fun _ => hrest
  split
  · refine (bareArrow_spans _ false).apart fun h => List.forall_mem_singleton.mpr ?_
    exact (h first (List.mem_singleton_self first)).relabel ⟨rfl, rfl⟩ rfl (by rintro _ ⟨⟩)
  · exact hrest

instance : Spans start false [] (assignmentInner g) := by
  unfold assignmentInner
  refine .pos fun start => .step fun _ => .step fun _ => .ite (fun _ => yieldExpression_spans)
    fun _ => .take fun arrow? => ?_
  split
  · exact .pure
  · refine .fresh (.take fun arrow? => ?_)
    split
    · exact .pure
    · exact .fresh (.node fun operation => operationRest_spans operation)

instance : Spans start false [] (assignment g) :=
    inferInstanceAs (Spans start false [] (nested _ _))

instance : Spans start false [] (variableDeclaration g) := by
  unfold variableDeclaration
  refine .pos fun start => .node fun name => .step fun isDefinite => .take fun type =>
    .take fun initializer => .step fun _ => ?_
  exact .finish (name :: type.toList ++ initializer.toList)

theorem variableStep_spans (rev : List Node) : Spans start passed rev (variableStep g rev) := by
  unfold variableStep
  refine .step fun _ => .ite (fun _ => .error) fun _ => .take fun declaration => .step fun found =>
    ?_
  cases found <;> exact .pure

instance : Moves variableKind where
  proceeds := inferInstance
  gives n := by
    unfold variableKind
    refine .step fun k => ?_
    split <;> exact Moves.gives n

instance : Spans start false [] (variableList g) := by
  unfold variableList
  refine .pos fun start => .move fun kind => .bind (.loop (by simp) fun rev => ?_) fun rev =>
    .finish rev.reverse
  exact (variableStep_spans rev).weaken id (by simp)

theorem variableStatement_spans (ms : Modifiers) :
    Spans start passed [] (variableStatement g start ms) := by
  unfold variableStatement
  exact .node fun list => .step fun _ => .step fun _ => .finish [list]

end Erasure.Parse

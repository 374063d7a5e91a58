import Erasure.Proofs.Parse.Numbering.Types

/-!
The numbers of classes, primary expressions, arrow functions and operators. A name before an arrow
becomes the name of a parameter and hands its number on; its node is given up.
-/

namespace Erasure.Parse

variable {g : Grammar} [hg : Numbering g]

instance (isType : Bool) : Draws [] (heritage g isType) := by
  unfold heritage
  refine .step fun start => .first fun n => ?_
  have hparts := n.count_splitInstantiation
  generalize n.splitInstantiation = parts at hparts ⊢
  obtain ⟨expression, inner⟩ := parts
  have hfinish (typeArguments : Option (List Node)) :
      Draws (marks expression ++ marks typeArguments)
        (finish start (.heritage isType expression typeArguments)) :=
    .finish fun _ => by simp [Form.directChildren]
  refine .weaken (.ite ?_ ?_) hparts
  · exact hfinish inner
  · exact .take fun typeArguments => (hfinish typeArguments).weaken fun _ => by simp

instance (isType : Bool) : Draws [] (heritageStep g isType) := by
  unfold heritageStep
  exact .first fun _ => .step fun _ => .pure fun _ => by simp

instance (isType : Bool) : Draws [] (heritageList g isType) :=
  inferInstanceAs (Draws [] (collect _))

theorem count_head? {α : Type} [Marked α] (xs : List α) (i : Mark) :
    (marks xs.head?).count i ≤ (marks xs).count i := by
  cases xs <;> simp

theorem count_or {α : Type} [Marked α] (x y : Option α) (i : Mark) :
    (marks (x.or y)).count i ≤ (marks x).count i + (marks y).count i := by
  cases x <;> simp

theorem heritageClauseStep_draws (state : Option Node × List Node) :
    Draws (marks state) (heritageClauseStep g state) := by
  obtain ⟨base, interfaces⟩ := state
  unfold heritageClauseStep
  refine .step fun isBase => .ite ?_ (.step fun isInterfaces => .ite ?_ (.pure fun _ => by simp))
  · refine .take fun bases => .pure fun i => ?_
    have hor := count_or base bases.head? i
    have hhead := count_head? bases i
    simp at hor hhead ⊢
    omega
  · exact .take fun more => .pure fun _ => by simp

instance : Draws [] (heritageClauses g) :=
  .loop (fun _ => by simp) heritageClauseStep_draws

theorem accessor_draws (start : Nat) (bodyRequired : Bool) {getter setter : Node → Node → Form}
    (hgetter : ∀ name func, marks (getter name func) = marks name ++ marks func)
    (hsetter : ∀ name func, marks (setter name func) = marks name ++ marks func) :
    Draws [] (accessor g start bodyRequired getter setter) := by
  unfold accessor
  refine .step fun isGet => .step fun _ => .first fun name => .take fun func => ?_
  cases isGet
  · exact .pure fun _ => by simp [hsetter]
  · exact .pure fun _ => by simp [hgetter]

instance : Draws [] (propertyInitializer? g) := inferInstanceAs (Draws [] (withContext _ _))

instance (start : Nat) (ms : Modifiers) : Draws [] (namedMember g start ms) := by
  unfold namedMember
  refine .step fun isGenerator => .first fun name => .step fun isOptional =>
    .step fun _ => .ite ?_ ?_
  · exact .take fun func => .pure fun _ => by simp [Form.directChildren]
  · refine .step fun isDefinite => .take fun type => .take fun initializer => .step fun _ =>
      .pure fun _ => ?_
    simp [Form.directChildren]

instance (start : Nat) (ms : Modifiers) : Draws [] (member? g start ms) := by
  unfold member?
  refine .step fun isBlock => .ite ?_ (.step fun isAccessor => .ite ?_ ?_)
  · exact .step fun advanced => .first fun body => .pure fun _ => by simp [Form.directChildren]
  · refine .spend (accessor_draws start false ?_ ?_) fun m => .pure fun _ => by simp
    · simp [Form.directChildren]
    · simp [Form.directChildren]
  refine .step fun isConstructor => .ite ?_ (.step fun isIndex => .ite ?_ ?_)
  · exact .step fun advanced => .first fun func => .pure fun _ => by simp [Form.directChildren]
  · refine .first fun ⟨parameters, type⟩ => .step fun ended => .pure fun _ => ?_
    simp [Form.directChildren]
  refine .step fun isGenerator => .step fun isKey => .ite ?_ (.pure fun _ => by simp)
  exact .first fun m => .pure fun _ => by simp

instance : Draws [] (classMember? g) := by
  unfold classMember?
  refine .step fun start => .step fun _ =>
    .ite ?_ (.first fun ds => .step fun ms => .take fun m? => ?_)
  · exact .spend (.finish fun _ => by simp [Form.directChildren]) fun _ => .pure fun _ => by simp
  · cases m? with
    | some m => exact .spend (.finish fun _ => by simp; omega) fun _ => .pure fun _ => by simp
    | none => exact .step fun _ => .pure fun _ => by simp

instance : Draws [] (classMemberStep g) := by
  unfold classMemberStep
  refine .step fun _ => .ite (.pure fun _ => by simp) (.step fun start => .first fun m => ?_)
  refine .step fun _ => .ite (.pure fun _ => by simp) (.step fun _ => ?_)
  exact .ite (.step fun _ => .pure fun _ => by simp) (.pure fun _ => by simp)

instance : Draws [] (classMembers g) := by
  unfold classMembers
  refine .step fun _ => .ite (.pure fun _ => by simp) ?_
  exact .first fun members => .step fun _ => .pure fun _ => by simp

theorem classLike_draws (start : Nat) (ds : List Node) (ms : Modifiers) :
    Draws (marks ds) (classLike g start ds ms) := by
  unfold classLike
  refine .step fun _ => .take fun name => .take fun typeParameters =>
    .take fun ⟨base, interfaces⟩ =>
    .take fun members => .finish fun _ => ?_
  simp [Form.directChildren, ClassLike.children]
  omega

instance (start : Nat) : Draws [] (arrayLiteral g start) := by
  unfold arrayLiteral
  refine .step fun _ => .first fun ⟨elements, layout⟩ => .step fun _ => .finish fun _ => ?_
  simp [Form.directChildren]

/-- A name that is a property without a value keeps the number of its key. -/
instance (start : Nat) (isAsync : Bool) : Draws [] (namedProperty g start isAsync) := by
  unfold namedProperty
  refine .step fun isGenerator => .step fun isName => .first fun name => .step fun question => ?_
  refine .step fun isMethod => .ite ?_ (.step fun hasValue => .ite ?_ (.step fun required => ?_))
  · exact .take fun func => .pure fun _ => by simp [Form.directChildren]
  · split
    · rename_i text hform
      refine .take fun initializer => .pure fun _ => ?_
      rw [name.marks_eq]
      simp [Form.directChildren, List.count_cons]
      omega
    · exact .pure fun _ => by simp [Form.directChildren]
  · exact .take fun value => .pure fun _ => by simp [Form.directChildren]

omit hg in
theorem namedProperty_noJump (start : Nat) (isAsync : Bool) :
    Results Form.NoJump (namedProperty g start isAsync) := by
  unfold namedProperty
  refine .last fun _ => .last fun _ => .last fun name => .last fun _ => .last fun _ => .ite ?_ ?_
  · exact .last fun _ => .pure fun _ => rfl
  · refine .last fun _ => .ite ?_ (.last fun _ => .last fun _ => .pure fun _ => rfl)
    split
    · exact .last fun _ => .pure fun _ => rfl
    · exact .pure fun _ => rfl

omit hg in
theorem accessor_noJump (start : Nat) (bodyRequired : Bool) {getter setter : Node → Node → Form}
    (hgetter : ∀ name func, (getter name func).NoJump)
    (hsetter : ∀ name func, (setter name func).NoJump) :
    Results Form.NoJump (accessor g start bodyRequired getter setter) := by
  unfold accessor
  refine .last fun isGet => .last fun _ => .last fun name => .last fun func => .pure ?_
  cases isGet
  · exact hsetter name func
  · exact hgetter name func

instance : Draws [] (objectProperty g) := by
  unfold objectProperty
  refine .step fun start => .step fun isSpread => .ite ?_ ?_
  · exact .first fun operand => .finish fun _ => by simp [Form.directChildren]
  refine .step fun ms => .step fun isAccessor => .ite ?_ ?_
  · refine .spendOn (accessor_draws start true ?_ ?_) (accessor_noJump start true ?_ ?_)
      fun property hjump => .finish (fun _ => Nat.le_refl _) hjump
    · simp [Form.directChildren]
    · simp [Form.directChildren]
    · exact fun _ _ _ => rfl
    · exact fun _ _ _ => rfl
  · exact .spendOn inferInstance (namedProperty_noJump start _) fun property hjump =>
      .finish (fun _ => Nat.le_refl _) hjump

instance (start : Nat) : Draws [] (objectLiteral g start) := by
  unfold objectLiteral
  refine .step fun _ => .first fun ⟨properties, layout⟩ => .step fun _ => .finish fun _ => ?_
  simp [Form.directChildren]

instance (start : Nat) : Draws [] (functionExpression g start) := by
  unfold functionExpression
  refine .step fun ms => .step fun _ => .step fun isGenerator => .first fun name =>
    .take fun func =>
    .finish fun _ => ?_
  simp [Form.directChildren]

instance (start : Nat) : Draws [] (classExpression g start) := by
  unfold classExpression
  refine .first fun ds => .spend (classLike_draws start ds {}) fun cls => .finish fun _ => ?_
  simp [Form.directChildren]

instance (start : Nat) : Draws [] (newExpression g start) := by
  unfold newExpression
  refine .step fun _ => .step fun _ => .ite ?_ (.step fun calleeStart => .first fun operand => ?_)
  · exact .first fun name => .finish fun _ => by simp [Form.directChildren]
  · refine .spend (memberChain_draws calleeStart false operand) fun n => ?_
    have hparts := n.count_splitInstantiation
    generalize n.splitInstantiation = parts at hparts ⊢
    obtain ⟨callee, typeArguments⟩ := parts
    refine .weaken (.take fun arguments => .finish fun _ => ?_) hparts
    simp [Form.directChildren]

theorem tokenNode_draws (start : Nat) {form : Form} (h : marks form = [])
    (hjump : form.NoJump := by exact fun _ => rfl) :
    Draws [] (tokenNode start form) :=
  .step fun _ => .finish (fun _ => by rw [h]) hjump

instance (start : Nat) : Draws [] (parenthesized g start) := by
  unfold parenthesized
  exact .step fun _ => .first fun inner => .step fun _ => .finish fun _ => by
    simp [Form.directChildren]

instance (start : Nat) : Draws [] (regularExpression start) := by
  unfold regularExpression
  exact .step fun _ => .step fun _ => tokenNode_draws start rfl

instance (start : Nat) : Draws [] (nameExpression start) := by
  unfold nameExpression
  refine .step fun _ => .ite ?_ (.step fun _ => inferInstance)
  exact .first fun name => .finish fun _ => by simp [Form.directChildren]

instance : Draws [] (primary g) := by
  unfold primary
  refine .step fun start => .step fun k => ?_
  split
  iterate 2
    exact .step fun _ => tokenNode_draws start rfl
  · exact .step fun _ => .step fun _ => tokenNode_draws start rfl
  iterate 2
    infer_instance
  iterate 5
    exact tokenNode_draws start rfl
  iterate 3
    infer_instance
  · exact .step fun _ => .ite inferInstance inferInstance
  iterate 6
    infer_instance
  · exact .first fun name => .finish fun _ => by simp [Form.directChildren]
  · infer_instance

instance (isAsync : Bool) : Draws [] (arrowBody g isAsync) := by
  unfold arrowBody
  exact .step fun _ => .step fun _ => .ite inferInstance inferInstance

instance (isCertain : Bool) : Draws [] (parenthesizedArrow? g isCertain) := by
  unfold parenthesizedArrow?
  refine .step fun start => .step fun isAsync => .first fun typeParameters => .step fun _ =>
    .ite (.pure fun _ => by simp) (.take fun ps => .take fun returnType => .step fun _ => ?_)
  refine .ite (.pure fun _ => by simp) (.take fun body => .spend (.finish fun _ => ?_) fun _ =>
    .pure fun _ => by simp)
  simp [Form.directChildren, FunctionLike.children]

instance : Draws [] (speculativeArrow? g) := by
  have hread : Draws [] (do
      let errors ← errorCount
      let arrow ← parenthesizedArrow? g false
      return if (← errorCount) = errors then arrow else none) := by
    refine .step fun errors => .first fun arrow => .step fun after => .pure fun _ => ?_
    split <;> simp
  exact inferInstanceAs (Draws [] (attempt _))

instance : Draws [] (arrowFunction? g) := by
  unfold arrowFunction?
  refine .step fun _ => .ite (.pure fun _ => by simp) (.step fun evidence => ?_)
  cases evidence
  · exact .pure fun _ => by simp
  · infer_instance
  · infer_instance

theorem bareArrow_draws (start : Nat) (name : Node) (isAsync : Bool) :
    Draws (marks name) (bareArrow g start name isAsync) := by
  unfold bareArrow
  refine .freshId fun id => .take fun body => .finish fun _ => ?_
  simp [Form.directChildren, Form.jumpMarks, FunctionLike.children, Parameter.children,
    List.count_cons]
  omega

instance : Draws [] (asyncBareArrow? g) := by
  unfold asyncBareArrow?
  refine .step fun _ => .ite (.pure fun _ => by simp) (.step fun start => .step fun _ =>
    .first fun name => ?_)
  refine .spend ((bareArrow_draws start name.toBinding true).weaken fun _ => ?_) fun _ =>
    .pure fun _ => by simp
  rw [marks_toBinding]
  exact Nat.le_refl _

instance (start : Nat) : Draws [] (skipMarkup start) := by
  unfold skipMarkup
  refine .step fun reported => .step fun advanced => .step fun depth => .finish fun _ => ?_
  simp [Form.directChildren]

theorem prefixOperation_draws (start : Nat) {form : Node → Form}
    (hform : ∀ operand, marks (form operand) = marks operand)
    (hjump : ∀ operand, (form operand).NoJump) : Draws [] (prefixOperation g start form) := by
  unfold prefixOperation
  exact .step fun _ => .first fun operand => .finish (fun _ => by simp [hform]) (hjump operand)

instance (start : Nat) : Draws [] (typeAssertion g start) := by
  unfold typeAssertion
  refine .step fun _ => .first fun type => .step fun _ => .take fun operand => .finish fun _ => ?_
  simp [Form.directChildren, Nat.add_comm]

instance (start : Nat) : Draws [] (postfixOperation g start) := by
  unfold postfixOperation
  refine .first fun operand => .step fun operator => .step fun _ => .ite ?_ (.pure fun _ => by simp)
  exact .step fun _ => .finish fun _ => by simp [Form.directChildren]

instance : Draws [] (unaryInner g) := by
  unfold unaryInner
  refine .step fun start => .step fun operator => ?_
  have hunary {form : Node → Form} (hform : ∀ operand, marks (form operand) = marks operand)
      (hjump : ∀ operand, (form operand).NoJump := by exact fun _ _ => rfl) :
      Draws [] (prefixOperation g start form) :=
    prefixOperation_draws start hform hjump
  split
  iterate 9
    exact hunary fun _ => by simp [Form.directChildren]
  · refine .step fun _ => .ite (hunary fun _ => ?_) inferInstance
    simp [Form.directChildren]
  · exact .step fun _ => .ite inferInstance inferInstance
  · infer_instance

instance : Draws [] (unary g) := inferInstanceAs (Draws [] (nested _ _))

theorem binaryStep_draws (start : Nat) (left : Node) (operator : TokenKind) (level : Precedence) :
    Draws (marks left) (binaryStep g start left operator level) := by
  unfold binaryStep
  refine .step fun breakBefore => .step fun advanced => .step fun breakAfter => ?_
  refine .take fun right => ?_
  have hnode := binaryNode_draws start left operator right breakBefore breakAfter
  exact .ite (.step fun leftChecked => .step fun rightChecked => hnode) hnode

theorem assertionStep_draws (start : Nat) (operand : Node) (operator : TokenKind) :
    Draws (marks operand) (assertionStep g start operand operator) := by
  unfold assertionStep
  refine .step fun _ => .take fun type => .finish (fun _ => ?_) ?_
  · split <;> simp [Form.directChildren]
  · split <;> exact fun _ => rfl

theorem operationStep_draws (start : Nat) (above : Precedence) (state : Node × Nat) :
    Draws (marks state) (operationStep g start above state) := by
  obtain ⟨left, chain⟩ := state
  unfold operationStep
  refine .step fun level? => ?_
  cases level? with
  | none => exact .pure fun _ => by simp
  | some level =>
      refine .step fun tooLong => .ite (.pure fun _ => by simp) ?_
      refine .step fun operator => .ite ?_ ?_
      · refine .step fun onNewLine => .ite (.pure fun _ => by simp) ?_
        refine .spend ?_ fun _ => .pure fun _ => by simp
        exact (assertionStep_draws start left operator).weaken fun _ => by simp
      · refine .spend ?_ fun _ => .pure fun _ => by simp
        exact (binaryStep_draws start left operator level).weaken fun _ => by simp

instance (above : Precedence) : Draws [] (binary g above) := by
  unfold binary binaryRest
  refine .step fun start => .first fun n => .step fun _ => .spend ?_ fun ⟨_, _⟩ =>
    .pure fun _ => by simp
  exact .loop (fun _ => by simp) (operationStep_draws start above)

theorem conditionalRest_draws (start : Nat) (condition : Node) :
    Draws (marks condition) (conditionalRest g start condition) := by
  unfold conditionalRest
  refine .step fun beforeQuestion => .step fun isConditional => .ite (.pure fun _ => by simp) ?_
  refine .step fun afterQuestion => .take fun whenTrue => .step fun beforeColon => ?_
  refine .step fun required => .step fun afterColon => .take fun whenFalse => .finish fun _ => ?_
  simp [Form.directChildren]

instance (start : Nat) : Draws [] (yieldExpression g start) := by
  unfold yieldExpression
  refine .step fun _ => .step fun _ => .ite ?_ (.finish fun _ => by simp [Form.directChildren])
  exact .step fun _ => .first fun operand => .finish fun _ => by simp [Form.directChildren]

theorem assignmentRest_draws (start : Nat) (target : Node) :
    Draws (marks target) (assignmentRest g start target) := by
  unfold assignmentRest
  refine .step fun operator => .step fun breakBefore => .step fun advanced => ?_
  exact .step fun breakAfter => .take fun value =>
    binaryNode_draws start target operator value breakBefore breakAfter

theorem operationRest_draws (start : Nat) (first : Node) :
    Draws (marks first) (operationRest g start first) := by
  have hrest : Draws (marks first) (do
      if ← isAssignmentTo first then assignmentRest g start first
      else conditionalRest g start first) :=
    .step fun _ => .ite (assignmentRest_draws start first) (conditionalRest_draws start first)
  unfold operationRest
  refine .step fun _ => .ite ?_ hrest
  split
  · refine (bareArrow_draws start _ false).weaken fun _ => ?_
    rw [first.marks_eq]
    simp [Form.directChildren, Form.jumpMarks, List.count_cons]
  · exact hrest

instance : Draws [] (assignmentInner g) := by
  unfold assignmentInner
  refine .step fun start => .step fun _ => .step fun _ =>
    .ite inferInstance (.first fun arrow? => ?_)
  split
  · exact .pure fun _ => by simp
  · refine .fresh (.first fun arrow? => ?_)
    split
    · exact .pure fun _ => by simp
    · exact .fresh (.first fun operation => operationRest_draws start operation)

instance : Draws [] (assignment g) := inferInstanceAs (Draws [] (nested _ _))

instance : Draws [] (variableDeclaration g) := by
  unfold variableDeclaration
  refine .step fun start => .first fun name => .step fun isDefinite => .take fun type =>
    .take fun initializer => .step fun _ => .finish fun _ => ?_
  simp [Form.directChildren]

theorem variableStep_draws (rev : List Node) : Draws (marks rev) (variableStep g rev) := by
  unfold variableStep
  refine .step fun _ => .ite (.step fun _ => .pure fun _ => by simp) ?_
  refine .take fun declaration => .step fun found => ?_
  cases found <;> exact .pure fun _ => by simp; omega

instance : Draws [] (variableList g) := by
  unfold variableList
  refine .step fun start => .step fun kind =>
    .spend (.loop (fun _ => Nat.le_refl _) variableStep_draws)
    fun rev => .finish fun _ => ?_
  simp [Form.directChildren]

instance (start : Nat) (ms : Modifiers) : Draws [] (variableStatement g start ms) := by
  unfold variableStatement
  exact .first fun list => .step fun _ => .step fun _ => .finish fun _ => by
    simp [Form.directChildren]

end Erasure.Parse

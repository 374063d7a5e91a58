import Erasure.Proofs.Parse.Numbering.Judgement

/-!
The numbers of lists, templates, member accesses, calls, statement lists, parameters and functions.
An expression with type arguments that becomes a call or a template is taken apart, so that its own
number is given up and those of its parts are handed on.
-/

namespace Erasure

theorem Node.count_splitInstantiation (n : Node) (i : Mark) :
    (marks n.splitInstantiation).count i ≤ (marks n).count i := by
  unfold Node.splitInstantiation
  split
  · rename_i operand typeArguments hform
    rw [n.marks_eq, hform]
    simp [Form.directChildren, Form.jumpMarks, List.count_cons]
  · simp

namespace Parse

instance : Marked OpenList := ⟨fun list => marks list.elementsRev⟩

instance : Marked ListLayout := ⟨fun _ => []⟩

@[simp]
theorem marks_openList (list : OpenList) : marks list = marks list.elementsRev := rfl

@[simp]
theorem marks_layout (layout : ListLayout) : marks layout = [] := rfl

section
variable {close : TokenKind} {missing : Message} {isStart : Parse Bool} {element : Parse Node}
  [Proceeds isStart] [Draws [] element]

theorem delimitedStep_draws (list : OpenList) :
    Draws (marks list) (delimitedStep close missing isStart element list) := by
  have hkeep (n : Node) (breaksRev : List Bool) (trailingComma : Bool) (i : Mark) :
      (marks (OpenList.mk (n :: list.elementsRev) breaksRev trailingComma)).count i ≤
        (marks list ++ marks n).count i := by
    simp
    omega
  -- The element goes in front of the list, whatever stands behind it.
  have hread : Draws (marks list) (do
      let start ← pos
      let breaksRev := (← afterLineBreak) :: list.breaksRev
      let elementsRev := (← element) :: list.elementsRev
      if ← accept .comma then
        return .yield { elementsRev, breaksRev, trailingComma := true }
      let list : OpenList := { elementsRev, breaksRev, trailingComma := false }
      if ← isToken close then return .done list
      require .comma
      if (← pos) = start then advance
      return .yield list : Parse (ForInStep OpenList)) := by
    refine .step fun start => .step fun breaks => .take fun n => .step fun hasComma => ?_
    refine .ite (.pure (hkeep n _ _)) (.step fun isClosed => ?_)
    refine .ite (.pure (hkeep n _ _)) (.step fun required => .step fun now => ?_)
    exact .ite (.step fun advanced => .pure (hkeep n _ _)) (.pure (hkeep n _ _))
  have hskip : Draws (marks list) (do
      errorHere missing []
      if endsList (← token) then return .done list
      advance
      return .yield list : Parse (ForInStep OpenList)) := by
    refine .step fun reported => .step fun k => .ite (.pure fun i => ?_) (.step fun advanced => ?_)
    · simp
    · exact .pure fun i => by simp
  unfold delimitedStep
  refine .step fun isClosed => .ite (.pure fun i => by simp) (.step fun starts => ?_)
  exact .ite hread hskip

instance : Draws [] (delimitedList close missing isStart element) := by
  have hlist : Draws [] (loop ({} : OpenList) (delimitedStep close missing isStart element)) :=
    .loop (fun i => by simp) delimitedStep_draws
  unfold delimitedList
  refine .spend hlist fun list => .step fun isClosed => ?_
  exact .step fun breakBeforeClose => .pure fun i => by simp

end

variable {g : Grammar} [hg : Numbering g]

theorem binaryNode_draws (start : Nat) (left : Node) (operator : TokenKind) (right : Node)
    (breakBefore breakAfter : Bool) : Draws (marks left ++ marks right)
      (binaryNode start left operator right breakBefore breakAfter) :=
  .finish fun _ => by simp [Form.directChildren]

theorem commaStep_draws (start : Nat) (state : Node × Nat) :
    Draws (marks state) (commaStep g start state) := by
  obtain ⟨left, chain⟩ := state
  have hstop : Draws (marks (left, chain)) (pure (ForInStep.done (left, chain))) :=
    .pure fun i => by simp
  -- Both operands are in the node that is made of them.
  have hnode (right : Node) (breakBefore breakAfter : Bool) :
      Draws (marks (left, chain) ++ marks right) (do
        return ForInStep.yield
          (← binaryNode start left .comma right breakBefore breakAfter, chain + 1)) := by
    have hbinary := binaryNode_draws start left .comma right breakBefore breakAfter
    refine .spend (hbinary.weaken fun i => ?_) fun n => .pure fun i => ?_
    · simp
    · simp
  unfold commaStep
  refine .step fun isComma => .ite hstop (.step fun tooLong => .ite hstop ?_)
  refine .step fun breakBefore => .step fun advanced => .step fun breakAfter => ?_
  exact .take fun right => hnode right breakBefore breakAfter

instance : Draws [] (expression g) := by
  have hloop (start : Nat) (first : Node) : Draws (marks first) (do
      let (result, _) ← loop (first, 1) (commaStep g start)
      return result) := by
    refine .spend (.loop (fun i => ?_) (commaStep_draws start)) fun ⟨result, chain⟩ => ?_
    · simp
    · exact .pure fun i => by simp
  unfold expression
  exact .withContext _ (.step fun start => .first fun first => hloop start first)

instance : Draws [] (expressionAllowIn g) := inferInstanceAs (Draws [] (allowIn _))

instance : Draws [] (templateStep g) := by
  unfold templateStep
  refine .step fun _ => .first fun substitution => .step fun ⟨literal, isTail⟩ => ?_
  exact .spend (.finish fun _ => by simp [Form.directChildren]) fun _ => .pure fun _ => by simp

instance : Draws [] (template g) := by
  unfold template
  refine .step fun start => .step fun isWhole => .ite ?_ ?_
  · refine .step fun raw => .step fun value => .step fun advanced => .finish fun _ => ?_
    simp [Form.directChildren]
  · refine .step fun head => .step fun advanced => .first fun spans => .finish fun _ => ?_
    simp [Form.directChildren]

instance : Draws [] (argument g) := by
  unfold argument
  refine .step fun _ => .step fun _ => .ite ?_ (.step fun _ => .ite ?_ inferInstance)
  · exact .first fun _ => .finish fun _ => by simp [Form.directChildren]
  · exact .finish fun _ => by simp [Form.directChildren]

instance : Draws [] (argumentList g) := by
  unfold argumentList
  exact .step fun _ => .first fun ⟨arguments, _⟩ => .step fun _ => .pure fun _ => by simp

instance : Draws [] (typeArgumentStep g) := by
  unfold typeArgumentStep
  exact .first fun _ => .step fun _ => .pure fun _ => by simp

instance : Draws [] (expressionTypeArguments? g) := by
  have hread : Draws [] (do
      let errors ← errorCount
      advance
      let types ← collect (typeArgumentStep g)
      if (← errorCount) ≠ errors then return none
      if !(← accept .greaterThan) then return none
      return if ← canFollowTypeArguments then some types else none) := by
    refine .step fun errors => .step fun _ => .first fun types => .step fun _ =>
      .ite (.pure fun _ => by simp) ?_
    refine .step fun _ => .ite (.pure fun _ => by simp) (.step fun follows => ?_)
    cases follows <;> exact .pure fun _ => by simp
  unfold expressionTypeArguments?
  exact .step fun _ => .ite (.pure fun _ => by simp) inferInstance

theorem chainStep_draws {step : Node → Parse (ForInStep Node)}
    (hstep : ∀ n, Draws (marks n) (step n)) (state : Node × Nat) :
    Draws (marks state) (chainStep step state) := by
  obtain ⟨target, chain⟩ := state
  unfold chainStep
  refine .step fun _ => .ite (.pure fun _ => by simp) ?_
  refine .spend ((hstep target).weaken fun _ => by simp) fun r => ?_
  cases r <;> exact .pure fun _ => by simp

/-- A chain from its first part on. -/
theorem chain_draws {step : Node → Parse (ForInStep Node)}
    (hstep : ∀ n, Draws (marks n) (step n)) (first : Node) :
    Draws (marks first) (do
      let (result, _) ← loop (first, 1) (chainStep step)
      return result) :=
  .spend (.loop (fun _ => by simp) (chainStep_draws hstep)) fun ⟨_, _⟩ => .pure fun _ => by simp

instance : Draws [] memberName := by
  unfold memberName
  refine .step fun _ => .ite (.first fun _ => .pure fun _ => by simp) ?_
  refine .step fun _ => .step fun _ => .ite (.step fun _ => .ite ?_ ?_) ?_
  · exact .step fun _ => .first fun _ => .pure fun _ => by simp
  · exact .first fun _ => .pure fun _ => by simp
  · exact .first fun _ => .pure fun _ => by simp

theorem taggedTemplate_draws (start : Nat) (tag : Node) (typeArguments : Option (List Node)) :
    Draws (marks tag ++ marks typeArguments) (taggedTemplate g start tag typeArguments) := by
  unfold taggedTemplate
  exact .take fun _ => .finish fun _ => by simp [Form.directChildren]

theorem elementAccess_draws (start : Nat) (target : Node) (isOptional : Bool) :
    Draws (marks target) (elementAccess g start target isOptional) := by
  have hrest (index : Node) : Draws (marks target ++ marks index) (do
      require .closeBracket
      finish start (.elementAccess target index isOptional)) :=
    .step fun _ => .finish fun _ => by simp [Form.directChildren]
  unfold elementAccess
  refine .step fun _ => .ite ?_ (.take hrest)
  exact .step fun _ => .take hrest

/-- A node with which a chain goes on. -/
theorem grow_draws {held : List Mark} {p : Parse Node} (h : Draws held p) :
    Draws held (do return ForInStep.yield (← p)) :=
  .spend h fun _ => .pure fun _ => by simp

theorem postfixChain_draws (start : Nat) (target : Node) :
    Draws (marks target) (postfixChain g start target) := by
  unfold postfixChain
  refine .step fun _ => .step fun _ => .ite ?_ ?_
  · exact .step fun _ => grow_draws (.finish fun _ => by simp [Form.directChildren])
  · unfold instantiationStep
    refine .take fun types? => ?_
    cases types? with
    | none => exact .pure fun _ => by simp
    | some types => exact grow_draws (.finish fun _ => by simp [Form.directChildren])

/-- What a call or a template is made of: in an optional chain an expression is not taken apart. -/
theorem count_calleeParts (isOptional : Bool) (n : Node) (typeArguments : Option (List Node))
    (i : Mark) :
    (marks (if isOptional then (n, typeArguments) else n.splitInstantiation)).count i ≤
      (marks n ++ marks typeArguments).count i := by
  have hsplit := n.count_splitInstantiation i
  split
  · simp
  · rw [List.count_append]
    omega

theorem elementStep_draws (start : Nat) (isOptional : Bool) (target : Node) :
    Draws (marks target) (elementStep g start isOptional target) := by
  have hquasi : Draws (marks target) (quasiStep g start isOptional target) := by
    unfold quasiStep
    refine .step fun _ => .ite ?_ (.ite (.pure fun _ => by simp) (postfixChain_draws start target))
    have hparts := count_calleeParts isOptional target none
    exact (grow_draws (taggedTemplate_draws start _ _)).weaken fun i =>
      (hparts i).trans (by simp)
  unfold elementStep
  refine .step fun _ => .ite (.step fun _ => .ite ?_ hquasi) hquasi
  exact grow_draws (elementAccess_draws start target isOptional)

theorem memberStep_draws (start : Nat) (allowOptional : Bool) (target : Node) :
    Draws (marks target) (memberStep g start allowOptional target) := by
  unfold memberStep
  refine .step fun _ => .step fun isOptional => .step fun _ => .ite (.take fun name => ?_) ?_
  · refine grow_draws (.finish fun _ => ?_)
    simp [Form.directChildren, List.count_cons]
  · exact elementStep_draws start isOptional target

theorem memberChain_draws (start : Nat) (allowOptional : Bool) (first : Node) :
    Draws (marks first) (memberChain g start allowOptional first) :=
  chain_draws (memberStep_draws start allowOptional) first

theorem callRest_draws (start : Nat) (isOptional : Bool) (callee : Node)
    (typeArguments : Option (List Node)) :
    Draws (marks callee ++ marks typeArguments)
      (callRest g start isOptional callee typeArguments) := by
  have hcall (callee : Node) (types : Option (List Node)) :
      Draws (marks callee ++ marks types) (do
        let arguments ← argumentList g
        return ForInStep.yield (← finish start (.call callee types arguments isOptional))) := by
    refine .take fun arguments => grow_draws (.finish fun _ => ?_)
    simp [Form.directChildren]
  unfold callRest
  refine .step fun _ => .ite (grow_draws (taggedTemplate_draws start callee typeArguments)) ?_
  refine .step fun _ =>
    .ite ((hcall _ _).weaken (count_calleeParts isOptional callee typeArguments)) ?_
  refine .ite (.step fun _ => .take fun name => ?_) (.pure fun _ => by simp)
  refine .spend (.finish fun _ => ?_) fun _ => .pure fun _ => by simp
  simp [Form.directChildren, List.count_cons]

theorem callStep_draws (start : Nat) (callee : Node) :
    Draws (marks callee) (callStep g start callee) := by
  unfold callStep
  refine .spend (memberChain_draws start true callee) fun callee => .step fun _ => .ite ?_ ?_
  · exact .take fun typeArguments => callRest_draws start true callee typeArguments
  · exact (callRest_draws start false callee none).weaken fun _ => by simp

theorem callChain_draws (start : Nat) (first : Node) :
    Draws (marks first) (callChain g start first) :=
  chain_draws (callStep_draws start) first

instance : Draws [] (leftHandSide g) := by
  have hchain (start : Nat) (operand : Node) : Draws (marks operand) (do
      callChain g start (← memberChain g start true operand)) :=
    .spend (memberChain_draws start true operand) (callChain_draws start)
  unfold leftHandSide
  refine .step fun start => .step fun _ => .ite ?_ (.step fun _ => .ite ?_ (.first (hchain start)))
  · refine .step fun _ => .ite (.step fun _ => ?_) ?_
    · exact .spend (.finish fun _ => by simp [Form.directChildren]) (callChain_draws start)
    · exact .spend (.finish fun _ => by simp [Form.directChildren]) (callChain_draws start)
  · exact .spend (.finish fun _ => by simp [Form.directChildren]) (hchain start)

instance : Draws [] (decoratorStep g) := by
  unfold decoratorStep
  refine .step fun start => .step fun _ =>
    .ite (.first fun expression => ?_) (.pure fun _ => by simp)
  exact .spend (.finish fun _ => by simp [Form.directChildren]) fun _ => .pure fun _ => by simp

instance : Draws [] (decorators g) := inferInstanceAs (Draws [] (collect _))

instance (isEnd : TokenKind → Bool) : Draws [] (statementStep g isEnd) := by
  unfold statementStep
  refine .step fun k => .ite (.pure fun _ => by simp) (.step fun _ => .ite ?_ ?_)
  · refine .step fun start => .first fun statement => .step fun _ => .step fun _ => ?_
    exact .ite (.step fun _ => .pure fun _ => by simp) (.pure fun _ => by simp)
  · exact .step fun _ => .step fun _ => .pure fun _ => by simp

instance (isEnd : TokenKind → Bool) : Draws [] (statementList g isEnd) :=
  inferInstanceAs (Draws [] (collect _))

instance : Draws [] (block g) := by
  unfold block
  refine .step fun start => .step fun _ => .ite ?_ ?_
  · exact .freshId fun _ => .pure fun _ => by simp [Form.directChildren, Form.jumpMarks]
  · refine .step fun _ => .first fun statements => .step fun _ => .step fun _ => .step fun _ => ?_
    exact .finish fun _ => by simp [Form.directChildren]

instance : Draws [] (typeParameter g) := by
  unfold typeParameter
  refine .step fun start => .step fun ms => .first fun name => .take fun bound =>
    .take fun fallback => .finish fun _ => ?_
  simp [Form.directChildren, List.count_cons]

section
variable {element : Parse Node} [Draws [] element]

instance : Draws [] (angleStep element) := by
  unfold angleStep
  refine .step fun _ => .ite (.pure fun _ => by simp) ?_
  exact .first fun n => .step fun _ => .pure fun _ => by simp

instance : Draws [] (angleList? element) := by
  unfold angleList?
  refine .step fun _ => .ite (.pure fun _ => by simp) ?_
  exact .first fun elements => .step fun _ => .pure fun _ => by simp

end

instance : Draws [] (typeParameters? g) := inferInstanceAs (Draws [] (angleList? _))

instance : Draws [] (typeArguments? g) := inferInstanceAs (Draws [] (angleList? _))

instance : Draws [] (typeArgumentsOnLine? g) := by
  unfold typeArgumentsOnLine?
  exact .step fun _ => .ite (.pure fun _ => by simp) inferInstance

instance : Marked ParameterNotes := ⟨fun _ => []⟩

@[simp]
theorem marks_parameterNotes (notes : ParameterNotes) : marks notes = [] := rfl

instance (notes : ParameterNotes) : Draws [] (parameter g notes) := by
  unfold parameter
  refine .step fun start => .first fun ds => .step fun _ => .ite ?_ ?_
  · refine .take fun name => .take fun type => .spend (.finish fun _ => ?_) fun _ =>
      .pure fun _ => by simp
    simp [Form.directChildren, Parameter.children, marks_toBinding, List.count_cons]
  · refine .step fun ms => .step fun restStart => .step fun isRest =>
      .take fun name => .step fun _ =>
      .step fun isOptional => .take fun type => .take fun initializer => .step fun _ => ?_
    refine .spend (.finish fun _ => ?_) fun _ => .pure fun _ => by simp
    simp [Form.directChildren, Parameter.children]

theorem parameterStep_draws (state : List Node × ParameterNotes) :
    Draws (marks state) (parameterStep g state) := by
  obtain ⟨rev, notes⟩ := state
  unfold parameterStep
  refine .step fun _ => .ite (.pure fun _ => by simp) (.step fun _ => .ite ?_ ?_)
  · refine .step fun _ => .step fun _ => .ite (.pure fun _ => by simp) ?_
    exact .step fun _ => .pure fun _ => by simp
  · have hkeep (p : Node) (notes' : ParameterNotes) (i : Mark) :
        (marks (p :: rev, notes')).count i ≤
          (marks (rev, notes) ++ marks (p, notes')).count i := by
      simp
      omega
    refine .step fun _ => .take fun read => ?_
    obtain ⟨p, notes'⟩ := read
    refine .step fun _ => .ite (.pure (hkeep p notes')) ?_
    refine .step fun _ => .ite (.pure (hkeep p notes')) (.step fun _ => .step fun starts => ?_)
    cases starts <;> exact .pure (hkeep p notes')

instance : Draws [] (parameterList g) := by
  unfold parameterList
  exact .spend (.loop (fun _ => by simp) parameterStep_draws) fun ⟨rev, notes⟩ =>
    .pure fun _ => by simp

instance (isAsync isGenerator : Bool) : Draws [] (parameters g isAsync isGenerator) := by
  unfold parameters
  refine .step fun _ => .ite (.pure fun _ => by simp) ?_
  exact .first fun ps => .step fun _ => .pure fun _ => by simp

instance : Draws [] (typeOrPredicate g) := by
  unfold typeOrPredicate
  refine .step fun start => .step fun _ => .ite ?_ (.step fun _ => .ite ?_ inferInstance)
  · refine .step fun _ => .first fun name => .take fun type => .finish fun _ => ?_
    simp [Form.directChildren]
  · refine .first fun name => .step fun _ => .take fun type => .finish fun _ => ?_
    simp [Form.directChildren]

instance : Draws [] (returnType? g) := inferInstanceAs (Draws [] (after? _ _))

instance (isAsync isGenerator : Bool) : Draws [] (functionBody g isAsync isGenerator) :=
  inferInstanceAs (Draws [] (withContext _ _))

instance (isAsync isGenerator bodyRequired : Bool) :
    Draws [] (functionBody? g isAsync isGenerator bodyRequired) := by
  unfold functionBody?
  refine .step fun _ =>
    .ite (.step fun _ => .pure fun _ => by simp) (.step fun _ => .step fun _ => ?_)
  refine .ite (.step fun _ => ?_) ?_
  · exact .first fun _ => .pure fun _ => by simp
  · exact .first fun _ => .pure fun _ => by simp

instance (start : Nat) (isAsync isGenerator bodyRequired : Bool) :
    Draws [] (functionRest g start isAsync isGenerator bodyRequired) := by
  unfold functionRest
  refine .first fun typeParameters => .take fun ps => .take fun returnType => .take fun body =>
    .finish fun _ => ?_
  simp [Form.directChildren, FunctionLike.children]

end Parse
end Erasure

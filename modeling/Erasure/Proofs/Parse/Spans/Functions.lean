import Erasure.Proofs.Parse.Spans.Judgement

/-!
The spans of lists, templates, member accesses, calls, statement lists, parameters and functions. An
expression with type arguments that becomes a call or a template is taken apart, and its pieces
stand where it stood.
-/

namespace Erasure

/-- The pieces of an expression with type arguments stand where it stands. -/
theorem Node.Lies.splitInstantiation {source : String} {start stop : Nat} {n : Node}
    (h : n.Lies source start stop) :
    ∀ c ∈ n.splitInstantiation.1 :: n.splitInstantiation.2.getD [], c.Lies source start stop := by
  unfold Node.splitInstantiation
  split
  · rename_i operand typeArguments hform
    intro c hc
    refine h.part ?_
    rw [hform]
    exact hc
  · exact List.forall_mem_singleton.mpr h

namespace Parse

variable {start : Nat} {passed : Bool} {held : List Node}

/-- A node that spans what is read, or one without width before a comma. -/
def filled (start : Nat) (n : Node) (a : Place) : Prop :=
  Held start [n] a ∨ a.scanner.token = .comma ∧ n.Lies a.scanner.source start a.pos

/-- A parser of the elements of a list, which can be left out. -/
structure Fills (p : Parse Node) : Prop where
  proceeds : Proceeds p
  gives : ∀ start, Gives (fun a => a.pos = start) p (filled start)

theorem Fills.of_spans {p : Parse Node} (h : ∀ start, Spans start false [] p) : Fills p :=
  ⟨(h 0).proceeds, fun start => ((Begins.of_spans (h start)).gives.imp fun _ _ => .inl)⟩

section
variable {α : Type} [Bearer α] {element : Parse Node} {p q : Node → Parse α}

/-- With the comma behind it an element that is left out lies before the last token passed over. -/
theorem accept_filled (n : Node) :
    Gives (fun a => Known start passed held a ∧ filled start n a) (accept .comma) fun _ a =>
      Known start true (held ++ [n]) a := by
  intro s hr hs
  have hf := (inferInstance : Proceeds (accept .comma)).follows s hr
  have hle := (inferInstance : Proceeds (accept .comma)).prevEnd_le s hr
  refine ⟨hf, fun hq => ?_⟩
  obtain ⟨hknown, hfilled⟩ := hs (hf.quiet hq)
  have hheld : Held start [n] (accept .comma s).2.place := by
    obtain hn | ⟨hcomma, hn⟩ := hfilled
    · exact (Known.mono ⟨hn.since, hn⟩ hf hle).held
    · have hstop : s.place.pos ≤ (accept .comma s).2.prevEnd := by
        rw [accept_of_eq hcomma]
        exact hr.scanner.start_le_stop
      refine List.forall_mem_singleton.mpr ?_
      show n.Lies (accept .comma s).2.scanner.source start _
      rw [hf.grows.source]
      exact hn.mono le_rfl hstop
  exact ⟨hheld.since, (hknown.mono hf hle).held.append hheld⟩

theorem Fills.accept (h : Fills element) (hp : ∀ n, Spans start true (held ++ [n]) (p n))
    (hq : ∀ n, Spans start true (held ++ [n]) (q n)) :
    Spans start passed held
      (element >>= fun n => accept .comma >>= fun found => if found = true then p n else q n) where
  proceeds := .bind h.proceeds fun n => .bind inferInstance fun _ => by
    have := (hp n).proceeds
    have := (hq n).proceeds
    infer_instance
  gives := by
    have helement : Gives (Known start passed held) element (filled start) := by
      intro s hr hs
      obtain ⟨hf, hfilled⟩ := h.gives s.place.pos s hr fun _ => rfl
      refine ⟨hf, fun hquiet => ?_⟩
      have hle := (hs (hf.quiet hquiet)).pos_le hr
      exact (hfilled hquiet).imp (fun hn m hm => (hn m hm).mono hle le_rfl)
        fun hn => ⟨hn.1, hn.2.mono hle le_rfl⟩
    refine .forget (helement.hold h.proceeds) fun n => .forget (accept_filled n) fun found => ?_
    exact .ite (fun _ => (hp n).gives) fun _ => (hq n).gives

end

theorem delimitedStep_spans {close : TokenKind} {missing : Message} {isStart : Parse Bool}
    {element : Parse Node} [Stays isStart] (h : Fills element) (list : OpenList) :
    Spans start passed (nodes list) (delimitedStep close missing isStart element list) := by
  have := h.proceeds
  unfold delimitedStep
  refine .step fun _ => .ite (fun _ => .pure) fun _ => .step fun _ => .ite (fun _ => ?_) fun _ =>
    .error
  refine .step fun _ => .step fun _ => h.accept (fun n => .pure) fun n => ?_
  refine .step fun _ => .ite (fun _ => .pure) fun _ => .step fun _ => .step fun _ => ?_
  exact .ite (fun _ => .step fun _ => .pure) fun _ => .pure

theorem delimitedList_spans {close : TokenKind} {missing : Message} {isStart : Parse Bool}
    {element : Parse Node} [Stays isStart] (h : Fills element) :
    Spans start false [] (delimitedList close missing isStart element) := by
  have : Advances (delimitedStep close missing isStart element) := advances_delimitedStep h.proceeds
  unfold delimitedList
  exact .bind (.loop (by simp) (delimitedStep_spans h)) fun list => .step fun _ => .step fun _ =>
    .pure

variable {g : Grammar} [hg : Spanning g]

theorem binaryNode_spans (left : Node) (operator : TokenKind) (right : Node)
    (breakBefore breakAfter : Bool) :
    Spans start true [left, right] (binaryNode start left operator right breakBefore breakAfter) :=
  .finish [left, right]

theorem commaStep_spans (x : Node × Nat) :
    Spans start true (nodes x) (commaStep g start x) := by
  obtain ⟨left, chain⟩ := x
  unfold commaStep
  refine .step fun isComma => .ite (fun _ => .pure) fun _ => ?_
  refine .step fun tooLong => .ite (fun _ => .pure) fun _ => ?_
  refine .step fun breakBefore => .step fun advanced => .step fun breakAfter => ?_
  refine .node fun right => ?_
  exact .grow (.finish [left, right]) fun n => .pure

instance : Spans start false [] (expression g) := by
  unfold expression
  refine .withContext _ (.pos fun start => .node fun first => .bind ?_ fun ⟨_, _⟩ => .pure)
  exact .loop (by simp) commaStep_spans

instance : Spans start false [] (expressionAllowIn g) :=
  inferInstanceAs (Spans start false [] (allowIn _))

instance : Spans start false [] (templateStep g) := by
  unfold templateStep
  refine .pos fun start => .node fun substitution => .step fun ⟨literal, isTail⟩ => ?_
  exact .grow (.finish [substitution]) fun _ => .pure

instance : Spans start false [] (template g) := by
  unfold template
  refine .begins fun start => .stay fun _ => .ite ?_ (.of_spans ?_)
  · exact .literal (fun _ _ => ⟨rfl, rfl⟩) fun _ _ => rfl
  · exact .step fun _ => .move fun _ => .take fun spans => .finish spans

theorem argument_fills : Fills (argument g) where
  proceeds := proceeds g
  gives start := by
    have hspread : Spans start true [] (g .assignment >>= fun operand =>
        finish start (.spread operand)) :=
      .node fun operand => .finish [operand]
    have := hspread.proceeds
    unfold argument
    refine .at (.forget (.accept fun _ ha => ha.ge) fun found => ?_)
    cases found with
    | true =>
        refine .ite (fun _ => ?_) (absurd rfl)
        exact (hspread.gives.weaken fun _ ha => ⟨ha, nofun⟩).imp fun _ _ => .inl
    | false =>
        refine .ite (absurd · Bool.false_ne_true) fun _ =>
          .weaken (K := fun a => a.pos = start) ?_ fun _ ha => ha
        refine .ask (R := fun found a => found = true → a.scanner.token = .comma)
          (fun _ _ => token_of_isToken) fun _ => .ite (fun hcomma s hr hs => ?_) fun _ => ?_
        · -- What is left out ends where it starts, at the comma.
          refine ⟨(Proceeds.finish _ _).follows s hr, fun hq => .inr ?_⟩
          obtain ⟨hpos, htoken⟩ := hs ⟨hq.1, hq.2, hq.3⟩
          have hstop : max s.prevEnd start = start := max_eq_right (hpos ▸ hr.prevEnd_le)
          exact ⟨htoken hcomma, .of_leaf ⟨rfl, rfl⟩ (le_max_right _ _) (by rintro _ ⟨⟩), le_rfl,
            (hstop.trans hpos.symm).le⟩
        · exact ((Begins.of_spans inferInstance).gives.weaken fun _ ha => ha.1).imp fun _ _ => .inl

instance : Spans start false [] (argumentList g) := by
  unfold argumentList
  refine .move fun _ => .bind ?_ fun ⟨arguments, _⟩ => .step fun _ => .pure
  exact (delimitedList_spans argument_fills).fresh.withContext _

instance : Spans start false [] (typeArgumentStep g) := by
  unfold typeArgumentStep
  exact .node fun _ => .step fun _ => .pure

instance : Spans start false [] (expressionTypeArguments? g) := by
  have hread : Spans start false [] (do
      let errors ← errorCount
      advance
      let types ← collect (typeArgumentStep g)
      if (← errorCount) ≠ errors then return none
      if !(← accept .greaterThan) then return none
      return if ← canFollowTypeArguments then some types else none) := by
    refine .step fun errors => .move fun _ => .take fun types => .step fun _ =>
      .ite (fun _ => .pure) fun _ => .step fun _ => .ite (fun _ => .pure) fun _ => ?_
    refine .step fun follows => ?_
    cases follows <;> exact .pure
  unfold expressionTypeArguments?
  exact .step fun _ => .ite (fun _ => .pure) fun _ => inferInstance

theorem chainStep_spans {step : Node → Parse (ForInStep Node)}
    (hstep : ∀ n, Spans start true [n] (step n)) (x : Node × Nat) :
    Spans start true (nodes x) (chainStep step x) := by
  obtain ⟨target, chain⟩ := x
  unfold chainStep
  refine .step fun _ => .ite (fun _ => .pure) fun _ => .bind ((hstep target).weaken id (by simp))
    fun r => ?_
  cases r <;> exact .pure

/-- A chain from its first part on. -/
theorem chain_spans {step : Node → Parse (ForInStep Node)} [Progresses (chainStep step)]
    (hstep : ∀ n, Spans start true [n] (step n)) (first : Node) :
    Spans start true [first] (do
      let (result, _) ← loop (first, 1) (chainStep step)
      return result) :=
  .bind (.loop (by simp) (chainStep_spans hstep)) fun ⟨_, _⟩ => .pure

theorem taggedTemplate_spans (tag : Node) (typeArguments : Option (List Node)) :
    Spans start true (tag :: typeArguments.getD []) (taggedTemplate g start tag typeArguments) := by
  unfold taggedTemplate
  exact .node fun quasi => .finish (tag :: typeArguments.getD [] ++ [quasi])

theorem elementAccess_spans (target : Node) (isOptional : Bool) :
    Spans start true [target] (elementAccess g start target isOptional) := by
  unfold elementAccess
  refine .step fun _ => .ite (fun _ => .error) fun _ => .node fun index => .step fun _ => ?_
  exact .finish [target, index]

theorem postfixChain_spans (target : Node) :
    Spans start true [target] (postfixChain g start target) := by
  unfold postfixChain instantiationStep
  refine .step fun _ => .step fun _ => .ite (fun _ => .step fun _ => ?_) fun _ => ?_
  · exact .grow (.finish [target]) fun _ => .pure
  · refine .take fun types? => ?_
    cases types? with
    | none => exact .pure
    | some types => exact .grow (.finish (target :: types)) fun _ => .pure

/-- What a call or a template is made of: in an optional chain an expression is not taken apart. -/
theorem lies_calleeParts {source : String} {stop : Nat} {isOptional : Bool} {n : Node}
    (typeArguments : Option (List Node))
    (h : ∀ c ∈ n :: typeArguments.getD [], c.Lies source start stop) :
    ∀ x, x = (if isOptional then (n, typeArguments) else n.splitInstantiation) →
      ∀ c ∈ x.1 :: x.2.getD [], c.Lies source start stop := by
  rintro x rfl
  split
  · exact h
  · exact (h n List.mem_cons_self).splitInstantiation

theorem elementStep_spans (isOptional : Bool) (target : Node) :
    Spans start true [target] (elementStep g start isOptional target) := by
  have hquasi : Spans start true [target] (quasiStep g start isOptional target) := by
    unfold quasiStep
    refine .step fun _ => .ite (fun _ => ?_) fun _ => .ite (fun _ => .pure) fun _ =>
      postfixChain_spans target
    split
    rename_i tag typeArguments hparts
    refine .grow ((taggedTemplate_spans tag typeArguments).apart fun h => ?_) fun _ => .pure
    exact lies_calleeParts none h _ hparts.symm
  unfold elementStep
  refine .step fun _ => .ite (fun _ => .step fun _ => .ite (fun _ => ?_) fun _ => hquasi) fun _ =>
    hquasi
  exact .grow (elementAccess_spans target isOptional) fun _ => .pure

theorem memberStep_spans (allowOptional : Bool) (target : Node) :
    Spans start true [target] (memberStep g start allowOptional target) := by
  unfold memberStep
  refine .step fun _ => .step fun isOptional => .step fun _ => .ite (fun _ => .step fun name => ?_)
    fun _ => elementStep_spans isOptional target
  exact .grow (.finish [target]) fun _ => .pure

theorem memberChain_spans (allowOptional : Bool) (first : Node) :
    Spans start true [first] (memberChain g start allowOptional first) :=
  have := advances_chainStep fun n => memberStep_leads (g := g) n start allowOptional
  chain_spans (memberStep_spans allowOptional) first

theorem callRest_spans (isOptional : Bool) (callee : Node) (typeArguments : Option (List Node)) :
    Spans start true (callee :: typeArguments.getD [])
      (callRest g start isOptional callee typeArguments) := by
  unfold callRest
  refine .step fun _ => .ite (fun _ => .grow (taggedTemplate_spans callee typeArguments) fun _ =>
    .pure)
    fun _ => .step fun _ => .ite (fun _ => ?_) fun _ => .ite (fun _ => .error) fun _ => .pure
  split
  rename_i callee' typeArguments' hparts
  have hrest : Spans start true (callee' :: typeArguments'.getD []) (do
      let arguments ← argumentList g
      return ForInStep.yield
        (← finish start (.call callee' typeArguments' arguments isOptional))) :=
    .take fun arguments =>
      .grow (.finish (callee' :: typeArguments'.getD [] ++ arguments)) fun _ => .pure
  exact hrest.apart fun h => lies_calleeParts typeArguments h _ hparts.symm

theorem callStep_spans (callee : Node) :
    Spans start true [callee] (callStep g start callee) := by
  unfold callStep
  refine .grow (memberChain_spans true callee) fun target => .step fun _ => .ite (fun _ => ?_)
    fun _ => ?_
  · exact .take fun typeArguments => (callRest_spans true target typeArguments).weaken id (by simp)
  · exact (callRest_spans false target none).weaken id (by simp)

theorem callChain_spans (first : Node) :
    Spans start true [first] (callChain g start first) :=
  have := advances_chainStep fun n => callStep_leads (g := g) n start
  chain_spans callStep_spans first

instance : Spans start false [] (leftHandSide g) := by
  have hchain (start : Nat) (operand : Node) : Spans start true [operand] (do
      callChain g start (← memberChain g start true operand)) :=
    .grow (memberChain_spans true operand) fun callee =>
      (callChain_spans callee).weaken id (by simp)
  unfold leftHandSide
  refine .pos fun start => .ifSign (.step fun _ => .ite (fun _ => .step fun name => ?_) fun _ => ?_)
    (.ifSign ?_ (.node (hchain start)))
  · exact .grow (.finish []) callChain_spans
  · exact .grow (.finish []) callChain_spans
  · exact .grow (.finish []) (hchain start)

instance : Spans start false [] (decoratorStep g) := by
  unfold decoratorStep
  exact .pos fun start => .step fun _ => .ite
    (fun _ => .node fun expression => .grow (.finish [expression]) fun _ => .pure) fun _ => .pure

instance : Spans start false [] (decorators g) := inferInstanceAs (Spans start false [] (collect _))

instance (isEnd : TokenKind → Bool) : Spans start false [] (statementStep g isEnd) := by
  unfold statementStep
  refine .step fun k => .ite (fun _ => .pure) fun _ => .step fun _ => .ite (fun _ => ?_) fun _ =>
    .error
  refine .step fun first => .node fun statement => .step fun _ => .step fun _ => ?_
  exact .ite (fun _ => .step fun _ => .pure) fun _ => .pure

instance (isEnd : TokenKind → Bool) : Spans start false [] (statementList g isEnd) :=
  inferInstanceAs (Spans start false [] (collect _))

instance : Spans start false [] (block g) := by
  unfold block
  refine .pos fun start => .unlessExpect (.step fun isMultiLine => ?_)
  refine .takeOn collect_inOrder fun ns hns => .step fun required => .step fun state => ?_
  exact .step fun hasBreak => .finishOrdered ns hns

instance : Spans start false [] (typeParameter g) := by
  unfold typeParameter
  exact .pos fun start => .step fun ms => .move fun name => .take fun bound => .take fun fallback =>
    .finish (bound.toList ++ fallback.toList)

section
variable {element : Parse Node} [Spans start false [] element]

instance : Spans start false [] (angleStep element) := by
  unfold angleStep
  exact .step fun _ => .ite (fun _ => .pure) fun _ => .node fun n => .step fun _ => .pure

theorem angleList_spans : Spans start false [] (angleList? element) := by
  have : Gathers (angleStep element) := gathers_angleStep (Spans.proceeds start false [])
  unfold angleList?
  exact .step fun _ => .ite (fun _ => .pure) fun _ => .take fun elements => .step fun _ => .pure

end

instance : Spans start false [] (typeParameters? g) := angleList_spans

instance : Spans start false [] (typeArguments? g) := angleList_spans

instance : Spans start false [] (typeArgumentsOnLine? g) := by
  unfold typeArgumentsOnLine?
  exact .step fun _ => .ite (fun _ => .pure) fun _ => inferInstance

instance (notes : ParameterNotes) : Spans start false [] (parameter g notes) := by
  unfold parameter
  refine .pos fun start => .take fun ds => .step fun _ => .ite (fun _ => ?_) fun _ => ?_
  · refine .take fun name => .behind name.toBinding (.take fun type => ?_)
    exact .grow (.finish (ds ++ [name.toBinding] ++ type.toList ++ [])) fun _ => .pure
  · refine .step fun ms => .step fun restStart => .step fun isRest => .node fun name =>
      .step fun _ =>
      .step fun isOptional => .take fun type => .take fun initializer => .step fun _ => ?_
    exact .grow (.finish (ds ++ [name] ++ type.toList ++ initializer.toList)) fun _ => .pure

theorem parameterStep_spans (x : List Node × ParameterNotes) :
    Spans start passed (nodes x) (parameterStep g x) := by
  obtain ⟨rev, notes⟩ := x
  unfold parameterStep
  refine .step fun _ => .ite (fun _ => .pure) fun _ => .step fun _ => .ite (fun _ => .error)
    fun _ => ?_
  refine .step fun _ => .take fun x => .step fun _ => .ite (fun _ => .pure) fun _ =>
    .step fun _ => .ite (fun _ => .pure) fun _ => .step fun _ => .step fun starts => ?_
  cases starts <;> exact .pure

instance : Spans start false [] (parameterList g) := by
  unfold parameterList
  exact .bind (.loop (by simp) parameterStep_spans) fun ⟨rev, notes⟩ => .pure

instance (isAsync isGenerator : Bool) : Spans start false [] (parameters g isAsync isGenerator) :=
    by
  unfold parameters
  exact .unlessExpect (.take fun ps => .step fun _ => .pure)

instance (isAsync isGenerator : Bool) : Moves (parameters g isAsync isGenerator) := by
  have : Proceeds (parameterList g) := proceeds g
  unfold parameters
  infer_instance

instance : Spans start false [] (typeOrPredicate g) := by
  unfold typeOrPredicate
  refine .pos fun start => .step fun _ => .ite (fun _ => ?_) fun _ => .step fun _ =>
    .ite (fun _ => ?_) fun _ => inferInstance
  · exact .move fun _ => .step fun name => .take fun type => .finish type.toList
  · exact .move fun name => .step fun _ => .node fun type => .finish [type]

instance : Spans start false [] (returnType? g) :=
  inferInstanceAs (Spans start false [] (after? _ _))

instance (isAsync isGenerator : Bool) : Spans start false [] (functionBody g isAsync isGenerator) :=
  inferInstanceAs (Spans start false [] (withContext _ _))

instance (isAsync isGenerator bodyRequired : Bool) :
    Spans start false [] (functionBody? g isAsync isGenerator bodyRequired) := by
  have : Proceeds (functionBody g isAsync isGenerator) := proceeds g
  unfold functionBody?
  refine .step fun _ => .ite (fun _ => .step fun _ => .pure) fun _ => .step fun _ => .step fun _ =>
    ?_
  exact .ite (fun _ => .error) fun _ => .node fun _ => .pure

section
variable {α β : Type} [Bearer α] [Bearer β] {p : Parse α} {f : α → Parse β}
  [hp : Spans start false [] p] [hm : Moves p]

/-- Something is read for which a token has to be passed over, and which meets a condition. -/
theorem Spans.drawOn [hproceeds : ∀ x, Proceeds (f x)] {P : α → Prop}
    (hP : Gives (Known start passed held) p fun x _ => P x)
    (hf : ∀ x, P x → Spans start true (held ++ nodes x) (f x)) :
    Spans start passed held (p >>= f) where
  proceeds := .bind hp.proceeds hproceeds
  gives := by
    have hread : Spans start passed held p := hp.fresh
    have hmove := (hread.gives.hold hp.proceeds).and (hm.gives start).behind
    refine .forget (hmove.and hP) fun x => ?_
    by_cases hx : P x
    · exact (hf x hx).gives.weaken fun _ ha => ⟨ha.1.2, ha.1.1.1.held.append ha.1.1.2⟩
    · exact .of_false fun _ ha => hx ha.2

/-- A list of nodes is read, for which a token has to be passed over. -/
theorem Spans.draw (hf : ∀ x, Spans start true (held ++ nodes x) (f x)) :
    Spans start passed held (p >>= f) :=
  have := fun x => (hf x).proceeds
  have := hp.proceeds
  have hany : Results (fun _ => True) p := fun _ => trivial
  .drawOn (.of_results hany) fun x _ => hf x

end

instance (isAsync isGenerator bodyRequired : Bool) :
    Spans start false [] (functionRest g start isAsync isGenerator bodyRequired) := by
  unfold functionRest
  exact .take fun typeParameters => .draw fun ps => .take fun returnType => .take fun body =>
    .finish (typeParameters.getD [] ++ ps ++ returnType.toList ++ body.toList)

end Parse
end Erasure

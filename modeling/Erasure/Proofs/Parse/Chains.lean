import Erasure.Proofs.Parse.Names

/-!
Lists, templates, arguments and the chains of member accesses and calls are genuine as long as
nothing was reported.
-/

namespace Erasure

theorem Node.Genuine.splitInstantiation {n : Node} (h : n.Genuine) :
    n.splitInstantiation.1.Genuine ∧ GenuineAll (n.splitInstantiation.2.getD []) := by
  unfold Node.splitInstantiation
  split
  · rename_i operand typeArguments hform
    have hall := h.genuineAll_children
    rw [hform] at hall
    exact ⟨hall _ (List.mem_cons_self), fun c hc => hall c (List.mem_cons_of_mem _ hc)⟩
  · exact ⟨h, .nil⟩

namespace Parse

variable {P : Place → Prop} {g : Grammar} [Sound g]

theorem delimitedList_gives [Stable P] {close : TokenKind} {missing : Message}
    {isStart : Parse Bool} [Stays isStart] {element : Parse Node} [Proceeds element]
    (h : Gives P element (always Node.Genuine)) :
    Gives P (delimitedList close missing isStart element) (always fun x => GenuineAll x.1) := by
  unfold delimitedList
  refine .bind (.loop (I := always fun list : OpenList => GenuineAll list.elementsRev)
    (fun _ _ => .nil) fun list => ?_) fun list => .stay fun _ => .stay fun _ =>
    .pure fun _ ha => .reverse ha.2
  refine .stay fun atEnd => .ite (fun _ => .pure fun _ ha => ha.2) fun _ => .stay fun starts =>
    .ite (fun _ => ?_) fun _ => .error
  refine .stay fun start => .stay fun _ => .bind (h.weaken fun _ ha => ha.1) fun n => ?_
  have keep (a : Place) (ha : (P a ∧ GenuineAll list.elementsRev) ∧ n.Genuine) :
      GenuineAll (n :: list.elementsRev) := .cons ha.2 ha.1.2
  refine .step fun found => .ite (fun _ => .pure keep) fun _ => .stay fun closes =>
    .ite (fun _ => .pure keep) fun _ => .step fun _ => .stay fun _ => ?_
  exact .ite (fun _ => .step fun _ => .pure keep) fun _ => .pure keep

theorem binaryNode_gives {start : Nat} {left right : Node} {operator : TokenKind}
    {before after : Bool} (hs : ∀ a, P a → start ≤ a.pos) (hl : ∀ a, P a → left.Genuine)
    (hr : ∀ a, P a → right.Genuine) :
    Gives P (binaryNode start left operator right before after) built :=
  .finishBuilt hs fun a ha => ⟨rfl, rfl, .nil, .cons (hl a ha) (.one (hr a ha))⟩

/-- A node that goes on growing, with the number of its parts. -/
def growing (x : Node × Nat) : Place → Prop := built x.1

instance (x : Node × Nat) : Stable (growing x) := inferInstanceAs (Stable (built x.1))

theorem expression_gives [Stable P] : Gives P (expression g) built := by
  unfold expression
  refine .withContext _ (.pos fun start => .bind (part .assignment) fun first => ?_)
  refine .bind (.loop (I := growing) (fun _ ha => ha.2) fun x => ?_)
    fun x => .pure fun _ ha => ha.2
  refine .stay fun isComma => .ite (fun _ => .pure fun _ ha => ha.2) fun _ => ?_
  refine .stay fun tooLong => .ite (fun _ => .pure fun _ ha => ha.2) fun _ => ?_
  refine .stay fun breakBefore => .step fun advanced => .stay fun breakAfter => ?_
  refine .bind (part .assignment) fun right => .forget (binaryNode_gives ?_ ?_ ?_) fun n =>
    .pure fun _ ha => ha
  · exact fun _ ha => ha.1.1.1.2
  · exact fun _ ha => ha.1.2.1
  · exact fun _ ha => ha.2.1

theorem expressionAllowIn_gives [Stable P] : Gives P (expressionAllowIn g) built :=
  .allowIn expression_gives

theorem token_rescanTemplate_ne {s : Scanner} (h : s.token ≠ .endOfFile) :
    s.rescanTemplate.token ≠ .endOfFile := by
  unfold Scanner.rescanTemplate
  split
  · rcases Scanner.token_readTemplate { s with cursor := s.tokenStart.advance 1 } .templateTail
      .templateMiddle (Scanner.remaining { s with cursor := s.tokenStart.advance 1 } + 1) []
      with hk | hk <;> rw [hk] <;> decide
  · exact h

theorem rescanTemplate_gives {k : Nat}
    (h : ∀ a, P a → k ≤ a.pos ∧ a.scanner.token ≠ .endOfFile) :
    Gives P rescanTemplate fun _ a => k ≤ a.pos ∧ a.scanner.token ≠ .endOfFile := by
  intro s hr hs
  have hfollow := (inferInstance : Proceeds rescanTemplate).follows s hr
  refine ⟨hfollow, fun hq => ?_⟩
  obtain ⟨hpos, hend⟩ := h _ (hs (hfollow.quiet hq))
  exact ⟨hpos.trans hfollow.pos_le, token_rescanTemplate_ne hend⟩

/-- A token that is passed over ends behind its start. -/
theorem advance_gives {k : Nat} (h : ∀ a, P a → k ≤ a.pos ∧ a.scanner.token ≠ .endOfFile) :
    Gives P advance fun _ a => k < a.prevEnd := by
  intro s hr hs
  have hfollow := (inferInstance : Proceeds advance).follows s hr
  refine ⟨hfollow, fun hq => ?_⟩
  obtain ⟨hpos, hend⟩ := h _ (hs (hfollow.quiet hq))
  exact hpos.trans_lt (hr.scanner.start_lt_stop hend)

theorem accept_gives {k : TokenKind} (h : ∀ a, P a → a.scanner.token ≠ k) :
    Gives P (accept k) fun found _ => found = false := by
  unfold accept
  refine .ask (R := fun found a => found = true → a.scanner.token = k) (fun _ _ => token_of_isToken)
    fun found => .ite (fun hfound => ?_) fun _ => .pure fun _ _ => rfl
  exact .of_false fun a ha => h a ha.1 (ha.2 hfound)

/-- On another token it is reported that the one required is missing. -/
theorem require_gives {k : TokenKind} (h : ∀ a, P a → a.scanner.token ≠ k) :
    Gives P (require k) fun _ _ => False := by
  unfold require expect
  refine .forget (R := fun _ _ => False) ?_ fun _ => .pure fun _ ha => ha
  refine .forget (accept_gives h) fun found => .ite (fun hfound => ?_) fun _ => .error
  exact .of_false fun a ha => absurd (ha.symm.trans hfound) (by decide)

/-- The text after a substitution is there and ends behind the substitution. -/
theorem templateContinuation_gives {k : Nat} (h : ∀ a, P a → k ≤ a.pos) :
    Gives P templateContinuation fun _ a => k < a.prevEnd := by
  unfold templateContinuation
  refine .ask (R := fun found a => found = decide (a.scanner.token = .closeBrace))
    (fun _ _ => rfl) fun found => .ite (fun hfound => ?_) fun hfound => ?_
  · refine .forget (rescanTemplate_gives fun a ha => ⟨h a ha.1, ?_⟩) fun isTail => .stay
      fun literal => .forget (advance_gives fun _ ha => ha) fun _ => .pure fun _ ha => ha
    rw [of_decide_eq_true (ha.2.symm.trans hfound)]
    decide
  · refine .forget (require_gives fun a ha hk => hfound ?_) fun _ => .pure fun _ ha => ha.elim
    rw [ha.2, hk]
    rfl

/-- A piece of a template behind its substitution. -/
theorem finishPiece_gives {start : Nat} {form : Form} {n : Node}
    (hkind : form.isPlaceholder = false) (hwords : Written form.words)
    (hpiece : form.substitution? = some n) (hchildren : form.children = [n])
    (h : ∀ a, P a → n.Genuine ∧ n.span.stop < a.prevEnd) :
    Gives P (finish start form) (always Node.Genuine) := by
  intro s hr hs
  refine ⟨.of_place hr rfl { ParseState.Grows.refl s with }, fun hq => ?_⟩
  obtain ⟨hn, hstop⟩ := h _ (hs ⟨hq.1, hq.2, hq.3⟩)
  refine .intro hkind hwords ?_ ?_
  · show ∀ e ∈ form.substitution?, e.span.stop < max s.prevEnd start
    rw [hpiece]
    rintro _ ⟨⟩
    exact lt_max_of_lt_left hstop
  · show ∀ c ∈ form.children, c.Genuine
    rw [hchildren]
    exact GenuineAll.one hn

theorem template_gives [Stable P] : Gives P (template g) built := by
  unfold template
  refine .pos fun start => .stay fun isWhole => .ite (fun _ => ?_) fun _ => ?_
  · exact .stay fun raw => .stay fun value => .step fun _ =>
      .finishBuilt (fun _ ha => ha.2) fun _ _ => ⟨rfl, rfl, .nil, .nil⟩
  · refine .stay fun head => .step fun _ => .bind (.collect ?_) fun spans =>
      .finishBuilt (fun _ ha => ha.1.2) fun _ ha => ⟨rfl, rfl, .nil, ha.2⟩
    refine .stay fun start => .bind expressionAllowIn_gives fun substitution => ?_
    refine .bind (templateContinuation_gives fun _ ha => ha.2.2) fun piece => ?_
    exact .forget (finishPiece_gives rfl .nil rfl rfl fun _ ha => ⟨ha.1.2.1, ha.2⟩) fun n =>
      .pure fun _ ha => collected_some ha

theorem argument_gives [Stable P] : Gives P (argument g) (always Node.Genuine) := by
  unfold argument
  refine .stay fun start => .step fun isSpread => .ite (fun _ => ?_) fun _ => .stay fun isHole =>
    .ite (fun _ => .finish fun _ _ => ⟨rfl, rfl, .nil, .nil⟩) fun _ => ?_
  · exact .bind (part .assignment) fun operand => .finish fun _ ha =>
      ⟨rfl, rfl, .nil, .one ha.2.1⟩
  · exact (part .assignment).genuine

instance : Proceeds (argument g) := proceeds g

theorem argumentList_gives [Stable P] : Gives P (argumentList g) (always GenuineAll) := by
  unfold argumentList
  refine .step fun _ => .bind (.withContext _ (delimitedList_gives argument_gives))
    fun _ => .step fun _ => .pure fun _ ha => ha.2

/-- Type arguments, if there are some. -/
def typed : Option (List Node) → Place → Prop := always fun types => GenuineAll (types.getD [])

instance (types : Option (List Node)) : Stable (typed types) :=
  inferInstanceAs (Stable (always _ types))

theorem expressionTypeArguments_gives [Stable P] :
    Gives P (expressionTypeArguments? g) typed := by
  unfold expressionTypeArguments?
  refine .stay fun _ => .ite (fun _ => .pure fun _ _ => .nil) fun _ => .attempt ?_ fun _ => .nil
  refine .stay fun errors => .step fun _ => .bind (.collect (R := Node.Genuine) ?_) fun types => ?_
  · exact .bind (part .type) fun type => .step fun _ => .pure fun _ ha => collected_some ha.2.1
  · refine .stay fun _ => .ite (fun _ => .pure fun _ _ => .nil) fun _ => .step fun _ =>
      .ite (fun _ => .pure fun _ _ => .nil) fun _ => .stay fun follows => .pure fun _ ha => ?_
    cases follows
    · exact .nil
    · exact ha.2

theorem memberName_gives [Stable P] :
    Gives P memberName (always fun name => name.ident.text ≠ "") := by
  unfold memberName
  refine .ask (R := fun found a => found = true → a.scanner.token = .privateIdentifier)
    (fun _ _ => token_of_isToken) fun isPrivate => .ite (fun hp => ?_) fun _ => ?_
  · exact .forget (takeIdentifier_gives fun a ha => by rw [ha.2 hp]; rfl) fun name =>
      .pure fun _ ha => ha
  · have plain : Gives P (do return { ident := ← identifierName, isPrivate := false })
        (always fun name : MemberName => name.ident.text ≠ "") :=
      .bind identifierName_gives fun name => .pure fun _ ha => ha.2
    refine .weaken (K := P) (.stay fun _ => .stay fun _ => .ite (fun _ => .stay fun _ => ?_)
      fun _ => plain) fun _ ha => ha.1
    exact .ite (fun _ => .error) fun _ => plain

theorem taggedTemplate_gives [Stable P] {start : Nat} {tag : Node} {types : Option (List Node)}
    (hs : ∀ a, P a → start ≤ a.pos) (ht : ∀ a, P a → tag.Genuine ∧ GenuineAll (types.getD [])) :
    Gives P (taggedTemplate g start tag types) built := by
  unfold taggedTemplate
  refine .bind template_gives fun quasi => .finishBuilt (fun a ha => hs a ha.1) fun a ha => ?_
  obtain ⟨htag, htypes⟩ := ht a ha.1
  exact ⟨rfl, rfl, .nil, .cons htag (htypes.append (.one ha.2.1))⟩

theorem elementAccess_gives [Stable P] {start : Nat} {target : Node} {isOptional : Bool}
    (hs : ∀ a, P a → start ≤ a.pos) (ht : ∀ a, P a → target.Genuine) :
    Gives P (elementAccess g start target isOptional) built := by
  unfold elementAccess
  refine .stay fun isEmpty => ?_
  dsimp only
  refine .ite (fun _ => .error) fun _ => .bind expressionAllowIn_gives fun index =>
    .step fun _ => ?_
  exact .finishBuilt (fun a ha => hs a ha.1) fun a ha =>
    ⟨rfl, rfl, .nil, .cons (ht a ha.1) (.one ha.2.1)⟩

/-- A node that a step has added to, or that it ends with. -/
def stepped (r : ForInStep Node) : Place → Prop := built r.value

instance (r : ForInStep Node) : Stable (stepped r) := inferInstanceAs (Stable (built r.value))

section
variable [Stable P] {start : Nat} {target : Node} (hs : ∀ a, P a → start ≤ a.pos)
  (ht : ∀ a, P a → built target a)
include hs ht

theorem postfixChain_gives : Gives P (postfixChain g start target) stepped := by
  unfold postfixChain
  refine .stay fun _ => .stay fun _ => .ite (fun _ => .step fun _ => ?_) fun _ => ?_
  · exact .forget (.finishBuilt hs fun a ha => ⟨rfl, rfl, .nil, .one (ht a ha).1⟩) fun n =>
      .pure fun _ ha => ha
  · refine .bind expressionTypeArguments_gives fun types => ?_
    split
    · exact .forget (.finishBuilt (fun a ha => hs a ha.1) fun a ha =>
        ⟨rfl, rfl, .nil, .cons (ht a ha.1).1 ha.2⟩) fun n => .pure fun _ ha => ha
    · exact .pure fun a ha => ht a ha.1

/-- What follows unless there is an element access. -/
theorem templateStep_gives (isOptional : Bool) : Gives P (do
    if (← token).isTemplateStart then
      let (tag, typeArguments) :=
        if isOptional then (target, none) else target.splitInstantiation
      return .yield (← taggedTemplate g start tag typeArguments)
    if isOptional then return .done target
    postfixChain g start target) stepped := by
  refine .stay fun _ => .ite (fun _ => ?_) fun _ => .ite (fun _ => .pure ht) fun _ =>
    postfixChain_gives hs ht
  have hsplit (a : Place) (ha : P a) := (ht a ha).1.splitInstantiation
  cases isOptional
  · exact .forget (taggedTemplate_gives hs hsplit) fun n => .pure fun _ ha => ha
  · exact .forget (taggedTemplate_gives hs fun a ha => ⟨(ht a ha).1, .nil⟩) fun n =>
      .pure fun _ ha => ha

theorem elementStep_gives {isOptional : Bool} :
    Gives P (elementStep g start isOptional target) stepped := by
  unfold elementStep
  have rest := templateStep_gives (g := g) hs ht isOptional
  refine .stay fun _ =>
    .ite (fun _ => .step fun _ => .ite (fun _ => ?_) fun _ => rest) fun _ => rest
  exact .forget (elementAccess_gives hs fun a ha => (ht a ha).1) fun n => .pure fun _ ha => ha

theorem memberStep_gives {allowOptional : Bool} :
    Gives P (memberStep g start allowOptional target) stepped := by
  unfold memberStep
  refine .stay fun _ => .stay fun isOptional => .step fun isProperty => .ite (fun _ => ?_) fun _ =>
    elementStep_gives hs ht
  refine .bind memberName_gives fun name => .forget (.finishBuilt (fun a ha => hs a ha.1)
    fun a ha => ?_) fun n => .pure fun _ ha => ha
  exact ⟨rfl, rfl, .one ha.2, .one (ht a ha.1).1⟩

end

/-- A chain grows by steps, of which each keeps the node built. -/
theorem chain_gives [Stable P] {first : Node} {step : Node → Parse (ForInStep Node)}
    (hf : ∀ a, P a → built first a)
    (h : ∀ n, Gives (fun a => P a ∧ built n a) (step n) stepped) :
    Gives P (do
      let (result, _) ← loop (first, 1) fun (target, chain) => do
        if ← chainTooLong chain then return .done (target, chain)
        match ← step target with
        | .done n => return .done (n, chain)
        | .yield n => return .yield (n, chain + 1)
      return result) built := by
  refine .bind (.loop (I := growing) hf fun x => ?_) fun x => .pure fun _ ha => ha.2
  refine .stay fun _ => .ite (fun _ => .pure fun _ ha => ha.2) fun _ => .bind (h x.1) fun r => ?_
  cases r with
  | done n => exact .pure fun _ ha => ha.2
  | yield n => exact .pure fun _ ha => ha.2

section
variable [Stable P] {start : Nat} {first : Node} (hs : ∀ a, P a → start ≤ a.pos)
  (hf : ∀ a, P a → built first a)
include hs hf

theorem memberChain_gives {allowOptional : Bool} :
    Gives P (memberChain g start allowOptional first) built :=
  chain_gives hf fun _ => memberStep_gives (fun a ha => hs a ha.1) fun _ ha => ha.2

theorem callRest_gives {isOptional : Bool} {types : Option (List Node)}
    (ht : ∀ a, P a → typed types a) :
    Gives P (callRest g start isOptional first types) stepped := by
  unfold callRest
  refine .stay fun _ => .ite (fun _ => ?_) fun _ => .stay fun _ => .ite (fun _ => ?_) fun _ =>
    .ite (fun _ => .error) fun _ => .pure hf
  · exact .forget (taggedTemplate_gives hs fun a ha => ⟨(hf a ha).1, ht a ha⟩) fun n =>
      .pure fun _ ha => ha
  · -- Without the sign of an optional chain the type arguments stand in the callee.
    have hsplit (a : Place) (ha : P a) : ∀ x, x = (if isOptional then (first, types)
        else first.splitInstantiation) → x.1.Genuine ∧ GenuineAll (x.2.getD []) := by
      rintro x rfl
      split
      · exact ⟨(hf a ha).1, ht a ha⟩
      · exact (hf a ha).1.splitInstantiation
    split
    rename_i callee typeArguments heq
    refine .bind argumentList_gives fun arguments => .forget (.finishBuilt (fun a ha => hs a ha.1)
      fun a ha => ?_) fun n => .pure fun _ ha => ha
    obtain ⟨hcallee, htypes⟩ := hsplit a ha.1 _ heq.symm
    exact ⟨rfl, rfl, .nil, .cons hcallee (htypes.append ha.2)⟩

theorem callStep_gives : Gives P (callStep g start first) stepped := by
  unfold callStep
  refine .bind (memberChain_gives hs hf) fun callee => .step fun isOptional =>
    .ite (fun _ => ?_) fun _ => ?_
  · exact .bind expressionTypeArguments_gives fun types =>
      callRest_gives (fun a ha => hs a ha.1.1) (fun _ ha => ha.1.2) fun _ ha => ha.2
  · exact callRest_gives (fun a ha => hs a ha.1) (fun _ ha => ha.2) fun _ _ => .nil

theorem callChain_gives : Gives P (callChain g start first) built :=
  chain_gives hf fun _ => callStep_gives (fun a ha => hs a ha.1) fun _ ha => ha.2

end

theorem leftHandSide_gives [Stable P] : Gives P (leftHandSide g) built := by
  unfold leftHandSide
  refine .pos fun start => .step fun isImport => .ite (fun _ => .step fun isMeta =>
    .ite (fun _ => ?_) fun _ => ?_) fun _ => .step fun isSuper => .ite (fun _ => ?_) fun _ => ?_
  · refine .bind identifierName_gives fun name => .bind (.finishBuilt (fun _ ha => ha.1.2)
      fun _ ha => ⟨rfl, rfl, .one ha.2, .nil⟩) fun operand => ?_
    exact callChain_gives (fun _ ha => ha.1.1.2) fun _ ha => ha.2
  · refine .bind (.finishBuilt (fun _ ha => ha.2) fun _ _ => ⟨rfl, rfl, .nil, .nil⟩)
      fun operand => ?_
    exact callChain_gives (fun _ ha => ha.1.2) fun _ ha => ha.2
  · refine .bind (.finishBuilt (fun _ ha => ha.2) fun _ _ => ⟨rfl, rfl, .nil, .nil⟩)
      fun operand => ?_
    exact .bind (memberChain_gives (fun _ ha => ha.1.2) fun _ ha => ha.2) fun callee =>
      callChain_gives (fun _ ha => ha.1.1.2) fun _ ha => ha.2
  · exact .bind (part .primary) fun operand =>
      .bind (memberChain_gives (fun _ ha => ha.1.2) fun _ ha => ha.2) fun callee =>
        callChain_gives (fun _ ha => ha.1.1.2) fun _ ha => ha.2

theorem decorators_gives [Stable P] : Gives P (decorators g) (always GenuineAll) := by
  unfold decorators
  refine .collect (.stay fun start => .step fun found => .ite (fun _ => ?_) fun _ =>
    .pure fun _ _ => nofun)
  exact .bind (.withContext _ leftHandSide_gives) fun expression => .bind (.finish fun _ ha =>
    ⟨rfl, rfl, .nil, .one ha.2.1⟩) fun n => .pure fun _ ha => collected_some ha.2

end Parse
end Erasure

import Erasure.Proofs.Parse.Alike.Grammar

/-!
Where the rules go down. A rule that asks for a nonterminal has passed over a token or is nested
deeper, or it is one of the two that open with another nonterminal. What a rule does is seen from
the nonterminals that it asks for, so this says: of a grammar only the answers further down count.
-/

namespace Erasure.Parse

set_option synthInstance.maxSize 5000

/-- The parsers do the same in the states from a position on of which `A` is known. -/
def Agree {α : Type} (a : Place) (n depth : Nat) (A : Spot → Prop) (p p' : Parse α) : Prop :=
  ∀ s : ParseState, s.Beyond a n depth → A s.spot → p s = p' s

section
variable {g g' : Grammar} [Lawful g] {a : Place} {n depth : Nat} {α β σ : Type}
  {A C : Spot → Prop} {R : α → Spot → Prop} {p p' q q' : Parse α} {f f' : α → Parse β}

namespace Agree

theorem weaken (h : Agree a n depth C p p') (hA : ∀ b, A b → C b) : Agree a n depth A p p' :=
  fun s hs hb => h s hs (hA _ hb)

theorem same : Agree a n depth A p p := fun _ _ _ => rfl

theorem either (hA : Agree a n depth A p p') (hC : Agree a n depth C p p') :
    Agree a n depth (fun b => A b ∨ C b) p p' :=
  fun s hs hb => hb.elim (hA s hs) (hC s hs)

/-- Behind a token it is enough that the grammars do the same from there on. -/
theorem behind (hg : ∀ nt s, s.Beyond a (n + 1) depth → g nt s = g' nt s)
    (h : Alike g g' p p') : Agree a n depth (past n) p p' :=
  fun s hs hpast => h.agrees hg s ⟨hs.reaches, hs.source, hpast, hs.depth_le⟩

protected theorem bind (hp : Agree a n depth A p p') (hproceeds : Proceeds p)
    (hleads : Leads A p R) (hf : ∀ x, Agree a n depth (R x) (f x) (f' x)) :
    Agree a n depth A (p >>= f) (p' >>= f') := by
  intro s hs hb
  show f (p s).1 (p s).2 = f' (p' s).1 (p' s).2
  rw [← hp s hs hb]
  exact hf _ _ (hs.follows (hproceeds.follows s hs.ready)) (hleads s hs.ready hb).2

/-- A first part, after which nothing is asked for. -/
theorem last (hp : Agree a n depth A p p') : Agree a n depth A (p >>= f) (p' >>= f) := by
  intro s hs hb
  show f (p s).1 (p s).2 = f (p' s).1 (p' s).2
  rw [hp s hs hb]

/-- A first part that asks for nothing. -/
theorem first (hproceeds : Proceeds p) (hleads : Leads A p R)
    (hf : ∀ x, Agree a n depth (R x) (f x) (f' x)) : Agree a n depth A (p >>= f) (p >>= f') :=
  .bind .same hproceeds hleads hf

theorem stay [hp : Stays p] (hf : ∀ x, Agree a n depth A (f x) (f' x)) :
    Agree a n depth A (p >>= f) (p >>= f') :=
  .first hp.proceeds (fun s hr hb => ⟨by rw [Stays.place]; exact hr, by rwa [Stays.spot]⟩) hf

/-- A test tells something about the spot. -/
theorem ask [hp : Stays p] (hask : ∀ s, R (p s).1 s.spot)
    (hf : ∀ x, Agree a n depth (fun b => A b ∧ R x b) (f x) (f' x)) :
    Agree a n depth A (p >>= f) (p >>= f') :=
  .first hp.proceeds
    (fun s hr hb => ⟨by rw [Stays.place]; exact hr, by rw [Stays.spot]; exact ⟨hb, hask s⟩⟩) hf

protected theorem token {f f' : TokenKind → Parse β}
    (hf : ∀ k, Agree a n depth (fun b => A b ∧ b.token = k) (f k) (f' k)) :
    Agree a n depth A (token >>= f) (token >>= f') :=
  .first inferInstance (fun _ hr hb => ⟨hr, hb, rfl⟩) hf

protected theorem ite {c : Prop} [Decidable c] (hp : c → Agree a n depth A p p')
    (hq : ¬ c → Agree a n depth A q q') :
    Agree a n depth A (if c then p else q) (if c then p' else q') := by
  split
  · exact hp ‹c›
  · exact hq ‹¬ c›

end Agree

end

namespace Agree

variable {g g' : Grammar} [Lawful g] {a : Place} {n depth : Nat} {A : Spot → Prop} {β σ : Type}
  {k : TokenKind}

protected theorem advance {f f' : Unit → Parse β} (hf : Agree a n depth (past n) (f ()) (f' ())) :
    Agree a n depth (live n) (advance >>= f) (advance >>= f') :=
  .first inferInstance (Leads.advance (f := pure) (.pure fun _ hb => hb)) fun _ => hf

/-- What is required stands here. -/
protected theorem require {f f' : Unit → Parse β} (hk : k ≠ .endOfFile)
    (hf : Agree a n depth (past n) (f ()) (f' ())) :
    Agree a n depth (fun b => since n b ∧ b.token = k) (require k >>= f) (require k >>= f') :=
  .first inferInstance (Leads.require (f := pure) hk (.pure fun _ hb => hb)) fun _ => hf

/-- A token that is passed over if it stands here. -/
protected theorem accept {f f' : Bool → Parse β} [From n A] (hk : k ≠ .endOfFile)
    (hyes : Agree a n depth (past n) (f true) (f' true))
    (hno : Agree a n depth A (f false) (f' false)) :
    Agree a n depth A (accept k >>= f) (accept k >>= f') := by
  refine .first (R := fun found b => if found = true then past n b else A b) inferInstance
    (Leads.accept (f := pure) hk (.pure fun _ hb => hb) (.pure fun _ hb => hb)) fun found => ?_
  cases found with
  | true => exact hyes
  | false => exact hno

/-- A token that is reported if it does not stand here. -/
protected theorem expect {f f' : Bool → Parse β} (hk : k ≠ .endOfFile)
    (hyes : Agree a n depth (past n) (f true) (f' true))
    (hno : Agree a n depth (since n) (f false) (f' false)) :
    Agree a n depth (since n) (expect k >>= f) (expect k >>= f') := by
  refine .first (R := fun found b => if found = true then past n b else since n b) inferInstance
    (.ifAccept hk (.pure fun _ hb => hb) (.stay fun _ => .pure fun _ hb => hb)) fun found => ?_
  cases found with
  | true => exact hyes
  | false => exact hno

protected theorem lookAhead {p p' : Parse β} (hp : Agree a n depth A p p') :
    Agree a n depth A (lookAhead p) (lookAhead p') := by
  intro s hs hb
  unfold Parse.lookAhead
  rw [hp s hs hb]

/-- A repetition, whose rounds do the same from the position on. -/
protected theorem loop {init : σ} {step step' : σ → Parse (ForInStep σ)}
    (hproceeds : ∀ x, Proceeds (step x))
    (hstep : ∀ x, Agree a n depth (since n) (step x) (step' x)) :
    Agree a n depth (since n) (loop init step) (loop init step') := by
  intro s hs _
  refine iterate_eq (R := fun s => s.Beyond a n depth) (fun x s hs => ?_) (fun start k s hs => ?_)
    (fun x s hs => hstep x s hs hs.pos_le) _ init s hs
  · exact hs.follows ((hproceeds x).follows s hs.ready)
  · exact hs.follows (.of_place hs.ready rfl (grows_noteRound start k s))

protected theorem collect {step step' : Parse (Option β × Bool)} (hproceeds : Proceeds step)
    (hstep : Agree a n depth (since n) step step') :
    Agree a n depth (since n) (collect step) (collect step') :=
  .last (.loop (fun _ => inferInstance) fun _ => .last hstep)

end Agree

section
variable {g g' : Grammar} [Lawful g] {a : Place} {n depth : Nat}
  (hg : ∀ nt s, s.Beyond a (n + 1) depth → g nt s = g' nt s)
include hg

theorem agree_angleList {element element' : Parse Node} (h : Alike g g' element element') :
    Agree a n depth (since n) (angleList? element) (angleList? element') := by
  unfold angleList?
  have := gathers_angleStep h.proceeds
  refine .accept (by decide) (.behind hg inferInstance)
    (.ite (fun _ => .same) fun h => absurd rfl h)

theorem agree_typeArgumentsOnLine :
    Agree a n depth (since n) (typeArgumentsOnLine? g) (typeArgumentsOnLine? g') := by
  unfold typeArgumentsOnLine? typeArguments?
  exact .stay fun _ => .ite (fun _ => .same) fun _ => agree_angleList hg inferInstance

theorem agree_namedType : Agree a n depth (since n) (namedType g) (namedType g') := by
  unfold namedType typeReference
  refine .stay fun _ => .stay fun _ => .ite (fun _ => .stay fun _ => ?_) fun _ => .same
  refine .first inferInstance (.keep inferInstance) fun _ => ?_
  exact .last (agree_typeArgumentsOnLine hg)

theorem agree_typeMembers : Agree a n depth (since n) (typeMembers g) (typeMembers g') := by
  unfold typeMembers
  refine .expect (by decide) (.ite (fun _ => .same) fun _ => .behind hg ?_)
    (.ite (fun _ => .same) fun h => absurd rfl h)
  exact .bind inferInstance fun _ => inferInstance

/-- A known token that is passed over before anything is asked for. -/
theorem agree_advance {k : TokenKind} (hk : k ≠ .endOfFile) {p p' : Parse Node}
    (h : Alike g g' p p') :
    Agree a n depth (fun b => since n b ∧ b.token = k) (advance >>= fun _ => p)
      (advance >>= fun _ => p') :=
  .weaken (.advance (.behind hg h)) fun _ hb => .inr ⟨hb.1, fun hend => hk (hb.2.symm.trans hend)⟩

theorem agree_primaryType (hliteral : ∀ s, s.Beyond a n depth → g .primary s = g' .primary s) :
    Agree a n depth (since n) (primaryType g) (primaryType g') := by
  unfold primaryType
  refine .stay fun start => .token fun k => ?_
  have named {k : TokenKind} :
      Agree a n depth (fun b => since n b ∧ b.token = k) (namedType g) (namedType g') :=
    (agree_namedType hg).weaken fun _ => And.left
  split
  case h_13 => exact agree_advance hg (by decide) inferInstance
  case h_20 =>
    exact .stay fun _ => .ite (fun _ => agree_advance hg (by decide) inferInstance) fun _ => named
  case h_21 => exact .stay fun _ => .stay fun _ => agree_advance hg (by decide) inferInstance
  case h_22 => exact agree_advance hg (by decide) inferInstance
  case h_23 =>
    unfold importType
    exact .require (by decide) (.behind hg inferInstance)
  case h_24 =>
    refine .stay fun _ => .ite (fun _ => ?_) fun _ => ?_
    · unfold mappedType
      exact .stay fun _ => .require (by decide) (.behind hg inferInstance)
    · exact .last (.weaken (agree_typeMembers hg) fun _ => And.left)
  case h_25 =>
    unfold tupleType
    exact .stay fun _ => .require (by decide) (.behind hg inferInstance)
  case h_26 => exact agree_advance hg (by decide) inferInstance
  case h_27 => exact named
  case h_11 | h_12 => exact .same
  case h_14 | h_15 | h_16 | h_17 | h_18 | h_19 => exact .last fun s hs _ => hliteral s hs
  all_goals exact .stay fun _ => .ite (fun _ => named) fun _ => .same

theorem agree_postfixType (hliteral : ∀ s, s.Beyond a n depth → g .primary s = g' .primary s) :
    Agree a n depth (since n) (postfixType g) (postfixType g') := by
  unfold postfixType
  refine .stay fun start => .bind (agree_primaryType hg hliteral) (proceeds g) (.keep (proceeds g))
    fun first => .loop (fun _ => proceeds g) fun type => ?_
  unfold postfixTypeStep
  refine .stay fun _ => .ask (R := fun found b => found = decide (b.token = .openBracket))
    (fun _ => rfl) fun found => .ite (fun _ => .same) fun h => ?_
  refine .weaken (.advance (.behind hg inferInstance)) fun b hb => .inr ⟨hb.1, fun hend => h ?_⟩
  rw [hb.2, hend]
  simp

theorem agree_typeOperator (hliteral : ∀ s, s.Beyond a n depth → g .primary s = g' .primary s) :
    Agree a n depth (since n) (typeOperator g) (typeOperator g') := by
  unfold typeOperator
  refine .stay fun start => .token fun k => ?_
  split
  case h_5 => exact (agree_postfixType hg hliteral).weaken fun _ => And.left
  case h_4 => exact agree_advance hg (by decide) inferInstance
  all_goals exact .stay fun _ => agree_advance hg (by decide) inferInstance

theorem agree_binary {above : Precedence}
    (hoperand : ∀ s, s.Beyond a n depth → g .unary s = g' .unary s) :
    Agree a n depth (since n) (binary g above) (binary g' above) := by
  unfold binary binaryRest
  refine .stay fun start => .bind (fun s hs _ => hoperand s hs) (proceeds g) (.keep (proceeds g))
    fun first => .stay fun _ => .last (.loop (fun _ => proceeds g) fun x => ?_)
  obtain ⟨left, chain⟩ := x
  unfold operationStep
  refine .first inferInstance (operatorLevel_leads n above) fun level? => ?_
  split
  · exact .same
  · refine .weaken (C := live n) (.stay fun tooLong => ?_) fun _ hb => hb rfl
    unfold assertionStep binaryStep
    refine .ite (fun _ => .same) fun _ => .stay fun operator => .ite (fun _ => ?_) fun _ => ?_
    · refine .stay fun onNewLine => .ite (fun _ => .same) fun _ => .last ?_
      exact .advance (.behind hg inferInstance)
    · refine .last (.stay fun breakBefore => ?_)
      exact .advance (.behind hg inferInstance)

theorem agree_template : Agree a n depth (live n) (template g) (template g') := by
  unfold template
  refine .stay fun start => .stay fun _ => .ite (fun _ => .same) fun _ => .stay fun _ => ?_
  exact .advance (.behind hg inferInstance)

/-- A function expression starts with its keyword, behind `async` if that stands before it. -/
theorem agree_functionExpression {k : TokenKind} {start : Nat}
    (hk : k = .asyncKw ∨ k = .functionKw) :
    Agree a n depth (fun b => since n b ∧ b.token = k) (functionExpression g start)
      (functionExpression g' start) := by
  unfold functionExpression
  have hasync : Leads (fun b => since n b ∧ b.token = k) asyncModifier
      fun _ b => past n b ∨ since n b ∧ b.token = .functionKw := by
    unfold asyncModifier
    refine .stay fun _ => .acceptOther (n := n) (by decide) (.pure fun _ => .inl)
      (.pure fun b hb => .inr ⟨hb.1.1, ?_⟩)
    exact hk.elim (fun h => absurd (hb.1.2.trans h) hb.2) (fun h => hb.1.2.trans h)
  refine .first inferInstance hasync fun ms => .either (.behind hg inferInstance) ?_
  exact .require (by decide) (.behind hg inferInstance)

theorem agree_decorators : Agree a n depth (since n) (decorators g) (decorators g') := by
  unfold decorators
  refine .collect (proceeds g) ?_
  unfold decoratorStep
  exact .stay fun _ => .accept (by decide) (.behind hg inferInstance)
    (.ite (fun h => absurd h Bool.false_ne_true) fun _ => .same)

/-- A class expression starts with its keyword, behind decorators if there are some. -/
theorem agree_classExpression {k : TokenKind} {start : Nat} (hk : k = .classKw ∨ k = .atSign) :
    Agree a n depth (fun b => since n b ∧ b.token = k) (classExpression g start)
      (classExpression g' start) := by
  unfold classExpression
  refine .bind (.weaken (agree_decorators hg) fun _ => And.left) (proceeds g)
    (decorators_leads (n := n)) fun ds => .either (.behind hg inferInstance) ?_
  refine .last ?_
  unfold classLike
  refine .weaken (C := fun b => since n b ∧ b.token = .classKw) ?_ fun b hb => ⟨hb.1.1, ?_⟩
  · exact .require (by decide) (.behind hg inferInstance)
  · exact hk.elim (fun h => hb.1.2.trans h) fun h => absurd (hb.1.2.trans h) hb.2

theorem agree_primary : Agree a n depth (since n) (primary g) (primary g') := by
  unfold primary
  refine .stay fun start => .token fun k => ?_
  have known {k : TokenKind} (hk : k ≠ .endOfFile) (b : Spot) (hb : since n b ∧ b.token = k) :
      live n b :=
    .inr ⟨hb.1, fun hend => hk (hb.2.symm.trans hend)⟩
  split
  case h_4 => exact (agree_template hg).weaken (known (by decide))
  case h_5 => exact (agree_template hg).weaken (known (by decide))
  case h_11 => exact agree_advance hg (by decide) inferInstance
  case h_12 =>
    unfold arrayLiteral
    exact .require (by decide) (.behind hg inferInstance)
  case h_13 =>
    unfold objectLiteral
    exact .require (by decide) (.behind hg inferInstance)
  case h_14 =>
    exact .stay fun _ => .ite (fun _ => agree_functionExpression hg (.inl rfl)) fun _ => .same
  case h_15 => exact agree_functionExpression hg (.inr rfl)
  case h_16 => exact agree_classExpression hg (.inl rfl)
  case h_17 => exact agree_classExpression hg (.inr rfl)
  case h_18 =>
    unfold newExpression
    exact .require (by decide) (.behind hg inferInstance)
  all_goals exact .same

theorem agree_binding {missing : Message} :
    Agree a n depth (since n) (binding g missing) (binding g' missing) := by
  unfold binding
  refine .token fun k => ?_
  split
  · unfold objectPattern
    exact .stay fun _ => .require (by decide) (.behind hg inferInstance)
  · unfold arrayPattern
    exact .stay fun _ => .require (by decide) (.behind hg inferInstance)
  · exact .same

/-- The name of a namespace can be missing, but not the dot or brace before what is in it. -/
theorem agree_namespaceBody {start : Nat} {ms : Modifiers} :
    Agree a n depth (since n) (namespaceBody g start ms) (namespaceBody g' start ms) := by
  unfold namespaceBody namespaceContent moduleBlock moduleStatements
  refine .first inferInstance (.keep inferInstance) fun name => .last ?_
  refine .accept (by decide) (.behind hg inferInstance) ?_
  refine .ite (fun h => absurd h Bool.false_ne_true) fun _ => .stay fun start => .last ?_
  exact .expect (by decide) (.behind hg inferInstance)
    (.ite (fun h => absurd h Bool.false_ne_true) fun _ => .same)

end

/-- A nonterminal with which another one starts, before a token is passed over: an operation starts
with its first operand, and a type can be a literal. -/
inductive Opens : Nonterminal → Nonterminal → Prop
  | operand (above : Precedence) : Opens (.binary above) .unary
  | literal : Opens .typeOperator .primary

/-- A nonterminal is asked for further down: behind a token, nested deeper, or as the start. -/
structure Descends (nt : Nonterminal) (s : ParseState) (nt' : Nonterminal) (s' : ParseState) :
    Prop where
  beyond : s'.Beyond s.place s.place.pos s.depth
  down : s.place.pos < s'.place.pos ∨ (s.depth < s'.depth ∧ s.depth < Limits.nesting) ∨ Opens nt nt'

section
variable {g g' : Grammar} [Lawful g] {s : ParseState}

/-- What is counted asks for nothing at the limit and one level deeper below it. -/
theorem nested_eq {substitute p p' : Parse Node} (hr : s.place.Ready) (hp : Alike g g' p p')
    (h : s.depth < Limits.nesting → ∀ nt t, t.Beyond s.place s.place.pos (s.depth + 1) →
      g nt t = g' nt t) : nested substitute p s = nested substitute p' s := by
  by_cases hd : s.depth < Limits.nesting
  · have heq := hp.agrees (h hd) { s with depth := s.depth + 1 } ⟨.refl hr, rfl, le_rfl, le_rfl⟩
    rw [nested_of_lt hd, nested_of_lt hd, heq]
  · rw [nested_of_limit (Nat.le_of_not_lt hd), nested_of_limit (Nat.le_of_not_lt hd)]

/-- Rules go down: over grammars that give the same answers further down a rule does the same. -/
theorem rule_eq_of_descends {nt : Nonterminal} (hr : s.place.Ready)
    (h : ∀ nt' t, Descends nt s nt' t → g nt' t = g' nt' t) : rule g nt s = rule g' nt s := by
  have behind (nt' : Nonterminal) (t : ParseState)
      (ht : t.Beyond s.place (s.place.pos + 1) s.depth) : g nt' t = g' nt' t :=
    h nt' t ⟨⟨ht.reaches, ht.source, Nat.le_of_succ_le ht.pos_le, ht.depth_le⟩, .inl ht.pos_le⟩
  have deeper (hd : s.depth < Limits.nesting) (nt' : Nonterminal) (t : ParseState)
      (ht : t.Beyond s.place s.place.pos (s.depth + 1)) : g nt' t = g' nt' t :=
    h nt' t ⟨⟨ht.reaches, ht.source, ht.pos_le, Nat.le_of_succ_le ht.depth_le⟩,
      .inr (.inl ⟨ht.depth_le, hd⟩)⟩
  have opens {nt' : Nonterminal} (ho : Opens nt nt') (t : ParseState)
      (ht : t.Beyond s.place s.place.pos s.depth) : g nt' t = g' nt' t :=
    h nt' t ⟨ht, .inr (.inr ho)⟩
  have here : s.Beyond s.place s.place.pos s.depth := ⟨.refl hr, rfl, le_rfl, le_rfl⟩
  cases nt with
  | statement | type | assignment | unary => exact nested_eq hr inferInstance deeper
  | typeOperator => exact agree_typeOperator behind (opens .literal) s here le_rfl
  | binary above => exact agree_binary behind (opens (.operand above)) s here le_rfl
  | primary => exact agree_primary behind s here le_rfl
  | binding missing => exact agree_binding behind s here le_rfl
  | namespaceBody start ms => exact agree_namespaceBody behind s here le_rfl

end

end Erasure.Parse

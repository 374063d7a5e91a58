import Erasure.Proofs.Parse.Types

/-!
Classes, primary expressions, arrow functions and operators are genuine as long as nothing was
reported.
-/

namespace Erasure.Parse

variable {P : Place → Prop} {g : Grammar} [Sound g]

theorem heritage_gives [Stable P] {isType : Bool} :
    Gives P (heritage g isType) (always Node.Genuine) := by
  unfold heritage
  refine .stay fun start => .bind leftHandSide_gives fun n => ?_
  have hsplit (a : Place) (ha : P a ∧ built n a) := ha.2.1.splitInstantiation
  split
  rename_i expression inner heq
  rw [heq] at hsplit
  have rest (types : Option (List Node)) : Gives (fun a => (P a ∧ built n a) ∧ typed types a)
      (finish start (.heritage isType expression types)) (always Node.Genuine) :=
    .finish fun a ha => ⟨rfl, rfl, .nil, .cons (hsplit a ha.1).1 ha.2⟩
  refine .ite (fun _ => ?_) fun _ => .bind typeArguments_gives rest
  exact .bind (.pure fun a ha => (hsplit a ha).2) rest

theorem heritageList_gives [Stable P] {isType : Bool} :
    Gives P (heritageList g isType) (always GenuineAll) :=
  .collect (.bind heritage_gives fun _ => .step fun _ => .pure fun _ ha => collected_some ha.2)

theorem heritageClauses_gives [Stable P] :
    Gives P (heritageClauses g) (always fun x => GenuineAll (x.1.toList ++ x.2)) := by
  unfold heritageClauses
  refine .loop (fun _ _ => .nil) fun ⟨base, interfaces⟩ => ?_
  refine .step fun isExtends => .ite (fun _ => ?_) fun _ => ?_
  · refine .bind heritageList_gives fun bases => .pure fun _ ha => ?_
    obtain ⟨hbase, hinterfaces⟩ := List.forall_mem_append.mp ha.1.2
    refine List.forall_mem_append.mpr ⟨fun n hn => ?_, hinterfaces⟩
    rcases Option.or_eq_some_iff.mp (Option.mem_toList.mp hn) with h | ⟨-, h⟩
    · exact hbase n (Option.mem_toList.mpr h)
    · exact ha.2 n (List.mem_of_mem_head? h)
  · refine .step fun isImplements => .ite (fun _ => ?_) fun _ => .pure fun _ ha => ha.2
    refine .bind heritageList_gives fun entries => .pure fun _ ha => ?_
    show GenuineAll (base.toList ++ (interfaces ++ entries))
    rw [← List.append_assoc]
    exact ha.1.2.append ha.2

theorem accessor_gives [Stable P] {start : Nat} {bodyRequired : Bool}
    {getter setter : Node → Node → Form} {R : Form → Prop}
    (hget : ∀ name func, name.Genuine → func.Genuine → R (getter name func))
    (hset : ∀ name func, name.Genuine → func.Genuine → R (setter name func)) :
    Gives P (accessor g start bodyRequired getter setter) (always R) := by
  unfold accessor
  refine .stay fun isGet => .step fun _ => .bind propertyKey_gives fun name =>
    .bind functionRest_gives fun func => .pure fun _ ha => ?_
  cases isGet
  · exact hset name func ha.1.2 ha.2
  · exact hget name func ha.1.2 ha.2

theorem propertyInitializer_gives [Stable P] :
    Gives P (propertyInitializer? g) (optional Node.Genuine) :=
  .withContext _ initializer_gives

/-- The nodes of a form that stands in another one. -/
def parts : Form → Place → Prop := always fun form => GenuineAll form.directChildren

instance (form : Form) : Stable (parts form) := inferInstanceAs (Stable (always _ form))

theorem namedMember_gives [Stable P] {start : Nat} {ms : Modifiers} :
    Gives P (namedMember g start ms) parts := by
  unfold namedMember
  refine .step fun isGenerator => .bind propertyKey_gives fun name => .step fun isOptional =>
    .stay fun _ => .ite (fun _ => ?_) fun _ => ?_
  · exact .bind functionRest_gives fun func => .pure fun _ ha => .cons ha.1.2 (.one ha.2)
  · exact .step fun isDefinite => .bind typeClause_gives fun type =>
      .bind propertyInitializer_gives fun initializer => .step fun _ => .pure fun _ ha =>
      GenuineAll.append (.cons ha.1.1.2 ha.1.2) ha.2

theorem member_gives [Stable P] {start : Nat} {ms : Modifiers} :
    Gives P (member? g start ms) (optional fun form => GenuineAll form.directChildren) := by
  unfold member?
  refine .stay fun isStatic => .ite (fun _ => .step fun advanced => ?_) fun _ => ?_
  · exact .bind (.withContext _ block_gives) fun body => .pure fun _ ha => optional_some (.one ha.2)
  dsimp only
  refine .stay fun isAccessor => .ite (fun _ => ?_) fun _ => ?_
  · exact .bind (accessor_gives (R := fun form => GenuineAll form.directChildren)
      (fun _ _ hn hf => .cons hn (.one hf)) fun _ _ hn hf => .cons hn (.one hf)) fun form =>
      .pure fun _ ha => optional_some ha.2
  refine .stay fun isConstructor => .ite (fun _ => .step fun advanced => ?_) fun _ => ?_
  · exact .bind functionRest_gives fun func => .pure fun _ ha => optional_some (.one ha.2)
  refine .stay fun isIndex => .ite (fun _ => ?_) fun _ => ?_
  · exact .bind indexSignature_gives fun _ => .step fun ended => .pure fun _ ha =>
      optional_some ha.2
  refine .stay fun isGenerator => .stay fun isKey => .ite (fun _ => ?_) fun _ => ?_
  · exact .bind namedMember_gives fun form => .pure fun _ ha => optional_some ha.2
  · exact .pure fun _ _ => nofun

theorem classMember_gives [Stable P] : Gives P (classMember? g) (optional Node.Genuine) := by
  unfold classMember?
  refine .stay fun start => .step fun found => .ite (fun _ => ?_) fun _ =>
    .bind decorators_gives fun ds => .step fun ms => .bind member_gives fun m => ?_
  · exact .bind (.finish fun _ _ => ⟨rfl, rfl, .nil, .nil⟩) fun n => .pure fun _ ha =>
      optional_some ha.2
  · split
    · refine .bind (.finish fun _ ha => ⟨rfl, rfl, .nil, ?_⟩) fun n => .pure fun _ ha =>
        optional_some ha.2
      exact ha.1.2.append (ha.2 _ List.mem_cons_self)
    · exact .error

theorem classMembers_gives [Stable P] : Gives P (classMembers g) (always GenuineAll) := by
  unfold classMembers
  refine .step fun found => .ite (fun _ => .pure fun _ _ => .nil) fun _ =>
    .bind (.collect (R := Node.Genuine) ?_) fun members => .step fun _ => .pure fun _ ha => ha.2
  refine .stay fun atEnd => .ite (fun _ => .pure fun _ _ => nofun) fun _ => .stay fun start =>
    .bind classMember_gives fun m => .stay fun _ => .ite (fun _ => .pure fun _ _ => nofun) fun _ =>
    .stay fun _ => ?_
  have keep (a : Place) (ha : P a ∧ optional Node.Genuine m a) :
      collected Node.Genuine (m, false) a := fun n hn => ha.2 n (Option.mem_toList.mpr hn)
  exact .ite (fun _ => .step fun _ => .pure keep) fun _ => .pure keep

theorem classLike_gives [Stable P] {start : Nat} {ds : List Node} {ms : Modifiers}
    (h : ∀ a, P a → GenuineAll ds) : Gives P (classLike g start ds ms) (always Node.Genuine) := by
  unfold classLike
  refine .step fun _ => .bind (.when identifier_gives) fun name =>
    .bind typeParameters_gives fun typeParameters => .bind heritageClauses_gives
    fun ⟨base, interfaces⟩ => .bind classMembers_gives fun members => .finish fun a ha => ?_
  refine ⟨rfl, rfl, .map ha.1.1.1.2, ?_⟩
  have hclauses := ((h a ha.1.1.1.1).append ha.1.1.2).append ha.1.2
  rw [← List.append_assoc] at hclauses
  exact hclauses.append ha.2

/-- What follows the name of a property. Only a name can do without a value. -/
theorem namedProperty_gives [Stable P] {start : Nat} {isAsync : Bool} :
    Gives P (namedProperty g start isAsync) (always Form.Genuine) := by
  unfold namedProperty
  refine .step fun isGenerator => .ask (R := fun found a => found = true →
    a.scanner.token.isIdentifierLike = true) (fun _ _ => isIdentifierLike_of_isIdentifier)
    fun isName => .forget (propertyKey_keyed isName fun _ ha => ha.2) fun name => ?_
  refine .step fun question => .stay fun isMethod => .ite (fun _ => ?_) fun _ => ?_
  · exact .bind functionRest_gives fun func => .pure fun _ ha =>
      ⟨rfl, rfl, .nil, .cons ha.1.1 (.one ha.2)⟩
  refine .stay fun hasValue => .ite (fun hname => ?_) fun _ => .step fun required => ?_
  · split
    · rename_i text hform
      exact .bind initializer_gives fun initializer => .pure fun _ ha =>
        ⟨rfl, rfl, .one (ha.1.1.identifierKey_ne hform), ha.2⟩
    · rename_i hform
      refine .of_false fun _ ha => ?_
      obtain ⟨text, htext⟩ := ha.2 (Bool.and_eq_true_iff.mp hname).1
      exact hform text htext
  · exact .bind (part .assignment) fun value => .pure fun _ ha =>
      ⟨rfl, rfl, .nil, .cons ha.1.1 (.one ha.2.1)⟩

theorem objectProperty_gives [Stable P] : Gives P (objectProperty g) (always Node.Genuine) := by
  unfold objectProperty
  refine .stay fun start => .step fun isSpread => .ite (fun _ => ?_) fun _ => .step fun ms =>
    .stay fun isAccessor => ?_
  · exact .bind (part .assignment) fun operand => .finish fun _ ha =>
      ⟨rfl, rfl, .nil, .one ha.2.1⟩
  · refine .ite (fun _ => .bind (accessor_gives (R := Form.Genuine) ?_ ?_) fun _ =>
      .finish fun _ ha => ha.2) fun _ => .bind namedProperty_gives fun _ => .finish fun _ ha => ha.2
    · exact fun _ _ hn hf => ⟨rfl, rfl, .nil, .cons hn (.one hf)⟩
    · exact fun _ _ hn hf => ⟨rfl, rfl, .nil, .cons hn (.one hf)⟩

instance : Proceeds (objectProperty g) := proceeds g

section
variable [Stable P] {start : Nat} (hs : ∀ a, P a → start ≤ a.pos)
include hs

theorem arrayLiteral_gives : Gives P (arrayLiteral g start) built := by
  unfold arrayLiteral
  refine .step fun _ => .bind (.allowIn (delimitedList_gives argument_gives))
    fun _ => .step fun _ => .finishBuilt (fun a ha => hs a ha.1) fun _ ha => ?_
  exact ⟨rfl, rfl, .nil, ha.2⟩

theorem objectLiteral_gives : Gives P (objectLiteral g start) built := by
  unfold objectLiteral
  refine .step fun _ => .bind (.allowIn (delimitedList_gives objectProperty_gives))
    fun _ => .step fun _ => .finishBuilt (fun a ha => hs a ha.1) fun _ ha => ?_
  exact ⟨rfl, rfl, .nil, ha.2⟩

theorem functionExpression_gives : Gives P (functionExpression g start) built := by
  unfold functionExpression
  refine .step fun ms => .step fun _ => .step fun isGenerator =>
    .bind (.withContext _ (.when identifier_gives)) fun name => .bind functionRest_gives
    fun func => .finishBuilt (fun a ha => hs a ha.1.1) fun _ ha => ?_
  exact ⟨rfl, rfl, .map ha.1.2, .one ha.2⟩

theorem classExpression_gives : Gives P (classExpression g start) built := by
  unfold classExpression
  refine .bind decorators_gives fun ds => .bind (classLike_gives fun _ ha => ha.2) fun cls =>
    .finishBuilt (fun a ha => hs a ha.1.1) fun _ ha => ?_
  exact ⟨rfl, rfl, .nil, .one ha.2⟩

theorem newExpression_gives : Gives P (newExpression g start) built := by
  unfold newExpression
  refine .step fun _ => .step fun isMeta => .ite (fun _ => ?_) fun _ => .pos fun calleeStart =>
    .bind (part .primary) fun operand => .bind (memberChain_gives (fun _ ha => ha.1.2)
      fun _ ha => ha.2) fun n => ?_
  · exact .bind identifierName_gives fun name => .finishBuilt (fun a ha => hs a ha.1) fun _ ha =>
      ⟨rfl, rfl, .one ha.2, .nil⟩
  · split
    rename_i callee types heq
    refine .bind (.when argumentList_gives) fun arguments =>
      .finishBuilt (fun a ha => hs a ha.1.1.1.1) fun _ ha => ⟨rfl, rfl, .nil, ?_⟩
    have hsplit := ha.1.2.1.splitInstantiation
    rw [heq] at hsplit
    refine .cons hsplit.1 (hsplit.2.append ?_)
    cases arguments with
    | none => exact .nil
    | some arguments => exact ha.2 _ List.mem_cons_self

theorem parenthesized_gives : Gives P (parenthesized g start) built := by
  unfold parenthesized
  exact .step fun _ => .bind expressionAllowIn_gives fun inner => .step fun _ =>
    .finishBuilt (fun a ha => hs a ha.1) fun _ ha => ⟨rfl, rfl, .nil, .one ha.2.1⟩

theorem tokenNode_gives {form : Form} (h : ∀ a, P a → form.Genuine) :
    Gives P (tokenNode start form) built :=
  .step fun _ => .finishBuilt hs h

theorem regularExpression_gives : Gives P (regularExpression start) built := by
  unfold regularExpression
  exact .step fun _ => .stay fun text => tokenNode_gives hs fun _ _ => ⟨rfl, rfl, .nil, .nil⟩

theorem nameExpression_gives : Gives P (nameExpression start) built := by
  unfold nameExpression
  refine .stay fun _ => .ite (fun _ => ?_) fun _ => .error
  exact .bind identifier_gives fun name => .finishBuilt (fun a ha => hs a ha.1) fun _ ha =>
    ⟨rfl, rfl, .one ha.2, .nil⟩

end

theorem primary_gives [Stable P] : Gives P (primary g) built := by
  unfold primary
  refine .pos fun start => .ask (R := fun k a => a.scanner.token = k) (fun _ _ => rfl) fun k => ?_
  split
  case h_3 =>
    refine tokenText_gives (fun _ ha => ha.2) (by decide) (by decide) fun raw =>
      .stay fun value => ?_
    refine .weaken (K := fun a => start ≤ a.pos ∧ raw ≠ "") ?_ fun _ ha => ⟨ha.1.1.2, ha.2⟩
    exact tokenNode_gives (fun _ ha => ha.1) fun _ ha => ⟨rfl, rfl, .one ha.2, .nil⟩
  case h_21 =>
    refine .forget (.keep (K := fun a => start ≤ a.pos) (fun _ ha => ha.1.2)
      (takeIdentifier_gives fun _ ha => by rw [ha.2]; rfl)) fun name => ?_
    exact .finishBuilt (fun _ ha => ha.1) fun _ ha => ⟨rfl, rfl, .one ha.2, .nil⟩
  -- In the other cases it does not matter what the token is.
  all_goals
    refine .weaken (K := fun a => P a ∧ start ≤ a.pos) ?_ fun _ ha => ha.1
    have hs (a : Place) (ha : P a ∧ start ≤ a.pos) : start ≤ a.pos := ha.2
  iterate 2
    exact .stay fun text => tokenNode_gives hs fun _ _ => ⟨rfl, rfl, .nil, .nil⟩
  iterate 2
    exact template_gives
  iterate 5
    exact tokenNode_gives hs fun _ _ => ⟨rfl, rfl, .nil, .nil⟩
  · exact parenthesized_gives hs
  · exact arrayLiteral_gives hs
  · exact objectLiteral_gives hs
  · exact .stay fun _ => .ite (fun _ => functionExpression_gives hs) fun _ =>
      nameExpression_gives hs
  · exact functionExpression_gives hs
  iterate 2
    exact classExpression_gives hs
  · exact newExpression_gives hs
  iterate 2
    exact regularExpression_gives hs
  · exact nameExpression_gives hs

/-- A node that was built, if there is one. -/
def builtSome (r : Option Node) (a : Place) : Prop := ∀ n ∈ r, built n a

instance (r : Option Node) : Stable (builtSome r) := ⟨fun h hr n hn => Stable.mono h (hr n hn)⟩

theorem builtSome_some {n : Node} {a : Place} (h : built n a) : builtSome (some n) a := by
  rintro _ ⟨⟩
  exact h

theorem arrowBody_gives [Stable P] {isAsync : Bool} :
    Gives P (arrowBody g isAsync) (always Node.Genuine) := by
  unfold arrowBody
  refine .step fun _ => .stay fun _ => .ite (fun _ => functionBody_gives) fun _ => ?_
  exact .withContext _ (part .assignment).genuine

theorem parenthesizedArrow_gives [Stable P] {isCertain : Bool} :
    Gives P (parenthesizedArrow? g isCertain) builtSome := by
  unfold parenthesizedArrow?
  refine .pos fun start => .step fun isAsync => .bind typeParameters_gives fun typeParameters =>
    .stay fun _ => .ite (fun _ => .pure fun _ _ => nofun) fun _ => .bind parameters_gives
    fun ps => .bind returnType_gives fun returnType => .stay fun _ =>
    .ite (fun _ => .pure fun _ _ => nofun) fun _ => .bind arrowBody_gives fun body => ?_
  refine .forget (.finishBuilt (fun _ ha => ha.1.1.1.1.2) fun _ ha => ⟨rfl, rfl, .nil, ?_⟩)
    fun n => .pure fun _ ha => builtSome_some ha
  exact ((ha.1.1.1.2.append ha.1.1.2).append ha.1.2).append (.one ha.2)

theorem speculativeArrow_gives [Stable P] : Gives P (speculativeArrow? g) builtSome := by
  unfold speculativeArrow?
  refine .attempt (.stay fun errors => .bind parenthesizedArrow_gives fun arrow => .stay fun _ =>
    .pure fun _ ha => ?_) fun _ => nofun
  split
  · exact ha.2
  · exact nofun

theorem arrowFunction_gives [Stable P] : Gives P (arrowFunction? g) builtSome := by
  unfold arrowFunction?
  refine .stay fun _ => .ite (fun _ => .pure fun _ _ => nofun) fun _ => .stay fun evidence => ?_
  cases evidence with
  | no => exact .pure fun _ _ => nofun
  | yes => exact parenthesizedArrow_gives
  | unclear => exact speculativeArrow_gives

theorem bareArrow_gives [Stable P] {start : Nat} {name : Node} {isAsync : Bool}
    (hs : ∀ a, P a → start ≤ a.pos) (hn : ∀ a, P a → name.Genuine) :
    Gives P (bareArrow g start name isAsync) built := by
  unfold bareArrow
  refine .stay fun id => .bind arrowBody_gives fun body => .finishBuilt (fun a ha => hs a ha.1)
    fun a ha => ⟨rfl, rfl, .nil, ?_⟩
  exact .cons (.of_form ⟨rfl, rfl, .nil, .one (hn a ha.1)⟩) (.one ha.2)

theorem asyncBareArrow_gives [Stable P] : Gives P (asyncBareArrow? g) builtSome := by
  unfold asyncBareArrow?
  refine .stay fun _ => .ite (fun _ => .pure fun _ _ => nofun) fun _ => .pos fun start =>
    .step fun _ => .bind (.withContext _ identifier_gives) fun name => ?_
  exact .forget (bareArrow_gives (fun _ ha => ha.1.2) fun _ ha => genuine_toBinding ha.2) fun n =>
    .pure fun _ ha => builtSome_some ha

section
variable [Stable P] {start : Nat} (hs : ∀ a, P a → start ≤ a.pos)
include hs

omit hs [Stable P] in
theorem proceeds_markupStep (depth : Nat) : Proceeds (markupStep depth) := by
  unfold markupStep
  refine .bind inferInstance fun r => ?_
  split <;> infer_instance

omit hs [Stable P] in
theorem skipMarkup_gives : Gives P (skipMarkup start) built := by
  unfold skipMarkup
  have := proceeds_markupStep
  exact .error

theorem prefixOperation_gives {form : Node → Form} (h : ∀ n, n.Genuine → (form n).Genuine) :
    Gives P (prefixOperation g start form) built := by
  unfold prefixOperation
  exact .step fun _ => .bind (part .unary) fun operand => .finishBuilt (fun a ha => hs a ha.1)
    fun _ ha => h _ ha.2.1

theorem typeAssertion_gives : Gives P (typeAssertion g start) built := by
  unfold typeAssertion
  refine .step fun _ => .bind (part .type) fun type => .step fun _ => .bind (part .unary)
    fun operand => .finishBuilt (fun a ha => hs a ha.1.1) fun _ ha => ⟨rfl, rfl, .nil, ?_⟩
  exact .cons ha.2.1 (.one ha.1.2.1)

theorem postfixOperation_gives : Gives P (postfixOperation g start) built := by
  unfold postfixOperation
  refine .bind leftHandSide_gives fun operand => .stay fun operator => .stay fun _ =>
    .ite (fun _ => ?_) fun _ => .pure fun _ ha => ha.2
  exact .step fun _ => .finishBuilt (fun a ha => hs a ha.1) fun _ ha =>
    ⟨rfl, rfl, .nil, .one ha.2.1⟩

end

theorem unaryInner_gives [Stable P] : Gives P (unaryInner g) built := by
  unfold unaryInner
  refine .pos fun start => .stay fun operator => ?_
  have hs (a : Place) (ha : P a ∧ start ≤ a.pos) : start ≤ a.pos := ha.2
  have operation {form : Node → Form} (h : ∀ n, n.Genuine → (form n).Genuine) :
      Gives (fun a => P a ∧ start ≤ a.pos) (prefixOperation g start form) built :=
    prefixOperation_gives hs h
  split
  iterate 9
    exact operation fun _ hn => ⟨rfl, rfl, .nil, .one hn⟩
  · exact .stay fun _ => .ite (fun _ => operation fun _ hn => ⟨rfl, rfl, .nil, .one hn⟩) fun _ =>
      postfixOperation_gives hs
  · exact .stay fun _ => .ite (fun _ => skipMarkup_gives) fun _ => typeAssertion_gives hs
  · exact postfixOperation_gives hs

theorem unary_gives [Stable P] : Gives P (unary g) built := .nested unaryInner_gives

section
variable [Stable P] {start : Nat} {left : Node} (hs : ∀ a, P a → start ≤ a.pos)
  (hl : ∀ a, P a → built left a)
include hs hl

theorem binaryStep_gives {operator : TokenKind} {level : Precedence} :
    Gives P (binaryStep g start left operator level) built := by
  unfold binaryStep
  refine .stay fun breakBefore => .step fun _ => .stay fun breakAfter =>
    .bind (part (.binary level)) fun right => ?_
  have node : Gives (fun a => P a ∧ built right a)
      (binaryNode start left operator right breakBefore breakAfter) built :=
    binaryNode_gives (fun a ha => hs a ha.1) (fun a ha => (hl a ha.1).1) fun _ ha => ha.2.1
  exact .ite (fun _ => .stay fun _ => .stay fun _ => node) fun _ => node

theorem assertionStep_gives {operator : TokenKind} :
    Gives P (assertionStep g start left operator) built := by
  unfold assertionStep
  refine .step fun _ => .bind (part .type) fun type => .finishBuilt (fun a ha => hs a ha.1)
    fun a ha => ?_
  have hall : GenuineAll [left, type] := .cons (hl a ha.1).1 (.one ha.2.1)
  split <;> exact ⟨rfl, rfl, .nil, hall⟩

theorem binaryRest_gives {above : Precedence} : Gives P (binaryRest g start above left) built := by
  unfold binaryRest
  refine .bind (.loop (I := growing) hl fun x => ?_) fun x => .pure fun _ ha => ha.2
  obtain ⟨left, chain⟩ := x
  have hs' (a : Place) (ha : P a ∧ built left a) : start ≤ a.pos := hs a ha.1
  refine .step fun level => ?_
  split
  · exact .pure fun _ ha => ha.2
  · refine .stay fun tooLong => .ite (fun _ => .pure fun _ ha => ha.2) fun _ => ?_
    refine .stay fun operator => .ite (fun _ => ?_) fun _ => ?_
    · refine .stay fun onNewLine => .ite (fun _ => .pure fun _ ha => ha.2) fun _ => ?_
      exact .forget (assertionStep_gives hs' fun _ ha => ha.2) fun n => .pure fun _ ha => ha
    · exact .forget (binaryStep_gives hs' fun _ ha => ha.2) fun n => .pure fun _ ha => ha

end

theorem binary_gives [Stable P] {above : Precedence} : Gives P (binary g above) built := by
  unfold binary
  exact .pos fun start => .bind (part .unary) fun first => .stay fun _ =>
    binaryRest_gives (fun _ ha => ha.1.2) fun _ ha => ha.2

section
variable [Stable P] {start : Nat} (hs : ∀ a, P a → start ≤ a.pos)
include hs

theorem yieldExpression_gives : Gives P (yieldExpression g start) built := by
  unfold yieldExpression
  refine .step fun _ => .stay fun _ => .ite (fun _ => .step fun isDelegate =>
    .bind (part .assignment) fun operand => ?_) fun _ => ?_
  · exact .finishBuilt (fun a ha => hs a ha.1) fun _ ha => ⟨rfl, rfl, .nil, .one ha.2.1⟩
  · exact .finishBuilt hs fun _ _ => ⟨rfl, rfl, .nil, .nil⟩

variable {first : Node} (hf : ∀ a, P a → built first a)
include hf

theorem conditionalRest_gives : Gives P (conditionalRest g start first) built := by
  unfold conditionalRest
  refine .stay fun beforeQuestion => .step fun _ => .ite (fun _ => .pure hf) fun _ =>
    .stay fun afterQuestion => .bind (.allowIn (part .assignment)) fun whenTrue =>
    .stay fun beforeColon => .step fun _ => .stay fun afterColon => .bind (part .assignment)
    fun whenFalse => .finishBuilt (fun a ha => hs a ha.1.1) fun a ha => ⟨rfl, rfl, .nil, ?_⟩
  exact .cons (hf a ha.1.1).1 (.cons ha.1.2.1 (.one ha.2.1))

theorem assignmentRest_gives : Gives P (assignmentRest g start first) built := by
  unfold assignmentRest
  exact .stay fun operator => .stay fun breakBefore => .step fun _ => .stay fun breakAfter =>
    .bind (part .assignment) fun value => binaryNode_gives (fun a ha => hs a ha.1)
    (fun a ha => (hf a ha.1).1) fun _ ha => ha.2.1

theorem operationRest_gives : Gives P (operationRest g start first) built := by
  unfold operationRest
  have rest : Gives P (do
      if ← isAssignmentTo first then assignmentRest g start first
      else conditionalRest g start first) built :=
    .step fun _ => .ite (fun _ => assignmentRest_gives hs hf) fun _ => conditionalRest_gives hs hf
  refine .stay fun _ => .ite (fun _ => ?_) fun _ => rest
  split
  · rename_i text htext
    refine bareArrow_gives hs fun a ha => ?_
    exact .of_form ⟨rfl, rfl, .one ((hf a ha).1.identifier?_ne htext), .nil⟩
  · exact rest

end

theorem assignmentInner_gives [Stable P] : Gives P (assignmentInner g) built := by
  unfold assignmentInner
  refine .pos fun start => .stay fun _ => .stay fun _ => .ite (fun _ => yieldExpression_gives
    fun _ ha => ha.2) fun _ => .bind arrowFunction_gives fun arrow => ?_
  split
  · exact .pure fun _ ha => ha.2 _ rfl
  · refine .bind asyncBareArrow_gives fun arrow => ?_
    split
    · exact .pure fun _ ha => ha.2 _ rfl
    · exact .bind (part (.binary .comma)) fun first =>
        operationRest_gives (fun _ ha => ha.1.1.1.2) fun _ ha => ha.2

theorem assignment_gives [Stable P] : Gives P (assignment g) built := .nested assignmentInner_gives

end Erasure.Parse

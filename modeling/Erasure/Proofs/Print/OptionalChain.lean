import Erasure.Compile

/-!
Parentheses around what is left of an expression without its types. They come back where it would
bind too loosely for its place. That is not enough behind `new`, where a call inside of the callee
takes the place of the construction, and not at the end of an optional chain.

Optional chains. If an optional link of a chain finds nothing, the links behind it are not
evaluated, up to the end of the chain; parentheses end it. They are kept if they stand right around
the chain. With an assertion in between they only come back by precedence, which does not see that
an operation behind them becomes a further link.
-/

namespace Erasure

theorem Node.erased_eq (n : Node) : n.erased = n.form.insideErased?.getD n := by
  cases n
  rw [Node.erased]

theorem Node.erased_of_none {n : Node} (h : n.form.insideErased? = none) : n.erased = n := by
  rw [Node.erased_eq, h]
  rfl

namespace Print

theorem le_primary (p : Precedence) : p ≤ .primary := by
  cases p <;> decide

/-- Parentheses are only added where something was erased or replaced. -/
theorem needsParentheses_eq_false {n : Node} (h : n.form.insideErased? = none)
    (required : Precedence) (besideCoalesce : Bool) :
    needsParentheses n none required besideCoalesce = false := by
  simp [needsParentheses, h]

end Print

/-- The text of a program without its types. -/
def printed (fileName source : String) : String :=
  let file := (parseSource fileName source).1
  file.print file.bind {}

/-- A statement that constructs an object. -/
def Node.constructs (n : Node) : Bool :=
  match n.form with
  | .exprStmt ⟨_, _, .newExpr _ _ _⟩ => true
  | _ => false

/-- A member of a call binds as tightly as a callee needs, but without parentheses the call is the
end of the construction: the statement constructs no more what it did in the source. -/
theorem construction_regrouped :
    (parseSource "input.ts" "new (a().b as any)();").2 = [] ∧
      (parseSource "input.ts" "new (a().b as any)();").1.statements.map Node.constructs = [true] ∧
      printed "input.ts" "new (a().b as any)();" = "new a().b();\n" ∧
      (parseSource "input.js" "new a().b();\n").2 = [] ∧
      (parseSource "input.js" "new a().b();\n").1.statements.map Node.constructs = [false] := by
  decide +kernel

mutual

/-- A chain with an optional link. An assertion that something is not null is no end of it. -/
def Node.isOptionalChain : Node → Bool
  | ⟨_, _, form⟩ => form.isOptionalChain

def Form.isOptionalChain : Form → Bool
  | .propertyAccess target _ isOptional _ | .elementAccess target _ isOptional
  | .call target _ _ isOptional => isOptional || target.isOptionalChain
  | .taggedTemplate tag _ _ => tag.isOptionalChain
  | .nonNull operand => operand.isOptionalChain
  | _ => false

end

mutual

/-- Of the parentheses and assertions around an expression, the innermost are parentheses. -/
def Node.isBracketed : Node → Bool
  | ⟨_, _, form⟩ => form.isBracketed

def Form.isBracketed : Form → Bool
  | .parenthesized inner => inner.form.insideOuter?.isNone || inner.isBracketed
  | .nonNull operand | .asExpr operand _ | .satisfiesExpr operand _ | .typeAssertion _ operand =>
      operand.isBracketed
  | _ => false

end

namespace Node

/-- An optional chain that ends at the parentheses around it, which may hold assertions too. -/
def isClosedChain (n : Node) : Bool := !n.isOptionalChain && n.skipOuter.isOptionalChain

/-- A chain whose last link binds looser than a member. -/
def endsInCall (n : Node) : Bool :=
  match n.form with
  | .call _ _ _ _ | .taggedTemplate _ _ _ => true
  | _ => false

/-- Whether a closed chain is printed in parentheses where it is operated on: they stand right
around it, or the last link is a call and a call is not what the place allows. -/
def staysClosed (n : Node) (required : Precedence) : Bool :=
  n.isBracketed || (n.skipOuter.endsInCall && required = .member)

theorem skipOuter_eq (n : Node) : n.skipOuter = n.form.insideOuter?.getD n := by
  cases n
  rw [skipOuter]

theorem skipOuter_of_none {n : Node} (h : n.form.insideOuter? = none) : n.skipOuter = n := by
  rw [skipOuter_eq, h]
  rfl

theorem skipParentheses_eq (n : Node) :
    n.skipParentheses = n.form.insideParentheses?.getD n := by
  cases n
  rw [skipParentheses]

theorem skipParentheses_of_none {n : Node} (h : n.form.insideOuter? = none) :
    n.skipParentheses = n := by
  obtain ⟨id, span, form⟩ := n
  cases form with
  | parenthesized _ => simp [Form.insideOuter?] at h
  | _ => rfl

theorem isOptionalChain_eq (n : Node) : n.isOptionalChain = n.form.isOptionalChain := by
  cases n
  rw [isOptionalChain]

theorem isBracketed_eq (n : Node) : n.isBracketed = n.form.isBracketed := by
  cases n
  rw [isBracketed]

end Node

mutual

/-- What is left without parentheses and assertions has none around it. -/
theorem Node.insideOuter?_skipOuter : (n : Node) → n.skipOuter.form.insideOuter? = none
  | ⟨id, span, form⟩ => by
      rw [Node.skipOuter]
      cases h : form.insideOuter? with
      | none => exact h
      | some inner => exact Form.insideOuter?_inside form inner h

theorem Form.insideOuter?_inside (form : Form) (left : Node)
    (h : form.insideOuter? = some left) : left.form.insideOuter? = none := by
  cases form with
  | parenthesized operand | nonNull operand | asExpr operand _ | satisfiesExpr operand _
  | typeAssertion _ operand =>
      rw [Form.insideOuter?] at h
      obtain rfl := Option.some.inj h
      exact operand.insideOuter?_skipOuter
  | _ => simp [Form.insideOuter?] at h

end

mutual

/-- Parentheses without an assertion right inside of them have the expression itself there. -/
theorem Node.skipParentheses_of_not_assertion : (n : Node) →
    n.skipParentheses.form.isAssertion = false →
      n.skipParentheses = n.skipOuter ∧ (n.form.insideOuter?.isNone || n.isBracketed) = true
  | ⟨id, span, form⟩, h => by
      rw [Node.skipParentheses_eq, Node.skipOuter_eq, Node.isBracketed_eq] at *
      exact Form.insideParentheses_of_not_assertion id span form h

theorem Form.insideParentheses_of_not_assertion (id : NodeId) (span : Span) (form : Form)
    (h : (form.insideParentheses?.getD ⟨id, span, form⟩).form.isAssertion = false) :
    form.insideParentheses?.getD ⟨id, span, form⟩ = form.insideOuter?.getD ⟨id, span, form⟩ ∧
      (form.insideOuter?.isNone || form.isBracketed) = true := by
  cases form with
  | parenthesized inner =>
      obtain ⟨hskip, hbracketed⟩ := inner.skipParentheses_of_not_assertion
        (by simpa [Form.insideParentheses?] using h)
      refine ⟨by simpa [Form.insideParentheses?, Form.insideOuter?] using hskip, ?_⟩
      simpa [Form.isBracketed] using Or.inr hbracketed
  | asExpr _ _ | satisfiesExpr _ _ | typeAssertion _ _ | nonNull _ =>
      simp [Form.insideParentheses?, Form.isAssertion] at h
  | _ => simp [Form.insideParentheses?, Form.insideOuter?]

end

theorem Node.insideOuter?_of_isAssertion {n : Node}
    (h : n.skipParentheses.form.isAssertion = true) : n.form.insideOuter?.isNone = false := by
  obtain ⟨id, span, form⟩ := n
  cases form with
  | parenthesized _ | nonNull _ | asExpr _ _ | satisfiesExpr _ _ | typeAssertion _ _ =>
      rw [Form.insideOuter?]
      rfl
  | _ => cases h

mutual

/-- Without what is erased, a closed chain stands in parentheses or alone, depending on what stands
right around it. -/
theorem Node.erased_of_chain : (n : Node) → n.skipOuter.isOptionalChain = true →
    n.isBracketed = true ∧
        (∃ inner, n.erased.form = .parenthesized inner ∧ inner.skipParentheses = n.skipOuter) ∨
      n.isBracketed = false ∧ n.erased = n.skipOuter
  | ⟨id, span, form⟩, h => by
      rw [Node.skipOuter_eq, Node.isBracketed_eq, Node.erased_eq] at *
      exact Form.insideErased_of_chain id span form h

theorem Form.insideErased_of_chain (id : NodeId) (span : Span) (form : Form)
    (h : (form.insideOuter?.getD ⟨id, span, form⟩).isOptionalChain = true) :
    form.isBracketed = true ∧
        (∃ inner, (form.insideErased?.getD ⟨id, span, form⟩).form = .parenthesized inner ∧
          inner.skipParentheses = form.insideOuter?.getD ⟨id, span, form⟩) ∨
      form.isBracketed = false ∧
        form.insideErased?.getD ⟨id, span, form⟩ = form.insideOuter?.getD ⟨id, span, form⟩ := by
  cases form with
  | asExpr operand _ | satisfiesExpr operand _ | typeAssertion _ operand | nonNull operand =>
      simpa [Form.isBracketed, Form.insideErased?, Form.insideOuter?] using
        operand.erased_of_chain (by simpa [Form.insideOuter?] using h)
  | parenthesized inner =>
      cases hassertion : inner.skipParentheses.form.isAssertion with
      | true =>
          have houter := Node.insideOuter?_of_isAssertion hassertion
          simpa only [Form.isBracketed, Form.insideErased?, Form.insideOuter?, hassertion, houter,
            Bool.false_or, if_true, Option.getD_some] using
            inner.erased_of_chain (by simpa [Form.insideOuter?] using h)
      | false =>
          obtain ⟨hskip, hbracketed⟩ := inner.skipParentheses_of_not_assertion hassertion
          refine .inl ⟨by rw [Form.isBracketed, hbracketed], inner, ?_, ?_⟩
          · simp [Form.insideErased?, hassertion]
          · simpa [Form.insideOuter?] using hskip
  | instantiation operand _ =>
      simp [Form.insideOuter?, Node.isOptionalChain, Form.isOptionalChain] at h
  | _ => simp [Form.isBracketed, Form.insideErased?, Form.insideOuter?]

end

/-- The links that a chain without anything around it can end in. -/
theorem Form.link_of_chain {form : Form} (h : form.isOptionalChain = true)
    (houter : form.insideOuter? = none) :
    (∃ t name isOptional breaks, form = .propertyAccess t name isOptional breaks) ∨
      (∃ t index isOptional, form = .elementAccess t index isOptional) ∨
      (∃ t types ns isOptional, form = .call t types ns isOptional) ∨
      ∃ t types quasi, form = .taggedTemplate t types quasi := by
  cases form with
  | propertyAccess t name isOptional breaks => exact .inl ⟨t, name, isOptional, breaks, rfl⟩
  | elementAccess t index isOptional => exact .inr (.inl ⟨t, index, isOptional, rfl⟩)
  | call t types ns isOptional => exact .inr (.inr (.inl ⟨t, types, ns, isOptional, rfl⟩))
  | taggedTemplate t types quasi => exact .inr (.inr (.inr ⟨t, types, quasi, rfl⟩))
  | nonNull _ => simp [Form.insideOuter?] at houter
  | _ => simp [Form.isOptionalChain] at h

namespace PrintPlace
variable (p : PrintPlace)

mutual

/-- A chain denotes nothing that is known without running the program. -/
theorem entity?_of_chain : (n : Node) → n.isOptionalChain = true → p.entity? n = none
  | ⟨_, _, form⟩, h => by
      rw [entity?]
      exact entityOf?_of_chain form (by simpa [Node.isOptionalChain] using h)

theorem entityOf?_of_chain (form : Form) (h : form.isOptionalChain = true) :
    p.entityOf? form = none := by
  cases form with
  | propertyAccess target name isOptional breaks =>
      obtain ⟨name, isPrivate⟩ := name
      cases isPrivate <;> cases isOptional <;> simp only [entityOf?]
      rw [entity?_of_chain target (by simpa [Form.isOptionalChain] using h)]
      rfl
  | elementAccess _ _ _ | call _ _ _ _ | taggedTemplate _ _ _ | nonNull _ => rfl
  | _ => simp [Form.isOptionalChain] at h

end

theorem constant?_of_chain {n : Node} (h : n.isOptionalChain = true) : p.constant? n = none := by
  rw [Node.isOptionalChain_eq] at h
  have hobject : ∀ access, memberAccess? n.form = some access →
      access.1.isOptionalChain = true := by
    intro access haccess
    unfold memberAccess? at haccess
    split at haccess
    · rename_i target _ _ hform
      obtain rfl := Option.some.inj haccess
      simpa [hform, Form.isOptionalChain] using h
    · rename_i target _ hform
      split at haccess
      all_goals cases haccess
      all_goals simpa [hform, Form.isOptionalChain] using h
    · cases haccess
  unfold constant?
  cases haccess : memberAccess? n.form with
  | none => rfl
  | some access => simp [entity?_of_chain p access.1 (hobject access haccess)]

end PrintPlace

namespace Form

/-- What an expression operates on, and the precedence that it needs there. -/
def operated? : Form → Option (Node × Precedence)
  | .propertyAccess t _ _ _ | .elementAccess t _ _ | .newExpr t _ _ => some (t, .member)
  | .call t _ _ _ | .taggedTemplate t _ _ => some (t, .leftHandSide)
  | _ => none

/-- The same operation on something else. -/
def operateOn (t : Node) : Form → Form
  | .propertyAccess _ name isOptional breaks => .propertyAccess t name isOptional breaks
  | .elementAccess _ index isOptional => .elementAccess t index isOptional
  | .newExpr _ types ns? => .newExpr t types ns?
  | .call _ types ns isOptional => .call t types ns isOptional
  | .taggedTemplate _ types quasi => .taggedTemplate t types quasi
  | form => form

theorem operated?_operateOn {form : Form} {t : Node} {required : Precedence}
    (h : form.operated? = some (t, required)) (t' : Node) :
    (form.operateOn t').operated? = some (t', required) := by
  cases form with
  | propertyAccess _ _ _ _ | elementAccess _ _ _ | newExpr _ _ _ | call _ _ _ _
  | taggedTemplate _ _ _ =>
      obtain ⟨rfl, rfl⟩ := Prod.mk.inj (Option.some.inj h)
      rfl
  | _ => cases h

theorem required_of_operated? {form : Form} {t : Node} {required : Precedence}
    (h : form.operated? = some (t, required)) : required = .member ∨ required = .leftHandSide := by
  cases form with
  | propertyAccess _ _ _ _ | elementAccess _ _ _ | newExpr _ _ _ =>
      exact .inl (Prod.mk.inj (Option.some.inj h)).2.symm
  | call _ _ _ _ | taggedTemplate _ _ _ => exact .inr (Prod.mk.inj (Option.some.inj h)).2.symm
  | _ => cases h

/-- Operations on a chain are its links, but for constructions, which have no chain. -/
theorem isOptionalChain_operateOn {form : Form} {t t' : Node} {required : Precedence}
    (h : form.operated? = some (t, required)) (ht : t'.isOptionalChain = true) :
    (form.operateOn t').isOptionalChain = true ∨ ∃ types ns?, form = .newExpr t types ns? := by
  cases form with
  | propertyAccess _ _ _ _ | elementAccess _ _ _ | call _ _ _ _ | taggedTemplate _ _ _ =>
      exact .inl (by simp [operateOn, isOptionalChain, ht])
  | newExpr callee types ns? =>
      obtain ⟨rfl, -⟩ := Prod.mk.inj (Option.some.inj h)
      exact .inr ⟨types, ns?, rfl⟩
  | _ => cases h

end Form

namespace Print
variable (print : Slot → Node → Print Bool)

/-- Print an operation, given how to print what it is applied to. -/
def operation (step : Print Unit) : Form → Print Unit
  | .propertyAccess _ name isOptional breakBeforeDot => do
      step
      let dot : Print Unit := do
        write (if isOptional then "?." else ".")
        identifier name.ident
      if breakBeforeDot then indented do line; dot
      else dot
  | .elementAccess _ index isOptional => do
      step
      write (if isOptional then "?.[" else "[")
      expression print index
      write "]"
  | .newExpr _ _ ns? => do
      write "new "
      step
      ns?.forM (arguments print)
  | .call _ _ ns isOptional => do
      step
      if isOptional then write "?."
      arguments print ns
  | .taggedTemplate _ _ quasi => do
      step
      operand print .primary quasi
  | _ => step

theorem operation_operateOn (step : Print Unit) (t : Node) (form : Form) :
    operation print step (form.operateOn t) = operation print step form := by
  cases form <;> rfl

/-- Chains have no rule of their own where they are operated on. -/
structure Inert (n : Node) : Prop where
  isPlainInteger : isPlainInteger n.erased.form = false
  calledProperty? : ∀ p, calledProperty? p n = none
  isImportKeyword : isImportKeyword n.form = false

theorem Inert.of_chain {n : Node} (h : n.skipOuter.isOptionalChain = true) : Inert n := by
  have hkeyword : Print.isImportKeyword n.form = false := by
    obtain ⟨id, span, form⟩ := n
    cases form with
    | importExpr =>
        simp [Node.skipOuter, Form.insideOuter?, Node.isOptionalChain, Form.isOptionalChain] at h
    | _ => rfl
  obtain ⟨-, inner, hform, -⟩ | ⟨-, herased⟩ := n.erased_of_chain h
  · exact ⟨by simp [hform, Print.isPlainInteger], fun p => by simp [Print.calledProperty?, hform],
      hkeyword⟩
  · have hchain : n.erased.form.isOptionalChain = true := by
      rwa [herased, ← Node.isOptionalChain_eq]
    have houter : n.erased.form.insideOuter? = none := by
      rw [herased]
      exact n.insideOuter?_skipOuter
    obtain ⟨_, _, _, _, hlink⟩ | ⟨_, _, _, hlink⟩ | ⟨_, _, _, _, hlink⟩ | ⟨_, _, _, hlink⟩ :=
      Form.link_of_chain hchain houter
    all_goals exact ⟨by rw [hlink]; rfl, fun p => by rw [Print.calledProperty?, hlink], hkeyword⟩

theorem read_bind {α : Type} (k : PrintPlace → Print α) (p : PrintPlace) :
    (do let q ← read; k q) p = k p p := rfl

theorem expressionForm_eq_operation {n t : Node} {required : Precedence}
    (hn : n.form.operated? = some (t, required)) (ht : Inert t) :
    expressionForm print n = operation print (operand print required t) n.form := by
  have hcallee : callee print t = operand print .leftHandSide t := by
    funext p
    rw [callee, read_bind, ht.calledProperty? p]
  obtain ⟨id, span, form⟩ := n
  cases form with
  | propertyAccess object name isOptional breaks =>
      obtain ⟨rfl, rfl⟩ := Prod.mk.inj (Option.some.inj hn)
      simp [expressionForm, operation, propertyAccess, ht.isPlainInteger]
  | elementAccess object index isOptional =>
      obtain ⟨rfl, rfl⟩ := Prod.mk.inj (Option.some.inj hn)
      rfl
  | newExpr object types ns? =>
      obtain ⟨rfl, rfl⟩ := Prod.mk.inj (Option.some.inj hn)
      rfl
  | call object types ns isOptional =>
      obtain ⟨rfl, rfl⟩ := Prod.mk.inj (Option.some.inj hn)
      simp only [expressionForm, operation, call, hcallee, ht.isImportKeyword, Bool.and_false,
        Bool.false_eq_true, if_false]
      rfl
  | taggedTemplate object types quasi =>
      obtain ⟨rfl, rfl⟩ := Prod.mk.inj (Option.some.inj hn)
      simp [expressionForm, operation, taggedTemplate, hcallee]
  | _ => cases hn

theorem operand_node (required : Precedence) (n : Node) :
    operand (node print) required n = operandForm print required false n := rfl

/-- Print something, in parentheses if it needs them. -/
def enclosed (isEnclosed : Bool) (step : Print Unit) : Print Unit := do
  if isEnclosed then write "("
  step
  if isEnclosed then write ")"

theorem enclosed_false (step : Print Unit) : enclosed false step = step := by
  simp [enclosed]

theorem operandForm_apply (required : Precedence) (besideCoalesce : Bool) (n : Node)
    (p : PrintPlace) :
    operandForm print required besideCoalesce n p =
      enclosed (needsParentheses n (p.constant? n.erased) required besideCoalesce)
        (match p.constant? n.erased with
          | some text => constant n.erased text
          | none => expressionForm print n.erased) p := by
  unfold operandForm enclosed
  rw [read_bind]
  cases p.constant? n.erased <;> split <;> simp

/-- What is no constant is printed by its form. -/
theorem operandForm_eq {n : Node} (h : ∀ p : PrintPlace, p.constant? n.erased = none)
    (required : Precedence) (besideCoalesce : Bool) :
    operandForm print required besideCoalesce n =
      enclosed (needsParentheses n none required besideCoalesce)
        (expressionForm print n.erased) := by
  funext p
  rw [operandForm_apply, h p]

theorem operandForm_of_plain {n : Node} (h : n.form.insideErased? = none)
    (hconstant : ∀ p : PrintPlace, p.constant? n = none) (required : Precedence)
    (besideCoalesce : Bool) :
    operandForm print required besideCoalesce n = expressionForm print n := by
  have herased := Node.erased_of_none h
  rw [operandForm_eq print (by rwa [herased]), needsParentheses_eq_false h, enclosed_false, herased]

theorem needsParentheses_of_primary {n : Node} (h : n.erased.precedence = .primary)
    (hlogical : isLogical n.erased.form = false) (required : Precedence) (besideCoalesce : Bool) :
    needsParentheses n none required besideCoalesce = false := by
  have hrequired : ¬ Precedence.primary < required := Nat.not_lt.mpr (le_primary required)
  simp [needsParentheses, h, hrequired, hlogical]

/-- Parentheses come back around a chain that ends in a call, but not where it is called. -/
theorem needsParentheses_of_chain {n t : Node} {required : Precedence}
    (hn : n.form.operated? = some (t, required)) (ht : t.isClosedChain = true)
    (herased : t.erased = t.skipOuter) :
    needsParentheses t none required false = (t.skipOuter.endsInCall && required = .member) := by
  obtain ⟨hopen, hchain⟩ := Bool.and_eq_true_iff.mp ht
  have hstripped : t.form.insideErased?.isSome = true := by
    cases hinside : t.form.insideErased? with
    | some _ => rfl
    | none =>
        rw [← herased, Node.erased_of_none hinside] at hchain
        simp [hchain] at hopen
  have hrequired := Form.required_of_operated? hn
  rw [Node.isOptionalChain_eq] at hchain
  obtain ⟨_, _, _, _, hlink⟩ | ⟨_, _, _, hlink⟩ | ⟨_, _, _, _, hlink⟩ | ⟨_, _, _, hlink⟩ :=
    Form.link_of_chain hchain t.insideOuter?_skipOuter
  all_goals
    simp only [needsParentheses, hstripped, herased, Node.precedence, Node.endsInCall, hlink]
    obtain rfl | rfl := hrequired <;> rfl

/-- A chain with nothing around it is printed by its form. -/
theorem operandForm_of_chain {n : Node} (h : n.isOptionalChain = true)
    (houter : n.form.insideOuter? = none) (required : Precedence) (besideCoalesce : Bool) :
    operandForm print required besideCoalesce n = expressionForm print n := by
  have hinside : n.form.insideErased? = none := by
    rw [Node.isOptionalChain_eq] at h
    obtain ⟨_, _, _, _, hlink⟩ | ⟨_, _, _, hlink⟩ | ⟨_, _, _, _, hlink⟩ | ⟨_, _, _, hlink⟩ :=
      Form.link_of_chain h houter
    all_goals simp [hlink, Form.insideErased?]
  exact operandForm_of_plain print hinside (fun p => p.constant?_of_chain h) _ _

/-- What an operation makes of a closed chain. In parentheses it stays closed; otherwise the text is
the same as if the operation stood behind the chain without anything in between. -/
theorem operation_on_closed_chain {n t : Node} {required : Precedence}
    (hn : n.form.operated? = some (t, required)) (ht : t.isClosedChain = true) :
    if t.staysClosed required then
      ∃ inner print', inner.skipParentheses = t.skipOuter ∧ (print' = print ∨ print' = node print) ∧
        expressionForm (node print) n =
          operation (node print) (do write "("; expression print' inner; write ")") n.form
    else
      ((n.form.operateOn t.skipOuter).isOptionalChain = true ∨
          ∃ types ns?, n.form = .newExpr t types ns?) ∧
        expressionForm (node print) n =
          expressionForm (node print) { n with form := n.form.operateOn t.skipOuter } := by
  have hchain : t.skipOuter.isOptionalChain = true := (Bool.and_eq_true_iff.mp ht).2
  have hskip : t.skipOuter.skipOuter = t.skipOuter :=
    Node.skipOuter_of_none t.insideOuter?_skipOuter
  rw [expressionForm_eq_operation _ hn (.of_chain hchain)]
  obtain ⟨hbracketed, inner, hinner, hinside⟩ | ⟨hbracketed, herased⟩ := t.erased_of_chain hchain
  · -- The parentheses of the source are printed.
    rw [if_pos (by simp [Node.staysClosed, hbracketed])]
    refine ⟨inner, print, hinside, .inl rfl, ?_⟩
    rw [operand_node, operandForm_eq _ (fun p => by rw [PrintPlace.constant?, hinner]; rfl),
      needsParentheses_of_primary (by rw [Node.precedence, hinner]; rfl) (by rw [hinner]; rfl),
      enclosed_false]
    simp [expressionForm, hinner]
  · have hconstant : ∀ p : PrintPlace, p.constant? t.erased = none := fun p => by
      rw [herased]
      exact p.constant?_of_chain hchain
    have hbare := operandForm_of_chain print hchain t.insideOuter?_skipOuter
    rw [operand_node, operandForm_eq print hconstant, needsParentheses_of_chain hn ht herased,
      herased]
    simp only [Node.staysClosed, hbracketed, Bool.false_or]
    split
    · rename_i hneeds
      refine ⟨t.skipOuter, node print, ?_, .inr rfl, ?_⟩
      · rw [Node.skipParentheses_of_none t.insideOuter?_skipOuter]
      · rw [hneeds, expression, operand_node, hbare]
        rfl
    · rename_i hneeds
      rw [Bool.not_eq_true] at hneeds
      refine ⟨Form.isOptionalChain_operateOn hn hchain, ?_⟩
      have hother := Form.operated?_operateOn hn t.skipOuter
      rw [expressionForm_eq_operation (n := { n with form := n.form.operateOn t.skipOuter }) _
        hother (.of_chain (by rwa [hskip])), operand_node, hbare, operation_operateOn, hneeds,
        enclosed_false]

end Print

/-- A chain with an assertion in its parentheses. -/
def assertedChain : Node :=
  ⟨5, ⟨0, 13⟩, .parenthesized ⟨4, ⟨1, 12⟩, .asExpr
    ⟨2, ⟨1, 5⟩, .propertyAccess ⟨0, ⟨1, 2⟩, .identifier "a"⟩ ⟨⟨1, ⟨4, 5⟩, "b"⟩, false⟩ true false⟩
    ⟨3, ⟨9, 12⟩, .keywordType .anyKw⟩⟩⟩

theorem member_merged :
    assertedChain.isClosedChain = true ∧
      Print.expressionForm (Print.nodeWithin 4)
          ⟨7, ⟨0, 15⟩, .propertyAccess assertedChain ⟨⟨6, ⟨14, 15⟩, "c"⟩, false⟩ false false⟩ =
        Print.expressionForm (Print.nodeWithin 4)
          ⟨7, ⟨0, 15⟩, .propertyAccess assertedChain.skipOuter ⟨⟨6, ⟨14, 15⟩, "c"⟩, false⟩ false
            false⟩ := by
  have hclosed : assertedChain.isClosedChain = true := by decide +kernel
  have h := Print.operation_on_closed_chain (Print.nodeWithin 3)
    (n := ⟨7, ⟨0, 15⟩, .propertyAccess assertedChain ⟨⟨6, ⟨14, 15⟩, "c"⟩, false⟩ false false⟩)
    rfl hclosed
  rw [if_neg (by decide +kernel)] at h
  exact ⟨hclosed, h.2⟩

/-- A statement that is an optional chain to its end. -/
def Node.isChainStatement (n : Node) : Bool :=
  match n.form with
  | .exprStmt inner => inner.isOptionalChain
  | _ => false

/-- A file that reads a member behind a chain with an assertion in its parentheses. -/
def accessBehindChain : String := "declare const a: any;\n(a?.b as any).c;"

/-- Without the assertion the parentheses are gone, and the access behind them is part of the chain:
it is no longer evaluated where the optional link finds nothing. -/
theorem chain_extended :
    (parseSource "input.ts" accessBehindChain).1.statements.any Node.isChainStatement = false ∧
      (compile id "input.ts" accessBehindChain).diagnostics = [] ∧
      (compile id "input.ts" accessBehindChain).output? = some "a?.b.c;\n" ∧
      (parseSource "output.js" "a?.b.c;\n").2 = [] ∧
      (parseSource "output.js" "a?.b.c;\n").1.statements.any Node.isChainStatement = true := by
  decide +kernel

end Erasure

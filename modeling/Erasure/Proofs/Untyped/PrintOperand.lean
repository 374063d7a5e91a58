import Erasure.Proofs.Untyped.Printing

/-!
Operators, calls and properties are printed alike with and without the types in them, given that the
nodes below them are.
-/

namespace Erasure.Print

variable {M : Matching} {outside : NodeId → Prop}

namespace Alike

section
variable {n : Node} {n? : Option Node} {ns : List Node} {f f' : Node → Print Unit}

theorem nodes (hns : ApartAll outside ns)
    (h : ∀ n : Node, n.Apart outside → Alike M outside (f n) (f' n.untyped)) :
    Alike M outside (ns.forM f) ((untypedAll ns).forM f') := by
  rw [untypedAll_eq_map]
  exact forM fun n hn => h n (apartAll_iff.mp hns n hn)

theorem node? (hn : ApartOption outside n?)
    (h : ∀ n : Node, n.Apart outside → Alike M outside (f n) (f' n.untyped)) :
    Alike M outside (n?.forM f) ((untypedOption n?).forM f') := by
  rw [untypedOption_eq_map]
  exact option fun n hm => h n (apartOption_iff.mp hn n hm)

theorem commaNodes (hns : ApartAll outside ns)
    (h : ∀ n : Node, n.Apart outside → Alike M outside (f n) (f' n.untyped)) :
    Alike M outside (Print.commaSeparated f ns) (Print.commaSeparated f' (untypedAll ns)) := by
  rw [untypedAll_eq_map]
  exact commaSeparated fun n hn => h n (apartAll_iff.mp hns n hn)

end

theorem constant (n : Node) (value : String) :
    Alike M outside (Print.constant n value) (Print.constant n.untyped value) := by
  refine (write value).seq (.options fun o => .ite Iff.rfl (.file fun f => ?_) unit)
  rw [n.span_untyped]
  exact .write _

theorem reference (name : String) (span : Span) :
    Alike M outside (Print.reference name span) (Print.reference name span) := by
  refine .read fun p p' hp => .file fun f => ?_
  rw [hp.replacement? name]
  exact .write _

section
variable {print print' : Slot → Node → Print Bool}
variable (hprint : NodesAlike M outside print print')
include hprint

theorem operand (required : Precedence) {n : Node} (hn : n.Apart outside) :
    Alike M outside (Print.operand print required n) (Print.operand print' required n.untyped) :=
  .discard (hprint (.operand required false) n hn)

theorem expression {n : Node} (hn : n.Apart outside) :
    Alike M outside (Print.expression print n) (Print.expression print' n.untyped) :=
  operand hprint .comma hn

theorem value {n : Node} (hn : n.Apart outside) :
    Alike M outside (Print.value print n) (Print.value print' n.untyped) :=
  operand hprint .yield hn

theorem initializer {n? : Option Node} (hn : ApartOption outside n?) :
    Alike M outside (Print.initializer print n?) (Print.initializer print' (untypedOption n?)) :=
  .node? hn fun _ hn => (write " = ").seq (value hprint hn)

theorem binary {left right : Node} (hleft : left.Apart outside) (operator : TokenKind)
    (hright : right.Apart outside) (breakBefore breakAfter : Bool) :
    Alike M outside (Print.binary print left operator right breakBefore breakAfter)
      (Print.binary print' left.untyped operator right.untyped breakBefore breakAfter) := by
  refine .ite Iff.rfl ?_ ?_
  · refine (operand hprint .comma hleft).seq ((write ",").seq ?_)
    exact .broken _ (operand hprint .spread hright)
  · refine .seq (.discard (hprint _ left hleft)) (.broken _ ((write _).seq (.broken _ ?_)))
    exact .discard (hprint _ right hright)

theorem conditional {condition whenTrue whenFalse : Node} (hcondition : condition.Apart outside)
    (htrue : whenTrue.Apart outside) (hfalse : whenFalse.Apart outside)
    (layout : ConditionalLayout) :
    Alike M outside (Print.conditional print condition whenTrue whenFalse layout)
      (Print.conditional print' condition.untyped whenTrue.untyped whenFalse.untyped layout) := by
  refine (operand hprint .logicalOr hcondition).seq (.seq ?_ ?_)
  · exact .broken _ ((write "?").seq (.broken _ (value hprint htrue)))
  · exact .broken _ ((write ":").seq (.broken _ (value hprint hfalse)))

omit hprint in
theorem signsMerge {p p' : PrintPlace} (hp : p.Alike M outside p') (operator : TokenKind)
    (n : Node) : Print.signsMerge p operator n = Print.signsMerge p' operator n.untyped := by
  unfold Print.signsMerge
  dsimp only
  rw [hp.constant? n.erased, Node.erased_untyped, Node.form_untyped]
  cases n.erased.form <;> rfl

theorem prefixOperator (operator : TokenKind) {n : Node} (hn : n.Apart outside) :
    Alike M outside (Print.prefixOperator print operator n)
      (Print.prefixOperator print' operator n.untyped) := by
  refine (write operator.text).seq (.read fun p p' hp => ?_)
  rw [signsMerge hp operator n]
  exact .when Iff.rfl space (operand hprint .unary hn)

theorem keywordOperator (keyword : String) {n : Node} (hn : n.Apart outside) :
    Alike M outside (Print.keywordOperator print keyword n)
      (Print.keywordOperator print' keyword n.untyped) :=
  (write keyword).seq (space.seq (operand hprint .unary hn))

theorem propertyAccess {object : Node} (hobject : object.Apart outside) (name : MemberName)
    (isOptional breakBeforeDot : Bool) :
    Alike M outside (Print.propertyAccess print object name isOptional breakBeforeDot)
      (Print.propertyAccess print' object.untyped name isOptional breakBeforeDot) := by
  have hdot : Alike M outside
      (do Print.write (if isOptional then "?." else "."); Print.identifier name.ident)
      (do Print.write (if isOptional then "?." else "."); Print.identifier name.ident) :=
    (write _).seq (identifier name.ident)
  refine (operand hprint .member hobject).seq ?_
  rw [Node.erased_untyped, Node.form_untyped, isPlainInteger_untyped]
  exact .when Iff.rfl (write ".") (.ite Iff.rfl (.indented (line.seq hdot)) hdot)

theorem elementAccess {object index : Node} (hobject : object.Apart outside)
    (hindex : index.Apart outside) (isOptional : Bool) :
    Alike M outside (Print.elementAccess print object index isOptional)
      (Print.elementAccess print' object.untyped index.untyped isOptional) :=
  (operand hprint .member hobject).seq
    ((write _).seq ((expression hprint hindex).seq (write "]")))

theorem arguments {ns : List Node} (hns : ApartAll outside ns) :
    Alike M outside (Print.arguments print ns) (Print.arguments print' (untypedAll ns)) :=
  (write "(").seq (.seq (.commaNodes hns fun _ hn => operand hprint .spread hn) (write ")"))

omit hprint in
theorem calledProperty? {p p' : PrintPlace} (hp : p.Alike M outside p') (n : Node) :
    Print.calledProperty? p n = Print.calledProperty? p' n.untyped := by
  unfold Print.calledProperty?
  rw [Node.erased_untyped, Node.form_untyped]
  cases n.erased.form with
  | identifier name => exact hp.replacement? name
  | _ => rfl

theorem callee {n : Node} (hn : n.Apart outside) :
    Alike M outside (Print.callee print n) (Print.callee print' n.untyped) := by
  refine .read fun p p' hp => ?_
  rw [calledProperty? hp n]
  split
  · exact .write _
  · exact operand hprint .leftHandSide hn

theorem dynamicImport {ns : List Node} (hns : ApartAll outside ns) :
    Alike M outside (Print.dynamicImport print ns)
      (Print.dynamicImport print' (untypedAll ns)) := by
  cases ns with
  | nil => exact .write _
  | cons n ns =>
      have hargument := expression hprint hns.1
      unfold Print.dynamicImport
      rw [untypedAll]
      dsimp only
      rw [Node.erased_untyped, Node.form_untyped]
      cases n.erased.form with
      | stringLiteral raw _ | templateLiteral raw _ => exact .write _
      | _ => exact .seq (.write _) (hargument.seq (.write _))

theorem call {n : Node} (hn : n.Apart outside) {ns : List Node} (hns : ApartAll outside ns)
    (isOptional : Bool) :
    Alike M outside (Print.call print n ns isOptional)
      (Print.call print' n.untyped (untypedAll ns) isOptional) := by
  refine .job fun j j' hj => ?_
  rw [hj.isCommonJS, Node.form_untyped, isImportKeyword_untyped]
  refine .ite Iff.rfl (dynamicImport hprint hns) ((callee hprint hn).seq ?_)
  exact .when Iff.rfl (write "?.") (arguments hprint hns)

theorem newCall {n : Node} (hn : n.Apart outside) {ns? : Option (List Node)}
    (hns : ApartLists outside ns?) :
    Alike M outside (Print.newCall print n ns?)
      (Print.newCall print' n.untyped (untypedLists ns?)) := by
  refine (write "new ").seq ((operand hprint .member hn).seq ?_)
  cases ns? with
  | none => exact unit
  | some ns => exact arguments hprint hns

theorem taggedTemplate {tag quasi : Node} (htag : tag.Apart outside)
    (hquasi : quasi.Apart outside) :
    Alike M outside (Print.taggedTemplate print tag quasi)
      (Print.taggedTemplate print' tag.untyped quasi.untyped) :=
  (callee hprint htag).seq (operand hprint .primary hquasi)

theorem templateSpan {n : Node} (hn : n.Apart outside) :
    Alike M outside (Print.templateSpan print n) (Print.templateSpan print' n.untyped) := by
  have hform := hn.form
  unfold Print.templateSpan
  rw [Node.form_untyped]
  cases h : n.form with
  | templateSpan inner literal =>
      rw [h] at hform
      exact (expression hprint hform).seq (write literal)
  | _ => exact unit

theorem template (head : String) {spans : List Node} (hspans : ApartAll outside spans) :
    Alike M outside (Print.template print head spans)
      (Print.template print' head (untypedAll spans)) :=
  (write head).seq (.nodes hspans fun _ hn => templateSpan hprint hn)

theorem yieldOperator (isDelegate : Bool) {n? : Option Node} (hn : ApartOption outside n?) :
    Alike M outside (Print.yieldOperator print isDelegate n?)
      (Print.yieldOperator print' isDelegate (untypedOption n?)) :=
  (write _).seq (.node? hn fun _ hn => space.seq (value hprint hn))

theorem spread {n : Node} (hn : n.Apart outside) :
    Alike M outside (Print.spread print n) (Print.spread print' n.untyped) :=
  (write "...").seq (value hprint hn)

theorem propertyKey {n : Node} (hn : n.Apart outside) :
    Alike M outside (Print.propertyKey print n) (Print.propertyKey print' n.untyped) := by
  have hform := hn.form
  refine .file fun f => ?_
  rw [Node.form_untyped, Node.id_untyped, Node.span_untyped]
  cases h : n.form with
  | identifierKey _ | privateKey _ | stringKey _ _ | numericKey _ | bigIntKey _ => exact .write _
  | computedKey inner =>
      rw [h] at hform
      exact (write "[").seq ((value hprint hform).seq (write "]"))
  | _ => exact unit

theorem memberSuffix {n : Node} (hn : n.Apart outside) :
    Alike M outside (Print.memberSuffix print n) (Print.memberSuffix print' n.untyped) := by
  have hkey := propertyKey hprint hn
  unfold Print.memberSuffix
  rw [Node.form_untyped]
  cases n.form with
  | identifierKey _ | privateKey _ => exact (write ".").seq hkey
  | computedKey _ => exact hkey
  | _ => exact (write "[").seq (hkey.seq (write "]"))

theorem memberAssignment (object : String) {key initial : Node} (hkey : key.Apart outside)
    (hinitial : initial.Apart outside) :
    Alike M outside (Print.memberAssignment print object key initial)
      (Print.memberAssignment print' object key.untyped initial.untyped) :=
  (write object).seq ((memberSuffix hprint hkey).seq
    ((write " = ").seq ((value hprint hinitial).seq (write ";"))))

theorem fieldAssignment {a : FieldAssignment} (ha : a.Apart outside) :
    Alike M outside (Print.fieldAssignment print a) (Print.fieldAssignment print' a.untyped) := by
  cases a with
  | parameter name => exact .file fun _ => .write _
  | field key initial => exact memberAssignment hprint "this" ha.1 ha.2

end
end Alike
end Erasure.Print

import Erasure.Compile
import Erasure.Proofs.Print.OptionalChain

/-!
Members of const enums. The enum leaves nothing in the output, so what reads a member has to be
printed as its value. This happens where the enum is named directly, and not behind an assertion or
an optional link. The value is printed like a literal, except that a dot behind an integer is taken
for its point.
-/

namespace Erasure

namespace Form

/-- The name that an index stands for. -/
def key? : Form → Option String
  | .stringLiteral _ value | .templateLiteral _ value => some value
  | _ => none

/-- The object and the name of an access to a member, which may be optional. -/
def namedMember? : Form → Option (Node × String)
  | .propertyAccess target ⟨name, false⟩ _ _ => some (target, name.text)
  | .elementAccess target index _ => index.form.key?.map fun name => (target, name)
  | _ => none

def isOptionalAccess : Form → Bool
  | .propertyAccess _ _ isOptional _ | .elementAccess _ _ isOptional => isOptional
  | _ => false

end Form

mutual

/-- A name, or members of a name behind dots, with at most parentheses around them. -/
def Node.isDirect : Node → Bool
  | ⟨_, _, form⟩ => form.isDirect

def Form.isDirect : Form → Bool
  | .identifier _ => true
  | .propertyAccess target _ isOptional _ => !isOptional && target.isDirect
  | .parenthesized inner => inner.isDirect
  | _ => false

end

namespace PrintPlace
variable (p : PrintPlace)

mutual

/-- The symbol that an expression denotes, whatever its types and optional links are. -/
def denoted? : Node → Option SymbolId
  | ⟨_, _, form⟩ => denotedBy? form

def denotedBy? : Form → Option SymbolId
  | .identifier name => p.resolve? name (SymbolFlags.value ++ SymbolFlags.namespaces)
  | .propertyAccess target ⟨name, false⟩ _ _ =>
      (denoted? target).bind fun owner => (p.job.bindings.symbol owner).exports.find? name.text
  | .elementAccess target index _ =>
      (denoted? target).bind fun owner =>
        index.form.key?.bind (p.job.bindings.symbol owner).exports.find?
  | .parenthesized operand | .nonNull operand | .asExpr operand _ | .satisfiesExpr operand _
  | .typeAssertion _ operand | .instantiation operand _ => denoted? operand
  | _ => none

end

mutual

/-- Names are only followed where they are direct. -/
theorem entity?_eq : (n : Node) → p.entity? n = if n.isDirect then p.denoted? n else none
  | ⟨_, _, form⟩ => by
      rw [entity?, Node.isDirect, denoted?]
      exact entityOf?_eq form

theorem entityOf?_eq (form : Form) :
    p.entityOf? form = if form.isDirect then p.denotedBy? form else none := by
  cases form with
  | propertyAccess target name isOptional breaks =>
      obtain ⟨name, isPrivate⟩ := name
      have htarget := entity?_eq target
      cases isPrivate <;> cases isOptional <;> cases hdirect : target.isDirect <;>
        simp_all [entityOf?, denotedBy?, Form.isDirect]
  | parenthesized inner =>
      rw [entityOf?, denotedBy?, Form.isDirect]
      exact entity?_eq inner
  | _ => rfl

end

theorem memberAccess?_eq (form : Form) :
    memberAccess? form = if form.isOptionalAccess then none else form.namedMember? := by
  cases form with
  | propertyAccess target name isOptional breaks =>
      obtain ⟨name, isPrivate⟩ := name
      cases isPrivate <;> cases isOptional <;> rfl
  | elementAccess target index isOptional =>
      obtain ⟨id, span, form⟩ := index
      cases isOptional with
      | true => rfl
      | false => cases form <;> rfl
  | _ => rfl

/-- The value of a member of a const enum is known where the enum is named directly. -/
theorem constant?_eq {n object : Node} {name : String} {owner : SymbolId}
    (hn : n.form.namedMember? = some (object, name)) (howner : p.denoted? object = some owner)
    (henum : (p.job.bindings.symbol owner).isConstEnum = true) :
    p.constant? n =
      if !n.form.isOptionalAccess && object.isDirect then
        (p.job.enumValues.member? p.job.bindings owner name).map EnumValue.expressionText
      else none := by
  unfold constant?
  rw [memberAccess?_eq, hn]
  cases n.form.isOptionalAccess with
  | true => rfl
  | false =>
      cases hdirect : object.isDirect with
      | true =>
          cases hvalue : p.job.enumValues.member? p.job.bindings owner name <;>
            simp [entity?_eq, hdirect, howner, henum, hvalue]
      | false => simp [entity?_eq, hdirect]

end PrintPlace

/-- A node that the source does not have. -/
def Node.ofForm (form : Form) : Node := ⟨0, ⟨0, 0⟩, form⟩

namespace EnumValue

/-- A number with a sign. -/
def isNegative (v : EnumValue) : Bool := v.expressionText.startsWith "-"

/-- The literal that denotes a value, behind its sign if it has one. -/
def literal : EnumValue → Node
  | .string value => .ofForm (.stringLiteral (Text.quote value) value)
  | .number value =>
      match (Decimal.expressionText value).toList with
      | '-' :: digits =>
          .ofForm (.prefixUnary .minus (.ofForm (.numericLiteral (String.ofList digits))))
      | text => .ofForm (.numericLiteral (String.ofList text))

/-- The literal as it has to stand where some precedence is needed. -/
def literalAt (v : EnumValue) (required : Precedence) : Node :=
  if v.isNegative && Precedence.unary < required then .ofForm (.parenthesized v.literal)
  else v.literal

theorem isNegative_iff (v : EnumValue) :
    v.isNegative = true ↔ ∃ digits, v.expressionText.toList = '-' :: digits := by
  rw [isNegative, String.startsWith_string_iff]
  exact ⟨fun ⟨digits, h⟩ => ⟨digits, h.symm⟩, fun ⟨digits, h⟩ => ⟨digits, h.symm⟩⟩

theorem literal_cases (v : EnumValue) :
    (v.isNegative = true ∧ ∃ digits, v.expressionText = "-" ++ digits ∧
      v.literal = .ofForm (.prefixUnary .minus (.ofForm (.numericLiteral digits)))) ∨
    (v.isNegative = false ∧ (v.literal = .ofForm (.numericLiteral v.expressionText) ∨
      ∃ value, v.literal = .ofForm (.stringLiteral v.expressionText value))) := by
  cases v with
  | string value =>
      refine .inr ⟨?_, .inr ⟨value, rfl⟩⟩
      rw [Bool.eq_false_iff, ne_eq, isNegative_iff]
      rintro ⟨digits, h⟩
      simp [expressionText, Text.quote] at h
  | number x =>
      have htext : (EnumValue.number x).expressionText = Decimal.expressionText x := rfl
      unfold literal
      dsimp only
      split
      · rename_i digits h
        refine .inl ⟨(isNegative_iff _).mpr ⟨digits, h⟩, String.ofList digits, ?_, rfl⟩
        apply String.toList_injective
        simpa [expressionText] using h
      · rename_i hsign
        refine .inr ⟨?_, .inl (by rw [String.ofList_toList, htext])⟩
        rw [Bool.eq_false_iff, ne_eq, isNegative_iff]
        rintro ⟨digits, h⟩
        exact hsign digits h

theorem insideErased?_literal (v : EnumValue) : v.literal.form.insideErased? = none := by
  obtain ⟨-, digits, -, hliteral⟩ | ⟨-, hliteral | ⟨value, hliteral⟩⟩ := v.literal_cases
  all_goals
    rw [hliteral]
    rfl

theorem insideErased?_literalAt (v : EnumValue) (required : Precedence) :
    (v.literalAt required).form.insideErased? = none := by
  rw [literalAt]
  split
  · obtain ⟨-, digits, -, hliteral⟩ | ⟨-, hliteral | ⟨value, hliteral⟩⟩ := v.literal_cases
    all_goals
      rw [hliteral]
      rfl
  · exact v.insideErased?_literal

end EnumValue

theorem Writer.write_write (w : Writer) (a b : String) :
    (w.write a).write b = w.write (a ++ b) := by
  unfold Writer.write
  by_cases ha : a = "" <;> by_cases hb : b = "" <;> simp_all
  split <;> simp [String.append_assoc]

theorem Writer.write_of_started {w : Writer} (h : w.atLineStart = false) (text : String) :
    w.write text = { w with output := w.output ++ text } := by
  unfold Writer.write
  split
  · rename_i hempty
    rw [String.isEmpty_iff.mp hempty, String.append_empty]
  · rw [if_neg (by simp [h])]

namespace Print

/-- The comment behind a value that is printed for an access. -/
def accessComment (p : PrintPlace) (access : Node) : String :=
  if p.job.options.removeComments then ""
  else
    let source := p.job.file.textAt access.span
    " /* " ++ String.ofList (Text.replace "*/".toList "*_/".toList source.toList) ++ " */"

theorem write_write (a b : String) : (do write a; write b) = write (a ++ b) := by
  funext p s
  change ((), { s with writer := (s.writer.write a).write b }) = _
  rw [Writer.write_write]
  rfl

theorem bind_apply {α β : Type} (x : Print α) (f : α → Print β) (p : PrintPlace) :
    (x >>= f) p = x p >>= fun a => f a p := rfl

theorem enclosed_congr {step step' : Print Unit} {p : PrintPlace} (isEnclosed : Bool)
    (h : step p = step' p) : enclosed isEnclosed step p = enclosed isEnclosed step' p := by
  cases isEnclosed <;> simp only [enclosed, bind_apply, h, Bool.false_eq_true, if_true, if_false]

theorem enclosed_write (isEnclosed : Bool) (text : String) :
    enclosed isEnclosed (write text) =
      write (if isEnclosed then "(" ++ (text ++ ")") else text) := by
  cases isEnclosed with
  | false => exact enclosed_false _
  | true =>
      rw [if_pos rfl, ← write_write, ← write_write]
      rfl

theorem constant_eq (p : PrintPlace) (access : Node) (text : String) :
    constant access text p = (do write text; write (accessComment p access)) p := by
  have hoptions : options p = pure p.job.options := rfl
  simp only [constant, bind_apply, hoptions, pure_bind, accessComment]
  cases p.job.options.removeComments <;> rfl

variable {p : PrintPlace} {n : Node} {v : EnumValue}

theorem access_of_constant {text : String} (h : p.constant? n = some text) :
    (∃ t name isOptional breaks, n.form = .propertyAccess t name isOptional breaks) ∨
      ∃ t index isOptional, n.form = .elementAccess t index isOptional := by
  obtain ⟨member, hmember, -⟩ := Option.bind_eq_some_iff.mp h
  unfold PrintPlace.memberAccess? at hmember
  split at hmember
  · rename_i hform
    exact .inl ⟨_, _, _, _, hform⟩
  · rename_i hform
    exact .inr ⟨_, _, _, hform⟩
  · cases hmember

theorem needsParentheses_of_constant (h : p.constant? n.erased = some v.expressionText)
    (required : Precedence) (besideCoalesce : Bool) :
    needsParentheses n (some v.expressionText) required besideCoalesce =
      (v.isNegative && Precedence.unary < required) := by
  have hlogical : isLogical n.erased.form = false := by
    obtain ⟨_, _, _, _, hform⟩ | ⟨_, _, _, hform⟩ := access_of_constant h <;> rw [hform] <;> rfl
  have hprimary : ¬ Precedence.primary < required := Nat.not_lt.mpr (le_primary required)
  change ((_ || true) &&
    decide ((if v.isNegative then Precedence.unary else .primary) < required) ||
    _ && isLogical n.erased.form) = _
  cases v.isNegative <;> simp [hlogical, hprimary]

theorem expressionForm_literal (fuel : Nat) (v : EnumValue) :
    expressionForm (nodeWithin (fuel + 1)) v.literal = write v.expressionText := by
  obtain ⟨-, digits, htext, hliteral⟩ | ⟨-, hliteral | ⟨value, hliteral⟩⟩ := v.literal_cases
  · rw [hliteral, htext, ← write_write]
    rfl
  · rw [hliteral]
    rfl
  · rw [hliteral]
    rfl

/-- A constant is printed as its literal, with the access behind it. -/
theorem operandForm_of_constant (fuel : Nat) (h : p.constant? n.erased = some v.expressionText)
    (required : Precedence) (besideCoalesce : Bool) :
    operandForm (nodeWithin (fuel + 1)) required besideCoalesce n p =
      enclosed (v.isNegative && Precedence.unary < required) (do
        expressionForm (nodeWithin (fuel + 1)) v.literal
        write (accessComment p n.erased)) p := by
  rw [operandForm_apply, h, needsParentheses_of_constant h, expressionForm_literal]
  exact enclosed_congr _ (constant_eq p _ _)

theorem signsMerge_literal (p : PrintPlace) (operator : TokenKind) (v : EnumValue) :
    signsMerge p operator v.literal = (operator = .minus && v.isNegative) := by
  obtain ⟨hsign, digits, -, hliteral⟩ | ⟨hsign, hliteral | ⟨value, hliteral⟩⟩ := v.literal_cases
  all_goals
    rw [hsign, hliteral]
    cases operator <;> rfl

/-- A sign is kept apart from a constant as from its literal. -/
theorem signsMerge_of_constant (h : p.constant? n.erased = some v.expressionText)
    (operator : TokenKind) : signsMerge p operator n = signsMerge p operator v.literal := by
  rw [signsMerge_literal]
  obtain ⟨_, _, _, _, hform⟩ | ⟨_, _, _, hform⟩ := access_of_constant h
  all_goals
    simp only [signsMerge, h, hform]
    cases operator <;> simp [EnumValue.isNegative]

theorem operand_nodeWithin (fuel : Nat) (required : Precedence) (n : Node) :
    operand (nodeWithin (fuel + 1)) required n =
      operandForm (nodeWithin fuel) required false n := rfl

/-- Literals are printed as they are. -/
theorem operand_literal (fuel : Nat) (v : EnumValue) (required : Precedence) :
    operand (nodeWithin (fuel + 2)) required v.literal = write v.expressionText := by
  have hconstant : ∀ p : PrintPlace, p.constant? v.literal = none := by
    intro p
    obtain ⟨-, digits, -, hliteral⟩ | ⟨-, hliteral | ⟨value, hliteral⟩⟩ := v.literal_cases
    all_goals
      rw [hliteral]
      rfl
  rw [operand_nodeWithin, operandForm_of_plain _ v.insideErased?_literal hconstant,
    expressionForm_literal]

theorem operand_literalAt (fuel : Nat) (v : EnumValue) (required : Precedence) :
    operand (nodeWithin (fuel + 3)) required (v.literalAt required) =
      enclosed (v.isNegative && Precedence.unary < required) (write v.expressionText) := by
  have hplain := v.insideErased?_literalAt required
  cases hneeds : v.isNegative && Precedence.unary < required with
  | true =>
      have hliteral : v.literalAt required = .ofForm (.parenthesized v.literal) := if_pos hneeds
      rw [hliteral] at hplain ⊢
      rw [operand_nodeWithin, operandForm_of_plain _ hplain fun _ => rfl]
      change (do write "("; operand _ .comma v.literal; write ")") = _
      rw [operand_literal]
      rfl
  | false =>
      have hliteral : v.literalAt required = v.literal := if_neg (by simp [hneeds])
      rw [hliteral, operand_literal, enclosed_false]

/-- A constant is printed as its literal where the access is not kept as a comment. -/
theorem operand_of_constant (fuel : Nat) (h : p.constant? n.erased = some v.expressionText)
    (hcomments : p.job.options.removeComments = true) (required : Precedence) :
    operand (nodeWithin (fuel + 3)) required n p =
      operand (nodeWithin (fuel + 3)) required (v.literalAt required) p := by
  rw [operand_literalAt, operand_nodeWithin, operandForm_of_constant _ h, expressionForm_literal,
    write_write]
  simp [accessComment, hcomments]

/-- The end of an access to a property. -/
def property (name : MemberName) (isOptional breakBeforeDot : Bool) : Print Unit :=
  let dot : Print Unit := do
    write (if isOptional then "?." else ".")
    identifier name.ident
  if breakBeforeDot then indented do line; dot
  else dot

theorem propertyAccess_eq (print : Slot → Node → Print Bool) (object : Node) (name : MemberName)
    (isOptional breakBeforeDot : Bool) :
    propertyAccess print object name isOptional breakBeforeDot = (do
      operand print .member object
      if !isOptional && isPlainInteger object.erased.form then write "."
      property name isOptional breakBeforeDot) := rfl

/-- How much the end of an access adds to a line does not depend on what the line starts with. -/
theorem length_property (name : MemberName) (isOptional breakBeforeDot : Bool) (p : PrintPlace)
    (level : Nat) : ∃ k, ∀ s : PrintState, s.writer.atLineStart = false →
      s.writer.indentLevel = level →
      (property name isOptional breakBeforeDot p s).2.writer.output.length =
        s.writer.output.length + k := by
  obtain ⟨dot, hdot, hempty⟩ : ∃ dot, dot = (if isOptional then "?." else ".") ∧ dot ≠ "" :=
    ⟨_, rfl, by cases isOptional <;> decide⟩
  obtain ⟨text, htext⟩ : ∃ text, text = dot ++ p.job.file.identifierText name.ident := ⟨_, rfl⟩
  cases breakBeforeDot with
  | false =>
      refine ⟨text.length, fun s hline _ => ?_⟩
      change ((s.writer.write (if isOptional then "?." else ".")).write _).output.length = _
      rw [Writer.write_write, ← hdot, ← htext, Writer.write_of_started hline, String.length_append]
  | true =>
      refine ⟨1 + 4 * (level + 1) + text.length, fun s hline hlevel => ?_⟩
      change (((s.writer.indent.line.write
        (if isOptional then "?." else ".")).write _).dedent).output.length = _
      rw [Writer.write_write, ← hdot, ← htext]
      have hne : text.isEmpty = false := by
        simp [htext, hempty]
      simp [Writer.dedent, Writer.write, Writer.line, Writer.indent, hline, hlevel, hne]
      omega

theorem property_ne_dot_property (name : MemberName) (isOptional breakBeforeDot : Bool)
    (p : PrintPlace) (text : String) :
    (do write text; property name isOptional breakBeforeDot) p ≠
      (do write text; write "."; property name isOptional breakBeforeDot) p := by
  intro heq
  obtain ⟨k, hk⟩ := length_property name isOptional breakBeforeDot p 0
  have hstate := congrFun heq { writer := { atLineStart := false }, pending := [] }
  have hlength := congrArg (fun r : Unit × PrintState => r.2.writer.output.length) hstate
  change (property name isOptional breakBeforeDot p
      { writer := Writer.write { atLineStart := false } text
        pending := [] }).2.writer.output.length =
    (property name isOptional breakBeforeDot p
      { writer := (Writer.write { atLineStart := false } text).write ".",
        pending := [] }).2.writer.output.length at hlength
  rw [Writer.write_write, Writer.write_of_started rfl, Writer.write_of_started rfl, hk _ rfl rfl,
    hk _ rfl rfl] at hlength
  simp at hlength

/-- A dot behind an integer is taken for its point, which the printer sees in a literal only. -/
theorem propertyAccess_of_constant (fuel : Nat) (h : p.constant? n.erased = some v.expressionText)
    (hcomments : p.job.options.removeComments = true) (name : MemberName)
    (isOptional breakBeforeDot : Bool) :
    propertyAccess (nodeWithin (fuel + 3)) n name isOptional breakBeforeDot p =
        propertyAccess (nodeWithin (fuel + 3)) (v.literalAt .member) name isOptional breakBeforeDot
          p ↔
      (!isOptional && isPlainInteger v.literal.form) = false := by
  have hplain : isPlainInteger n.erased.form = false := by
    obtain ⟨_, _, _, _, hform⟩ | ⟨_, _, _, hform⟩ := access_of_constant h <;> rw [hform] <;> rfl
  have hliteral : isPlainInteger (v.literalAt .member).erased.form =
      isPlainInteger v.literal.form := by
    rw [Node.erased_of_none (v.insideErased?_literalAt _), EnumValue.literalAt]
    split
    · rename_i hneeds
      obtain ⟨-, digits, -, hform⟩ | ⟨hsign, -⟩ := v.literal_cases
      · rw [hform]
        rfl
      · simp [hsign] at hneeds
    · rfl
  rw [propertyAccess_eq, propertyAccess_eq, hplain, hliteral, bind_apply, bind_apply,
    operand_of_constant fuel h hcomments, Bool.and_false]
  cases !isOptional && isPlainInteger v.literal.form with
  | false => simp
  | true =>
      refine iff_of_false ?_ (by decide)
      rw [operand_literalAt, enclosed_write]
      exact property_ne_dot_property name isOptional breakBeforeDot p _

/-- An access that is no constant is printed as it stands. -/
theorem operandForm_of_none (print : Slot → Node → Print Bool) (h : p.constant? n.erased = none)
    (required : Precedence) (besideCoalesce : Bool) :
    operandForm print required besideCoalesce n p =
      enclosed (needsParentheses n none required besideCoalesce)
        (expressionForm print n.erased) p := by
  rw [operandForm_apply, h]

theorem operand_of_identifier (fuel : Nat) {name : String} (h : n.erased.form = .identifier name) :
    operand (nodeWithin (fuel + 1)) .member n = reference name n.erased.span := by
  rw [operand_nodeWithin, operandForm_eq _ (fun p => by rw [PrintPlace.constant?, h]; rfl),
    needsParentheses_of_primary (by rw [Node.precedence, h]; rfl) (by rw [h]; rfl), enclosed_false,
    expressionForm, h]

/-- How an access to a member of a const enum is printed, whatever assertions and optional links it
has. A known value is printed for it where the enum is named directly, and like the literal of the
value: in parentheses where these are needed, apart from a sign, but with a dot too few behind an
integer. Otherwise the access stays, with the name of the enum in it. -/
theorem enum_member_printed (fuel : Nat) {object : Node} {name : String} {owner : SymbolId}
    (hn : n.erased.form.namedMember? = some (object, name))
    (howner : p.denoted? object = some owner)
    (henum : (p.job.bindings.symbol owner).isConstEnum = true) :
    (∀ v, n.erased.form.isOptionalAccess = false ∧ object.isDirect = true →
      p.job.enumValues.member? p.job.bindings owner name = some v →
        (∀ required besideCoalesce,
          operandForm (nodeWithin (fuel + 1)) required besideCoalesce n p =
            enclosed (v.isNegative && Precedence.unary < required) (do
              expressionForm (nodeWithin (fuel + 1)) v.literal
              write (accessComment p n.erased)) p) ∧
        (∀ operator, signsMerge p operator n = signsMerge p operator v.literal) ∧
        (p.job.options.removeComments = true → ∀ key isOptional breakBeforeDot,
          propertyAccess (nodeWithin (fuel + 3)) n key isOptional breakBeforeDot p =
              propertyAccess (nodeWithin (fuel + 3)) (v.literalAt .member) key isOptional
                breakBeforeDot p ↔
            (!isOptional && isPlainInteger v.literal.form) = false)) ∧
    (n.erased.form.isOptionalAccess = true ∨ object.isDirect = false ∨
        p.job.enumValues.member? p.job.bindings owner name = none →
      (∀ required besideCoalesce,
        operandForm (nodeWithin (fuel + 1)) required besideCoalesce n p =
          enclosed (needsParentheses n none required besideCoalesce)
            (expressionForm (nodeWithin (fuel + 1)) n.erased) p) ∧
      ∀ enumName, object.erased.form = .identifier enumName →
        operand (nodeWithin (fuel + 1)) .member object =
          reference enumName object.erased.span) := by
  have hconstant := p.constant?_eq hn howner henum
  constructor
  · rintro v ⟨hlink, hdirect⟩ hv
    have hknown : p.constant? n.erased = some v.expressionText := by
      simpa [hlink, hdirect, hv] using hconstant
    exact ⟨operandForm_of_constant fuel hknown, signsMerge_of_constant hknown,
      propertyAccess_of_constant fuel hknown⟩
  · intro hstays
    have hunknown : p.constant? n.erased = none := by
      rcases hstays with hoptional | hdirect | hv
      · simpa [hoptional] using hconstant
      · simpa [hdirect] using hconstant
      · simpa [hv] using hconstant
    exact ⟨operandForm_of_none _ hunknown, fun _ => operand_of_identifier fuel⟩

end Print

/-- A file that reads a member of a const enum. -/
def inlinedMember : SourceFile :=
  (parseSource "input.ts" "const enum E \x7b A = \"x\" \x7d\nE.A;").1

/-- The level of that file. -/
def inlinedMemberPlace : PrintPlace :=
  { job := .ofFile inlinedMember inlinedMember.bind {}
    scope := Bindings.rootScope, target := .topLevel, currentEnum? := none }

/-- The access to the member. -/
def inlinedAccess : Node :=
  ⟨9, ⟨25, 28⟩,
    .propertyAccess ⟨7, ⟨25, 26⟩, .identifier "E"⟩ ⟨⟨8, ⟨27, 28⟩, "A"⟩, false⟩ false false⟩

theorem inlinedMember_printed :
    Print.operandForm (Print.nodeWithin 1) .comma false inlinedAccess inlinedMemberPlace =
      Print.write "\"x\" /* E.A */" inlinedMemberPlace := by
  have hplace : inlinedMemberPlace.denoted? ⟨7, ⟨25, 26⟩, .identifier "E"⟩ = some 0 ∧
      (inlinedMemberPlace.job.bindings.symbol 0).isConstEnum = true ∧
      (inlinedMemberPlace.job.enumValues.member? inlinedMemberPlace.job.bindings 0 "A").map
        EnumValue.expressionText = some "\"x\"" ∧
      Print.accessComment inlinedMemberPlace inlinedAccess = " /* E.A */" := by
    decide +kernel
  obtain ⟨howner, henum, hvalue, hcomment⟩ := hplace
  obtain ⟨v, hv, htext⟩ := Option.map_eq_some_iff.mp hvalue
  have hsign : v.isNegative = false := by
    rw [EnumValue.isNegative, htext]
    decide +kernel
  have hprinted := (Print.enum_member_printed 0 (n := inlinedAccess) rfl howner henum).1 v
    ⟨rfl, rfl⟩ hv
  have herased : inlinedAccess.erased = inlinedAccess := rfl
  rw [hprinted.1, hsign, herased, hcomment, Print.expressionForm_literal, Print.write_write, htext]
  exact congrFun (Print.enclosed_false _) _

/-- A file that reads a member of a const enum behind an assertion. -/
def assertedEnum : String := "const enum E \x7b A = \"x\" \x7d\nE!.A;"

/-- The access stays although the enum is gone: what is left names nothing. In parentheses the enum
is found. -/
theorem erased_enum_referenced :
    (compile id "input.ts" assertedEnum).diagnostics = [] ∧
      (compile id "input.ts" assertedEnum).output? = some "E.A;\n" ∧
      (compile id "input.ts" "const enum E \x7b A = \"x\" \x7d\n(E).A;").output? =
        some "\"x\" /* (E).A */;\n" := by
  decide +kernel

end Erasure

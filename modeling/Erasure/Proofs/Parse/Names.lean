import Erasure.Proofs.Parse.Alike.Grammar
import Erasure.Proofs.Parse.Judgement

/-!
Names, string literals, property keys and binding patterns are genuine as long as nothing was
reported.
-/

namespace Erasure.Parse

variable {P : Place → Prop}

/-- A name that was not made up. -/
def named : Identifier → Place → Prop := always fun name => name.text ≠ ""

/-- A string literal that was not made up. -/
def quoted : StringLiteral → Place → Prop := always fun literal => literal.raw ≠ ""

instance (name : Identifier) : Stable (named name) := inferInstanceAs (Stable (always _ name))

instance (literal : StringLiteral) : Stable (quoted literal) :=
  inferInstanceAs (Stable (always _ literal))

theorem isIdentifierLike_of_isIdentifier {s : ParseState} (h : (isIdentifier s).1 = true) :
    s.scanner.token.isIdentifierLike = true := by
  revert h
  show ((ite _ _ _ : Parse Bool) s).1 = true → _
  split
  · exact nofun
  · show ((ite _ _ _ : Parse Bool) s).1 = true → _
    split
    · exact nofun
    · exact id

theorem takeIdentifier_gives (h : ∀ a, P a → a.scanner.token.isName = true) :
    Gives P takeIdentifier named := by
  intro s hr hs
  have hfollow := (inferInstance : Proceeds takeIdentifier).follows s hr
  exact ⟨hfollow, fun hq => hr.scanner.named (h _ (hs (hfollow.quiet hq)))⟩

/-- A test that holds only on a token that is a name. -/
def onName (found : Bool) (a : Place) : Prop := found = true → a.scanner.token.isName = true

theorem onName_isIdentifier (s : ParseState) : onName (isIdentifier s).1 s.place :=
  fun h => TokenKind.isName_of_isIdentifierLike (isIdentifierLike_of_isIdentifier h)

theorem onName_isIdentifierOrKeyword (s : ParseState) :
    onName (isIdentifierOrKeyword s).1 s.place := by
  intro h
  have hk : s.scanner.token.isIdentifierOrKeyword = true := h
  show (s.scanner.token.isIdentifierOrKeyword || _) = true
  rw [hk, Bool.true_or]

theorem identifier_gives : Gives P identifier named := by
  unfold identifier
  refine .ask (fun s _ => onName_isIdentifier s) fun found => .ite (fun h => ?_) fun _ => .error
  exact takeIdentifier_gives fun _ ha => ha.2 h

theorem identifierName_gives : Gives P identifierName named := by
  unfold identifierName
  refine .ask (fun s _ => onName_isIdentifierOrKeyword s) fun found =>
    .ite (fun h => ?_) fun _ => .error
  exact takeIdentifier_gives fun _ ha => ha.2 h

theorem entityName_gives [Stable P] {first : Parse Identifier} (h : Gives P first named) :
    Gives P (entityName first) (always fun name => Written name.words) := by
  unfold entityName
  refine .stay fun start => .bind h fun head => .bind (.collect (R := fun x => x.text ≠ "") ?_)
    fun rest => .stay fun _ => .stay fun _ => .pure fun _ ha => ?_
  · unfold segmentStep
    refine .step fun found => .ite (fun _ => ?_) fun _ => .pure fun _ _ => nofun
    exact .bind identifierName_gives fun name => .pure fun _ ha => collected_some ha.2
  · exact .cons ha.1.2 (.map ha.2)

/-- On a token of a kind that has a text. -/
theorem tokenText_gives {β : Type} {Q : β → Place → Prop} {f : String → Parse β} {k : TokenKind}
    (h : ∀ a, P a → a.scanner.token = k) (hend : k ≠ .endOfFile) (hk : k ≠ .unknown)
    (hf : ∀ text, Gives (fun a => P a ∧ text ≠ "") (f text) Q) : Gives P (tokenText >>= f) Q := by
  refine .ask (R := fun text a => a.scanner.token = k → text ≠ "") (fun s hr hs => ?_) fun text =>
    (hf text).weaken fun a ha => ⟨ha.1, ha.2 (h a ha.1)⟩
  exact hr.scanner.text_ne (by rw [hs]; exact hend) (by rw [hs]; exact hk)

theorem stringLiteral_gives : Gives P stringLiteral quoted := by
  unfold stringLiteral
  refine .stay fun span =>
    .ask (R := fun found a => found = true → a.scanner.token = .stringLiteral)
    (fun _ _ => token_of_isToken) fun found => .ite (fun h => ?_) fun _ => .error
  refine .stay fun id => tokenText_gives (fun _ ha => ha.2 h) (by decide) (by decide) fun raw =>
    .stay fun value => ?_
  exact .weaken (K := fun _ => raw ≠ "") (.step fun _ => .pure fun _ ha => ha) fun _ ha => ha.2

/-- What is known of the node of a nonterminal. Templates need to know where the expressions and
types in them end. -/
def result : Nonterminal → Node → Place → Prop
  | .statement | .binding _ | .namespaceBody _ _ => always Node.Genuine
  | _ => built

instance (nt : Nonterminal) (n : Node) : Stable (result nt n) := by
  unfold result
  split <;> infer_instance

/-- Parsers of the nonterminals that make nothing up in silence. -/
class Sound (g : Grammar) : Prop extends Lawful g where
  gives : ∀ nt, Gives (fun _ => True) (g nt) (result nt)

variable {g : Grammar} [hg : Sound g]

theorem part (nt : Nonterminal) : Gives P (g nt) (result nt) :=
  (hg.gives nt).weaken fun _ _ => trivial

/-- A key, and one that is read from a name is a name. -/
def keyed (isName : Bool) : Node → Place → Prop :=
  always fun key => key.Genuine ∧ (isName = true → ∃ text, key.form = .identifierKey text)

instance (isName : Bool) (key : Node) : Stable (keyed isName key) :=
  inferInstanceAs (Stable (always _ key))

theorem genuine_toKey {name : Identifier} (h : name.text ≠ "") : name.toKey.Genuine :=
  Node.Genuine.of_form ⟨rfl, rfl, .one h, .nil⟩

theorem genuine_toBinding {name : Identifier} (h : name.text ≠ "") : name.toBinding.Genuine :=
  Node.Genuine.of_form ⟨rfl, rfl, .one h, .nil⟩

/-- A key that is not read from a name. -/
theorem Gives.keyed {isName : Bool} {p : Parse Node} (h : Gives P p (always Node.Genuine))
    (hname : isName = false) : Gives P p (keyed isName) :=
  h.imp fun _ _ hn => ⟨hn, fun ht => absurd ht (by rw [hname]; decide)⟩

theorem propertyKey_keyed (isName : Bool)
    (h : ∀ a, P a → isName = true → a.scanner.token.isIdentifierLike = true) :
    Gives P (propertyKey g) (keyed isName) := by
  unfold propertyKey
  refine .stay fun start => .ask (R := fun k a => a.scanner.token = k) (fun _ _ => rfl) fun k => ?_
  -- On any token but a word the key is not read from a name.
  have other {k : TokenKind} (hk : k.isIdentifierLike = false) {p : Parse Node} [Proceeds p]
      (hp : Gives (fun a => P a ∧ a.scanner.token = k) p (always Node.Genuine)) :
      Gives (fun a => P a ∧ a.scanner.token = k) p (Parse.keyed isName) := by
    cases hname : isName with
    | false => exact hp.keyed rfl
    | true =>
        refine .of_false fun a ha => ?_
        have := h a ha.1 hname
        rw [ha.2, hk] at this
        cases this
  split
  · refine other rfl (.any ?_)
    exact .bind stringLiteral_gives fun literal => .pure fun _ ha =>
      .of_form ⟨rfl, rfl, .one ha.2, .nil⟩
  · refine other rfl (.any ?_)
    exact .stay fun raw => .step fun _ => .finish fun _ _ => ⟨rfl, rfl, .nil, .nil⟩
  · refine other rfl (.any ?_)
    exact .stay fun raw => .step fun _ => .finish fun _ _ => ⟨rfl, rfl, .nil, .nil⟩
  · refine other rfl (.forget (takeIdentifier_gives fun _ ha => by rw [ha.2]; rfl) fun name => ?_)
    exact .pure fun _ ha => .of_form ⟨rfl, rfl, .one ha, .nil⟩
  · refine other rfl (.any ?_)
    exact .step fun _ => .bind (.allowIn (part .assignment)) fun expression => .step fun _ =>
      .finish fun _ ha => ⟨rfl, rfl, .nil, .one ha.2.1⟩
  · refine .any (.bind identifierName_gives fun name => .pure fun _ ha => ?_)
    exact ⟨genuine_toKey ha.2, fun _ => ⟨_, rfl⟩⟩

theorem propertyKey_gives : Gives P (propertyKey g) (always Node.Genuine) :=
  (propertyKey_keyed false fun _ _ h => absurd h (by decide)).imp fun _ _ h => h.1

theorem typeAfter_gives [Stable P] {k : TokenKind} :
    Gives P (typeAfter? g k) (optional Node.Genuine) :=
  .after (.allowConditionalType (part .type).genuine)

theorem typeClause_gives [Stable P] :
    Gives P (typeClause? g) (optional Node.Genuine) :=
  typeAfter_gives

theorem initializer_gives [Stable P] :
    Gives P (initializer? g) (optional Node.Genuine) :=
  .after (part .assignment).genuine

theorem shorthandBinding_gives {isShorthand : Bool} {key : Node}
    (h : ∀ a, P a → key.Genuine) :
    Gives P (shorthandBinding isShorthand key) (always Node.Genuine) := by
  unfold shorthandBinding
  dsimp only
  split
  · rename_i text hform
    refine .ite (fun _ => .pure fun a ha => ?_) fun _ => .error
    exact .of_form ⟨rfl, rfl, .one ((h a ha).identifierKey_ne hform), .nil⟩
  · exact .error

/-- The key and the target of a property in a pattern. -/
def targeted (target : Option (Option Node × Node)) (_ : Place) : Prop :=
  ∀ x ∈ target, GenuineAll x.1.toList ∧ x.2.Genuine

instance (target : Option (Option Node × Node)) : Stable (targeted target) := ⟨fun _ h => h⟩

theorem propertyBinding_gives [Stable P] : Gives P (propertyBinding? g) targeted := by
  unfold propertyBinding?
  refine .stay fun isKey => .ite (fun _ => .error) fun _ => .stay fun isShorthand => ?_
  refine .bind propertyKey_gives fun key => .step fun found => .ite (fun _ => ?_) fun _ => ?_
  · refine .bind (part (.binding _)) fun name => .pure fun _ ha => ?_
    rintro _ ⟨⟩
    exact ⟨.one ha.1.2, ha.2⟩
  · refine .bind (shorthandBinding_gives fun _ ha => ha.2) fun name => .pure fun _ ha => ?_
    rintro _ ⟨⟩
    exact ⟨.nil, ha.2⟩

theorem targetRest_gives [Stable P] {start : Nat} {isRest : Bool}
    {target : Option (Option Node × Node)} :
    Gives (fun a => P a ∧ targeted target a) (targetRest g start isRest target)
      (collected Node.Genuine) := by
  unfold targetRest
  split
  · exact .pure fun _ _ _ h => by cases h
  · rename_i key name
    refine .bind initializer_gives fun initializer => .bind (.finish fun _ ha => ?_)
      fun element => .step fun _ => .pure fun _ ha => ?_
    · obtain ⟨hkey, hname⟩ := ha.1.2 _ rfl
      exact ⟨rfl, rfl, .nil, (hkey.append (.one hname)).append ha.2⟩
    · exact collected_some ha.2

theorem objectPatternElement_gives [Stable P] :
    Gives P (objectPatternElement g) (collected Node.Genuine) := by
  unfold objectPatternElement
  refine .stay fun atEnd => .ite (fun _ => .pure fun _ _ => nofun) fun _ => .stay fun start =>
    .step fun isRest => .ite (fun _ => ?_) fun _ => .bind propertyBinding_gives fun _ =>
      targetRest_gives
  refine .bind (part (.binding _)) fun name => .bind (.pure fun _ ha => ?_) fun target =>
    targetRest_gives.weaken fun _ ha => ⟨ha.1.1, ha.2⟩
  rintro _ ⟨⟩
  exact ⟨.nil, ha.2⟩

theorem objectPattern_gives [Stable P] : Gives P (objectPattern g) (always Node.Genuine) := by
  unfold objectPattern
  refine .stay fun start => .step fun _ => .bind (.collect objectPatternElement_gives)
    fun elements => .step fun _ => .finish fun _ ha => ?_
  exact ⟨rfl, rfl, .nil, ha.2⟩

theorem arrayPatternElement_gives [Stable P] :
    Gives P (arrayPatternElement g) (always Node.Genuine) := by
  unfold arrayPatternElement
  refine .stay fun start => .step fun isRest => .bind (part (.binding _)) fun name =>
    .bind initializer_gives fun initializer => .finish fun _ ha => ?_
  exact ⟨rfl, rfl, .nil, .cons ha.1.2 ha.2⟩

theorem arrayPatternElements_gives [Stable P] : Gives P (arrayPatternElements g)
    (always fun x => GenuineAll (x.1.filterMap id)) := by
  unfold arrayPatternElements
  refine .loop (fun _ _ => .nil) fun x => ?_
  obtain ⟨rev, trailing⟩ := x
  unfold arrayPatternStep
  refine .stay fun atEnd => .ite (fun _ => .pure fun _ ha => ha.2) fun _ => .step fun isHole =>
    .ite (fun _ => .pure fun _ ha => ha.2) fun _ => .stay fun _ => .stay fun _ =>
    .ite (fun _ => .error) fun _ => .bind arrayPatternElement_gives fun element => ?_
  refine .step fun found => .ite (fun _ => .pure fun _ ha => ?_) fun _ => .pure fun _ ha => ?_
  · exact .cons ha.2 ha.1.2
  · exact .cons ha.2 ha.1.2

theorem arrayPattern_gives [Stable P] : Gives P (arrayPattern g) (always Node.Genuine) := by
  unfold arrayPattern
  refine .stay fun start => .step fun _ => .bind arrayPatternElements_gives
    fun elements => .step fun _ => .finish fun _ ha => ?_
  refine ⟨rfl, rfl, .nil, ?_⟩
  show GenuineAll (elements.1.reverse.filterMap id)
  rw [List.filterMap_reverse]
  exact GenuineAll.reverse ha.2

theorem binding_gives {missing : Message} [Stable P] :
    Gives P (binding g missing) (always Node.Genuine) := by
  unfold binding
  refine .stay fun k => ?_
  split
  · exact objectPattern_gives
  · exact arrayPattern_gives
  · refine .stay fun found => .ite (fun _ => ?_) fun _ => .error
    exact .bind identifier_gives fun name => .pure fun _ ha => genuine_toBinding ha.2

end Erasure.Parse

import Erasure.Syntax.SourceFile

/-!
Trees in which nothing was made up. Where something is missing in the source a parser leaves a
placeholder, a name or string without text, or the end of a template that is not there. A genuine
tree has none of these at any depth.
-/

namespace Erasure

def EntityName.words (n : EntityName) : List String := n.segments.map Identifier.text

/-- The text of a name; a string counts as it is written, so that an empty one has its quotes. -/
def ExportName.word : ExportName → String
  | .identifier name => name.text
  | .string literal => literal.raw

def ModuleName.word : ModuleName → String
  | .identifier name => name.text
  | .string literal => literal.raw

def ModuleReference.words : ModuleReference → List String
  | .external specifier => [specifier.raw]
  | .entity name => name.words

def ImportSpecifier.words (s : ImportSpecifier) : List String :=
  s.property?.toList.map ExportName.word ++ [s.name.text]

def ImportBindings.words : ImportBindings → List String
  | .all name => [name.text]
  | .named specifiers => specifiers.flatMap ImportSpecifier.words

def ImportClause.words (c : ImportClause) : List String :=
  c.name?.toList.map Identifier.text ++ c.bindings?.toList.flatMap ImportBindings.words

def ExportSpecifier.words (s : ExportSpecifier) : List String :=
  s.property?.toList.map ExportName.word ++ [s.name.word]

def ExportClause.words : ExportClause → List String
  | .all name => [name.word]
  | .named specifiers => specifiers.flatMap ExportSpecifier.words

namespace Form

/-- The names and strings that a form holds itself. -/
def words : Form → List String
  | .identifier name | .privateName name | .metaProperty _ name | .identifierKey name
  | .privateKey name | .bindingIdentifier name => [name]
  | .stringLiteral raw _ | .stringKey raw _ => [raw]
  | .functionExpr _ name _ | .functionStmt _ name _ => name.toList.map Identifier.text
  | .continueStmt label | .breakStmt label => label.toList.map Identifier.text
  | .propertyAccess _ name _ _ => [name.ident.text]
  | .shorthandProperty name _ | .interfaceStmt _ name _ _ _ | .typeAliasStmt _ name _ _
  | .enumStmt _ name _ | .namespaceExport name | .labeledStmt name _ | .typeParameter _ name _ _
  | .namedTupleMember name _ _ _ | .predicateType _ name _ => [name.text]
  | .importStmt _ clause specifier _ =>
      clause.toList.flatMap ImportClause.words ++ [specifier.raw]
  | .importEqualsStmt _ _ name reference => name.text :: reference.words
  | .exportStmt _ _ clause specifier _ =>
      clause.toList.flatMap ExportClause.words ++ specifier.toList.map StringLiteral.raw
  | .classLike cls => cls.name.toList.map Identifier.text
  | .moduleDeclaration _ name _ _ => [name.word]
  | .referenceType name _ | .typeQuery name _ => name.words
  | .importType _ argument qualifier _ =>
      argument.raw :: qualifier.toList.flatMap EntityName.words
  | _ => []

def isPlaceholder : Form → Bool
  | .missingExpr | .missingStmt | .missingType | .missingProperty => true
  | _ => false

/-- The expression or type before a piece of a template. -/
def substitution? : Form → Option Node
  | .templateSpan e _ | .typeTemplateSpan e _ => some e
  | _ => none

end Form

/-- Words of which none was made up. -/
def Written (words : List String) : Prop := "" ∉ words

namespace Written

variable {w : String} {ws vs : List String}

protected theorem nil : Written [] := List.not_mem_nil

protected theorem cons (h : w ≠ "") (hs : Written ws) : Written (w :: ws) := by
  rw [Written, List.mem_cons, not_or]
  exact ⟨h.symm, hs⟩

theorem one (h : w ≠ "") : Written [w] := .cons h .nil

theorem append (hs : Written ws) (ht : Written vs) : Written (ws ++ vs) := by
  rw [Written, List.mem_append, not_or]
  exact ⟨hs, ht⟩

theorem flatMap {α : Type} {f : α → List String} {xs : List α} (h : ∀ x ∈ xs, Written (f x)) :
    Written (xs.flatMap f) := by
  intro hmem
  obtain ⟨x, hx, hw⟩ := List.mem_flatMap.mp hmem
  exact h x hx hw

theorem map {α : Type} {f : α → String} {xs : List α} (h : ∀ x ∈ xs, f x ≠ "") :
    Written (xs.map f) := by
  intro hmem
  obtain ⟨x, hx, hw⟩ := List.mem_map.mp hmem
  exact h x hx hw

theorem ne_of_one (h : Written [w]) : w ≠ "" :=
  fun heq => h (by simp [heq])

end Written

/-- Nothing in the tree was made up. The text of a template that follows a substitution ends behind
it. -/
inductive Node.Genuine : Node → Prop where
  | intro {n : Node} (kind : n.form.isPlaceholder = false) (words : Written n.form.words)
      (tail : ∀ e ∈ n.form.substitution?, e.span.stop < n.span.stop)
      (children : ∀ c ∈ n.form.children, c.Genuine) : n.Genuine

/-- The node that is reached by choosing a child at every step. -/
def Node.descend? : List Nat → Node → Option Node
  | [], n => some n
  | i :: path, n => n.form.children[i]? >>= descend? path

/-- A list of genuine trees. -/
def GenuineAll (ns : List Node) : Prop := ∀ n ∈ ns, n.Genuine

namespace GenuineAll

variable {n : Node} {ms ns : List Node}

protected theorem nil : GenuineAll [] := nofun

protected theorem cons (h : n.Genuine) (hs : GenuineAll ns) : GenuineAll (n :: ns) :=
  List.forall_mem_cons.mpr ⟨h, hs⟩

theorem one (h : n.Genuine) : GenuineAll [n] := .cons h .nil

theorem append (hs : GenuineAll ms) (ht : GenuineAll ns) : GenuineAll (ms ++ ns) :=
  List.forall_mem_append.mpr ⟨hs, ht⟩

theorem reverse (hs : GenuineAll ns) : GenuineAll ns.reverse :=
  fun n hn => hs n (List.mem_reverse.mp hn)

end GenuineAll

/-- A form of which nothing was made up and which is no piece of a template. -/
structure Form.Genuine (form : Form) : Prop where
  kind : form.isPlaceholder = false
  piece : form.substitution? = none
  words : Written form.words
  children : GenuineAll form.children

theorem Node.Genuine.of_form {n : Node} (h : n.form.Genuine) : n.Genuine :=
  .intro h.kind h.words (by simp [h.piece]) h.children

namespace Node.Genuine

variable {n : Node}

theorem written (h : n.Genuine) : Written n.form.words := by
  cases h with | intro _ words => exact words

theorem not_placeholder (h : n.Genuine) : n.form.isPlaceholder = false := by
  cases h with | intro kind => exact kind

theorem genuineAll_children (h : n.Genuine) : GenuineAll n.form.children := by
  cases h with | intro _ _ _ children => exact children

theorem descend (h : n.Genuine) {path : List Nat} {m : Node} (hm : n.descend? path = some m) :
    m.Genuine := by
  induction path generalizing n with
  | nil =>
      cases hm
      exact h
  | cons i path ih =>
      obtain ⟨c, hc, hm⟩ := Option.bind_eq_some_iff.mp hm
      exact ih (h.genuineAll_children c (List.mem_of_getElem? hc)) hm

/-- A genuine name is not empty. -/
theorem identifier?_ne (h : n.Genuine) {text : String} (ht : n.identifier? = some text) :
    text ≠ "" := by
  unfold Node.identifier? at ht
  split at ht
  · rename_i name hform
    cases ht
    have := h.written
    rw [hform] at this
    exact this.ne_of_one
  · cases ht

theorem identifierKey_ne (h : n.Genuine) {text : String} (ht : n.form = .identifierKey text) :
    text ≠ "" := by
  have := h.written
  rw [ht] at this
  exact this.ne_of_one

end Node.Genuine

end Erasure

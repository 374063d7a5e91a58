import Erasure.Proofs.Parse.Alike.Grammar
import Erasure.Proofs.Parse.Judgement

/-!
Where nodes stand in the text. A node starts where the parser stood when it began with it and ends
with the last token that was passed over. So the nodes that a parser holds lie between the start of
the node it is to become and that token, as long as nothing was reported: what is made up for
something that is missing can stand behind it.
-/

namespace Erasure

/-- A string literal as an expression. -/
def StringLiteral.toNode (literal : StringLiteral) : Node :=
  ⟨literal.id, literal.span, .stringLiteral literal.raw literal.value⟩

def ExportName.quotes : ExportName → List StringLiteral
  | .identifier _ => []
  | .string literal => [literal]

def ModuleName.quotes : ModuleName → List StringLiteral
  | .identifier _ => []
  | .string literal => [literal]

def ModuleReference.quotes : ModuleReference → List StringLiteral
  | .external specifier => [specifier]
  | .entity _ => []

def ImportSpecifier.quotes (s : ImportSpecifier) : List StringLiteral :=
  s.property?.toList.flatMap ExportName.quotes

def ImportBindings.quotes : ImportBindings → List StringLiteral
  | .all _ => []
  | .named specifiers => specifiers.flatMap ImportSpecifier.quotes

def ImportClause.quotes (c : ImportClause) : List StringLiteral :=
  c.bindings?.toList.flatMap ImportBindings.quotes

def ExportSpecifier.quotes (s : ExportSpecifier) : List StringLiteral :=
  s.property?.toList.flatMap ExportName.quotes ++ s.name.quotes

def ExportClause.quotes : ExportClause → List StringLiteral
  | .all name => name.quotes
  | .named specifiers => specifiers.flatMap ExportSpecifier.quotes

namespace Form

/-- The string literals that a form holds itself. -/
def quotes : Form → List StringLiteral
  | .importStmt _ clause specifier _ => clause.toList.flatMap ImportClause.quotes ++ [specifier]
  | .importEqualsStmt _ _ _ reference => reference.quotes
  | .exportStmt _ _ clause specifier _ =>
      clause.toList.flatMap ExportClause.quotes ++ specifier.toList
  | .moduleDeclaration _ name _ _ => name.quotes
  | .importType _ argument _ _ => [argument]
  | _ => []

/-- What stands in the text of a form: the nodes right below it and its string literals. -/
def pieces (form : Form) : List Node := form.quotes.map StringLiteral.toNode ++ form.children

/-- The statements of a form that is a list of them. -/
def statements : Form → List Node
  | .block statements _ _ | .moduleBlock statements | .caseClause _ statements _ => statements
  | _ => []

/-- The text of a literal as it is written. -/
def literal? : Form → Option String
  | .numericLiteral raw | .bigIntLiteral raw | .regExpLiteral raw | .stringLiteral raw _
  | .templateLiteral raw _ | .numericKey raw | .bigIntKey raw | .stringKey raw _ => some raw
  | _ => none

end Form

/-- Each node ends before the next one starts. -/
def InOrder (ns : List Node) : Prop := ns.Pairwise fun m n => m.span.stop ≤ n.span.start

/-- The spans of a tree nest, its statements are in the order of the text, and its literals are
written as they stand there. -/
inductive Node.Faithful (source : String) : Node → Prop where
  | intro {n : Node} (ordered : n.span.start ≤ n.span.stop)
      (within : ∀ c ∈ n.form.pieces, n.span.start ≤ c.span.start ∧ c.span.stop ≤ n.span.stop)
      (inOrder : InOrder n.form.statements)
      (literal : ∀ raw ∈ n.form.literal?, raw = Text.slice source n.span.start n.span.stop)
      (pieces : ∀ c ∈ n.form.pieces, c.Faithful source) : n.Faithful source

/-- A tree that is faithful to its text and lies in a range of it. -/
structure Node.Lies (source : String) (start stop : Nat) (n : Node) : Prop where
  faithful : n.Faithful source
  start_le : start ≤ n.span.start
  stop_le : n.span.stop ≤ stop

/-- A form without pieces. -/
structure Form.IsLeaf (form : Form) : Prop where
  pieces : form.pieces = []
  statements : form.statements = []

/-- A form that has no pieces but the nodes right below it, and is no list of statements and no
literal. -/
structure Form.Plain (form : Form) : Prop where
  pieces : form.pieces = form.directChildren
  literal : form.literal? = none
  statements : form.statements = []

namespace Node

variable {source : String} {start stop : Nat} {n : Node}

theorem Faithful.ordered (h : n.Faithful source) : n.span.start ≤ n.span.stop := by
  cases h with | intro ordered => exact ordered

theorem Faithful.lies_part (h : n.Faithful source) {c : Node} (hc : c ∈ n.form.pieces) :
    c.Lies source n.span.start n.span.stop := by
  cases h with
  | intro _ within _ _ pieces => exact ⟨pieces c hc, (within c hc).1, (within c hc).2⟩

theorem Faithful.literal (h : n.Faithful source) :
    ∀ raw ∈ n.form.literal?, raw = Text.slice source n.span.start n.span.stop := by
  cases h with | intro _ _ _ literal => exact literal

theorem Faithful.of_leaf (h : n.form.IsLeaf) (hordered : n.span.start ≤ n.span.stop)
    (hliteral : ∀ raw ∈ n.form.literal?, raw = Text.slice source n.span.start n.span.stop) :
    n.Faithful source :=
  .intro hordered (by simp [h.pieces]) (by simp [h.statements, InOrder]) hliteral
    (by simp [h.pieces])

namespace Lies

theorem ordered (h : n.Lies source start stop) : start ≤ stop :=
  h.start_le.trans (h.faithful.ordered.trans h.stop_le)

theorem mono (h : n.Lies source start stop) {start' stop' : Nat} (hstart : start' ≤ start)
    (hstop : stop ≤ stop') : n.Lies source start' stop' :=
  ⟨h.faithful, hstart.trans h.start_le, h.stop_le.trans hstop⟩

theorem part (h : n.Lies source start stop) {c : Node} (hc : c ∈ n.form.pieces) :
    c.Lies source start stop :=
  (h.faithful.lies_part hc).mono h.start_le h.stop_le

/-- Another node without pieces that stands in the same place. -/
theorem relabel (h : n.Lies source start stop) {m : Node} (hleaf : m.form.IsLeaf)
    (hspan : m.span = n.span) (hliteral : ∀ raw ∈ m.form.literal?, raw ∈ n.form.literal?) :
    m.Lies source start stop := by
  obtain ⟨faithful, hstart, hstop⟩ := h
  rw [← hspan] at hstart hstop
  refine ⟨.of_leaf hleaf (hspan ▸ faithful.ordered) fun raw hraw => ?_, hstart, hstop⟩
  rw [hspan]
  exact faithful.literal raw (hliteral raw hraw)

/-- A node around another one that stands in the same place. -/
theorem around (h : n.Lies source start stop) {m : Node} (hspan : m.span = n.span)
    (hparts : m.form.pieces = [n]) (hliteral : m.form.literal? = none)
    (hstatements : m.form.statements = []) : m.Lies source start stop := by
  obtain ⟨faithful, hstart, hstop⟩ := h
  rw [← hspan] at hstart hstop
  have horder : InOrder m.form.statements := by
    rw [hstatements]
    exact .nil
  refine ⟨.intro (hspan ▸ faithful.ordered) ?_ horder ?_ ?_, hstart, hstop⟩
  · rw [hparts, hspan]
    exact List.forall_mem_singleton.mpr ⟨le_rfl, le_rfl⟩
  · rw [hliteral]
    exact nofun
  · rw [hparts]
    exact List.forall_mem_singleton.mpr faithful

end Lies

end Node

namespace Parse

theorem Place.Ready.prevEnd_le_stop {a : Place} (h : a.Ready) : a.prevEnd ≤ a.scanner.stop :=
  h.prevEnd_le.trans h.scanner.start_le_stop

/-- The last token passed over is never one before the last one so far. -/
theorem Proceeds.prevEnd_le {α : Type} {p : Parse α} (h : Proceeds p) (s : ParseState)
    (hr : s.place.Ready) : s.prevEnd ≤ (p s).2.prevEnd :=
  h.keeps (P := fun a => s.prevEnd ≤ a.prevEnd) (fun _ hr hs => hs.trans hr.prevEnd_le_stop)
    (fun _ _ _ hs => hs) s hr le_rfl

/-- Values that hold nodes. -/
class Bearer (α : Type) where
  /-- The nodes in a value. -/
  nodes : α → List Node

export Bearer (nodes)

instance : Bearer Node := ⟨fun n => [n]⟩

instance : Bearer Unit := ⟨fun _ => []⟩

instance : Bearer Bool := ⟨fun _ => []⟩

instance : Bearer Nat := ⟨fun _ => []⟩

instance : Bearer ListLayout := ⟨fun _ => []⟩

instance : Bearer Modifiers := ⟨fun _ => []⟩

instance : Bearer ParameterNotes := ⟨fun _ => []⟩

instance : Bearer Form := ⟨Form.directChildren⟩

instance : Bearer FunctionLike := ⟨FunctionLike.children⟩

instance : Bearer OpenList := ⟨OpenList.elementsRev⟩

/-- A name can become a binding or a key. -/
instance : Bearer Identifier := ⟨fun name => [name.toBinding]⟩

instance : Bearer StringLiteral := ⟨fun literal => [literal.toNode]⟩

section
variable {α β : Type} [Bearer α] [Bearer β]

instance : Bearer (Option α) := ⟨fun x => x.toList.flatMap nodes⟩

instance : Bearer (List α) := ⟨List.flatMap nodes⟩

instance : Bearer (α × β) := ⟨fun x => nodes x.1 ++ nodes x.2⟩

instance : Bearer (ForInStep α) := ⟨fun x => nodes x.value⟩

@[simp] theorem nodes_node (n : Node) : nodes n = [n] := rfl

@[simp] theorem nodes_unit (x : Unit) : nodes x = [] := rfl

@[simp] theorem nodes_bool (x : Bool) : nodes x = [] := rfl

@[simp] theorem nodes_nat (x : Nat) : nodes x = [] := rfl

@[simp] theorem nodes_layout (x : ListLayout) : nodes x = [] := rfl

@[simp] theorem nodes_modifiers (x : Modifiers) : nodes x = [] := rfl

@[simp] theorem nodes_parameterNotes (x : ParameterNotes) : nodes x = [] := rfl

@[simp] theorem nodes_openList (x : OpenList) : nodes x = x.elementsRev := rfl

@[simp] theorem nodes_form (form : Form) : nodes form = form.directChildren := rfl

@[simp] theorem nodes_func (func : FunctionLike) : nodes func = func.children := rfl

@[simp] theorem nodes_name (name : Identifier) : nodes name = [name.toBinding] := rfl

@[simp] theorem nodes_literal (literal : StringLiteral) : nodes literal = [literal.toNode] := rfl

@[simp high] theorem nodes_listOption (x : Option (List Node)) : nodes x = x.getD [] := by
  cases x <;> simp [nodes]

@[simp] theorem nodes_option (x : Option α) : nodes x = x.toList.flatMap nodes := rfl

@[simp] theorem nodes_list (xs : List α) : nodes xs = xs.flatMap nodes := rfl

@[simp] theorem nodes_pair (x : α × β) : nodes x = nodes x.1 ++ nodes x.2 := rfl

@[simp] theorem nodes_done (x : α) : nodes (ForInStep.done x) = nodes x := rfl

@[simp] theorem nodes_yield (x : α) : nodes (ForInStep.yield x) = nodes x := rfl

@[simp] theorem flatMap_nodes (ns : List Node) : ns.flatMap nodes = ns := by
  simp [nodes]

@[simp] theorem flatMap_nodes_option (ns : List (Option Node)) :
    ns.flatMap nodes = ns.filterMap id := by
  simp [nodes, List.filterMap_eq_flatMap_toList]

end

/-- A position is not behind the current token, or a token was passed over since. -/
def Place.Since (a : Place) (start : Nat) (passed : Bool) : Prop :=
  start ≤ if passed then a.prevEnd else a.pos

/-- All the nodes lie between a position and the end of the last token passed over. -/
def Held (start : Nat) (ns : List Node) (a : Place) : Prop :=
  ∀ n ∈ ns, n.Lies a.scanner.source start a.prevEnd

/-- What is known where a node that begins at a position is made of other nodes. -/
structure Known (start : Nat) (passed : Bool) (held : List Node) (a : Place) : Prop where
  since : a.Since start passed
  held : Held start held a

section
variable {start : Nat} {passed : Bool} {held used : List Node} {a : Place}

theorem Held.append (h : Held start held a) (h' : Held start used a) :
    Held start (held ++ used) a :=
  List.forall_mem_append.mpr ⟨h, h'⟩

/-- A node begins with a token that was passed over. -/
theorem Held.since {n : Node} (h : Held start [n] a) : a.Since start true :=
  (h n (List.mem_singleton_self n)).ordered

namespace Known

theorem pos_le (h : Known start passed held a) (hr : a.Ready) : start ≤ a.pos := by
  cases passed with
  | false => exact h.since
  | true => exact le_trans h.since hr.prevEnd_le

theorem mono {s t : ParseState} (h : Known start passed held s.place) (hf : s.Follows t)
    (hle : s.prevEnd ≤ t.prevEnd) : Known start passed held t.place where
  since := by
    cases passed with
    | false => exact le_trans h.since hf.pos_le
    | true => exact le_trans h.since hle
  held n hn := by
    show n.Lies t.scanner.source start t.prevEnd
    rw [hf.grows.source]
    exact (h.held n hn).mono le_rfl hle

end Known

end

section
variable {α β : Type} [Bearer α] [Bearer β]

/-- If the nodes that are held lie behind the start of a node, so do those that the parser makes of
them and of what it reads. -/
class Spans (start : Nat) (passed : Bool) (held : List Node) (p : Parse α) : Prop where
  proceeds : Proceeds p
  gives : Gives (Known start passed held) p fun x => Held start (nodes x)

/-- A parser that passes over a token, unless it reports something. -/
class Moves {α : Type} (p : Parse α) : Prop where
  proceeds : Proceeds p
  gives : ∀ n : Nat, Gives (fun a => n ≤ a.pos) p fun _ a => n ≤ a.prevEnd

/-- A test that passes over a token if it succeeds. -/
class Signs (test : Parse Bool) : Prop where
  proceeds : Proceeds test
  gives : ∀ n : Nat, Gives (fun a => n ≤ a.pos) test fun found a => found = true → n ≤ a.prevEnd

variable {start : Nat} {passed : Bool} {held used : List Node}

/-- What was known is still known behind a parser. -/
theorem Gives.hold {γ : Type} {p : Parse γ} {R : γ → Place → Prop} (hp : Proceeds p)
    (h : Gives (Known start passed held) p R) :
    Gives (Known start passed held) p fun x a => Known start passed held a ∧ R x a := by
  intro s hr hs
  obtain ⟨hf, hR⟩ := h s hr hs
  exact ⟨hf, fun hq => ⟨(hs (hf.quiet hq)).mono hf (hp.prevEnd_le s hr), hR hq⟩⟩

/-- What was known of a position is known of it where the parser begins. -/
theorem Gives.behind {γ : Type} {p : Parse γ} {R : γ → Place → Prop}
    (h : Gives (fun a => start ≤ a.pos) p R) : Gives (Known start passed held) p R :=
  fun s hr hs => h s hr fun hq => (hs hq).pos_le hr

theorem Gives.of_results {γ : Type} {p : Parse γ} [hp : Proceeds p] {P : Place → Prop}
    {Q : γ → Prop} (h : Results Q p) : Gives P p fun x _ => Q x :=
  fun s hr _ => ⟨hp.follows s hr, fun _ => h s⟩

theorem Gives.and {γ : Type} {p : Parse γ} {P : Place → Prop} {R R' : γ → Place → Prop}
    (h : Gives P p R) (h' : Gives P p R') : Gives P p fun x a => R x a ∧ R' x a :=
  fun s hr hs => ⟨(h s hr hs).1, fun hq => ⟨(h s hr hs).2 hq, (h' s hr hs).2 hq⟩⟩

namespace Spans

variable {p q : Parse α} {f : α → Parse β}

theorem weaken {passed' : Bool} (h : Spans start passed' used p)
    (hle : passed' = true → passed = true) (hsub : used ⊆ held) : Spans start passed held p where
  proceeds := h.proceeds
  gives s hr hs := h.gives s hr fun hq => by
    refine ⟨?_, fun n hn => (hs hq).held n (hsub hn)⟩
    cases passed' with
    | false => exact (hs hq).pos_le hr
    | true =>
        obtain rfl := hle rfl
        exact (hs hq).since

/-- Nodes that are held are taken apart. -/
theorem apart (h : Spans start passed used p) (hused : ∀ {source : String} {stop : Nat},
    (∀ n ∈ held, n.Lies source start stop) → ∀ n ∈ used, n.Lies source start stop) :
    Spans start passed held p :=
  ⟨h.proceeds, h.gives.weaken fun _ ha => ⟨ha.since, hused ha.held⟩⟩

/-- Behind a node a token was passed over. -/
theorem behind (n : Node) (h : Spans start true held p) (hn : n ∈ held := by simp) :
    Spans start passed held p :=
  ⟨h.proceeds, h.gives.weaken fun _ ha => ⟨(ha.held n hn).ordered, ha.held⟩⟩

/-- Nothing has to be held, and no token to be passed over. -/
theorem fresh (h : Spans start false [] p) : Spans start passed held p :=
  h.weaken (absurd · Bool.false_ne_true) (List.nil_subset _)

/-- A result that is made of what is held. -/
theorem pureOf {x : α} (h : ∀ {source : String} {stop : Nat},
    (∀ n ∈ held, n.Lies source start stop) → ∀ n ∈ nodes x, n.Lies source start stop) :
    Spans start passed held (pure x) :=
  ⟨inferInstance, .pure fun _ ha => h ha.held⟩

protected theorem pure {x : α} (h : nodes x ⊆ held := by simp) : Spans start passed held (pure x) :=
  .pureOf fun hheld n hn => hheld n (h hn)

/-- The nodes of a form are held. -/
theorem form {form : Form} (ns : List Node) (hsub : ns ⊆ held := by simp)
    (hparts : form.directChildren = ns := by exact rfl) : Spans start passed held (pure form) :=
  .pure (by rwa [nodes_form, hparts])

theorem someForm {form : Form} (ns : List Node) (hsub : ns ⊆ held := by simp)
    (hparts : form.directChildren = ns := by exact rfl) :
    Spans start passed held (pure (some form)) :=
  .pure (by simpa [hparts] using hsub)

/-- What is read as one node without pieces becomes another one. -/
theorem relabel {m : Node} (n : Node) (hn : n ∈ held := by simp)
    (hleaf : m.form.IsLeaf := by exact ⟨rfl, rfl⟩) (hspan : m.span = n.span := by exact rfl)
    (hliteral : ∀ raw ∈ m.form.literal?, raw ∈ n.form.literal? := by rintro _ ⟨⟩ <;> rfl) :
    Spans start passed held (pure m) :=
  .pureOf fun hheld => List.forall_mem_singleton.mpr ((hheld n hn).relabel hleaf hspan hliteral)

protected theorem bind (hp : Spans start passed held p)
    (hf : ∀ x, Spans start passed (held ++ nodes x) (f x)) :
    Spans start passed held (p >>= f) where
  proceeds := .bind hp.proceeds fun x => (hf x).proceeds
  gives := .forget (hp.gives.hold hp.proceeds) fun x => (hf x).gives.weaken fun _ ha =>
    ⟨ha.1.since, ha.1.held.append ha.2⟩

/-- A parser that needs nothing of what is held. -/
theorem take [hp : Spans start false [] p]
    (hf : ∀ x, Spans start passed (held ++ nodes x) (f x)) : Spans start passed held (p >>= f) :=
  .bind hp.fresh hf

/-- A parser whose results meet a condition. -/
theorem takeOn [hp : Spans start false [] p] [hproceeds : ∀ x, Proceeds (f x)] {P : α → Prop}
    (hP : Gives (Known start passed held) p fun x _ => P x)
    (hf : ∀ x, P x → Spans start passed (held ++ nodes x) (f x)) :
    Spans start passed held (p >>= f) where
  proceeds := .bind hp.proceeds hproceeds
  gives := .forget ((hp.fresh.gives.hold hp.proceeds).and hP) fun x => by
    by_cases hx : P x
    · exact (hf x hx).gives.weaken fun _ ha => ⟨ha.1.1.since, ha.1.1.held.append ha.1.2⟩
    · exact .of_false fun _ ha => hx ha.2

/-- A node is made of what is held. -/
theorem grow {p : Parse Node} {f : Node → Parse β} (hp : Spans start passed held p)
    (hf : ∀ n, Spans start true (held ++ [n]) (f n)) : Spans start passed held (p >>= f) where
  proceeds := .bind hp.proceeds fun x => (hf x).proceeds
  gives := .forget (hp.gives.hold hp.proceeds) fun x => (hf x).gives.weaken fun _ ha =>
    ⟨Held.since ha.2, ha.1.held.append ha.2⟩

/-- A node is read. -/
theorem node {p : Parse Node} {f : Node → Parse β} [hp : Spans start false [] p]
    (hf : ∀ n, Spans start true (held ++ [n]) (f n)) : Spans start passed held (p >>= f) :=
  .grow hp.fresh hf

protected theorem ite {c : Prop} [Decidable c] (hp : c → Spans start passed held p)
    (hq : ¬ c → Spans start passed held q) : Spans start passed held (if c then p else q) := by
  split
  · exact hp ‹c›
  · exact hq ‹¬ c›

section
variable {γ : Type} {p : Parse γ} {f : γ → Parse β}

/-- A parser of which nothing is kept. -/
theorem step [hp : Proceeds p] (hf : ∀ x, Spans start passed held (f x)) :
    Spans start passed held (p >>= f) where
  proceeds := .bind hp fun x => (hf x).proceeds
  gives :=
    have hany : Gives (Known start passed held) p fun _ _ => True :=
      fun s hr _ => ⟨hp.follows s hr, fun _ => trivial⟩
    .forget (hany.hold hp) fun x => (hf x).gives.weaken fun _ ha => ha.1

/-- A parser that passes over a token, of which nothing is kept. -/
theorem move [hp : Moves p] (hf : ∀ x, Spans start true held (f x)) :
    Spans start passed held (p >>= f) where
  proceeds := .bind hp.proceeds fun x => (hf x).proceeds
  gives := .forget ((hp.gives start).behind.hold hp.proceeds) fun x =>
    (hf x).gives.weaken fun _ ha => ⟨ha.2, ha.1.held⟩

/-- After an error nothing has to be known. -/
theorem error {m : Message} {args : List String} {f : Unit → Parse β} [∀ x, Proceeds (f x)] :
    Spans start passed held (errorHere m args >>= f) :=
  ⟨inferInstance, .error⟩

end

/-- A test that passes over a token in one of the two cases. -/
theorem sign {test : Parse Bool} [htest : Signs test] {f : Bool → Parse β}
    (hyes : Spans start true held (f true)) (hno : Spans start passed held (f false)) :
    Spans start passed held (test >>= f) where
  proceeds := .bind htest.proceeds (Bool.rec hno.proceeds hyes.proceeds)
  gives := .forget ((htest.gives start).behind.hold htest.proceeds) fun found => by
    cases found with
    | false => exact hno.gives.weaken fun _ ha => ha.1
    | true => exact hyes.gives.weaken fun _ ha => ⟨ha.2 rfl, ha.1.held⟩

theorem ifSign {test : Parse Bool} [Signs test] (hp : Spans start true held p)
    (hq : Spans start passed held q) :
    Spans start passed held (test >>= fun found => if found = true then p else q) :=
  .sign (.ite (fun _ => hp) (absurd rfl)) (.ite (absurd · Bool.false_ne_true) fun _ => hq)

/-- A node that is done. Its pieces lie behind its start. -/
theorem finishOrdered {form : Form} (ns : List Node) (horder : InOrder form.statements)
    (hsub : ns ⊆ held := by simp) (hparts : form.pieces = ns := by exact rfl)
    (hliteral : form.literal? = none := by exact rfl) :
    Spans start true held (finish start form) where
  proceeds := .finish start form
  gives s hr hs := by
    subst hparts
    refine ⟨.of_place hr rfl { ParseState.Grows.refl s with }, fun hq => ?_⟩
    obtain ⟨hsince, hheld⟩ := hs ⟨hq.1, hq.2, hq.3⟩
    have hstop : max s.prevEnd start = s.prevEnd := max_eq_left hsince
    refine List.forall_mem_singleton.mpr ⟨.intro ?_ ?_ horder ?_ ?_, le_rfl, hstop.le⟩
    · exact le_max_right _ _
    · intro c hc
      show start ≤ c.span.start ∧ c.span.stop ≤ max s.prevEnd start
      rw [hstop]
      exact ⟨(hheld c (hsub hc)).start_le, (hheld c (hsub hc)).stop_le⟩
    · show ∀ raw ∈ form.literal?, _
      rw [hliteral]
      exact nofun
    · exact fun c hc => (hheld c (hsub hc)).faithful

theorem finish {form : Form} (ns : List Node) (hsub : ns ⊆ held := by simp)
    (hparts : form.pieces = ns := by exact rfl) (hliteral : form.literal? = none := by exact rfl)
    (hstatements : form.statements = [] := by exact rfl) :
    Spans start true held (finish start form) :=
  .finishOrdered ns (by rw [hstatements]; exact .nil) hsub hparts hliteral

/-- A node begins where the parser stands. -/
theorem pos {f : Nat → Parse α} (hf : ∀ start, Spans start false [] (f start)) :
    Spans start passed held (pos >>= f) where
  proceeds := .bind inferInstance fun x => (hf x).proceeds
  gives s hr hs := by
    obtain ⟨hfollow, hlies⟩ := (hf s.place.pos).gives s hr fun _ => ⟨le_rfl, nofun⟩
    exact ⟨hfollow, fun hq n hn => (hlies hq n hn).mono ((hs (hfollow.quiet hq)).pos_le hr) le_rfl⟩

theorem withContext (change : ParseContext → ParseContext) (h : Spans start passed held p) :
    Spans start passed held (withContext change p) :=
  ⟨.withContext change h.proceeds, h.gives.withContext change⟩

section
variable [h : Spans start passed held p]

instance (change : ParseContext → ParseContext) :
    Spans start passed held (Parse.withContext change p) :=
  h.withContext change

instance : Spans start passed held (allowIn p) :=
  inferInstanceAs (Spans start passed held (Parse.withContext _ p))

instance : Spans start passed held (allowConditionalType p) :=
  inferInstanceAs (Spans start passed held (Parse.withContext _ p))

instance : Spans start passed held (disallowConditionalType p) :=
  inferInstanceAs (Spans start passed held (Parse.withContext _ p))

end

end Spans

/-- An attempt that fails gives no node. -/
instance {p : Parse (Option α)} [h : Spans start passed held p] :
    Spans start passed held (attempt p) :=
  ⟨.attempt h.proceeds, h.gives.attempt fun _ => nofun⟩

/-- Where the nesting is too deep this is reported. -/
instance {substitute p : Parse Node} [hs : Proceeds substitute] [hp : Spans start passed held p] :
    Spans start passed held (nested substitute p) :=
  ⟨.nested hs hp.proceeds, hp.gives.nested⟩

section
variable {test : Parse Bool} {p : Parse α} [Spans start false [] p]

instance [Proceeds test] : Spans start false [] (when? test p) :=
  .step fun _ => .ite (fun _ => .take fun x => .pure (by simp)) fun _ => .pure (by simp)

instance [Proceeds test] : Spans start false [] (unless? test p) :=
  .step fun _ => .ite (fun _ => .pure (by simp)) fun _ => .take fun x => .pure (by simp)

instance (k : TokenKind) [Proceeds (accept k)] : Spans start false [] (after? k p) :=
  inferInstanceAs (Spans start false [] (when? _ p))

end

/-- A repetition holds what its steps hold between them. -/
theorem Spans.loop {init : α} {step : α → Parse (ForInStep α)} [Progresses step]
    (hinit : nodes init ⊆ held) (hstep : ∀ x, Spans start passed (nodes x) (step x)) :
    Spans start passed held (loop init step) where
  proceeds := .loop init (fun x => (hstep x).proceeds) inferInstance
  gives :=
    have hround (x : α) : Gives (Known start passed (nodes x)) (step x)
        fun r => Known start passed (nodes r.value) :=
      ((hstep x).gives.hold (hstep x).proceeds).imp fun _ _ ha => ⟨ha.1.since, ha.2⟩
    .stay fun _ => ((Gives.rounds hround _ init).imp fun _ _ ha => ha.held).weaken fun _ ha =>
      ⟨ha.since, fun n hn => ha.held n (hinit hn)⟩

instance {step : Parse (Option α × Bool)} [Gathers step] [Spans start false [] step] :
    Spans start false [] (collect step) := by
  unfold collect
  refine .bind (.loop (by simp) fun rev => ?_) fun rev => .pure (by simp [List.subset_def])
  unfold collectStep
  refine .take fun ⟨result, done⟩ => ?_
  have hadd : nodes (result.toList ++ rev) ⊆ nodes rev ++ nodes (result, done) := by
    simp [List.subset_def, or_comm]
  cases done <;> exact .pure hadd

end

/-- Nodes in order, last one first, of which none ends behind the last token passed over. -/
structure Run (rev : List Node) (a : Place) : Prop where
  inOrder : InOrder rev.reverse
  stop_le : ∀ n ∈ rev, n.span.stop ≤ a.prevEnd

theorem Run.add {rev : List Node} {n : Node} {a b : Place} (h : Run rev a) (hr : a.Ready)
    (hle : a.prevEnd ≤ b.prevEnd) (hn : n.Lies b.scanner.source a.pos b.prevEnd) :
    Run (n :: rev) b where
  inOrder := by
    rw [List.reverse_cons]
    refine List.pairwise_append.mpr ⟨h.inOrder, List.pairwise_singleton _ _, fun m hm x hx => ?_⟩
    obtain rfl := List.mem_singleton.mp hx
    exact (h.stop_le m (List.mem_reverse.mp hm)).trans (hr.prevEnd_le.trans hn.start_le)
  stop_le := List.forall_mem_cons.mpr ⟨hn.stop_le, fun m hm => (h.stop_le m hm).trans hle⟩

/-- What is collected stands in the order of the text. -/
theorem collect_inOrder {step : Parse (Option Node × Bool)}
    [h : ∀ start, Spans start false [] step] {P : Place → Prop} :
    Gives P (collect step) fun ns _ => InOrder ns := by
  have hround (rev : List Node) :
      Gives (Run rev) (collectStep step rev) fun r => Run r.value := by
    intro s hr hs
    obtain ⟨hf, hlies⟩ := (h s.place.pos).gives s hr fun _ => ⟨le_rfl, nofun⟩
    have hle := (h s.place.pos).proceeds.prevEnd_le s hr
    refine ⟨hf, fun hq => ?_⟩
    have hrun : Run ((step s).1.1.toList ++ rev) (step s).2.place := by
      have hheld := hlies hq
      cases hx : (step s).1.1 with
      | none =>
          have hrev := hs (hf.quiet hq)
          exact ⟨hrev.inOrder, fun n hn => (hrev.stop_le n hn).trans hle⟩
      | some n => exact (hs (hf.quiet hq)).add hr hle (hheld n (by simp [hx]))
    show Run (if (step s).1.2 then _ else _ : ForInStep (List Node)).value _
    split <;> exact hrun
  have hloop : Gives (fun _ => True) (loop [] (collectStep step)) Run :=
    .stay fun _ => (Gives.rounds hround _ []).weaken fun _ _ => ⟨.nil, nofun⟩
  exact .any (.forget hloop fun rev => .pure fun _ ha => ha.inOrder)

section
variable {α β : Type} {p : Parse α} {f : α → Parse β} {k : TokenKind}

instance : Moves advance :=
  ⟨.advance, fun _ s hr hs => ⟨Proceeds.advance.follows s hr, fun hq =>
    le_trans (hs ((Proceeds.advance.follows s hr).quiet hq)) hr.scanner.start_le_stop⟩⟩

/-- Nothing is lost behind a token that was passed over. -/
theorem Gives.passed [hp : Proceeds p] (n : Nat) :
    Gives (fun a => n ≤ a.prevEnd) p fun _ a => n ≤ a.prevEnd := by
  intro s hr hs
  have hf := hp.follows s hr
  exact ⟨hf, fun hq => le_trans (hs (hf.quiet hq)) (hp.prevEnd_le s hr)⟩

instance [hp : Moves p] [hf : ∀ x, Proceeds (f x)] : Moves (p >>= f) :=
  ⟨.bind hp.proceeds hf, fun n => .forget (hp.gives n) fun _ => .passed n⟩

instance (priority := low) [Proceeds p] [hf : ∀ x, Moves (f x)] : Moves (p >>= f) :=
  ⟨.bind inferInstance fun x => (hf x).proceeds, fun n => .step fun x => (hf x).gives n⟩

theorem accept_of_eq {s : ParseState} (h : s.scanner.token = k) :
    accept k s = (true, (advance s).2) := by
  subst h
  show (ite _ _ _ : Parse Bool) s = _
  rw [if_pos (decide_eq_true rfl)]
  rfl

/-- What was known is still known if the token is not passed over. -/
theorem Gives.accept {P : Place → Prop} {n : Nat} (h : ∀ a, P a → n ≤ a.pos) :
    Gives P (accept k) fun found a => if found = true then n ≤ a.prevEnd else P a :=
  .stay fun _ => .ite (fun _ => .forget ((Moves.gives n).weaken h) fun _ => .pure fun _ ha => ha)
    fun _ => .pure fun _ ha => ha

instance : Signs (accept k) :=
  ⟨inferInstance, fun n => .stay fun _ => .ite
    (fun _ => .forget (Moves.gives n) fun _ => .pure fun _ ha _ => ha)
    fun _ => .pure fun _ _ => (absurd · Bool.false_ne_true)⟩

instance : Moves (expect k) :=
  ⟨inferInstance, fun n => .forget (Signs.gives n) fun _ => .ite
    (fun h => .pure fun _ ha => ha h) fun _ => .error⟩

instance : Moves (require k) := by unfold require; infer_instance

/-- A parser that gives a node passes over a token. -/
theorem Moves.of_spans [Bearer α] (h : ∀ start, Spans start false [] p)
    (hx : ∀ x : α, nodes x ≠ []) : Moves p :=
  ⟨(h 0).proceeds, fun n => ((h n).gives.weaken fun _ ha => ⟨ha, nofun⟩).imp fun x _ ha =>
    (ha _ (List.head_mem (hx x))).ordered⟩

end

section
variable {α : Type} [Bearer α] {start : Nat} {passed : Bool} {held : List Node} {p q : Parse α}
  {k : TokenKind}

/-- A token that is there, as nothing is reported. -/
theorem Spans.expect {f : Bool → Parse α} (hno : Proceeds (f false))
    (hyes : Spans start true held (f true)) : Spans start passed held (expect k >>= f) where
  proceeds := .bind inferInstance (Bool.rec hno hyes.proceeds)
  gives := by
    have hfound : Gives (Known start passed held) (Parse.expect k) fun found a =>
        found = true ∧ start ≤ a.prevEnd :=
      .behind (.forget (Signs.gives start) fun _ => .ite
        (fun h => .pure fun _ ha => ⟨rfl, ha h⟩) fun _ => .error)
    refine .forget (hfound.hold inferInstance) fun found => ?_
    cases found with
    | false => exact .of_false fun _ ha => Bool.false_ne_true ha.2.1
    | true => exact hyes.gives.weaken fun _ ha => ⟨ha.2.2, ha.1.held⟩

theorem Spans.unlessExpect [hp : Proceeds p] (hq : Spans start true held q) :
    Spans start passed held (Parse.expect k >>= fun found => if (!found) = true then p else q) :=
  .expect hp hq

end

section
variable {start : Nat} {passed : Bool} {held : List Node}

/-- A node of the token that is passed over. -/
theorem lies_advance {s : ParseState} (hr : s.place.Ready) {n : Node} (hleaf : n.form.IsLeaf)
    (hspan : n.span = ⟨s.place.pos, s.scanner.stop⟩)
    (hliteral : ∀ raw ∈ n.form.literal?, raw = s.scanner.text) :
    n.Lies (advance s).2.scanner.source s.place.pos (advance s).2.prevEnd := by
  have hsource : (advance s).2.scanner.source = s.scanner.source :=
    (Proceeds.advance.grows s).source
  rw [hsource]
  refine ⟨.of_leaf hleaf ?_ fun raw h => ?_, ?_, ?_⟩
  · rw [hspan]
    exact hr.scanner.start_le_stop
  · rw [hliteral raw h, hspan]
    rfl
  · rw [hspan]
  · rw [hspan]
    exact le_rfl

instance : Spans start false [] takeIdentifier where
  proceeds := inferInstance
  gives s hr hs := by
    have hf := (inferInstance : Proceeds takeIdentifier).follows s hr
    refine ⟨hf, fun hq => List.forall_mem_singleton.mpr ?_⟩
    exact (lies_advance (s := (freshId s).2) hr ⟨rfl, rfl⟩ rfl (by rintro _ ⟨⟩)).mono
      ((hs (hf.quiet hq)).pos_le hr) le_rfl

instance : Spans start false [] identifier := by
  unfold identifier
  exact .step fun _ => .ite (fun _ => inferInstance) fun _ => .error

instance : Spans start false [] identifierName := by
  unfold identifierName
  exact .step fun _ => .ite (fun _ => inferInstance) fun _ => .error

instance : Moves takeIdentifier := .of_spans (fun _ => inferInstance) fun _ => List.cons_ne_nil _ _

instance : Moves identifier := .of_spans (fun _ => inferInstance) fun _ => List.cons_ne_nil _ _

instance : Moves identifierName := .of_spans (fun _ => inferInstance) fun _ => List.cons_ne_nil _ _

instance (first : Parse Identifier) [Moves first] : Moves (entityName first) := by
  unfold entityName
  infer_instance

instance : Spans start false [] stringLiteral where
  proceeds := inferInstance
  gives := by
    unfold stringLiteral
    refine .ask (R := fun span a => span = ⟨a.pos, a.scanner.stop⟩) (fun _ _ => rfl) fun span =>
      .stay fun _ => .ite (fun _ => ?_) fun _ => .error
    refine .stay fun id => .ask (R := fun raw a => raw = a.scanner.text) (fun _ _ => rfl) fun raw =>
      .stay fun value s hr hs => ⟨Proceeds.advance.follows s hr, fun hq => ?_⟩
    obtain ⟨⟨hknown, hspan⟩, hraw⟩ := hs ((Proceeds.advance.follows s hr).quiet hq)
    refine List.forall_mem_singleton.mpr ?_
    exact (lies_advance hr ⟨rfl, rfl⟩ hspan (by rintro _ ⟨⟩; exact hraw)).mono
      (hknown.pos_le hr) le_rfl

end

/-- The position is that of the current token. -/
theorem Gives.at {β : Type} {f : Nat → Parse β} [∀ n, Proceeds (f n)] {Q : β → Place → Prop}
    {start : Nat} (h : Gives (fun a => a.pos = start) (f start) Q) :
    Gives (fun a => a.pos = start) (Parse.pos >>= f) Q := by
  intro s hr hs
  have hf := (inferInstance : Proceeds (f s.place.pos)).follows s hr
  refine ⟨hf, fun hq => ?_⟩
  obtain rfl := hs (hf.quiet hq)
  exact (h s hr fun _ => rfl).2 hq

/-- What a parser that begins on the token where a node starts makes of what it reads. -/
structure Begins {α : Type} [Bearer α] (start : Nat) (p : Parse α) : Prop where
  proceeds : Proceeds p
  gives : Gives (fun a => a.pos = start) p fun x => Held start (nodes x)

namespace Begins

variable {α β : Type} [Bearer α] {start : Nat} {p q : Parse α} {f : β → Parse α}

theorem of_spans (h : Spans start false [] p) : Begins start p :=
  ⟨h.proceeds, h.gives.weaken fun _ ha => ⟨ha.ge, nofun⟩⟩

theorem stay {test : Parse β} [Stays test] (hf : ∀ x, Begins start (f x)) :
    Begins start (test >>= f) :=
  ⟨.bind inferInstance fun x => (hf x).proceeds, .stay fun x => (hf x).gives⟩

protected theorem ite {c : Prop} [Decidable c] (hp : Begins start p) (hq : Begins start q) :
    Begins start (if c then p else q) := by
  split
  · exact hp
  · exact hq

/-- Reading the current token anew does not move its start. -/
theorem rescanSlash {f : Unit → Parse α} (hf : Begins start (f ())) :
    Begins start (rescanSlash >>= f) where
  proceeds := .bind inferInstance fun _ => hf.proceeds
  gives := by
    refine .forget (R := fun _ a => a.pos = start) (fun s hr hs => ?_) fun _ => hf.gives
    have hfollow := Proceeds.rescanSlash.follows s hr
    refine ⟨hfollow, fun hq => ?_⟩
    rw [← hs (hfollow.quiet hq)]
    exact congrArg Cursor.offset (Scanner.rescanSlash_rereads s.scanner).tokenStart

/-- A node of the current token that is written as the token is. -/
theorem literal {form : String → String → Form} (hleaf : ∀ raw value, (form raw value).IsLeaf)
    (hliteral : ∀ raw value, (form raw value).literal? = some raw) :
    Begins start (tokenText >>= fun raw => tokenValue >>= fun value =>
      tokenNode start (form raw value)) where
  proceeds := .bind inferInstance fun _ => .bind inferInstance fun _ => by
    unfold tokenNode
    infer_instance
  gives := by
    refine .ask (R := fun raw a => raw = a.scanner.text) (fun _ _ => rfl) fun raw =>
      .stay fun value s hr hs => ?_
    have hf := Proceeds.advance.follows s hr
    refine ⟨.trans hf ((Proceeds.finish _ _).follows _ hf.ready), fun hq => ?_⟩
    obtain ⟨rfl, rfl⟩ := hs (hf.quiet ⟨hq.1, hq.2, hq.3⟩)
    refine List.forall_mem_singleton.mpr (lies_advance hr (hleaf _ _) ?_ fun raw h => ?_)
    · exact congrArg (Span.mk _) (max_eq_left hr.scanner.start_le_stop)
    · exact Option.some.inj (h.symm.trans (hliteral _ _))

theorem number {form : String → Form} (hleaf : ∀ raw, (form raw).IsLeaf)
    (hliteral : ∀ raw, (form raw).literal? = some raw) :
    Begins start (tokenText >>= fun raw => tokenNode start (form raw)) := by
  show Begins start (tokenText >>= fun raw => tokenValue >>= fun _ => tokenNode start (form raw))
  exact literal (fun raw _ => hleaf raw) fun raw _ => hliteral raw

end Begins

theorem Spans.begins {α : Type} [Bearer α] {start : Nat} {passed : Bool} {held : List Node}
    {f : Nat → Parse α} (hf : ∀ start, Begins start (f start)) :
    Spans start passed held (Parse.pos >>= f) where
  proceeds := .bind inferInstance fun x => (hf x).proceeds
  gives s hr hs := by
    obtain ⟨hfollow, hlies⟩ := (hf s.place.pos).gives s hr fun _ => rfl
    exact ⟨hfollow, fun hq n hn => (hlies hq n hn).mono ((hs (hfollow.quiet hq)).pos_le hr) le_rfl⟩

end Parse

/-- Where the node of a nonterminal starts, if it is not where the parser begins. -/
def Nonterminal.StartsAt (start : Nat) : Nonterminal → Prop
  | .namespaceBody first _ => first = start
  | _ => True

namespace Parse

/-- Parsers of the nonterminals whose nodes span what is read. -/
class Spanning (g : Grammar) : Prop extends Lawful g where
  spans : ∀ {start : Nat} {nt : Nonterminal}, nt.StartsAt start → Spans start false [] (g nt)

variable {g : Grammar} [hg : Spanning g] {start : Nat} {passed : Bool} {held : List Node}

instance : Spans start false [] (g .statement) := hg.spans trivial

instance : Spans start false [] (g .type) := hg.spans trivial

instance : Spans start false [] (g .typeOperator) := hg.spans trivial

instance : Spans start false [] (g .assignment) := hg.spans trivial

instance (above : Precedence) : Spans start false [] (g (.binary above)) := hg.spans trivial

instance : Spans start false [] (g .unary) := hg.spans trivial

instance : Spans start false [] (g .primary) := hg.spans trivial

instance (missing : Message) : Spans start false [] (g (.binding missing)) := hg.spans trivial

instance (ms : Modifiers) : Spans start false [] (g (.namespaceBody start ms)) := hg.spans rfl

instance : Spans start false [] (propertyKey g) := by
  unfold propertyKey
  refine .begins fun start => .stay fun k => ?_
  split
  · exact .of_spans (.take fun literal => .relabel literal.toNode)
  · exact .number (fun _ => ⟨rfl, rfl⟩) fun _ => rfl
  · exact .number (fun _ => ⟨rfl, rfl⟩) fun _ => rfl
  · exact .of_spans (.take fun name => .relabel name.toBinding)
  · exact .of_spans (.move fun _ => .node fun expression => .step fun _ => .finish [expression])
  · exact .of_spans (.take fun name => .relabel name.toBinding)

instance (k : TokenKind) : Spans start false [] (typeAfter? g k) := by
  unfold typeAfter?
  infer_instance

instance : Spans start false [] (typeClause? g) := by unfold typeClause?; infer_instance

instance : Spans start false [] (initializer? g) := by unfold initializer?; infer_instance

theorem shorthandBinding_spans (isShorthand : Bool) (key : Node) :
    Spans start passed [key] (shorthandBinding isShorthand key) := by
  unfold shorthandBinding
  split
  · exact .ite (fun _ => .relabel key) fun _ => .error
  · exact .error

instance : Spans start false [] (propertyBinding? g) := by
  unfold propertyBinding?
  refine .step fun _ => .ite (fun _ => .error) fun _ => .step fun _ => .node fun key =>
    .step fun _ => .ite (fun _ => .node fun name => .pure) fun _ => ?_
  exact .bind (shorthandBinding_spans _ key) fun name => .pure

theorem targetRest_spans (isRest : Bool) (target : Option (Option Node × Node)) :
    Spans start passed (nodes target) (targetRest g start isRest target) := by
  unfold targetRest
  split
  · exact .pure
  · rename_i key name
    refine .take fun initializer => .behind name ?_
    exact .grow (.finish (key.toList ++ [name] ++ initializer.toList)) fun element =>
      .step fun _ => .pure

instance : Spans start false [] (objectPatternElement g) := by
  unfold objectPatternElement
  refine .step fun _ => .ite (fun _ => .pure) fun _ => .pos fun start => .step fun isRest => ?_
  refine .ite (fun _ => .node fun name => .bind .pure fun target => ?_) fun _ =>
    .take fun target => targetRest_spans isRest target
  exact (targetRest_spans isRest target).weaken id (by simp)

instance : Spans start false [] (objectPattern g) := by
  unfold objectPattern
  exact .pos fun start => .move fun _ => .take fun elements => .step fun _ => .finish elements

instance : Spans start false [] (arrayPatternElement g) := by
  unfold arrayPatternElement
  exact .pos fun start => .step fun isRest => .node fun name => .take fun initializer =>
    .finish ([name] ++ initializer.toList)

theorem arrayPatternStep_spans (x : List (Option Node) × Bool) :
    Spans start true (nodes x) (arrayPatternStep g x) := by
  obtain ⟨rev, trailing⟩ := x
  unfold arrayPatternStep
  refine .step fun _ => .ite (fun _ => .pure) fun _ => .step fun _ => .ite (fun _ => .pure)
    fun _ => ?_
  refine .step fun _ => .step fun _ => .ite (fun _ => .error) fun _ => .node fun element => ?_
  exact .step fun _ => .ite (fun _ => .pure) fun _ => .pure

instance : Spans start false [] (arrayPattern g) := by
  unfold arrayPattern arrayPatternElements
  refine .pos fun start => .move fun _ => .bind (.loop (by simp) fun x => ?_)
    fun ⟨rev, trailing⟩ => .step fun _ => .finish (rev.reverse.filterMap id)
  exact arrayPatternStep_spans x

instance (missing : Message) : Spans start false [] (binding g missing) := by
  unfold binding
  refine .step fun k => ?_
  split
  · infer_instance
  · infer_instance
  · exact .step fun _ => .ite (fun _ => .take fun name => .pure) fun _ => .error

end Parse
end Erasure

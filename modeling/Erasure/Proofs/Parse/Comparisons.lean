import Erasure.Proofs.Parse.TypeArguments

/-!
Lines of names and binary operators as expressions. The names and operators of the expression are
those of the line in order, unless a comparison with `<` and one with `>=` are read as type
arguments and an assignment.
-/

namespace Erasure

/-- A name or an operator in an expression. -/
inductive Item where
  | name (text : String)
  | operator (kind : TokenKind)
  deriving DecidableEq

mutual

/-- The names and operators of an expression that has nothing else, from left to right. -/
def Node.inOrder? : Node → Option (List Item)
  | ⟨_, _, form⟩ => form.inOrder?

def Form.inOrder? : Form → Option (List Item)
  | .identifier text => some [.name text]
  | .binary left operator right _ _ =>
      match left.inOrder?, right.inOrder? with
      | some before, some after => some (before ++ .operator operator :: after)
      | _, _ => none
  | _ => none

end

theorem Node.inOrder?_eq (n : Node) : n.inOrder? = n.form.inOrder? := by
  cases n
  rw [Node.inOrder?]

theorem Form.inOrder?_binary {left right : Node} {operator : TokenKind} {b c : Bool}
    {before after : List Item} (hl : left.inOrder? = some before)
    (hr : right.inOrder? = some after) : (Form.binary left operator right b c).inOrder? =
      some (before ++ .operator operator :: after) := by
  rw [Form.inOrder?, hl, hr]

theorem Form.inOrder?_instantiation {operand : Node} {types : List Node} :
    (Form.instantiation operand types).inOrder? = none := by
  simp [Form.inOrder?]

/-- What is wrong with an operand is wrong with the operation. -/
theorem Form.inOrder?_binary_none {left right : Node} {operator : TokenKind} {b c : Bool}
    (h : left.inOrder? = none ∨ right.inOrder? = none) :
    (Form.binary left operator right b c).inOrder? = none := by
  rw [Form.inOrder?]
  rcases h with h | h
  · rw [h]
  · rw [h]
    cases left.inOrder? with
    | none | some _ => rfl

namespace Operations

def items : Operations → List Item
  | [] => []
  | (o, w) :: rest => .operator o.kind :: .name w.text :: items rest

theorem items_append (before after : Operations) :
    items (before ++ after) = before.items ++ after.items := by
  induction before with
  | nil => rfl
  | cons p before ih => rw [List.cons_append, items, items, ih, List.cons_append, List.cons_append]

/-- Somewhere in the operations type arguments are read. -/
def isMisread : Operations → Bool
  | [] => false
  | p :: rest => opens (p :: rest) || isMisread rest

theorem isMisread_of_opens {rest : Operations} (h : rest.opens = true) :
    rest.isMisread = true := by
  cases rest with
  | nil => cases h
  | cons p rest => rw [isMisread, h, Bool.true_or]

end Operations

/-- The names and operators of a line in order. -/
def Line.items (l : Line) : List Item := .name l.first.text :: l.rest.items

namespace Scanner

/-- Tokens with which an operand goes on behind a name, but for `<`. -/
def extenders : List TokenKind :=
  [.questionDot, .dot, .openBracket, .openParen, .exclamation, .templateLiteral, .templateHead,
   .plusPlus, .minusMinus]

theorem not_extender_of_mem {k : TokenKind} (h : k ∈ followers) : k ∉ extenders := by
  have table : ∀ k ∈ followers, k ∉ extenders := by decide
  exact table k h

end Scanner

namespace Parse

variable {g : Grammar} {d n : Nat} {w : Word} {rest : Operations}

/-- A chain is done if its first step adds nothing. -/
theorem runs_chain {P : View → Prop} {target : Node} {step : Node → Parse (ForInStep Node)}
    (hstep : Runs P (step target) fun r v => r = .done target ∧ P v) :
    Runs P (do
      let (result, _) ← loop (target, 1) (chainStep step)
      return result) fun n v => n = target ∧ P v := by
  refine .bind (.loop (I := fun _ x v => x = (target, 1) ∧ P v)
    (Q := fun x v => x.1 = target ∧ P v) (fun v hv => ⟨0, Nat.zero_le _, rfl, hv⟩) ?_)
    fun x => .pure fun _ hv => hv
  intro m x
  refine .given ?_
  rintro v ⟨rfl, hv⟩
  refine ⟨P, hv, .chain (by decide) (.neg (by decide) (.known hstep (.pure fun _ hv => ?_)))⟩
  exact ⟨rfl, hv⟩

section
variable {P : View → Prop} {start : Nat} {allowOptional : Bool} {target : Node}
  (htoken : ∀ v, P v → v.scanner.token ∉ Scanner.extenders)
  (hnone : Runs P (expressionTypeArguments? g) fun r v => r = none ∧ P v)
include htoken

theorem token_ne_of_extender {k : TokenKind} (hk : k ∈ Scanner.extenders) (v : View)
    (hv : P v) : v.scanner.token ≠ k :=
  fun heq => htoken v hv (heq ▸ hk)

/-- Nothing but type arguments is added to an expression before an operator. -/
theorem runs_memberStep {Q : ForInStep Node → View → Prop}
    (htypes : Runs P (instantiationStep g start target) Q) :
    Runs P (memberStep g start allowOptional target) Q := by
  have hne {k : TokenKind} (hk : k ∈ Scanner.extenders) := token_ne_of_extender htoken hk
  refine .look fun line => .known (x := false) (K := P) ?_ ?_
  · unfold isOptionalChain
    split
    · exact .pure fun _ hv => ⟨rfl, hv⟩
    · exact .not_token (hne (by decide)) (.pos rfl (.pure fun _ hv => ⟨rfl, hv⟩))
  refine .known (x := false) (K := P) ?_ (.neg (by decide) ?_)
  · exact .not_accept (f := pure) (hne (by decide)) (.pure fun _ hv => ⟨rfl, hv⟩)
  have hquasi : Runs P (quasiStep g start false target) Q := by
    have hstart : ∀ k, k ∉ Scanner.extenders → ¬ k.isTemplateStart = true := by
      intro k
      cases k <;> decide
    refine .token_of htoken fun k hk => .neg (hstart k hk) (.neg (by decide) ?_)
    exact .not_token (hne (by decide)) (.look fun line => .neg (by simp) htypes)
  refine .look fun c => ?_
  split
  · exact .not_accept (hne (by decide)) (.neg (by decide) hquasi)
  · exact hquasi

include hnone

/-- Where no type arguments are found, an expression is at its end. -/
theorem runs_memberChain : Runs P (memberChain g start allowOptional target) fun n v =>
    n = target ∧ P v := by
  refine runs_chain (runs_memberStep htoken ?_)
  exact .known hnone (.pure fun _ hv => ⟨rfl, hv⟩)

theorem runs_callChain : Runs P (callChain g start target) fun n v => n = target ∧ P v := by
  have hne {k : TokenKind} (hk : k ∈ Scanner.extenders) := token_ne_of_extender htoken hk
  refine runs_chain ?_
  refine .known (runs_memberChain htoken hnone) (.not_accept (hne (by decide)) ?_)
  refine .neg (by decide) (.look fun k => .neg (by simp) (.not_token (hne (by decide)) ?_))
  exact .neg (by simp) (.neg (by decide) (.pure fun _ hv => ⟨rfl, hv⟩))

end

/-- A name is read as itself. -/
theorem runs_primary_name {c : ParseContext} {A B : Scanner → Prop} {text : String}
    (hname : ∀ s, A s → s.token = .identifier) (hvalue : ∀ s, A s → s.value = text)
    (hscan : ∀ s, A s → B s.scan) :
    Runs (StandsIn c d A) (primary g) fun n v => n.form = .identifier text ∧ StandsIn c d B v := by
  have htoken : ∀ v, StandsIn c d A v → v.scanner.token = .identifier :=
    fun _ hv => hname _ hv.scanner
  refine .look fun start => .token htoken (.on_name htoken (.pos rfl ?_))
  refine .bind (R := fun name v => name.text = text ∧ StandsIn c d B v) ?_ ?_
  · refine .on_name htoken (.pos rfl (.look fun id => .look fun span => ?_))
    refine .ask (x := text) (fun s hs => hvalue _ hs.scanner) ?_
    exact .advance (fun v hv => hv.scan (hscan _)) (.pure fun _ hv => ⟨rfl, hv⟩)
  · intro name
    refine .given ?_
    rintro v ⟨htext, hv⟩
    rw [htext]
    exact ⟨_, hv, .finish⟩

theorem runs_primary : Runs (Stands d (Scanner.OnWord w rest)) (primary g) fun n v =>
    n.form = .identifier w.text ∧ Stands d (Scanner.Behind rest) v :=
  runs_primary_name (fun _ hs => hs.finds.token) (fun _ hs => hs.value) fun _ hs => hs.scan

/-- A name before operations is an operand, alone or with type arguments. -/
def Operand (d : Nat) (w : Word) (rest : Operations) (n : Node) (v : View) : Prop :=
  rest.opens = false ∧ n.form = .identifier w.text ∧ Stands d (Scanner.Behind rest) v ∨
    rest.opens = true ∧ n.inOrder? = none ∧ Stands d AtEquals v

theorem AtEquals.token_mem {s : Scanner} (h : AtEquals s) :
    s.token ∈ Scanner.followers := by
  obtain ⟨ks, hs⟩ := h
  rw [hs.1]
  decide

theorem Operand.token_mem {m : Node} {v : View} (h : Operand d w rest m v) :
    v.scanner.token ∈ Scanner.followers := by
  rcases h with ⟨-, -, hv⟩ | ⟨-, -, hv⟩
  · exact hv.scanner.token_mem
  · exact hv.scanner.token_mem

theorem runs_expressionTypeArguments_atEquals :
    Runs (Stands d AtEquals) (expressionTypeArguments? g) fun r v =>
      r = none ∧ Stands d AtEquals v := by
  refine .not_token (fun v hv => ?_) (.pos rfl (.pure fun _ hv => ⟨rfl, hv⟩))
  obtain ⟨ks, hs⟩ := hv.scanner
  rw [hs.1]
  decide

section
variable [Lawful g] (hd : d < Limits.nesting) (hg : ReadsTypes g n) (hrest : rest.length ≤ n)
include hd hg hrest

/-- Type arguments are added once, and nothing more behind them. -/
theorem runs_memberChain_opens (hopens : rest.opens = true) {start : Nat} {target : Node} :
    Runs (Stands d (Scanner.Behind rest)) (memberChain g start true target) fun n v =>
      n.inOrder? = none ∧ Stands d AtEquals v := by
  refine .bind
    (.loop (I := fun m x v => m = 1 ∧ x = (target, 1) ∧ Stands d (Scanner.Behind rest) v ∨
      m = 0 ∧ x.2 = 2 ∧ x.1.inOrder? = none ∧ Stands d AtEquals v)
    (Q := fun x v => x.1.inOrder? = none ∧ Stands d AtEquals v)
    (fun v hv => ⟨1, Nat.le_add_left _ _, .inl ⟨rfl, rfl, hv⟩⟩) ?_) fun x => .pure fun _ hv => hv
  rintro m ⟨target', chain⟩
  refine .given ?_
  rintro v (⟨rfl, heq, hv⟩ | ⟨rfl, rfl, horder, hv⟩)
  · obtain ⟨rfl, rfl⟩ := Prod.mk.inj heq
    refine ⟨_, hv, .chain (by decide) (.neg (by decide) ?_)⟩
    refine .bind
      (R := fun r v => ∃ n : Node, r = .yield n ∧ n.inOrder? = none ∧ Stands d AtEquals v)
      (runs_memberStep (fun _ hv => Scanner.not_extender_of_mem hv.scanner.token_mem) ?_)
      fun r => ?_
    · refine .bind (runs_expressionTypeArguments_some hd hg hrest hopens) fun types => ?_
      cases types with
      | none => exact fun s hs => nomatch hs.1
      | some types =>
          refine .bind (.weaken .finish fun _ hv => hv.2) fun n => .pure ?_
          rintro v ⟨hform, hv⟩
          refine ⟨n, rfl, ?_, hv⟩
          rw [Node.inOrder?_eq, hform, Form.inOrder?_instantiation]
    · refine .given ?_
      rintro v ⟨n, rfl, horder, hv⟩
      exact ⟨_, hv, .pure fun v hv => ⟨0, Nat.one_pos, .inr ⟨rfl, rfl, horder, hv⟩⟩⟩
  · refine ⟨_, hv, .chain (by decide) (.neg (by decide) (.known (runs_memberStep
      (fun _ hv => Scanner.not_extender_of_mem hv.scanner.token_mem)
      (.known runs_expressionTypeArguments_atEquals (.pure fun _ hv => ⟨rfl, hv⟩))) ?_))⟩
    exact .pure fun _ hv => ⟨horder, hv⟩

variable (hprimary : Runs (Stands d (Scanner.OnWord w rest)) (g .primary) fun n v =>
  n.form = .identifier w.text ∧ Stands d (Scanner.Behind rest) v)
include hprimary

theorem runs_leftHandSide : Runs (Stands d (Scanner.OnWord w rest)) (leftHandSide g) fun n v =>
    Operand d w rest n v := by
  have hne {k : TokenKind} (hk : .identifier ≠ k) (v : View)
      (hv : Stands d (Scanner.OnWord w rest) v) : v.scanner.token ≠ k :=
    hv.scanner.finds.token.trans_ne hk
  refine .look fun start => .not_accept (hne (by decide)) (.neg (by decide) ?_)
  refine .not_accept (hne (by decide)) (.neg (by decide) (.bind hprimary fun operand => ?_))
  cases hopens : rest.opens with
  | true =>
      refine .bind
        (.weaken (runs_memberChain_opens hd hg hrest hopens) fun _ hv => hv.2) fun n => ?_
      refine .given fun v hv => ⟨_, hv.2, .imp (runs_callChain
        (fun _ hv => Scanner.not_extender_of_mem hv.scanner.token_mem)
        runs_expressionTypeArguments_atEquals) ?_⟩
      rintro _ w ⟨rfl, hw⟩
      exact .inr ⟨hopens, hv.1, hw⟩
  | false =>
      have htypes := runs_expressionTypeArguments_none (d := d) hg hrest hopens
      have hmem : ∀ v, Stands d (Scanner.Behind rest) v →
          v.scanner.token ∉ Scanner.extenders :=
        fun _ hv => Scanner.not_extender_of_mem hv.scanner.token_mem
      refine .given fun v hv => ⟨_, hv.2, ?_⟩
      refine .known (runs_memberChain hmem htypes) ?_
      refine .imp (runs_callChain hmem htypes) ?_
      rintro _ w ⟨rfl, hw⟩
      exact .inl ⟨hopens, hv.1, hw⟩

/-- A name is an operand of operators. -/
theorem runs_unaryInner : Runs (Stands d (Scanner.OnWord w rest)) (unaryInner g) fun n v =>
    Operand d w rest n v := by
  refine .look fun start => .token (fun _ hv => hv.scanner.finds.token) ?_
  show Runs _ (postfixOperation g start) _
  refine .bind (runs_leftHandSide hd hg hrest hprimary) fun operand => ?_
  have hoperator : ∀ k ∈ Scanner.followers, k ≠ .plusPlus ∧ k ≠ .minusMinus := by decide
  refine .token_mem (fun _ hv => hv.token_mem) fun k hk => .look fun line => ?_
  exact .neg (by simp [hoperator k hk]) (.pure fun _ hv => hv)

end

theorem runs_unary (hd : d + 1 < Limits.nesting) {fuel : Nat} (hfuel : 2 * rest.length + 2 ≤ fuel) :
    Runs (Stands d (Scanner.OnWord w rest)) (grammar fuel .unary) fun n v =>
      Operand d w rest n v := by
  obtain ⟨fuel, rfl⟩ : ∃ m, fuel = m + 2 := ⟨fuel - 2, by omega⟩
  refine .nested (K := Stands (d + 1) (Scanner.OnWord w rest)) (R := Operand (d + 1) w rest)
    (runs_unaryInner hd (readsTypes_grammar rest.length (fuel + 1) (by omega)) (Nat.le_refl _)
      runs_primary) (fun v hv => ?_) (fun _ hv => hv.enter) fun x v hv => ?_
  · rw [hv.depth]
    omega
  · exact hv.imp (fun h => ⟨h.1, h.2.1, h.2.2.leave⟩) fun h => ⟨h.1, h.2.1, h.2.2.leave⟩

end Parse

namespace Scanner

/-- The scanner stands behind a name, on the whole operator that follows. -/
def Joined : Operations → Scanner → Prop
  | [], s => s.Finds .endOfFile []
  | (o, w) :: rest, s => s.Finds o.kind (' ' :: (w.text.toList ++ Operations.chars rest))

theorem Finds.join_end {s : Scanner} (h : s.Finds .endOfFile []) :
    s.rescanGreater.Finds .endOfFile [] := by
  rw [Scanner.rescanGreater, if_neg (by rw [h.token]; decide)]
  exact h

theorem Behind.join {s : Scanner} {rest : Operations} (h : s.Behind rest) :
    s.rescanGreater.Joined rest := by
  cases rest with
  | nil => exact Finds.join_end h
  | cons p rest => exact Behind.rescanGreater h

theorem Joined.join {s : Scanner} {rest : Operations} (h : s.Joined rest) :
    s.rescanGreater.Joined rest := by
  cases rest with
  | nil => exact Finds.join_end h
  | cons p rest =>
      obtain ⟨o, w⟩ := p
      by_cases ho : o.kind = .greaterThan
      · have hbehind : s.Behind ((o, w) :: rest) := by
          rw [Joined, ho] at h
          rw [Behind, ho]
          exact h
        exact hbehind.join
      · rw [Scanner.rescanGreater, if_neg (by rw [Finds.token h]; exact ho)]
        exact h

theorem Joined.scan {s : Scanner} {o : Operator} {w : Word} {rest : Operations}
    (h : s.Joined ((o, w) :: rest)) : s.scan.OnWord w rest :=
  onWord_blank (Finds.reads h)

end Scanner

/-- The level of the first operation, if it binds tighter than another one. -/
def Operations.level? (above : Precedence) : Operations → Option Precedence
  | [] => none
  | (o, _) :: _ =>
      (Precedence.ofBinary? o.kind).filter fun level => Parse.bindsTighter o.kind level above

namespace Parse

variable {g : Grammar} {d : Nat} {w : Word} {rest : Operations}

theorem runs_operatorLevel {above : Precedence} :
    Runs (Stands d fun s => s.rescanGreater.Joined rest) (operatorLevel? above) fun r v =>
      r = rest.level? above ∧ Stands d (Scanner.Joined rest) v := by
  have hjoin : ∀ v, Stands d (fun s => s.rescanGreater.Joined rest) v →
      Stands d (Scanner.Joined rest) { v with scanner := v.scanner.rescanGreater } :=
    fun _ hv => ⟨hv.context, hv.depth, hv.scanner⟩
  cases rest with
  | nil =>
      refine .rescanGreater hjoin (fun _ hv => Scanner.Finds.token hv.scanner) ?_
      exact .look fun _ => .neg (by simp) (.pure fun _ hv => ⟨rfl, hv⟩)
  | cons p rest =>
      refine .rescanGreater hjoin (fun _ hv => Scanner.Finds.token hv.scanner) ?_
      exact .context (fun _ hv => hv.context) (.neg (by simp) (.pure fun _ hv => ⟨rfl, hv⟩))

theorem runs_operatorLevel_atEquals {above : Precedence} :
    Runs (Stands d AtEquals) (operatorLevel? above) fun r v => r = none ∧ Stands d AtEquals v := by
  refine .rescanGreater (K := Stands d AtEquals) (k := .equals) (fun v hv => ?_) ?_ ?_
  · obtain ⟨ks, hs⟩ := hv.scanner
    refine ⟨hv.context, hv.depth, ks, ?_⟩
    show v.scanner.rescanGreater.Yields _
    rwa [Scanner.rescanGreater, if_neg (by rw [hs.1]; decide)]
  · exact fun _ hv => hv.scanner.choose_spec.1
  · exact .look fun _ => .neg (by simp) (.pure fun _ hv => ⟨rfl, hv⟩)

/-- What is read from a name on: the operations up to one that binds less tightly, or type
arguments and what was read before them. -/
inductive Read (d : Nat) (above : Precedence) (w : Word) (rest : Operations) (n : Node) (v : View) :
    Prop
  | clean (done left : Operations) (hrest : rest = done ++ left)
      (horder : n.inOrder? = some (.name w.text :: done.items))
      (hmisread : rest.isMisread = left.isMisread) (hopens : left.opens = false)
      (hlevel : left.level? above = none) (hv : Stands d (Scanner.Joined left) v)
  | misread (hmisread : rest.isMisread = true) (horder : n.inOrder? = none)
      (hv : Stands d AtEquals v)

theorem Read.errors {above : Precedence} {m : Node} {v : View} (h : Read d above w rest m v)
    (e : List Diagnostic) : Read d above w rest m { v with errorsRev := e } := by
  cases h with
  | clean done left hrest horder hmisread hopens hlevel hv =>
      exact .clean done left hrest horder hmisread hopens hlevel (hv.errors e)
  | misread hmisread horder hv => exact .misread hmisread horder (hv.errors e)

theorem runs_checkCoalesceOperand {P : View → Prop} (hP : ∀ v e, P v → P { v with errorsRev := e })
    (operand : Node) : Runs P (checkCoalesceOperand operand) fun _ => P := by
  unfold checkCoalesceOperand
  split
  · split
    · exact .errorAt (f := pure) hP (.pure fun _ hv => hv)
    · exact .pure fun _ hv => hv
  · exact .pure fun _ hv => hv

theorem runs_binaryStep {P K : View → Prop} {Q : Node → View → Prop} {operator : TokenKind}
    {level : Precedence} {start : Nat} {left : Node}
    (hnext : ∀ v, P v → K { v with scanner := v.scanner.scan })
    (hright : Runs K (g (.binary level)) Q)
    (herrors : ∀ n v e, Q n v → Q n { v with errorsRev := e }) :
    Runs P (binaryStep g start left operator level) fun n v =>
      ∃ right b c, n.form = .binary left operator right b c ∧ Q right v := by
  refine .look fun breakBefore => .advance hnext ?_
  refine .look fun breakAfter => .bind hright fun right => ?_
  have hnode : Runs (Q right) (binaryNode start left operator right breakBefore breakAfter)
      fun n v => ∃ right b c, n.form = .binary left operator right b c ∧ Q right v :=
    .imp .finish fun _ _ hv => ⟨right, breakBefore, breakAfter, hv⟩
  split
  · refine .bind (runs_checkCoalesceOperand (fun v e hv => herrors _ v e hv) left) fun _ => ?_
    exact .bind (runs_checkCoalesceOperand (fun v e hv => herrors _ v e hv) right) fun _ => hnode
  · exact hnode

/-- The state of the loop over operators: those read so far and those that are left. -/
inductive Reading (d : Nat) (w : Word) (rest : Operations) : Nat → Node × Nat → View → Prop
  | clean {n : Node} {chain : Nat} {v : View} (done left : Operations) (hrest : rest = done ++ left)
      (horder : n.inOrder? = some (.name w.text :: done.items))
      (hchain : chain + left.length ≤ rest.length + 1)
      (hmisread : rest.isMisread = left.isMisread) (hopens : left.opens = false)
      (hv : Stands d (fun s => s.rescanGreater.Joined left) v) :
      Reading d w rest (left.length + 1) (n, chain) v
  | misread {n : Node} {chain : Nat} {v : View} (hmisread : rest.isMisread = true)
      (horder : n.inOrder? = none) (hv : Stands d AtEquals v) : Reading d w rest 0 (n, chain) v

/-- One operator more was read, with its right operand. -/
theorem Reading.next {done more : Operations} {o : Operator} {w' : Word} {n right left : Node}
    {chain : Nat} {level : Precedence} {v : View} {b c : Bool}
    (hrest : rest = done ++ (o, w') :: more)
    (horder : left.inOrder? = some (.name w.text :: done.items))
    (hchain : chain + (more.length + 1) ≤ rest.length + 1)
    (hmisread : rest.isMisread = Operations.isMisread ((o, w') :: more))
    (hopens : Operations.opens ((o, w') :: more) = false)
    (hn : n.form = .binary left o.kind right b c) (hright : Read d level w' more right v) :
    ∃ m < more.length + 2, Reading d w rest m (n, chain + 1) v := by
  have hmore : rest.isMisread = Operations.isMisread more := by
    rw [hmisread, Operations.isMisread, hopens, Bool.false_or]
  cases hright with
  | clean done' left' hmore' horder' hmisread' hopens' _ hv =>
      have hlength : more.length = done'.length + left'.length := by
        rw [hmore', List.length_append]
      refine ⟨_, ?_,
        .clean (done ++ (o, w') :: done') left' ?_ ?_ ?_ (hmore.trans hmisread') hopens'
        (hv.imp fun _ h => h.join)⟩
      · omega
      · rw [hrest, hmore', List.append_assoc, List.cons_append]
      · rw [Node.inOrder?_eq, hn, Form.inOrder?_binary horder horder', Operations.items_append]
        rfl
      · omega
  | misread hmisread' horder' hv =>
      refine ⟨0, by omega, .misread (hmore.trans hmisread') ?_ hv⟩
      rw [Node.inOrder?_eq, hn, Form.inOrder?_binary_none (.inr horder')]

theorem runs_binaryRest {above : Precedence} {start : Nat} {first : Node}
    (hlimit : rest.length < Limits.leftChain)
    (hright : ∀ w' more level, more.length < rest.length →
      Runs (Stands d (Scanner.OnWord w' more)) (g (.binary level)) (Read d level w' more)) :
    Runs (fun v => Operand d w rest first v) (binaryRest g start above first)
      (Read d above w rest) := by
  refine .bind (.loop (I := Reading d w rest) (Q := fun x v => Read d above w rest x.1 v)
    (fun v hv => ?_) ?_) fun x => .pure fun _ hv => hv
  · rcases hv with ⟨hopens, hform, hv⟩ | ⟨hopens, horder, hv⟩
    · have hlength := hv.scanner.length_le
      refine ⟨rest.length + 1, by omega, .clean [] rest rfl ?_ (by omega) rfl hopens
        (hv.imp fun _ h => h.join)⟩
      rw [Node.inOrder?_eq, hform, Form.inOrder?]
      rfl
    · exact ⟨0, Nat.zero_le _, .misread (Operations.isMisread_of_opens hopens) horder hv⟩
  · intro m x
    refine .given fun v hv => ?_
    cases hv with
    | misread hmisread horder hv =>
        refine ⟨_, hv, .known runs_operatorLevel_atEquals (.pure fun v hv => ?_)⟩
        exact .misread hmisread horder hv
    | @clean left chain _ done after hrest horder hchain hmisread hopens hv =>
        refine ⟨_, hv, .known runs_operatorLevel ?_⟩
        cases hlevel : after.level? above with
        | none => exact .pure fun v hv => .clean done after hrest horder hmisread hopens hlevel hv
        | some level =>
            cases after with
            | nil => cases hlevel
            | cons p more =>
                obtain ⟨o, w'⟩ := p
                rw [List.length_cons] at hchain
                have hmore : more.length < rest.length := by
                  rw [hrest, List.length_append, List.length_cons]
                  omega
                refine .chain (by omega) (.neg (by decide)
                  (.token (fun _ hv => Scanner.Finds.token hv.scanner) (.neg ?_ ?_)))
                · simp [o.ne_as, o.ne_satisfies]
                · refine .bind (runs_binaryStep (fun _ hv => hv.scan fun h => h.scan)
                    (hright w' more level hmore) fun _ _ e hv => hv.errors e) fun n => .pure ?_
                  rintro v ⟨right, b, c, hn, hread⟩
                  exact Reading.next hrest horder hchain hmisread hopens hn hread

/-- A name is the base of a power without parentheses. -/
theorem runs_checkPowerBase {first : Node} :
    Runs (fun v => Operand d w rest first v) (checkPowerBase first) fun _ v =>
      Operand d w rest first v := by
  refine .given fun v hv => ?_
  rcases hv with ⟨hopens, hform, hv⟩ | ⟨hopens, horder, hv⟩
  · refine ⟨_, hv, .look fun isPower => ?_⟩
    have hend {v : View} (hv : Stands d (Scanner.Behind rest) v) : Operand d w rest first v :=
      .inl ⟨hopens, hform, hv⟩
    split
    · exact .pure fun _ hv => hend hv
    · rw [hform]
      exact .pure fun _ hv => hend hv
  · refine ⟨_, hv, .not_token (fun v hv => ?_) (.pos rfl (.pure fun _ hv => ?_))⟩
    · rw [hv.scanner.choose_spec.1]
      decide
    · exact .inr ⟨hopens, horder, hv⟩

/-- Operations are read by a grammar with enough fuel for their operators. -/
theorem runs_binary (hd : d + 1 < Limits.nesting) {fuel : Nat} (hfuel : 2 * rest.length + 3 ≤ fuel)
    (hlimit : rest.length < Limits.leftChain) (above : Precedence) :
    Runs (Stands d (Scanner.OnWord w rest)) (grammar fuel (.binary above))
      (Read d above w rest) := by
  induction fuel generalizing w rest above with
  | zero => omega
  | succ fuel ih =>
      refine .look fun start => .bind (runs_unary hd (by omega)) fun first => ?_
      refine .bind runs_checkPowerBase fun _ => runs_binaryRest hlimit ?_
      exact fun w' more level hmore => ih (by omega) (by omega) level

/-- A line was read to its end as operations, or type arguments were read in it. -/
def Whole (d : Nat) (w : Word) (rest : Operations) (n : Node) (v : View) : Prop :=
  rest.isMisread = false ∧ n.inOrder? = some (.name w.text :: rest.items) ∧
      Stands d (Scanner.Finds .endOfFile []) v ∨
    rest.isMisread = true ∧ n.inOrder? = none

theorem level?_comma_ne_none {o : Operator} :
    Operations.level? .comma ((o, w) :: rest) ≠ none := by
  have table : ∀ k ∈ TokenKind.signs, (Precedence.ofBinary? k).filter
      (fun level => bindsTighter k level .comma) ≠ none := by decide
  rcases o.kind_mem with hk | hk | hk | hk | hk | hk | hk
  · exact table _ hk
  all_goals
    rw [Operations.level?, hk]
    decide

theorem Read.whole {m : Node} {v : View} (h : Read d .comma w rest m v) : Whole d w rest m v := by
  cases h with
  | misread hmisread horder _ => exact .inr ⟨hmisread, horder⟩
  | clean done left hrest horder hmisread _ hlevel hv =>
      cases left with
      | cons p left => exact absurd hlevel level?_comma_ne_none
      | nil =>
          rw [List.append_nil] at hrest
          rw [hrest] at hmisread ⊢
          exact .inl ⟨hmisread, horder, hv⟩

/-- What an assignment or condition adds makes no expression of names and operators. -/
theorem runs_operationRest_none {start : Nat} {first : Node} (h : first.inOrder? = none)
    {P : View → Prop} (htoken : ∀ v, P v → v.scanner.token ≠ .arrow) :
    Runs P (operationRest g start first) fun n _ => n.inOrder? = none := by
  refine .not_token htoken (.neg (by decide) (.bind .any fun isAssignment => ?_))
  split
  · refine .look fun operator => .look fun b => .bind .any fun _ => .look fun c => ?_
    refine .bind .any fun value => .imp .finish ?_
    rintro n v ⟨hform, -⟩
    rw [Node.inOrder?_eq, hform, Form.inOrder?_binary_none (.inl h)]
  · refine .look fun b => .bind .any fun isConditional => ?_
    split
    · exact .pure fun _ _ => h
    · refine .look fun _ => .bind .any fun _ => .look fun _ => .bind .any fun _ => .look fun _ => ?_
      refine .bind .any fun _ => .imp .finish ?_
      rintro n v ⟨hform, -⟩
      rw [Node.inOrder?_eq, hform]
      simp [Form.inOrder?]

/-- At the end of the line nothing is added. -/
theorem runs_operationRest_end {start : Nat} {first : Node} :
    Runs (Stands d (Scanner.Finds .endOfFile [])) (operationRest g start first) fun n v =>
      n = first ∧ Stands d (Scanner.Finds .endOfFile []) v := by
  have hend : ∀ v, Stands d (Scanner.Finds .endOfFile []) v → v.scanner.token = .endOfFile :=
    fun _ hv => hv.scanner.token
  refine .not_token (fun v hv => (hend v hv).trans_ne (by decide)) (.neg (by decide) ?_)
  refine .known (x := false) (K := Stands d (Scanner.Finds .endOfFile [])) ?_ (.neg (by decide) ?_)
  · unfold isAssignmentTo
    split
    · refine .rescanGreater (fun v hv => ⟨hv.context, hv.depth, ?_⟩) hend
        (.pure fun _ hv => ⟨rfl, hv⟩)
      exact hv.scanner.join_end
    · exact .pure fun _ hv => ⟨rfl, hv⟩
  · refine .look fun _ => .not_accept (fun v hv => (hend v hv).trans_ne (by decide)) (.pos rfl ?_)
    exact .pure fun _ hv => ⟨rfl, hv⟩

theorem runs_operationRest {start : Nat} {first : Node} :
    Runs (Read d .comma w rest first) (operationRest g start first) (Whole d w rest) := by
  refine .given fun v hv => ?_
  rcases hv.whole with ⟨hmisread, horder, hend⟩ | ⟨hmisread, horder⟩
  · refine ⟨_, hend, .imp runs_operationRest_end ?_⟩
    rintro n w ⟨hn, hw⟩
    rw [hn]
    exact .inl ⟨hmisread, horder, hw⟩
  · refine ⟨_, hv, .imp (runs_operationRest_none horder fun v hv => ?_) fun _ _ hn =>
      .inr ⟨hmisread, hn⟩⟩
    cases hv with
    | clean _ left _ horder' _ _ _ _ =>
        rw [horder] at horder'
        cases horder'
    | misread _ _ hv =>
        rw [hv.scanner.choose_spec.1]
        decide

theorem runs_assignment (hd : d + 2 < Limits.nesting) {fuel : Nat}
    (hfuel : 2 * rest.length + 4 ≤ fuel) (hlimit : rest.length < Limits.leftChain) :
    Runs (Stands d (Scanner.OnWord w rest)) (grammar fuel .assignment) (Whole d w rest) := by
  obtain ⟨fuel, rfl⟩ : ∃ m, fuel = m + 1 := ⟨fuel - 1, by omega⟩
  have hname : ∀ v, Stands (d + 1) (Scanner.OnWord w rest) v → v.scanner.token = .identifier :=
    fun _ hv => hv.scanner.finds.token
  have hne {k : TokenKind} (hk : .identifier ≠ k) (v : View)
      (hv : Stands (d + 1) (Scanner.OnWord w rest) v) : v.scanner.token ≠ k :=
    (hname v hv).trans_ne hk
  refine .nested (K := Stands (d + 1) (Scanner.OnWord w rest)) (R := Whole (d + 1) w rest) ?_
    (fun v hv => ?_) (fun _ hv => hv.enter) fun n v hv => ?_
  · refine .look fun start => .not_token (hne (by decide)) (.look fun _ => .neg (by simp) ?_)
    refine .known (x := none) (K := Stands (d + 1) (Scanner.OnWord w rest)) ?_ ?_
    · refine .not_oneOf (fun v hv => ?_) (.pos rfl (.pure fun _ hv => ⟨rfl, hv⟩))
      rw [hname v hv]
      decide
    refine .known (x := none) (K := Stands (d + 1) (Scanner.OnWord w rest)) ?_ ?_
    · refine .known (x := false) (K := Stands (d + 1) (Scanner.OnWord w rest)) ?_
        (.pos rfl (.pure fun _ hv => ⟨rfl, hv⟩))
      exact .not_token (hne (by decide)) (.pos rfl (.pure fun _ hv => ⟨rfl, hv⟩))
    exact .bind (runs_binary hd (by omega) hlimit .comma) fun _ => runs_operationRest
  · rw [hv.depth]
    omega
  · exact hv.imp (fun h => ⟨h.1, h.2.1, h.2.2.leave⟩) fun h => h

/-- No more operands follow at the end of the line, and what is wrong stays wrong. -/
theorem runs_expression (hd : d + 2 < Limits.nesting) {fuel : Nat}
    (hfuel : 2 * rest.length + 4 ≤ fuel) (hlimit : rest.length < Limits.leftChain) :
    Runs (Stands d (Scanner.OnWord w rest)) (expression (grammar fuel)) (Whole d w rest) := by
  refine .sameContext rfl (fun _ hv => hv.context) ?_ fun n v hv => ?_
  · refine .look fun start => .bind (runs_assignment hd hfuel hlimit) fun first => ?_
    refine .given fun v hv => ?_
    rcases hv with ⟨hmisread, horder, hv⟩ | ⟨hmisread, horder⟩
    · refine ⟨_, hv, .bind (.loop (I := fun _ x v => x.1 = first ∧
        Stands d (Scanner.Finds .endOfFile []) v) (Q := fun x v => x.1 = first ∧
        Stands d (Scanner.Finds .endOfFile []) v) (fun v hv => ⟨0, Nat.zero_le _, rfl, hv⟩)
        fun m x => ?_) fun x => .pure ?_⟩
      · refine .not_token (fun v hv => hv.2.scanner.token.trans_ne (by decide)) (.pos rfl ?_)
        exact .pure fun _ hv => hv
      · rintro v ⟨hx, hv⟩
        rw [hx]
        exact .inl ⟨hmisread, horder, hv⟩
    · refine ⟨fun _ => True, trivial, .bind (.loop_keeps (J := fun x _ => x.1.inOrder? = none)
        (fun _ _ => horder) fun x => ?_) fun x => .pure fun _ hx => .inr ⟨hmisread, hx⟩⟩
      refine .given fun v hx => ⟨fun _ => True, trivial, .look fun isComma => ?_⟩
      split
      · exact .pure fun _ _ => hx
      refine .bind .any fun tooLong => ?_
      split
      · exact .pure fun _ _ => hx
      refine .look fun _ => .bind .any fun _ => .look fun _ => .bind .any fun right => ?_
      refine .bind .finish fun n => .pure ?_
      rintro v ⟨hform, -⟩
      show n.inOrder? = none
      rw [Node.inOrder?_eq, hform, Form.inOrder?_binary_none (.inl hx)]
  · exact hv.imp (fun h => ⟨h.1, h.2.1, rfl, h.2.2.depth, h.2.2.scanner⟩) fun h => h

/-- The line is a statement of its own if it is read to its end. -/
def Statement (w : Word) (rest : Operations) (n : Node) (v : View) : Prop :=
  ∃ e, n.form = .exprStmt e ∧ Whole 0 w rest e v

theorem runs_expressionEnd {e : Node} : Runs (Whole d w rest e) (expressionEnd e) fun _ =>
    Whole d w rest e := by
  refine .given fun v hv => ?_
  rcases hv with ⟨hmisread, horder, hv⟩ | ⟨hmisread, horder⟩
  · have hend : Runs (Stands d (Scanner.Finds .endOfFile [])) canEndStatement fun x v =>
        x = true ∧ Stands d (Scanner.Finds .endOfFile []) v := by
      refine .ask (x := true) (fun s hs => ?_) (.pos rfl (.pure fun _ hv => ⟨rfl, hv⟩))
      show List.contains _ s.scanner.token = true
      rw [show s.scanner.token = .endOfFile from hs.scanner.token]
      decide
    refine ⟨_, hv, .imp (R := fun _ => Stands d (Scanner.Finds .endOfFile [])) ?_ fun _ _ hv =>
      .inl ⟨hmisread, horder, hv⟩⟩
    refine .known (x := false) (K := Stands d (Scanner.Finds .endOfFile [])) ?_
      (.neg (by decide) ?_)
    · exact .known hend (.pos (Bool.or_true _) (.pure fun _ hv => ⟨rfl, hv⟩))
    · refine .not_accept (fun v hv => hv.scanner.token.trans_ne (by decide)) (.neg (by decide) ?_)
      exact .known hend (.pos rfl (.pure fun _ hv => hv))
  · exact ⟨fun _ => True, trivial, .imp .any fun _ _ _ => .inr ⟨hmisread, horder⟩⟩

theorem runs_statement {fuel : Nat} (hfuel : 2 * rest.length + 5 ≤ fuel)
    (hlimit : rest.length < Limits.leftChain) :
    Runs (Stands 0 (Scanner.OnWord w rest)) (grammar fuel .statement) (Statement w rest) := by
  obtain ⟨fuel, rfl⟩ : ∃ m, fuel = m + 1 := ⟨fuel - 1, by omega⟩
  have hname : ∀ v, Stands 1 (Scanner.OnWord w rest) v → v.scanner.token = .identifier :=
    fun _ hv => hv.scanner.finds.token
  refine .nested (K := Stands 1 (Scanner.OnWord w rest))
    (R := fun n v => ∃ e, n.form = .exprStmt e ∧ Whole 1 w rest e v) ?_
    (fun v hv => ?_) (fun _ hv => hv.enter) fun n v hv => ?_
  · refine .look fun start => .token hname ?_
    show Runs _ (otherStatement _ _) _
    refine .known (x := false) (K := Stands 1 (Scanner.OnWord w rest)) (.lookAhead ?_)
      (.neg (by decide) ?_)
    · refine .loop (I := fun _ _ => Stands 1 (Scanner.OnWord w rest)) (Q := fun x _ => x = false)
        (fun v hv => ⟨0, Nat.zero_le _, hv⟩) fun m x => ?_
      refine .known (x := some false) (K := Stands 1 (Scanner.OnWord w rest)) ?_
        (.pure fun _ _ => rfl)
      exact .token hname (.pure fun _ hv => ⟨rfl, hv⟩)
    refine .known (x := false) (K := Stands 1 (Scanner.OnWord w rest)) ?_ (.neg (by decide) ?_)
    · refine .on_name hname (.pos rfl (.lookAhead ?_))
      refine .advance (K := Stands 1 (Scanner.Behind rest)) (fun _ hv => hv.scan fun h => h.scan) ?_
      refine .not_token (f := pure) (fun v hv heq => ?_) (.pure fun _ _ => rfl)
      have hmem := hv.scanner.token_mem
      rw [heq] at hmem
      exact absurd hmem (by decide)
    refine .bind (runs_expression (by decide) (by omega) hlimit) fun e => ?_
    exact .bind runs_expressionEnd fun _ => .imp .finish fun n v hv => ⟨e, hv⟩
  · rw [hv.depth]
    decide
  · obtain ⟨e, hform, hv⟩ := hv
    exact ⟨e, hform, hv.imp (fun h => ⟨h.1, h.2.1, h.2.2.leave⟩) fun h => h⟩

section
variable {fuel : Nat} (hfuel : 2 * rest.length + 5 ≤ fuel) (hlimit : rest.length < Limits.leftChain)
include hfuel hlimit

/-- A list of statements starts with the line, and ends at the end of the file. -/
theorem statementList_step : ∃ step,
    statementList (grammar fuel) (· = .endOfFile) = collect step ∧
      Runs (Stands 0 (Scanner.OnWord w rest)) step (fun r v =>
        ∃ n, r = (some n, false) ∧ Statement w rest n v) ∧
      Runs (Stands 0 (Scanner.Finds .endOfFile [])) step fun r _ => r = (none, true) := by
  have hname : ∀ v, Stands 0 (Scanner.OnWord w rest) v → v.scanner.token = .identifier :=
    fun _ hv => hv.scanner.finds.token
  refine ⟨_, rfl, ?_, .token (fun _ hv => hv.scanner.token) (.pos rfl (.pure fun _ _ => rfl))⟩
  refine .token hname (.neg (by decide) ?_)
  refine .known (.token hname (runs_isExpressionStart_name hname)) (.pos rfl ?_)
  refine .look fun start => .bind (runs_statement hfuel hlimit) fun n => .given ?_
  rintro v ⟨e, hform, ⟨hmisread, horder, hv⟩ | ⟨hmisread, horder⟩⟩
  · refine ⟨_, hv, .look fun stop => .on_token (fun _ hv => hv.scanner.token) (.neg (by simp) ?_)⟩
    exact .pure fun _ hv => ⟨n, rfl, e, hform, .inl ⟨hmisread, horder, hv⟩⟩
  · refine ⟨fun _ => True, trivial, .look fun _ => .look fun _ => ?_⟩
    have hend (r : Unit) : Runs (fun _ => True) (pure (some n, false) : Parse (Option Node × Bool))
        fun r v => ∃ n, r = (some n, false) ∧ Statement w rest n v :=
      .pure fun _ _ => ⟨n, rfl, e, hform, .inr ⟨hmisread, horder⟩⟩
    dsimp only
    split
    · exact .bind .any hend
    · exact hend ()

/-- The line is the only statement, unless type arguments are read in it. -/
theorem runs_statementList (hmisread : rest.isMisread = false) :
    Runs (Stands 0 (Scanner.OnWord w rest)) (statementList (grammar fuel) (· = .endOfFile))
      fun l _ => ∃ n e, l = [n] ∧ n.form = .exprStmt e ∧
        e.inOrder? = some (.name w.text :: rest.items) := by
  obtain ⟨step, hstep, hfirst, hlast⟩ := statementList_step (w := w) hfuel hlimit
  rw [hstep]
  refine .collect (I := fun m rev v => m = 1 ∧ rev = [] ∧ Stands 0 (Scanner.OnWord w rest) v ∨
    m = 0 ∧ ∃ n, rev = [n] ∧ Statement w rest n v)
    (fun v hv => ⟨1, Nat.le_add_left _ _, .inl ⟨rfl, rfl, hv⟩⟩) fun m rev => .given ?_
  rintro v (⟨rfl, rfl, hv⟩ | ⟨rfl, n, rfl, e, hform, hv⟩)
  · refine ⟨_, hv, .imp hfirst ?_⟩
    rintro r v ⟨n, rfl, hn⟩
    exact ⟨0, Nat.one_pos, .inr ⟨rfl, n, rfl, hn⟩⟩
  · rcases hv with ⟨-, horder, hv⟩ | ⟨hne, -⟩
    · refine ⟨_, hv, .imp hlast ?_⟩
      rintro r v rfl
      exact ⟨n, e, rfl, hform, horder⟩
    · rw [hmisread] at hne
      cases hne

/-- Behind type arguments the first statement is not the line. -/
theorem runs_statementList_misread (hmisread : rest.isMisread = true) :
    Runs (Stands 0 (Scanner.OnWord w rest)) (statementList (grammar fuel) (· = .endOfFile))
      fun l _ => ∀ n e, l = [n] → n.form = .exprStmt e → e.inOrder? = none := by
  obtain ⟨step, hstep, hfirst, -⟩ := statementList_step (w := w) hfuel hlimit
  rw [hstep]
  refine .imp (.collect_keeps (J := fun rev v => rev = [] ∧ Stands 0 (Scanner.OnWord w rest) v ∨
    ∃ n e, rev.getLast? = some n ∧ n.form = .exprStmt e ∧ e.inOrder? = none)
    (fun v hv => .inl ⟨rfl, hv⟩) fun rev => .given ?_) ?_
  · rintro v (⟨rfl, hv⟩ | ⟨n, e, hlast, hform, horder⟩)
    · refine ⟨_, hv, .imp hfirst ?_⟩
      rintro r v ⟨n, rfl, e, hform, ⟨hne, -⟩ | ⟨-, horder⟩⟩
      · rw [hmisread] at hne
        cases hne
      · exact .inr ⟨n, e, rfl, hform, horder⟩
    · refine ⟨fun _ => True, trivial, .imp .any fun r v _ => .inr ⟨n, e, ?_, hform, horder⟩⟩
      rw [List.getLast?_append, hlast]
      rfl
  · rintro l v (⟨hnil, -⟩ | ⟨n, e, hlast, hform, horder⟩) n' e' rfl hform'
    · cases hnil
    · obtain rfl : n' = n := Option.some.inj hlast
      rw [hform] at hform'
      obtain rfl := Form.exprStmt.inj hform'
      exact horder

end

/-- A whole file with a line. -/
theorem runs_file (fileName : String) {l : Line} {Q : List Node → Prop}
    (h : ∀ fuel, 2 * l.rest.length + 5 ≤ fuel → Runs (Stands 0 (Scanner.OnWord l.first l.rest))
      (statementList (grammar fuel) (· = .endOfFile)) fun statements _ => Q statements) :
    Q (parseSource fileName l.text).1.statements := by
  have hreads : (Scanner.ofString l.text).Reads (l.first.text.toList ++ l.rest.chars) :=
    ⟨Cursor.sound_ofString l.text, String.toList_ofList⟩
  have hfile : Runs (Stands 0 (Scanner.Reads (l.first.text.toList ++ l.rest.chars))) file
      fun statements _ => Q statements := by
    refine .look fun _ => .advance (K := Stands 0 (Scanner.OnWord l.first l.rest))
      (fun _ hv => hv.scan Scanner.onWord_start) (.get ?_)
    intro s hs
    have hlength : l.rest.chars.length ≤ s.scanner.remaining := hs.scanner.finds.reads.length_le
    have hchars := Scanner.length_le_chars l.rest
    have hremaining : s.scanner.remaining ≤ s.scanner.source.utf8ByteSize := Nat.sub_le _ _
    have hfuel : 2 * l.rest.length + 5 ≤ fuelFor s.scanner.source.utf8ByteSize := by
      unfold fuelFor
      omega
    exact h (fuelFor s.scanner.source.utf8ByteSize) hfuel
  rw [statements_parseSource]
  exact hfile (ParseState.ofString fileName l.text) ⟨rfl, rfl, hreads⟩

end Parse

/-- The names and operators of a file that is one expression of them, in order. -/
def SourceFile.inOrder? (f : SourceFile) : Option (List Item) :=
  match f.statements with
  | [⟨_, _, .exprStmt e⟩] => e.inOrder?
  | _ => none

open Parse in
/-- A line is an expression with its names and operators in order, exactly if in no place `<` is
followed by `>=` with no operators but `|` and `&` in between. -/
theorem inOrder?_parseSource_iff (fileName : String) (l : Line)
    (hlimit : l.rest.length < Limits.leftChain) :
    (parseSource fileName l.text).1.inOrder? = some l.items ↔ l.rest.isMisread = false := by
  cases hmisread : l.rest.isMisread with
  | false =>
      obtain ⟨n, e, hstatements, hform, horder⟩ := runs_file fileName (l := l)
        (Q := fun statements => ∃ n e, statements = [n] ∧ n.form = .exprStmt e ∧
          e.inOrder? = some l.items) fun fuel hfuel => runs_statementList hfuel hlimit hmisread
      obtain ⟨id, span, form⟩ := n
      obtain rfl : form = .exprStmt e := hform
      rw [SourceFile.inOrder?, hstatements]
      exact iff_of_true horder rfl
  | true =>
      have hnone := runs_file fileName (l := l)
        (Q := fun statements => ∀ n e, statements = [n] → n.form = .exprStmt e → e.inOrder? = none)
        fun fuel hfuel => runs_statementList_misread hfuel hlimit hmisread
      refine iff_of_false (fun horder => ?_) Bool.noConfusion
      unfold SourceFile.inOrder? at horder
      split at horder
      · rename_i hstatements
        rw [hnone _ _ hstatements rfl] at horder
        cases horder
      · cases horder

def Line.comparisonAndShift : Line where
  first := ⟨"a", by decide, by decide⟩
  rest :=
    [(⟨.lessThan, by decide, by decide, by decide⟩, ⟨"b", by decide, by decide⟩),
     (⟨.shiftRight, by decide, by decide, by decide⟩, ⟨"c", by decide, by decide⟩)]

/-- The two halves of `>>` close no list of types. -/
theorem inOrder?_comparisonAndShift :
    Line.comparisonAndShift.rest.length < Limits.leftChain ∧
      (parseSource "input.ts" "a < b >> c").1.inOrder? =
        some [.name "a", .operator .lessThan, .name "b", .operator .shiftRight, .name "c"] := by
  have hlimit : Line.comparisonAndShift.rest.length < Limits.leftChain := by decide
  have htext : Line.comparisonAndShift.text = "a < b >> c" := by decide
  have hread := (inOrder?_parseSource_iff "input.ts" Line.comparisonAndShift hlimit).mpr (by decide)
  rw [htext] at hread
  exact ⟨hlimit, hread⟩

def Line.twoComparisons : Line where
  first := ⟨"a", by decide, by decide⟩
  rest :=
    [(⟨.lessThan, by decide, by decide, by decide⟩, ⟨"b", by decide, by decide⟩),
     (⟨.greaterEquals, by decide, by decide, by decide⟩, ⟨"c", by decide, by decide⟩)]

/-- Type arguments and an assignment are read in a line of two comparisons, without an error. -/
theorem not_inOrder_twoComparisons : Line.twoComparisons.text = "a < b >= c" ∧
    (parseSource "input.ts" "a < b >= c").1.inOrder? = none ∧
      (parseSource "input.ts" "a < b >= c").2 = [] := by
  decide +kernel

end Erasure

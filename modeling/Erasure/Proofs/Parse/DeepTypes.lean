import Erasure.Proofs.Parse.Genuine
import Erasure.Proofs.Parse.TypeArguments

/-!
Operators on types nest without limit. The guard on nesting counts statements, types, assignments
and operands, but not what stands behind an operator on types, so that `keyof keyof … a` is read in
full however long it is.
-/

namespace Erasure

/-- A way down of a number of steps starts at the node. -/
def Node.Reaches (steps : Nat) (n : Node) : Prop :=
  ∃ (path : List Nat) (m : Node), path.length = steps ∧ n.descend? path = some m

theorem Node.reaches_zero (n : Node) : n.Reaches 0 := ⟨[], n, rfl, rfl⟩

theorem Node.Reaches.above {n c : Node} {steps : Nat} (h : c.Reaches steps)
    (hc : c ∈ n.form.children) : n.Reaches (steps + 1) := by
  obtain ⟨path, m, hlength, hm⟩ := h
  obtain ⟨i, hi⟩ := List.mem_iff_getElem?.mp hc
  refine ⟨i :: path, m, by rw [List.length_cons, hlength], ?_⟩
  rw [Node.descend?, hi]
  exact hm

/-- No way down in the file is longer than a number of steps. -/
def SourceFile.NestsWithin (f : SourceFile) (bound : Nat) : Prop :=
  ∀ n ∈ f.statements, ∀ steps, n.Reaches steps → steps ≤ bound

/-- The name `a` behind a number of operators. -/
def keyofChars : Nat → List Char
  | 0 => "a".toList
  | n + 1 => "keyof".toList ++ ' ' :: keyofChars n

/-- What follows the word `type` in a declaration of a type with a number of operators. -/
def keyofAliasChars (n : Nat) : List Char :=
  ' ' :: ("a".toList ++ ' ' :: '=' :: ' ' :: keyofChars n)

/-- The declaration of a type with a number of operators. -/
def keyofAlias (n : Nat) : String := String.ofList ("type".toList ++ keyofAliasChars n)

namespace Scanner

/-- The scanner stands on the first of a number of operators, or behind them on the name. -/
def OnKeyof : Nat → Scanner → Prop
  | 0, s => ∃ w, s.OnWord w []
  | n + 1, s => s.Finds .keyofKw (' ' :: keyofChars n)

def AtEnd (s : Scanner) : Prop := s.Finds .endOfFile []

theorem onKeyof_blank {s : Scanner} {n : Nat} (h : s.Reads (' ' :: keyofChars n)) :
    s.scan.OnKeyof n := by
  cases n with
  | zero =>
      have hname : s.scan.OnWord ⟨"a", by decide, by decide⟩ [] := onWord_blank h
      exact ⟨_, hname⟩
  | succ n =>
      have hkeyof : Text.isIdentifier "keyof" = true := by decide
      exact (finds_name_blank hkeyof (.inr ⟨_, rfl⟩) h).1

theorem OnKeyof.scan {s : Scanner} {n : Nat} (h : s.OnKeyof (n + 1)) : s.scan.OnKeyof n :=
  onKeyof_blank (Finds.reads h)

theorem finds_equals_blank {s : Scanner} {cs : List Char} (h : s.Reads (' ' :: '=' :: ' ' :: cs)) :
    s.scan.Finds .equals (' ' :: cs) := by
  have hstart : startsToken '=' (' ' :: cs) :=
    startsToken_of_isSign (by decide) fun heq => absurd heq (by decide)
  exact finds_sign (by decide) (scan_blank h.rest hstart) (h.onToken (n := 1)) (by rfl)

end Scanner

namespace Parse

variable {d n : Nat}

theorem runs_keyof {fuel : Nat} (hfuel : n < fuel) :
    Runs (Stands d (Scanner.OnKeyof n)) (grammar fuel .typeOperator) fun t v =>
      t.Reaches n ∧ Stands d Scanner.AtEnd v := by
  induction n generalizing fuel with
  | zero =>
      obtain ⟨fuel, rfl⟩ : ∃ m, fuel = m + 1 := ⟨fuel - 1, by omega⟩
      intro s hs
      obtain ⟨w, hw⟩ := hs.scanner
      have hname : Clean d s.errorsRev (Scanner.OnWord w []) s.view :=
        ⟨{ hs with scanner := hw }, rfl⟩
      have hread := runs_typeOperator (g := grammar fuel) (n := 0)
        (fun _ _ _ _ h => absurd h (Nat.not_lt_zero _)) List.length_nil.le s hname
      rcases hread with ⟨-, hv, -⟩ | ⟨hless, -⟩
      · exact ⟨Node.reaches_zero _, hv⟩
      · cases hless
  | succ n ih =>
      obtain ⟨fuel, rfl⟩ : ∃ m, fuel = m + 1 := ⟨fuel - 1, by omega⟩
      have htoken : ∀ v, Stands d (Scanner.OnKeyof (n + 1)) v → v.scanner.token = .keyofKw :=
        fun _ hv => Scanner.Finds.token hv.scanner
      refine .look fun start => .token htoken (.token htoken ?_)
      refine .advance (fun _ hv => hv.scan fun h => h.scan) (.bind (ih (by omega)) fun inner => ?_)
      refine .imp .finish fun t v ⟨hform, hinner, hv⟩ => ⟨hinner.above ?_, hv⟩
      rw [hform]
      exact List.mem_singleton_self inner

/-- Before the end of the file an operand stands alone. -/
theorem runs_alone {k : TokenKind} (hk : k ≠ .keyofKw ∧ k ≠ .endOfFile) {form : List Node → Form}
    {operand : Parse Node} {g : Grammar}
    (h : Runs (Stands d (Scanner.OnKeyof (n + 1))) operand fun t v =>
      t.Reaches (n + 1) ∧ Stands d Scanner.AtEnd v) :
    Runs (Stands d (Scanner.OnKeyof (n + 1))) (operatorType g k form operand) fun t v =>
      t.Reaches (n + 1) ∧ Stands d Scanner.AtEnd v := by
  have htoken : ∀ v, Stands d (Scanner.OnKeyof (n + 1)) v → v.scanner.token = .keyofKw :=
    fun _ hv => Scanner.Finds.token hv.scanner
  refine .look fun start => .not_accept (fun v hv => (htoken v hv).trans_ne hk.1.symm) ?_
  have hoperand : Runs (Stands d (Scanner.OnKeyof (n + 1))) (typeOperand g operand) fun t v =>
      t.Reaches (n + 1) ∧ Stands d Scanner.AtEnd v :=
    .known (x := false) (.token htoken (.pure fun _ hv => ⟨rfl, hv⟩)) (.neg (by decide) h)
  refine .bind hoperand fun first => .not_token (fun v hv => ?_) (.pos rfl (.pure fun _ hv => hv))
  exact (Scanner.Finds.token hv.2.scanner).trans_ne hk.2.symm

theorem runs_keyofType {fuel : Nat} (hfuel : n + 1 < fuel) (hd : d < Limits.nesting) :
    Runs (Stands d (Scanner.OnKeyof (n + 1))) (grammar (fuel + 1) .type) fun t v =>
      t.Reaches (n + 1) ∧ Stands d Scanner.AtEnd v := by
  have htoken : ∀ v, Stands (d + 1) (Scanner.OnKeyof (n + 1)) v → v.scanner.token = .keyofKw :=
    fun _ hv => Scanner.Finds.token hv.scanner
  refine .nested (K := Stands (d + 1) (Scanner.OnKeyof (n + 1)))
    (R := fun t v => t.Reaches (n + 1) ∧ Stands (d + 1) Scanner.AtEnd v) ?_
    (fun _ hv => hv.depth ▸ hd) (fun _ hv => hv.enter) fun _ _ hv => ⟨hv.1, hv.2.leave⟩
  refine .known (x := true) (.look fun s => .token htoken (.pure fun _ hv => ⟨rfl, hv⟩))
    (.neg (by decide) ?_)
  refine .known (x := false) (.token htoken (.pure fun _ hv => ⟨rfl, hv⟩)) (.neg (by decide) ?_)
  refine .look fun start => .bind (runs_alone (by decide) (runs_alone (by decide)
    (runs_keyof hfuel))) fun check => ?_
  refine .context (fun _ hv => hv.2.context) (.on_line (fun _ hv => hv.2.scanner.line)
    (.neg (by decide) (.not_accept (fun _ hv => ?_) (.neg (by decide) (.pure fun _ hv => hv)))))
  exact (Scanner.Finds.token hv.2.scanner).trans_ne (by decide)

/-- The scanner stands on the word `type`. -/
def OnAlias (n : Nat) (s : Scanner) : Prop := s.Finds .typeKw (keyofAliasChars n)

/-- The scanner stands on the name of the type. -/
def OnAliasName (n : Nat) (s : Scanner) : Prop :=
  s.Finds .identifier (' ' :: '=' :: ' ' :: keyofChars n)

/-- The scanner stands on the sign before the type. -/
def OnAliasSign (n : Nat) (s : Scanner) : Prop := s.Finds .equals (' ' :: keyofChars n)

theorem OnAlias.scan {s : Scanner} (h : OnAlias n s) : OnAliasName n s.scan := by
  have hname : Text.isIdentifier "a" = true := by decide
  exact (Scanner.finds_name_blank hname (.inr ⟨_, rfl⟩) h.reads).1

/-- The declaration is read with its type. -/
def ReadsAlias (d n : Nat) (p : Parse Node) : Prop :=
  Runs (Stands d (OnAlias (n + 1))) p fun t v =>
    t.Reaches (n + 2) ∧ Stands d Scanner.AtEnd v

theorem onAlias_token : ∀ v, Stands d (OnAlias n) v → v.scanner.token = .typeKw :=
  fun _ hv => hv.scanner.token

/-- No decorators or modifiers stand before the word. -/
theorem runs_declarationHead {g : Grammar} : Runs (Stands d (OnAlias n)) (declarationHead g)
    fun r v => r = ([], {}) ∧ Stands d (OnAlias n) v := by
  have hne {k : TokenKind} (hk : .typeKw ≠ k) (v : View) (hv : Stands d (OnAlias n) v) :
      v.scanner.token ≠ k := (onAlias_token v hv).trans_ne hk
  have hdecorators : Runs (Stands d (OnAlias n)) (decorators g) fun r v =>
      r = [] ∧ Stands d (OnAlias n) v := by
    refine .collect_once (.look fun start => .not_accept (hne (by decide)) (.neg (by decide) ?_))
    exact .pure fun _ hv => ⟨rfl, rfl, hv⟩
  have hmodifiers : Runs (Stands d (OnAlias n)) (modifiers .statement) fun r v =>
      r = {} ∧ Stands d (OnAlias n) v := by
    refine .loop (I := fun _ ms v => ms = {} ∧ Stands d (OnAlias n) v)
      (fun _ hv => ⟨0, Nat.zero_le _, rfl, hv⟩) fun m ms => .given ?_
    rintro v ⟨rfl, hv⟩
    refine ⟨Stands d (OnAlias n), hv, .known (x := none) ?_ (.pure fun _ hv => ⟨rfl, hv⟩)⟩
    exact .token onAlias_token (.pos rfl (.pure fun _ hv => ⟨rfl, hv⟩))
  refine .known hdecorators (.known hmodifiers ?_)
  exact .not_token (hne (by decide)) (.neg (by decide) (.pure fun _ hv => ⟨rfl, hv⟩))

theorem runs_isDeclarationStart : Runs (Stands d (OnAlias n)) isDeclarationStart fun r v =>
    r = true ∧ Stands d (OnAlias n) v := by
  refine .lookAhead (.loop (I := fun _ _ => Stands d (OnAlias n)) (Q := fun r _ => r = true)
    (fun _ hv => ⟨0, Nat.zero_le _, hv⟩) fun m x => ?_)
  refine .known (x := some true) (K := Stands d (OnAliasName n)) ?_ (.pure fun _ _ => rfl)
  refine .token onAlias_token (.advance (fun _ hv => hv.scan fun h => h.scan) ?_)
  refine .on_line (fun _ hv => hv.scanner.line) ?_
  have hname : ∀ s : ParseState, Stands d (OnAliasName n) s.view →
      (isIdentifierOrKeyword s).1 = true := fun s hs => by
    show s.scanner.token.isIdentifierOrKeyword = true
    rw [show s.scanner.token = .identifier from hs.scanner.token]
    rfl
  exact .ask hname (.pure fun _ hv => ⟨rfl, hv⟩)

section
variable {fuel : Nat} (hfuel : n + 2 < fuel) (hd : d < Limits.nesting)
include hfuel hd

theorem reads_typeAlias (start : Nat) (ms : Modifiers) :
    ReadsAlias d n (typeAlias (grammar fuel) start ms) := by
  obtain ⟨fuel, rfl⟩ : ∃ m, fuel = m + 1 := ⟨fuel - 1, by omega⟩
  refine .require onAlias_token (fun _ hv => hv.scan fun h => h.scan) ?_
  have hequals : ∀ v, Stands d (OnAliasSign (n + 1)) v → v.scanner.token = .equals :=
    fun _ hv => hv.scanner.token
  refine .bind (R := fun _ => Stands d (OnAliasSign (n + 1))) ?_ fun name => ?_
  · refine .on_name (fun _ hv => hv.scanner.token) (.pos rfl ?_)
    refine .look fun id => .look fun span => .look fun text => ?_
    exact .advance (fun _ hv => hv.scan fun h => Scanner.finds_equals_blank h.reads)
      (.pure fun _ hv => hv)
  refine .known (x := none) (K := Stands d (OnAliasSign (n + 1))) ?_ ?_
  · exact .not_accept (fun v hv => (hequals v hv).trans_ne (by decide))
      (.pos rfl (.pure fun _ hv => ⟨rfl, hv⟩))
  refine .require hequals (fun _ hv => hv.scan fun h => Scanner.onKeyof_blank h.reads) ?_
  refine .bind (runs_keyofType (by omega) hd) fun type => ?_
  have hend : ∀ v, type.Reaches (n + 1) ∧ Stands d Scanner.AtEnd v →
      v.scanner.token = .endOfFile := fun _ hv => Scanner.Finds.token hv.2.scanner
  refine .bind (R := fun _ v => type.Reaches (n + 1) ∧ Stands d Scanner.AtEnd v) ?_ fun _ => ?_
  · refine .not_accept (fun v hv => (hend v hv).trans_ne (by decide)) (.neg (by decide) ?_)
    refine .known (x := true) ?_ (.pos rfl (.pure fun _ hv => hv))
    exact .ask (x := true) (fun s hs => by
      show List.contains _ s.scanner.token = true
      rw [show s.scanner.token = .endOfFile from hend _ hs]
      rfl) (.pos rfl (.pure fun _ hv => ⟨rfl, hv⟩))
  refine .imp .finish fun t v ⟨hform, htype, hv⟩ => ⟨htype.above ?_, hv⟩
  rw [hform]
  exact List.mem_append_right _ (List.mem_singleton_self type)

theorem reads_declaration : ReadsAlias d n (declaration (grammar fuel)) := by
  refine .look fun start => .known runs_declarationHead ?_
  refine .known (x := ()) (.pure fun _ hv => ⟨rfl, hv⟩) (.context (fun _ hv => hv.context) ?_)
  refine .sameContext rfl (fun _ hv => hv.context) ?_
    fun _ _ hv => ⟨hv.1, rfl, hv.2.depth, hv.2.scanner⟩
  exact .token onAlias_token (reads_typeAlias hfuel hd start {})

end

theorem reads_statement {fuel : Nat} (hfuel : n + 3 < fuel) :
    ReadsAlias 0 n (grammar fuel .statement) := by
  obtain ⟨fuel, rfl⟩ : ∃ m, fuel = m + 1 := ⟨fuel - 1, by omega⟩
  refine .nested (K := Stands 1 (OnAlias (n + 1)))
    (R := fun t v => t.Reaches (n + 2) ∧ Stands 1 Scanner.AtEnd v) ?_
    (fun v hv => ?_) (fun _ hv => hv.enter) fun _ _ hv => ⟨hv.1, hv.2.leave⟩
  · refine .look fun start => .token onAlias_token ?_
    show Runs _ (otherStatement _ _) _
    exact .known runs_isDeclarationStart (.pos rfl (reads_declaration (by omega) (by decide)))
  · rw [hv.depth]
    decide

theorem runs_isStatementStart : Runs (Stands d (OnAlias n)) isStatementStart fun r v =>
    r = true ∧ Stands d (OnAlias n) v := by
  refine .token onAlias_token ?_
  show Runs _ isExpressionStart _
  refine .known (x := true) (K := Stands d (OnAlias n)) ?_ (.pos rfl (.pure fun _ hv => ⟨rfl, hv⟩))
  refine .token onAlias_token ?_
  show Runs _ isIdentifier _
  exact .name_of_token (f := pure) onAlias_token (by decide) (by decide)
    (.pure fun _ hv => ⟨rfl, hv⟩)

/-- The declaration is the only statement. -/
theorem runs_statementList_alias {fuel : Nat} (hfuel : n + 3 < fuel) :
    Runs (Stands 0 (OnAlias (n + 1))) (statementList (grammar fuel) (· = .endOfFile)) fun l _ =>
      ∃ t, l = [t] ∧ t.Reaches (n + 2) := by
  refine .collect (I := fun m rev v => m = 1 ∧ rev = [] ∧ Stands 0 (OnAlias (n + 1)) v ∨
    m = 0 ∧ ∃ t, rev = [t] ∧ t.Reaches (n + 2) ∧ Stands 0 Scanner.AtEnd v)
    (fun v hv => ⟨1, Nat.le_add_left _ _, .inl ⟨rfl, rfl, hv⟩⟩) fun m rev => .given ?_
  rintro v (⟨rfl, rfl, hv⟩ | ⟨rfl, t, rfl, hdeep, hv⟩)
  · refine ⟨_, hv, .token onAlias_token (.neg (by decide) ?_)⟩
    refine .known runs_isStatementStart (.pos rfl (.look fun start => ?_))
    refine .bind (reads_statement hfuel) fun t => .look fun stop => ?_
    refine .on_token (fun _ hv => Scanner.Finds.token hv.2.scanner) (.neg (by simp) ?_)
    exact .pure fun v hv => ⟨0, Nat.one_pos, .inr ⟨rfl, t, rfl, hv.1, hv.2⟩⟩
  · refine ⟨_, hv, .token (fun _ hv => Scanner.Finds.token hv.scanner) (.pos rfl ?_)⟩
    exact .pure fun v hv => ⟨t, rfl, hdeep⟩

theorem length_le_keyofChars (n : Nat) : n ≤ (keyofChars n).length := by
  induction n with
  | zero => exact Nat.zero_le _
  | succ n ih =>
      have hsuffix : ' ' :: keyofChars n <:+ keyofChars (n + 1) := ⟨"keyof".toList, rfl⟩
      exact Nat.le_trans (Nat.succ_le_succ ih) hsuffix.length_le

/-- The whole file is read as the declaration. -/
theorem runs_file_alias : Runs (Stands 0 (Scanner.Reads ("type".toList ++ keyofAliasChars (n + 1))))
    file fun l _ => ∃ t, l = [t] ∧ t.Reaches (n + 2) := by
  have htype : Text.isIdentifier "type" = true := by decide
  refine .look fun _ => .advance (K := Stands 0 (OnAlias (n + 1)))
    (fun _ hv => hv.scan fun h => (Scanner.finds_name_start htype (.inr ⟨_, rfl⟩) h).1) (.get ?_)
  intro s hs
  have hlength : (keyofAliasChars (n + 1)).length ≤ s.scanner.remaining :=
    hs.scanner.reads.length_le
  have hchars := length_le_keyofChars (n + 1)
  have hremaining : s.scanner.remaining ≤ s.scanner.source.utf8ByteSize := Nat.sub_le _ _
  refine runs_statementList_alias ?_
  simp only [keyofAliasChars, List.length_append, List.length_cons] at hlength
  unfold fuelFor
  omega

end Parse

/-- A declaration with some operators on a type is one statement, with a way down as long as the
operators are many. -/
theorem statements_keyofAlias (fileName : String) (n : Nat) :
    ∃ t, (parseSource fileName (keyofAlias (n + 1))).1.statements = [t] ∧ t.Reaches (n + 2) :=
  Parse.runs_file_alias (.ofString fileName (keyofAlias (n + 1)))
    ⟨rfl, rfl, Cursor.sound_ofString _, String.toList_ofList⟩

/-- No bound that is made of the limits of the parser holds for the depth of all trees. -/
theorem no_bound_of_nesting : ¬ ∃ bound : Nat → Nat → Nat, ∀ fileName source : String,
    (parseSource fileName source).1.NestsWithin (bound Limits.nesting Limits.leftChain) := by
  rintro ⟨bound, h⟩
  obtain ⟨t, ht, hdeep⟩ :=
    statements_keyofAlias "input.ts" (bound Limits.nesting Limits.leftChain)
  have hle := h "input.ts" _ t (ht ▸ List.mem_singleton_self t) _ hdeep
  omega

end Erasure

import Erasure.Proofs.Parse.Runs

/-!
Type arguments in a line of names and operators. What follows `<` is read as a type, and it is kept
as a type argument only if the type ends at `>=`, whose first half closes the list.
-/

namespace Erasure

namespace Operations

/-- What is left behind operators of some kinds. -/
def behind (ks : List TokenKind) (rest : Operations) : Operations :=
  rest.dropWhile fun p => ks.contains p.1.kind

def startsWith (k : TokenKind) : Operations → Bool
  | [] => false
  | (o, _) :: _ => o.kind = k

/-- The type that starts with the name before the operations ends at `>=`. -/
def closes (rest : Operations) : Bool := (rest.behind [.bar, .ampersand]).startsWith .greaterEquals

/-- The operations start with what is read as type arguments. -/
def opens : Operations → Bool
  | [] => false
  | (o, _) :: rest => o.kind = .lessThan && closes rest

theorem startsWith_eq_true {k : TokenKind} {rest : Operations} (h : rest.startsWith k = true) :
    ∃ (o : Operator) (w : Word) (more : Operations), rest = (o, w) :: more ∧ o.kind = k := by
  cases rest with
  | nil => cases h
  | cons p more => exact ⟨p.1, p.2, more, rfl, of_decide_eq_true h⟩

theorem not_startsWith_behind {ks : List TokenKind} {k : TokenKind} (hk : k ∈ ks)
    (rest : Operations) : (rest.behind ks).startsWith k = false := by
  induction rest with
  | nil => rfl
  | cons p rest ih =>
      rw [behind, List.dropWhile_cons]
      split
      · exact ih
      · rename_i hp
        refine decide_eq_false ?_
        rintro rfl
        exact hp (List.contains_iff_mem.mpr hk)

/-- Operators of one kind more are passed over behind the others. -/
theorem behind_cons (k : TokenKind) (ks : List TokenKind) (rest : Operations) :
    rest.behind (k :: ks) = (rest.behind ks).behind (k :: ks) := by
  induction rest with
  | nil => rfl
  | cons p rest ih =>
      by_cases hp : ks.contains p.1.kind = true
      · have hdrop : behind ks (p :: rest) = behind ks rest := List.dropWhile_cons_of_pos hp
        have hmore : behind (k :: ks) (p :: rest) = behind (k :: ks) rest :=
          List.dropWhile_cons_of_pos (by
            rw [List.contains_cons, hp, Bool.or_true])
        rw [hdrop, hmore, ih]
      · have hkeep : behind ks (p :: rest) = p :: rest := List.dropWhile_cons_of_neg hp
        rw [hkeep]

/-- Behind operators of some kinds nothing more is passed over, unless one more kind stands
there. -/
theorem behind_cons_of_not {k : TokenKind} {ks : List TokenKind} {rest : Operations}
    (h : (rest.behind ks).startsWith k = false) : rest.behind (k :: ks) = rest.behind ks := by
  rw [behind_cons]
  generalize hr : rest.behind ks = left at h
  cases left with
  | nil => rfl
  | cons p left =>
      have hne : p.1.kind ≠ k := of_decide_eq_false h
      have hks : ks.contains p.1.kind = false := by
        by_contra hc
        rw [Bool.not_eq_false] at hc
        have hstart := not_startsWith_behind (List.contains_iff_mem.mp hc) rest
        rw [hr] at hstart
        exact of_decide_eq_false hstart rfl
      refine List.dropWhile_cons_of_neg ?_
      rw [List.contains_cons, hks]
      simpa using hne

theorem behind_cons_self {o : Operator} {w : Word} {ks : List TokenKind} (h : o.kind ∈ ks)
    (rest : Operations) : behind ks ((o, w) :: rest) = rest.behind ks :=
  List.dropWhile_cons_of_pos (List.contains_iff_mem.mpr h)

theorem length_behind_le (ks : List TokenKind) (rest : Operations) :
    (rest.behind ks).length ≤ rest.length :=
  (List.dropWhile_suffix _).length_le

end Operations

/-- Tokens at which a type ends, but no list of types. -/
def TokenKind.stops : List TokenKind :=
  [endOfFile, identifier, equals, inKw, instanceofKw, questionQuestion, barBar, ampersandAmpersand,
   caret, equalsEquals, notEquals, strictEquals, strictNotEquals, lessEquals, shiftLeft, plus,
   minus, asterisk, slash, percent, power]

/-- No list of type arguments ends here: the first token closes none, or a name follows the tokens
that do. -/
inductive TokenKind.Ended : List TokenKind → Prop
  | stop {k : TokenKind} {ks : List TokenKind} (h : k ∈ stops) : Ended (k :: ks)
  | word {ks : List TokenKind} : Ended (greaterThan :: identifier :: ks)
  | more {ks : List TokenKind} (h : Ended (greaterThan :: ks)) :
      Ended (greaterThan :: greaterThan :: ks)

open TokenKind (Ended)

theorem TokenKind.Ended.head_ne {k : TokenKind} {ks : List TokenKind} (h : Ended (k :: ks))
    {l : TokenKind} (hl : l ∉ greaterThan :: stops) : k ≠ l := by
  rintro rfl
  cases h with
  | stop h => exact hl (List.mem_cons_of_mem _ h)
  | word => exact hl List.mem_cons_self
  | more _ => exact hl List.mem_cons_self

theorem TokenKind.Ended.tail {ks : List TokenKind} (h : Ended (greaterThan :: ks)) : Ended ks := by
  cases h with
  | stop h => exact absurd h (by decide)
  | word => exact .stop (by decide)
  | more h => exact h

/-- A type that does not go on ends a list of types only at `>=`. -/
theorem Operations.ended {rest : Operations} (hless : rest.startsWith .lessThan = false)
    (hbar : rest.startsWith .bar = false) (hand : rest.startsWith .ampersand = false)
    (hclose : rest.startsWith .greaterEquals = false) : Ended rest.tokens := by
  cases rest with
  | nil => exact .stop (by decide)
  | cons p rest =>
      obtain ⟨o, w⟩ := p
      simp only [startsWith, decide_eq_false_iff_not] at hless hbar hand hclose
      rw [tokens]
      rcases o.kind_mem with hk | hk | hk | hk | hk | hk | hk
      · have table : ∀ k ∈ TokenKind.signs, k ≠ .lessThan → k ≠ .bar → k ≠ .ampersand →
            k.first ∈ TokenKind.stops := by decide
        exact .stop (table _ hk hless hbar hand)
      · rw [hk]
        exact .stop (by decide)
      · rw [hk]
        exact .stop (by decide)
      · rw [hk]
        exact .word
      · exact absurd hk hclose
      · rw [hk]
        exact .more .word
      · rw [hk]
        exact .more (.more .word)

namespace Scanner

/-- The scanner stands where no list of type arguments ends. -/
def Over (s : Scanner) : Prop := ∃ ks, Ended ks ∧ s.Yields ks

theorem Over.line {s : Scanner} (h : s.Over) : s.flags.precedingLineBreak = false := by
  obtain ⟨ks, hks, hs⟩ := h
  cases hks with
  | stop _ | word | more _ => exact hs.2.1

theorem Over.token_ne {s : Scanner} (h : s.Over) {k : TokenKind}
    (hk : k ∉ TokenKind.greaterThan :: TokenKind.stops) : s.token ≠ k := by
  obtain ⟨ks, hks, hs⟩ := h
  cases ks with
  | nil => cases hks
  | cons l ks =>
      rw [hs.1]
      exact hks.head_ne hk

theorem Over.scan {s : Scanner} (h : s.Over) (hs : s.token = .greaterThan) : s.scan.Over := by
  obtain ⟨ks, hks, hyields⟩ := h
  cases ks with
  | nil => cases hks
  | cons k ks =>
      obtain rfl : k = .greaterThan := hyields.1.symm.trans hs
      exact ⟨ks, hks.tail, hyields.2.2.2⟩

/-- Behind `>` comes a name or another `>`. -/
theorem Over.scan_token {s : Scanner} (h : s.Over) (hs : s.token = .greaterThan) :
    s.scan.token = .identifier ∨ s.scan.token = .greaterThan := by
  obtain ⟨ks, hks, hyields⟩ := h
  cases hks with
  | stop hk =>
      rw [← hyields.1, hs] at hk
      exact absurd hk (by decide)
  | word => exact .inl hyields.2.2.2.1
  | more _ => exact .inr hyields.2.2.2.1

theorem OnWord.over {s : Scanner} {w : Word} {rest : Operations} (h : s.OnWord w rest) : s.Over :=
  ⟨_, .stop (by decide), h.yields⟩

theorem Behind.line {s : Scanner} {rest : Operations} (h : s.Behind rest) :
    s.flags.precedingLineBreak = false := by
  cases rest with
  | nil | cons _ _ => exact Finds.line h

theorem length_le_chars (rest : Operations) : rest.length ≤ rest.chars.length := by
  induction rest with
  | nil => exact Nat.zero_le _
  | cons p rest ih =>
      simp only [Operations.chars, List.length_cons, List.length_append]
      omega

/-- The first tokens of what can follow a name in a line, or its type arguments. -/
def followers : List TokenKind :=
  .endOfFile :: .inKw :: .instanceofKw :: .greaterThan :: .equals :: TokenKind.signs

theorem Behind.token_mem {s : Scanner} {rest : Operations} (h : s.Behind rest) :
    s.token ∈ followers := by
  cases rest with
  | nil =>
      rw [Finds.token h]
      decide
  | cons p rest =>
      rw [Finds.token h]
      rcases p.1.kind_mem with hk | hk | hk | hk | hk | hk | hk
      · have table : ∀ k ∈ TokenKind.signs, k.first ∈ followers := by decide
        exact table _ hk
      all_goals
        rw [hk]
        decide

theorem Behind.length_le {s : Scanner} {rest : Operations} (h : s.Behind rest) :
    rest.length ≤ s.remaining := by
  cases rest with
  | nil => exact Nat.zero_le _
  | cons p rest =>
      have hreads := Reads.length_le (Finds.reads h)
      have hchars := length_le_chars rest
      simp only [List.length_append, List.length_cons] at hreads ⊢
      omega

/-- An operator that is no part of another one is found if it stands there. -/
theorem Behind.token_iff {s : Scanner} {rest : Operations} (h : s.Behind rest) {k : TokenKind}
    (hk : k ∈ TokenKind.signs) : s.token = k ↔ rest.startsWith k = true := by
  cases rest with
  | nil =>
      rw [Finds.token h]
      have table : ∀ k ∈ TokenKind.signs, .endOfFile ≠ k := by decide
      exact ⟨fun heq => absurd heq (table k hk), nofun⟩
  | cons p rest =>
      have table : ∀ k ∈ TokenKind.signs, .greaterThan ≠ k ∧ .inKw ≠ k ∧ .instanceofKw ≠ k ∧
        .greaterEquals ≠ k ∧ .shiftRight ≠ k ∧ .shiftRightUnsigned ≠ k := by decide
      have same : ∀ k ∈ TokenKind.signs, k.first = k := by decide
      rw [Finds.token h, Operations.startsWith, decide_eq_true_eq]
      rcases p.1.kind_mem with hp | hp | hp | hp | hp | hp | hp
      · rw [same _ hp]
      all_goals
        rw [hp]
        simp [TokenKind.first, table k hk]

theorem Behind.scan {s : Scanner} {o : Operator} {w : Word} {rest : Operations}
    (h : s.Behind ((o, w) :: rest)) (ho : o.kind ∈ TokenKind.signs) : s.scan.OnWord w rest := by
  have hne : s.token ≠ .greaterThan := by
    have table : ∀ k ∈ TokenKind.signs, k.first ≠ .greaterThan := by decide
    rw [Finds.token h]
    exact table _ ho
  have hnext := h.next
  rwa [Scanner.rescanGreater, if_neg hne] at hnext

end Scanner

namespace Parse

/-- In a context at a depth, with the scanner at a place. -/
structure StandsIn (c : ParseContext) (d : Nat) (A : Scanner → Prop) (v : View) : Prop where
  context : v.context = c
  depth : v.depth = d
  scanner : A v.scanner

/-- Outside of any special context. -/
abbrev Stands : Nat → (Scanner → Prop) → View → Prop := StandsIn {}

/-- The same with the given errors so far. -/
def Clean (d : Nat) (e : List Diagnostic) (A : Scanner → Prop) (v : View) : Prop :=
  Stands d A v ∧ v.errorsRev = e

variable {β : Type} {d : Nat} {e : List Diagnostic} {A B : Scanner → Prop} {v : View}

section
variable {c : ParseContext}

theorem StandsIn.imp (h : StandsIn c d A v) (hA : ∀ s, A s → B s) : StandsIn c d B v :=
  ⟨h.context, h.depth, hA _ h.scanner⟩

theorem StandsIn.scan (h : StandsIn c d A v) (hA : A v.scanner → B v.scanner.scan) :
    StandsIn c d B { v with scanner := v.scanner.scan } :=
  ⟨h.context, h.depth, hA h.scanner⟩

theorem StandsIn.errors (h : StandsIn c d A v) (e : List Diagnostic) :
    StandsIn c d A { v with errorsRev := e } :=
  ⟨h.context, h.depth, h.scanner⟩

theorem StandsIn.enter (h : StandsIn c d A v) :
    StandsIn c (d + 1) A { v with depth := v.depth + 1 } :=
  ⟨h.context, congrArg (· + 1) h.depth, h.scanner⟩

theorem StandsIn.leave (h : StandsIn c (d + 1) A v) :
    StandsIn c d A { v with depth := v.depth - 1 } :=
  ⟨h.context, by rw [h.depth]; rfl, h.scanner⟩

end

theorem Clean.scan (h : Clean d e A v) (hA : A v.scanner → B v.scanner.scan) :
    Clean d e B { v with scanner := v.scanner.scan } :=
  ⟨h.1.scan hA, h.2⟩

/-- A type was read from the name before some operations, and the operators of some kinds in it.
If it had type arguments then no list of types ends behind it. -/
def Left (d : Nat) (e : List Diagnostic) (ks : List TokenKind) (rest : Operations) (v : View) :
    Prop :=
  (rest.behind ks).startsWith .lessThan = false ∧ Clean d e (Scanner.Behind (rest.behind ks)) v ∨
    (rest.behind ks).startsWith .lessThan = true ∧ Stands d Scanner.Over v

theorem Left.context {ks : List TokenKind} {rest : Operations} (h : Left d e ks rest v) :
    v.context = {} :=
  h.elim (fun hv => hv.2.1.context) fun hv => hv.2.context

theorem Left.line {ks : List TokenKind} {rest : Operations} (h : Left d e ks rest v) :
    v.scanner.flags.precedingLineBreak = false := by
  rcases h with ⟨-, hv, -⟩ | ⟨-, hv⟩
  · exact hv.scanner.line
  · exact hv.scanner.line

/-- What neither follows a name nor ends a type does not follow a type. -/
theorem Left.token_ne {ks : List TokenKind} {rest : Operations} (h : Left d e ks rest v)
    {k : TokenKind} (hk : k ∉ Scanner.followers ++ TokenKind.stops) : v.scanner.token ≠ k := by
  rw [List.mem_append, not_or] at hk
  rcases h with ⟨-, hv, -⟩ | ⟨-, hv⟩
  · exact fun heq => hk.1 (heq ▸ hv.scanner.token_mem)
  · refine hv.scanner.token_ne fun hmem => ?_
    rcases List.mem_cons.mp hmem with rfl | hmem
    · exact hk.1 (by decide)
    · exact hk.2 hmem

/-- A type is read up to where it goes on no more, and at the nesting limit not at all. -/
def ReadsTypes (g : Grammar) (n : Nat) : Prop :=
  ∀ (d : Nat) (e : List Diagnostic) (w : Word) (rest : Operations), rest.length < n →
    Runs (Clean d e (Scanner.OnWord w rest)) (g .type) fun _ v =>
      if d < Limits.nesting then Left d e [.bar, .ampersand] rest v else Stands d Scanner.Over v

/-- Behind a type, at `>=` or where no list of types ends. -/
def Closing (s : Scanner) : Prop :=
  s.Over ∨ ∃ ks, s.Yields (.greaterThan :: .equals :: ks)

theorem Closing.token_ne {s : Scanner} (h : Closing s) {k : TokenKind}
    (hk : k ∉ TokenKind.greaterThan :: TokenKind.stops) : s.token ≠ k := by
  rcases h with h | ⟨ks, h⟩
  · exact h.token_ne hk
  · rw [h.1]
    rintro rfl
    exact hk List.mem_cons_self

theorem Closing.scan {s : Scanner} (h : Closing s) (hs : s.token = .greaterThan) :
    s.scan.Over := by
  rcases h with h | ⟨ks, h⟩
  · exact h.scan hs
  · exact ⟨_, .stop (by decide), h.2.2.2⟩

/-- Unless the type ends at `>=`, no list of types ends behind it. -/
theorem Left.over {rest : Operations} (h : Left d e [.bar, .ampersand] rest v)
    (hclose : rest.closes = false) : Stands d Scanner.Over v := by
  rcases h with ⟨hless, hv, -⟩ | ⟨-, hv⟩
  · exact hv.imp fun s hs => ⟨_, Operations.ended hless
      (Operations.not_startsWith_behind (by decide) rest)
      (Operations.not_startsWith_behind (by decide) rest) hclose, hs.yields⟩
  · exact hv

theorem Left.equals {rest : Operations} (h : Left d e [.bar, .ampersand] rest v)
    (hclose : rest.closes = true) :
    Clean d e (fun s => ∃ ks, s.Yields (.greaterThan :: .equals :: ks)) v := by
  obtain ⟨o, w, more, heq, ho⟩ := Operations.startsWith_eq_true hclose
  rcases h with ⟨-, hv, herrors⟩ | ⟨hless, -⟩
  · refine ⟨hv.imp fun s hs => ?_, herrors⟩
    have hyields := hs.yields
    rw [heq, Operations.tokens, ho] at hyields
    exact ⟨_, hyields⟩
  · rw [heq] at hless
    have hkind : o.kind = .lessThan := of_decide_eq_true hless
    rw [ho] at hkind
    cases hkind

theorem Left.closing {rest : Operations} (h : Left d e [.bar, .ampersand] rest v) :
    Stands d Closing v := by
  cases hclose : rest.closes with
  | false => exact (h.over hclose).imp fun _ => .inl
  | true => exact (h.equals hclose).1.imp fun _ => .inr

theorem Runs.require_closing {f : Unit → Parse β} {Q : β → View → Prop}
    (hf : Runs (Stands d Scanner.Over) (f ()) Q) :
    Runs (Stands d Closing) (require .greaterThan >>= f) Q := by
  refine .given fun v hv => ?_
  by_cases htoken : v.scanner.token = .greaterThan
  · exact ⟨fun v => Stands d Closing v ∧ v.scanner.token = .greaterThan, ⟨hv, htoken⟩,
      .require (fun _ hv => hv.2) (fun _ hv => hv.1.scan fun h => h.scan hv.2) hf⟩
  · refine ⟨fun v => Stands d Closing v ∧ v.scanner.token ≠ .greaterThan, ⟨hv, htoken⟩,
      .not_require (fun _ hv => hv.2) (fun v e hv => ?_) hf⟩
    have hover : v.scanner.Over := hv.1.scanner.resolve_right fun ⟨_, h⟩ => hv.2 h.1
    exact ⟨hv.1.context, hv.1.depth, hover⟩

section
variable {g : Grammar} {n : Nat} {w : Word} {rest : Operations}

/-- Below the limit or not, a type ends before `>=` or where no list of types ends. -/
theorem ReadsTypes.closing (hg : ReadsTypes g n) (hrest : rest.length < n) :
    Runs (Stands d (Scanner.OnWord w rest)) (g .type) fun _ => Stands d Closing := by
  intro s hs
  have hread := hg d s.errorsRev w rest hrest s ⟨hs, rfl⟩
  split at hread
  · exact hread.closing
  · exact hread.imp fun _ => .inl

theorem runs_typeArguments {o : Operator} (hg : ReadsTypes g n) (hrest : rest.length < n)
    (ho : o.kind = .lessThan) :
    Runs (Stands d (Scanner.Behind ((o, w) :: rest))) (typeArguments? g) fun _ =>
      Stands d Scanner.Over := by
  have hsign : o.kind ∈ TokenKind.signs := by
    rw [ho]
    decide
  have hlist : Runs (Stands d (Scanner.OnWord w rest)) (collect do
      if ← atClose .greaterThan then return (none, true)
      let type ← allowConditionalType (g .type)
      return (some type, !(← accept .comma))) fun _ => Stands d Closing := by
    refine .collect_once ?_
    refine .not_oneOf (fun v hv => ?_) (.neg (by decide) ?_)
    · rw [hv.scanner.finds.token]
      decide
    · refine .bind (R := fun _ => Stands d Closing) ?_ fun type => ?_
      · exact .sameContext rfl (fun _ hv => hv.context) (hg.closing hrest) fun _ _ hv =>
          ⟨rfl, hv.depth, hv.scanner⟩
      · exact .not_accept (fun _ hv => hv.scanner.token_ne (by decide))
          (.pure fun _ hv => ⟨rfl, hv⟩)
  unfold typeArguments? angleList?
  refine .accept (K := Stands d (Scanner.OnWord w rest)) (fun v hv => ?_)
    (fun _ hv => hv.scan fun h => h.scan hsign) (.neg (by decide) ?_)
  · rw [Scanner.Finds.token hv.scanner, ho]
    rfl
  · exact .bind hlist fun _ => .require_closing (.pure fun _ hv => hv)

/-- The name of a type is the one name. -/
theorem runs_entityName : Runs (Clean d e (Scanner.OnWord w rest)) (entityName identifierName)
    fun _ => Clean d e (Scanner.Behind rest) := by
  refine .look fun start => .bind (R := fun _ => Clean d e (Scanner.Behind rest)) ?_ fun head => ?_
  · have hname : ∀ s : ParseState, Clean d e (Scanner.OnWord w rest) s.view →
        (isIdentifierOrKeyword s).1 = true := fun s hs => by
      show s.scanner.token.isIdentifierOrKeyword = true
      rw [show s.scanner.token = .identifier from hs.1.scanner.finds.token]
      rfl
    refine .ask hname (.pos rfl (.look fun _ => .look fun _ => .look fun _ => ?_))
    exact .advance (fun _ hv => hv.scan fun h => h.scan) (.pure fun _ hv => hv)
  · refine .bind (R := fun _ => Clean d e (Scanner.Behind rest)) (.collect_once ?_) fun more =>
      .look fun _ => .look fun _ => .pure fun _ hv => hv
    refine .not_accept (fun v hv heq => ?_) (.neg (by decide) (.pure fun _ hv => ⟨rfl, hv⟩))
    have hmem := hv.1.scanner.token_mem
    rw [heq] at hmem
    exact absurd hmem (by decide)

theorem runs_typeReference (hg : ReadsTypes g n) (hrest : rest.length ≤ n) :
    Runs (Clean d e (Scanner.OnWord w rest)) (typeReference g) fun _ => Left d e [] rest := by
  refine .look fun start => .bind runs_entityName fun name => ?_
  refine .bind (R := fun _ => Left d e [] rest) ?_ fun types => .looks
  refine .on_line (fun _ hv => hv.1.scanner.line) (.neg (by decide) ?_)
  have hbehind : rest.behind [] = rest := by
    cases rest with
    | nil | cons _ _ => rfl
  cases hless : rest.startsWith .lessThan with
  | false =>
      unfold typeArguments? angleList?
      refine .not_accept (fun v hv heq => ?_) (.pos rfl (.pure fun v hv => .inl ?_))
      · have hstart := (hv.1.scanner.token_iff (by decide)).mp heq
        rw [hless] at hstart
        cases hstart
      · rw [hbehind]
        exact ⟨hless, hv⟩
  | true =>
      obtain ⟨o, w, more, rfl, ho⟩ := Operations.startsWith_eq_true hless
      refine .imp (.weaken (runs_typeArguments hg hrest ho) fun _ hv => hv.1) fun _ v hv => .inr ?_
      rw [hbehind]
      exact ⟨hless, hv⟩

theorem runs_typeOperator (hg : ReadsTypes g n) (hrest : rest.length ≤ n) :
    Runs (Clean d e (Scanner.OnWord w rest)) (typeOperator g) fun _ => Left d e [] rest := by
  have hname : ∀ v, Clean d e (Scanner.OnWord w rest) v → v.scanner.token = .identifier :=
    fun _ hv => hv.1.scanner.finds.token
  have hprimary : Runs (Clean d e (Scanner.OnWord w rest)) (primaryType g) fun _ =>
      Left d e [] rest :=
    .look fun start => .token hname (.on_name hname (.token hname
      (.pos rfl (runs_typeReference hg hrest))))
  refine .look fun start => .token hname ?_
  show Runs _ (postfixType g) _
  refine .look fun start => .bind hprimary fun first => ?_
  refine .loop (I := fun _ _ => Left d e [] rest) (fun _ hv => ⟨0, Nat.zero_le _, hv⟩)
    fun _ type => ?_
  refine .on_line (fun _ hv => hv.line) (.not_token (fun _ hv => hv.token_ne (by decide)) ?_)
  exact .pos rfl (.pure fun _ hv => hv)

/-- The operators that join types. -/
theorem joining_table : ∀ k ∈ [TokenKind.bar, .ampersand], k ∈ TokenKind.signs ∧
    k ∉ TokenKind.greaterThan :: TokenKind.stops ∧ k ≠ .lessThan ∧ k ≠ .identifier := by
  decide

section
variable {k : TokenKind} {ks : List TokenKind} (hk : k ∈ [TokenKind.bar, .ampersand])
include hk

/-- Where the operator does not follow, what was read so far is all. -/
theorem Left.done (h : Left d e ks rest v) (hv : v.scanner.token ≠ k) :
    Left d e (k :: ks) rest v := by
  obtain ⟨hsign, -, hless, -⟩ := joining_table k hk
  rcases h with ⟨hl, hstands, herrors⟩ | ⟨hl, hstands⟩
  · have hstart : (rest.behind ks).startsWith k = false := by
      by_contra hc
      rw [Bool.not_eq_false] at hc
      exact hv ((hstands.scanner.token_iff hsign).mpr hc)
    refine .inl ?_
    rw [Operations.behind_cons_of_not hstart]
    exact ⟨hl, hstands, herrors⟩
  · have hstart : (rest.behind ks).startsWith k = false := by
      obtain ⟨o, w, more, heq, ho⟩ := Operations.startsWith_eq_true hl
      rw [heq]
      refine decide_eq_false fun hc => hless ?_
      rw [← hc, ho]
    refine .inr ?_
    rw [Operations.behind_cons_of_not hstart]
    exact ⟨hl, hstands⟩

/-- Where it does follow, the next operand starts behind it. -/
theorem Left.next (h : Left d e ks rest v) (hv : v.scanner.token = k) :
    ∃ o w more, rest.behind ks = (o, w) :: more ∧ o.kind = k ∧
      Clean d e (Scanner.Behind ((o, w) :: more)) v := by
  obtain ⟨hsign, hstop, -, -⟩ := joining_table k hk
  rcases h with ⟨-, hstands, herrors⟩ | ⟨-, hstands⟩
  · obtain ⟨o, w, more, heq, ho⟩ :=
      Operations.startsWith_eq_true ((hstands.scanner.token_iff hsign).mp hv)
    rw [heq] at hstands
    exact ⟨o, w, more, heq, ho, hstands, herrors⟩
  · exact absurd hv (hstands.scanner.token_ne hstop)

omit hk in
/-- The operators that were passed over on the way to an operand are passed over at once. -/
theorem Left.behind_eq {o : Operator} {more : Operations}
    (heq : rest.behind ks = (o, w) :: more) (ho : o.kind = k) :
    rest.behind (k :: ks) = more.behind (k :: ks) := by
  rw [Operations.behind_cons, heq, Operations.behind_cons_self (ho ▸ List.mem_cons_self)]

variable {operand : Parse Node}
  (hoperand : ∀ w rest, rest.length ≤ n → Runs (Clean d e (Scanner.OnWord w rest)) operand
    fun _ => Left d e ks rest)
include hoperand

omit hk in
theorem runs_typeOperand (hrest : rest.length ≤ n) :
    Runs (Clean d e (Scanner.OnWord w rest)) (typeOperand g operand) fun _ => Left d e ks rest := by
  refine .known (x := false) (K := Clean d e (Scanner.OnWord w rest)) ?_
    (.neg (by decide) (hoperand w rest hrest))
  exact .token (fun _ hv => hv.1.scanner.finds.token) (.pure fun _ hv => ⟨rfl, hv⟩)

theorem runs_operands (hrest : rest.length ≤ n) :
    Runs (fun v => Left d e ks rest v ∧ v.scanner.token = k) (collect do
      if ← accept k then return (some (← typeOperand g operand), false)
      return (none, true)) fun _ => Left d e (k :: ks) rest := by
  obtain ⟨hsign, -⟩ := joining_table k hk
  refine .collect (I := fun m _ v => ∃ left, left.length ≤ n ∧ (left.behind ks).length = m ∧
    left.behind (k :: ks) = rest.behind (k :: ks) ∧ Left d e ks left v) (fun v hv => ?_)
    fun m rev => ?_
  · obtain ⟨o, w, more, heq, -, hstands⟩ := hv.1.next hk hv.2
    have hlength := hstands.1.scanner.length_le
    refine ⟨_, ?_, rest, hrest, rfl, rfl, hv.1⟩
    rw [heq]
    omega
  · refine .given ?_
    rintro v ⟨left, hleft, rfl, hsame, hv⟩
    by_cases htoken : v.scanner.token = k
    · obtain ⟨o, w, more, heq, ho, hstands⟩ := hv.next hk htoken
      have hmore : more.length < (left.behind ks).length := by
        rw [heq]
        exact Nat.lt_succ_self _
      have hlength := Operations.length_behind_le ks left
      refine ⟨_, hstands, .accept (K := Clean d e (Scanner.OnWord w more))
        (fun _ hv => (hv.1.scanner.token_iff hsign).mpr (decide_eq_true ho))
        (fun _ hv => hv.scan fun h => h.scan (ho ▸ hsign)) (.pos rfl ?_)⟩
      refine .bind (runs_typeOperand hoperand (by omega)) fun _ => .pure fun v hv => ?_
      have hsmall := Operations.length_behind_le ks more
      exact ⟨_, by omega, more, by omega, rfl, by rw [← Left.behind_eq heq ho, hsame], hv⟩
    · refine ⟨fun v => Left d e ks left v ∧ v.scanner.token ≠ k, ⟨hv, htoken⟩,
        .not_accept (fun _ hv => hv.2) (.neg (by decide) (.pure fun v hv => ?_))⟩
      have hdone := hv.1.done hk hv.2
      unfold Left at hdone ⊢
      rwa [hsame] at hdone

/-- The operands of a joining operator are read one after the other. -/
theorem runs_operatorType {form : List Node → Form} (hrest : rest.length ≤ n) :
    Runs (Clean d e (Scanner.OnWord w rest)) (operatorType g k form operand) fun _ =>
      Left d e (k :: ks) rest := by
  obtain ⟨-, -, -, hname⟩ := joining_table k hk
  refine .look fun start => .not_accept (fun _ hv heq => ?_)
    (.bind (runs_typeOperand hoperand hrest) fun first => ?_)
  · rw [hv.1.scanner.finds.token] at heq
    exact hname heq.symm
  · refine .given fun v hv => ?_
    by_cases htoken : v.scanner.token = k
    · exact ⟨fun v => Left d e ks rest v ∧ v.scanner.token = k, ⟨hv, htoken⟩,
        .on_token (fun _ hv => hv.2) (.neg (by decide) (.bind (runs_operands hk hoperand hrest)
          fun _ => .looks))⟩
    · exact ⟨fun v => Left d e ks rest v ∧ v.scanner.token ≠ k, ⟨hv, htoken⟩,
        .not_token (fun _ hv => hv.2) (.pos rfl (.pure fun _ hv => hv.1.done hk hv.2))⟩

end

/-- A type starts with a name. -/
theorem runs_isTypeStart : Runs (Clean d e (Scanner.OnWord w rest)) isTypeStart fun x v =>
    x = true ∧ Clean d e (Scanner.OnWord w rest) v := by
  have hname : ∀ v, Clean d e (Scanner.OnWord w rest) v → v.scanner.token = .identifier :=
    fun _ hv => hv.1.scanner.finds.token
  refine .look fun s => .token hname ?_
  show Runs _ isIdentifier _
  exact .on_name (f := pure) hname (.pure fun _ hv => ⟨rfl, hv⟩)

variable (hg : ∀ w rest, rest.length ≤ n → ∀ d e, Runs (Clean d e (Scanner.OnWord w rest))
  (g .typeOperator) fun _ => Left d e [] rest) (hrest : rest.length ≤ n)
include hg hrest

theorem runs_typeInner : Runs (Clean d e (Scanner.OnWord w rest)) (typeInner g) fun _ =>
    Left d e [.bar, .ampersand] rest := by
  have hname : ∀ v, Clean d e (Scanner.OnWord w rest) v → v.scanner.token = .identifier :=
    fun _ hv => hv.1.scanner.finds.token
  have hunion : Runs (Clean d e (Scanner.OnWord w rest)) (unionType g) fun _ =>
      Left d e [.bar, .ampersand] rest := by
    refine runs_operatorType (by decide) (fun w rest hrest => ?_) hrest
    exact runs_operatorType (by decide) (fun w rest hrest => hg w rest hrest d e) hrest
  refine .known runs_isTypeStart (.neg (by decide) ?_)
  refine .known (x := false) (K := Clean d e (Scanner.OnWord w rest))
    (.token hname (.pure fun _ hv => ⟨rfl, hv⟩)) (.neg (by decide) ?_)
  refine .look fun start => .bind hunion fun check => ?_
  refine .context (fun _ hv => hv.context) (.on_line (fun _ hv => hv.line) (.neg (by decide) ?_))
  exact .not_accept (fun _ hv => hv.token_ne (by decide)) (.neg (by decide) (.pure fun _ hv => hv))

theorem runs_type : Runs (Clean d e (Scanner.OnWord w rest)) (type g) fun _ v =>
    if d < Limits.nesting then Left d e [.bar, .ampersand] rest v else Stands d Scanner.Over v := by
  by_cases hd : d < Limits.nesting
  · simp only [hd, if_true]
    refine .nested (K := Clean (d + 1) e (Scanner.OnWord w rest))
      (R := fun _ => Left (d + 1) e [.bar, .ampersand] rest) (runs_typeInner hg hrest)
      (fun v hv => hv.1.depth ▸ hd) (fun v hv => ⟨hv.1.enter, hv.2⟩) fun x v hv => ?_
    exact hv.imp (fun h => ⟨h.1, h.2.1.leave, h.2.2⟩) fun h => ⟨h.1, h.2.leave⟩
  · simp only [hd, if_false]
    refine .nested_limit (K := Stands d (Scanner.OnWord w rest)) ?_
      (fun v hv => hv.1.depth ▸ Nat.le_of_not_lt hd) fun v e hv => hv.1.errors e
    exact .imp .looks fun _ _ hv => hv.imp fun _ h => h.over

end

/-- Types are read in full by a grammar with enough fuel for the operators in them. -/
theorem readsTypes_grammar (n fuel : Nat) (hfuel : 2 * n ≤ fuel) :
    ReadsTypes (grammar fuel) n := by
  induction n generalizing fuel with
  | zero => exact fun _ _ _ _ h => absurd h (Nat.not_lt_zero _)
  | succ n ih =>
      obtain ⟨fuel, rfl⟩ : ∃ m, fuel = m + 2 := ⟨fuel - 2, by omega⟩
      intro d e w rest hrest
      exact runs_type (g := grammar (fuel + 1)) (n := n) (fun _ _ hrest _ _ =>
        runs_typeOperator (ih fuel (by omega)) hrest) (Nat.le_of_lt_succ hrest)

section
variable {P : View → Prop}

theorem runs_isExpressionStart_name (hname : ∀ v, P v → v.scanner.token = .identifier) :
    Runs P isExpressionStart fun x v => x = true ∧ P v := by
  refine .known (x := true) (K := P) ?_ (.pos rfl (.pure fun _ hv => ⟨rfl, hv⟩))
  refine .token hname ?_
  show Runs _ isIdentifier _
  exact .on_name (f := pure) hname (.pure fun _ hv => ⟨rfl, hv⟩)

/-- A name after type arguments shows that they are none. -/
theorem runs_canFollow_name (hname : ∀ v, P v → v.scanner.token = .identifier)
    (hline : ∀ v, P v → v.scanner.flags.precedingLineBreak = false) :
    Runs P canFollowTypeArguments fun x _ => x = false := by
  refine .token hname (.on_line hline (.neg (by decide) ?_))
  refine .known (x := false) (K := P) ?_ (.neg (by decide) ?_)
  · exact .token hname (.look fun _ => .neg (by simp) (.pure fun _ hv => ⟨rfl, hv⟩))
  · exact .known (runs_isExpressionStart_name hname) (.pure fun _ _ => rfl)

/-- An equals sign after type arguments shows that they are some. -/
theorem runs_canFollow_equals (hequals : ∀ v, P v → v.scanner.token = .equals)
    (hline : ∀ v, P v → v.scanner.flags.precedingLineBreak = false) :
    Runs P canFollowTypeArguments fun x v => x = true ∧ P v := by
  have hbinary : Runs P isBinaryOperator fun x v => x = false ∧ P v :=
    .token hequals (.look fun _ => .neg (by simp) (.pure fun _ hv => ⟨rfl, hv⟩))
  have hname : Runs P isIdentifier fun x v => x = false ∧ P v :=
    .name_of_token (f := pure) hequals (by decide) (by decide) (.pure fun _ hv => ⟨rfl, hv⟩)
  refine .token hequals (.on_line hline (.neg (by decide) (.known hbinary (.neg (by decide) ?_))))
  refine .known (x := false) (K := P) ?_ (.pure fun _ hv => ⟨rfl, hv⟩)
  refine .known (.token hequals hname) (.neg (by decide) (.token hequals ?_))
  exact .known hbinary (.neg (by decide) hname)

end

section
variable {g : Grammar} {n : Nat} {o : Operator} {w : Word} {rest : Operations}

/-- On the equals sign that is left of `>=`. -/
def AtEquals (s : Scanner) : Prop := ∃ ks, s.Yields (.equals :: ks)

/-- What is read as a list of types is one type. -/
theorem runs_types {Q : View → Prop} (htype : Runs (Clean d e (Scanner.OnWord w rest)) (g .type)
    fun _ v => Q v) (hQ : ∀ v, Q v → v.scanner.token ≠ .comma) :
    Runs (Clean d e (Scanner.OnWord w rest)) (collect (typeArgumentStep g)) fun _ => Q :=
  .collect_once (.bind htype fun _ => .not_accept hQ (.pure fun _ hv => ⟨rfl, hv⟩))

/-- Where no list of type arguments ends, none is found. -/
theorem runs_endOfTypes_none (types : List Node) (errors : Nat) :
    Runs (Stands d Scanner.Over) (do
      if (← errorCount) ≠ errors then return none
      if !(← accept .greaterThan) then return none
      return if ← canFollowTypeArguments then some types else none) fun r _ => r = none := by
  refine .look fun count => ?_
  by_cases hcount : count ≠ errors
  · exact .pos hcount (.pure fun _ _ => rfl)
  refine .neg hcount (.given fun v hv => ?_)
  by_cases htoken : v.scanner.token = .greaterThan
  · have hline := (hv.scanner.scan htoken).line
    rcases hv.scanner.scan_token htoken with hname | hgreater
    · refine ⟨(· = v), rfl, .accept (K := (· = { v with scanner := v.scanner.scan }))
        (fun _ hv => hv ▸ htoken) (fun _ hv => hv ▸ rfl) (.neg (by decide) ?_)⟩
      refine .bind (runs_canFollow_name (fun _ hv => ?_) fun _ hv => ?_) fun x => .pure ?_
      · rw [hv]
        exact hname
      · rw [hv]
        exact hline
      · rintro _ rfl
        rfl
    · refine ⟨(· = v), rfl, .accept (K := (· = { v with scanner := v.scanner.scan }))
        (fun _ hv => hv ▸ htoken) (fun _ hv => hv ▸ rfl) (.neg (by decide) ?_)⟩
      refine .bind (R := fun x _ => x = false) (.token (k := .greaterThan) (fun _ hv => ?_) ?_)
        fun x => .pure ?_
      · rw [hv]
        exact hgreater
      · exact .pure fun _ _ => rfl
      · rintro _ rfl
        rfl
  · exact ⟨(· = v), rfl, .not_accept (fun _ hv => hv ▸ htoken) (.pos rfl (.pure fun _ _ => rfl))⟩

variable [Lawful g]

set_option synthInstance.maxSize 5000

/-- Unless the type ends at `>=`, nothing is read as type arguments. -/
theorem runs_expressionTypeArguments_none (hg : ReadsTypes g n) (hrest : rest.length ≤ n)
    (hopens : rest.opens = false) :
    Runs (Stands d (Scanner.Behind rest)) (expressionTypeArguments? g) fun r v =>
      r = none ∧ Stands d (Scanner.Behind rest) v := by
  cases hless : rest.startsWith .lessThan with
  | false =>
      refine .not_token (fun v hv heq => ?_) (.pos rfl (.pure fun _ hv => ⟨rfl, hv⟩))
      have hstart := (hv.scanner.token_iff (by decide)).mp heq
      rw [hless] at hstart
      cases hstart
  | true =>
      obtain ⟨o, w, more, rfl, ho⟩ := Operations.startsWith_eq_true hless
      have hclose : more.closes = false := by
        rw [Operations.opens, ho] at hopens
        exact hopens
      have hsign : o.kind ∈ TokenKind.signs := ho ▸ by decide
      refine .on_token (fun v hv => ?_) (.neg (by decide) ?_)
      · exact (hv.scanner.token_iff (by decide)).mpr hless
      refine .attempt (R := fun r _ => r = none) (proceeds g) ?_ (fun _ _ hr => nomatch hr)
        fun _ _ hv _ => ⟨rfl, hv⟩
      refine .look fun errors => .given fun v hv => ⟨Clean d v.errorsRev _, ⟨hv, rfl⟩, ?_⟩
      refine .advance (K := Clean d v.errorsRev (Scanner.OnWord w more))
        (fun _ hv => hv.scan fun h => h.scan hsign) ?_
      refine .bind (R := fun _ => Stands d Scanner.Over) (runs_types ?_ ?_) fun types => ?_
      · refine .imp (hg d _ w more hrest) fun _ v hv => ?_
        split at hv
        · exact hv.over hclose
        · exact hv
      · exact fun _ hv => hv.scanner.token_ne (by decide)
      · exact runs_endOfTypes_none types errors

/-- A type that ends at `>=` is read as a type argument, up to the equals sign. -/
theorem runs_expressionTypeArguments_some (hd : d < Limits.nesting) (hg : ReadsTypes g n)
    (hrest : rest.length ≤ n) (hopens : rest.opens = true) :
    Runs (Stands d (Scanner.Behind rest)) (expressionTypeArguments? g) fun r v =>
      r.isSome = true ∧ Stands d AtEquals v := by
  cases rest with
  | nil => cases hopens
  | cons p more =>
      obtain ⟨o, w⟩ := p
      obtain ⟨ho, hclose⟩ := Bool.and_eq_true_iff.mp hopens
      have ho : o.kind = .lessThan := of_decide_eq_true ho
      have hsign : o.kind ∈ TokenKind.signs := ho ▸ by decide
      refine .on_token (fun v hv => ?_) (.neg (by decide) ?_)
      · exact (hv.scanner.token_iff (by decide)).mpr (decide_eq_true ho)
      refine .attempt (R := fun r v => r.isSome = true ∧ Stands d AtEquals v) (proceeds g) ?_
        (fun _ _ hv => hv) fun _ _ _ hv => nomatch hv.1
      refine .given fun v hv => ⟨Clean d v.errorsRev _, ⟨hv, rfl⟩, ?_⟩
      generalize v.errorsRev = e
      refine .ask (x := e.length) (fun s hs => congrArg List.length hs.2) ?_
      refine .advance (K := Clean d e (Scanner.OnWord w more))
        (fun _ hv => hv.scan fun h => h.scan hsign) ?_
      refine .bind (R := fun _ => Clean d e fun s => ∃ ks, s.Yields (.greaterThan :: .equals :: ks))
        (runs_types ?_ ?_) fun types => ?_
      · refine .imp (hg d e w more hrest) fun _ v hv => ?_
        rw [if_pos hd] at hv
        exact hv.equals hclose
      · rintro v ⟨⟨-, -, ks, hks⟩, -⟩
        rw [hks.1]
        decide
      refine .ask (x := e.length) (fun s hs => congrArg List.length hs.2) (.neg (by simp) ?_)
      refine .accept (K := Stands d AtEquals) ?_ ?_ (.neg (by decide) ?_)
      · rintro v ⟨⟨-, -, ks, hks⟩, -⟩
        exact hks.1
      · rintro v ⟨hv, -⟩
        exact hv.scan fun ⟨ks, hks⟩ => ⟨ks, hks.2.2.2⟩
      refine .known (runs_canFollow_equals ?_ ?_) (.pure fun _ hv => ⟨rfl, hv⟩)
      · exact fun v ⟨_, _, ks, hks⟩ => hks.1
      · exact fun v ⟨_, _, ks, hks⟩ => hks.2.1

end

end Parse
end Erasure

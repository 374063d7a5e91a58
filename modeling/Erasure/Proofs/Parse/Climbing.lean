import Erasure.Proofs.Parse.OperatorTree

/-!
Names and binary operators, however they are laid out, are read as the grouped tree of their items.
-/

namespace Erasure

/-- A binary operator between names. Behind a name `<` can open type arguments, and assertions have
a type on their right. -/
def TokenKind.joinsNames (k : TokenKind) : Bool :=
  (Precedence.ofBinary? k).isSome && !(k = lessThan || k = asKw || k = satisfiesKw)

/-- Operators, each with the name behind it. -/
abbrev Tail := List (TokenKind × String)

/-- Every operator is one in a context: in the head of a `for` statement, `in` is none. -/
def Tail.Allowed (c : ParseContext) (rest : Tail) : Prop :=
  c.noIn = true → ∀ p ∈ rest, p.1 ≠ .inKw

/-- The items of operators and names. -/
def Tail.items : Tail → List Item
  | [] => []
  | (k, name) :: rest => .operator k :: .name name :: items rest

theorem Tail.items_append (before after : Tail) :
    Tail.items (before ++ after) = before.items ++ after.items := by
  induction before with
  | nil => rfl
  | cons p before ih => rw [List.cons_append, items, items, ih, List.cons_append, List.cons_append]

theorem TokenKind.joinsNames_spec {k : TokenKind} (h : k.joinsNames = true) :
    Precedence.ofBinary? k = some (.ofOperator k) ∧ k ≠ .asKw ∧ k ≠ .satisfiesKw := by
  revert h
  cases k <;> decide

namespace Scanner

/-- On the first of some operators, which are followed by names and each other up to a place where
neither an operand nor an operation goes on. -/
def Continues : Tail → Scanner → Scanner → Prop
  | [], s, stop => s = stop ∧ s.token ∉ extenders ∧ Precedence.ofBinary? s.token = none
  | (k, name) :: rest, s, stop =>
      s.token = k ∧ k.joinsNames = true ∧ s.scan.token = .identifier ∧ s.scan.value = name ∧
        Continues rest s.scan.scan.rescanGreater stop

/-- On a name that is followed by operators and names up to a place. -/
structure Spells (name : String) (rest : Tail) (s stop : Scanner) : Prop where
  token : s.token = .identifier
  value : s.value = name
  continues : s.scan.rescanGreater.Continues rest stop

/-- Only `>` is read anew, and not twice. -/
theorem rescanGreater_cases (s : Scanner) : s.rescanGreater = s ∨
    s.token = .greaterThan ∧ s.rescanGreater.token ≠ .greaterThan := by
  unfold rescanGreater
  split
  · split
    · rename_i hfind
      have table : ∀ p ∈ greaterOperators, p.2 ≠ .greaterThan := by decide
      exact .inr ⟨‹_›, table _ (List.mem_of_find?_eq_some hfind)⟩
    · exact .inl rfl
  · exact .inl rfl

theorem rescanGreater_rescanGreater (s : Scanner) :
    s.rescanGreater.rescanGreater = s.rescanGreater := by
  rcases rescanGreater_cases s with heq | ⟨-, hne⟩
  · rw [heq, heq]
  · rw [rescanGreater.eq_def s.rescanGreater, if_neg hne]

variable {s stop : Scanner} {name : String} {rest : Tail}

/-- No operand goes on at an operator or behind the last name. -/
theorem Continues.not_extender (h : s.rescanGreater.Continues rest stop) :
    s.token ∉ .lessThan :: extenders := by
  have hwhole : s.rescanGreater.token ∉ .lessThan :: extenders := by
    cases rest with
    | nil =>
        rw [List.mem_cons, not_or]
        refine ⟨fun heq => ?_, h.2.1⟩
        have hlevel := h.2.2
        rw [heq] at hlevel
        cases hlevel
    | cons p rest =>
        obtain ⟨htoken, hjoins, -⟩ := h
        rw [htoken]
        have table : ∀ k ∈ .lessThan :: extenders, k.joinsNames = false := by decide
        exact fun hmem => Bool.false_ne_true ((table _ hmem).symm.trans hjoins)
  rcases rescanGreater_cases s with heq | ⟨htoken, -⟩
  · rwa [heq] at hwhole
  · rw [htoken]
    decide

theorem stop_le_rescanGreater (s : Scanner) : s.stop ≤ s.rescanGreater.stop := by
  unfold rescanGreater
  split
  · split
    · rename_i more kind hfind
      show s.stop ≤ (s.cursor.advance more.length).offset
      rw [Cursor.offset_advance]
      exact Nat.le_add_right _ _
    · exact Nat.le_refl _
  · exact Nat.le_refl _

theorem remaining_rescanGreater_le (s : Scanner) : s.rescanGreater.remaining ≤ s.remaining := by
  rw [remaining, remaining, (rescanGreater_rereads s).source]
  exact Nat.sub_le_sub_left (stop_le_rescanGreater s) _

/-- Every name to come takes up some of the text. -/
theorem Continues.length_le (h : s.Continues rest stop) (hready : s.Ready) :
    rest.length ≤ s.remaining := by
  induction rest generalizing s with
  | nil => exact Nat.zero_le _
  | cons p rest ih =>
      obtain ⟨-, -, hname, -, hrest⟩ := h
      have hend : s.scan.token ≠ .endOfFile := hname.trans_ne (by decide)
      have hsource : s.scan.source = s.source := (scan_spec s).1.source
      have hsource' : s.scan.scan.rescanGreater.source = s.source :=
        (rescanGreater_rereads _).source.trans ((scan_spec s.scan).1.source.trans hsource)
      have hsize := hready.scan.start_lt_size hend
      have hlt := hready.scan.start_lt_stop hend
      have hle := stop_le_start_scan s
      have hnext := stop_le_start_scan s.scan
      have hscan := hready.scan.scan.start_le_stop
      have hjoin := stop_le_rescanGreater s.scan.scan
      have hmore := ih hrest hready.scan.scan.rescanGreater
      rw [remaining, hsource'] at hmore
      rw [hsource] at hsize
      rw [List.length_cons, remaining]
      omega

end Scanner

/-- The level of the first operator, if an operation goes on with it. -/
def Tail.level? (above : Precedence) : Tail → Option Precedence
  | [] => none
  | (k, _) :: _ =>
      (Precedence.ofBinary? k).filter fun level => Parse.bindsTighter k level above

/-- The first operator can have a tree as its left operand. -/
def Tail.Takes (t : OperatorTree) : Tail → Prop
  | [] => True
  | (k, _) :: _ => Precedence.FitsLeft k t.precedence

section
variable {k l : TokenKind} (hk : (Precedence.ofBinary? k).isSome = true)
include hk

/-- What goes on behind an operator can be on its right. -/
theorem Precedence.fitsRight_of_bindsTighter
    (h : Parse.bindsTighter l (ofOperator l) (ofOperator k) = true) :
    FitsRight k (ofOperator l) := by
  unfold Parse.bindsTighter at h
  unfold FitsRight
  by_cases hl : l = .power
  · rw [if_pos hl, decide_eq_true_eq] at h
    split
    · exact h
    · rw [hl]
      exact ofOperator_lt_power hk ‹_›
  · rw [if_neg hl, decide_eq_true_eq] at h
    split
    · exact Nat.le_of_lt h
    · exact h

/-- An operator that does not go on behind another one can have it on its left. -/
theorem Precedence.fitsLeft_of_not_bindsTighter
    (h : ¬ Parse.bindsTighter l (ofOperator l) (ofOperator k) = true) :
    FitsLeft l (ofOperator k) := by
  unfold Parse.bindsTighter at h
  unfold FitsLeft
  split
  · rename_i hl
    rw [if_pos hl, decide_eq_true_eq, hl] at h
    by_cases hpower : k = .power
    · rw [hpower] at h
      exact absurd (Nat.le_refl _) h
    · exact absurd (Nat.le_of_lt (ofOperator_lt_power hk hpower)) h
  · rename_i hl
    rw [if_neg hl, decide_eq_true_eq] at h
    exact Nat.le_of_not_lt h

end

/-- An operation goes on with the last operator of a tree. -/
def OperatorTree.GoesOn (above : Precedence) : OperatorTree → Prop
  | name _ => True
  | operation _ k _ => Parse.bindsTighter k (.ofOperator k) above = true

theorem OperatorTree.GoesOn.fitsRight {t : OperatorTree} {k : TokenKind}
    (h : t.GoesOn (.ofOperator k)) (hk : (Precedence.ofBinary? k).isSome = true) :
    Precedence.FitsRight k t.precedence := by
  cases t with
  | name text => exact Precedence.fitsRight_primary hk
  | operation left l right => exact Precedence.fitsRight_of_bindsTighter hk h

theorem Tail.level?_cons {k : TokenKind} {name : String} {rest : Tail} (above : Precedence)
    (hk : k.joinsNames = true) : Tail.level? above ((k, name) :: rest) =
      if Parse.bindsTighter k (.ofOperator k) above then some (.ofOperator k) else none := by
  rw [level?, (TokenKind.joinsNames_spec hk).1, Option.filter_some]

theorem Tail.takes_name {rest : Tail} {s stop : Scanner} (h : s.Continues rest stop)
    (text : String) : rest.Takes (.name text) := by
  cases rest with
  | nil => trivial
  | cons p rest =>
      exact Precedence.fitsLeft_primary (by rw [(TokenKind.joinsNames_spec h.2.1).1]; rfl)

/-- What ends the right operand of an operator can have the operation on its left. -/
theorem Tail.takes_operation {rest : Tail} {s stop : Scanner} {k : TokenKind}
    {left right : OperatorTree} (h : s.Continues rest stop)
    (hk : (Precedence.ofBinary? k).isSome = true) (hlevel : rest.level? (.ofOperator k) = none) :
    rest.Takes (.operation left k right) := by
  cases rest with
  | nil => trivial
  | cons p rest =>
      rw [level?_cons _ h.2.1, ite_eq_right_iff] at hlevel
      exact Precedence.fitsLeft_of_not_bindsTighter hk fun heq => nomatch hlevel heq

namespace Parse

variable {g : Grammar} {c : ParseContext} {d : Nat} {name : String} {rest : Tail} {stop : Scanner}

/-- On a written token, with operators and names behind it. -/
abbrev OnName (c : ParseContext) (d : Nat) (name : String) (rest : Tail) (stop : Scanner) :
    View → Prop :=
  StandsIn c d fun s => s.Ready ∧ s.Spells name rest stop

/-- Behind a name. An operator that starts with `>` may still be in pieces. -/
abbrev BehindName (c : ParseContext) (d : Nat) (rest : Tail) (stop : Scanner) : View → Prop :=
  StandsIn c d fun s => s.Ready ∧ s.rescanGreater.Continues rest stop

/-- Behind a name, with the next operator read in full. -/
abbrev OnOperator (c : ParseContext) (d : Nat) (rest : Tail) (stop : Scanner) : View → Prop :=
  StandsIn c d fun s => s.Ready ∧ s.rescanGreater = s ∧ s.Continues rest stop

/-- The parser reads the name here as an operand, and nothing more. -/
abbrev ReadsName (c : ParseContext) (d : Nat) (name : String) (rest : Tail) (stop : Scanner)
    (p : Parse Node) : Prop :=
  Runs (OnName c d name rest stop) p fun n v =>
    n.form = .identifier name ∧ BehindName c d rest stop v

section
variable (hprimary : ReadsName c d name rest stop (g .primary))
include hprimary

theorem runs_leftHandSide_name : ReadsName c d name rest stop (leftHandSide g) := by
  have hne {k : TokenKind} (hk : .identifier ≠ k) (v : View) (hv : OnName c d name rest stop v) :
      v.scanner.token ≠ k :=
    hv.scanner.2.token.trans_ne hk
  refine .look fun start => .not_accept (hne (by decide)) (.neg (by decide) ?_)
  refine .not_accept (hne (by decide)) (.neg (by decide) (.bind hprimary fun operand => ?_))
  refine .given fun v hv => ⟨_, hv.2, ?_⟩
  have hnot (v : View) (hv : BehindName c d rest stop v) := hv.scanner.2.not_extender
  have htoken (v : View) (hv : BehindName c d rest stop v) : v.scanner.token ∉ Scanner.extenders :=
    fun hmem => hnot v hv (List.mem_cons_of_mem _ hmem)
  have hnone : Runs (BehindName c d rest stop) (expressionTypeArguments? g) fun r v =>
      r = none ∧ BehindName c d rest stop v :=
    .not_token (fun v hv heq => hnot v hv (heq ▸ List.mem_cons_self))
      (.pos rfl (.pure fun _ hv => ⟨rfl, hv⟩))
  refine .known (runs_memberChain htoken hnone) ?_
  refine .imp (runs_callChain htoken hnone) ?_
  rintro _ w ⟨rfl, hw⟩
  exact ⟨hv.1, hw⟩

theorem runs_unaryInner_name : ReadsName c d name rest stop (unaryInner g) := by
  refine .look fun start => .token (fun _ hv => hv.scanner.2.token) ?_
  show Runs _ (postfixOperation g start) _
  refine .bind (runs_leftHandSide_name hprimary) fun operand => ?_
  refine .given fun v hv => ⟨_, hv.2, ?_⟩
  have hoperator : ∀ k, k ∉ .lessThan :: Scanner.extenders → k ≠ .plusPlus ∧ k ≠ .minusMinus := by
    intro k
    cases k <;> decide
  refine .token_of (C := (· ∉ _)) (fun _ hv => hv.scanner.2.not_extender) fun k hk =>
    .look fun line => ?_
  exact .neg (by simp [hoperator k hk]) (.pure fun _ hw => ⟨hv.1, hw⟩)

end

theorem runs_unary_name (hd : d < Limits.nesting) {fuel : Nat} (hfuel : 2 ≤ fuel) :
    ReadsName c d name rest stop (grammar fuel .unary) := by
  obtain ⟨fuel, rfl⟩ : ∃ m, fuel = m + 2 := ⟨fuel - 2, by omega⟩
  refine .nested (runs_unaryInner_name (d := d + 1) (runs_primary_name (fun _ hs => hs.2.token)
    (fun _ hs => hs.2.value) fun _ hs => ⟨hs.1.scan, hs.2.continues⟩)) (fun v hv => ?_)
    (fun _ hv => hv.enter) fun n v hv => ⟨hv.1, hv.2.leave⟩
  rwa [hv.depth]

theorem runs_operatorLevel_name {above : Precedence} (hin : rest.Allowed c) :
    Runs (BehindName c d rest stop) (operatorLevel? above) fun r v =>
      r = rest.level? above ∧ OnOperator c d rest stop v := by
  have hjoin : ∀ v, BehindName c d rest stop v →
      OnOperator c d rest stop { v with scanner := v.scanner.rescanGreater } :=
    fun v hv => ⟨hv.context, hv.depth, hv.scanner.1.rescanGreater,
      Scanner.rescanGreater_rescanGreater v.scanner, hv.scanner.2⟩
  cases rest with
  | nil =>
      refine .given fun v hv => ⟨_, hv, ?_⟩
      have hnone : Precedence.ofBinary? stop.token = none := by
        obtain ⟨rfl, -, hnone⟩ := hv.scanner.2
        exact hnone
      refine .rescanGreater (k := stop.token) hjoin (fun v hv => by rw [hv.scanner.2.2.1]) ?_
      have hne : stop.token ≠ .inKw := fun heq => nomatch heq ▸ hnone
      refine .look fun _ => .neg (by simp [hne]) (.pure fun _ hv => ⟨?_, hv⟩)
      rw [hnone]
      rfl
  | cons p rest =>
      refine .rescanGreater hjoin (fun _ hv => hv.scanner.2.2.1) ?_
      refine .context (fun _ hv => hv.context) (.neg ?_ (.pure fun _ hv => ⟨rfl, hv⟩))
      rw [Bool.and_eq_true, decide_eq_true_eq]
      exact fun h => hin h.2 p List.mem_cons_self h.1

/-- An expression is the grouped tree of a name and operations, and an operation goes on with the
last operator of the tree. -/
structure Built (above : Precedence) (name : String) (done : Tail) (n : Node) (t : OperatorTree) :
    Prop where
  tree : n.operatorTree? = some t
  items : t.items = .name name :: done.items
  grouped : t.Grouped
  goesOn : t.GoesOn above

theorem Built.single {above : Precedence} {n : Node} (h : n.form = .identifier name) :
    Built above name [] n (.name name) :=
  ⟨Node.operatorTree?_identifier h, rfl, trivial, trivial⟩

/-- An operator joins what was built before it and what was built as its right operand. -/
theorem Built.operation {above : Precedence} {done done' : Tail} {k : TokenKind} {next : String}
    {n left right : Node} {l r : OperatorTree} {b b' : Bool} (hl : Built above name done left l)
    (hr : Built (.ofOperator k) next done' right r) (hn : n.form = .binary left k right b b')
    (hk : (Precedence.ofBinary? k).isSome = true) (hfits : Precedence.FitsLeft k l.precedence)
    (hbinds : bindsTighter k (.ofOperator k) above = true) :
    Built above name (done ++ (k, next) :: done') n (.operation l k r) where
  tree := Node.operatorTree?_binary hn hl.tree hr.tree
  items := by
    rw [OperatorTree.items, hl.items, hr.items, Tail.items_append]
    rfl
  grouped := ⟨hl.grouped, hr.grouped, hfits, hr.goesOn.fitsRight hk⟩
  goesOn := hbinds

/-- The operations up to one that does not go on were read. -/
inductive Climbed (c : ParseContext) (d : Nat) (above : Precedence) (name : String) (rest : Tail)
    (stop : Scanner) (n : Node) (v : View) : Prop
  | intro (t : OperatorTree) (done left : Tail) (hrest : rest = done ++ left)
      (hbuilt : Built above name done n t) (hlevel : left.level? above = none)
      (hv : OnOperator c d left stop v)

theorem Climbed.errors {above : Precedence} {n : Node} {v : View}
    (h : Climbed c d above name rest stop n v) (e : List Diagnostic) :
    Climbed c d above name rest stop n { v with errorsRev := e } := by
  obtain ⟨t, done, left, hrest, hbuilt, hlevel, hv⟩ := h
  exact ⟨t, done, left, hrest, hbuilt, hlevel, hv.errors e⟩

/-- The state of the loop over operators: what was built of those read so far, which the next one
takes as its left operand, and those that are left. -/
inductive Climbing (c : ParseContext) (d : Nat) (above : Precedence) (name : String) (rest : Tail)
    (stop : Scanner) : Nat → Node × Nat → View → Prop
  | intro {n : Node} {chain : Nat} {v : View} (t : OperatorTree) (done left : Tail)
      (hrest : rest = done ++ left) (hbuilt : Built above name done n t) (hnext : left.Takes t)
      (hchain : chain + left.length ≤ rest.length + 1) (hv : BehindName c d left stop v) :
      Climbing c d above name rest stop (left.length + 1) (n, chain) v

/-- One operator more was read, with its right operand. -/
theorem Climbing.step {above : Precedence} {done more : Tail} {k : TokenKind} {next : String}
    {n right left : Node} {l : OperatorTree} {chain : Nat} {v : View} {b b' : Bool}
    (hrest : rest = done ++ (k, next) :: more) (hbuilt : Built above name done left l)
    (hnext : Tail.Takes l ((k, next) :: more))
    (hchain : chain + (more.length + 1) ≤ rest.length + 1)
    (hk : (Precedence.ofBinary? k).isSome = true)
    (hbinds : bindsTighter k (.ofOperator k) above = true) (hn : n.form = .binary left k right b b')
    (hright : Climbed c d (.ofOperator k) next more stop right v) :
    ∃ m < more.length + 2, Climbing c d above name rest stop m (n, chain + 1) v := by
  obtain ⟨r, done', left', hmore, hr, hlevel, hv⟩ := hright
  have hlength : more.length = done'.length + left'.length := by
    rw [hmore, List.length_append]
  refine ⟨left'.length + 1, by omega, .intro (.operation l k r) (done ++ (k, next) :: done') left'
    ?_ (hbuilt.operation hr hn hk hnext hbinds) ?_ (by omega) ?_⟩
  · rw [hrest, hmore, List.append_assoc, List.cons_append]
  · exact Tail.takes_operation hv.scanner.2.2 hk hlevel
  · exact hv.imp fun s hs => ⟨hs.1, hs.2.1.symm ▸ hs.2.2⟩

/-- What is wanted of a parser of right operands. -/
abbrev ReadsOperations (c : ParseContext) (d n : Nat) (stop : Scanner) (g : Grammar) : Prop :=
  ∀ name rest above, rest.length < n → rest.Allowed c →
    Runs (OnName c d name rest stop) (g (.binary above)) (Climbed c d above name rest stop)

theorem runs_operationStep_name {above : Precedence} {start m : Nat} {x : Node × Nat}
    (hin : rest.Allowed c) (hlimit : rest.length < Limits.leftChain)
    (hright : ReadsOperations c d rest.length stop g) :
    Runs (Climbing c d above name rest stop m x) (operationStep g start above x)
      (Runs.Goes (Climbing c d above name rest stop)
        (fun x v => Climbed c d above name rest stop x.1 v) m) := by
  refine .given fun v hv => ?_
  obtain @⟨left, chain, _, t, done, after, hrest, hbuilt, hnext, hchain, hv⟩ := hv
  have hafter : after.Allowed c := fun h p hp => hin h p (hrest ▸ List.mem_append_right _ hp)
  refine ⟨_, hv, .known (runs_operatorLevel_name hafter) ?_⟩
  cases after with
  | nil => exact .pure fun v hv => ⟨t, done, [], hrest, hbuilt, rfl, hv⟩
  | cons p more =>
      obtain ⟨k, next⟩ := p
      have hjoins : k.joinsNames = true := hv.scanner.2.2.1
      obtain ⟨hlevel, has, hsatisfies⟩ := TokenKind.joinsNames_spec hjoins
      have hk : (Precedence.ofBinary? k).isSome = true := by rw [hlevel]; rfl
      rw [Tail.level?_cons above hjoins]
      by_cases hbinds : bindsTighter k (.ofOperator k) above = true
      · rw [if_pos hbinds]
        have hlength : rest.length = done.length + (more.length + 1) := by
          rw [hrest, List.length_append, List.length_cons]
        rw [List.length_cons] at hchain
        refine .chain (by omega) (.neg (by decide)
          (.token (k := k) (fun _ hv => hv.scanner.2.2.1) (.neg (by simp [has, hsatisfies]) ?_)))
        refine .bind (runs_binaryStep (K := OnName c d next more stop) (fun v hv => ?_)
          (hright next more _ (by omega) fun h p hp => hafter h p (List.mem_cons_of_mem _ hp))
          fun n v e hv => hv.errors e) fun n => .pure ?_
        · obtain ⟨-, -, hname, hvalue, hmore⟩ := hv.scanner.2.2
          exact hv.scan fun h => ⟨h.1.scan, hname, hvalue, hmore⟩
        · rintro v ⟨right, b, b', hn, hread⟩
          exact Climbing.step hrest hbuilt hnext hchain hk hbinds hn hread
      · rw [if_neg hbinds]
        refine .pure fun v hv => ⟨t, done, (k, next) :: more, hrest, hbuilt, ?_, hv⟩
        rw [Tail.level?_cons above hjoins, if_neg hbinds]

theorem runs_binaryRest_name {above : Precedence} {start : Nat} {first : Node}
    (hfirst : first.form = .identifier name) (hin : rest.Allowed c)
    (hlimit : rest.length < Limits.leftChain) (hright : ReadsOperations c d rest.length stop g) :
    Runs (BehindName c d rest stop) (binaryRest g start above first)
      (Climbed c d above name rest stop) := by
  refine .bind (.loop (I := Climbing c d above name rest stop)
    (Q := fun x v => Climbed c d above name rest stop x.1 v) (fun v hv => ?_)
    fun _ _ => runs_operationStep_name hin hlimit hright) fun x => .pure fun _ hv => hv
  have hlength := (hv.scanner.2.length_le hv.scanner.1.rescanGreater).trans
    (Scanner.remaining_rescanGreater_le v.scanner)
  exact ⟨rest.length + 1, by omega, .intro (.name name) [] rest rfl (.single hfirst)
    (Tail.takes_name hv.scanner.2 name) (by omega) hv⟩

/-- A name is the base of a power without parentheses. -/
theorem runs_checkPowerBase_name {P : View → Prop} {first : Node}
    (hfirst : first.form = .identifier name) : Runs P (checkPowerBase first) fun _ => P := by
  refine .look fun isPower => ?_
  split
  · exact .pure fun _ hv => hv
  · rw [hfirst]
    exact .pure fun _ hv => hv

/-- Operations are read by a grammar with enough fuel for their operators. -/
theorem runs_binary_name (hd : d < Limits.nesting) {fuel : Nat} (hfuel : rest.length + 3 ≤ fuel)
    (hin : rest.Allowed c) (hlimit : rest.length < Limits.leftChain) (above : Precedence) :
    Runs (OnName c d name rest stop) (grammar fuel (.binary above))
      (Climbed c d above name rest stop) := by
  induction fuel generalizing name rest above with
  | zero => omega
  | succ fuel ih =>
      refine .look fun start => .bind (runs_unary_name hd (by omega)) fun first => ?_
      refine .given fun v hv => ⟨_, hv.2, ?_⟩
      refine .bind (runs_checkPowerBase_name hv.1) fun _ => runs_binaryRest_name hv.1 hin hlimit ?_
      exact fun next more level hmore hin => ih (by omega) hin (by omega) level

/-- Every operator goes on at the loosest level. -/
theorem level?_comma {s : Scanner} (h : s.Continues rest stop)
    (hlevel : rest.level? .comma = none) :
    rest = [] := by
  cases rest with
  | nil => rfl
  | cons p rest =>
      have table : ∀ k : TokenKind, k.joinsNames = true →
          bindsTighter k (.ofOperator k) .comma = true := by
        intro k
        cases k <;> decide
      rw [Tail.level?_cons _ h.2.1, if_pos (table _ h.2.1)] at hlevel
      cases hlevel

/-- A name with operators and names behind it, fewer operators than a chain may have, is read to its
end in every context that allows them. The expression is the one tree with these names and operators
in order whose operands bind as tightly as their operators ask. -/
theorem binary_reads_grouped_tree {s : ParseState} {fuel : Nat} (hin : rest.Allowed s.context)
    (hdepth : s.depth < Limits.nesting) (hready : s.scanner.Ready)
    (hspells : s.scanner.Spells name rest stop) (hlimit : rest.length < Limits.leftChain)
    (hfuel : rest.length + 3 ≤ fuel) :
    (grammar fuel (.binary .comma) s).2.scanner = stop ∧
    ∃ tree : OperatorTree, (grammar fuel (.binary .comma) s).1.operatorTree? = some tree ∧
      (tree.items = .name name :: rest.items ∧ tree.Grouped) ∧
      ∀ other : OperatorTree, other.items = .name name :: rest.items → other.Grouped →
        other = tree := by
  have hread := runs_binary_name hdepth hfuel hin hlimit .comma s ⟨rfl, rfl, hready, hspells⟩
  obtain ⟨tree, done, left, hrest, hbuilt, hlevel, hv⟩ := hread
  obtain rfl := level?_comma hv.scanner.2.2 hlevel
  obtain rfl : rest = done := by rw [hrest, List.append_nil]
  exact ⟨hv.scanner.2.2.1, tree, hbuilt.tree, ⟨hbuilt.items, hbuilt.grouped⟩,
    fun other hitems hgrouped => hgrouped.eq_of_items_eq hbuilt.grouped
      (hitems.trans hbuilt.items.symm)⟩

/-- Powers group to the right, and a comment or the end of a line changes nothing. -/
theorem reads_shift_of_powers :
    let s := { firstState "a.ts" "a ** b ** c /* by */\n>>> d" with context := { noIn := true } }
    let rest : Tail := [(.power, "b"), (.power, "c"), (.shiftRightUnsigned, "d")]
    (rest.Allowed s.context ∧ s.depth < Limits.nesting ∧ s.scanner.Ready ∧
      rest.length < Limits.leftChain) ∧
    ∃ stop, stop.token = .endOfFile ∧ s.scanner.Spells "a" rest stop ∧
      (grammar 6 (.binary .comma) s).2.scanner = stop ∧
      (grammar 6 (.binary .comma) s).1.operatorTree? = some (.operation (.operation (.name "a")
        .power (.operation (.name "b") .power (.name "c"))) .shiftRightUnsigned (.name "d")) := by
  intro s rest
  have hready : s.scanner.Ready := (ready_firstState _ _).scanner
  have hin : rest.Allowed s.context := fun _ => by decide
  let first : Scanner := s.scanner.scan.rescanGreater
  let second : Scanner := first.scan.scan.rescanGreater
  let third : Scanner := second.scan.scan.rescanGreater
  let stop : Scanner := third.scan.scan.rescanGreater
  obtain ⟨htoken, hvalue, hfirst, hsecond, hthird, hend⟩ :
      s.scanner.token = .identifier ∧ s.scanner.value = "a" ∧
      (first.token = .power ∧ first.scan.token = .identifier ∧ first.scan.value = "b") ∧
      (second.token = .power ∧ second.scan.token = .identifier ∧ second.scan.value = "c") ∧
      (third.token = .shiftRightUnsigned ∧ third.scan.token = .identifier ∧
        third.scan.value = "d") ∧
      stop.token = .endOfFile := by
    decide +kernel
  have hspells : s.scanner.Spells "a" rest stop := by
    refine ⟨htoken, hvalue, hfirst.1, rfl, hfirst.2.1, hfirst.2.2, ?_⟩
    refine ⟨hsecond.1, rfl, hsecond.2.1, hsecond.2.2, ?_⟩
    refine ⟨hthird.1, rfl, hthird.2.1, hthird.2.2, rfl, ?_, ?_⟩
    · exact hend ▸ (by decide : .endOfFile ∉ Scanner.extenders)
    · exact hend ▸ (rfl : Precedence.ofBinary? .endOfFile = none)
  have henough : rest.length + 3 ≤ 6 := by decide
  obtain ⟨hstop, tree, htree, -, hunique⟩ := binary_reads_grouped_tree hin (by decide) hready
    hspells (by decide) henough
  refine ⟨⟨hin, by decide, hready, by decide⟩, stop, hend, hspells, hstop, ?_⟩
  rw [htree, ← hunique (.operation (.operation (.name "a") .power
    (.operation (.name "b") .power (.name "c"))) .shiftRightUnsigned (.name "d")) rfl (by decide)]

end Parse
end Erasure

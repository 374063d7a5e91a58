import Erasure.Proofs.Parse.Alike.Grammar
import Erasure.Proofs.Syntax.Numbers

/-!
The numbers that a parser gives out. The counter of a state only goes up, also when a parser goes
back in the text, so that a number is given out once. What a parser makes of the nodes that it holds
uses every number in them at most as often as they do. A name that becomes a key or a binding hands
its number on.

The places where jumps start are counted along with the numbers. A node starts where the parser
stood when it began with it, so such a place is new as long as the text that was read is.
-/

namespace Erasure

namespace ParseState

theorem nextId_error (s : ParseState) (m : Message) (start length : Nat) (args : List String) :
    (s.error m start length args).nextId = s.nextId := by
  unfold error
  dsimp only
  split <;> rfl

end ParseState

namespace Parse

theorem nextId_reportDepth (s : ParseState) : (reportDepth s).2.nextId = s.nextId := by
  cases hd : s.depthReported with
  | true => rw [reportDepth_of_reported hd]
  | false =>
      rw [reportDepth_of_not_reported hd]
      exact ParseState.nextId_error _ _ _ _ _

theorem Proceeds.nextId_le {α : Type} {p : Parse α} (h : Proceeds p) (s : ParseState) :
    s.nextId ≤ (p s).2.nextId := by
  induction h generalizing s with
  | reads | advance | rescanGreater | rescanSlash | rescanTemplate => exact Nat.le_refl _
  | bind _ _ ihp ihf => exact (ihp s).trans (ihf _ _)
  | errorAt m span args => exact (s.nextId_error m span.start span.length args).ge
  | reportDepth => exact (nextId_reportDepth s).ge
  | freshId | finish => exact Nat.le_succ _
  | withContext change _ ih => exact ih { s with context := change s.context }
  | nested _ _ ihs ihp =>
      by_cases hd : s.depth < Limits.nesting
      · rw [nested_of_lt hd]
        exact ihp { s with depth := s.depth + 1 }
      · rw [nested_of_limit (Nat.le_of_not_lt hd)]
        exact (nextId_reportDepth s).ge.trans (ihs _)
  | lookAhead _ ih => exact ih s
  | attempt _ ih =>
      rename_i p _
      cases hr : (p s).1 with
      | some x => rw [attempt_of_some hr]; exact ih s
      | none => rw [attempt_of_none hr]; exact ih s
  | loop init _ _ ih =>
      exact iterate_rel (R := fun s t => s.nextId ≤ t.nextId) Nat.le_trans ih
        (fun _ _ => Nat.le_refl _) _ init s

/-- How often a mark is given out while the one that comes next goes from one value to another. -/
def drawn (lo hi i : Nat) : Nat := if lo ≤ i ∧ i < hi then 1 else 0

theorem drawn_le_one (lo hi i : Nat) : drawn lo hi i ≤ 1 := by
  unfold drawn
  split <;> omega

theorem drawn_succ (n i : Nat) : drawn n (n + 1) i = if n == i then 1 else 0 := by
  unfold drawn
  grind

theorem drawn_add {lo mid hi : Nat} (h : lo ≤ mid) (h' : mid ≤ hi) (i : Nat) :
    drawn lo mid i + drawn mid hi i = drawn lo hi i := by
  unfold drawn
  split <;> split <;> split <;> omega

end Parse

/-- The value of the mark of its kind that comes next: numbers are counted, and a jump that is not
yet read starts on the current token or behind it. -/
def ParseState.upTo (s : ParseState) : Mark → Nat
  | .number _ => s.nextId
  | .jump _ => s.place.pos

theorem ParseState.upTo_le (s : ParseState) {t : ParseState} (hid : s.nextId ≤ t.nextId)
    (h : s.Follows t) : ∀ i, s.upTo i ≤ t.upTo i
  | .number _ => hid
  | .jump _ => h.pos_le

namespace Parse

section
variable {α β : Type} [Marked α] [Marked β]

/-- Counts hold no marks. -/
instance : Marked Nat := ⟨fun _ => []⟩

@[simp]
theorem marks_nat (n : Nat) : marks n = [] := rfl

instance : Marked (ForInStep α) := ⟨fun x => marks x.value⟩

@[simp]
theorem marks_done (x : α) : marks (ForInStep.done x) = marks x := rfl

@[simp]
theorem marks_yield (x : α) : marks (ForInStep.yield x) = marks x := rfl

/-- Of the marks in the result of the parser, every one is as often in what was held before as it
is in the result, or it is given out by the parser and in the result once more. -/
class Draws (held : List Mark) (p : Parse α) : Prop where
  nextId_le : ∀ s : ParseState, s.nextId ≤ (p s).2.nextId
  follows : ∀ s : ParseState, s.place.Ready → s.Follows (p s).2
  count_le : ∀ s : ParseState, s.place.Ready → ∀ i : Mark,
    (marks (p s).1).count i ≤ held.count i + drawn (s.upTo i) ((p s).2.upTo i) i.value

variable {held used : List Mark} {p q : Parse α} {f : α → Parse β}

namespace Draws

theorem upTo_le (h : Draws held p) (s : ParseState) (hr : s.place.Ready) (i : Mark) :
    s.upTo i ≤ (p s).2.upTo i :=
  s.upTo_le (h.nextId_le s) (h.follows s hr) i

theorem weaken (h : Draws used p) (hle : ∀ i, used.count i ≤ held.count i) : Draws held p :=
  ⟨h.nextId_le, h.follows,
    fun s hr i => (h.count_le s hr i).trans (Nat.add_le_add_right (hle i) _)⟩

/-- Nothing has to be held. -/
theorem fresh (h : Draws [] p) : Draws held p := h.weaken fun _ => Nat.zero_le _

protected theorem pure {x : α} (h : ∀ i, (marks x).count i ≤ held.count i) :
    Draws held (pure x) :=
  ⟨fun _ => Nat.le_refl _, fun _ => .refl, fun _ _ i => (h i).trans (Nat.le_add_right _ _)⟩

/-- A parser that uses a part of what is held, and one that goes on with its result and the rest. -/
theorem bindOn {P : α → Prop} (rest : List Mark) (hp : Draws used p) (hP : Results P p)
    (hf : ∀ x, P x → Draws (rest ++ marks x) (f x))
    (hle : ∀ i, used.count i + rest.count i ≤ held.count i) : Draws held (p >>= f) where
  nextId_le s := (hp.nextId_le s).trans ((hf _ (hP s)).nextId_le _)
  follows s hr := (hp.follows s hr).trans ((hf _ (hP s)).follows _ (hp.follows s hr).ready)
  count_le s hr i := by
    have hready := (hp.follows s hr).ready
    have hnext := hf (p s).1 (hP s)
    have hused := hp.count_le s hr i
    have hmore := hnext.count_le (p s).2 hready i
    have hsum := drawn_add (hp.upTo_le s hr i) (hnext.upTo_le (p s).2 hready i) i.value
    have hheld := hle i
    rw [List.count_append] at hmore
    show (marks (f (p s).1 (p s).2).1).count i ≤ held.count i + drawn (s.upTo i)
      ((f (p s).1 (p s).2).2.upTo i) i.value
    omega

protected theorem bind (rest : List Mark) (hp : Draws used p)
    (hf : ∀ x, Draws (rest ++ marks x) (f x))
    (hle : ∀ i, used.count i + rest.count i ≤ held.count i) : Draws held (p >>= f) :=
  .bindOn (P := fun _ => True) rest hp (fun _ => trivial) (fun x _ => hf x) hle

/-- A parser of which nothing is kept. -/
theorem step {γ : Type} {p : Parse γ} {f : γ → Parse β} [hp : Proceeds p]
    (hf : ∀ x, Draws held (f x)) : Draws held (p >>= f) where
  nextId_le s := (hp.nextId_le s).trans ((hf _).nextId_le _)
  follows s hr := (hp.follows s hr).trans ((hf _).follows _ (hp.follows s hr).ready)
  count_le s hr i := by
    have hready := (hp.follows s hr).ready
    have hle := s.upTo_le (hp.nextId_le s) (hp.follows s hr) i
    have hmore := (hf (p s).1).count_le (p s).2 hready i
    have hsum := drawn_add hle ((hf (p s).1).upTo_le (p s).2 hready i) i.value
    show (marks (f (p s).1 (p s).2).1).count i ≤ held.count i + drawn (s.upTo i)
      ((f (p s).1 (p s).2).2.upTo i) i.value
    omega

/-- A parser that uses nothing of what is held. -/
theorem take [hp : Draws [] p] (hf : ∀ x, Draws (held ++ marks x) (f x)) :
    Draws held (p >>= f) :=
  .bind held hp hf fun _ => (Nat.zero_add _).le

/-- A parser that uses what is held, and one that goes on with its result. -/
theorem spend (hp : Draws held p) (hf : ∀ x, Draws (marks x) (f x)) : Draws held (p >>= f) :=
  .bind [] hp hf fun _ => (Nat.add_zero _).le

/-- The same where the result of the first parser has to meet a condition. -/
theorem spendOn {P : α → Prop} (hp : Draws held p) (hP : Results P p)
    (hf : ∀ x, P x → Draws (marks x) (f x)) : Draws held (p >>= f) :=
  .bindOn [] hp hP hf fun _ => (Nat.add_zero _).le

/-- A parser that comes first. -/
theorem first [hp : Draws [] p] (hf : ∀ x, Draws (marks x) (f x)) : Draws [] (p >>= f) :=
  .spend hp hf

protected theorem ite {c : Prop} [Decidable c] (hp : Draws held p) (hq : Draws held q) :
    Draws held (if c then p else q) := by
  split
  · exact hp
  · exact hq

/-- A number that is drawn. -/
theorem drawn_number (s : ParseState) (i : Mark) :
    drawn (s.upTo i) ((Parse.freshId s).2.upTo i) i.value = List.count i [.number s.nextId] := by
  cases i with
  | number id =>
      rw [List.count_singleton]
      show drawn s.nextId (s.nextId + 1) id = _
      rw [drawn_succ]
      simp
  | jump start =>
      show drawn s.place.pos s.place.pos start = _
      unfold drawn
      simp

theorem freshId {f : NodeId → Parse β} (hf : ∀ id, Draws (held ++ [.number id]) (f id)) :
    Draws held (freshId >>= f) where
  nextId_le s := (Nat.le_succ _).trans ((hf s.nextId).nextId_le (Parse.freshId s).2)
  follows s hr := (Proceeds.freshId.follows s hr).trans ((hf s.nextId).follows _ hr)
  count_le s hr i := by
    have hmore := (hf s.nextId).count_le (Parse.freshId s).2 hr i
    have hup := s.upTo_le (Nat.le_succ s.nextId) (Proceeds.freshId.follows s hr) i
    have hsum := drawn_add hup ((hf s.nextId).upTo_le (Parse.freshId s).2 hr i) i.value
    rw [List.count_append, ← drawn_number s, Nat.add_assoc, hsum] at hmore
    exact hmore

/-- A jump needs the mark of its start. -/
theorem finishJump {start : Nat} {form : Form}
    (h : ∀ i, (form.jumpMarks start ++ marks form).count i ≤ held.count i) :
    Draws held (finish start form) where
  nextId_le _ := Nat.le_succ _
  follows := (Proceeds.finish start form).follows
  count_le s _ i := by
    show (marks (Node.mk _ _ form)).count i ≤
      held.count i + drawn (s.upTo i) ((Parse.freshId s).2.upTo i) i.value
    rw [marks_node, List.count_cons, drawn_number, List.count_singleton]
    exact Nat.add_le_add_right (h i) _

theorem finish {start : Nat} {form : Form} (h : ∀ i, (marks form).count i ≤ held.count i)
    (hjump : form.NoJump := by exact fun _ => rfl) : Draws held (finish start form) :=
  finishJump fun i => by rw [hjump start]; exact h i

theorem placeholder {form : Form} (h : marks form = [])
    (hjump : form.NoJump := by exact fun _ => rfl) :
    Draws [] (placeholderNode form) :=
  freshId fun id => .step fun _ => .pure fun i => by simp [h, hjump _]

end Draws

/-- A parser that begins on a token of this kind at this position. It can give out the mark of a
jump that starts there if it passes over the token. -/
inductive DrawsFrom (start : Nat) (k : TokenKind) : Parse β → Prop where
  | draws {p : Parse β} (h : Draws [] p) : DrawsFrom start k p
  | passes {f : Unit → Parse β} (hk : k ≠ .endOfFile) (hf : ∀ x, Draws [.jump start] (f x)) :
      DrawsFrom start k (advance >>= f)

/-- The text in front of the next token holds the start of the current one, and no other place of
it is given out. -/
theorem count_jump_le_drawn {s : ParseState} (hr : s.place.Ready)
    (hs : s.scanner.token ≠ .endOfFile) (i : Mark) :
    List.count i [.jump s.place.pos] ≤ drawn (s.upTo i) ((advance s).2.upTo i) i.value := by
  have hlt : s.place.pos < (advance s).2.place.pos :=
    (hr.scanner.start_lt_stop hs).trans_le (Scanner.stop_le_start_scan s.scanner)
  cases i with
  | number => simp
  | jump start =>
      show _ ≤ drawn s.place.pos (advance s).2.place.pos start
      unfold drawn
      rw [List.count_singleton]
      grind

namespace DrawsFrom

variable {start : Nat} {k : TokenKind} {p : Parse β}

theorem nextId_le (h : DrawsFrom start k p) (s : ParseState) : s.nextId ≤ (p s).2.nextId := by
  cases h with
  | draws h => exact h.nextId_le s
  | passes _ h => exact (h ()).nextId_le (advance s).2

theorem follows (h : DrawsFrom start k p) (s : ParseState) (hr : s.place.Ready) :
    s.Follows (p s).2 := by
  cases h with
  | draws h => exact h.follows s hr
  | passes _ h =>
      have hadvance := Proceeds.advance.follows s hr
      exact hadvance.trans ((h ()).follows _ hadvance.ready)

theorem count_le {s : ParseState} (h : DrawsFrom s.place.pos s.scanner.token p)
    (hr : s.place.Ready) (i : Mark) :
    (marks (p s).1).count i ≤ drawn (s.upTo i) ((p s).2.upTo i) i.value := by
  cases h with
  | draws h => exact (h.count_le s hr i).trans (Nat.zero_add _).le
  | passes hk h =>
      have hadvance := Proceeds.advance.follows s hr
      have hmore := (h ()).count_le (advance s).2 hadvance.ready i
      have hjump := count_jump_le_drawn hr hk i
      have hle := s.upTo_le (Proceeds.advance.nextId_le s) hadvance i
      have hsum := drawn_add hle
        ((h ()).upTo_le (advance s).2 hadvance.ready i) i.value
      exact (hmore.trans (Nat.add_le_add_right hjump _)).trans hsum.le

end DrawsFrom

theorem Draws.onToken {f : Nat → TokenKind → Parse β}
    (hf : ∀ start k, DrawsFrom start k (f start k)) : Draws [] (do
      let start ← pos
      let k ← token
      f start k) where
  nextId_le s := (hf s.place.pos s.scanner.token).nextId_le s
  follows s hr := (hf s.place.pos s.scanner.token).follows s hr
  count_le s hr i := ((hf s.place.pos s.scanner.token).count_le hr i).trans (Nat.zero_add _).ge

theorem Draws.withContext (change : ParseContext → ParseContext) (h : Draws held p) :
    Draws held (withContext change p) :=
  ⟨fun s => h.nextId_le { s with context := change s.context },
    fun s hr => (h.follows { s with context := change s.context } hr).inContext,
    fun s => h.count_le { s with context := change s.context }⟩

section
variable [h : Draws held p]

instance (change : ParseContext → ParseContext) : Draws held (withContext change p) :=
  h.withContext change

instance : Draws held (allowIn p) := inferInstanceAs (Draws held (withContext _ p))

instance : Draws held (allowConditionalType p) := inferInstanceAs (Draws held (withContext _ p))

instance : Draws held (disallowConditionalType p) := inferInstanceAs (Draws held (withContext _ p))

end

instance {p : Parse (Option α)} [h : Draws [] p] : Draws [] (attempt p) where
  nextId_le s := by
    cases hx : (p s).1 with
    | some x => rw [attempt_of_some hx]; exact h.nextId_le s
    | none => rw [attempt_of_none hx]; exact h.nextId_le s
  follows s hr := by
    cases hx : (p s).1 with
    | some x => rw [attempt_of_some hx]; exact h.follows s hr
    | none => rw [attempt_of_none hx]; exact .restore hr (h.follows s hr)
  count_le s hr i := by
    cases hx : (p s).1 with
    | some x => rw [attempt_of_some hx]; exact h.count_le s hr i
    | none => rw [attempt_of_none hx]; exact Nat.zero_le _

instance {substitute p : Parse Node} [hs : Draws [] substitute] [hp : Draws [] p] :
    Draws [] (nested substitute p) where
  nextId_le s := by
    by_cases hd : s.depth < Limits.nesting
    · rw [nested_of_lt hd]
      exact hp.nextId_le { s with depth := s.depth + 1 }
    · rw [nested_of_limit (Nat.le_of_not_lt hd)]
      exact (nextId_reportDepth s).ge.trans (hs.nextId_le _)
  follows s hr := by
    by_cases hd : s.depth < Limits.nesting
    · rw [nested_of_lt hd]
      exact (hp.follows { s with depth := s.depth + 1 } hr).deeper
    · rw [nested_of_limit (Nat.le_of_not_lt hd)]
      have hreported := Proceeds.reportDepth.follows s hr
      exact hreported.trans (hs.follows _ hreported.ready)
  count_le s hr i := by
    by_cases hd : s.depth < Limits.nesting
    · rw [nested_of_lt hd]
      exact hp.count_le { s with depth := s.depth + 1 } hr i
    · rw [nested_of_limit (Nat.le_of_not_lt hd)]
      have hcount := hs.count_le (reportDepth s).2 (by rwa [place_reportDepth]) i
      have hup : (reportDepth s).2.upTo i = s.upTo i := by
        cases i with
        | number => exact nextId_reportDepth s
        | jump => exact congrArg Place.pos (place_reportDepth s)
      rwa [hup] at hcount

section
variable {test : Parse Bool} [Proceeds test] [Draws [] p]

instance : Draws [] (when? test p) :=
  .step fun _ => .ite (.take fun x => .pure fun _ => by simp) (.pure fun _ => Nat.le_refl _)

instance : Draws [] (unless? test p) :=
  .step fun _ => .ite (.pure fun _ => Nat.le_refl _) (.take fun x => .pure fun _ => by simp)

instance (k : TokenKind) [Proceeds (accept k)] : Draws [] (after? k p) :=
  inferInstanceAs (Draws [] (when? _ p))

end

/-- A repetition holds what its steps hold between them. -/
theorem Draws.loop {init : α} {step : α → Parse (ForInStep α)}
    (hinit : ∀ i, (marks init).count i ≤ held.count i) (hstep : ∀ x, Draws (marks x) (step x)) :
    Draws held (loop init step) := by
  have hiterate (fuel : Nat) (x : α) : Draws (marks x) (iterate step fuel x) := by
    induction fuel generalizing x with
    | zero =>
        exact ⟨fun _ => Nat.le_refl _, fun s hr => .of_place hr rfl (grows_noteStall _ s),
          fun _ _ _ => Nat.le_add_right _ _⟩
    | succ fuel ih =>
        refine .step fun start => .step fun k => .spend (hstep x) fun r => ?_
        cases r with
        | done y => exact .pure fun _ => Nat.le_refl _
        | yield y =>
            have hy := ih y
            exact ⟨fun s => hy.nextId_le (noteRound start k s).2,
              fun s hr => .trans (t := (noteRound start k s).2)
                (.of_place hr rfl (grows_noteRound start k s)) (hy.follows _ hr),
              fun s => hy.count_le (noteRound start k s).2⟩
  exact .step fun _ => (hiterate _ _).weaken hinit

instance {step : Parse (Option α × Bool)} [Draws [] step] : Draws [] (collect step) := by
  unfold collect
  refine .spend (.loop (fun _ => Nat.le_refl _) fun rev => ?_) fun rev => .pure fun i => by simp
  unfold collectStep
  refine .take fun ⟨result, done⟩ => ?_
  cases done <;> exact .pure fun i => by simp; omega

end

instance : Draws [] missingExpression := .placeholder rfl

instance : Draws [] missingStatement := .placeholder rfl

instance : Draws [] missingType := .placeholder rfl

instance : Draws [] takeIdentifier :=
  .freshId fun _ => .step fun _ => .step fun _ => .step fun _ => .pure fun _ => by simp

instance : Draws [] missingIdentifier :=
  .freshId fun _ => .step fun _ => .pure fun _ => by simp

instance : Draws [] identifier := by
  unfold identifier
  exact .step fun _ => .ite inferInstance (.step fun _ => inferInstance)

instance : Draws [] identifierName := by
  unfold identifierName
  exact .step fun _ => .ite inferInstance (.step fun _ => inferInstance)

instance : Draws [] segmentStep := by
  unfold segmentStep
  exact .step fun _ => .ite (.take fun _ => .pure fun _ => by simp) (.pure fun _ => by simp)

instance (first : Parse Identifier) [Draws [] first] : Draws [] (entityName first) := by
  unfold entityName
  refine .step fun _ => .take fun head => .take fun rest => .freshId fun id => .step fun _ =>
    .pure fun i => ?_
  simp [List.count_cons]
  omega

instance : Draws [] stringLiteral := by
  unfold stringLiteral
  refine .step fun _ => .step fun _ => .ite ?_ ?_
  · exact .freshId fun _ => .step fun _ => .step fun _ => .step fun _ => .pure fun _ => by simp
  · exact .step fun _ => .freshId fun _ => .pure fun _ => by simp

/-- Parsers of the nonterminals that use no number twice. -/
class Numbering (g : Grammar) : Prop extends Lawful g where
  draws : ∀ nt, Draws [] (g nt)

variable {g : Grammar} [hg : Numbering g]

instance (nt : Nonterminal) : Draws [] (g nt) := hg.draws nt

theorem marks_toKey (name : Identifier) : marks name.toKey = [.number name.id] := by
  simp [Identifier.toKey, Form.directChildren, Form.jumpMarks]

theorem marks_toBinding (name : Identifier) : marks name.toBinding = [.number name.id] := by
  simp [Identifier.toBinding, Form.directChildren, Form.jumpMarks]

instance : Draws [] (propertyKey g) := by
  unfold propertyKey
  refine .step fun start => .step fun k => ?_
  split
  · exact .take fun _ => .pure fun _ => by simp [Form.directChildren, Form.jumpMarks]
  · exact .step fun _ => .step fun _ => .finish fun _ => by simp [Form.directChildren]
  · exact .step fun _ => .step fun _ => .finish fun _ => by simp [Form.directChildren]
  · exact .take fun _ => .pure fun _ => by simp [Form.directChildren, Form.jumpMarks]
  · exact .step fun _ => .take fun _ => .step fun _ => .finish fun _ => by
      simp [Form.directChildren]
  · exact .take fun name => .pure fun _ => by simp [marks_toKey]

instance (k : TokenKind) : Draws [] (typeAfter? g k) := by unfold typeAfter?; infer_instance

instance : Draws [] (typeClause? g) := by unfold typeClause?; infer_instance

instance : Draws [] (initializer? g) := by unfold initializer?; infer_instance

/-- The name of a property that binds itself takes the number of its key. -/
instance (isShorthand : Bool) (key : Node) :
    Draws (marks key) (shorthandBinding isShorthand key) := by
  have hmissing : Draws (marks key) (do
      errorHere .tokenExpected [":"]
      return (⟨← freshId, key.span, .bindingIdentifier ""⟩ : Node)) :=
    .step fun _ => .freshId fun _ => .pure fun _ => by simp [Form.directChildren, Form.jumpMarks]
  unfold shorthandBinding
  split
  · refine .ite (.pure fun i => ?_) hmissing
    rw [key.marks_eq]
    simp [Form.directChildren, Form.jumpMarks, List.count_cons]
  · exact hmissing

instance : Draws [] (propertyBinding? g) := by
  unfold propertyBinding?
  refine .step fun _ => .ite (.step fun _ => .pure fun _ => by simp) ?_
  refine .step fun _ => .first fun key => .step fun _ => .ite ?_ ?_
  · exact .take fun _ => .pure fun _ => by simp
  · exact .spend inferInstance fun _ => .pure fun _ => by simp

instance (start : Nat) (isRest : Bool) (target : Option (Option Node × Node)) :
    Draws (marks target) (targetRest g start isRest target) := by
  unfold targetRest
  split
  · exact .pure fun _ => by simp
  · refine .take fun _ => .spend (.finish fun i => ?_) fun _ => .step fun _ =>
      .pure fun _ => by simp
    simp [Form.directChildren]

instance : Draws [] (objectPatternElement g) := by
  unfold objectPatternElement
  refine .step fun _ => .ite (.pure fun _ => by simp) ?_
  refine .step fun start => .step fun isRest => .ite ?_ (.first fun target => inferInstance)
  exact .first fun name => .spend (.pure fun _ => by simp) fun target => inferInstance

instance : Draws [] (objectPattern g) := by
  unfold objectPattern
  exact .step fun _ => .step fun _ => .take fun _ => .step fun _ => .finish fun _ => by
    simp [Form.directChildren]

instance : Draws [] (arrayPatternElement g) := by
  unfold arrayPatternElement
  exact .step fun _ => .step fun _ => .take fun _ => .take fun _ => .finish fun _ => by
    simp [Form.directChildren]

instance (state : List (Option Node) × Bool) : Draws (marks state) (arrayPatternStep g state) := by
  obtain ⟨rev, trailing⟩ := state
  unfold arrayPatternStep
  refine .step fun _ => .ite (.pure fun _ => by simp) ?_
  refine .step fun _ => .ite (.pure fun _ => by simp) (.step fun _ => .step fun _ => .ite ?_ ?_)
  · exact .step fun _ => .pure fun _ => by simp
  · refine .take fun element => .step fun _ => .ite (.pure fun i => ?_) (.pure fun i => ?_)
    · simp
      omega
    · simp
      omega

instance : Draws [] (arrayPattern g) := by
  unfold arrayPattern
  refine .step fun _ => .step fun _ => .spend (.loop (fun _ => by simp) fun _ => inferInstance)
    fun ⟨rev, trailing⟩ => .step fun _ => .finish fun _ => ?_
  simp [Form.directChildren]

instance (missing : Message) : Draws [] (binding g missing) := by
  unfold binding
  refine .step fun k => ?_
  split
  · infer_instance
  · infer_instance
  · refine .step fun _ => .ite ?_ (.step fun _ => ?_)
    · exact .take fun _ => .pure fun _ => by simp [marks_toBinding]
    · exact .take fun _ => .pure fun _ => by simp [marks_toBinding]

end Parse
end Erasure

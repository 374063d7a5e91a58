import Erasure.Proofs.Parse.Alike.Grammar
import Erasure.Proofs.Token.Line

/-!
What a parser does with a known text. A run leads from every state with some property to a state
with another one, and it always has a result.
-/

namespace Erasure

namespace Parse

/-- The part of a state that a parser depends on. -/
structure View where
  scanner : Scanner
  context : ParseContext
  depth : Nat
  errorsRev : List Diagnostic

end Parse

def ParseState.view (s : ParseState) : Parse.View := ⟨s.scanner, s.context, s.depth, s.errorsRev⟩

namespace Parse

section
variable {α β : Type}

/-- From a state with a property the parser gives a result and a state with another property. -/
def Runs (P : View → Prop) (p : Parse α) (Q : α → View → Prop) : Prop :=
  ∀ s : ParseState, P s.view → Q (p s).1 (p s).2.view

/-- The parser only looks at the state or numbers nodes. -/
class Looks (p : Parse α) : Prop where
  view : ∀ s : ParseState, (p s).2.view = s.view

variable {P K : View → Prop} {Q : β → View → Prop} {R : α → View → Prop} {p q : Parse α}
  {f : α → Parse β}

namespace Runs

theorem weaken (h : Runs K p R) (hP : ∀ v, P v → K v) : Runs P p R := fun s hs => h s (hP _ hs)

theorem imp {R' : α → View → Prop} (h : Runs P p R) (hR : ∀ x v, R x v → R' x v) :
    Runs P p R' :=
  fun s hs => hR _ _ (h s hs)

/-- A state has a property of its own, and the parser runs from there. -/
theorem given (h : ∀ v, P v → ∃ K : View → Prop, K v ∧ Runs K p R) : Runs P p R := fun s hs =>
  let ⟨_, hK, hp⟩ := h _ hs
  hp s hK

protected theorem pure {x : α} (h : ∀ v, P v → R x v) : Runs P (pure x) R := fun _ hs => h _ hs

protected theorem bind (hp : Runs P p R) (hf : ∀ x, Runs (R x) (f x) Q) : Runs P (p >>= f) Q :=
  fun s hs => hf _ _ (hp s hs)

theorem known {x : α} (hp : Runs P p fun y v => y = x ∧ K v) (hf : Runs K (f x) Q) :
    Runs P (p >>= f) Q := by
  refine .bind hp fun y => ?_
  rintro s ⟨rfl, hs⟩
  exact hf s hs

/-- The result does not matter. -/
theorem look [hp : Looks p] (hf : ∀ x, Runs P (f x) Q) : Runs P (p >>= f) Q :=
  fun s hs => hf _ (p s).2 (by rw [hp.view]; exact hs)

/-- The result is known. -/
theorem ask [hp : Looks p] {x : α} (h : ∀ s : ParseState, P s.view → (p s).1 = x)
    (hf : Runs P (f x) Q) : Runs P (p >>= f) Q := by
  intro s hs
  have hnext := hf (p s).2 (by rw [hp.view]; exact hs)
  rw [← h s hs] at hnext
  exact hnext

theorem pos {c : Prop} [Decidable c] (hc : c) (h : Runs P p R) : Runs P (if c then p else q) R := by
  rwa [if_pos hc]

theorem neg {c : Prop} [Decidable c] (hc : ¬ c) (h : Runs P q R) :
    Runs P (if c then p else q) R := by
  rwa [if_neg hc]

/-- Nothing is known before or after. -/
theorem any : Runs P p fun _ _ => True := fun _ _ => trivial

theorem looks [hp : Looks p] : Runs P p fun _ => P := fun s hs => by rw [hp.view]; exact hs

end Runs

instance [hp : Looks p] [hf : ∀ x, Looks (f x)] : Looks (p >>= f) :=
  ⟨fun s => ((hf _).view _).trans (hp.view s)⟩

instance (x : α) : Looks (pure x : Parse α) := ⟨fun _ => rfl⟩

instance (c : Prop) [Decidable c] [Looks p] [Looks q] : Looks (if c then p else q) := by
  split <;> infer_instance

instance : Looks (get : Parse ParseState) := ⟨fun _ => rfl⟩

instance : Looks token := ⟨fun _ => rfl⟩

instance : Looks pos := ⟨fun _ => rfl⟩

instance : Looks tokenSpan := ⟨fun _ => rfl⟩

instance : Looks tokenText := ⟨fun _ => rfl⟩

instance : Looks tokenValue := ⟨fun _ => rfl⟩

instance : Looks afterLineBreak := ⟨fun _ => rfl⟩

instance : Looks errorCount := ⟨fun _ => rfl⟩

instance : Looks context := ⟨fun _ => rfl⟩

instance (k : TokenKind) : Looks (isToken k) := ⟨fun _ => rfl⟩

instance (ks : List TokenKind) : Looks (isOneOf ks) := ⟨fun _ => rfl⟩

instance : Looks freshId := ⟨fun _ => rfl⟩

instance (start : Nat) (form : Form) : Looks (finish start form) := ⟨fun _ => rfl⟩

/-- Whatever is read ahead, the state is the one before again. -/
instance [hp : Proceeds p] : Looks (lookAhead p) :=
  ⟨fun s => by rw [hp.lookAhead_state]; rfl⟩

instance : Looks isIdentifier := by unfold isIdentifier; infer_instance

instance : Looks isIdentifierOrKeyword := by unfold isIdentifierOrKeyword; infer_instance

instance : Looks missingType := by unfold missingType placeholderNode; infer_instance

instance (close : TokenKind) : Looks (atClose close) := by unfold atClose; infer_instance

instance (test : Parse Bool) [Proceeds test] : Looks (nextIs test) := by
  unfold nextIs
  infer_instance

instance (k : TokenKind) : Looks (nextIsToken k) := by unfold nextIsToken; infer_instance

end

namespace Runs

variable {α β : Type} {P K : View → Prop} {Q : β → View → Prop} {R : α → View → Prop}
  {p : Parse α} {k : TokenKind}

theorem not_token {f : Bool → Parse β} (h : ∀ v, P v → v.scanner.token ≠ k)
    (hf : Runs P (f false) Q) : Runs P (isToken k >>= f) Q :=
  .ask (fun _ hs => decide_eq_false (h _ hs)) hf

theorem on_token {f : Bool → Parse β} (h : ∀ v, P v → v.scanner.token = k)
    (hf : Runs P (f true) Q) : Runs P (isToken k >>= f) Q :=
  .ask (fun _ hs => decide_eq_true (h _ hs)) hf

protected theorem token {f : TokenKind → Parse β} (h : ∀ v, P v → v.scanner.token = k)
    (hf : Runs P (f k) Q) : Runs P (token >>= f) Q :=
  .ask (fun _ hs => h _ hs) hf

theorem token_of {f : TokenKind → Parse β} {C : TokenKind → Prop}
    (h : ∀ v, P v → C v.scanner.token) (hf : ∀ k, C k → Runs P (f k) Q) :
    Runs P (Parse.token >>= f) Q :=
  fun s hs => hf _ (h _ hs) s hs

theorem token_mem {f : TokenKind → Parse β} {ks : List TokenKind}
    (h : ∀ v, P v → v.scanner.token ∈ ks) (hf : ∀ k ∈ ks, Runs P (f k) Q) :
    Runs P (Parse.token >>= f) Q :=
  .token_of h hf

theorem not_oneOf {f : Bool → Parse β} {ks : List TokenKind}
    (h : ∀ v, P v → ks.contains v.scanner.token = false) (hf : Runs P (f false) Q) :
    Runs P (isOneOf ks >>= f) Q :=
  .ask (fun _ hs => h _ hs) hf

theorem on_line {f : Bool → Parse β}
    (h : ∀ v, P v → v.scanner.flags.precedingLineBreak = false) (hf : Runs P (f false) Q) :
    Runs P (afterLineBreak >>= f) Q :=
  .ask (fun _ hs => h _ hs) hf

protected theorem context {f : ParseContext → Parse β} {c : ParseContext}
    (h : ∀ v, P v → v.context = c) (hf : Runs P (f c) Q) : Runs P (context >>= f) Q :=
  .ask (fun _ hs => h _ hs) hf

theorem name_of_token {f : Bool → Parse β} (h : ∀ v, P v → v.scanner.token = k)
    (hyield : k ≠ .yieldKw) (hawait : k ≠ .awaitKw) (hf : Runs P (f k.isIdentifierLike) Q) :
    Runs P (isIdentifier >>= f) Q := by
  refine .known ?_ hf
  unfold isIdentifier
  refine .token h (.look fun _ => .neg ?_ (.neg ?_ (.pure fun _ hv => ⟨rfl, hv⟩)))
  · rw [decide_eq_false hyield]
    exact Bool.false_ne_true
  · rw [decide_eq_false hawait]
    exact Bool.false_ne_true

theorem on_name {f : Bool → Parse β} (h : ∀ v, P v → v.scanner.token = .identifier)
    (hf : Runs P (f true) Q) : Runs P (isIdentifier >>= f) Q :=
  .name_of_token h (by decide) (by decide) hf

protected theorem advance {f : Unit → Parse β}
    (h : ∀ v, P v → K { v with scanner := v.scanner.scan }) (hf : Runs K (f ()) Q) :
    Runs P (advance >>= f) Q :=
  fun _ hs => hf _ (h _ hs)

theorem not_accept {f : Bool → Parse β} (h : ∀ v, P v → v.scanner.token ≠ k)
    (hf : Runs P (f false) Q) : Runs P (accept k >>= f) Q := by
  refine .known ?_ hf
  exact .not_token h (.neg (by decide) (.pure fun _ hv => ⟨rfl, hv⟩))

protected theorem accept {f : Bool → Parse β} (h : ∀ v, P v → v.scanner.token = k)
    (hnext : ∀ v, P v → K { v with scanner := v.scanner.scan }) (hf : Runs K (f true) Q) :
    Runs P (accept k >>= f) Q := by
  refine .known ?_ hf
  exact .on_token h (.pos rfl (.advance hnext (.pure fun _ hv => ⟨rfl, hv⟩)))

/-- An error changes nothing but the errors. -/
theorem view_error (s : ParseState) (m : Message) (start length : Nat) (args : List String) :
    ∃ e, (s.error m start length args).view = { s.view with errorsRev := e } := by
  unfold ParseState.error
  dsimp only
  split
  · exact ⟨s.errorsRev, rfl⟩
  · exact ⟨_, rfl⟩

theorem errorAt {f : Unit → Parse β} {m : Message} {span : Span} {args : List String}
    (h : ∀ v e, P v → K { v with errorsRev := e }) (hf : Runs K (f ()) Q) :
    Runs P (errorAt m span args >>= f) Q := by
  intro s hs
  obtain ⟨e, he⟩ := view_error s m span.start span.length args
  have hK : K (s.error m span.start span.length args).view := by
    rw [he]
    exact h _ e hs
  exact hf _ hK

theorem errorHere {f : Unit → Parse β} {m : Message} {args : List String}
    (h : ∀ v e, P v → K { v with errorsRev := e }) (hf : Runs K (f ()) Q) :
    Runs P (errorHere m args >>= f) Q := by
  refine .bind (R := fun _ => K) (.look fun span => ?_) fun _ => hf
  exact .errorAt (f := pure) h (.pure fun _ hv => hv)

theorem not_require {f : Unit → Parse β} (h : ∀ v, P v → v.scanner.token ≠ k)
    (herror : ∀ v e, P v → K { v with errorsRev := e }) (hf : Runs K (f ()) Q) :
    Runs P (require k >>= f) Q := by
  refine .bind (R := fun _ => K) ?_ fun _ => hf
  unfold require expect
  refine .bind (R := fun _ => K) ?_ fun _ => .pure fun _ hv => hv
  exact .not_accept h (.neg (by decide) (.errorHere herror (.pure fun _ hv => hv)))

protected theorem require {f : Unit → Parse β} (h : ∀ v, P v → v.scanner.token = k)
    (hnext : ∀ v, P v → K { v with scanner := v.scanner.scan }) (hf : Runs K (f ()) Q) :
    Runs P (require k >>= f) Q := by
  refine .bind (R := fun _ => K) ?_ fun _ => hf
  unfold require expect
  refine .bind (R := fun _ => K) ?_ fun _ => .pure fun _ hv => hv
  exact .accept h hnext (.pos rfl (.pure fun _ hv => hv))

/-- Joining what starts with `>` shows the whole operator. -/
protected theorem rescanGreater {f : TokenKind → Parse β}
    (h : ∀ v, P v → K { v with scanner := v.scanner.rescanGreater })
    (hk : ∀ v, K v → v.scanner.token = k) (hf : Runs K (f k) Q) :
    Runs P (rescanGreater >>= f) Q := by
  refine .known (x := k) (K := K) (fun s hs => ?_) hf
  have hK := h _ hs
  exact ⟨hk _ hK, hK⟩

theorem finish {start : Nat} {form : Form} : Runs P (finish start form) fun n v =>
    n.form = form ∧ P v :=
  fun _ hs => ⟨rfl, hs⟩

theorem withContext {change : ParseContext → ParseContext} {Q : α → View → Prop}
    (h : Runs K p R) (hin : ∀ v, P v → K { v with context := change v.context })
    (hout : ∀ v x w, P v → R x w → Q x { w with context := v.context }) :
    Runs P (withContext change p) Q :=
  fun s hs => hout s.view _ _ hs (h { s with context := change s.context } (hin _ hs))

/-- A change of the context that leaves the one here as it is. -/
theorem sameContext {change : ParseContext → ParseContext} {c : ParseContext}
    (hchange : change c = c) (hP : ∀ v, P v → v.context = c) (h : Runs P p R)
    (hR : ∀ x v, R x v → R x { v with context := c }) : Runs P (Parse.withContext change p) R := by
  refine .withContext h (fun v hv => ?_) fun v x w hv hw => ?_
  · obtain ⟨scanner, context, depth, errorsRev⟩ := v
    obtain rfl : context = c := hP _ hv
    show P ⟨scanner, change context, depth, errorsRev⟩
    rwa [hchange]
  · rw [hP v hv]
    exact hR x w hw

theorem nested {substitute p : Parse Node} {R Q : Node → View → Prop} (h : Runs K p R)
    (hlimit : ∀ v, P v → v.depth < Limits.nesting)
    (hin : ∀ v, P v → K { v with depth := v.depth + 1 })
    (hout : ∀ x v, R x v → Q x { v with depth := v.depth - 1 }) :
    Runs P (nested substitute p) Q := by
  intro s hs
  rw [nested_of_lt (hlimit _ hs)]
  exact hout _ _ (h { s with depth := s.depth + 1 } (hin _ hs))

theorem chain {f : Bool → Parse β} {n : Nat} (h : n < Limits.leftChain)
    (hf : Runs P (f false) Q) : Runs P (chainTooLong n >>= f) Q := by
  refine .known ?_ hf
  unfold chainTooLong
  exact .pos h (.pure fun _ hv => ⟨rfl, hv⟩)

theorem reportDepth {f : Unit → Parse β} (h : ∀ v e, P v → K { v with errorsRev := e })
    (hf : Runs K (f ()) Q) : Runs P (reportDepth >>= f) Q := by
  refine .bind (R := fun _ => K) ?_ fun _ => hf
  intro s hs
  unfold Parse.reportDepth
  show K (((ite _ _ _ : Parse Unit) s).2).view
  split
  · exact h _ s.errorsRev hs
  · have hreport : Runs P (Parse.errorHere .expressionExpected [] >>= pure) fun _ => K :=
      .errorHere h (.pure fun _ hv => hv)
    exact hreport { s with depthReported := true } hs

/-- At the limit the substitute takes the place of what is not read. -/
theorem nested_limit {substitute p : Parse Node} {Q : Node → View → Prop} (h : Runs K substitute Q)
    (hlimit : ∀ v, P v → Limits.nesting ≤ v.depth)
    (hreport : ∀ v e, P v → K { v with errorsRev := e }) :
    Runs P (Parse.nested substitute p) Q := by
  intro s hs
  rw [nested_of_limit (hlimit _ hs)]
  exact Runs.reportDepth (f := fun _ => substitute) hreport h s hs

protected theorem get {f : ParseState → Parse β}
    (hf : ∀ s : ParseState, P s.view → Runs P (f s) Q) : Runs P (get >>= f) Q :=
  fun s hs => hf s hs s hs

theorem lookAhead [Proceeds p] {x : α} (h : Runs P p fun y _ => y = x) :
    Runs P (lookAhead p) fun y v => y = x ∧ P v :=
  fun s hs => ⟨h s hs, by rw [Looks.view]; exact hs⟩

theorem attempt {p : Parse (Option α)} {R Q : Option α → View → Prop} (hproceeds : Proceeds p)
    (h : Runs P p R) (hsome : ∀ x v, R (some x) v → Q (some x) v)
    (hnone : ∀ v w, P v → R none w → Q none v) : Runs P (attempt p) Q := by
  intro s hs
  have hp := h s hs
  cases hx : (p s).1 with
  | some x =>
      rw [attempt_of_some hx, hx]
      exact hsome _ _ (hx ▸ hp)
  | none =>
      rw [hproceeds.attempt_none hx]
      exact hnone _ _ hs (hx ▸ hp)

/-- After a step the loop is done, or it goes on with less to do. -/
def Goes {σ : Type} (I : Nat → σ → View → Prop) (Q : σ → View → Prop) (m : Nat) :
    ForInStep σ → View → Prop
  | .done y, v => Q y v
  | .yield y, v => ∃ n < m, I n y v

section
variable {σ : Type} {I : Nat → σ → View → Prop} {Q : σ → View → Prop}
  {step : σ → Parse (ForInStep σ)}

theorem iterate (hstep : ∀ m x, Runs (I m x) (step x) (Goes I Q m)) {fuel m : Nat}
    (hm : m < fuel) (x : σ) : Runs (I m x) (iterate step fuel x) Q := by
  induction fuel generalizing m x with
  | zero => omega
  | succ fuel ih =>
      intro s hs
      have hround := hstep m x s hs
      cases hr : (step x s).1 with
      | done y =>
          rw [iterate_of_done hr]
          rw [hr] at hround
          exact hround
      | yield y =>
          rw [iterate_of_yield hr]
          rw [hr] at hround
          obtain ⟨n, hn, hnext⟩ := hround
          exact ih (by omega) y _ hnext

/-- The number of steps to do is bounded by the characters to come. -/
theorem loop {init : σ} (hinit : ∀ v, P v → ∃ m ≤ 2 * v.scanner.remaining + 15, I m init v)
    (hstep : ∀ m x, Runs (I m x) (step x) (Goes I Q m)) : Runs P (loop init step) Q := by
  intro s hs
  obtain ⟨m, hm, hI⟩ := hinit _ hs
  have hsize : s.scanner.remaining ≤ s.scanner.source.utf8ByteSize := Nat.sub_le _ _
  have hremaining : s.view.scanner.remaining = s.scanner.remaining := rfl
  exact iterate hstep (by omega) init s hI

/-- What every step keeps holds at the end, however the loop ends. -/
theorem loop_keeps {J : σ → View → Prop} {init : σ} (hinit : ∀ v, P v → J init v)
    (hstep : ∀ x, Runs (J x) (step x) fun r => J r.value) : Runs P (Parse.loop init step) J := by
  have run (fuel : Nat) (x : σ) : Runs (J x) (Parse.iterate step fuel x) J := by
    induction fuel generalizing x with
    | zero => exact fun _ hx => hx
    | succ fuel ih =>
        intro s hs
        have hround := hstep x s hs
        cases hr : (step x s).1 with
        | done y =>
            rw [iterate_of_done hr]
            rw [hr] at hround
            exact hround
        | yield y =>
            rw [iterate_of_yield hr]
            rw [hr] at hround
            exact ih y _ hround
  exact fun s hs => run _ init s (hinit _ hs)

end

theorem collect {I : Nat → List α → View → Prop} {Q : List α → View → Prop}
    {step : Parse (Option α × Bool)}
    (hinit : ∀ v, P v → ∃ m ≤ 2 * v.scanner.remaining + 15, I m [] v)
    (hstep : ∀ m rev, Runs (I m rev) step fun r =>
      Goes I (fun rev => Q rev.reverse) m
        (if r.2 then .done (r.1.toList ++ rev) else .yield (r.1.toList ++ rev))) :
    Runs P (collect step) Q := by
  unfold Parse.collect
  refine .bind (loop hinit fun m rev => ?_) fun rev => .pure fun _ h => h
  exact .bind (hstep m rev) fun r => .pure fun _ h => h

theorem collect_keeps {J : List α → View → Prop} {step : Parse (Option α × Bool)}
    (hinit : ∀ v, P v → J [] v)
    (hstep : ∀ rev, Runs (J rev) step fun r => J (r.1.toList ++ rev)) :
    Runs P (Parse.collect step) fun l => J l.reverse := by
  unfold Parse.collect
  refine .bind (loop_keeps hinit fun rev => ?_) fun rev => .pure fun _ h => ?_
  · refine .bind (hstep rev) fun r => .pure fun _ h => ?_
    split <;> exact h
  · rwa [List.reverse_reverse]

/-- A list is done with its first step. -/
theorem collect_once {Q : List α → View → Prop} {step : Parse (Option α × Bool)}
    (h : Runs P step fun r v => r.2 = true ∧ Q r.1.toList v) : Runs P (Parse.collect step) Q := by
  refine .collect (I := fun _ rev v => rev = [] ∧ P v) (fun _ hv => ⟨0, Nat.zero_le _, rfl, hv⟩)
    fun m rev => ?_
  rintro s ⟨rfl, hs⟩
  obtain ⟨hdone, hQ⟩ := h s hs
  rw [hdone, if_pos rfl]
  show Q (_ ++ []).reverse _
  rw [List.append_nil]
  cases hr : (step s).1.1 with
  | none | some _ =>
      rw [hr] at hQ
      exact hQ

end Runs

end Parse
end Erasure

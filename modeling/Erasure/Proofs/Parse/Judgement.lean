import Erasure.Parse.Grammar
import Erasure.Proofs.Parse.Genuine
import Erasure.Proofs.Parse.Proceeds

/-!
A logic for parsers. A parser never goes back in the text and never forgets an error that was there
before it, whatever it speculates on. So what is known as long as nothing was reported can be
carried from one step to the next, up to the node that is built.
-/

namespace Erasure

namespace ParseState

open Parse

/-- Nothing was reported, not even in a part that was read on trial and given up. -/
structure Quiet (s : ParseState) : Prop where
  errors : s.errorsRev = []
  lexical : s.scanner.errorsRev = []
  depth : s.depthReported = false

theorem Follows.quiet {s t : ParseState} (h : s.Follows t) (hq : t.Quiet) : s.Quiet :=
  ⟨List.suffix_nil.mp (hq.errors ▸ h.grows.errors),
    List.suffix_nil.mp (hq.lexical ▸ h.grows.lexical),
    h.grows.reported hq.depth⟩

/-- After an error the state is not quiet: either the error was added or there was one before. -/
theorem not_quiet_error (s : ParseState) (m : Message) (start length : Nat)
    (args : List String) : ¬ (s.error m start length args).Quiet := by
  unfold error
  dsimp only
  split
  · rename_i hsilent
    rintro ⟨herrors, hlexical, -⟩
    simp [scannerReportedAt, herrors, hlexical, Limits.diagnostics] at hsilent
  · rintro ⟨herrors, -, -⟩
    exact absurd herrors (List.cons_ne_nil _ _)

end ParseState

namespace Parse

/-- Knowledge about the place that later places keep. -/
class Stable (P : Place → Prop) : Prop where
  mono : ∀ {a b : Place}, a.pos ≤ b.pos → P a → P b

section
variable {α β : Type}

/-- Knowledge that does not depend on the place. -/
def always (R : α → Prop) (x : α) (_ : Place) : Prop := R x

/-- A node of which nothing was made up, and which ends before the current token. -/
def built (n : Node) (a : Place) : Prop := n.Genuine ∧ n.span.stop ≤ a.pos

instance (c : Prop) : Stable fun _ => c := ⟨fun _ h => h⟩

instance (P Q : Place → Prop) [Stable P] [Stable Q] : Stable fun a => P a ∧ Q a :=
  ⟨fun h hp => ⟨Stable.mono h hp.1, Stable.mono h hp.2⟩⟩

instance (n : Nat) : Stable fun a => n ≤ a.pos := ⟨fun h hn => hn.trans h⟩

instance (R : α → Prop) (x : α) : Stable (always R x) := ⟨fun _ h => h⟩

instance (n : Node) : Stable (built n) := ⟨fun h hn => ⟨hn.1, hn.2.trans h⟩⟩

/-- From a place of which `P` is known, the parser proceeds, and `Q` is known of its result and the
place after it. Something is known only as long as nothing was reported. -/
def Gives (P : Place → Prop) (p : Parse α) (Q : α → Place → Prop) : Prop :=
  ∀ s : ParseState, s.place.Ready → (s.Quiet → P s.place) →
    s.Follows (p s).2 ∧ ((p s).2.Quiet → Q (p s).1 (p s).2.place)

variable {P K : Place → Prop} {Q : β → Place → Prop} {R : α → Place → Prop} {p q : Parse α}
  {f : α → Parse β}

namespace Gives

theorem weaken (h : Gives K p R) (hP : ∀ a, P a → K a) : Gives P p R :=
  fun s hr hs => h s hr fun hq => hP _ (hs hq)

/-- Nothing has to be known. -/
theorem any (h : Gives (fun _ => True) p R) : Gives P p R := h.weaken fun _ _ => trivial

theorem imp {R' : α → Place → Prop} (h : Gives P p R) (hR : ∀ x a, R x a → R' x a) :
    Gives P p R' :=
  fun s hr hs => ⟨(h s hr hs).1, fun hq => hR _ _ ((h s hr hs).2 hq)⟩

theorem genuine {p : Parse Node} (h : Gives P p built) : Gives P p (always Node.Genuine) :=
  h.imp fun _ _ hn => hn.1

/-- Where something was reported nothing has to be known. -/
theorem of_false [hp : Proceeds p] (hP : ∀ a, ¬ P a) : Gives P p R :=
  fun s hr hs => ⟨hp.follows s hr, fun hq => absurd (hs ((hp.follows s hr).quiet hq)) (hP _)⟩

protected theorem pure {x : α} (h : ∀ a, P a → R x a) : Gives P (pure x) R :=
  fun _ hr hs => ⟨.refl hr, fun hq => h _ (hs hq)⟩

/-- What was known before is not needed any more. -/
theorem forget (hp : Gives P p R) (hf : ∀ x, Gives (R x) (f x) Q) : Gives P (p >>= f) Q := by
  intro s hr hs
  obtain ⟨hfollow, hknown⟩ := hp s hr hs
  have hnext := hf (p s).1 (p s).2 hfollow.ready hknown
  exact ⟨hfollow.trans hnext.1, hnext.2⟩

/-- Knowledge lasts while the parser goes on. -/
theorem keep [Stable K] (hK : ∀ a, P a → K a) (hp : Gives P p R) :
    Gives P p fun x a => K a ∧ R x a := by
  intro s hr hs
  obtain ⟨hfollow, hknown⟩ := hp s hr hs
  exact ⟨hfollow, fun hq =>
    ⟨Stable.mono hfollow.pos_le (hK _ (hs (hfollow.quiet hq))), hknown hq⟩⟩

protected theorem bind [Stable P] (hp : Gives P p R)
    (hf : ∀ x, Gives (fun a => P a ∧ R x a) (f x) Q) : Gives P (p >>= f) Q :=
  .forget (hp.keep fun _ h => h) hf

theorem step [hp : Proceeds p] [Stable P] (hf : ∀ x, Gives P (f x) Q) : Gives P (p >>= f) Q := by
  intro s hr hs
  have hfollow := hp.follows s hr
  have hnext := hf (p s).1 (p s).2 hfollow.ready fun hq =>
    Stable.mono hfollow.pos_le (hs (hfollow.quiet hq))
  exact ⟨hfollow.trans hnext.1, hnext.2⟩

/-- A test that keeps the place tells something about it. -/
theorem ask [hp : Stays p] (hask : ∀ s, s.place.Ready → R (p s).1 s.place)
    (hf : ∀ x, Gives (fun a => P a ∧ R x a) (f x) Q) : Gives P (p >>= f) Q := by
  intro s hr hs
  have hfollow := hp.proceeds.follows s hr
  have hplace := hp.place s
  have hnext := hf (p s).1 (p s).2 hfollow.ready fun hq => by
    rw [hplace]
    exact ⟨hs (hfollow.quiet hq), hask s hr⟩
  exact ⟨hfollow.trans hnext.1, hnext.2⟩

theorem stay [Stays p] (hf : ∀ x, Gives P (f x) Q) : Gives P (p >>= f) Q :=
  ask (R := fun _ _ => True) (fun _ _ => trivial) fun x => (hf x).weaken fun _ h => h.1

protected theorem ite {c : Prop} [Decidable c] (hp : c → Gives P p R) (hq : ¬ c → Gives P q R) :
    Gives P (if c then p else q) R := by
  split
  · exact hp ‹c›
  · exact hq ‹¬ c›

/-- After an error nothing has to be known. -/
theorem fail [hp : Stays p] [hf : ∀ x, Proceeds (f x)] (h : ∀ s, ¬ (p s).2.Quiet) :
    Gives P (p >>= f) Q := by
  intro s hr _
  have hfollow := hp.proceeds.follows s hr
  have hnext := (hf (p s).1).follows (p s).2 hfollow.ready
  exact ⟨hfollow.trans hnext, fun hq => absurd (hnext.quiet hq) (h s)⟩

end Gives

end

theorem not_quiet_errorHere (m : Message) (args : List String) (s : ParseState) :
    ¬ (errorHere m args s).2.Quiet :=
  s.not_quiet_error _ _ _ _

theorem not_quiet_reportDepth (s : ParseState) : ¬ (reportDepth s).2.Quiet := by
  cases hd : s.depthReported with
  | true =>
      rw [reportDepth_of_reported hd]
      exact fun hq => absurd (hq.depth.symm.trans hd) (by decide)
  | false =>
      rw [reportDepth_of_not_reported hd]
      exact not_quiet_errorHere _ _ _

/-- A result that can be left out. -/
def optional {α : Type} (R : α → Prop) (r : Option α) (_ : Place) : Prop := ∀ x ∈ r.toList, R x

instance {α : Type} (R : α → Prop) (r : Option α) : Stable (optional R r) := ⟨fun _ h => h⟩

theorem optional_some {α : Type} {R : α → Prop} {x : α} {a : Place} (h : R x) :
    optional R (some x) a :=
  List.forall_mem_singleton.mpr h

/-- A result of a step that collects, if there is one. -/
def collected {α : Type} (R : α → Prop) (r : Option α × Bool) (_ : Place) : Prop := ∀ x ∈ r.1, R x

theorem collected_some {α : Type} {R : α → Prop} {x : α} {done : Bool} {a : Place} (h : R x) :
    collected R (some x, done) a := by
  rintro _ ⟨⟩
  exact h

namespace Gives

variable {α β : Type} {P : Place → Prop} {Q : β → Place → Prop} {R : α → Place → Prop}
  {p : Parse α}

theorem pos {f : Nat → Parse β} (h : ∀ start, Gives (fun a => P a ∧ start ≤ a.pos) (f start) Q) :
    Gives P (pos >>= f) Q :=
  ask (p := Parse.pos) (R := fun start a => start ≤ a.pos) (fun _ _ => Nat.le_refl _) h

theorem error {m : Message} {args : List String} {f : Unit → Parse β} [∀ x, Proceeds (f x)] :
    Gives P (errorHere m args >>= f) Q :=
  fail (not_quiet_errorHere m args)

theorem finish {start : Nat} {form : Form} (h : ∀ a, P a → form.Genuine) :
    Gives P (finish start form) (always Node.Genuine) :=
  fun _ hr hs => ⟨.of_place hr rfl { ParseState.Grows.refl _ with },
    fun hq => Node.Genuine.of_form (h _ (hs ⟨hq.1, hq.2, hq.3⟩))⟩

theorem finishBuilt {start : Nat} {form : Form} (hstart : ∀ a, P a → start ≤ a.pos)
    (h : ∀ a, P a → form.Genuine) : Gives P (Parse.finish start form) built := by
  intro s hr hs
  refine ⟨.of_place hr rfl { ParseState.Grows.refl s with }, fun hq => ?_⟩
  have hP := hs ⟨hq.1, hq.2, hq.3⟩
  exact ⟨.of_form (h _ hP), Nat.max_le.mpr ⟨hr.prevEnd_le, hstart _ hP⟩⟩

section
variable [Stable P] {R : α → Prop} {test : Parse Bool} [Proceeds test]

theorem when (h : Gives P p (always R)) : Gives P (when? test p) (optional R) :=
  .step fun _ => .ite (fun _ => .bind h fun _ => .pure fun _ ha => optional_some ha.2)
    fun _ => .pure fun _ _ => nofun

theorem whenNot (h : Gives P p (always R)) : Gives P (unless? test p) (optional R) :=
  .step fun _ => .ite (fun _ => .pure fun _ _ => nofun) fun _ => .bind h fun _ =>
    .pure fun _ ha => optional_some ha.2

end

theorem withContext (change : ParseContext → ParseContext) (h : Gives P p R) :
    Gives P (withContext change p) R := by
  intro s hr hs
  obtain ⟨hf, hR⟩ := h { s with context := change s.context } hr fun hq => hs ⟨hq.1, hq.2, hq.3⟩
  exact ⟨hf.inContext, fun hq => hR ⟨hq.1, hq.2, hq.3⟩⟩

theorem allowIn (h : Gives P p R) : Gives P (allowIn p) R := h.withContext _

theorem allowConditionalType (h : Gives P p R) : Gives P (allowConditionalType p) R :=
  h.withContext _

theorem disallowConditionalType (h : Gives P p R) : Gives P (disallowConditionalType p) R :=
  h.withContext _

/-- An attempt that fails leaves the place as it was. -/
theorem attempt {p : Parse (Option α)} {R : Option α → Place → Prop} (h : Gives P p R)
    (hnone : ∀ a, R none a) : Gives P (attempt p) R := by
  intro s hr hs
  have hp := h s hr hs
  unfold Parse.attempt
  split <;> rename_i heq <;> rw [heq] at hp
  · exact hp
  · exact ⟨hp.1.restore hr, fun _ => hnone _⟩

/-- Where the nesting is too deep this is reported, now or before. -/
theorem nested {substitute p : Parse Node} {R : Node → Place → Prop} [Proceeds substitute]
    (h : Gives P p R) : Gives P (nested substitute p) R := by
  intro s hr hs
  by_cases hd : s.depth < Limits.nesting
  · rw [nested_of_lt hd]
    obtain ⟨hf, hR⟩ := h { s with depth := s.depth + 1 } hr fun hq => hs ⟨hq.1, hq.2, hq.3⟩
    exact ⟨hf.deeper, fun hq => hR ⟨hq.1, hq.2, hq.3⟩⟩
  · rw [nested_of_limit (Nat.le_of_not_lt hd)]
    exact fail (f := fun _ => substitute) not_quiet_reportDepth s hr hs

section
variable {σ : Type} {I : σ → Place → Prop} {step : σ → Parse (ForInStep σ)} [Stable P]

/-- Noting a round changes nothing that is known. -/
theorem noted {K : Place → Prop} {p : Parse α} (start : Nat) (k : TokenKind) (hp : Gives K p R) :
    Gives K (noteRound start k >>= fun _ => p) R := by
  intro s hr hs
  have hfollow : s.Follows (noteRound start k s).2 :=
    .of_place hr (place_noteRound start k s) (grows_noteRound start k s)
  obtain ⟨hf, hR⟩ := hp _ hfollow.ready fun hq => by
    rw [place_noteRound]
    exact hs (hfollow.quiet hq)
  exact ⟨hfollow.trans hf, hR⟩

/-- What every round leads on to holds in the end. -/
theorem rounds (hstep : ∀ x, Gives (I x) (step x) fun r => I r.value) (fuel : Nat) (x : σ) :
    Gives (I x) (Parse.iterate step fuel x) I := by
  induction fuel generalizing x with
  | zero =>
      intro s hr hs
      exact ⟨.of_place hr rfl (grows_noteStall _ s), fun hq => hs ⟨hq.1, hq.2, hq.3⟩⟩
  | succ fuel ih =>
      refine .stay fun start => .stay fun k => .forget (hstep x) fun r => ?_
      cases r with
      | done y => exact .pure fun _ h => h
      | yield y => exact (ih y).noted start k

/-- What every step keeps holds of the result of the loop. -/
theorem iterate (hstep : ∀ x, Gives (fun a => P a ∧ I x a) (step x) fun r => I r.value)
    (fuel : Nat) (x : σ) : Gives (fun a => P a ∧ I x a) (iterate step fuel x) I :=
  (rounds (I := fun x a => P a ∧ I x a) (fun x => (hstep x).keep fun _ h => h.1) fuel x).imp
    fun _ _ h => h.2

theorem loop {init : σ} (hinit : ∀ a, P a → I init a)
    (hstep : ∀ x, Gives (fun a => P a ∧ I x a) (step x) fun r => I r.value) :
    Gives P (loop init step) I :=
  stay fun _ => (iterate hstep _ _).weaken fun a h => ⟨h, hinit a h⟩

end

theorem after [Stable P] {R : α → Prop} {k : TokenKind} [Proceeds (accept k)]
    (h : Gives P p (always R)) : Gives P (after? k p) (optional R) := h.when

theorem collect {step : Parse (Option α × Bool)} {R : α → Prop} [Stable P]
    (hstep : Gives P step (collected R)) :
    Gives P (collect step) (always fun xs => ∀ x ∈ xs, R x) := by
  unfold Parse.collect
  refine .bind
    (loop (I := always fun xs => ∀ x ∈ xs, R x) (fun _ _ => nofun) fun rev => ?_) fun rev =>
    .pure fun _ h x hx => h.2 x (List.mem_reverse.mp hx)
  unfold collectStep
  refine .bind (hstep.weaken fun _ h => h.1) fun ⟨result, done⟩ => .pure fun _ h => ?_
  have hall : ∀ x ∈ result.toList ++ rev, R x := by
    intro x hx
    rcases List.mem_append.mp hx with hx | hx
    · exact h.2 x (Option.mem_toList.mp hx)
    · exact h.1.2 x hx
  cases done <;> exact hall

end Gives

end Parse
end Erasure

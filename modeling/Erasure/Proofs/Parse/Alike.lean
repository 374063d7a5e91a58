import Erasure.Proofs.Parse.Tests

/-!
Parsers over two grammars. They are alike if they differ only in the parts that they take from the
grammars. Then they do the same wherever the grammars do the same from there on, and a parser over a
lawful grammar is made of the operations on the state.
-/

namespace Erasure.Parse

/-- A grammar of parsers in which a name or pattern that starts is passed over. -/
class Lawful (g : Grammar) : Prop where
  proceeds : ∀ nt, Proceeds (g nt)
  binds : ∀ {missing : Message} {s : ParseState}, s.place.Ready → (isBindingStart s).1 = true →
    s.place.pos < (g (.binding missing) s).2.place.pos

instance (g : Grammar) [Lawful g] (nt : Nonterminal) : Proceeds (g nt) := Lawful.proceeds nt

/-- The parsers differ only in what they take from the two grammars. Of the repetitions of the first
one every round passes over a token. -/
class inductive Alike (g g' : Grammar) : {α : Type} → Parse α → Parse α → Prop where
  | same {α : Type} {p : Parse α} (h : Proceeds p) : Alike g g' p p
  | part (nt : Nonterminal) : Alike g g' (g nt) (g' nt)
  | bind {α β : Type} {p p' : Parse α} {f f' : α → Parse β} (hp : Alike g g' p p')
      (hf : ∀ x, Alike g g' (f x) (f' x)) : Alike g g' (p >>= f) (p' >>= f')
  | withContext {α : Type} {p p' : Parse α} (change : ParseContext → ParseContext)
      (hp : Alike g g' p p') : Alike g g' (withContext change p) (withContext change p')
  | nested {substitute p p' : Parse Node} (hs : Proceeds substitute) (hp : Alike g g' p p') :
      Alike g g' (nested substitute p) (nested substitute p')
  | lookAhead {α : Type} {p p' : Parse α} (hp : Alike g g' p p') :
      Alike g g' (lookAhead p) (lookAhead p')
  | attempt {α : Type} {p p' : Parse (Option α)} (hp : Alike g g' p p') :
      Alike g g' (attempt p) (attempt p')
  | loop {σ : Type} {step step' : σ → Parse (ForInStep σ)} (init : σ)
      (hstep : ∀ x, Alike g g' (step x) (step' x)) (hmoves : Progresses step) :
      Alike g g' (loop init step) (loop init step')

section
variable {g g' : Grammar} {α β σ : Type} {p p' q q' : Parse α} {f f' : α → Parse β}

theorem Alike.proceeds [Lawful g] (h : Alike g g' p p') : Proceeds p := by
  induction h with
  | same h => exact h
  | part nt => exact Lawful.proceeds nt
  | bind _ _ ihp ihf => exact .bind ihp ihf
  | withContext change _ ih => exact .withContext change ih
  | nested hs _ ih => exact .nested hs ih
  | lookAhead _ ih => exact .lookAhead ih
  | attempt _ ih => exact .attempt ih
  | loop init _ hmoves ih => exact .loop init ih hmoves

/-- A parser over a lawful grammar. -/
theorem proceeds (g : Grammar) [Lawful g] [h : Alike g g p p] : Proceeds p := h.proceeds

end

end Erasure.Parse

namespace Erasure.ParseState

/-- A state to which a place leads, from a position and a depth on. -/
structure Beyond (a : Parse.Place) (pos depth : Nat) (s : ParseState) : Prop where
  reaches : a.Reaches s.place
  source : s.scanner.source = a.scanner.source
  pos_le : pos ≤ s.place.pos
  depth_le : depth ≤ s.depth

namespace Beyond

variable {a : Parse.Place} {pos depth : Nat} {s t : ParseState}

theorem ready (h : s.Beyond a pos depth) : s.place.Ready := h.reaches.ready

theorem follows (hs : s.Beyond a pos depth) (h : s.Follows t) : t.Beyond a pos depth :=
  ⟨hs.reaches.trans h.reaches, h.grows.source.trans hs.source, hs.pos_le.trans h.pos_le,
    hs.depth_le.trans h.grows.depth.ge⟩

end Beyond

end Erasure.ParseState

namespace Erasure.Parse

section
variable {g g' : Grammar} {α β σ : Type} {p p' q q' : Parse α} {f f' : α → Parse β}

/-- Steps that do the same in all states to come are repeated with the same result. -/
theorem iterate_eq {R : ParseState → Prop} {step step' : σ → Parse (ForInStep σ)}
    (hR : ∀ x s, R s → R (step x s).2) (hnote : ∀ start k s, R s → R (noteRound start k s).2)
    (hstep : ∀ x s, R s → step x s = step' x s) (fuel : Nat) (x : σ) (s : ParseState) (hs : R s) :
    iterate step fuel x s = iterate step' fuel x s := by
  induction fuel generalizing x s with
  | zero => rfl
  | succ fuel ih =>
      have heq := hstep x s hs
      cases hx : (step x s).1 with
      | done y => rw [iterate_of_done hx, iterate_of_done (heq ▸ hx), heq]
      | yield y =>
          rw [iterate_of_yield hx, iterate_of_yield (heq ▸ hx), ← heq]
          exact ih y _ (hnote _ _ _ (hR x s hs))

/-- Where two grammars do the same from a position and a depth on, parsers that are alike do. -/
theorem Alike.agrees [Lawful g] {a : Place} {pos depth : Nat}
    (hg : ∀ nt s, s.Beyond a pos depth → g nt s = g' nt s) (h : Alike g g' p p')
    (s : ParseState) (hs : s.Beyond a pos depth) : p s = p' s := by
  induction h generalizing s with
  | same => rfl
  | part nt => exact hg nt s hs
  | bind hp hf ihp ihf =>
      rename_i p p' f f'
      show f (p s).1 (p s).2 = f' (p' s).1 (p' s).2
      rw [← ihp s hs]
      exact ihf _ _ (hs.follows (hp.proceeds.follows s hs.ready))
  | withContext change hp ih =>
      have heq := ih { s with context := change s.context }
        ⟨hs.reaches, hs.source, hs.pos_le, hs.depth_le⟩
      rw [withContext_eq, withContext_eq, heq]
  | nested hsub hp ih =>
      by_cases hd : s.depth < Limits.nesting
      · have heq := ih { s with depth := s.depth + 1 }
          ⟨hs.reaches, hs.source, hs.pos_le, hs.depth_le.trans (Nat.le_succ _)⟩
        rw [nested_of_lt hd, nested_of_lt hd, heq]
      · rw [nested_of_limit (Nat.le_of_not_lt hd), nested_of_limit (Nat.le_of_not_lt hd)]
  | lookAhead hp ih =>
      unfold Parse.lookAhead
      rw [ih s hs]
  | attempt hp ih =>
      unfold Parse.attempt
      rw [ih s hs]
  | loop init hstep hmoves ih =>
      refine iterate_eq (R := fun s => s.Beyond a pos depth) (fun x s hs => ?_)
        (fun start k s hs => ?_) ih _ init s hs
      · exact hs.follows ((hstep x).proceeds.follows s hs.ready)
      · exact hs.follows
          (.of_place hs.ready (place_noteRound start k s) (grows_noteRound start k s))

instance (priority := low) [h : Proceeds p] : Alike g g' p p := .same h

instance (nt : Nonterminal) : Alike g g' (g nt) (g' nt) := .part nt

instance [hp : Alike g g' p p'] [hf : ∀ x, Alike g g' (f x) (f' x)] :
    Alike g g' (p >>= f) (p' >>= f') :=
  .bind hp hf

instance (h : α → β) [Alike g g' p p'] : Alike g g' (h <$> p) (h <$> p') :=
  inferInstanceAs (Alike g g' (p >>= fun a => pure (h a)) (p' >>= fun a => pure (h a)))

instance (c : Prop) [Decidable c] [Alike g g' p p'] [Alike g g' q q'] :
    Alike g g' (if c then p else q) (if c then p' else q') := by
  split <;> infer_instance

instance (change : ParseContext → ParseContext) [hp : Alike g g' p p'] :
    Alike g g' (withContext change p) (withContext change p') :=
  .withContext change hp

instance [Alike g g' p p'] : Alike g g' (allowIn p) (allowIn p') := by
  unfold allowIn
  infer_instance

instance [Alike g g' p p'] :
    Alike g g' (allowConditionalType p) (allowConditionalType p') := by
  unfold allowConditionalType
  infer_instance

instance [Alike g g' p p'] :
    Alike g g' (disallowConditionalType p) (disallowConditionalType p') := by
  unfold disallowConditionalType
  infer_instance

instance {substitute p p' : Parse Node} [hs : Proceeds substitute] [hp : Alike g g' p p'] :
    Alike g g' (nested substitute p) (nested substitute p') :=
  .nested hs hp

instance [hp : Alike g g' p p'] : Alike g g' (lookAhead p) (lookAhead p') := .lookAhead hp

instance {p p' : Parse (Option α)} [hp : Alike g g' p p'] : Alike g g' (attempt p) (attempt p') :=
  .attempt hp

instance {test test' : Parse Bool} [Alike g g' test test'] :
    Alike g g' (nextIs test) (nextIs test') := by
  unfold nextIs
  infer_instance

instance (test : Parse Bool) [Proceeds test] [Alike g g' p p'] :
    Alike g g' (when? test p) (when? test p') := by
  unfold when?
  infer_instance

instance (test : Parse Bool) [Proceeds test] [Alike g g' p p'] :
    Alike g g' (unless? test p) (unless? test p') := by
  unfold unless?
  infer_instance

instance (k : TokenKind) [Alike g g' p p'] : Alike g g' (after? k p) (after? k p') := by
  unfold after?
  infer_instance

instance (init : σ) (step step' : σ → Parse (ForInStep σ))
    [hstep : ∀ x, Alike g g' (step x) (step' x)]
    [hmoves : Progresses step] : Alike g g' (loop init step) (loop init step') :=
  .loop init hstep hmoves

instance (step step' : Parse (Option α × Bool)) [Alike g g' step step'] (rev : List α) :
    Alike g g' (collectStep step rev) (collectStep step' rev) := by
  unfold collectStep
  infer_instance

instance (step step' : Parse (Option α × Bool)) [Alike g g' step step'] [Gathers step] :
    Alike g g' (collect step) (collect step') := by
  unfold collect
  infer_instance

end

end Erasure.Parse

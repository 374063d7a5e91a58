import Erasure.Proofs.Parse.Proceeds

/-!
How far parsers get. A parser is followed from a position on: as long as it has not passed over a
token it stands on one that is not the end of the text, or nothing is known about the token. Once it
is past the position, it stays so.
-/

namespace Erasure

/-- A place and the context there. -/
structure Parse.Spot where
  place : Parse.Place
  context : ParseContext

def ParseState.spot (s : ParseState) : Parse.Spot := ⟨s.place, s.context⟩

namespace Parse

namespace Spot

def pos (a : Spot) : Nat := a.place.pos

def token (a : Spot) : TokenKind := a.place.scanner.token

end Spot

/-- At a position or behind it. -/
def since (n : Nat) (a : Spot) : Prop := n ≤ a.pos

/-- Behind a position, or at it on a token that can be passed over. -/
def live (n : Nat) (a : Spot) : Prop := n < a.pos ∨ n ≤ a.pos ∧ a.token ≠ .endOfFile

/-- Behind a position. -/
def past (n : Nat) (a : Spot) : Prop := n < a.pos

/-- Knowledge that later places keep. -/
class Lasting (A : Spot → Prop) : Prop where
  mono : ∀ {a b : Spot}, a.place.Reaches b.place → A a → A b

/-- Knowledge that implies a position. -/
class From (n : outParam Nat) (A : Spot → Prop) : Prop where
  le : ∀ {a : Spot}, A a → n ≤ a.pos

section
variable {n : Nat} {A : Spot → Prop}

instance : Lasting (since n) := ⟨fun h ha => le_trans ha h.pos_le⟩

instance : Lasting (past n) := ⟨fun h ha => lt_of_lt_of_le ha h.pos_le⟩

instance : Lasting (live n) := by
  refine ⟨fun {a b} h ha => ?_⟩
  obtain hlt | ⟨hle, hend⟩ := ha
  · exact .inl (hlt.trans_le h.pos_le)
  · by_cases hb : b.token = .endOfFile
    · exact .inl (hle.trans_lt (h.live hend hb))
    · exact .inr ⟨hle.trans h.pos_le, hb⟩

instance {B : Spot → Prop} [Lasting A] [Lasting B] : Lasting fun a => A a ∧ B a :=
  ⟨fun h ha => ⟨Lasting.mono h ha.1, Lasting.mono h ha.2⟩⟩

instance : From n (since n) := ⟨id⟩

instance : From n (live n) := ⟨fun h => h.elim Nat.le_of_lt And.left⟩

instance : From n (past n) := ⟨Nat.le_of_lt⟩

instance {B : Spot → Prop} [h : From n A] : From n fun a => A a ∧ B a := ⟨fun ha => h.le ha.1⟩

instance [h : From n A] : From n fun a => past n a ∨ A a := ⟨fun ha => ha.elim Nat.le_of_lt h.le⟩

end

section
variable {α β : Type}

/-- From a spot of which `A` is known the parser leads to one of which `B` is known. -/
def Leads (A : Spot → Prop) (p : Parse α) (B : α → Spot → Prop) : Prop :=
  ∀ s : ParseState, s.place.Ready → A s.spot → (p s).2.place.Ready ∧ B (p s).1 (p s).2.spot

/-- Where the result says to go on, a position is passed. -/
def moved (goesOn : α → Prop) (n : Nat) (x : α) (a : Spot) : Prop := goesOn x → past n a

variable {n : Nat} {A C : Spot → Prop} {B : β → Spot → Prop} {p q : Parse α} {f : α → Parse β}

theorem Stays.spot [hp : Stays p] (s : ParseState) : (p s).2.spot = s.spot := by
  unfold ParseState.spot
  rw [hp.place, (hp.proceeds.grows s).context]

theorem token_of_isToken {k : TokenKind} {s : ParseState} (h : (isToken k s).1 = true) :
    s.scanner.token = k :=
  of_decide_eq_true h

theorem mem_of_isOneOf {ks : List TokenKind} {s : ParseState} (h : (isOneOf ks s).1 = true) :
    s.scanner.token ∈ ks :=
  List.contains_iff_mem.mp h

theorem ne_of_atClose {close : TokenKind} {s : ParseState} (h : (atClose close s).1 = false) :
    s.scanner.token ≠ .endOfFile := by
  intro hend
  have hmem : s.scanner.token ∈ [close, .endOfFile] := by
    rw [hend]
    exact List.mem_cons_of_mem _ (List.mem_singleton_self _)
  exact absurd (h.symm.trans (List.contains_iff_mem.mpr hmem)) Bool.false_ne_true

namespace Leads

theorem weaken {R : α → Spot → Prop} (h : Leads C p R) (hA : ∀ a, A a → C a) : Leads A p R :=
  fun s hr hs => h s hr (hA _ hs)

theorem imp {R R' : α → Spot → Prop} (h : Leads A p R) (hR : ∀ x a, R x a → R' x a) :
    Leads A p R' :=
  fun s hr hs => ⟨(h s hr hs).1, hR _ _ (h s hr hs).2⟩

protected theorem pure {R : α → Spot → Prop} {x : α} (h : ∀ a, A a → R x a) :
    Leads A (pure x) R :=
  fun _ hr hs => ⟨hr, h _ hs⟩

/-- One of two things is known. -/
theorem either {R : α → Spot → Prop} (hA : Leads A p R) (hC : Leads C p R) :
    Leads (fun a => A a ∨ C a) p R :=
  fun s hr hs => hs.elim (hA s hr) (hC s hr)

protected theorem bind {R : α → Spot → Prop} (hp : Leads A p R)
    (hf : ∀ x, Leads (R x) (f x) B) : Leads A (p >>= f) B :=
  fun s hr hs => hf _ _ (hp s hr hs).1 (hp s hr hs).2

/-- Where nothing can stand nothing has to be shown. -/
theorem of_false {R : α → Spot → Prop} (hA : ∀ a, ¬ A a) : Leads A p R :=
  fun _ _ hs => (hA _ hs).elim

/-- What lasts is kept by any parser. -/
theorem keep (hp : Proceeds p) [Lasting A] : Leads A p fun _ => A :=
  fun s hr hs => ⟨(hp.follows s hr).ready, Lasting.mono (hp.reaches s hr) hs⟩

theorem step (hp : Proceeds p) [Lasting A] (hf : ∀ x, Leads A (f x) B) : Leads A (p >>= f) B :=
  .bind (.keep hp) hf

theorem stay [Stays p] (hf : ∀ x, Leads A (f x) B) : Leads A (p >>= f) B := by
  intro s hr hs
  refine hf _ _ ?_ ?_
  · rw [Stays.place]
    exact hr
  · rw [Stays.spot]
    exact hs

/-- A test tells something about the spot. -/
theorem ask [Stays p] {R : α → Spot → Prop} (hask : ∀ s, R (p s).1 s.spot)
    (hf : ∀ x, Leads (fun a => A a ∧ R x a) (f x) B) : Leads A (p >>= f) B := by
  intro s hr hs
  refine hf _ _ ?_ ?_
  · rw [Stays.place]
    exact hr
  · rw [Stays.spot]
    exact ⟨hs, hask s⟩

/-- The same where the test is made of others. -/
theorem learn [Stays p] {R : α → Spot → Prop}
    (hlearn : ∀ a, Leads (fun b => b = a) p fun x _ => R x a)
    (hf : ∀ x, Leads (fun a => A a ∧ R x a) (f x) B) : Leads A (p >>= f) B := by
  intro s hr hs
  refine hf _ _ ?_ ?_
  · rw [Stays.place]
    exact hr
  · rw [Stays.spot]
    exact ⟨hs, (hlearn s.spot s hr rfl).2⟩

protected theorem ite {R : α → Spot → Prop} {c : Prop} [Decidable c] (hp : c → Leads A p R)
    (hq : ¬ c → Leads A q R) : Leads A (if c then p else q) R := by
  split
  · exact hp ‹c›
  · exact hq ‹¬ c›

theorem branch {R : α → Spot → Prop} {b : Bool} (hp : b = true → Leads A p R)
    (hq : b = false → Leads A q R) : Leads A (if b = true then p else q) R :=
  .ite hp fun h => hq (Bool.eq_false_iff.mpr h)

protected theorem token {f : TokenKind → Parse β}
    (hf : ∀ k, Leads (fun a => A a ∧ a.token = k) (f k) B) : Leads A (token >>= f) B :=
  fun s hr hs => hf _ s hr ⟨hs, rfl⟩

/-- A parser stands on a token that can be passed over. -/
theorem alive [From n A] (hA : ∀ a, A a → a.token ≠ .endOfFile) {R : α → Spot → Prop}
    (h : Leads (live n) p R) : Leads A p R :=
  h.weaken fun _ ha => .inr ⟨From.le ha, hA _ ha⟩

theorem known {k : TokenKind} [From n A] (hk : k ≠ .endOfFile) {R : α → Spot → Prop}
    (h : Leads (live n) p R) : Leads (fun a => A a ∧ a.token = k) p R :=
  .alive (fun _ ha => by rw [ha.2]; exact hk) h

/-- A test that does not succeed at the end of the text. -/
theorem test {p : Parse Bool} {f : Bool → Parse β} [Stays p] [From n A]
    (hp : Leads (fun a => a.token = .endOfFile) p fun found _ => found = false)
    (hyes : Leads (live n) (f true) B) (hno : Leads A (f false) B) : Leads A (p >>= f) B := by
  intro s hr hs
  have hready : (p s).2.place.Ready := by
    rw [Stays.place]
    exact hr
  have hA : A (p s).2.spot := by
    rw [Stays.spot]
    exact hs
  cases hfound : (p s).1 with
  | true =>
      have hend : s.spot.token ≠ .endOfFile := fun hend => by
        have := (hp s hr hend).2
        rw [hfound] at this
        cases this
      have hlive : live n (p s).2.spot := by
        rw [Stays.spot]
        exact .inr ⟨From.le hs, hend⟩
      have h := hyes _ hready hlive
      rw [← hfound] at h
      exact h
  | false =>
      have h := hno _ hready hA
      rw [← hfound] at h
      exact h

/-- A test for a token, after which the token is known. -/
theorem onToken {k : TokenKind} {f : Bool → Parse β} [From n A]
    (hyes : Leads (fun a => since n a ∧ a.token = k) (f true) B) (hno : Leads A (f false) B) :
    Leads A (Parse.isToken k >>= f) B := by
  refine .ask (R := fun found a => found = true → a.token = k) (fun _ => token_of_isToken)
    fun found => ?_
  cases found with
  | true => exact hyes.weaken fun _ ha => ⟨From.le ha.1, ha.2 rfl⟩
  | false => exact hno.weaken fun _ ha => ha.1

theorem isToken {k : TokenKind} {f : Bool → Parse β} [From n A] (hk : k ≠ .endOfFile)
    (hyes : Leads (live n) (f true) B) (hno : Leads A (f false) B) :
    Leads A (Parse.isToken k >>= f) B :=
  .onToken (hyes.known hk) hno

/-- A list that is not at its end is not at the end of the text. -/
theorem atClose {close : TokenKind} {f : Bool → Parse β} [From n A] (hyes : Leads A (f true) B)
    (hno : Leads (live n) (f false) B) : Leads A (atClose close >>= f) B := by
  refine .ask (R := fun found a => found = false → a.token ≠ .endOfFile) (fun _ => ne_of_atClose)
    fun found => ?_
  cases found with
  | true => exact hyes.weaken fun _ ha => ha.1
  | false => exact hno.alive fun _ ha => ha.2 rfl

protected theorem advance {f : Unit → Parse β} (hf : Leads (past n) (f ()) B) :
    Leads (live n) (advance >>= f) B := by
  intro s hr hs
  have hscan := Place.Reaches.scan hr
  refine hf _ hscan.ready ?_
  obtain hlt | ⟨hle, hend⟩ := hs
  · exact hlt.trans_le hscan.pos_le
  · exact (hle.trans_lt (hr.scanner.start_lt_stop hend)).trans_le
      (Scanner.stop_le_start_scan s.scanner)

/-- If no token is passed over, the one to accept does not stand here. -/
theorem acceptOther {k : TokenKind} {f : Bool → Parse β} [From n A] (hk : k ≠ .endOfFile)
    (hyes : Leads (past n) (f true) B) (hno : Leads (fun a => A a ∧ a.token ≠ k) (f false) B) :
    Leads A (Parse.accept k >>= f) B := by
  refine .bind (R := fun found a => (found = true → past n a) ∧ (found = false → A a ∧ a.token ≠ k))
    ?_ fun found => ?_
  · unfold Parse.accept
    refine .ask (R := fun found a => found = decide (a.token = k)) (fun _ => rfl) fun found =>
      .branch (fun h => ?_) fun h => .pure fun a ha => ⟨nofun, fun _ => ⟨ha.1, ?_⟩⟩
    · refine .alive (fun a ha => ?_) (.advance (.pure fun _ ha => ⟨fun _ => ha, nofun⟩))
      rw [of_decide_eq_true (ha.2.symm.trans h)]
      exact hk
    · exact of_decide_eq_false (ha.2.symm.trans h)
  · cases found with
    | true => exact hyes.weaken fun _ ha => ha.1 rfl
    | false => exact hno.weaken fun _ ha => ha.2 rfl

protected theorem accept {k : TokenKind} {f : Bool → Parse β} [From n A] (hk : k ≠ .endOfFile)
    (hyes : Leads (past n) (f true) B) (hno : Leads A (f false) B) :
    Leads A (Parse.accept k >>= f) B :=
  .acceptOther hk hyes (hno.weaken fun _ => And.left)

-- A test that decides between two ways to go on.
section
variable {p q : Parse β} {k : TokenKind}

theorem ifToken [From n A] (hk : k ≠ .endOfFile) (hp : Leads (live n) p B) (hq : Leads A q B) :
    Leads A (Parse.isToken k >>= fun found => if found = true then p else q) B :=
  .isToken hk hp hq

theorem ifAtClose [From n A] (hp : Leads A p B) (hq : Leads (live n) q B) :
    Leads A (Parse.atClose k >>= fun found => if found = true then p else q) B :=
  .atClose hp hq

theorem ifAccept [From n A] (hk : k ≠ .endOfFile) (hp : Leads (past n) p B) (hq : Leads A q B) :
    Leads A (Parse.accept k >>= fun found => if found = true then p else q) B :=
  .accept hk hp hq

end

/-- The position where a part starts. -/
theorem start {f : Nat → Parse β} [From n A]
    (hf : ∀ start, n ≤ start → Leads (fun a => A a ∧ since start a) (f start) B) :
    Leads A (pos >>= f) B :=
  fun s hr hs => hf _ (From.le hs) s hr ⟨hs, le_rfl⟩

/-- If nothing was passed since a position, the current token is. -/
theorem guard {start : Nat} {R : α → Spot → Prop} (hstart : n ≤ start)
    (hp : Leads (past n) p R) : Leads (fun a => live n a ∧ since start a)
      (Parse.pos >>= fun here => if here = start then Parse.advance >>= fun _ => p else p) R := by
  refine .ask (R := fun here a => here = a.pos) (fun _ => rfl) fun here =>
    .ite (fun _ => ?_) fun h => ?_
  · exact .weaken (.advance hp) fun _ ha => ha.1.1
  · refine hp.weaken fun a ⟨⟨_, hsince⟩, hhere⟩ => lt_of_le_of_lt hstart ?_
    exact lt_of_le_of_ne hsince fun heq => h (hhere.trans heq.symm)

/-- The same where the end of the text is not passed over. -/
theorem guardUnlessEnded {start : Nat} {R : α → Spot → Prop} (hstart : n ≤ start)
    (hp : Leads (past n) p R) : Leads (fun a => live n a ∧ since start a)
      (Parse.pos >>= fun here => Parse.isToken .endOfFile >>= fun ended =>
        if (decide (here = start) && !ended) = true then Parse.advance >>= fun _ => p
        else p) R := by
  refine .ask (R := fun here a => here = a.pos) (fun _ => rfl) fun here =>
    .ask (R := fun ended a => ended = decide (a.token = .endOfFile)) (fun _ => rfl)
    fun ended => .ite (fun _ => ?_) fun h =>
      hp.weaken fun a ⟨⟨⟨hlive, hsince⟩, hhere⟩, hended⟩ => ?_
  · exact .weaken (.advance hp) fun _ ha => ha.1.1.1
  · obtain hlt | ⟨_, hend⟩ := hlive
    · exact hlt
    · refine lt_of_le_of_lt hstart (lt_of_le_of_ne hsince fun heq => h ?_)
      rw [hended, decide_eq_false hend, decide_eq_true (hhere.trans heq.symm)]
      rfl

/-- An attempt either ends where its parser ends, or gives nothing. -/
theorem attempt {p : Parse (Option α)} (hproceeds : Proceeds p)
    (hp : Leads A p (moved (fun x => x.isSome = true) n)) :
    Leads A (Parse.attempt p) (moved (fun x => x.isSome = true) n) := by
  intro s hr hs
  cases hx : (p s).1 with
  | some x =>
      rw [attempt_of_some hx]
      exact hp s hr hs
  | none =>
      rw [hproceeds.attempt_none hx]
      exact ⟨hr, nofun⟩

/-- What is required stands here. -/
protected theorem require {k : TokenKind} {f : Unit → Parse β} (hk : k ≠ .endOfFile)
    (hf : Leads (past n) (f ()) B) :
    Leads (fun a => since n a ∧ a.token = k) (require k >>= f) B := by
  refine .bind (R := fun _ => past n) ?_ fun _ => hf
  unfold Parse.require expect
  refine .bind (R := fun _ => past n) ?_ fun _ => .pure fun _ ha => ha
  unfold Parse.accept
  refine .bind (R := fun found a => found = true ∧ past n a) ?_ fun found => ?_
  · refine .ask (R := fun found a => found = decide (a.token = k)) (fun _ => rfl) fun found =>
      .branch (fun _ => ?_) fun h => .of_false fun a ha => ?_
    · refine .weaken (C := live n) (.advance (.pure fun _ ha => ⟨rfl, ha⟩)) fun a ha => ?_
      exact .inr ⟨ha.1.1, fun hend => hk (ha.1.2.symm.trans hend)⟩
    · rw [ha.2, decide_eq_true ha.1.2] at h
      cases h
  · refine .branch (fun _ => .pure fun _ ha => ha.2) fun h => .of_false fun a ha => ?_
    rw [ha.1] at h
    cases h

/-- Behind the position nothing more has to be known. -/
theorem rest {goesOn : α → Prop} (hp : Proceeds p) : Leads (past n) p (moved goesOn n) :=
  fun s hr hs => ⟨(hp.follows s hr).ready, fun _ => Lasting.mono (hp.reaches s hr) hs⟩

/-- The last round passes over nothing. -/
theorem stop {goesOn : α → Prop} {x : α} (h : ¬ goesOn x) : Leads A (pure x) (moved goesOn n) :=
  .pure fun _ _ hx => absurd hx h

end Leads

/-- The repetition has another round. -/
def yields {σ : Type} : ForInStep σ → Prop
  | .done _ => False
  | .yield _ => True

theorem Advances.of_leads {σ : Type} {step : σ → Parse (ForInStep σ)}
    (h : ∀ n x, Leads (since n) (step x) (moved yields n)) : Advances step where
  moves := fun {x y s} hr hy => by
    refine (h s.place.pos x s hr le_rfl).2 ?_
    rw [hy]
    trivial

/-- After a round that is not the last one a position is passed. -/
def round {σ : Type} (C : Spot → Prop) (n : Nat) : ForInStep σ → Spot → Prop
  | .done _, a => C a
  | .yield _, a => past n a

/-- What holds after the first round if it is the last one, and otherwise behind the position. -/
theorem Leads.loop {σ : Type} {step : σ → Parse (ForInStep σ)} {init : σ}
    (hstep : ∀ x, Proceeds (step x)) (hfirst : Leads A (step init) (round C n))
    (hpast : ∀ a, past n a → C a) : Leads A (Parse.loop init step) fun _ => C := by
  intro s hr hs
  obtain ⟨hready, hround⟩ := hfirst s hr hs
  show (iterate step (_ + 1) init s).2.place.Ready ∧ C (iterate step (_ + 1) init s).2.spot
  cases hx : (step init s).1 with
  | done y =>
      rw [iterate_of_done hx]
      rw [hx] at hround
      exact ⟨hready, hround⟩
  | yield y =>
      rw [iterate_of_yield hx]
      rw [hx] at hround
      have hnoted : (noteRound s.place.pos s.scanner.token (step init s).2).2.place.Ready := by
        rw [place_noteRound]
        exact hready
      have hreaches := iterate_reaches (fun x => (hstep x).reaches)
        (2 * s.scanner.source.utf8ByteSize + 15) y _ hnoted
      rw [place_noteRound] at hreaches
      exact ⟨hreaches.ready, hpast _ (Lasting.mono hreaches hround)⟩

/-- The same of a collection. -/
theorem Leads.collect {step : Parse (Option α × Bool)} (hstep : Proceeds step)
    (hfirst : Leads A step fun r a => if r.2 = true then C a else past n a)
    (hpast : ∀ a, past n a → C a) : Leads A (Parse.collect step) fun _ => C := by
  refine .bind (.loop (fun _ => inferInstance) (.bind hfirst fun r => ?_) hpast) fun _ =>
    .pure fun _ ha => ha
  cases h : r.2 <;> exact .pure fun _ ha => by simpa [h, round] using ha

/-- The collection has another round. -/
def gathers (r : Option α × Bool) : Prop := r.2 = false

theorem Gathers.of_leads {step : Parse (Option α × Bool)}
    (h : ∀ n, Leads (since n) step (moved gathers n)) : Gathers step where
  moves := fun {s} hr hy => (h s.place.pos s hr le_rfl).2 hy

end

end Parse
end Erasure

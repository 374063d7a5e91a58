import Erasure.Parse.State
import Erasure.Proofs.Token.Reached

/-!
Parsers are made of a few operations on the state: they look at it, go on to the next token, read
the current one anew, report errors and number nodes, and they run parts in another context, deeper,
on trial or again and again. Whatever is made of these goes on in the text or stays where it is,
only adds to what was found, and stands still in no repetition whose every round passes over a
token. Comments and errors are only put in front of those that were there before, and the depth and
the context are in the end what they were; so going back leads to the state before but for the
numbering of the nodes and the notes on limits.
-/

namespace Erasure

namespace ParseState

/-- One state has all that was found in the other one, and the same surroundings. -/
structure Grows (s t : ParseState) : Prop where
  source : t.scanner.source = s.scanner.source
  comments : s.scanner.commentsRev <:+ t.scanner.commentsRev
  lexical : s.scanner.errorsRev <:+ t.scanner.errorsRev
  errors : s.errorsRev <:+ t.errorsRev
  isTsx : t.isTsx = s.isTsx
  context : t.context = s.context
  depth : t.depth = s.depth
  reported : t.depthReported = false → s.depthReported = false
  stall : ∀ x ∈ s.stall?, x ∈ t.stall?

namespace Grows

variable {s t u : ParseState}

theorem refl (s : ParseState) : s.Grows s :=
  ⟨rfl, List.suffix_rfl, List.suffix_rfl, List.suffix_rfl, rfl, rfl, rfl, id, fun _ => id⟩

theorem trans (h : s.Grows t) (h' : t.Grows u) : s.Grows u :=
  ⟨h'.source.trans h.source, h.comments.trans h'.comments, h.lexical.trans h'.lexical,
    h.errors.trans h'.errors, h'.isTsx.trans h.isTsx, h'.context.trans h.context,
    h'.depth.trans h.depth, h.reported ∘ h'.reported,
    fun x hx => h'.stall x (h.stall x hx)⟩

theorem stall_none (h : s.Grows t) (hnone : t.stall? = none) : s.stall? = none :=
  Option.eq_none_iff_forall_not_mem.mpr fun x hx => nomatch hnone ▸ h.stall x hx

/-- Going on in the text. -/
theorem of_scanner {scanner : Scanner} {prevEnd : Nat} (hs : scanner.source = s.scanner.source)
    (hc : s.scanner.commentsRev <:+ scanner.commentsRev)
    (he : s.scanner.errorsRev <:+ scanner.errorsRev) :
    s.Grows { s with scanner, prevEnd } :=
  { refl s with source := hs, comments := hc, lexical := he }

theorem error (s : ParseState) (m : Message) (start length : Nat) (args : List String) :
    s.Grows (s.error m start length args) := by
  unfold ParseState.error
  dsimp only
  split
  · exact refl s
  · exact { refl s with errors := List.suffix_cons _ _ }

/-- What was added in another context was added in this one. -/
theorem inContext {c : ParseContext} (h : Grows { s with context := c } t) :
    s.Grows { t with context := s.context } :=
  { h with context := rfl }

/-- What was added one level deeper was added on this one. -/
theorem deeper (h : Grows { s with depth := s.depth + 1 } t) :
    s.Grows { t with depth := t.depth - 1 } :=
  { h with depth := by rw [h.depth]; rfl }

end Grows

/-- The part of a state that going back keeps: how many nodes there are, and what was noted. -/
def withNotes (s t : ParseState) : ParseState :=
  { s with nextId := t.nextId, depthReported := t.depthReported, stall? := t.stall? }

/-- Going back leaves no trace of what was read in between. -/
theorem Grows.restore {s t : ParseState} (h : s.Grows t) : t.restore s.save = s.withNotes t := by
  have hscanner : t.scanner.restore s.scanner.save = s.scanner :=
    Scanner.Extends.restore_save ⟨h.source, h.comments, h.lexical⟩
  simp only [ParseState.restore, save, withNotes, hscanner, Scanner.cutTo_of_suffix h.errors,
    h.isTsx, h.depth]

theorem Grows.withNotes {s t : ParseState} (h : s.Grows t) : s.Grows (s.withNotes t) :=
  { refl s with reported := h.reported, stall := h.stall }

end ParseState

/-- Where a parse stands: the scanner on the current token, and the end of the token before. -/
structure Parse.Place where
  scanner : Scanner
  prevEnd : Nat

namespace Parse.Place

/-- Where the current token starts. -/
def pos (a : Place) : Nat := a.scanner.start

structure Ready (a : Place) : Prop where
  scanner : a.scanner.Ready
  prevEnd_le : a.prevEnd ≤ a.pos

/-- A place that is not before another one. Only by going on is the end of the text reached, and
from there nothing leads on. -/
structure Reaches (a b : Place) : Prop where
  ready : b.Ready
  pos_le : a.pos ≤ b.pos
  live : a.scanner.token ≠ .endOfFile → b.scanner.token = .endOfFile → a.pos < b.pos
  ended : a.scanner.token = .endOfFile → b.scanner.token = .endOfFile ∧ b.pos = a.pos

namespace Reaches

variable {a b c : Place}

theorem refl (hr : a.Ready) : a.Reaches a :=
  ⟨hr, le_rfl, fun h h' => absurd h' h, fun h => ⟨h, rfl⟩⟩

theorem trans (h : a.Reaches b) (h' : b.Reaches c) : a.Reaches c where
  ready := h'.ready
  pos_le := h.pos_le.trans h'.pos_le
  live := fun ha hc => by
    by_cases hb : b.scanner.token = .endOfFile
    · exact (h.live ha hb).trans_le h'.pos_le
    · exact h.pos_le.trans_lt (h'.live hb hc)
  ended := fun ha =>
    ⟨(h'.ended (h.ended ha).1).1, (h'.ended (h.ended ha).1).2.trans (h.ended ha).2⟩

/-- Going on to the next token. -/
theorem scan (hr : a.Ready) : a.Reaches ⟨a.scanner.scan, a.scanner.stop⟩ where
  ready := ⟨hr.scanner.scan, Scanner.stop_le_start_scan a.scanner⟩
  pos_le := hr.scanner.start_le_stop.trans (Scanner.stop_le_start_scan a.scanner)
  live := fun hend _ =>
    (hr.scanner.start_lt_stop hend).trans_le (Scanner.stop_le_start_scan a.scanner)
  ended := hr.scanner.stands.scan_endOfFile

/-- Reading the current token anew. -/
theorem of_rereads (hr : a.Ready) {scanner : Scanner} (h : a.scanner.Rereads scanner)
    (hready : scanner.Ready) : a.Reaches ⟨scanner, a.prevEnd⟩ := by
  have hpos : scanner.start = a.scanner.start := by rw [Scanner.start, h.tokenStart, Scanner.start]
  have hend := h.endOfFile_iff hr.scanner.stands
  exact ⟨⟨hready, hr.prevEnd_le.trans hpos.ge⟩, hpos.ge, fun ha hb => absurd (hend.mp hb) ha,
    fun ha => ⟨hend.mpr ha, hpos⟩⟩

end Reaches

/-- A bound on the positions to come. -/
def ahead (a : Place) : Nat :=
  if a.scanner.token = .endOfFile then 0 else a.scanner.source.utf8ByteSize - a.pos

theorem ahead_le_size (a : Place) : a.ahead ≤ a.scanner.source.utf8ByteSize := by
  unfold ahead
  split
  · exact Nat.zero_le _
  · exact Nat.sub_le _ _

theorem ahead_lt {a b : Place} (hr : a.Ready) (h : a.Reaches b)
    (hs : b.scanner.source = a.scanner.source) (hlt : a.pos < b.pos) : b.ahead < a.ahead := by
  have hend : a.scanner.token ≠ .endOfFile := fun ha => absurd (h.ended ha).2 hlt.ne'
  have hsize : a.pos < a.scanner.source.utf8ByteSize := hr.scanner.start_lt_size hend
  unfold ahead
  rw [if_neg hend, hs]
  split <;> omega

end Parse.Place

namespace ParseState

open Parse

def place (s : ParseState) : Place := ⟨s.scanner, s.prevEnd⟩

/-- A state that parsing can reach from another one. -/
structure Follows (s t : ParseState) : Prop where
  grows : s.Grows t
  reaches : s.place.Reaches t.place

namespace Follows

variable {s t u : ParseState}

theorem ready (h : s.Follows t) : t.place.Ready := h.reaches.ready

theorem pos_le (h : s.Follows t) : s.place.pos ≤ t.place.pos := h.reaches.pos_le

theorem trans (h : s.Follows t) (h' : t.Follows u) : s.Follows u :=
  ⟨h.grows.trans h'.grows, h.reaches.trans h'.reaches⟩

/-- Only what was found changes. -/
theorem of_place (hr : s.place.Ready) (hp : t.place = s.place) (hg : s.Grows t) : s.Follows t :=
  ⟨hg, by rw [hp]; exact .refl hr⟩

theorem refl (hr : s.place.Ready) : s.Follows s := of_place hr rfl (.refl s)

theorem inContext {c : ParseContext} (h : Follows { s with context := c } t) :
    s.Follows { t with context := s.context } :=
  ⟨h.grows.inContext, h.reaches⟩

theorem deeper (h : Follows { s with depth := s.depth + 1 } t) :
    s.Follows { t with depth := t.depth - 1 } :=
  ⟨h.grows.deeper, h.reaches⟩

theorem restore (hr : s.place.Ready) (h : s.Follows t) : s.Follows (t.restore s.save) := by
  rw [h.grows.restore]
  exact of_place hr rfl h.grows.withNotes

end Follows

theorem place_error (s : ParseState) (m : Message) (start length : Nat) (args : List String) :
    (s.error m start length args).place = s.place := by
  unfold error
  dsimp only
  split <;> rfl

theorem stall_error (s : ParseState) (m : Message) (start length : Nat) (args : List String) :
    (s.error m start length args).stall? = s.stall? := by
  unfold error
  dsimp only
  split <;> rfl

end ParseState

namespace Parse

section
variable {α σ : Type} {s : ParseState}

theorem reportDepth_of_reported (h : s.depthReported = true) : reportDepth s = ((), s) := by
  simp only [reportDepth, bind, StateT.bind, get, getThe, MonadStateOf.get, StateT.get, pure, h]
  rfl

theorem reportDepth_of_not_reported (h : s.depthReported = false) :
    reportDepth s = errorHere .expressionExpected [] { s with depthReported := true } := by
  simp only [reportDepth, bind, StateT.bind, get, getThe, MonadStateOf.get, StateT.get, pure, h]
  rfl

theorem grows_reportDepth (s : ParseState) : s.Grows (reportDepth s).2 := by
  cases hd : s.depthReported with
  | true =>
      rw [reportDepth_of_reported hd]
      exact .refl s
  | false =>
      rw [reportDepth_of_not_reported hd]
      refine .trans (t := { s with depthReported := true }) ?_ (.error _ _ _ _ _)
      exact { ParseState.Grows.refl s with reported := nofun }

theorem stall_reportDepth (s : ParseState) : (reportDepth s).2.stall? = s.stall? := by
  cases hd : s.depthReported with
  | true => rw [reportDepth_of_reported hd]
  | false =>
      rw [reportDepth_of_not_reported hd]
      exact ParseState.stall_error _ _ _ _ _

theorem place_reportDepth (s : ParseState) : (reportDepth s).2.place = s.place := by
  cases hd : s.depthReported with
  | true => rw [reportDepth_of_reported hd]
  | false =>
      rw [reportDepth_of_not_reported hd]
      exact ParseState.place_error _ _ _ _ _

theorem withContext_eq (change : ParseContext → ParseContext) (p : Parse α) (s : ParseState) :
    withContext change p s = ((p { s with context := change s.context }).1,
      { (p { s with context := change s.context }).2 with context := s.context }) := rfl

/-- At the limit the substitute takes the place of what is not read. -/
theorem nested_of_limit {substitute p : Parse Node} (h : Limits.nesting ≤ s.depth) :
    nested substitute p s = substitute (reportDepth s).2 := by
  show (ite _ _ _ : Parse Node) s = _
  rw [if_pos h]
  rfl

theorem nested_of_lt {substitute p : Parse Node} (h : s.depth < Limits.nesting) :
    nested substitute p s =
      ((p { s with depth := s.depth + 1 }).1, { (p { s with depth := s.depth + 1 }).2 with
        depth := (p { s with depth := s.depth + 1 }).2.depth - 1 }) := by
  show (ite _ _ _ : Parse Node) s = _
  rw [if_neg (Nat.not_le.mpr h)]
  rfl

theorem attempt_of_some {p : Parse (Option α)} {x : α} (h : (p s).1 = some x) :
    attempt p s = p s := by
  unfold attempt
  split <;> rename_i heq <;> rw [heq] at h ⊢
  cases h

theorem attempt_of_none {p : Parse (Option α)} (h : (p s).1 = none) :
    attempt p s = (none, (p s).2.restore s.save) := by
  unfold attempt
  split <;> rename_i heq <;> rw [heq] at h ⊢
  cases h

theorem iterate_run (step : σ → Parse (ForInStep σ)) (fuel : Nat) (x : σ) (s : ParseState) :
    iterate step (fuel + 1) x s =
      (match (step x s).1 with
      | .done y => pure y
      | .yield y => do
        noteRound s.place.pos s.scanner.token
        iterate step fuel y : Parse σ) (step x s).2 :=
  rfl

theorem iterate_of_done {step : σ → Parse (ForInStep σ)} {fuel : Nat} {x y : σ}
    (h : (step x s).1 = .done y) : iterate step (fuel + 1) x s = (y, (step x s).2) := by
  rw [iterate_run, h]
  rfl

theorem iterate_of_yield {step : σ → Parse (ForInStep σ)} {fuel : Nat} {x y : σ}
    (h : (step x s).1 = .yield y) : iterate step (fuel + 1) x s =
      iterate step fuel y (noteRound s.place.pos s.scanner.token (step x s).2).2 := by
  rw [iterate_run, h]
  rfl

theorem noteRound_of_eq {start : Nat} {k : TokenKind} (h : s.place.pos = start) :
    noteRound start k s = noteStall (some (.standing k)) s := by
  show noteStall (if s.place.pos = start then some (.standing k) else none) s = _
  rw [if_pos h]

theorem noteRound_of_ne {start : Nat} {k : TokenKind} (h : s.place.pos ≠ start) :
    noteRound start k s = ((), s) := by
  show noteStall (if s.place.pos = start then some (.standing k) else none) s = _
  rw [if_neg h]
  show ((), { s with stall? := s.stall?.or none }) = _
  rw [Option.or_none]

theorem grows_noteStall (stall? : Option Stall) (s : ParseState) :
    s.Grows (noteStall stall? s).2 := by
  refine { ParseState.Grows.refl s with stall := fun x hx => ?_ }
  show x ∈ s.stall?.or stall?
  rw [Option.mem_def.mp hx]
  rfl

theorem place_noteRound (start : Nat) (k : TokenKind) (s : ParseState) :
    (noteRound start k s).2.place = s.place :=
  rfl

theorem grows_noteRound (start : Nat) (k : TokenKind) (s : ParseState) :
    s.Grows (noteRound start k s).2 :=
  grows_noteStall _ s

/-- What a step and its note do, a repetition does. -/
theorem iterate_rel {R : ParseState → ParseState → Prop}
    (htrans : ∀ {s t u}, R s t → R t u → R s u) {step : σ → Parse (ForInStep σ)}
    (hstep : ∀ x s, R s (step x s).2) (hstall : ∀ stall? s, R s (noteStall stall? s).2)
    (fuel : Nat) (x : σ) (s : ParseState) : R s (iterate step fuel x s).2 := by
  induction fuel generalizing x s with
  | zero => exact hstall _ s
  | succ fuel ih =>
      have hround := hstep x s
      cases hr : (step x s).1 with
      | done y =>
          rw [iterate_of_done hr]
          exact hround
      | yield y =>
          rw [iterate_of_yield hr]
          exact htrans (htrans hround (hstall _ _)) (ih _ _)

theorem grows_iterate {step : σ → Parse (ForInStep σ)}
    (hstep : ∀ x (s : ParseState), s.Grows (step x s).2)
    (fuel : Nat) (x : σ) (s : ParseState) : s.Grows (iterate step fuel x s).2 :=
  iterate_rel .trans hstep grows_noteStall fuel x s

theorem iterate_reaches {step : σ → Parse (ForInStep σ)}
    (hstep : ∀ x (s : ParseState), s.place.Ready → s.place.Reaches (step x s).2.place)
    (fuel : Nat) (x : σ) (s : ParseState) (hr : s.place.Ready) :
    s.place.Reaches (iterate step fuel x s).2.place :=
  iterate_rel (R := fun s t => s.place.Ready → s.place.Reaches t.place)
    (fun h h' hr => (h hr).trans (h' (h hr).ready)) hstep (fun _ _ => .refl) fuel x s hr

end

/-- Words that can be modifiers, but none of a parameter, and that are no names. -/
def isStrayModifier : TokenKind → Bool
  | .constKw | .defaultKw | .exportKw | .inKw => true
  | _ => false

/-- Every round that is not the last one passes over a token. -/
class Advances {σ : Type} (step : σ → Parse (ForInStep σ)) : Prop where
  moves : ∀ {x y : σ} {s : ParseState}, s.place.Ready → (step x s).1 = .yield y →
    s.place.pos < (step x s).2.place.pos

/-- The same of all rounds but those that begin on a stray modifier. -/
class Progresses {σ : Type} (step : σ → Parse (ForInStep σ)) : Prop where
  moves : ∀ {x y : σ} {s : ParseState}, s.place.Ready → (step x s).1 = .yield y →
    s.place.pos < (step x s).2.place.pos ∨ isStrayModifier s.scanner.token = true

instance {σ : Type} (step : σ → Parse (ForInStep σ)) [h : Advances step] : Progresses step :=
  ⟨fun hr hy => .inl (h.moves hr hy)⟩

/-- The parsers: what is made of the operations on the state. -/
class inductive Proceeds : {α : Type} → Parse α → Prop where
  | reads {α : Type} (f : ParseState → α) : Proceeds (α := α) fun s => (f s, s)
  | bind {α β : Type} {p : Parse α} {f : α → Parse β} (hp : Proceeds p)
      (hf : ∀ x, Proceeds (f x)) : Proceeds (p >>= f)
  | advance : Proceeds advance
  | rescanGreater : Proceeds rescanGreater
  | rescanSlash : Proceeds rescanSlash
  | rescanTemplate : Proceeds rescanTemplate
  | errorAt (m : Message) (span : Span) (args : List String) : Proceeds (errorAt m span args)
  | reportDepth : Proceeds reportDepth
  | freshId : Proceeds freshId
  | finish (start : Nat) (form : Form) : Proceeds (finish start form)
  | withContext {α : Type} {p : Parse α} (change : ParseContext → ParseContext)
      (hp : Proceeds p) : Proceeds (withContext change p)
  | nested {substitute p : Parse Node} (hs : Proceeds substitute) (hp : Proceeds p) :
      Proceeds (nested substitute p)
  | lookAhead {α : Type} {p : Parse α} (hp : Proceeds p) : Proceeds (lookAhead p)
  | attempt {α : Type} {p : Parse (Option α)} (hp : Proceeds p) : Proceeds (attempt p)
  | loop {σ : Type} {step : σ → Parse (ForInStep σ)} (init : σ) (hstep : ∀ x, Proceeds (step x))
      (hmoves : Progresses step) : Proceeds (loop init step)

namespace Proceeds

variable {α : Type} {p : Parse α}

theorem grows (h : Proceeds p) (s : ParseState) : s.Grows (p s).2 := by
  induction h generalizing s with
  | reads f => exact .refl s
  | bind _ _ ihp ihf => exact (ihp s).trans (ihf _ _)
  | advance =>
      have hscan := (Scanner.scan_spec s.scanner).1
      exact .of_scanner hscan.source hscan.comments hscan.errors
  | rescanGreater =>
      have hscan := Scanner.rescanGreater_rereads s.scanner
      exact .of_scanner hscan.source hscan.comments hscan.errors
  | rescanSlash =>
      have hscan := Scanner.rescanSlash_rereads s.scanner
      exact .of_scanner hscan.source hscan.comments hscan.errors
  | rescanTemplate =>
      have hscan := Scanner.rescanTemplate_rereads s.scanner
      exact .of_scanner hscan.source hscan.comments hscan.errors
  | errorAt m span args => exact .error s m span.start span.length args
  | reportDepth => exact grows_reportDepth s
  | freshId => exact { ParseState.Grows.refl s with }
  | finish start form => exact { ParseState.Grows.refl s with }
  | withContext change _ ih => exact (ih { s with context := change s.context }).inContext
  | nested _ _ ihs ihp =>
      by_cases hd : s.depth < Limits.nesting
      · rw [nested_of_lt hd]
        exact (ihp { s with depth := s.depth + 1 }).deeper
      · rw [nested_of_limit (Nat.le_of_not_lt hd)]
        exact (grows_reportDepth s).trans (ihs _)
  | lookAhead _ ih =>
      show s.Grows (ParseState.restore _ s.save)
      rw [(ih s).restore]
      exact (ih s).withNotes
  | attempt _ ih =>
      rename_i p _
      cases hr : (p s).1 with
      | some x => rw [attempt_of_some hr]; exact ih s
      | none =>
          rw [attempt_of_none hr, (ih s).restore]
          exact (ih s).withNotes
  | loop init _ _ ih =>
      exact grows_iterate ih _ init s

theorem lookAhead_state (h : Proceeds p) (s : ParseState) :
    (Parse.lookAhead p s).2 = s.withNotes (p s).2 :=
  (h.grows s).restore

theorem attempt_none {p : Parse (Option α)} (h : Proceeds p) {s : ParseState}
    (hr : (p s).1 = none) : Parse.attempt p s = (none, s.withNotes (p s).2) := by
  rw [attempt_of_none hr, (h.grows s).restore]

theorem reaches (h : Proceeds p) (s : ParseState) (hr : s.place.Ready) :
    s.place.Reaches (p s).2.place := by
  induction h generalizing s with
  | reads | freshId | finish => exact .refl hr
  | bind _ _ ihp ihf => exact (ihp s hr).trans (ihf _ _ (ihp s hr).ready)
  | advance => exact .scan hr
  | rescanGreater =>
      exact .of_rereads hr (Scanner.rescanGreater_rereads _) hr.scanner.rescanGreater
  | rescanSlash => exact .of_rereads hr (Scanner.rescanSlash_rereads _) hr.scanner.rescanSlash
  | rescanTemplate =>
      exact .of_rereads hr (Scanner.rescanTemplate_rereads _) hr.scanner.rescanTemplate
  | errorAt m span args =>
      show s.place.Reaches (s.error m span.start span.length args).place
      rw [ParseState.place_error]
      exact .refl hr
  | reportDepth =>
      show s.place.Reaches (Parse.reportDepth s).2.place
      rw [place_reportDepth]
      exact .refl hr
  | withContext change _ ih => exact ih { s with context := change s.context } hr
  | nested _ _ ihs ihp =>
      by_cases hd : s.depth < Limits.nesting
      · rw [nested_of_lt hd]
        exact ihp { s with depth := s.depth + 1 } hr
      · rw [nested_of_limit (Nat.le_of_not_lt hd)]
        have h := ihs (Parse.reportDepth s).2 (by rw [place_reportDepth]; exact hr)
        rwa [place_reportDepth] at h
  | lookAhead hp _ =>
      rw [hp.lookAhead_state]
      exact .refl hr
  | attempt hp ih =>
      rename_i p
      cases hx : (p s).1 with
      | some x => rw [attempt_of_some hx]; exact ih s hr
      | none => rw [hp.attempt_none hx]; exact .refl hr
  | loop init _ _ ih =>
      exact iterate_reaches ih _ init s hr

theorem follows (h : Proceeds p) (s : ParseState) (hr : s.place.Ready) : s.Follows (p s).2 :=
  ⟨h.grows s, h.reaches s hr⟩

/-- What is kept where a token is passed over or read anew is kept by every parser. -/
theorem keeps {P : Place → Prop}
    (hadvance : ∀ s : ParseState, s.place.Ready → P s.place → P (Parse.advance s).2.place)
    (hreread : ∀ (a : Place) (t : Scanner), a.scanner.Rereads t → P a → P { a with scanner := t })
    (h : Proceeds p) (s : ParseState) (hr : s.place.Ready) (hs : P s.place) :
    P (p s).2.place := by
  induction h generalizing s with
  | reads | freshId | finish => exact hs
  | bind hp _ ihp ihf => exact ihf _ _ (hp.follows s hr).ready (ihp s hr hs)
  | advance => exact hadvance s hr hs
  | rescanGreater => exact hreread _ _ (Scanner.rescanGreater_rereads _) hs
  | rescanSlash => exact hreread _ _ (Scanner.rescanSlash_rereads _) hs
  | rescanTemplate => exact hreread _ _ (Scanner.rescanTemplate_rereads _) hs
  | errorAt m span args =>
      show P (s.error m span.start span.length args).place
      rwa [ParseState.place_error]
  | reportDepth =>
      show P (Parse.reportDepth s).2.place
      rwa [place_reportDepth]
  | withContext change _ ih => exact ih { s with context := change s.context } hr hs
  | nested _ _ ihs ihp =>
      by_cases hd : s.depth < Limits.nesting
      · rw [nested_of_lt hd]
        exact ihp { s with depth := s.depth + 1 } hr hs
      · rw [nested_of_limit (Nat.le_of_not_lt hd)]
        have hplace := place_reportDepth s
        exact ihs _ (by rwa [hplace]) (by rwa [hplace])
  | lookAhead hp _ =>
      rw [hp.lookAhead_state]
      exact hs
  | attempt hp ih =>
      rename_i p
      cases hx : (p s).1 with
      | some x => rw [attempt_of_some hx]; exact ih s hr hs
      | none => rw [hp.attempt_none hx]; exact hs
  | loop init hstep _ ih =>
      refine (iterate_rel (R := fun s t => s.place.Ready → P s.place → t.place.Ready ∧ P t.place)
        (fun h h' hr hs => ?_) (fun x s hr hs => ⟨((hstep x).follows s hr).ready, ih x s hr hs⟩)
        (fun _ s hr hs => ⟨hr, hs⟩) _ init s hr hs).2
      obtain ⟨hr, hs⟩ := h hr hs
      exact h' hr hs

end Proceeds

/-- A parser whose results all meet a condition. -/
def Results {α : Type} (P : α → Prop) (p : Parse α) : Prop := ∀ s : ParseState, P (p s).1

namespace Results

variable {α β : Type} {P : α → Prop} {p q : Parse α}

protected theorem pure {x : α} (h : P x) : Results P (pure x) := fun _ => h

/-- Only the result of the last part counts. -/
theorem last {p : Parse β} {f : β → Parse α} (hf : ∀ x, Results P (f x)) : Results P (p >>= f) :=
  fun s => hf _ (p s).2

protected theorem ite {c : Prop} [Decidable c] (hp : Results P p) (hq : Results P q) :
    Results P (if c then p else q) := by
  split
  · exact hp
  · exact hq

end Results

end Parse

/-- No repetition stalled, unless it stood still on a stray modifier. -/
def ParseState.Settled (s : ParseState) : Prop :=
  ∀ x ∈ s.stall?, ∃ k, x = .standing k ∧ Parse.isStrayModifier k = true

namespace Parse

/-- Only the first stall is noted. -/
theorem settled_noteStall {s : ParseState} {x : Stall} (hs : s.Settled)
    (h : s.stall? = none → ∃ k, x = .standing k ∧ isStrayModifier k = true) :
    (noteStall (some x) s).2.Settled := by
  intro x' hx
  have hx : x' ∈ s.stall?.or (some x) := hx
  cases hnote : s.stall? with
  | some _ =>
      rw [hnote] at hx
      exact hs x' (hnote ▸ hx)
  | none =>
      rw [hnote] at hx
      cases hx
      exact h hnote

/-- A repetition ends before its rounds are used up, as there are no more of them than positions,
or it stands still on a stray modifier, which is noted. -/
theorem settled_iterate {σ : Type} {step : σ → Parse (ForInStep σ)}
    (hstep : ∀ x, Proceeds (step x)) (hmoves : Progresses step)
    (hsettled : ∀ x s, s.place.Ready → s.Settled → (step x s).2.Settled) (fuel : Nat) (x : σ)
    (s : ParseState) (hr : s.place.Ready) (hs : s.Settled)
    (hfuel : s.stall? = none → s.place.ahead < fuel) :
    (iterate step fuel x s).2.Settled := by
  induction fuel generalizing x s with
  | zero =>
      exact settled_noteStall hs fun hnone => absurd (hfuel hnone) (Nat.not_lt_zero _)
  | succ fuel ih =>
      have hround := (hstep x).follows s hr
      have ht := hsettled x s hr hs
      cases hx : (step x s).1 with
      | done y =>
          rw [iterate_of_done hx]
          exact ht
      | yield y =>
          rw [iterate_of_yield hx]
          by_cases hpos : (step x s).2.place.pos = s.place.pos
          · have hstray := (hmoves.moves hr hx).resolve_left (by omega)
            rw [noteRound_of_eq hpos]
            refine ih y _ hround.ready
              (settled_noteStall ht fun _ => ⟨_, rfl, hstray⟩) fun hnone => ?_
            exact absurd (Option.or_eq_none_iff.mp hnone).2 (Option.some_ne_none _)
          · rw [noteRound_of_ne hpos]
            refine ih y _ hround.ready ht fun hnone => ?_
            have hlt : s.place.pos < (step x s).2.place.pos :=
              lt_of_le_of_ne hround.pos_le fun h => hpos h.symm
            exact (Place.ahead_lt hr hround.reaches hround.grows.source hlt).trans_le
              (Nat.le_of_lt_succ (hfuel (hround.grows.stall_none hnone)))

theorem Proceeds.settled {α : Type} {p : Parse α} (h : Proceeds p) (s : ParseState)
    (hr : s.place.Ready) (hs : s.Settled) : (p s).2.Settled := by
  induction h generalizing s with
  | reads | freshId | finish | advance | rescanGreater | rescanSlash | rescanTemplate => exact hs
  | bind hp _ ihp ihf => exact ihf _ _ (hp.follows s hr).ready (ihp s hr hs)
  | errorAt m span args =>
      intro k hk
      exact hs k (ParseState.stall_error s m span.start span.length args ▸ hk)
  | reportDepth =>
      intro k hk
      exact hs k (stall_reportDepth s ▸ hk)
  | withContext change _ ih => exact ih { s with context := change s.context } hr hs
  | nested _ _ ihs ihp =>
      by_cases hd : s.depth < Limits.nesting
      · rw [nested_of_lt hd]
        exact ihp { s with depth := s.depth + 1 } hr hs
      · rw [nested_of_limit (Nat.le_of_not_lt hd)]
        refine ihs _ (by rw [place_reportDepth]; exact hr) fun k hk => ?_
        exact hs k (stall_reportDepth s ▸ hk)
  | lookAhead hp ih =>
      rw [hp.lookAhead_state]
      exact ih s hr hs
  | attempt hp ih =>
      rename_i p
      cases hx : (p s).1 with
      | some x => rw [attempt_of_some hx]; exact ih s hr hs
      | none => rw [hp.attempt_none hx]; exact ih s hr hs
  | loop init hstep hmoves ih =>
      refine settled_iterate hstep hmoves ih _ init s hr hs fun _ => ?_
      have : s.place.ahead ≤ s.scanner.source.utf8ByteSize := s.place.ahead_le_size
      omega

section
variable {α β σ : Type} {p q : Parse α} {f : α → Parse β}

/-- The parser stays where it is: it looks at the tokens, reports errors or numbers nodes. -/
class Stays (p : Parse α) : Prop where
  proceeds : Proceeds p
  place : ∀ s : ParseState, (p s).2.place = s.place

instance (priority := low) [h : Stays p] : Proceeds p := h.proceeds

/-- A parser that changes nothing. -/
theorem Stays.of_same (h : ∀ s, (p s).2 = s) : Stays p where
  proceeds := by
    have heq : p = fun s => ((p s).1, s) := funext fun s => Prod.ext rfl (h s)
    rw [heq]
    exact .reads _
  place := fun s => by rw [h s]

theorem Stays.bind (hp : Stays p) (hf : ∀ a, Stays (f a)) : Stays (p >>= f) where
  proceeds := .bind hp.proceeds fun a => (hf a).proceeds
  place := fun s => ((hf _).place _).trans (hp.place s)

instance [hp : Proceeds p] [hf : ∀ a, Proceeds (f a)] : Proceeds (p >>= f) := .bind hp hf

instance [hp : Stays p] [hf : ∀ a, Stays (f a)] : Stays (p >>= f) := .bind hp hf

instance (a : α) : Stays (pure a : Parse α) := .of_same fun _ => rfl

instance : Stays (get : Parse ParseState) := .of_same fun _ => rfl

instance (c : Prop) [Decidable c] [Proceeds p] [Proceeds q] : Proceeds (if c then p else q) := by
  split <;> infer_instance

instance (c : Prop) [Decidable c] [Stays p] [Stays q] : Stays (if c then p else q) := by
  split <;> infer_instance

instance (f : α → β) [Proceeds p] : Proceeds (f <$> p) :=
  inferInstanceAs (Proceeds (p >>= fun a => pure (f a)))

instance : Proceeds advance := .advance

instance : Proceeds rescanGreater := .rescanGreater

instance : Proceeds rescanSlash := .rescanSlash

instance : Proceeds rescanTemplate := .rescanTemplate

instance (m : Message) (span : Span) (args : List String) : Stays (errorAt m span args) where
  proceeds := .errorAt m span args
  place := fun s => s.place_error _ _ _ _

instance : Stays pos := .of_same fun _ => rfl

instance : Stays tokenSpan := .of_same fun _ => rfl

instance : Stays token := .of_same fun _ => rfl

instance : Stays stop := .of_same fun _ => rfl

instance : Stays tokenText := .of_same fun _ => rfl

instance : Stays tokenValue := .of_same fun _ => rfl

instance : Stays afterLineBreak := .of_same fun _ => rfl

instance : Stays errorCount := .of_same fun _ => rfl

instance : Stays context := .of_same fun _ => rfl

instance (k : TokenKind) : Stays (isToken k) := .of_same fun _ => rfl

instance (ks : List TokenKind) : Stays (isOneOf ks) := .of_same fun _ => rfl

instance (close : TokenKind) : Stays (atClose close) := by unfold atClose; infer_instance

instance (m : Message) (args : List String) : Stays (errorHere m args) := by
  unfold errorHere
  infer_instance

instance : Stays reportDepth := ⟨.reportDepth, place_reportDepth⟩

instance : Stays freshId := ⟨.freshId, fun _ => rfl⟩

instance (start : Nat) (form : Form) : Stays (finish start form) :=
  ⟨.finish start form, fun _ => rfl⟩

instance [hp : Proceeds p] : Stays (lookAhead p) where
  proceeds := .lookAhead hp
  place := fun s => by
    rw [hp.lookAhead_state]
    rfl

instance {p : Parse (Option α)} [hp : Proceeds p] : Proceeds (attempt p) := .attempt hp

instance (change : ParseContext → ParseContext) [hp : Proceeds p] :
    Proceeds (withContext change p) :=
  .withContext change hp

instance [Proceeds p] : Proceeds (allowIn p) := by unfold allowIn; infer_instance

instance [Proceeds p] : Proceeds (allowConditionalType p) := by
  unfold allowConditionalType
  infer_instance

instance [Proceeds p] : Proceeds (disallowConditionalType p) := by
  unfold disallowConditionalType
  infer_instance

instance (init : σ) (step : σ → Parse (ForInStep σ)) [hstep : ∀ x, Proceeds (step x)]
    [hmoves : Progresses step] : Proceeds (loop init step) :=
  .loop init hstep hmoves

/-- Every step of a collection that is not the last one passes over a token. -/
class Gathers (step : Parse (Option α × Bool)) : Prop where
  moves : ∀ {s : ParseState}, s.place.Ready → (step s).1.2 = false →
    s.place.pos < (step s).2.place.pos

instance (step : Parse (Option α × Bool)) [h : Gathers step] : Advances (collectStep step) where
  moves := fun {rev y s} hr hy => by
    refine h.moves hr ?_
    have hy : (if (step s).1.2 then ForInStep.done ((step s).1.1.toList ++ rev)
      else .yield ((step s).1.1.toList ++ rev)) = .yield y := hy
    cases hdone : (step s).1.2 with
    | true =>
        rw [hdone] at hy
        cases hy
    | false => rfl

instance (step : Parse (Option α × Bool)) [Proceeds step] (rev : List α) :
    Proceeds (collectStep step rev) := by
  unfold collectStep
  infer_instance

instance (step : Parse (Option α × Bool)) [Proceeds step] [Gathers step] :
    Proceeds (collect step) := by
  unfold collect
  infer_instance

end

end Parse
end Erasure

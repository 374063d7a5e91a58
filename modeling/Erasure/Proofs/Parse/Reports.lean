import Erasure.Proofs.Parse.Alike.Grammar

/-!
Where errors are reported. The parser keeps an error apart from the one that it reported last and
from the lexical errors that were found last. If all errors are reported from left to right, and the
scanner finds each behind all that was reported before, then no two of them are at one position. An
error that is reported further back, behind another one, is only kept apart from that one.
-/

namespace Erasure

/-- An error as it came about: reported by the parser, or found by the scanner. -/
inductive ErrorReport where
  | parser (d : Diagnostic)
  | lexical (d : Diagnostic)

namespace ErrorReport

def diagnostic : ErrorReport → Diagnostic
  | parser d | lexical d => d

def start (r : ErrorReport) : Nat := r.diagnostic.start

def parser? : ErrorReport → Option Diagnostic
  | parser d => some d
  | lexical _ => none

def lexical? : ErrorReport → Option Diagnostic
  | parser _ => none
  | lexical d => some d

/-- A report that is not left of an earlier one. A lexical error is right of it. -/
def Follows (later earlier : ErrorReport) : Prop :=
  earlier.start ≤ later.start ∧ (later.lexical?.isSome → earlier.start < later.start)

end ErrorReport

/-- The errors of the parser among reports. -/
def parserErrors (rs : List ErrorReport) : List Diagnostic := rs.filterMap ErrorReport.parser?

/-- The lexical errors among reports. -/
def lexicalErrors (rs : List ErrorReport) : List Diagnostic := rs.filterMap ErrorReport.lexical?

/-- Reports, last ones first, as they can come about. -/
inductive Reported : List ErrorReport → Prop
  | nil : Reported []
  | lexical {rs : List ErrorReport} (d : Diagnostic) (h : Reported rs) : Reported (.lexical d :: rs)
  | parser {rs : List ErrorReport} {d : Diagnostic} (h : Reported rs)
      (hlast : ∀ e ∈ (parserErrors rs).head?, e.start ≠ d.start)
      (hfound : ∀ e ∈ (lexicalErrors rs).takeWhile (fun e => d.start ≤ e.start),
        e.start ≠ d.start) :
      Reported (.parser d :: rs)

namespace Reported

variable {rs : List ErrorReport}

end Reported

/-- The errors of the parser and the lexical errors of a state, as they can come about. -/
def ReportedApart (errors found : List Diagnostic) : Prop :=
  ∃ rs, Reported rs ∧ parserErrors rs = errors ∧ lexicalErrors rs = found

theorem ReportedApart.of_suffix {errors found found' : List Diagnostic}
    (h : ReportedApart errors found) (hs : found <:+ found') : ReportedApart errors found' := by
  obtain ⟨more, rfl⟩ := hs
  induction more with
  | nil => exact h
  | cons d more ih =>
      obtain ⟨rs, hrs, rfl, hfound⟩ := ih
      exact ⟨_, hrs.lexical d, rfl, congrArg (d :: ·) hfound⟩

namespace ParseState

/-- What holds of the errors of the parser and the lexical errors goes on to hold when more of them
are reported. -/
structure ErrorInvariant (I : List Diagnostic → List Diagnostic → Prop) : Prop where
  lexical : ∀ {errors found found' : List Diagnostic}, I errors found → found <:+ found' →
    I errors found'
  error : ∀ (s : ParseState) (m : Message) (start length : Nat) (args : List String),
    I s.errorsRev s.scanner.errorsRev →
      I (s.error m start length args).errorsRev (s.error m start length args).scanner.errorsRev

/-- The parser reports no more errors than the limit allows. -/
theorem errorInvariant_limit :
    ErrorInvariant fun errors _ => errors.length ≤ Limits.diagnostics where
  lexical h _ := h
  error s m start length args h := by
    unfold ParseState.error
    dsimp only
    split
    · exact h
    · rename_i hnew
      simp only [Bool.or_eq_true, not_or, decide_eq_true_eq] at hnew
      rw [List.length_cons]
      exact Nat.lt_of_not_le hnew.2

end ParseState

namespace Parse

open ParseState (ErrorInvariant)

section
variable {I : List Diagnostic → List Diagnostic → Prop} (hI : ErrorInvariant I) {s : ParseState}
include hI

theorem reportDepth_invariant (h : I s.errorsRev s.scanner.errorsRev) :
    I (reportDepth s).2.errorsRev (reportDepth s).2.scanner.errorsRev := by
  cases hd : s.depthReported with
  | true => rwa [reportDepth_of_reported hd]
  | false =>
      rw [reportDepth_of_not_reported hd]
      exact hI.error { s with depthReported := true } _ _ _ _ h

/-- What holds of the errors so far still holds after anything is read. -/
theorem Proceeds.errorInvariant {α : Type} {p : Parse α} (hp : Proceeds p)
    (h : I s.errorsRev s.scanner.errorsRev) : I (p s).2.errorsRev (p s).2.scanner.errorsRev := by
  induction hp generalizing s with
  | reads | freshId | finish => exact h
  | bind _ _ ihp ihf => exact ihf _ (ihp h)
  | advance => exact hI.lexical h (Scanner.scan_spec s.scanner).1.errors
  | rescanGreater => exact hI.lexical h (Scanner.rescanGreater_rereads s.scanner).errors
  | rescanSlash => exact hI.lexical h (Scanner.rescanSlash_rereads s.scanner).errors
  | rescanTemplate => exact hI.lexical h (Scanner.rescanTemplate_rereads s.scanner).errors
  | errorAt m span args => exact hI.error s m span.start span.length args h
  | reportDepth => exact reportDepth_invariant hI h
  | withContext change _ ih => exact ih (s := { s with context := change s.context }) h
  | nested _ _ ihs ihp =>
      by_cases hd : s.depth < Limits.nesting
      · rw [nested_of_lt hd]
        exact ihp (s := { s with depth := s.depth + 1 }) h
      · rw [nested_of_limit (Nat.le_of_not_lt hd)]
        exact ihs (reportDepth_invariant hI h)
  | lookAhead hp _ =>
      rw [hp.lookAhead_state]
      exact h
  | attempt hp ih =>
      rename_i p
      cases hr : (p s).1 with
      | some x => rw [attempt_of_some hr]; exact ih h
      | none =>
          rw [hp.attempt_none hr]
          exact h
  | loop init _ _ ih =>
      exact iterate_rel (R := fun s t => I s.errorsRev s.scanner.errorsRev →
        I t.errorsRev t.scanner.errorsRev) (fun h h' => h' ∘ h) (fun x _ => ih x) (fun _ _ => id) _
        init s h

theorem errorInvariant_file (h : I [] []) (fileName source : String) :
    I (file (.ofString fileName source)).2.errorsRev
      (file (.ofString fileName source)).2.scanner.errorsRev := by
  rw [file_eq]
  have hlist : Proceeds (statementList (grammar (fuelFor source.utf8ByteSize)) (· = .endOfFile)) :=
    Parse.proceeds (grammar (fuelFor source.utf8ByteSize))
  exact hlist.errorInvariant hI (hI.lexical h List.nil_suffix)

end

end Parse

end Erasure

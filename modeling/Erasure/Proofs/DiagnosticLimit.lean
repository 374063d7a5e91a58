import Erasure.Compile
import Erasure.Proofs.Check.JumpReports
import Erasure.Proofs.Parse.Reports
import Erasure.Proofs.Token.StringLiteral

/-!
How many diagnostics a compilation gives. The parser and the check stop at the limit for a file. The
scanner and the scope analysis do not count what they report, and it is added to what the other two
report. So the limit is kept exactly if the uncounted errors leave room for the counted ones, and
some texts go beyond it by any number.
-/

namespace Erasure

section
variable (directives : List Span) (o : Options) (fileName source : String)

/-- The file that is compiled; the spans of its directives are left out. -/
def compiledFile : SourceFile :=
  { (parseSource fileName source).1 with directiveSpans := directives }

/-- The errors of the phase that counts them: the check, or the parser if there are syntax
errors. -/
def countedErrors : List Diagnostic :=
  let file := compiledFile directives fileName source
  if (parseSource fileName source).2.isEmpty then file.check file.bind o
  else (Parse.file (.ofString fileName source)).2.errorsRev.reverse

/-- The errors of the phase that does not count them: the scope analysis, or the scanner if there
are syntax errors. -/
def uncountedErrors : List Diagnostic :=
  if (parseSource fileName source).2.isEmpty then
    (compiledFile directives fileName source).bind.errors
  else (Parse.file (.ofString fileName source)).2.scanner.errors

theorem length_countedErrors_le :
    (countedErrors directives o fileName source).length ≤ Limits.diagnostics := by
  unfold countedErrors
  dsimp only
  split
  · exact SourceFile.length_check_le _ _ o
  · rw [List.length_reverse]
    exact Parse.errorInvariant_file ParseState.errorInvariant_limit (Nat.zero_le _) fileName source

theorem diagnostics_compileWithin :
    (compileWithin directives o fileName source).diagnostics =
      (if (parseSource fileName source).2.isEmpty then
          let file := compiledFile directives fileName source
          Diagnostic.sort (file.bind.errors ++ file.check file.bind o)
        else (parseSource fileName source).2).map
          (Diagnostic.located fileName source (.ofString source)) := by
  unfold compileWithin compiledFile
  -- The parser is not to be run on an unknown text.
  generalize parseSource fileName source = parsed
  rfl

/-- Up to their order, the diagnostics are the uncounted errors and the counted ones. -/
theorem diagnostics_perm :
    (compileWithin directives o fileName source).diagnostics.Perm
      ((uncountedErrors directives fileName source ++
          countedErrors directives o fileName source).map
        (Diagnostic.located fileName source (.ofString source))) := by
  rw [diagnostics_compileWithin]
  refine List.Perm.map _ ?_
  unfold uncountedErrors countedErrors
  cases hsyntax : (parseSource fileName source).2.isEmpty with
  | true => exact List.mergeSort_perm _ _
  | false =>
      simp only [Bool.false_eq_true, if_false]
      rw [Parse.diagnostics_parseSource]
      exact (List.mergeSort_perm _ _).trans List.perm_append_comm

/-- Syntax errors are diagnostics, however many they are. -/
theorem length_syntaxErrors_le : (parseSource fileName source).2.length ≤
    (compileWithin directives o fileName source).diagnostics.length := by
  rw [diagnostics_compileWithin, List.length_map]
  split
  · rename_i hnone
    rw [List.isEmpty_iff.mp hnone]
    exact Nat.zero_le _
  · exact Nat.le_refl _

end

/-- The diagnostics of a compilation are the errors that were counted, of which there are no more
than the limit allows, and those that were not. So the limit is kept exactly if the latter leave
room for the former. -/
theorem diagnostics_within_limit_iff (directives : List Span) (o : Options)
    (fileName source : String) :
    let ds := (compileWithin directives o fileName source).diagnostics
    let counted := countedErrors directives o fileName source
    let uncounted := uncountedErrors directives fileName source
    ds.Perm ((uncounted ++ counted).map (Diagnostic.located fileName source (.ofString source))) ∧
      counted.length ≤ Limits.diagnostics ∧
        (ds.length ≤ Limits.diagnostics ↔
          uncounted.length ≤ Limits.diagnostics - counted.length) := by
  intro ds counted uncounted
  have hperm := diagnostics_perm directives o fileName source
  have hlimit : counted.length ≤ Limits.diagnostics :=
    length_countedErrors_le directives o fileName source
  have hlength : ds.length = uncounted.length + counted.length := by
    rw [hperm.length_eq, List.length_map, List.length_append]
  exact ⟨hperm, hlimit, by omega⟩

/-- The rest of a string literal with a number of escapes that lack their digits. -/
def bareEscapes : Nat → List Char
  | 0 => ['"']
  | n + 1 => '\\' :: 'x' :: bareEscapes n

/-- A string literal with a number of escapes that lack their digits. -/
def bareEscapesText (n : Nat) : String := String.ofList ('"' :: bareEscapes n)

theorem hex?_bareEscapes (n : Nat) : Escape.hex? (bareEscapes n) = none := by
  cases n with
  | zero => rfl
  | succ n =>
      have hslash : Text.isHexDigit '\\' = false := by decide
      simp only [bareEscapes, Escape.hex?, hslash, Bool.false_and, Bool.false_eq_true, if_false]

theorem length_bareEscapes (n : Nat) : (bareEscapes n).length = 2 * n + 1 := by
  induction n with
  | zero => rfl
  | succ n ih =>
      simp only [bareEscapes, List.length_cons, ih]
      omega

namespace Scanner

/-- An error behind the last one was not reported before. -/
theorem errorsRev_error_of_lt {s : Scanner} {start : Nat} (m : Message) (length : Nat)
    (h : ∀ d ∈ s.errorsRev.head?, d.start < start) :
    (s.error m start length).errorsRev =
      Diagnostic.ofMessage m start length [] :: s.errorsRev := by
  unfold error
  dsimp only
  split
  · rename_i hrepeated
    obtain ⟨d, hd, hsame⟩ := (Option.any_eq_true _ _).mp hrepeated
    have hlt := h d hd
    simp only [Bool.and_eq_true, decide_eq_true_eq] at hsame
    omega
  · rfl

/-- An escape without digits is passed over with its letter, and reported behind it. -/
theorem readEscape_bare {s : Scanner} {n : Nat} (hr : s.cursor.rest = bareEscapes (n + 1))
    (hbefore : ∀ d ∈ s.errorsRev.head?, d.start ≤ s.stop) (value : List Char) :
    (s.readEscape value).1.cursor = ⟨s.stop + 2, 'x' :: '\\' :: s.cursor.before, bareEscapes n⟩ ∧
      (s.readEscape value).1.errorsRev =
        Diagnostic.ofMessage .hexDigitExpected (s.stop + 2) 0 [] :: s.errorsRev := by
  have hslash : '\\'.utf8Size = 1 := by decide
  have hletter : 'x'.utf8Size = 1 := by decide
  have hcursor : (s.advance 2).cursor =
      ⟨s.stop + 2, 'x' :: '\\' :: s.cursor.before, bareEscapes n⟩ := by
    simp only [stop, advance, Cursor.advance, Cursor.next, hr, bareEscapes, hslash, hletter]
  have hread : s.readEscape value = (s.advance 2).invalidEscape s.cursor 2 value := by
    rw [readEscape, hr]
    simp only [bareEscapes, hex?_bareEscapes]
  rw [hread]
  refine ⟨(cursor_error _ _ _ _).trans hcursor, ?_⟩
  have hstop : (s.advance 2).stop = s.stop + 2 := congrArg Cursor.offset hcursor
  rw [← hstop]
  refine errorsRev_error_of_lt _ _ fun d hd => ?_
  show d.start < (s.advance 2).stop
  have hle : d.start ≤ s.stop := hbefore d hd
  omega

/-- Every escape is reported, as each one stands behind the one before. -/
theorem length_errorsRev_readString (fuel : Nat) {s : Scanner} {n : Nat} (value : List Char)
    (hr : s.cursor.rest = bareEscapes n) (hfuel : n < fuel)
    (hbefore : ∀ d ∈ s.errorsRev.head?, d.start ≤ s.stop) :
    (s.readString '"' fuel value).errorsRev.length = s.errorsRev.length + n := by
  induction n generalizing s fuel value with
  | zero =>
      obtain ⟨fuel, rfl⟩ : ∃ m, fuel = m + 1 := ⟨fuel - 1, by omega⟩
      rw [readString, hr]
      rfl
  | succ n ih =>
      obtain ⟨fuel, rfl⟩ : ∃ m, fuel = m + 1 := ⟨fuel - 1, by omega⟩
      obtain ⟨hcursor, herrors⟩ := readEscape_bare hr hbefore value
      have hlast : ∀ d ∈ (s.readEscape value).1.errorsRev.head?,
          d.start ≤ (s.readEscape value).1.stop := by
        intro d hd
        rw [herrors, List.head?_cons, Option.mem_some_iff] at hd
        show d.start ≤ (s.readEscape value).1.cursor.offset
        rw [hcursor, ← hd]
        exact Nat.le_refl _
      have hread : s.readString '"' (fuel + 1) value =
          (s.readEscape value).1.readString '"' fuel (s.readEscape value).2 := by
        rw [readString, hr]
        rfl
      rw [hread, ih fuel _ (by rw [hcursor]) (by omega) hlast, herrors, List.length_cons]
      omega

theorem length_errorsRev_scan (n : Nat) :
    (ofString (bareEscapesText n)).scan.errorsRev.length = n := by
  have hreads : (ofString (bareEscapesText n)).Reads ('"' :: bareEscapes n) := by
    have htext : (bareEscapesText n).toList = '"' :: bareEscapes n := String.toList_ofList
    exact htext ▸ reads_ofString _
  have hfirst := hreads.onToken (n := 0)
  have hlength := hfirst.length_le
  have hrest : (((ofString (bareEscapesText n)).onToken 0).advance 1).cursor.rest =
      bareEscapes n := by
    rw [advance, Cursor.rest_advance, hfirst.rest]
    rfl
  rw [scan_start hreads.rest (startsToken_quote _)]
  have hnone : ∀ d ∈ (((ofString (bareEscapesText n)).onToken 0).advance 1).errorsRev.head?,
      d.start ≤ (((ofString (bareEscapesText n)).onToken 0).advance 1).stop :=
    fun d hd => (Option.not_mem_none d hd).elim
  refine (length_errorsRev_readString _ [] hrest ?_ hnone).trans (Nat.zero_add n)
  rw [List.drop_zero, List.length_cons, length_bareEscapes] at hlength
  omega

end Scanner

/-- Whatever the parser does, the lexical errors in the first token are among the syntax errors. -/
theorem Parse.length_errors_firstToken_le (fileName source : String) :
    (Scanner.ofString source).scan.errorsRev.length ≤ (parseSource fileName source).2.length := by
  have hlater : (Scanner.ofString source).scan.errorsRev <:+
      (file (.ofString fileName source)).2.scanner.errorsRev := by
    rw [file_eq]
    have hlist :
      Proceeds (statementList (grammar (fuelFor source.utf8ByteSize)) (· = .endOfFile)) :=
      proceeds (grammar (fuelFor source.utf8ByteSize))
    exact (hlist.follows _ (ready_firstState fileName source)).grows.lexical
  rw [diagnostics_parseSource, Diagnostic.sort, List.length_mergeSort, List.length_append,
    List.length_reverse, List.length_reverse]
  exact hlater.length_le.trans (Nat.le_add_left _ _)

/-- There is no bound on the number of diagnostics. -/
theorem le_length_diagnostics_bareEscapes (overrides : Options → Options) (fileName : String)
    (n : Nat) : n ≤ (compile overrides fileName (bareEscapesText n)).diagnostics.length := by
  calc n = (Scanner.ofString (bareEscapesText n)).scan.errorsRev.length :=
        (Scanner.length_errorsRev_scan n).symm
    _ ≤ (parseSource fileName (bareEscapesText n)).2.length :=
        Parse.length_errors_firstToken_le fileName _
    _ ≤ _ := length_syntaxErrors_le _ _ fileName _

/-- With one more escape than the limit allows there are more diagnostics than that. -/
theorem limit_exceeded_by_escapes :
    Limits.diagnostics <
      (compile id "input.ts" (bareEscapesText (Limits.diagnostics + 1))).diagnostics.length :=
  le_length_diagnostics_bareEscapes id "input.ts" (Limits.diagnostics + 1)

end Erasure

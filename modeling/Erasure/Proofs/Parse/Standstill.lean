import Erasure.Proofs.Parse.Alike.Grammar

/-!
Statements that contain themselves. A word that could be a modifier starts a declaration if a
decorator follows it, but it is no modifier then: the declaration has no head, and what follows is
read as a statement again, from the same place on. So the nesting limit is reached, whatever the
text is.
-/

namespace Erasure

/-- A word that could be a modifier is followed by a decorator on its line. -/
def ParseState.StandsStill (s : ParseState) : Prop :=
  s.scanner.token = .publicKw ∧ s.scanner.scan.token = .atSign ∧
    s.scanner.scan.flags.precedingLineBreak = false ∧ s.scanner.scan.start ≠ s.scanner.start

instance : DecidablePred ParseState.StandsStill := fun _ => by
  unfold ParseState.StandsStill
  infer_instance

namespace Parse

section
variable {α β : Type} {p : Parse α} {f : α → Parse β} {x : α} {s t : ParseState}

theorem bind_of_eq (h : p s = (x, t)) : (p >>= f) s = f x t := by
  show f (p s).1 (p s).2 = f x t
  rw [h]

theorem lookAhead_of_eq [hp : Proceeds p] (h : p s = (x, t)) :
    lookAhead p s = (x, s.withNotes t) := by
  have hstate := hp.lookAhead_state s
  rw [h] at hstate
  exact Prod.ext (congrArg Prod.fst h :) hstate

theorem pos_eq (s : ParseState) : pos s = (s.scanner.start, s) := rfl

theorem token_of_eq {k : TokenKind} (h : s.scanner.token = k) : token s = (k, s) := by
  rw [← h]
  rfl

theorem isToken_of_ne {k : TokenKind} (h : s.scanner.token ≠ k) : isToken k s = (false, s) := by
  show (decide (s.scanner.token = k), s) = _
  rw [decide_eq_false h]

theorem accept_of_ne {k : TokenKind} (h : s.scanner.token ≠ k) : accept k s = (false, s) :=
  bind_of_eq (isToken_of_ne h)

end

section
variable {s : ParseState} (h : s.StandsStill)
include h

theorem declarationStep_word : declarationStep false s = (.yield false, (advance s).2) := by
  have hevidence : declarationEvidence? s = (none, (advance s).2) := by
    unfold declarationEvidence?
    rw [bind_of_eq (token_of_eq h.1)]
    show ((if s.scanner.scan.flags.precedingLineBreak then some false else none), _) = _
    rw [h.2.2.1]
    rfl
  exact bind_of_eq hevidence

theorem declarationStep_decorator :
    declarationStep false (advance s).2 = (.done true, (advance s).2) := by
  have hevidence : declarationEvidence? (advance s).2 = (some true, (advance s).2) := by
    have htoken : (advance s).2.scanner.token = .atSign := h.2.1
    unfold declarationEvidence?
    exact bind_of_eq (token_of_eq htoken)
  exact bind_of_eq hevidence

theorem noteRound_word :
    (noteRound s.place.pos s.scanner.token (advance s).2).2 = (advance s).2 := by
  have hapart : (advance s).2.scanner.start ≠ s.place.pos := h.2.2.2
  show (noteStall (if (advance s).2.scanner.start = s.place.pos then _ else none) _).2 = _
  rw [if_neg hapart]
  show { (advance s).2 with stall? := (advance s).2.stall?.or none } = _
  rw [Option.or_none]

theorem isDeclarationStart_word : isDeclarationStart s = (true, s) := by
  have hloop : loop false declarationStep s = (true, (advance s).2) := by
    show iterate declarationStep (2 * s.scanner.source.utf8ByteSize + 14 + 1 + 1) false s = _
    have hword := declarationStep_word h
    have hdecorator := declarationStep_decorator h
    rw [iterate_of_yield (congrArg Prod.fst hword), hword, noteRound_word h,
      iterate_of_done (congrArg Prod.fst hdecorator), hdecorator]
  exact (lookAhead_of_eq hloop).trans rfl

theorem modifiers_word : modifiers .statement s = ({}, s) := by
  have htoken : (advance s).2.scanner.token = .atSign := h.2.1
  have hkey : canFollowModifier (advance s).2 = (false, (advance s).2) := by
    have hone : ∀ ks : List TokenKind, ks.contains .atSign = false →
        isOneOf ks (advance s).2 = (false, (advance s).2) := by
      intro ks hks
      show (ks.contains (advance s).2.scanner.token, _) = _
      rw [htoken, hks]
    have hname : isIdentifierOrKeyword (advance s).2 = (false, (advance s).2) :=
      bind_of_eq (token_of_eq htoken)
    unfold canFollowModifier isLiteralKey
    rw [bind_of_eq (hone _ rfl)]
    show (isIdentifierOrKeyword >>= _) _ = _
    rw [bind_of_eq hname]
    exact hone _ rfl
  have hfollowed : modifierIsFollowed .publicKw .statement s = (false, (advance s).2) := by
    show (!(advance s).2.scanner.flags.precedingLineBreak && (canFollowModifier (advance s).2).1,
      (canFollowModifier (advance s).2).2) = _
    rw [hkey, Bool.and_false]
  have hnone : modifier? .statement s = (none, s) := by
    unfold modifier?
    rw [bind_of_eq (token_of_eq h.1)]
    exact bind_of_eq ((lookAhead_of_eq hfollowed).trans rfl)
  have hstep : modifierStep .statement {} s = (.done {}, s) := bind_of_eq hnone
  show iterate (modifierStep .statement) (2 * s.scanner.source.utf8ByteSize + 15 + 1) {} s = _
  rw [iterate_of_done (congrArg Prod.fst hstep), hstep]

theorem declarationHead_word (g : Grammar) : declarationHead g s = (([], {}), s) := by
  have hne : s.scanner.token ≠ .atSign := by
    rw [h.1]
    decide
  have hdecorators : decorators g s = ([], s) := by
    have hnone : decoratorStep g s = ((none, true), s) := by
      unfold decoratorStep
      rw [bind_of_eq (pos_eq s)]
      exact bind_of_eq (accept_of_ne hne)
    have hstep : collectStep (decoratorStep g) [] s = (.done [], s) := bind_of_eq hnone
    have hloop : loop [] (collectStep (decoratorStep g)) s = ([], s) := by
      show iterate (collectStep (decoratorStep g))
        (2 * s.scanner.source.utf8ByteSize + 15 + 1) [] s = _
      rw [iterate_of_done (congrArg Prod.fst hstep), hstep]
    exact bind_of_eq hloop
  unfold declarationHead
  rw [bind_of_eq hdecorators, bind_of_eq (modifiers_word h), bind_of_eq (isToken_of_ne hne)]
  rfl

/-- What such a declaration is read as is a statement. -/
theorem declaration_word (g : Grammar) (hg : (g .statement s).2.context = s.context) :
    declaration g s = g .statement s := by
  have hcontext : ({ s.context with ambient := s.context.ambient || Modifiers.isAmbient {} } :
      ParseContext) = s.context := by
    show ({ s.context with ambient := s.context.ambient || false } : ParseContext) = _
    rw [Bool.or_false]
  have hrest : declarationRest g s.scanner.start [] {} s = g .statement s := by
    unfold declarationRest
    exact bind_of_eq (token_of_eq h.1)
  unfold declaration
  rw [bind_of_eq (pos_eq s), bind_of_eq (declarationHead_word h g)]
  show withContext (fun c => { c with
    ambient := s.context.ambient || Modifiers.isAmbient {} })
      (declarationRest g s.scanner.start [] {}) s = _
  rw [withContext_eq, hcontext, hrest]
  show ((g .statement s).1, { (g .statement s).2 with context := s.context }) = _
  rw [← hg]
  rfl

theorem statementInner_word (g : Grammar) (hg : (g .statement s).2.context = s.context) :
    statementInner g s = g .statement s := by
  have hother : otherStatement g s.scanner.start s = g .statement s := by
    unfold otherStatement
    rw [bind_of_eq (isDeclarationStart_word h)]
    exact declaration_word h g hg
  unfold statementInner
  rw [bind_of_eq (pos_eq s), bind_of_eq (token_of_eq h.1)]
  exact hother

end

theorem error_of_depth (s : ParseState) (depth : Nat) (m : Message) (start length : Nat)
    (args : List String) : ParseState.error { s with depth } m start length args =
      { s.error m start length args with depth } := by
  by_cases h : (s.errorsRev.head?.any (fun d => d.start = start) || s.scannerReportedAt start ||
      decide (s.errorsRev.length ≥ Limits.diagnostics)) = true
  · have hs : s.error m start length args = s := if_pos h
    rw [hs]
    exact if_pos h
  · have hs : s.error m start length args =
        { s with errorsRev := Diagnostic.ofMessage m start length args :: s.errorsRev } := if_neg h
    rw [hs]
    exact if_neg h

theorem reportDepth_of_depth (s : ParseState) (depth : Nat) :
    (reportDepth { s with depth }).2 = { (reportDepth s).2 with depth } := by
  rcases Bool.eq_false_or_eq_true s.depthReported with hd | hd
  · have hd' : ({ s with depth } : ParseState).depthReported = true := hd
    rw [reportDepth_of_reported hd, reportDepth_of_reported hd']
  · have hd' : ({ s with depth } : ParseState).depthReported = false := hd
    rw [reportDepth_of_not_reported hd, reportDepth_of_not_reported hd']
    exact error_of_depth { s with depthReported := true } depth _ _ _ _

/-- The statement is not read, from any depth on that leaves fuel for the levels up to the limit. -/
theorem statement_word {s : ParseState} (h : s.StandsStill) {fuel : Nat}
    (hdepth : s.depth ≤ Limits.nesting) (hfuel : Limits.nesting < s.depth + fuel) :
    grammar fuel .statement s = missingStatement (reportDepth s).2 := by
  induction fuel generalizing s with
  | zero => exact absurd hdepth (Nat.not_le.mpr hfuel)
  | succ fuel ih =>
      show nested missingStatement (statementInner (grammar fuel)) s = _
      by_cases hlt : s.depth < Limits.nesting
      · have hdeeper : ({ s with depth := s.depth + 1 } : ParseState).StandsStill := h
        have hrest := ih hdeeper hlt (by show _ < s.depth + 1 + fuel; omega)
        have hcontext := (Lawful.proceeds (g := grammar fuel) .statement).grows
          { s with depth := s.depth + 1 } |>.context
        have hdepth := (grows_reportDepth s).depth
        rw [nested_of_lt hlt, statementInner_word hdeeper (grammar fuel) hcontext, hrest,
          reportDepth_of_depth]
        show (_, { (reportDepth s).2 with
          nextId := (reportDepth s).2.nextId + 1, depth := s.depth + 1 - 1 }) = _
        rw [Nat.add_sub_cancel, ← hdepth]
        rfl
      · exact nested_of_limit (Nat.le_of_not_lt hlt)

/-- The grammar with an amount of fuel, which gives up at once where a statement contains itself. -/
def quickGrammar : Nat → Grammar
  | 0 => exhausted
  | fuel + 1 => fun nt s =>
      match nt with
      | .statement =>
          if s.StandsStill ∧ s.depth ≤ Limits.nesting ∧ Limits.nesting ≤ s.depth + fuel then
            missingStatement (reportDepth s).2
          else statement (quickGrammar fuel) s
      | nt => rule (quickGrammar fuel) nt s

theorem quickGrammar_eq (fuel : Nat) : quickGrammar fuel = grammar fuel := by
  induction fuel with
  | zero => rfl
  | succ fuel ih =>
      funext nt s
      cases nt with
      | statement =>
          show (if _ then _ else statement (quickGrammar fuel) s) = _
          rw [ih]
          split
          · rename_i h
            exact (statement_word h.1 h.2.1 (Nat.lt_succ_of_le h.2.2)).symm
          · rfl
      | _ => rw [quickGrammar, grammar, ih]

/-- The statements of a file and the state behind them. -/
def quickFile (fileName source : String) : List Node × ParseState :=
  statementList (quickGrammar (fuelFor source.utf8ByteSize)) (· = .endOfFile)
    (firstState fileName source)

theorem file_eq_quickFile (fileName source : String) :
    file (ParseState.ofString fileName source) = quickFile fileName source := by
  rw [file_eq, quickFile, quickGrammar_eq]

end Parse
end Erasure

import Erasure.Proofs.Parse.Alike.Statements

/-!
The grammar is made of the operations on the state, with any amount of fuel.

What is read on trial and given up leaves no trace. Going back cuts off the comments and errors that
were added since and keeps the depth, and that is right because whatever is made of the operations
on the state only adds in front, and leaves the depth and the context as they were.
-/

namespace Erasure.Parse

set_option synthInstance.maxSize 5000

variable {g g' : Grammar} [Lawful g]

instance (nt : Nonterminal) : Alike g g' (rule g nt) (rule g' nt) := by
  cases nt <;> unfold rule <;> infer_instance

/-- A name stands here. -/
def onIdentifier (a : Spot) : Prop := ∀ s : ParseState, s.spot = a → (isIdentifier s).1 = true

theorem isIdentifier_iff (s : ParseState) : (isIdentifier s).1 = true ↔ onIdentifier s.spot :=
  ⟨fun h _ ht => by rwa [(Local.same ht).1], fun h => h s rfl⟩

theorem isIdentifier_leads (a : Spot) :
    Leads (fun b => b = a) isIdentifier fun found _ => found = true → a.token ≠ .endOfFile := by
  unfold isIdentifier
  refine .token fun k => .stay fun _ => .ite (fun _ => .pure fun _ _ => nofun) fun _ =>
    .ite (fun _ => .pure fun _ _ => nofun) fun _ => .pure fun b hb h hend => ?_
  rw [← hb.2, hb.1, hend] at h
  cases h

theorem onIdentifier.ne_endOfFile {s : ParseState} (hr : s.place.Ready) (h : onIdentifier s.spot) :
    s.spot.token ≠ .endOfFile :=
  (isIdentifier_leads s.spot s hr rfl).2 (h s rfl)

theorem isBindingStart_leads (a : Spot) :
    Leads (fun b => b = a) isBindingStart fun found _ =>
      found = true → onIdentifier a ∨ a.token ∈ [.openBracket, .openBrace] := by
  unfold isBindingStart
  refine .ask (R := fun found b => found = true ↔ onIdentifier b) isIdentifier_iff fun _ =>
    .branch (fun h => .pure fun b hb _ => .inl (hb.1 ▸ hb.2.mp h)) fun _ => ?_
  exact fun s hr hs => ⟨hr, fun h => .inr (hs.1 ▸ mem_of_isOneOf h)⟩

theorem identifier_leads (n : Nat) :
    Leads (fun a => since n a ∧ onIdentifier a) identifier fun _ => past n := by
  unfold identifier takeIdentifier
  refine .bind (R := fun found a => found = true ∧ live n a) (fun s hr hs => ?_) fun found =>
    .branch (fun _ => ?_) fun h => .of_false fun a ha => ?_
  · have hname := hs.2 s rfl
    refine ⟨by rw [Stays.place]; exact hr, hname, ?_⟩
    rw [Stays.spot]
    exact .inr ⟨hs.1, hs.2.ne_endOfFile hr⟩
  · refine .weaken ?_ fun _ ha => ha.2
    exact .stay fun _ => .stay fun _ => .stay fun _ => .advance (.pure fun _ ha => ha)
  · rw [ha.1] at h
    cases h

/-- A name or pattern is passed over if one starts here. -/
theorem binding_leads (n : Nat) (missing : Message) :
    Leads (fun a => since n a ∧ (onIdentifier a ∨ a.token ∈ [.openBracket, .openBrace]))
      (binding g missing) fun _ => past n := by
  unfold binding
  refine .token fun k => ?_
  split
  · unfold objectPattern
    exact .weaken (.stay fun _ => .require (k := .openBrace) (by decide) (.keep (proceeds g)))
      fun _ ha => ⟨ha.1.1, ha.2⟩
  · unfold arrayPattern
    exact .weaken (.stay fun _ => .require (k := .openBracket) (by decide) (.keep (proceeds g)))
      fun _ ha => ⟨ha.1.1, ha.2⟩
  · refine .ask (R := fun found a => found = true ↔ onIdentifier a) isIdentifier_iff fun found =>
      .branch (fun h => ?_) fun h => .of_false fun a ha => ?_
    · exact .bind (.weaken (identifier_leads n) fun _ ha => ⟨ha.1.1.1, ha.2.mp h⟩) fun _ =>
        .pure fun _ ha => ha
    · obtain ⟨⟨⟨_, hstart⟩, hk⟩, hfound⟩ := ha
      obtain hname | hmem := hstart
      · exact Bool.false_ne_true (h.symm.trans (hfound.mpr hname))
      · simp_all

instance : Lawful (rule g) where
  proceeds _ := proceeds g
  binds {missing s} hr h :=
    (binding_leads s.place.pos missing s hr ⟨le_rfl, (isBindingStart_leads s.spot s hr rfl).2 h⟩).2

instance : Lawful exhausted where
  proceeds nt := by
    have : Proceeds (substitute nt) := by cases nt <;> unfold substitute <;> infer_instance
    unfold exhausted
    infer_instance
  binds {missing s} hr h := by
    have hleads (n : Nat) : Leads (live n) (exhausted (.binding missing)) fun _ => past n := by
      unfold exhausted substitute
      exact .stay fun _ => .advance (.keep inferInstance)
    refine (hleads s.place.pos s hr (.inr ⟨le_rfl, fun hend => ?_⟩)).2
    obtain hname | hmem := (isBindingStart_leads s.spot s hr rfl).2 h
    · exact hname.ne_endOfFile hr hend
    · have hend : s.spot.token = .endOfFile := hend
      simp_all

/-- The grammar is lawful with any amount of fuel. -/
instance (fuel : Nat) : Lawful (grammar fuel) := by
  induction fuel with
  | zero => exact inferInstanceAs (Lawful exhausted)
  | succ fuel ih => exact inferInstanceAs (Lawful (rule (grammar fuel)))

/-- The state on the first token of a file. -/
def firstState (fileName source : String) : ParseState :=
  (advance (freshId (ParseState.ofString fileName source)).2).2

theorem ready_firstState (fileName source : String) : (firstState fileName source).place.Ready :=
  ⟨Scanner.ready_scan fun _ => Cursor.sound_ofString source, Nat.zero_le _⟩

theorem source_firstState (fileName source : String) :
    (firstState fileName source).scanner.source = source :=
  (Scanner.scan_spec _).1.source

theorem file_eq (fileName source : String) :
    file (ParseState.ofString fileName source) =
      statementList (grammar (fuelFor source.utf8ByteSize)) (· = .endOfFile)
        (firstState fileName source) := by
  have h : file (ParseState.ofString fileName source) = statementList
      (grammar (fuelFor (firstState fileName source).scanner.source.utf8ByteSize)) (· = .endOfFile)
      (firstState fileName source) :=
    rfl
  rwa [source_firstState] at h

/-- The statements of a file are what the parser gives. -/
theorem statements_parseSource (fileName source : String) :
    (parseSource fileName source).1.statements = (file (.ofString fileName source)).1 := by
  unfold parseSource
  -- The parser is not to be run on an unknown text.
  generalize file (.ofString fileName source) = result
  rfl

/-- The diagnostics of a file are the errors of the parser and the lexical errors. -/
theorem diagnostics_parseSource (fileName source : String) : (parseSource fileName source).2 =
    Diagnostic.sort ((file (.ofString fileName source)).2.errorsRev.reverse ++
      (file (.ofString fileName source)).2.scanner.errorsRev.reverse) := by
  unfold parseSource
  generalize file (.ofString fileName source) = result
  rfl

/-- If an attempt gives nothing the state is the one before, but for the notes. -/
theorem exists_withNotes_of_none {α : Type} {p : Parse (Option α)} (hp : Proceeds p)
    {s : ParseState} (h : (attempt p s).1 = none) : ∃ t, (attempt p s).2 = s.withNotes t := by
  cases hx : (p s).1 with
  | some x =>
      rw [attempt_of_some hx, hx] at h
      cases h
  | none => exact ⟨(p s).2, by rw [hp.attempt_none hx]⟩

section
variable (g : Grammar) [Lawful g] {s : ParseState}

theorem exists_withNotes_of_speculativeArrow (h : (speculativeArrow? g s).1 = none) :
    ∃ t, (speculativeArrow? g s).2 = s.withNotes t :=
  exists_withNotes_of_none (proceeds g) h

/-- Without the sign that opens type arguments nothing is tried. -/
theorem exists_withNotes_of_expressionTypeArguments
    (h : (expressionTypeArguments? g s).1 = none) :
    ∃ t, (expressionTypeArguments? g s).2 = s.withNotes t := by
  revert h
  unfold expressionTypeArguments?
  show ((ite _ _ _ : Parse (Option (List Node))) s).1 = none →
    ∃ t, ((ite _ _ _ : Parse (Option (List Node))) s).2 = s.withNotes t
  split
  · exact fun _ => ⟨s, rfl⟩
  · exact fun h => exists_withNotes_of_none (proceeds g) h

end

/-- Whatever a parser does, looking ahead with it changes nothing but the number of nodes and the
notes on limits, and so does an attempt that is given up. Every part of the grammar is such a
parser. -/
theorem speculation_leaves_no_trace :
    (∀ (α : Type) (p : Parse α) (s : ParseState), Proceeds p →
      (lookAhead p s).2 = s.withNotes (p s).2) ∧
    (∀ (α : Type) (p : Parse (Option α)) (s : ParseState), Proceeds p → (p s).1 = none →
      attempt p s = (none, s.withNotes (p s).2)) ∧
    (∀ fuel nt, Proceeds (grammar fuel nt)) ∧
    (∀ fuel s, (speculativeArrow? (grammar fuel) s).1 = none →
      ∃ t, (speculativeArrow? (grammar fuel) s).2 = s.withNotes t) ∧
    ∀ fuel s, (expressionTypeArguments? (grammar fuel) s).1 = none →
      ∃ t, (expressionTypeArguments? (grammar fuel) s).2 = s.withNotes t :=
  ⟨fun _ _ s hp => hp.lookAhead_state s, fun _ _ _ hp h => hp.attempt_none h,
    fun _ nt => Lawful.proceeds nt,
    fun fuel _ h => exists_withNotes_of_speculativeArrow (grammar fuel) h,
    fun fuel _ h => exists_withNotes_of_expressionTypeArguments (grammar fuel) h⟩

/-- Parentheses around a name are first read as the parameters of an arrow function. -/
theorem speculation_leaves_no_trace_parentheses :
    let s := (advance (ParseState.ofString "a.ts" "(a);")).2
    (speculativeArrow? (grammar 40) s).1 = none ∧
      (∃ t, (speculativeArrow? (grammar 40) s).2 = s.withNotes t) ∧
      (lookAhead (grammar 40 .statement) s).2 = s.withNotes (grammar 40 .statement s).2 := by
  intro s
  have hnone : (speculativeArrow? (grammar 40) s).1 = none :=
    Option.isNone_iff_eq_none.mp (by decide +kernel)
  exact ⟨hnone, speculation_leaves_no_trace.2.2.2.1 40 s hnone,
    speculation_leaves_no_trace.1 _ _ s (speculation_leaves_no_trace.2.2.1 40 .statement)⟩

end Erasure.Parse

import Erasure.Proofs.Parse.Descent

/-!
The parser comes to an end. Every repetition passes over a token in each round, except for the list
of parameters on a word that is a modifier elsewhere, and what a rule asks for is further down. So
neither the rounds of the repetitions nor the fuel of the grammar are used up.
-/

namespace Erasure.Parse

theorem Place.ahead_le {a b : Place} (hr : a.Ready) (h : a.Reaches b)
    (hs : b.scanner.source = a.scanner.source) : b.ahead ≤ a.ahead := by
  obtain hlt | heq := h.pos_le.lt_or_eq
  · exact (Place.ahead_lt hr h hs hlt).le
  · unfold Place.ahead
    split
    · exact Nat.zero_le _
    · rename_i hb
      rw [if_neg fun ha => hb (h.ended ha).1, hs, heq]

/-- The two nonterminals that another one opens stand above the others. -/
def rank : Nonterminal → Nat
  | .binary _ | .typeOperator => 1
  | _ => 0

/-- A bound on how many nonterminals are asked for inside one another. -/
def height (nt : Nonterminal) (s : ParseState) : Nat :=
  2 * (s.place.ahead + (Limits.nesting - s.depth)) + rank nt

theorem rank_le (nt : Nonterminal) : rank nt ≤ 1 := by
  unfold rank
  split <;> omega

theorem Opens.rank_lt {nt nt' : Nonterminal} (h : Opens nt nt') : rank nt' < rank nt := by
  cases h <;> exact Nat.one_pos

theorem Descends.height_lt {nt nt' : Nonterminal} {s t : ParseState} (hr : s.place.Ready)
    (h : Descends nt s nt' t) : height nt' t < height nt s := by
  have hle := Place.ahead_le hr h.beyond.reaches h.beyond.source
  have hdepth := h.beyond.depth_le
  have := rank_le nt
  have := rank_le nt'
  unfold height
  obtain hlt | ⟨hdeeper, hlimit⟩ | hopens := h.down
  · have := Place.ahead_lt hr h.beyond.reaches h.beyond.source hlt
    omega
  · omega
  · have := hopens.rank_lt
    omega

/-- The grammar with an amount of fuel, where a nonterminal without fuel is read in some way. -/
def grammarOver (rest : Grammar) : Nat → Grammar
  | 0 => rest
  | fuel + 1 => rule (grammarOver rest fuel)

/-- Fuel above the height is not used up. -/
theorem grammarOver_eq (rest : Grammar) {fuel : Nat} {nt : Nonterminal} {s : ParseState}
    (hr : s.place.Ready) (hfuel : height nt s < fuel) :
    grammar fuel nt s = grammarOver rest fuel nt s := by
  induction fuel generalizing nt s with
  | zero => exact absurd hfuel (Nat.not_lt_zero _)
  | succ fuel ih =>
      exact rule_eq_of_descends hr fun nt' t ht => ih ht.beyond.ready
        ((ht.height_lt hr).trans_le (Nat.le_of_lt_succ hfuel))

/-- The statements of a whole file, where a nonterminal without fuel is read in some way. -/
def fileOver (rest : Grammar) : Parse (List Node) := do
  let _ ← freshId
  advance
  statementList (grammarOver rest (fuelFor (← get).scanner.source.utf8ByteSize)) (· = .endOfFile)

theorem height_lt_fuelFor (nt : Nonterminal) (s : ParseState) :
    height nt s < fuelFor s.scanner.source.utf8ByteSize := by
  have hahead : s.place.ahead ≤ s.scanner.source.utf8ByteSize := s.place.ahead_le_size
  have := rank_le nt
  unfold height fuelFor
  omega

theorem fileOver_eq (rest : Grammar) (fileName source : String) :
    fileOver rest (ParseState.ofString fileName source) =
      file (ParseState.ofString fileName source) := by
  have hr := ready_firstState fileName source
  have hagrees (nt : Nonterminal) (s : ParseState)
      (hs : s.Beyond (firstState fileName source).place 0 0) :
      grammar (fuelFor source.utf8ByteSize) nt s =
        grammarOver rest (fuelFor source.utf8ByteSize) nt s := by
    have hsource : s.scanner.source = source := hs.source.trans (source_firstState _ _)
    exact grammarOver_eq rest hs.ready (hsource ▸ height_lt_fuelFor nt s)
  have halike : Alike (grammar (fuelFor source.utf8ByteSize))
      (grammarOver rest (fuelFor source.utf8ByteSize))
      (statementList (grammar (fuelFor source.utf8ByteSize)) (· = .endOfFile))
      (statementList (grammarOver rest (fuelFor source.utf8ByteSize)) (· = .endOfFile)) :=
    inferInstance
  have hover : fileOver rest (ParseState.ofString fileName source) = statementList (grammarOver rest
      (fuelFor (firstState fileName source).scanner.source.utf8ByteSize)) (· = .endOfFile)
      (firstState fileName source) :=
    rfl
  rw [hover, source_firstState, file_eq]
  exact (halike.agrees hagrees _ ⟨.refl hr, rfl, Nat.zero_le _, Nat.zero_le _⟩).symm

/-- A repetition comes to its end by itself, and every round before passes over a token. -/
inductive Ends {σ : Type} (step : σ → Parse (ForInStep σ)) :
    σ → ParseState → σ → ParseState → Prop
  | done {x y : σ} {s : ParseState} (h : (step x s).1 = .done y) : Ends step x s y (step x s).2
  | yield {x y z : σ} {s t : ParseState} (h : (step x s).1 = .yield y)
      (hmoves : s.place.pos < (step x s).2.place.pos) (hrest : Ends step y (step x s).2 z t) :
      Ends step x s z t

section
variable {σ : Type} {step : σ → Parse (ForInStep σ)}

/-- If every round passes over a token the repetition ends, with no bound on its rounds. -/
theorem exists_ends [Advances step] (hstep : ∀ x, Proceeds (step x)) (x : σ) {s : ParseState}
    (hr : s.place.Ready) : ∃ y t, Ends step x s y t := by
  induction hahead : s.place.ahead using Nat.strong_induction_on generalizing x s with
  | _ n ih =>
      have hround := (hstep x).follows s hr
      cases hx : (step x s).1 with
      | done y => exact ⟨y, _, .done hx⟩
      | yield y =>
          have hmoves := Advances.moves hr hx
          have hlt := Place.ahead_lt hr hround.reaches hround.grows.source hmoves
          obtain ⟨z, t, hrest⟩ := ih _ (hahead ▸ hlt) y hround.ready rfl
          exact ⟨z, t, .yield hx hmoves hrest⟩

/-- A repetition that notes no stall ends within its rounds. -/
theorem ends_iterate (hstep : ∀ x, Proceeds (step x)) (fuel : Nat) (x : σ) {s : ParseState}
    (hr : s.place.Ready) (h : (iterate step fuel x s).2.stall? = none) :
    Ends step x s (iterate step fuel x s).1 (iterate step fuel x s).2 := by
  induction fuel generalizing x s with
  | zero =>
      have h : s.stall?.or (some .cutOff) = none := h
      exact absurd (Option.or_eq_none_iff.mp h).2 (Option.some_ne_none _)
  | succ fuel ih =>
      have hround := (hstep x).follows s hr
      cases hx : (step x s).1 with
      | done y =>
          rw [iterate_of_done hx]
          exact .done hx
      | yield y =>
          rw [iterate_of_yield hx] at h ⊢
          by_cases hpos : (step x s).2.place.pos = s.place.pos
          · rw [noteRound_of_eq hpos] at h
            have hnone := (grows_iterate (fun x s => (hstep x).grows s) fuel y _).stall_none h
            exact absurd (Option.or_eq_none_iff.mp hnone).2 (Option.some_ne_none _)
          · rw [noteRound_of_ne hpos] at h ⊢
            exact .yield hx (lt_of_le_of_ne hround.pos_le fun h => hpos h.symm)
              (ih y hround.ready h)

theorem ends_collect {α : Type} {step : Parse (Option α × Bool)} (hstep : Proceeds step)
    {s : ParseState} (hr : s.place.Ready) (h : (collect step s).2.stall? = none) :
    ∃ rev, (collect step s).1 = rev.reverse ∧
      Ends (collectStep step) [] s rev (collect step s).2 :=
  ⟨_, rfl, ends_iterate (fun _ => inferInstance) (2 * s.scanner.source.utf8ByteSize + 16) [] hr h⟩

end

/-- How deep parentheses nest before a type is bounded by the text. -/
theorem isTypeStartWithin_eq {fuel fuel' : Nat} {s : ParseState} (hr : s.place.Ready)
    (hfuel : s.place.ahead < fuel) (hfuel' : s.place.ahead < fuel') :
    isTypeStartWithin fuel s = isTypeStartWithin fuel' s := by
  induction fuel generalizing fuel' s with
  | zero => exact absurd hfuel (Nat.not_lt_zero _)
  | succ fuel ih =>
      cases fuel' with
      | zero => exact absurd hfuel' (Nat.not_lt_zero _)
      | succ fuel' =>
          have hinner : Agree s.place s.place.pos s.depth (past s.place.pos)
              (isTypeStartWithin fuel) (isTypeStartWithin fuel') := by
            intro t ht hpast
            have hlt := Place.ahead_lt hr ht.reaches ht.source hpast
            exact ih ht.ready (hlt.trans_le (Nat.le_of_lt_succ hfuel))
              (hlt.trans_le (Nat.le_of_lt_succ hfuel'))
          have hagree : Agree s.place s.place.pos s.depth (since s.place.pos)
              (isTypeStartWithin (fuel + 1)) (isTypeStartWithin (fuel' + 1)) := by
            unfold isTypeStartWithin
            refine .token fun k => ?_
            split
            case h_36 =>
              refine .lookAhead (.weaken (.advance (.stay fun _ => .ite (fun _ => .same) fun _ =>
                .stay fun _ => .ite (fun _ => .same) fun _ => hinner)) fun b hb => .inr ⟨hb.1, ?_⟩)
              rw [hb.2]
              decide
            all_goals exact .same
          exact hagree s ⟨.refl hr, rfl, le_rfl, le_rfl⟩ le_rfl

theorem isTypeStartWithin_more (more : Nat) {s : ParseState} (hr : s.place.Ready) :
    isTypeStartWithin (s.scanner.source.utf8ByteSize + 1 + more) s = isTypeStart s := by
  have hahead : s.place.ahead ≤ s.scanner.source.utf8ByteSize := s.place.ahead_le_size
  exact isTypeStartWithin_eq hr (by omega) (by omega)

/-- The repetitions over a grammar, but for the list of parameters. -/
inductive Repeats (g : Grammar) : {σ : Type} → (σ → Parse (ForInStep σ)) → Prop
  | statements (isEnd : TokenKind → Bool) : Repeats g (collectStep (statementStep g isEnd))
  | elements (close : TokenKind) (missing : Message) {isStart : Parse Bool} {element : Parse Node}
      (hstart : Stays isStart) (helement : Proceeds element) :
      Repeats g (delimitedStep close missing isStart element)
  | classMembers : Repeats g (collectStep (classMemberStep g))
  | heritageClauses : Repeats g (heritageClauseStep g)
  | heritageEntries (isType : Bool) : Repeats g (collectStep (heritageStep g isType))
  | enumMembers : Repeats g (collectStep (enumMemberStep g))
  | importSpecifiers : Repeats g (collectStep (specifierStep importSpecifier))
  | exportSpecifiers : Repeats g (collectStep (specifierStep exportSpecifier))
  | importAttributes : Repeats g (collectStep (specifierStep (importAttribute g)))
  | clauses : Repeats g (switchStep g)
  | typeMembers : Repeats g (typeMemberStep g)
  | indexParameters : Repeats g (collectStep (indexParameterStep g))
  | tupleElements : Repeats g (collectStep (tupleStep g))
  | typeOperands {operator : TokenKind} {operand : Parse Node} (hoperator : operator ≠ .endOfFile)
      (hoperand : Proceeds operand) : Repeats g (collectStep (operandStep g operator operand))
  | typeBrackets (start : Nat) : Repeats g (postfixTypeStep g start)
  | angleElements {element : Parse Node} (helement : Proceeds element) :
      Repeats g (collectStep (angleStep element))
  | typeArguments : Repeats g (collectStep (typeArgumentStep g))
  | objectPattern : Repeats g (collectStep (objectPatternElement g))
  | arrayPattern : Repeats g (arrayPatternStep g)
  | variables : Repeats g (variableStep g)
  | modifiers (place : ModifierPlace) : Repeats g (modifierStep place)
  | modifierWords : Repeats g modifierWordStep
  | declarationWords : Repeats g declarationStep
  | decorators : Repeats g (collectStep (decoratorStep g))
  | template : Repeats g (collectStep (templateStep g))
  | typeTemplate : Repeats g (collectStep (typeTemplateStep g))
  | names : Repeats g (collectStep segmentStep)
  | members (start : Nat) (allowOptional : Bool) :
      Repeats g (chainStep (memberStep g start allowOptional))
  | calls (start : Nat) : Repeats g (chainStep (callStep g start))
  | operations (start : Nat) (above : Precedence) : Repeats g (operationStep g start above)
  | commas (start : Nat) : Repeats g (commaStep g start)
  | markup : Repeats g markupStep

theorem Repeats.advances {g : Grammar} [Lawful g] {σ : Type} {step : σ → Parse (ForInStep σ)}
    (h : Repeats g step) : Advances step := by
  cases h with
  | elements close missing hstart helement => exact advances_delimitedStep helement
  | typeOperands hoperator hoperand =>
      have hsame : Alike g g _ _ := .same hoperand
      have := gathers_operandStep hoperator hsame
      infer_instance
  | angleElements helement =>
      have := gathers_angleStep helement
      infer_instance
  | members start allowOptional =>
      exact advances_chainStep fun n => memberStep_leads n start allowOptional
  | calls start => exact advances_chainStep fun n => callStep_leads n start
  | importAttributes =>
      have : Proceeds (importAttribute g) := proceeds g
      infer_instance
  | _ => infer_instance

theorem Repeats.proceeds {g : Grammar} [Lawful g] {σ : Type} {step : σ → Parse (ForInStep σ)}
    (h : Repeats g step) (x : σ) : Proceeds (step x) := by
  cases h with
  | elements close missing hstart helement =>
      have : Alike g g _ _ := .same helement
      exact Parse.proceeds g
  | typeOperands hoperator hoperand =>
      have : Alike g g _ _ := .same hoperand
      exact Parse.proceeds g
  | angleElements helement =>
      have : Alike g g _ _ := .same helement
      exact Parse.proceeds g
  | _ => exact Parse.proceeds g

/-- While a file is read no repetition stalls, unless it stands still on a stray modifier. -/
theorem settled_file (fileName source : String) :
    (file (ParseState.ofString fileName source)).2.Settled := by
  rw [file_eq]
  have : Proceeds (statementList (grammar (fuelFor source.utf8ByteSize)) (· = .endOfFile)) :=
    Parse.proceeds (grammar (fuelFor source.utf8ByteSize))
  exact this.settled _ (ready_firstState fileName source) nofun

/-- If nothing stalls the list of statements ends by itself, too. -/
theorem ends_file {fileName source : String}
    (h : (file (ParseState.ofString fileName source)).2.stall? = none) :
    ∃ rev, (file (ParseState.ofString fileName source)).1 = rev.reverse ∧
      Ends (collectStep (statementStep (grammar (fuelFor source.utf8ByteSize)) (· = .endOfFile)))
        [] (firstState fileName source) rev (file (ParseState.ofString fileName source)).2 := by
  rw [file_eq] at h ⊢
  exact ends_collect (Parse.proceeds (grammar (fuelFor source.utf8ByteSize)))
    (ready_firstState fileName source) h

/-- The parser makes progress, on the first token of every file and wherever parsing leads from
there.

* Each round of a repetition passes over a token or is the last one. The exception are the
  parameters on a word that is no modifier of a parameter.
* The nonterminals that a rule asks for are behind a token or counted, but for the first operand of
  an operation and the literal in a type, and neither of these starts with another nonterminal.

So all repetitions end, with no bound on their rounds, and no fuel is used up, in every file in
which no list of parameters stands still. -/
theorem parser_progresses :
    (∀ fileName source, (firstState fileName source).place.Ready) ∧
    (∀ (α : Type) (p : Parse α) (s : ParseState), Proceeds p → s.place.Ready →
      (p s).2.place.Ready) ∧
    (∀ (fuel : Nat) (σ : Type) (step : σ → Parse (ForInStep σ)) (x : σ) (s : ParseState),
      Repeats (grammar fuel) step → s.place.Ready → (∃ y t, Ends step x s y t) ∧
        ∀ y, (step x s).1 = .yield y → s.place.pos < (step x s).2.place.pos) ∧
    (∀ (fuel : Nat) (x y : List Node × ParameterNotes) (s : ParseState), s.place.Ready →
      (parameterStep (grammar fuel) x s).1 = .yield y →
        s.place.pos < (parameterStep (grammar fuel) x s).2.place.pos ∨
          isStrayModifier s.scanner.token = true ∧ (modifier? .parameter s).1 = none) ∧
    (∀ (fuel : Nat) (g' : Grammar) (nt : Nonterminal) (s : ParseState), s.place.Ready →
      (∀ nt' t, Descends nt s nt' t → grammar fuel nt' t = g' nt' t) →
        rule (grammar fuel) nt s = rule g' nt s) ∧
    (∀ nt nt' nt'', Opens nt nt' → ¬ Opens nt' nt'') ∧
    (∀ (more : Nat) (s : ParseState), s.place.Ready →
      isTypeStartWithin (s.scanner.source.utf8ByteSize + 1 + more) s = isTypeStart s) ∧
    (∀ fileName source, (file (ParseState.ofString fileName source)).2.Settled ∧
      ∀ rest, fileOver rest (ParseState.ofString fileName source) =
        file (ParseState.ofString fileName source)) ∧
    (∀ (σ : Type) (step : σ → Parse (ForInStep σ)) (fuel : Nat) (x : σ) (s : ParseState),
      (∀ x, Proceeds (step x)) → s.place.Ready → (iterate step fuel x s).2.stall? = none →
        Ends step x s (iterate step fuel x s).1 (iterate step fuel x s).2) ∧
    ∀ fileName source,
      (∀ k, isStrayModifier k = true →
        (file (ParseState.ofString fileName source)).2.stall? ≠ some (.standing k)) →
      (file (ParseState.ofString fileName source)).2.stall? = none ∧
      ∃ rev, (file (ParseState.ofString fileName source)).1 = rev.reverse ∧
        Ends (collectStep (statementStep (grammar (fuelFor source.utf8ByteSize)) (· = .endOfFile)))
          [] (firstState fileName source) rev (file (ParseState.ofString fileName source)).2 := by
  refine ⟨ready_firstState, fun _ _ s hp hr => (hp.follows s hr).ready,
    fun _ _ _ x _ hstep hr => ⟨?_, ?_⟩, fun _ _ _ _ => parameterStep_moves,
    fun _ _ _ _ => rule_eq_of_descends, ?_,
    fun more _ hr => isTypeStartWithin_more more hr,
    fun fileName source =>
      ⟨settled_file fileName source, fun rest => fileOver_eq rest fileName source⟩,
    fun _ _ fuel x _ hstep hr h => ends_iterate hstep fuel x hr h, ?_⟩
  · have := hstep.advances
    exact exists_ends hstep.proceeds x hr
  · exact fun y hy => hstep.advances.moves hr hy
  · rintro _ _ _ (_ | _) ⟨⟩
  · intro fileName source hstray
    have hnone : (file (ParseState.ofString fileName source)).2.stall? = none :=
      Option.eq_none_iff_forall_not_mem.mpr fun x hx => by
        obtain ⟨k, rfl, hk⟩ := settled_file fileName source x hx
        exact hstray k hk hx
    exact ⟨hnone, ends_file hnone⟩

instance {σ : Type} (x : ForInStep σ) : Decidable (yields x) :=
  match x with
  | .done _ => .isFalse id
  | .yield _ => .isTrue trivial

theorem exists_of_yields {σ : Type} {x : ForInStep σ} (h : yields x) : ∃ y, x = .yield y := by
  cases x with
  | done y => exact h.elim
  | yield y => exact ⟨y, rfl⟩

/-- The statement of a file, and a list of parameters that stands still on a word that is
reserved. -/
theorem parser_progresses_statement :
    (let s := firstState "a.ts" "a;"
      let step := collectStep (statementStep (grammar 8) (· = .endOfFile))
      (grammar 8 .statement s).2.place.Ready ∧ (∃ y t, Ends step [] s y t) ∧
      s.place.pos < (step [] s).2.place.pos ∧
      Ends step [] s (iterate step 2 [] s).1 (iterate step 2 [] s).2 ∧
      rule (grammar (fuelFor 2)) .statement s =
        rule (grammarOver substitute (fuelFor 2)) .statement s ∧
      isTypeStartWithin 8 s = isTypeStart s) ∧
    (let s := firstState "a.ts" "const"
      let step := parameterStep (grammar 8) ([], {})
      (step s).2.place.pos = s.place.pos ∧
        isStrayModifier s.scanner.token = true ∧ (modifier? .parameter s).1 = none) ∧
    (file (ParseState.ofString "a.ts" "a;")).2.stall? = none := by
  obtain ⟨hfirst, hready, hrounds, hparameters, hdescends, -, htype, -, hends, hfile⟩ :=
    parser_progresses
  refine ⟨?_, ?_, (hfile "a.ts" "a;" fun k hk hstall => ?_).1⟩
  · intro s step
    have hs : s.place.Ready := hfirst _ _
    have hround := hrounds 8 _ step [] s (.statements _) hs
    refine ⟨hready _ _ s (Lawful.proceeds _) hs, hround.1, ?_,
      hends _ step 2 [] s (Repeats.statements _).proceeds hs ?_,
      hdescends _ _ .statement s hs fun nt t ht => grammarOver_eq _ ht.beyond.ready ?_,
      htype 5 s hs⟩
    · obtain ⟨y, hy⟩ : ∃ y, (step [] s).1 = .yield y := exists_of_yields (by decide +kernel)
      exact hround.2 y hy
    · exact Option.isNone_iff_eq_none.mp (by decide +kernel)
    · have hsource : t.scanner.source = "a;" := ht.beyond.source.trans (source_firstState _ _)
      have hheight := height_lt_fuelFor nt t
      rwa [hsource] at hheight
  · intro s step
    have hpos : (step s).2.place.pos = s.place.pos := by decide +kernel
    obtain ⟨y, hy⟩ : ∃ y, (step s).1 = .yield y := exists_of_yields (by decide +kernel)
    exact ⟨hpos, (hparameters 8 _ y s (hfirst _ _) hy).resolve_left hpos.not_gt⟩
  · have hnone : (file (ParseState.ofString "a.ts" "a;")).2.stall? = none := by decide +kernel
    rw [hnone] at hstall
    cases hstall

end Erasure.Parse

import Erasure.Proofs.Parse.Alike.Chains
import Erasure.Proofs.Parse.Tests

/-!
Statement lists, parameters and functions over two grammars, and the progress of their lists. The
list of parameters is the one that can stand still: a word that starts a parameter as a modifier,
but is neither one there nor a name. What a test tells that depends on nothing but the place and the
context, it tells there again.
-/

namespace Erasure.Parse

/-- What the parser gives and where it leads depends on nothing but the place and the context. -/
class Local {α : Type} (p : Parse α) : Prop where
  same : ∀ {s t : ParseState}, s.spot = t.spot → (p s).1 = (p t).1 ∧ (p s).2.spot = (p t).2.spot

section
variable {α β : Type} {p q : Parse α} {f : α → Parse β}

theorem Local.bind (hp : Local p) (hf : ∀ x, Local (f x)) : Local (p >>= f) := by
  refine ⟨fun {s t} h => ?_⟩
  have hfirst := hp.same h
  have hnext := (hf (p s).1).same hfirst.2
  rw [show (p >>= f) t = f (p t).1 (p t).2 from rfl, ← hfirst.1]
  exact hnext

instance [hp : Local p] [hf : ∀ x, Local (f x)] : Local (p >>= f) := .bind hp hf

instance (x : α) : Local (pure x : Parse α) := ⟨fun h => ⟨rfl, h⟩⟩

instance (c : Prop) [Decidable c] [Local p] [Local q] : Local (if c then p else q) := by
  split <;> infer_instance

theorem scanner_of_spot {s t : ParseState} (h : s.spot = t.spot) : s.scanner = t.scanner :=
  congrArg (fun a => a.place.scanner) h

instance : Local token := ⟨fun h => ⟨congrArg Scanner.token (scanner_of_spot h), h⟩⟩

instance : Local afterLineBreak :=
  ⟨fun h => ⟨congrArg (fun c => c.flags.precedingLineBreak) (scanner_of_spot h), h⟩⟩

instance : Local context := ⟨fun h => ⟨congrArg Spot.context h, h⟩⟩

instance : Local advance := by
  refine ⟨fun {s t} h => ⟨rfl, ?_⟩⟩
  show Spot.mk ⟨s.scanner.scan, s.scanner.stop⟩ s.context =
    ⟨⟨t.scanner.scan, t.scanner.stop⟩, t.context⟩
  rw [scanner_of_spot h, show s.context = t.context from congrArg Spot.context h]

instance (k : TokenKind) : Local (isToken k) := by unfold isToken; infer_instance

instance (ks : List TokenKind) : Local (isOneOf ks) := by unfold isOneOf; infer_instance

instance [hproceeds : Proceeds p] [hp : Local p] : Local (lookAhead p) := by
  refine ⟨fun {s t} h => ⟨(hp.same h).1, ?_⟩⟩
  rw [Stays.spot, Stays.spot, h]

instance {test : Parse Bool} [Proceeds test] [Local test] : Local (nextIs test) := by
  unfold nextIs
  infer_instance

instance (k : TokenKind) : Local (nextIsToken k) := by unfold nextIsToken; infer_instance

instance : Local next := by unfold next; infer_instance

instance : Local isIdentifier := by unfold isIdentifier; infer_instance

instance : Local isIdentifierOrKeyword := by unfold isIdentifierOrKeyword; infer_instance

instance : Local isLiteralKey := by unfold isLiteralKey; infer_instance

instance : Local canFollowModifier := by unfold canFollowModifier; infer_instance

instance : Local canFollowExport := by unfold canFollowExport; infer_instance

instance (k : TokenKind) : Local (nextIsOnSameLine k) := by unfold nextIsOnSameLine; infer_instance

instance : Local nextCanFollowDefault := by
  unfold nextCanFollowDefault
  refine .bind inferInstance fun k => ?_
  split <;> infer_instance

instance (k : TokenKind) (place : ModifierPlace) : Local (modifierIsFollowed k place) := by
  unfold modifierIsFollowed
  split
  case h_4 =>
    refine .bind inferInstance fun k => ?_
    split <;> infer_instance
  all_goals infer_instance

instance (place : ModifierPlace) : Local (modifier? place) := by
  unfold modifier?
  infer_instance

instance : Local isBindingStart := by unfold isBindingStart; infer_instance

end

set_option synthInstance.maxSize 5000

variable {g g' : Grammar} [Lawful g]

instance (isEnd : TokenKind → Bool) :
    Alike g g' (statementStep g isEnd) (statementStep g' isEnd) := by
  unfold statementStep
  infer_instance

instance (isEnd : TokenKind → Bool) : Gathers (statementStep g isEnd) := by
  refine .of_leads fun n => ?_
  unfold statementStep
  refine .token fun k => .ite (fun _ => .stop nofun) fun hk => .known (fun hend => hk ?_) ?_
  · rw [hend]
    simp
  · refine .stay fun _ => .branch (fun _ => ?_) fun _ => .stay fun _ =>
      .advance (.rest inferInstance)
    refine .start fun start hstart => .step inferInstance fun _ => ?_
    exact .guardUnlessEnded hstart (.rest inferInstance)

instance (isEnd : TokenKind → Bool) :
    Alike g g' (statementList g isEnd) (statementList g' isEnd) := by
  unfold statementList
  infer_instance

instance : Alike g g' (block g) (block g') := by
  unfold block
  infer_instance

instance : Alike g g' (typeParameter g) (typeParameter g') := by
  unfold typeParameter
  infer_instance

section
variable {element element' : Parse Node}

instance [Alike g g' element element'] : Alike g g' (angleStep element) (angleStep element') := by
  unfold angleStep
  infer_instance

theorem gathers_angleStep (helement : Proceeds element) : Gathers (angleStep element) := by
  refine .of_leads fun n => ?_
  unfold angleStep
  exact .ifAtClose (.stop (by simp [gathers])) (.step helement fun _ =>
    .accept (by decide) (.rest inferInstance) (.stop (by simp [gathers])))

instance [h : Alike g g' element element'] :
    Alike g g' (angleList? element) (angleList? element') := by
  have := gathers_angleStep h.proceeds
  unfold angleList?
  infer_instance

end

instance : Alike g g' (typeParameters? g) (typeParameters? g') := by
  unfold typeParameters?
  infer_instance

instance : Alike g g' (typeArguments? g) (typeArguments? g') := by
  unfold typeArguments?
  infer_instance

instance : Alike g g' (typeArgumentsOnLine? g) (typeArgumentsOnLine? g') := by
  unfold typeArgumentsOnLine?
  infer_instance

instance (notes : ParameterNotes) : Alike g g' (parameter g notes) (parameter g' notes) := by
  unfold parameter
  infer_instance

instance (x : List Node × ParameterNotes) :
    Alike g g' (parameterStep g x) (parameterStep g' x) := by
  unfold parameterStep
  refine .bind inferInstance fun _ => ?_
  split
  · infer_instance
  · refine .bind inferInstance fun _ => ?_
    split
    · infer_instance
    · refine .bind inferInstance fun _ => .bind inferInstance fun ⟨_, _⟩ => ?_
      infer_instance

/-- A word that stands here is a modifier of a parameter. -/
def modifies (a : Spot) : Prop :=
  ∀ s : ParseState, s.spot = a → (modifier? .parameter s).1 ≠ none

/-- A name or pattern starts here. -/
def binds (a : Spot) : Prop :=
  ∀ s : ParseState, s.place.Ready → s.spot = a → (isBindingStart s).1 = true

/-- A parameter starts here, and not with a stray modifier. -/
structure StartsParameter (n : Nat) (a : Spot) : Prop where
  le : n ≤ a.pos
  kind : a.token ∈ [.ellipsis, .atSign, .thisKw] ∨ binds a ∨ a.token.isModifier = true
  notStray : isStrayModifier a.token = true → modifies a

theorem modifies_of_ne_none {s : ParseState} (h : (modifier? .parameter s).1 ≠ none) :
    modifies s.spot :=
  fun _ ht => by rwa [(Local.same ht).1]

theorem binds_of_isBindingStart {s : ParseState} (h : (isBindingStart s).1 = true) :
    binds s.spot :=
  fun _ _ ht => by rwa [(Local.same ht).1]

theorem isParameterStart_leads (a : Spot) :
    Leads (fun b => b = a) isParameterStart fun found _ => found = true →
      a.token ∈ [.ellipsis, .atSign, .thisKw] ∨ binds a ∨ a.token.isModifier = true := by
  unfold isParameterStart
  refine .ask (R := fun found b => found = true → b.token ∈ [.ellipsis, .atSign, .thisKw])
    (fun _ => mem_of_isOneOf) fun _ => .branch
    (fun h => .pure fun b hb _ => .inl (hb.1 ▸ hb.2 h)) fun _ => ?_
  refine .ask (R := fun found b => found = true → binds b) (fun _ => binds_of_isBindingStart)
    fun _ => .branch (fun h => .pure fun b hb _ => .inr (.inl (hb.1.1 ▸ hb.2 h))) fun _ => ?_
  exact .token fun k => .pure fun b hb h => .inr (.inr (hb.1.1.1 ▸ hb.2.symm ▸ h))

/-- Words that are modifiers of a parameter are names everywhere; the other modifiers are stray. -/
theorem name_of_isModifier {k : TokenKind} (h : k.isModifier = true)
    (hstray : isStrayModifier k = false) :
    k ≠ .yieldKw ∧ k ≠ .awaitKw ∧ k.isIdentifierLike = true := by
  unfold TokenKind.isModifier at h
  split at h
  all_goals first | decide | cases hstray | cases h

theorem binds_of_isModifier {a : Spot} (h : a.token.isModifier = true)
    (hstray : isStrayModifier a.token = false) : binds a := by
  obtain ⟨hyield, hawait, hname⟩ := name_of_isModifier h hstray
  have hleads : Leads (fun b => b = a) isBindingStart fun found _ => found = true := by
    unfold isBindingStart
    refine .bind (R := fun found _ => found = true) ?_ fun found => .branch
      (fun _ => .pure fun _ _ => rfl) fun hfound => .of_false fun _ hb => ?_
    · unfold isIdentifier
      refine .token fun k => .stay fun c => .ite (fun h => .of_false fun b hb => ?_) fun _ =>
        .ite (fun h => .of_false fun b hb => ?_) fun _ => .pure fun b hb => ?_
      · exact hyield (hb.1 ▸ hb.2.trans (of_decide_eq_true (Bool.and_elim_left h)))
      · exact hawait (hb.1 ▸ hb.2.trans (of_decide_eq_true (Bool.and_elim_left h)))
      · rw [← hb.2, hb.1]
        exact hname
    · rw [hb] at hfound
      cases hfound
  exact fun s hr hs => (hleads s hr hs).2

section
variable {n : Nat} {K : Spot → Prop} [From n K]

theorem decorators_leads :
    Leads K (decorators g) fun _ a => past n a ∨ K a ∧ a.token ≠ .atSign := by
  unfold decorators
  refine .collect (proceeds g) ?_ fun _ => .inl
  unfold decoratorStep
  refine .stay fun _ => .acceptOther (n := n) (by decide) ?_ (.pure fun _ => .inr)
  exact .bind (.keep (proceeds g)) fun _ => .bind (.keep inferInstance) fun _ =>
    .pure fun _ ha => ha

theorem modifiers_leads :
    Leads K (modifiers .parameter) fun _ a => past n a ∨ K a ∧ ¬ modifies a := by
  unfold modifiers
  refine .loop inferInstance ?_ fun _ => .inl
  unfold modifierStep
  refine .ask (R := fun k? a => (k?.isSome = true → a.token ≠ .endOfFile) ∧
    (k? = none → ¬ modifies a)) (fun s => ⟨fun h => ?_, fun h hs => hs s rfl h⟩) fun k? => ?_
  · exact ne_endOfFile_of_modifier? h
  · split
    · exact .pure fun _ ha => .inr ⟨ha.1, ha.2.2 rfl⟩
    · exact .alive (fun _ ha => ha.2.1 rfl) (.stay fun _ => .advance (.pure fun _ ha => ha))

end

instance {n : Nat} : From n (StartsParameter n) := ⟨StartsParameter.le⟩

theorem parameter_leads (n : Nat) (notes : ParameterNotes) :
    Leads (StartsParameter n) (parameter g notes) fun _ => past n := by
  unfold parameter
  refine .stay fun _ => .bind (decorators_leads (n := n)) fun ds => .either (.keep (proceeds g)) ?_
  refine .ask (R := fun found a => found = decide (a.token = .thisKw)) (fun _ => rfl) fun found =>
    .ite (fun h => ?_) fun hthis => ?_
  · refine .bind (.weaken (identifierName_leads n) fun a ha => ⟨From.le ha.1.1, ?_⟩) fun _ =>
      .keep (proceeds g)
    rw [of_decide_eq_true (ha.2.symm.trans h)]
    rfl
  refine .bind (modifiers_leads (n := n)) fun ms => .either (.keep (proceeds g)) (.stay fun _ => ?_)
  refine .acceptOther (n := n) (by decide) (.keep (proceeds g)) ?_
  refine .bind (R := fun _ => past n) (fun s hr hs => ?_) fun _ => .keep (proceeds g)
  obtain ⟨⟨⟨⟨hstart, hat⟩, hfound⟩, hno⟩, hdots⟩ := hs
  have hbinds : binds s.spot := by
    obtain hmem | hbinds | hmodifier := hstart.kind
    · simp_all
    · exact hbinds
    · refine binds_of_isModifier hmodifier (Bool.eq_false_iff.mpr fun hstray => ?_)
      exact hno (hstart.notStray hstray)
  exact ⟨((proceeds g).follows s hr).ready,
    lt_of_le_of_lt hstart.le (Lawful.binds hr (hbinds s hr rfl))⟩

/-- A round that begins on no stray modifier passes over a token, and so does one that begins on a
modifier of a parameter. -/
theorem parameterStep_leads (n : Nat) (x : List Node × ParameterNotes) :
    Leads (fun a => since n a ∧ (isStrayModifier a.token = true → modifies a)) (parameterStep g x)
      (moved yields n) := by
  unfold parameterStep
  refine .ask (R := fun found a => found = false → a.token ≠ .endOfFile) (fun _ => ne_of_atClose)
    fun atEnd => .branch (fun _ => .stop id) fun hend => ?_
  refine .learn isParameterStart_leads fun found => .ite (fun _ => ?_) fun hfound => ?_
  · refine .alive (n := n) (fun a ha => ha.1.2 hend) (.stay fun _ => .stay fun _ => ?_)
    exact .branch (fun _ => .stop id) fun _ => .advance (.rest inferInstance)
  · refine .stay fun _ => .bind (.weaken (parameter_leads n _) fun a ha => ?_) fun ⟨_, _⟩ =>
      .rest inferInstance
    exact ⟨ha.1.1.1, ha.2 (by simpa using hfound), ha.1.1.2⟩

/-- Of the parameters only a stray modifier that is none of a parameter is not passed over. -/
theorem parameterStep_moves {x y : List Node × ParameterNotes} {s : ParseState}
    (hr : s.place.Ready) (hy : (parameterStep g x s).1 = .yield y) :
    s.place.pos < (parameterStep g x s).2.place.pos ∨
      isStrayModifier s.scanner.token = true ∧ (modifier? .parameter s).1 = none := by
  by_cases h : isStrayModifier s.scanner.token = true ∧ (modifier? .parameter s).1 = none
  · exact .inr h
  · refine .inl ((parameterStep_leads s.place.pos x s hr ⟨le_rfl, fun hstray => ?_⟩).2 ?_)
    · exact modifies_of_ne_none fun hnone => h ⟨hstray, hnone⟩
    · rw [hy]
      trivial

instance : Progresses (parameterStep g) :=
  ⟨fun hr hy => (parameterStep_moves hr hy).imp_right And.left⟩

instance : Alike g g' (parameterList g) (parameterList g') := by
  unfold parameterList
  refine .bind inferInstance fun ⟨_, _⟩ => ?_
  infer_instance

instance (isAsync isGenerator : Bool) :
    Alike g g' (parameters g isAsync isGenerator) (parameters g' isAsync isGenerator) := by
  unfold parameters
  infer_instance

instance : Alike g g' (typeOrPredicate g) (typeOrPredicate g') := by
  unfold typeOrPredicate
  infer_instance

instance : Alike g g' (returnType? g) (returnType? g') := by
  unfold returnType?
  infer_instance

instance (isAsync isGenerator : Bool) :
    Alike g g' (functionBody g isAsync isGenerator) (functionBody g' isAsync isGenerator) := by
  unfold functionBody
  infer_instance

instance (isAsync isGenerator bodyRequired : Bool) :
    Alike g g' (functionBody? g isAsync isGenerator bodyRequired)
      (functionBody? g' isAsync isGenerator bodyRequired) := by
  unfold functionBody?
  infer_instance

instance (start : Nat) (isAsync isGenerator bodyRequired : Bool) :
    Alike g g' (functionRest g start isAsync isGenerator bodyRequired)
      (functionRest g' start isAsync isGenerator bodyRequired) := by
  unfold functionRest
  infer_instance

end Erasure.Parse

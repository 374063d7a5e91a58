import Mathlib.Data.Set.Lattice
import Erasure.Check.File
import Erasure.Proofs.Check.Jumps
import Erasure.Proofs.Parse.Genuine

/-!
Which jumps the check reports. What a step of the check can reach by a jump is a list that every
loop, switch and label extends and that every function starts anew. So the statements in the list
are those that stand between a jump and the innermost function around it, and a jump is reported
exactly if its target is none of them.
-/

namespace Erasure

/-- The messages for jumps without a target. -/
def Message.isJump (m : Message) : Bool :=
  m = .breakOutsideLoop || m = .continueOutsideLoop || m = .breakToLabel || m = .continueToLabel

theorem Message.isJump_of_code {m m' : Message} (h : m.code = m'.code) (h' : m'.isJump = true) :
    m.isJump = true := by
  simp only [isJump, Bool.or_eq_true, decide_eq_true_eq] at h'
  rcases h' with ((rfl | rfl) | rfl) | rfl
  all_goals
    revert h
    cases m <;> decide

theorem Message.eq_of_code {m m' : Message} (h : m.isJump = true) (h' : m'.isJump = true)
    (hcode : m.code = m'.code) : m = m' := by
  simp only [isJump, Bool.or_eq_true, decide_eq_true_eq] at h h'
  rcases h with ((rfl | rfl) | rfl) | rfl <;> rcases h' with ((rfl | rfl) | rfl) | rfl <;>
    first
      | rfl
      | cases hcode

/-- Messages with their places. -/
abbrev Reports := Set (Message × Span)

namespace CheckState

/-- The errors of a state and the notes on them agree, and are not too many. -/
structure Sound (s : CheckState) : Prop where
  reported : ∀ d ∈ s.errorsRev, (d.start, d.code) ∈ s.reported
  found : ∀ key ∈ s.reported, ∃ d ∈ s.errorsRev, (d.start, d.code) = key
  size : s.reported.size = s.errorsRev.length
  limit : s.reported.size ≤ Limits.diagnostics

/-- A state after another one, between which jumps were reported. -/
structure Adds (R : Reports) (s t : CheckState) : Prop where
  sound : s.Sound → t.Sound
  size_le : s.reported.size ≤ t.reported.size
  keeps : ∀ key ∈ s.reported, key ∈ t.reported
  /-- No other errors of jumps were added. -/
  only : ∀ d ∈ t.errorsRev, d ∈ s.errorsRev ∨ (∀ m : Message, m.isJump = true → d.code ≠ m.code) ∨
    ∃ r ∈ R, d = Diagnostic.ofMessage r.1 r.2.start r.2.length []
  /-- None of them is missing, unless there were too many. -/
  complete : t.reported.size < Limits.diagnostics → ∀ r ∈ R, (r.2.start, r.1.code) ∈ t.reported

theorem Adds.refl (s : CheckState) : Adds ∅ s s :=
  ⟨id, Nat.le_refl _, fun _ => id, fun _ => .inl, fun _ _ => False.elim⟩

theorem Adds.trans {R S : Reports} {s t u : CheckState} (h : Adds R s t) (h' : Adds S t u) :
    Adds (R ∪ S) s u where
  sound := h'.sound ∘ h.sound
  size_le := h.size_le.trans h'.size_le
  keeps key hkey := h'.keeps key (h.keeps key hkey)
  only d hd := by
    rcases h'.only d hd with hd | hother | ⟨r, hr, rfl⟩
    · rcases h.only d hd with hd | hother | ⟨r, hr, rfl⟩
      · exact .inl hd
      · exact .inr (.inl hother)
      · exact .inr (.inr ⟨r, .inl hr, rfl⟩)
    · exact .inr (.inl hother)
    · exact .inr (.inr ⟨r, .inr hr, rfl⟩)
  complete hsize r hr := by
    rcases hr with hr | hr
    · exact h'.keeps _ (h.complete (h'.size_le.trans_lt hsize) r hr)
    · exact h'.complete hsize r hr

theorem sound_error {s : CheckState} (h : s.Sound) (m : Message) (span : Span)
    (args : List String) : (s.error m span args).Sound := by
  unfold error
  dsimp only
  split
  · exact h
  · rename_i hnew
    simp only [Bool.or_eq_true, decide_eq_true_eq, not_or, Bool.not_eq_true] at hnew
    refine ⟨?_, ?_, ?_, Std.HashSet.size_insert_le.trans (Nat.lt_of_not_le hnew.1)⟩
    · simp only [List.mem_cons, Std.HashSet.mem_insert, beq_iff_eq]
      rintro d (rfl | hd)
      · exact .inl rfl
      · exact .inr (h.reported d hd)
    · simp only [List.mem_cons, Std.HashSet.mem_insert, beq_iff_eq]
      rintro key (rfl | hkey)
      · exact ⟨_, .inl rfl, rfl⟩
      · obtain ⟨d, hd, heq⟩ := h.found key hkey
        exact ⟨d, .inr hd, heq⟩
    · have hnew : (span.start, m.code) ∉ s.reported := by
        rw [← Std.HashSet.contains_iff_mem, hnew.2]
        exact Bool.false_ne_true
      rw [Std.HashSet.size_insert, if_neg hnew, h.size, List.length_cons]

/-- An error adds itself, and other errors do not count. -/
theorem adds_error (s : CheckState) (m : Message) (span : Span) (args : List String)
    (hargs : m.isJump = true → args = []) :
    Adds {r | m.isJump = true ∧ r = (m, span)} s (s.error m span args) := by
  have hsound := fun h : s.Sound => sound_error h m span args
  unfold error at hsound ⊢
  dsimp only at hsound ⊢
  split
  · rename_i hold
    refine ⟨id, Nat.le_refl _, fun _ => id, fun _ => .inl, ?_⟩
    rintro hsize r ⟨-, rfl⟩
    rcases Bool.or_eq_true_iff.mp hold with hcap | hold
    · exact absurd hsize (Nat.not_lt.mpr (of_decide_eq_true hcap))
    · exact Std.HashSet.contains_iff_mem.mp hold
  · rename_i hnew
    rw [if_neg hnew] at hsound
    refine ⟨hsound, Std.HashSet.size_le_size_insert, fun key hkey => ?_, fun d hd => ?_, ?_⟩
    · exact Std.HashSet.mem_insert.mpr (.inr hkey)
    · rcases List.mem_cons.mp hd with rfl | hd
      · cases hm : m.isJump with
        | true =>
            rw [hargs hm]
            exact .inr (.inr ⟨(m, span), ⟨rfl, rfl⟩, rfl⟩)
        | false =>
            refine .inr (.inl fun m' hm' heq => ?_)
            rw [Message.isJump_of_code heq hm'] at hm
            cases hm
      · exact .inl hd
    · rintro - r ⟨-, rfl⟩
      exact Std.HashSet.mem_insert_self

end CheckState

namespace Check

open CheckState (Adds)

/-- A step that reports these jumps, wherever the check has got to. -/
def Reporting {α : Type} (R : Reports) (p : CheckPlace) (c : Check α) : Prop :=
  ∀ s : CheckState, Adds R s (c p s).2

/-- A step that reports no jumps. -/
def Quiet {α : Type} (c : Check α) : Prop := ∀ p, Reporting ∅ p c

section
variable {α β γ : Type} {R S : Reports} {p : CheckPlace} {c : Check α} {f : α → Check β}

namespace Reporting

theorem of_eq (h : Reporting R p c) (heq : R = S) : Reporting S p c := heq ▸ h

theorem bind (h : Reporting R p c) (hf : ∀ x, Reporting S p (f x)) :
    Reporting (R ∪ S) p (c >>= f) :=
  fun s => (h s).trans (hf _ _)

/-- A quiet step that comes first. -/
theorem after (h : Quiet c) (hf : ∀ x, Reporting S p (f x)) : Reporting S p (c >>= f) :=
  (bind (h p) hf).of_eq (Set.empty_union S)

/-- A quiet step that comes last. -/
theorem before (h : Reporting R p c) (hf : ∀ x, Quiet (f x)) : Reporting R p (c >>= f) :=
  (bind h fun x => hf x p).of_eq (Set.union_empty R)

theorem read {f : CheckPlace → Check β} (h : Reporting R p (f p)) :
    Reporting R p (MonadReader.read >>= f) := h

theorem withReader {g : CheckPlace → CheckPlace} (h : Reporting R (g p) c) :
    Reporting R p (MonadWithReader.withReader g c) := h

theorem ite {b : Prop} [Decidable b] {d : Check α} (hc : b → Reporting R p c)
    (hd : ¬ b → Reporting R p d) : Reporting R p (if b then c else d) := by
  split
  · exact hc ‹_›
  · exact hd ‹_›

theorem forM {as : List γ} {f : γ → Check Unit} {r : γ → Reports}
    (h : ∀ a ∈ as, Reporting (r a) p (f a)) : Reporting (⋃ a ∈ as, r a) p (as.forM f) := by
  induction as with
  | nil =>
      refine .of_eq (fun s => .refl s) ?_
      simp
  | cons a as ih =>
      obtain ⟨ha, has⟩ := List.forall_mem_cons.mp h
      refine .of_eq (.bind ha fun _ => ih has) ?_
      simp

theorem option {o : Option γ} {f : γ → Check Unit} {r : γ → Reports}
    (h : ∀ a, Reporting (r a) p (f a)) : Reporting (⋃ a ∈ o.toList, r a) p (o.forM f) := by
  cases o with
  | none => exact .of_eq (fun s => .refl s) (by simp)
  | some a => exact .of_eq (h a) (by simp)

end Reporting

namespace Quiet

theorem pure (x : α) : Quiet (pure x : Check α) := fun _ s => .refl s

theorem bind (h : Quiet c) (hf : ∀ x, Quiet (f x)) : Quiet (c >>= f) :=
  fun p => .after h fun x => hf x p

theorem read {f : CheckPlace → Check β} (h : ∀ p, Quiet (f p)) :
    Quiet (MonadReader.read >>= f) := fun p => h p p

theorem ite {b : Prop} [Decidable b] {d : Check α} (hc : b → Quiet c) (hd : ¬ b → Quiet d) :
    Quiet (if b then c else d) := by
  split
  · exact hc ‹_›
  · exact hd ‹_›

theorem forM {as : List γ} {f : γ → Check Unit} (h : ∀ a ∈ as, Quiet (f a)) :
    Quiet (as.forM f) := by
  refine fun p => .of_eq (.forM fun a ha => h a ha p) ?_
  simp

theorem option {o : Option γ} {f : γ → Check Unit} (h : ∀ a, Quiet (f a)) : Quiet (o.forM f) := by
  refine fun p => .of_eq (.option fun a => h a p) ?_
  simp

theorem error {m : Message} (h : m.isJump = false) (span : Span) (args : List String) :
    Quiet (Check.error m span args) := by
  intro p s
  have hadds := s.adds_error m span args fun hjump => by
    rw [h] at hjump
    cases hjump
  have hempty : {r : Message × Span | m.isJump = true ∧ r = (m, span)} = ∅ := by
    rw [h]
    simp
  exact hempty ▸ hadds

end Quiet
end

theorem quiet_overloads (statements : List Node) : Quiet (overloads statements) :=
  .read fun _ => .ite (fun _ => .forM fun _ _ => .error rfl _ _) fun _ => .pure ()

theorem quiet_unknownName (name : String) (span : Span) : Quiet (unknownName name span) :=
  .read fun _ => .ite (fun _ => .error rfl _ _) fun _ => .pure ()

theorem isJump_earlyUse? {offset : Nat} {d : Declaration} {m : Message}
    (h : CheckPlace.earlyUse? offset d = some m) : m.isJump = false := by
  unfold CheckPlace.earlyUse? at h
  split at h
  · split at h <;> cases h
    rfl
  · split at h
    · split at h <;> cases h <;> rfl
    · cases h

theorem quiet_useAfterDeclaration (id : SymbolId) (span : Span) :
    Quiet (useAfterDeclaration id span) := by
  refine .read fun p => .ite (fun _ => ?_) fun _ => .pure ()
  split
  · split
    · rename_i hm
      exact .ite (fun _ => .error (isJump_earlyUse? hm) _ _) fun _ => .pure ()
    · exact .pure ()
  · exact .pure ()

theorem quiet_valueName (name : String) (span : Span) : Quiet (valueName name span) := by
  refine .read fun p => .ite (fun _ => .pure ()) fun _ => ?_
  split
  · exact quiet_useAfterDeclaration _ span
  · refine .ite (fun _ => .ite (fun _ => .error rfl _ _) fun _ => .pure ()) fun _ => ?_
    exact .ite (fun _ => quiet_unknownName name span) fun _ => .pure ()

theorem quiet_exportedName (name : String) (span : Span) : Quiet (exportedName name span) :=
  .read fun _ => .ite (fun _ => quiet_unknownName name span) fun _ => .pure ()

theorem quiet_typeName (name : EntityName) : Quiet (typeName name) := by
  refine .read fun p => ?_
  split
  · refine .ite (fun _ => ?_) fun _ => .pure ()
    split
    · exact .ite (fun _ => .error rfl _ _) fun _ => .pure ()
    · exact .pure ()
  · exact .pure ()

theorem quiet_target (t : AssignmentTarget) : Quiet (target t) := by
  cases t with
  | variable_ name span =>
      refine .read fun p => .ite (fun _ => ?_) fun _ => .pure ()
      split
      · refine .ite (fun _ => .error rfl _ _) fun _ => ?_
        exact .ite (fun _ => .error rfl _ _) fun _ => .pure ()
      · exact .pure ()
  | ownProperty name =>
      exact .read fun p => .ite (fun _ => .error rfl _ _) fun _ => .pure ()
  | invalid span => exact .error rfl span []

theorem quiet_targets (ts : List AssignmentTarget) : Quiet (ts.forM target) :=
  .forM fun t _ => quiet_target t

theorem quiet_assignable (value type : Node) (span : Span) :
    Quiet (assignable value type span) := by
  refine .read fun p => ?_
  dsimp only
  split
  · split
    · exact .forM fun _ _ => .error rfl _ _
    · exact .pure ()
  · exact .pure ()

theorem quiet_annotated (name : Node) (type? initial? : Option Node) :
    Quiet (annotated name type? initial?) := by
  refine .read fun p => .ite (fun _ => ?_) fun _ => .pure ()
  split
  · exact quiet_assignable _ _ _
  · exact .pure ()

theorem quiet_parameterProperties (ps : List Node) (isAllowed : Bool) :
    Quiet (parameterProperties ps isAllowed) :=
  .forM fun _ _ => .ite (fun _ => .error rfl _ _) fun _ => .pure ()

theorem quiet_superReference (span : Span) : Quiet (superReference span) :=
  .read fun _ => .ite (fun _ => .error rfl _ _) fun _ => .pure ()

theorem quiet_moduleAssignment {m : Message} (h : m.isJump = false) (span : Span) :
    Quiet (moduleAssignment m span) :=
  .read fun _ => .ite (fun _ => .error h _ _) fun _ => .pure ()

theorem quiet_memberRules (c : ClassLike) : Quiet (memberRules c) := by
  refine .read fun p => .ite (fun _ => ?_) fun _ => .pure ()
  refine .bind (.forM fun _ _ => .error rfl _ _) fun _ => .ite (fun _ => ?_) fun _ => .pure ()
  refine .forM fun member _ => .read fun p => ?_
  split
  · exact .ite (fun _ => .error rfl _ _) fun _ => .pure ()
  · exact .pure ()

theorem quiet_exportList (specifiers : List ExportSpecifier) : Quiet (exportList specifiers) := by
  refine .forM fun s _ => ?_
  split
  · exact .ite (fun _ => .pure ()) fun _ => quiet_exportedName _ _
  · exact .pure ()

end Check

/-- What a jump can refer to a statement by. -/
def Form.jumpTarget? : Form → Option JumpTarget
  | .doStmt _ _ | .whileStmt _ _ | .forStmt _ _ _ _ | .forInStmt _ _ _ | .forOfStmt _ _ _ _ =>
      some .iteration
  | .switchStmt _ _ => some .switch
  | .labeledStmt label body => some (.label label.text body.isIteration)
  | _ => none

/-- The targets that these statements are. -/
def jumpTargets (around : List Node) : List JumpTarget :=
  around.filterMap fun n => n.form.jumpTarget?

theorem any_jumpTargets {isTarget : JumpTarget → Bool} (test : Form → Bool)
    (h : ∀ form, test form = form.jumpTarget?.any isTarget) (around : List Node) :
    (jumpTargets around).any isTarget = around.any fun n => test n.form := by
  rw [jumpTargets, List.any_filterMap]
  refine congrArg (fun f => around.any f) (funext fun n => ?_)
  rw [h]
  cases n.form.jumpTarget? <;> rfl

/-- The error for a jump among these statements. -/
def Form.jumpError? (around : List Node) (form : Form) : Option Message :=
  form.jump?.bind fun (m, isTarget) => if around.any fun n => isTarget n.form then none else some m

theorem Form.jumpError?_eq_some {around : List Node} {form : Form} {m : Message} :
    form.jumpError? around = some m ↔ ∃ isTarget, form.jump? = some (m, isTarget) ∧
      ∀ s ∈ around, isTarget s.form = false := by
  simp only [jumpError?, Option.bind_eq_some_iff, Prod.exists]
  constructor
  · rintro ⟨m', isTarget, hjump, hnone⟩
    split at hnone <;> cases hnone
    rename_i htarget
    exact ⟨isTarget, hjump, by simpa using htarget⟩
  · rintro ⟨isTarget, hjump, htarget⟩
    refine ⟨m, isTarget, hjump, if_neg ?_⟩
    simpa using htarget

theorem Form.isJump_of_jump? {form : Form} {m : Message} {isTarget : Form → Bool}
    (h : form.jump? = some (m, isTarget)) : m.isJump = true := by
  unfold jump? at h
  split at h <;> cases h <;> rfl

theorem breakError?_jumpTargets (around : List Node) (label? : Option Identifier) :
    breakError? (jumpTargets around) label? = (Form.breakStmt label?).jumpError? around := by
  cases label? with
  | none =>
      rw [breakError?, any_jumpTargets fun f => f.isLoop || f.isSwitch]
      · rfl
      · intro form
        cases form <;> rfl
  | some label =>
      rw [breakError?, any_jumpTargets (Form.hasLabel label.text)]
      · rfl
      · intro form
        cases form <;> rfl

theorem continueError?_jumpTargets (around : List Node) (label? : Option Identifier) :
    continueError? (jumpTargets around) label? = (Form.continueStmt label?).jumpError? around := by
  cases label? with
  | none =>
      rw [continueError?, any_jumpTargets Form.isLoop]
      · rfl
      · intro form
        cases form <;> rfl
  | some label =>
      rw [continueError?, any_jumpTargets (Form.labelsLoop label.text)]
      · rfl
      · intro form
        cases form <;> first
          | rfl
          | exact Bool.and_comm _ _

/-- What is reported of a node that stands among these statements. -/
def Node.missing (around : List Node) (n : Node) : Reports :=
  {r | n.form.jumpError? around = some r.1 ∧ r.2 = n.span}

theorem Node.missing_of_noJump {n : Node} (h : n.form.jump? = none) (around : List Node) :
    n.missing around = ∅ := by
  ext r
  simp [missing, Form.jumpError?, h]

/-- What is reported of the parts of a node, if this is reported of each one. -/
def JumpParts.reports (q : JumpParts) (r : List Node → Node → Reports) (around : List Node)
    (n : Node) : Reports :=
  (⋃ c ∈ q.plain, r around c) ∪ (⋃ c ∈ q.governed, r (n :: around) c) ∪ ⋃ c ∈ q.secluded, r [] c

theorem Node.governed_propertyParts (n : Node) : n.propertyParts.governed = [] := by
  unfold propertyParts
  split <;> rfl

/-- Forms whose parts are not reached in the same way as the parts of most others. -/
def Form.hasOwnParts : Form → Bool
  | .objectLiteral _ _ | .arrowFunction _ _ | .functionLike _ | .classLike _ | .classMember _ _ _
  | .heritage true _ _ | .moduleDeclaration _ _ _ _ => true
  | _ => false

namespace Check

open CheckState (Adds)

section
variable {walk : Node → Check Unit} {r : List Node → Node → Reports} {around : List Node}
  {p : CheckPlace}

/-- A walk that reports this of every node, wherever the node stands. -/
def WalkReports (r : List Node → Node → Reports) (walk : Node → Check Unit) : Prop :=
  ∀ around n p, p.jumpTargets = jumpTargets around → Reporting (r around n) p (walk n)

namespace WalkReports

variable (h : WalkReports r walk)
include h

theorem all (ns : List Node) (hp : p.jumpTargets = jumpTargets around) :
    Reporting (⋃ c ∈ ns, r around c) p (ns.forM walk) :=
  .forM fun c _ => h around c p hp

theorem optional (n? : Option Node) (hp : p.jumpTargets = jumpTargets around) :
    Reporting (⋃ c ∈ n?.toList, r around c) p (n?.forM walk) :=
  .option fun n => h around n p hp

theorem function (owner : FunctionOwner) (n : Node) :
    Reporting (⋃ c ∈ n.func.children, r [] c) p (function walk owner n) :=
  .read <| .after (quiet_parameterProperties _ _) fun _ => .withReader (.withReader (h.all _ rfl))

theorem arrowFunction (n : Node) (f : FunctionLike) :
    Reporting (⋃ c ∈ f.children, r [] c) p (arrowFunction walk n f) := by
  refine .read <| .after (quiet_parameterProperties _ _) fun _ => .withReader (.withReader ?_)
  have hchildren : Reporting (⋃ c ∈ f.children, r [] c)
      { p with
        scope := (p.job.bindings.scopeOf? n.id).getD p.scope
        function := arrowPlace p f, jumpTargets := [] } (f.children.forM walk) := h.all _ rfl
  dsimp only
  split
  · exact .ite (fun _ => .after (quiet_assignable _ _ _) fun _ => hchildren) fun _ => hchildren
  · exact hchildren

theorem field (key : Node) (type? initial? : Option Node) (isStatic : Bool)
    (hp : p.jumpTargets = jumpTargets around) :
    Reporting ((⋃ c ∈ key :: type?.toList, r around c) ∪ ⋃ c ∈ initial?.toList, r [] c) p
      (field walk key type? initial? isStatic) := by
  have hinitial (initial : Node) :
      Reporting (r [] initial) p (inFunction (fieldPlace p isStatic) (walk initial)) :=
    .withReader (h [] initial _ rfl)
  have hrest : Reporting (⋃ c ∈ initial?.toList, r [] c) p (initial?.forM fun initial => do
      if !p.isAmbient then type?.forM fun type => assignable initial type key.span
      inFunction (fieldPlace p isStatic) (walk initial)) :=
    .option fun initial => .ite
      (fun _ => .after (.option fun type => quiet_assignable initial type key.span) fun _ =>
        hinitial initial)
      fun _ => hinitial initial
  refine .read (.of_eq
    (.bind (h around key p hp) fun _ => .bind (h.optional type? hp) fun _ => hrest) ?_)
  simp [Set.union_assoc]

theorem memberForm (isStatic : Bool) (form : Form) (n : Node)
    (hp : p.jumpTargets = jumpTargets around) :
    Reporting (form.memberParts.reports r around n) p (memberForm walk isStatic form) := by
  have hfunction (key func : Node) : Reporting
      ((⋃ c ∈ [key], r around c) ∪ (⋃ c ∈ ([] : List Node), r (n :: around) c) ∪
        ⋃ c ∈ func.func.children, r [] c) p (functionMember walk key func isStatic) := by
    refine .of_eq (.bind (h around key p hp) fun _ => h.function _ func) ?_
    simp
  have hnone : JumpParts.reports {} r around n = ∅ := by simp [JumpParts.reports]
  cases form with
  | propertyMember key _ _ type? initial? =>
      refine .of_eq (h.field key type? initial? isStatic hp) ?_
      simp [Form.memberParts, JumpParts.reports]
  | methodMember key _ func => exact hfunction key func
  | getterMember key func => exact hfunction key func
  | setterMember key func => exact hfunction key func
  | constructorMember func =>
      refine .of_eq (h.function _ func) ?_
      simp [Form.memberParts, JumpParts.reports]
  | indexMember parameters type? =>
      refine .of_eq (.bind (h.all parameters hp) fun _ => h.optional type? hp) ?_
      simp [Form.memberParts, JumpParts.reports, Set.iUnion_or, Set.iUnion_union_distrib]
  | staticBlock body =>
      refine .of_eq (.read (.withReader (h [] body _ rfl))) ?_
      simp [Form.memberParts, JumpParts.reports]
  | _ => exact .of_eq (Quiet.pure () p) hnone.symm

theorem class_ (n : Node) (c : ClassLike) (hp : p.jumpTargets = jumpTargets around) :
    Reporting (⋃ m ∈ c.children, r around m) p (class_ walk n c) := by
  refine .of_eq (.bind (h.all c.decorators hp) fun _ => .withReader
    (.bind (h.optional c.base hp) fun _ => .read <| .withReader <| .withReader <|
      .after (quiet_memberRules c) fun _ => .bind (h.all (c.typeParameters.getD []) hp) fun _ =>
        .bind (h.all c.interfaces hp) fun _ => h.all c.members hp)) ?_
  simp only [ClassLike.children, List.mem_append, Set.iUnion_or, Set.iUnion_union_distrib]
  ac_rfl

theorem objectElement (e n : Node) (hp : p.jumpTargets = jumpTargets around) :
    Reporting (e.propertyParts.reports r around n) p (objectElement walk e) := by
  have hfunction (key func : Node) : Reporting
      ((⋃ c ∈ [key], r around c) ∪ (⋃ c ∈ ([] : List Node), r (n :: around) c) ∪
        ⋃ c ∈ func.func.children, r [] c) p (do walk key; Check.function walk .object func) := by
    refine .of_eq (.bind (h around key p hp) fun _ => h.function _ func) ?_
    simp
  unfold Check.objectElement Node.propertyParts
  cases e.form with
  | shorthandProperty name initial? =>
      refine .of_eq (.after (quiet_valueName _ _) fun _ => h.optional _ hp) ?_
      simp [JumpParts.reports]
  | methodProperty key func | getterProperty key func | setterProperty key func =>
      exact hfunction key func
  | _ => exact .of_eq (h around e p hp) (by simp [JumpParts.reports])

theorem objectLiteral (properties : List Node) (layout : ListLayout) (n : Node)
    (hform : n.form = .objectLiteral properties layout) (hp : p.jumpTargets = jumpTargets around) :
    Reporting (n.jumpParts.reports r around n) p (properties.forM (Check.objectElement walk)) := by
  refine .of_eq (.forM fun e _ => h.objectElement e n hp) ?_
  rw [Node.jumpParts, hform]
  simp [JumpParts.reports, Node.governed_propertyParts, Set.iUnion_union_distrib]

theorem plain (n : Node) (ns : List Node) (hp : p.jumpTargets = jumpTargets around) :
    Reporting (JumpParts.reports { plain := ns } r around n) p (ns.forM walk) :=
  .of_eq (h.all ns hp) (by simp [JumpParts.reports])

theorem governed {t : JumpTarget} (n : Node) (ns : List Node) (ht : n.form.jumpTarget? = some t)
    (hp : p.jumpTargets = jumpTargets around) :
    Reporting (JumpParts.reports { governed := ns } r around n) p
      (withTarget t (ns.forM walk)) := by
  refine .of_eq (.withReader (.forM fun c _ => h (n :: around) c _ ?_))
    (by simp [JumpParts.reports])
  simp [jumpTargets, ht, hp]

end WalkReports

/-- What a step reports of a node and its parts. -/
def stepReports (r : List Node → Node → Reports) (around : List Node) (n : Node) : Reports :=
  n.missing around ∪ n.jumpParts.reports r around n

theorem Reporting.noJump {n : Node} {q : JumpParts} {c : Check Unit}
    (h : Reporting (q.reports r around n) p c)
    (hjump : n.form.jump? = none) (hparts : n.jumpParts = q) :
    Reporting (stepReports r around n) p c := by
  rw [stepReports, n.missing_of_noJump hjump, hparts, Set.empty_union]
  exact h

theorem jump_reporting (n : Node) :
    Reporting (n.missing around) p (jump n.span (n.form.jumpError? around)) := by
  unfold Node.missing
  cases hm : n.form.jumpError? around with
  | none => exact .of_eq (Quiet.pure () p) (by simp)
  | some m =>
      obtain ⟨_, hjump, _⟩ := Form.jumpError?_eq_some.mp hm
      refine .of_eq (fun s => s.adds_error m n.span [] fun _ => rfl) ?_
      ext r
      simp [Form.isJump_of_jump? hjump, Prod.ext_iff, eq_comm]

theorem jump_step {n : Node} {m? : Option Message} (hm : n.form.jumpError? around = m?)
    (hparts : n.jumpParts = { plain := [] }) :
    Reporting (stepReports r around n) p (jump n.span m?) := by
  refine .of_eq (hm ▸ jump_reporting n) ?_
  simp [stepReports, hparts, JumpParts.reports]

namespace WalkReports

variable (h : WalkReports r walk)
include h

theorem loop (n : Node) (head? : Option Node) (ht : n.form.jumpTarget? = some .iteration)
    (hp : p.jumpTargets = jumpTargets around) :
    Reporting (JumpParts.reports { governed := n.visited } r around n) p (loop walk n head?) :=
  .withReader <| .after (.option fun _ => quiet_targets _) fun _ => h.governed n _ ht hp

theorem returnStatement (n : Node) (value? : Option Node)
    (hp : p.jumpTargets = jumpTargets around) :
    Reporting (JumpParts.reports { plain := value?.toList } r around n) p
      (returnStatement walk n value?) := by
  have hvalue : Reporting (JumpParts.reports { plain := value?.toList } r around n) p
      (value?.forM walk) :=
    .of_eq (h.optional value? hp) (by simp [JumpParts.reports])
  refine .read (.ite (fun _ => .after (.error rfl _ _) fun _ => hvalue) fun _ => ?_)
  dsimp only
  split
  · exact .ite (fun _ => .after (quiet_assignable _ _ _) fun _ => hvalue) fun _ => hvalue
  · exact hvalue

theorem switchStatement (n subject : Node) (clauses : List Node)
    (ht : n.form.jumpTarget? = some .switch) (hp : p.jumpTargets = jumpTargets around) :
    Reporting (JumpParts.reports { plain := [subject], governed := clauses } r around n) p (do
      walk subject
      inScopeOf n.id (withTarget .switch (clauses.forM walk))) := by
  refine .of_eq (.bind (h around subject p hp) fun _ =>
    .withReader (h.governed n clauses ht hp)) ?_
  simp [JumpParts.reports]

theorem enumStatement (n : Node) (name : Identifier) (members : List Node)
    (hp : p.jumpTargets = jumpTargets around) :
    Reporting (JumpParts.reports { plain := members } r around n) p
      (enumStatement walk name members) := by
  refine .read <| .withReader <| .ite (fun _ => ?_) fun _ => h.plain n members hp
  exact .after (.forM fun _ _ => .error rfl _ _) fun _ => h.plain n members hp

theorem exportedValue (hname : ∀ around c, c.identifier?.isSome → r around c = ∅) (value : Node)
    (hp : p.jumpTargets = jumpTargets around) :
    Reporting (r around value) p (match value.identifier? with
      | some name => exportedName name value.span
      | none => walk value) := by
  cases heq : value.identifier? with
  | some name =>
      refine .of_eq (quiet_exportedName name value.span p) ?_
      rw [hname around value (by simp [heq])]
  | none => exact h around value p hp

theorem exportAssignment (hname : ∀ around c, c.identifier?.isSome → r around c = ∅) (n : Node)
    (isEquals : Bool) (value : Node) (hp : p.jumpTargets = jumpTargets around) :
    Reporting (JumpParts.reports { plain := [value] } r around n) p
      (exportAssignment walk n isEquals value) := by
  have hvalue := h.exportedValue hname value hp
  refine .of_eq (.ite (fun _ => .after (quiet_moduleAssignment rfl _) fun _ => hvalue)
    fun _ => hvalue) ?_
  simp [JumpParts.reports]

theorem statementForm (hname : ∀ around c, c.identifier?.isSome → r around c = ∅) (n : Node)
    (hp : p.jumpTargets = jumpTargets around) (hother : n.form.hasOwnParts = false) :
    Reporting (stepReports r around n) p (statementForm walk n) := by
  unfold Check.statementForm
  dsimp only
  split
  case h_1 value? hform =>
    exact .noJump (h.returnStatement n value? hp) (by rw [hform]; rfl)
      (by rw [Node.jumpParts, hform])
  case h_2 label? hform =>
    refine .read (jump_step ?_ ?_)
    · rw [hform, hp, breakError?_jumpTargets]
    · rw [Node.jumpParts, hform, Node.visited, hform]
      rfl
  case h_3 label? hform =>
    refine .read (jump_step ?_ ?_)
    · rw [hform, hp, continueError?_jumpTargets]
    · rw [Node.jumpParts, hform, Node.visited, hform]
      rfl
  case h_4 hform | h_5 hform =>
    exact .noJump (h.governed n _ (by rw [hform]; rfl) hp) (by rw [hform]; rfl)
      (by rw [Node.jumpParts, hform])
  case h_6 hform | h_7 hform | h_8 hform =>
    exact .noJump (h.loop n _ (by rw [hform]; rfl) hp) (by rw [hform]; rfl)
      (by rw [Node.jumpParts, hform])
  case h_9 hform =>
    exact .noJump (h.switchStatement n _ _ (by rw [hform]; rfl) hp) (by rw [hform]; rfl)
      (by rw [Node.jumpParts, hform])
  case h_10 label body hform =>
    refine .noJump (.of_eq (.withReader (h (n :: around) body _ ?_)) ?_) (by rw [hform]; rfl)
      (by rw [Node.jumpParts, hform])
    · simp [jumpTargets, hform, Form.jumpTarget?, hp]
    · simp [JumpParts.reports]
  case h_11 hform =>
    exact .noJump (h.enumStatement n _ _ hp) (by rw [hform]; rfl) (by rw [Node.jumpParts, hform])
  case h_12 hform | h_13 hform =>
    exact .noJump (.withReader (h.plain n _ hp)) (by rw [hform]; rfl)
      (by rw [Node.jumpParts, hform])
  case h_14 hform =>
    refine .noJump (q := { plain := [] }) ?_ (by rw [hform]; rfl)
      (by rw [Node.jumpParts, hform, Node.visited, hform]; rfl)
    refine .of_eq (.ite (fun _ => Quiet.pure () p) fun _ => quiet_moduleAssignment rfl _ p) ?_
    simp [JumpParts.reports]
  case h_15 hform =>
    exact .noJump (h.exportAssignment hname n _ _ hp) (by rw [hform]; rfl)
      (by rw [Node.jumpParts, hform])
  case h_16 specifiers attributes hform =>
    refine .noJump (q := { plain := [] }) (.of_eq (quiet_exportList specifiers p) ?_)
      (by rw [hform]; rfl) (by rw [Node.jumpParts, hform, Node.visited, hform])
    simp [JumpParts.reports]
  case h_17 object body hform =>
    refine .noJump (q := { plain := [object, body] }) ?_ (by rw [hform]; rfl)
      (by rw [Node.jumpParts, hform])
    refine .of_eq (.bind (h around object p hp) fun _ => .withReader (h around body _ hp)) ?_
    simp [JumpParts.reports, Set.iUnion_or, Set.iUnion_union_distrib]
  case h_18 hreturn hbreak hcontinue hdo hwhile hfor hforIn hforOf hswitch hlabeled henum
      hinterface halias himport hassignment hexport hwith =>
    have hjump : n.form.jump? = none := by
      unfold Form.jump?
      split <;> first
        | rfl
        | exfalso; solve_by_elim
    have hparts : n.jumpParts = { plain := n.visited } := by
      unfold Node.jumpParts
      split
      case h_1 hform => exact (hdo _ _ hform).elim
      case h_2 hform => exact (hwhile _ _ hform).elim
      case h_3 hform => exact (hfor _ _ _ _ hform).elim
      case h_4 hform => exact (hforIn _ _ _ hform).elim
      case h_5 hform => exact (hforOf _ _ _ _ hform).elim
      case h_6 hform => exact (hswitch _ _ hform).elim
      case h_7 hform => exact (hlabeled _ _ hform).elim
      case h_15 hform => exact (hreturn _ hform).elim
      case h_16 hform => exact (hwith _ _ hform).elim
      case h_17 hform => exact (henum _ _ _ hform).elim
      case h_18 hform => exact (hassignment _ _ hform).elim
      case h_19 => rfl
      -- The other forms are not among the statements.
      all_goals
        rename_i hform
        rw [hform] at hother
        cases hother
    exact .noJump (h.plain n _ hp) hjump hparts

theorem below (n : Node) (hp : p.jumpTargets = jumpTargets around)
    (hparts : n.jumpParts = { plain := n.visited }) (hjump : n.form.jump? = none) :
    Reporting (stepReports r around n) p (n.visited.forM walk) :=
  .noJump (h.plain n _ hp) hjump hparts

theorem typeElement (n : Node) (element : Form) (hp : p.jumpTargets = jumpTargets around)
    (hparts : n.jumpParts = { plain := n.visited }) (hjump : n.form.jump? = none) :
    Reporting (stepReports r around n) p (typeElement walk n element) := by
  have hbelow {q : CheckPlace} (hq : q.jumpTargets = jumpTargets around) :=
    h.below n hq hparts hjump
  refine .withReader ?_
  dsimp only
  split
  iterate 3
    exact .after (quiet_parameterProperties _ _) fun _ => hbelow hp
  · exact hbelow hp

theorem type (n : Node) (hp : p.jumpTargets = jumpTargets around)
    (hparts : n.jumpParts = { plain := n.visited }) (hjump : n.form.jump? = none) :
    Reporting (stepReports r around n) p (type walk n) := by
  have hbelow {q : CheckPlace} (hq : q.jumpTargets = jumpTargets around) :=
    h.below n hq hparts hjump
  refine .withReader (.withReader ?_)
  dsimp only
  split
  · exact .after (quiet_typeName _) fun _ => hbelow hp
  iterate 2
    exact .after (quiet_parameterProperties _ _) fun _ => hbelow hp
  · exact hbelow hp

theorem step (hname : ∀ around c, c.identifier?.isSome → r around c = ∅) (n : Node)
    (hp : p.jumpTargets = jumpTargets around) :
    Reporting (stepReports r around n) p (step walk n) := by
  unfold Check.step
  dsimp only
  split
  case h_1 name hform =>
    refine .noJump (q := { plain := [] }) (.of_eq (quiet_valueName name n.span p) ?_)
      (by rw [hform]; rfl) (by rw [Node.jumpParts, hform, Node.visited, hform]; rfl)
    simp [JumpParts.reports]
  case h_2 hform =>
    refine .noJump (q := { plain := [] }) (.of_eq (quiet_superReference n.span p) ?_)
      (by rw [hform]; rfl) (by rw [Node.jumpParts, hform, Node.visited, hform]; rfl)
    simp [JumpParts.reports]
  case h_3 hform =>
    exact .before (h.below n hp (by rw [Node.jumpParts, hform]) (by rw [hform]; rfl)) fun _ =>
      .ite (fun _ => quiet_targets _) fun _ => .pure ()
  case h_4 hform | h_5 hform =>
    exact .before (h.below n hp (by rw [Node.jumpParts, hform]) (by rw [hform]; rfl)) fun _ =>
      .ite (fun _ => quiet_targets _) fun _ => .pure ()
  case h_6 properties layout hform =>
    exact .noJump (h.objectLiteral properties layout n hform hp) (by rw [hform]; rfl) rfl
  case h_7 f isBare hform =>
    refine .noJump (q := { secluded := f.children }) (.of_eq (h.arrowFunction n f) ?_)
      (by rw [hform]; rfl) (by rw [Node.jumpParts, hform])
    simp [JumpParts.reports]
  case h_8 f hform =>
    refine .noJump (q := { secluded := n.func.children }) (.of_eq (h.function _ n) ?_)
      (by rw [hform]; rfl) (by rw [Node.jumpParts, Node.func, hform]; rfl)
    simp [JumpParts.reports]
  case h_9 c hform =>
    refine .noJump (q := { plain := c.children }) (.of_eq (h.class_ n c hp) ?_)
      (by rw [hform]; rfl) (by rw [Node.jumpParts, hform])
    simp [JumpParts.reports]
  case h_10 decorators ms member hform =>
    refine .noJump (.of_eq (.bind (h.all decorators hp) fun _ =>
      .withReader (h.memberForm _ member n hp)) ?_) (by rw [hform]; rfl)
      (by rw [Node.jumpParts, hform])
    simp only [JumpParts.reports, List.mem_append, Set.iUnion_or, Set.iUnion_union_distrib,
      Set.union_assoc]
  case h_11 expression typeArguments hform =>
    exact .noJump (h.plain n _ hp) (by rw [hform]; rfl) (by rw [Node.jumpParts, hform])
  case h_12 hform | h_13 hform =>
    exact .after (quiet_annotated _ _ _) fun _ =>
      h.below n hp (by rw [Node.jumpParts, hform]) (by rw [hform]; rfl)
  case h_14 hform =>
    exact .withReader <| .after (quiet_overloads _) fun _ =>
      h.below n hp (by rw [Node.jumpParts, hform]) (by rw [hform]; rfl)
  case h_15 hform =>
    exact .after (quiet_overloads _) fun _ =>
      h.below n hp (by rw [Node.jumpParts, hform]) (by rw [hform]; rfl)
  case h_16 hform =>
    exact .withReader (h.below n hp (by rw [Node.jumpParts, hform]) (by rw [hform]; rfl))
  case h_17 ms name body? isGlobal hform =>
    refine .noJump (q := { secluded := n.visited }) (.of_eq (.withReader <| .withReader <|
      .withReader <| .after (.option fun _ => quiet_overloads _) fun _ =>
        .forM fun c _ => h [] c _ rfl) ?_)
      (by rw [hform]; rfl) (by rw [Node.jumpParts, hform])
    simp [JumpParts.reports]
  case h_18 ms element hform =>
    exact h.typeElement n element hp (by rw [Node.jumpParts, hform]) (by rw [hform]; rfl)
  case h_19 hform => exact h.below n hp (by rw [Node.jumpParts, hform]) (by rw [hform]; rfl)
  case h_20 =>
    split
    · rename_i htype
      refine h.type n hp ?_ ?_
      · unfold Node.jumpParts
        split <;> first
          | rfl
          | rename_i hform; rw [hform] at htype; cases htype
      · unfold Form.jump?
        split <;> first
          | rfl
          | rename_i hform; rw [hform] at htype; cases htype
    · refine .withReader (h.statementForm hname n hp ?_)
      unfold Form.hasOwnParts
      split <;> first
        | rfl
        | exfalso; solve_by_elim

end WalkReports

end

/-- What is reported below a node, as deep as the fuel allows. -/
def reportsWithin (fuel : Nat) (around : List Node) (n : Node) : Reports :=
  ⋃ x ∈ n.heldWithin fuel around, x.2.missing x.1

theorem reportsWithin_succ (fuel : Nat) (around : List Node) (n : Node) :
    reportsWithin (fuel + 1) around n = stepReports (reportsWithin fuel) around n := by
  have hplaced : ⋃ x ∈ n.placed around, reportsWithin fuel x.1 x.2 =
      n.jumpParts.reports (reportsWithin fuel) around n := by
    simp only [Node.placed, JumpParts.reports, List.mem_append, List.mem_map, Set.iUnion_or,
      Set.iUnion_union_distrib, Set.iUnion_exists, Set.biUnion_and', Set.iUnion_iUnion_eq_right]
  rw [stepReports, ← hplaced]
  simp only [reportsWithin, Node.heldWithin, List.mem_cons, List.mem_flatMap, Set.iUnion_or,
    Set.iUnion_union_distrib, Set.iUnion_iUnion_eq_left, Set.iUnion_exists, Set.biUnion_and']

theorem reportsWithin_identifier (fuel : Nat) (around : List Node) {n : Node}
    (h : n.identifier?.isSome) : reportsWithin fuel around n = ∅ := by
  unfold Node.identifier? at h
  split at h
  · rename_i hform
    cases fuel with
    | zero => simp [reportsWithin, Node.heldWithin]
    | succ fuel =>
        have hparts : n.jumpParts = {} := by
          rw [Node.jumpParts, hform, Node.visited, hform]
          rfl
        have hmissing := n.missing_of_noJump (by rw [hform]; rfl) around
        simp [reportsWithin, Node.heldWithin, Node.placed, hparts, hmissing]
  · cases h

/-- A walk reports the jumps below a node that have no target. -/
theorem walkNode_reports (fuel : Nat) : WalkReports (reportsWithin fuel) (walkNode fuel) := by
  induction fuel with
  | zero =>
      intro around n p _
      exact .of_eq (Quiet.pure () p) (by simp [reportsWithin, Node.heldWithin])
  | succ fuel ih =>
      intro around n p hp
      rw [reportsWithin_succ]
      exact ih.step (fun around c hc => reportsWithin_identifier fuel around hc) n hp

end Check

theorem CheckState.sound_empty : CheckState.Sound {} where
  reported := nofun
  found _ h := absurd h Std.HashSet.not_mem_empty
  size := Std.HashSet.size_empty
  limit := Nat.zero_le _

namespace SourceFile

variable {f : SourceFile} {b : Bindings} {o : Options}

/-- The errors of a file are those of a state that has all the errors of jumps. -/
theorem exists_adds (f : SourceFile) (b : Bindings) (o : Options) :
    ∃ s : CheckState, f.check b o = s.errorsRev.reverse ∧
      CheckState.Adds (⋃ x ∈ f.held f.nodeCount, x.2.missing x.1) {} s := by
  refine ⟨_, rfl, ?_⟩
  have hwalk {p : CheckPlace} (hp : p.jumpTargets = []) :
      Check.Reporting (⋃ n ∈ f.statements, Check.reportsWithin f.nodeCount [] n) p (do
        Check.overloads f.statements
        f.statements.forM (Check.walkNode f.nodeCount)) :=
    .after (Check.quiet_overloads f.statements) fun _ =>
      .forM fun n _ => Check.walkNode_reports f.nodeCount [] n p hp
  have hheld : ⋃ n ∈ f.statements, Check.reportsWithin f.nodeCount [] n =
      ⋃ x ∈ f.held f.nodeCount, x.2.missing x.1 := by
    simp only [held, Check.reportsWithin, List.mem_flatMap, Set.iUnion_exists, Set.biUnion_and']
  rw [hheld] at hwalk
  exact hwalk rfl {}

/-- The check reports no more errors than the limit allows. -/
theorem length_check_le (f : SourceFile) (b : Bindings) (o : Options) :
    (f.check b o).length ≤ Limits.diagnostics := by
  obtain ⟨s, hcheck, hadds⟩ := f.exists_adds b o
  have hsound := hadds.sound CheckState.sound_empty
  rw [hcheck, List.length_reverse, ← hsound.size]
  exact hsound.limit

end SourceFile

/-- Unless there are too many errors, a jump is reported exactly if its target is none of the
statements around it, and no other errors of jumps are reported. -/
theorem jumps_reported (fileName source : String) (b : Bindings) (o : Options)
    (hcap : ((parseSource fileName source).1.check b o).length < Limits.diagnostics) :
    (∀ around n m isTarget, (parseSource fileName source).1.Holds around n →
      n.form.jump? = some (m, isTarget) →
        ((∃ d ∈ (parseSource fileName source).1.check b o,
          d.start = n.span.start ∧ d.code = m.code) ↔ ∀ s ∈ around, isTarget s.form = false)) ∧
    ∀ d ∈ (parseSource fileName source).1.check b o, ∀ m : Message, m.isJump = true →
      d.code = m.code → ∃ around n isTarget, (parseSource fileName source).1.Holds around n ∧
        n.form.jump? = some (m, isTarget) ∧ (∀ s ∈ around, isTarget s.form = false) ∧
          d = Diagnostic.ofMessage m n.span.start n.span.length [] := by
  obtain ⟨s, hcheck, hadds⟩ := SourceFile.exists_adds (parseSource fileName source).1 b o
  have hsound := hadds.sound CheckState.sound_empty
  have hheld {around : List Node} {n : Node} : (parseSource fileName source).1.Holds around n ↔
      (around, n) ∈ (parseSource fileName source).1.held _ :=
    SourceFile.holds_iff (length_numbers_parseSource fileName source)
  simp only [hcheck, List.mem_reverse, List.length_reverse, ← hsound.size] at hcap ⊢
  -- Every error of a jump is one that the walk reports of a held node.
  have honly {d : Diagnostic} {m : Message} (hd : d ∈ s.errorsRev) (hm : m.isJump = true)
      (hcode : d.code = m.code) : ∃ around n m' isTarget,
        (parseSource fileName source).1.Holds around n ∧ n.form.jump? = some (m', isTarget) ∧
          (∀ t ∈ around, isTarget t.form = false) ∧
            d = Diagnostic.ofMessage m' n.span.start n.span.length [] := by
    rcases hadds.only d hd with hd | hother | ⟨r, hr, rfl⟩
    · cases hd
    · exact absurd hcode (hother m hm)
    · simp only [Set.mem_iUnion] at hr
      obtain ⟨x, hx, herror, hspan⟩ := hr
      obtain ⟨isTarget, hjump, htarget⟩ := Form.jumpError?_eq_some.mp herror
      exact ⟨x.1, x.2, r.1, isTarget, hheld.mpr hx, hjump, htarget, by rw [hspan]⟩
  refine ⟨fun around n m isTarget hn hjump => ⟨?_, fun htarget => ?_⟩, fun d hd m hm hcode => ?_⟩
  · rintro ⟨d, hd, hstart, hcode⟩
    obtain ⟨around', n', m', isTarget', hn', hjump', htarget, rfl⟩ :=
      honly hd (Form.isJump_of_jump? hjump) hcode
    have heq := holds_eq_of_start hn hn' (by simp [hjump]) (by simp [hjump']) hstart.symm
    obtain ⟨rfl, rfl⟩ := Prod.mk.inj heq
    cases hjump.symm.trans hjump'
    exact htarget
  · have hmissing : (m, n.span) ∈ n.missing around :=
      ⟨Form.jumpError?_eq_some.mpr ⟨isTarget, hjump, htarget⟩, rfl⟩
    have hreported := hadds.complete hcap (m, n.span)
      (Set.mem_biUnion (x := (around, n)) (hheld.mp hn) hmissing)
    obtain ⟨d, hd, hkey⟩ := hsound.found _ hreported
    exact ⟨d, hd, Prod.mk.inj hkey⟩
  · obtain ⟨around, n, m', isTarget, hn, hjump, htarget, rfl⟩ := honly hd hm hcode
    obtain rfl := Message.eq_of_code hm (Form.isJump_of_jump? hjump) hcode.symm
    exact ⟨around, n, isTarget, hn, hjump, htarget, rfl⟩

theorem jumps_reported_in_loop :
    let f := (parseSource "a.ts" "while (1) \x7b break; \x7d").1
    (f.check f.bind {}).length < Limits.diagnostics ∧ ∃ around n isTarget, f.Holds around n ∧
      n.form.jump? = some (.breakOutsideLoop, isTarget) ∧ n.span = ⟨12, 18⟩ ∧
        ∃ s ∈ around, isTarget s.form = true := by
  have hfile : let f := (parseSource "a.ts" "while (1) \x7b break; \x7d").1
      f.check f.bind {} = [] ∧ (f.held f.nodeCount)[4]?.map (fun x =>
        (x.2.form.jump?.map Prod.fst, x.2.span)) = some (some .breakOutsideLoop, ⟨12, 18⟩) := by
    decide +kernel
  intro f
  obtain ⟨hcheck, hheld⟩ := hfile
  have hcap : (f.check f.bind {}).length < Limits.diagnostics := by
    rw [show f.check f.bind {} = [] from hcheck]
    decide
  obtain ⟨⟨around, n⟩, hget, hn⟩ := Option.map_eq_some_iff.mp hheld
  obtain ⟨hjump, hspan⟩ := Prod.mk.inj hn
  obtain ⟨⟨m, isTarget⟩, hjump, rfl⟩ := Option.map_eq_some_iff.mp hjump
  have hholds : f.Holds around n :=
    (SourceFile.holds_iff (length_numbers_parseSource _ _)).mpr (List.mem_of_getElem? hget)
  refine ⟨hcap, around, n, isTarget, hholds, hjump, hspan, ?_⟩
  have hreported := (jumps_reported "a.ts" "while (1) \x7b break; \x7d" f.bind {} hcap).1
    around n _ isTarget hholds hjump
  -- Nothing is reported, so that something around the jump is its target.
  by_contra hnone
  obtain ⟨d, hd, -⟩ := hreported.mpr fun s hs => by
    by_contra htarget
    exact hnone ⟨s, hs, by simpa using htarget⟩
  rw [show (parseSource _ _).1.check f.bind {} = [] from hcheck] at hd
  cases hd

theorem Form.eq_breakStmt_of_jump? {form : Form}
    (h : form.jump?.map Prod.fst = some .breakOutsideLoop) : form = .breakStmt none := by
  unfold jump? at h
  split at h
  · rfl
  all_goals cases h

/-- The expression that a clause of `implements` names is not looked at: a function in it has a jump
that is not reported, with no loop and no switch anywhere around it. -/
theorem exists_unreported_break :
    let r := parseSource "a.ts" "class C implements (function () \x7b break; \x7d) \x7b\x7d"
    r.2 = [] ∧ r.1.bind.errors = [] ∧ r.1.check r.1.bind {} = [] ∧
      ∃ s ∈ r.1.statements, ∃ path n, s.descend? path = some n ∧ n.form = .breakStmt none ∧
        ∀ k, ∀ a ∈ s.descend? (path.take k), a.form.isLoop = false ∧ a.form.isSwitch = false := by
  have hfile :
      let r := parseSource "a.ts" "class C implements (function () \x7b break; \x7d) \x7b\x7d"
      r.2.isEmpty = true ∧ r.1.bind.errors.isEmpty = true ∧ r.1.check r.1.bind {} = [] ∧
        ((r.1.statements[0]?.bind (Node.descend? [0, 0, 0, 0, 0, 0, 0])).bind fun n =>
          n.form.jump?.map Prod.fst) = some .breakOutsideLoop ∧
        ∀ k ≤ 7, (r.1.statements[0]?.bind (Node.descend? ([0, 0, 0, 0, 0, 0, 0].take k))).all
          (fun a => !a.form.isLoop && !a.form.isSwitch) = true := by
    decide +kernel
  obtain ⟨hdiagnostics, herrors, hcheck, hbreak, habove⟩ := hfile
  obtain ⟨n, hn, hjump⟩ := Option.bind_eq_some_iff.mp hbreak
  obtain ⟨s, hs, hn⟩ := Option.bind_eq_some_iff.mp hn
  refine ⟨List.isEmpty_iff.mp hdiagnostics, List.isEmpty_iff.mp herrors, hcheck, s,
    List.mem_of_getElem? hs, _, n, hn, ?_, fun k a ha => ?_⟩
  · exact Form.eq_breakStmt_of_jump? hjump
  · have hnone := habove (min k 7) (Nat.min_le_right k 7)
    have htake : [0, 0, 0, 0, 0, 0, 0].take (min k 7) = [0, 0, 0, 0, 0, 0, 0].take k :=
      (List.take_eq_take_min (l := [0, 0, 0, 0, 0, 0, 0])).symm
    rw [hs, Option.bind_some, htake, Option.mem_def.mp ha] at hnone
    simpa using hnone

end Erasure

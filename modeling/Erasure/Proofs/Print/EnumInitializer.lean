import Erasure.Compile
import Erasure.Proofs.Print.Composed.File
import Erasure.Proofs.Print.LiveExport
import Erasure.Proofs.Scope.Bindings

/-!
Names in the initializers of enum members. Where an initializer is printed, every name of a member
of its enum is printed as an access to the enum. What a name stands for is found from the inside to
the outside instead: functions and classes inside of the initializer may declare the name once more,
and an enum around it may have a member with the name.
-/

namespace Erasure

/-- What a name stands for: a member of an enum around it, or a symbol of a scope. -/
inductive NameMeaning where
  | member (owner : SymbolId)
  | symbol (scope : ScopeId) (id : SymbolId)
  deriving DecidableEq

/-- A region of the source that declares names. -/
inductive LexicalFrame where
  | scope (id : ScopeId)
  /-- The initializer of a member, in which the members of the enum are known. -/
  | enum (owner : SymbolId)

namespace LexicalFrame

def scope? : LexicalFrame → Option ScopeId
  | scope id => some id
  | enum _ => none

def enum? : LexicalFrame → Option SymbolId
  | scope _ => none
  | enum owner => some owner

/-- What a frame declares a name to be. -/
def declared? (b : Bindings) (name : String) : LexicalFrame → Option NameMeaning
  | scope id => (b.resolveIn? name SymbolFlags.value id).map (.symbol id)
  | enum owner => if (b.symbol owner).exports.contains name then some (.member owner) else none

end LexicalFrame

/-- What some scopes, of which the innermost comes first, declare a name to be. -/
def Bindings.declaredIn? (b : Bindings) (scopes : List ScopeId) (name : String) :
    Option NameMeaning :=
  scopes.findSome? fun s => (b.resolveIn? name SymbolFlags.value s).map (.symbol s)

/-- What a name stands for inside of some frames, of which the innermost comes first. -/
def Bindings.lexicalMeaning? (b : Bindings) (frames : List LexicalFrame) (name : String) :
    Option NameMeaning :=
  frames.findSome? (LexicalFrame.declared? b name)

/-- What a name is printed as: a member of the innermost enum if it has one with that name, or
else what the scopes declare. -/
def Bindings.printedMeaning? (b : Bindings) (frames : List LexicalFrame) (name : String) :
    Option NameMeaning :=
  match (frames.findSome? LexicalFrame.enum?).filter fun owner =>
      (b.symbol owner).exports.contains name with
  | some owner => some (.member owner)
  | none => b.declaredIn? (frames.filterMap LexicalFrame.scope?) name

/-- The places of printing, with the frames around each. Steps that print go from one place to
another only in these ways. -/
inductive PrintJob.Reaches (j : PrintJob) : PrintPlace → List LexicalFrame → Prop
  | file : Reaches j j.place [.scope Bindings.rootScope]
  | target {p : PrintPlace} {frames : List LexicalFrame} (t : ExportTarget) :
      Reaches j p frames → Reaches j { p with target := t } frames
  | scope {p : PrintPlace} {frames : List LexicalFrame} {node : NodeId} {inner : ScopeId} :
      Reaches j p frames → j.bindings.scopeOf? node = some inner →
      (j.bindings.scope inner).parent? = some p.scope → p.scope < inner →
      Reaches j { p with scope := inner } (.scope inner :: frames)
  | enum {p : PrintPlace} {frames : List LexicalFrame} (owner : SymbolId) :
      Reaches j p frames → Reaches j { p with currentEnum? := some owner } (.enum owner :: frames)

/-- A place knows the scopes around it, and the innermost enum. -/
structure PrintPlace.StandsIn (p : PrintPlace) (j : PrintJob) (frames : List LexicalFrame) :
    Prop where
  job : p.job = j
  scopes : j.bindings.scopeChain p.scope = frames.filterMap LexicalFrame.scope?
  currentEnum : p.currentEnum? = frames.findSome? LexicalFrame.enum?

theorem Bindings.scopeChain_root (b : Bindings) : b.scopeChain rootScope = [rootScope] := by
  rw [scopeChain]
  split
  · exact if_neg (Nat.not_lt_zero _)
  · rfl

theorem PrintJob.Reaches.standsIn {j : PrintJob} {p : PrintPlace} {frames : List LexicalFrame}
    (h : j.Reaches p frames) : p.StandsIn j frames := by
  induction h with
  | file => exact ⟨rfl, j.bindings.scopeChain_root, rfl⟩
  | target t _ ih => exact ⟨ih.job, ih.scopes, ih.currentEnum⟩
  | scope _ _ hparent hlt ih =>
      refine ⟨ih.job, ?_, ih.currentEnum⟩
      exact (Bindings.scopeChain_of_parent hparent hlt).trans (congrArg _ ih.scopes)
  | enum owner _ ih => exact ⟨ih.job, ih.scopes, rfl⟩

namespace PrintPlace

/-- What a name is replaced by where it has a meaning. -/
def meaningText? (p : PrintPlace) (name : String) : NameMeaning → Option String
  | .member owner => some (Text.memberAccess (p.job.bindings.symbol owner).name name)
  | .symbol scope id => p.symbolReplacement? name scope id

variable {p : PrintPlace} {j : PrintJob} {frames : List LexicalFrame}

theorem StandsIn.replacement?_eq (h : p.StandsIn j frames) (name : String) :
    p.replacement? name =
      (j.bindings.printedMeaning? frames name).bind (p.meaningText? name) := by
  obtain ⟨rfl, hscopes, henum⟩ := h
  unfold replacement? Bindings.printedMeaning? Bindings.resolveWithScope?
  rw [hscopes, ← henum]
  have hsymbol : ∀ scopes : List ScopeId,
      (scopes.findSome? fun s =>
          (p.job.bindings.resolveIn? name SymbolFlags.value s).map (s, ·)).bind
          (fun found => p.symbolReplacement? name found.1 found.2) =
        (p.job.bindings.declaredIn? scopes name).bind (p.meaningText? name) := by
    intro scopes
    unfold Bindings.declaredIn?
    induction scopes with
    | nil => rfl
    | cons s scopes ih =>
        rw [List.findSome?_cons, List.findSome?_cons]
        cases p.job.bindings.resolveIn? name SymbolFlags.value s with
        | none => exact ih
        | some id => rfl
  cases p.currentEnum? with
  | none => exact hsymbol _
  | some owner =>
      cases hmember : (p.job.bindings.symbol owner).exports.contains name with
      | true =>
          simp only [Option.map_some, Option.filter, hmember, if_true]
          rfl
      | false =>
          simp only [Option.map_some, Option.filter, hmember, Bool.false_eq_true, if_false]
          exact hsymbol _

end PrintPlace

namespace Bindings
variable {b : Bindings} {inner : List ScopeId} {owner : SymbolId} {rest : List LexicalFrame}
  {name : String}

theorem declaredIn?_cons (s : ScopeId) (scopes : List ScopeId) :
    b.declaredIn? (s :: scopes) name =
      ((b.resolveIn? name SymbolFlags.value s).map (.symbol s)).or (b.declaredIn? scopes name) := by
  unfold declaredIn?
  rw [List.findSome?_cons]
  cases b.resolveIn? name SymbolFlags.value s <;> rfl

theorem declaredIn?_append (scopes outer : List ScopeId) :
    b.declaredIn? (scopes ++ outer) name =
      (b.declaredIn? scopes name).or (b.declaredIn? outer name) :=
  List.findSome?_append

theorem declaredIn?_eq_none_iff {scopes : List ScopeId} :
    b.declaredIn? scopes name = none ↔
      ∀ s ∈ scopes, b.resolveIn? name SymbolFlags.value s = none := by
  simp [declaredIn?]

theorem declaredIn?_ne_member (scopes : List ScopeId) :
    b.declaredIn? scopes name ≠ some (.member owner) := by
  intro h
  obtain ⟨s, -, hs⟩ := List.exists_of_findSome?_eq_some h
  simp at hs

theorem lexicalMeaning?_cons (frame : LexicalFrame) (frames : List LexicalFrame) :
    b.lexicalMeaning? (frame :: frames) name =
      (frame.declared? b name).or (b.lexicalMeaning? frames name) := by
  unfold lexicalMeaning?
  rw [List.findSome?_cons]
  cases frame.declared? b name <;> rfl

theorem lexicalMeaning?_scopes (scopes : List ScopeId) (frames : List LexicalFrame) :
    b.lexicalMeaning? (scopes.map .scope ++ frames) name =
      (b.declaredIn? scopes name).or (b.lexicalMeaning? frames name) := by
  unfold lexicalMeaning? declaredIn?
  rw [List.findSome?_append, List.findSome?_map]
  rfl

/-- If a name does not stand for a member of an enum, it stands for what the scopes declare. -/
theorem lexicalMeaning?_of_not_member (frames : List LexicalFrame)
    (h : ∀ owner, b.lexicalMeaning? frames name ≠ some (.member owner)) :
    b.lexicalMeaning? frames name = b.declaredIn? (frames.filterMap LexicalFrame.scope?) name := by
  induction frames with
  | nil => rfl
  | cons frame frames ih =>
      rw [lexicalMeaning?_cons] at h ⊢
      cases frame with
      | scope s =>
          refine Eq.trans ?_ (declaredIn?_cons s _).symm
          cases hfound : b.resolveIn? name SymbolFlags.value s with
          | none =>
              simp only [LexicalFrame.declared?, hfound, Option.map_none, Option.none_or] at h ⊢
              exact ih h
          | some id => simp [LexicalFrame.declared?, hfound]
      | enum owner =>
          cases hmember : (b.symbol owner).exports.contains name with
          | true => exact absurd (by simp [LexicalFrame.declared?, hmember]) (h owner)
          | false =>
              simp only [LexicalFrame.declared?, hmember, Bool.false_eq_true, if_false,
                Option.none_or] at h ⊢
              exact ih h

/-- What a name stands for inside of some scopes in an initializer. -/
theorem lexicalMeaning?_initializer :
    b.lexicalMeaning? (inner.map .scope ++ .enum owner :: rest) name =
      (b.declaredIn? inner name).or
        (if (b.symbol owner).exports.contains name then some (.member owner)
          else b.lexicalMeaning? rest name) := by
  rw [lexicalMeaning?_scopes, lexicalMeaning?_cons, LexicalFrame.declared?]
  split <;> simp

/-- What it is printed as. -/
theorem printedMeaning?_initializer :
    b.printedMeaning? (inner.map .scope ++ .enum owner :: rest) name =
      if (b.symbol owner).exports.contains name then some (.member owner)
      else (b.declaredIn? inner name).or
        (b.declaredIn? (rest.filterMap LexicalFrame.scope?) name) := by
  have henum : (inner.map LexicalFrame.scope ++ .enum owner :: rest).findSome? LexicalFrame.enum? =
      some owner := by
    rw [List.findSome?_append, List.findSome?_map]
    have hnone : inner.findSome? (LexicalFrame.enum? ∘ .scope) = none := by
      simp [LexicalFrame.enum?]
    rw [hnone]
    rfl
  have hscopes : (inner.map LexicalFrame.scope ++ .enum owner :: rest).filterMap
      LexicalFrame.scope? = inner ++ rest.filterMap LexicalFrame.scope? := by
    rw [List.filterMap_append, List.filterMap_map]
    exact congrArg (· ++ _) List.filterMap_some
  unfold printedMeaning?
  rw [henum, hscopes, declaredIn?_append]
  cases hmember : (b.symbol owner).exports.contains name with
  | true => simp [Option.filter, hmember]
  | false => simp [Option.filter, hmember]

theorem lexicalMeaning?_ne_member (hmember : (b.symbol owner).exports.contains name = false)
    (frames : List LexicalFrame) : b.lexicalMeaning? frames name ≠ some (.member owner) := by
  intro h
  obtain ⟨frame, -, hframe⟩ := List.exists_of_findSome?_eq_some h
  cases frame with
  | scope s => simp [LexicalFrame.declared?] at hframe
  | enum owner' =>
      simp only [LexicalFrame.declared?, Option.ite_none_right_eq_some, Option.some.injEq,
        NameMeaning.member.injEq] at hframe
      obtain ⟨hcontains, rfl⟩ := hframe
      exact Bool.false_ne_true (hmember.symm.trans hcontains)

/-- In an initializer a name stands for a member of its enum if the enum has one and no scope in
between declares the name. -/
theorem lexicalMeaning?_eq_member_iff :
    b.lexicalMeaning? (inner.map .scope ++ .enum owner :: rest) name = some (.member owner) ↔
      (b.symbol owner).exports.contains name = true ∧
        ∀ s ∈ inner, b.resolveIn? name SymbolFlags.value s = none := by
  rw [lexicalMeaning?_initializer, ← declaredIn?_eq_none_iff]
  cases hinner : b.declaredIn? inner name with
  | some meaning =>
      have hne : b.declaredIn? inner name ≠ some (.member owner) := declaredIn?_ne_member inner
      rw [hinner] at hne
      simpa using hne
  | none =>
      cases hmember : (b.symbol owner).exports.contains name with
      | true => simp
      | false => simpa using lexicalMeaning?_ne_member hmember rest

/-- A name is printed as what it stands for exactly if neither a member of the enum is hidden by a
scope in between, nor a member of an enum around it by this enum. -/
theorem printedMeaning?_eq_lexicalMeaning?_iff :
    b.printedMeaning? (inner.map .scope ++ .enum owner :: rest) name =
        b.lexicalMeaning? (inner.map .scope ++ .enum owner :: rest) name ↔
      if (b.symbol owner).exports.contains name then
        ∀ s ∈ inner, b.resolveIn? name SymbolFlags.value s = none
      else (∃ s ∈ inner, b.resolveIn? name SymbolFlags.value s ≠ none) ∨
        ∀ outer, b.lexicalMeaning? rest name ≠ some (.member outer) := by
  cases hmember : (b.symbol owner).exports.contains name with
  | true =>
      have hprinted : b.printedMeaning? (inner.map .scope ++ .enum owner :: rest) name =
          some (.member owner) := by
        rw [printedMeaning?_initializer, hmember]
        rfl
      rw [hprinted, eq_comm, lexicalMeaning?_eq_member_iff, hmember]
      simp
  | false =>
      rw [printedMeaning?_initializer, lexicalMeaning?_initializer, hmember]
      simp only [Bool.false_eq_true, if_false]
      cases hinner : b.declaredIn? inner name with
      | some meaning =>
          obtain ⟨s, hs, hdeclared⟩ := List.exists_of_findSome?_eq_some hinner
          have hne : b.resolveIn? name SymbolFlags.value s ≠ none := fun hnone => by
            rw [hnone] at hdeclared
            cases hdeclared
          exact iff_of_true rfl (.inl ⟨s, hs, hne⟩)
      | none =>
          have hnone := declaredIn?_eq_none_iff.mp hinner
          have hdeclared : ¬ ∃ s ∈ inner, b.resolveIn? name SymbolFlags.value s ≠ none := by
            rintro ⟨s, hs, hne⟩
            exact hne (hnone s hs)
          rw [or_iff_right hdeclared, Option.none_or, Option.none_or]
          constructor
          · intro heq outer hmeaning
            exact declaredIn?_ne_member _ (heq.trans hmeaning)
          · exact fun h => (lexicalMeaning?_of_not_member rest h).symm

theorem printedMeaning?_eq_member_iff :
    b.printedMeaning? (inner.map .scope ++ .enum owner :: rest) name = some (.member owner) ↔
      (b.symbol owner).exports.contains name = true := by
  rw [printedMeaning?_initializer]
  cases hmember : (b.symbol owner).exports.contains name with
  | true => simp
  | false =>
      have hne : b.declaredIn? (inner ++ rest.filterMap LexicalFrame.scope?) name ≠
          some (.member owner) := declaredIn?_ne_member _
      rw [declaredIn?_append] at hne
      simpa using hne

end Bindings

/-- The names in an initializer. A value that is read or written, a property that is named by its
value and a function that is called are printed by what `printedMeaning?` makes of the name. This is
a member of the enum exactly if the enum has one. By its place the name is a member of the enum
exactly if, besides, no scope in between declares it, and both agree exactly if no member of the
enum is hidden in between, nor a member of an enum around the initializer left out. -/
theorem enum_names_printed_iff {j : PrintJob} {p : PrintPlace} {inner : List ScopeId}
    {owner : SymbolId} {rest : List LexicalFrame}
    (h : j.Reaches p (inner.map .scope ++ .enum owner :: rest)) (name : String) :
    let printed? := j.bindings.printedMeaning? (inner.map .scope ++ .enum owner :: rest) name
    let lexical? := j.bindings.lexicalMeaning? (inner.map .scope ++ .enum owner :: rest) name
    let text? := printed?.bind (p.meaningText? name)
    (∀ (fuel : Nat) (required : Precedence) (n : Node), n.form = .identifier name →
        Print.operand (Print.nodeWithin (fuel + 1)) required n p =
          Print.write (text?.getD (j.file.written name n.span)) p) ∧
      (∀ (print : Slot → Node → Print Bool) (property : Identifier) (initial? : Option Node),
        property.text = name → Print.shorthandProperty print property initial? p = (do
          Print.identifier property
          text?.forM fun text => Print.write (": " ++ text)
          Print.initializer print initial?) p) ∧
      (∀ (print : Slot → Node → Print Bool) (n : Node), n.erased.form = .identifier name →
        Print.callee print n p =
          (match text? with
          | some text => Print.write ("(0, " ++ text ++ ")")
          | none => Print.operand print .leftHandSide n) p) ∧
      (printed? = some (.member owner) ↔
        (j.bindings.symbol owner).exports.contains name = true) ∧
      (lexical? = some (.member owner) ↔
        (j.bindings.symbol owner).exports.contains name = true ∧
          ∀ s ∈ inner, j.bindings.resolveIn? name SymbolFlags.value s = none) ∧
      (printed? = lexical? ↔
        if (j.bindings.symbol owner).exports.contains name then
          ∀ s ∈ inner, j.bindings.resolveIn? name SymbolFlags.value s = none
        else (∃ s ∈ inner, j.bindings.resolveIn? name SymbolFlags.value s ≠ none) ∨
          ∀ outer, j.bindings.lexicalMeaning? rest name ≠ some (.member outer)) := by
  have hplace := h.standsIn
  have htext := hplace.replacement?_eq name
  obtain rfl := hplace.job
  dsimp only
  rw [← htext]
  refine ⟨fun fuel required n hn => ?_, fun print property initial? hproperty => ?_,
    fun print n hn => ?_, Bindings.printedMeaning?_eq_member_iff,
    Bindings.lexicalMeaning?_eq_member_iff, Bindings.printedMeaning?_eq_lexicalMeaning?_iff⟩
  · rw [Print.operand_identifier fuel required hn]
    rfl
  · subst hproperty
    rfl
  · have hcalled : Print.calledProperty? p n = p.replacement? name := by
      rw [Print.calledProperty?, hn]
    change (match Print.calledProperty? p n with
      | some text => Print.write ("(0, " ++ text ++ ")")
      | none => Print.operand print .leftHandSide n) p = _
    rw [hcalled]

/-- A place in a function in an initializer of an enum at the level of a file. -/
def PrintJob.placeIn (j : PrintJob) (owner : SymbolId) (function : ScopeId) : PrintPlace :=
  { j.place with scope := function, currentEnum? := some owner }

theorem PrintJob.reaches_placeIn {j : PrintJob} {node : NodeId} {function : ScopeId}
    (owner : SymbolId) (hopened : j.bindings.scopeOf? node = some function)
    (hparent : (j.bindings.scope function).parent? = some Bindings.rootScope)
    (hlt : Bindings.rootScope < function) :
    j.Reaches (j.placeIn owner function)
      ([function].map .scope ++ .enum owner :: [.scope Bindings.rootScope]) :=
  .scope (.enum owner .file) hopened hparent hlt

/-- The printing of a file with an enum whose member is an arrow function that reads the member. -/
def capturedMember : PrintJob :=
  let f := (parseSource "input.ts" "enum E \x7b A = x => A \x7d").1
  .ofFile f f.bind {}

theorem capturedMember_printed :
    Print.operand (Print.nodeWithin 1) .yield ⟨7, ⟨18, 19⟩, .identifier "A"⟩
        (capturedMember.placeIn 0 1) = Print.write "E.A" (capturedMember.placeIn 0 1) ∧
      capturedMember.bindings.lexicalMeaning? ([1].map .scope ++ .enum 0 :: [.scope 0]) "A" =
        some (.member 0) := by
  have hfile : capturedMember.bindings.scopeOf? 8 = some 1 ∧
      (capturedMember.bindings.scope 1).parent? = some 0 ∧
      (capturedMember.bindings.symbol 0).exports.contains "A" = true ∧
      capturedMember.bindings.resolveIn? "A" SymbolFlags.value 1 = none ∧
      (capturedMember.placeIn 0 1).meaningText? "A" (.member 0) = some "E.A" := by
    decide +kernel
  obtain ⟨hopened, hparent, hmember, hdeclared, htext⟩ := hfile
  obtain ⟨hprinted, -, -, hprints, hdenotes, -⟩ :=
    enum_names_printed_iff (PrintJob.reaches_placeIn 0 hopened hparent Nat.one_pos) "A"
  refine ⟨(hprinted 0 .yield _ rfl).trans ?_, hdenotes.mpr ⟨hmember, by simpa using hdeclared⟩⟩
  rw [hprints.mpr hmember, Option.bind_some, htext, Option.getD_some]

/-- An enum with an arrow function whose parameter has the name of a member. -/
def hiddenMember : String := "enum E \x7b A = A => A \x7d"

/-- The parameter is printed as the member. -/
theorem hidden_member_printed :
    (compile id "input.ts" hiddenMember).diagnostics = [] ∧
      (compile id "input.ts" hiddenMember).output? =
        some ("var E;\n(function (E) \x7b\n    E[E[\"A\"] = A => E.A] = \"A\";\n" ++
          "\x7d)(E || (E = \x7b\x7d));\n") := by
  decide +kernel

end Erasure

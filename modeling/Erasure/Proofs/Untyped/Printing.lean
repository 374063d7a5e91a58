import Erasure.Proofs.Print.Composed
import Erasure.Proofs.Untyped.EnumValues
import Erasure.Proofs.Untyped.Linkage
import Erasure.Proofs.Untyped.Shape

/-!
Printing steps that do the same with and without types, in files with matching bindings and in
matching scopes: from one state they write the same text, pass over the same comments and give the
same result. One rule for each way to put steps together, and one for each step on comments.
-/

namespace Erasure

variable {M : Matching} {outside : NodeId → Prop}

/-- All that is known about a file, with and without its types. -/
structure PrintJob.Alike (M : Matching) (outside : NodeId → Prop) (j j' : PrintJob) : Prop where
  file : j'.file = j.file.untyped
  bindings : j.bindings.Matches M outside j'.bindings
  enumValues : EnumValues.Alike outside j.enumValues j'.enumValues
  options : j.options = j'.options
  uses : ValueUses.Alike M j.uses j'.uses
  isCommonJS : j.isCommonJS = j'.isCommonJS
  linkage : Linkage.Alike M j.linkage j'.linkage

structure PrintPlace.Alike (M : Matching) (outside : NodeId → Prop) (p p' : PrintPlace) :
    Prop where
  job : p.job.Alike M outside p'.job
  scope : M.scopes p.scope p'.scope
  target : p.target = p'.target
  currentEnum : Option.Rel M.symbols p.currentEnum? p'.currentEnum?

theorem SourceFile.isExternalModule_untyped (f : SourceFile) :
    f.untyped.isExternalModule = f.isExternalModule := by
  change (untypedAll f.statements).any _ = f.statements.any _
  rw [untypedAll_eq_map]
  exact any_untyped (fun n => by rw [Node.form_untyped, Form.isModuleIndicator_untyped]) _

namespace PrintJob.Alike

variable {j j' : PrintJob}

theorem isUsed (h : j.Alike M outside j') {name : Identifier} (hname : outside name.id) :
    j.isUsed name = j'.isUsed name :=
  Linkage.Alike.isUsed h.bindings h.uses hname

theorem ofFile {f : SourceFile} {b b' : Bindings} (hf : ∀ n ∈ f.statements, n.Apart outside)
    (hb : b.Matches M outside b') (o : Options) :
    (PrintJob.ofFile f b o).Alike M outside (PrintJob.ofFile f.untyped b' o) := by
  have hmodule := f.isExternalModule_untyped
  have huses := ValueUses.alike_ofFile hf hb
  refine ⟨rfl, hb, EnumValues.alike_ofFile hf hb, rfl, huses, ?_, ?_⟩
  · change (_ && f.isExternalModule) = (_ && f.untyped.isExternalModule)
    rw [hmodule]
  · change Linkage.Alike M
      (if o.moduleKind.isCommonJSLike && f.isExternalModule then _ else {})
      (if o.moduleKind.isCommonJSLike && f.untyped.isExternalModule then _ else {})
    rw [hmodule]
    split
    · exact Linkage.alike_ofFile hf hb huses
    · exact .empty

end PrintJob.Alike

namespace PrintPlace.Alike

variable {p p' : PrintPlace}

theorem resolve? (h : p.Alike M outside p') (name : String) (meaning : SymbolFlags) :
    Option.Rel M.symbols (p.resolve? name meaning) (p'.resolve? name meaning) :=
  h.job.bindings.resolve? h.scope name meaning

theorem symbolReplacement? (h : p.Alike M outside p') (name : String) {s s' : ScopeId}
    (hs : M.scopes s s') {y y' : SymbolId} (hy : M.symbols y y') :
    p.symbolReplacement? name s y = p'.symbolReplacement? name s' y' := by
  have hb := h.job.bindings
  have hsymbol := hb.symbol y y' hy
  have hroot : (s = Bindings.rootScope) = (s' = Bindings.rootScope) :=
    propext (hb.scopes_eq_iff hs hb.root)
  have hparent := hsymbol.parent
  unfold PrintPlace.symbolReplacement?
  dsimp only
  rw [h.job.linkage.replacements y y' hy, hsymbol.isExported, hsymbol.has]
  simp only [h.job.isCommonJS, hroot]
  revert hparent
  cases (p.job.bindings.symbol y).parent? <;> cases (p'.job.bindings.symbol y').parent? <;>
    rintro ⟨⟩
  · rfl
  · rename_i owner owner' howner
    dsimp only
    rw [(hb.symbol owner owner' howner).name]

theorem replacement? (h : p.Alike M outside p') (name : String) :
    p.replacement? name = p'.replacement? name := by
  have hmember : Option.Rel (Symbol.Matches M outside)
      ((p.currentEnum?.map p.job.bindings.symbol).filter fun e => e.exports.contains name)
      ((p'.currentEnum?.map p'.job.bindings.symbol).filter fun e => e.exports.contains name) :=
    rel_filter (rel_map h.currentEnum h.job.bindings.symbol) fun e e' he => he.exports.contains name
  have hresolved :
      ((p.job.bindings.resolveWithScope? p.scope name SymbolFlags.value).bind fun found =>
        p.symbolReplacement? name found.1 found.2) =
      (p'.job.bindings.resolveWithScope? p'.scope name SymbolFlags.value).bind fun found =>
        p'.symbolReplacement? name found.1 found.2 := by
    refine eq_of_rel (rel_bind (h.job.bindings.resolveWithScope? h.scope name _) ?_)
    exact fun found found' hfound => rel_of_eq (h.symbolReplacement? name hfound.1 hfound.2)
  unfold PrintPlace.replacement?
  dsimp only
  rw [hresolved]
  revert hmember
  cases (p.currentEnum?.map p.job.bindings.symbol).filter fun e => e.exports.contains name <;>
    cases (p'.currentEnum?.map p'.job.bindings.symbol).filter fun e => e.exports.contains name <;>
    rintro ⟨⟩
  · rfl
  · rename_i he
    dsimp only
    rw [he.name]

theorem namesOnlyType (h : p.Alike M outside p') (name : String) :
    p.namesOnlyType name = p'.namesOnlyType name := by
  unfold PrintPlace.namesOnlyType
  rw [rel_isNone (h.resolve? name SymbolFlags.value)]
  refine congrArg (_ && ·) (rel_any (h.resolve? name _) fun y y' hy => congrArg Bool.not ?_)
  exact forall₂_any (h.job.bindings.symbol y y' hy).declarations fun d d' hd => by rw [hd.kind]

mutual

theorem entity? (h : p.Alike M outside p') :
    (n : Node) → Option.Rel M.symbols (p.entity? n) (p'.entity? n.untyped)
  | ⟨_, _, form⟩ => h.entityOf? form

theorem entityOf? (h : p.Alike M outside p') (form : Form) :
    Option.Rel M.symbols (p.entityOf? form) (p'.entityOf? form.untyped) := by
  cases form with
  | identifier name => exact h.resolve? name _
  | propertyAccess target name isOptional breakBeforeDot =>
      obtain ⟨name, isPrivate⟩ := name
      cases isPrivate with
      | true => exact .none
      | false =>
          cases isOptional with
          | true => exact .none
          | false =>
              refine rel_bind (h.entity? target) fun y y' hy => ?_
              exact (h.job.bindings.symbol y y' hy).exports.find? name.text
  | parenthesized inner => exact h.entity? inner
  | _ => exact .none

end

theorem memberAccess?_untyped (form : Form) :
    memberAccess? form.untyped = (memberAccess? form).map fun a => (a.1.untyped, a.2) := by
  cases form with
  | propertyAccess target name isOptional breakBeforeDot =>
      obtain ⟨name, isPrivate⟩ := name
      cases isPrivate <;> cases isOptional <;> rfl
  | elementAccess target index isOptional =>
      cases isOptional with
      | true => rfl
      | false =>
          obtain ⟨_, _, form⟩ := index
          cases form <;> rfl
  | _ => rfl

theorem constant? (h : p.Alike M outside p') (n : Node) :
    p.constant? n = p'.constant? n.untyped := by
  unfold PrintPlace.constant?
  rw [Node.form_untyped, memberAccess?_untyped]
  cases memberAccess? n.form with
  | none => rfl
  | some access =>
      obtain ⟨object, name⟩ := access
      change (p.entity? object).bind _ = (p'.entity? object.untyped).bind _
      refine eq_of_rel (rel_bind (h.entity? object) fun y y' hy => rel_of_eq ?_)
      rw [(h.job.bindings.symbol y y' hy).isConstEnum,
        h.job.enumValues.member? h.job.bindings hy name]

end PrintPlace.Alike

namespace Print

/-- Steps that do the same in places with and without types. -/
def Alike (M : Matching) (outside : NodeId → Prop) {α : Type} (m m' : Print α) : Prop :=
  ∀ p p' : PrintPlace, p.Alike M outside p' → m p = m' p'

/-- Printers that do the same with nodes with and without types. -/
def NodesAlike (M : Matching) (outside : NodeId → Prop)
    (print print' : Slot → Node → Print Bool) : Prop :=
  ∀ (slot : Slot) (n : Node), n.Apart outside →
    Alike M outside (print slot n) (print' slot n.untyped)

namespace Alike

variable {α β : Type} {m m' : Print α} {k k' : α → Print β}

theorem pure (a : α) : Alike M outside (Pure.pure a) (Pure.pure a) := fun _ _ _ => rfl

theorem bind (h : Alike M outside m m') (hk : ∀ a, Alike M outside (k a) (k' a)) :
    Alike M outside (m >>= k) (m' >>= k') := by
  intro p p' hp
  change (m p >>= fun a => k a p) = (m' p' >>= fun a => k' a p')
  rw [h p p' hp]
  exact congrArg _ (funext fun a => hk a p p' hp)

theorem seq {n n' : Print β} (h : Alike M outside m m') (hn : Alike M outside n n') :
    Alike M outside (m >>= fun _ => n) (m' >>= fun _ => n') :=
  h.bind fun _ => hn

/-- A step that is left out unless a condition holds. -/
theorem when {c c' : Prop} [Decidable c] [Decidable c'] {m m' : Print Unit}
    {k k' : Unit → Print β} (hc : c ↔ c') (h : Alike M outside m m')
    (hk : Alike M outside (k ()) (k' ())) :
    Alike M outside (if c then m >>= k else k ()) (if c' then m' >>= k' else k' ()) := by
  simp only [hc]
  split
  · exact h.bind fun _ => hk
  · exact hk

/-- Two steps that are left out unless a condition holds. -/
theorem when_seq {c c' : Prop} [Decidable c] [Decidable c'] {m m' n n' : Print Unit}
    {k k' : Unit → Print β} (hc : c ↔ c') (h : Alike M outside m m') (hn : Alike M outside n n')
    (hk : Alike M outside (k ()) (k' ())) :
    Alike M outside (if c then m >>= fun _ => n >>= k else k ())
      (if c' then m' >>= fun _ => n' >>= k' else k' ()) := by
  simp only [hc]
  split
  · exact h.seq (hn.bind fun _ => hk)
  · exact hk

theorem ite {c c' : Prop} [Decidable c] [Decidable c'] {n n' : Print α} (hc : c ↔ c')
    (h : Alike M outside m m') (hn : Alike M outside n n') :
    Alike M outside (if c then m else n) (if c' then m' else n') := by
  simp only [hc]
  split
  · exact h
  · exact hn

theorem unit : Alike M outside (Pure.pure ()) (Pure.pure ()) := .pure ()

theorem discard (h : Alike M outside m m') :
    Alike M outside (Functor.discard m) (Functor.discard m') := by
  intro p p' hp
  change Functor.discard (m p) = Functor.discard (m' p')
  rw [h p p' hp]

theorem forM {ε : Type} {v : ε → ε} {as : List ε} {f f' : ε → Print Unit}
    (h : ∀ a ∈ as, Alike M outside (f a) (f' (v a))) :
    Alike M outside (as.forM f) ((as.map v).forM f') := by
  induction as with
  | nil => exact unit
  | cons a as ih =>
      obtain ⟨ha, has⟩ := List.forall_mem_cons.mp h
      exact ha.seq (ih has)

theorem forM_same {ε : Type} {as : List ε} {f f' : ε → Print Unit}
    (h : ∀ a ∈ as, Alike M outside (f a) (f' a)) :
    Alike M outside (as.forM f) (as.forM f') := by
  have hmap := forM (v := id) h
  rwa [List.map_id] at hmap

theorem option {ε : Type} {v : ε → ε} {a? : Option ε} {f f' : ε → Print Unit}
    (h : ∀ a ∈ a?, Alike M outside (f a) (f' (v a))) :
    Alike M outside (a?.forM f) ((a?.map v).forM f') := by
  cases a? with
  | none => exact unit
  | some a => exact h a rfl

theorem option_same {ε : Type} {a? : Option ε} {f f' : ε → Print Unit}
    (h : ∀ a ∈ a?, Alike M outside (f a) (f' a)) :
    Alike M outside (a?.forM f) (a?.forM f') := by
  cases a? with
  | none => exact unit
  | some a => exact h a rfl

/-- Steps that do not ask where printing stands. -/
theorem state (m : StateM PrintState α) :
    Alike M outside (fun _ => m : Print α) (fun _ => m) := fun _ _ _ => rfl

theorem write (text : String) : Alike M outside (write text) (write text) := .state _

theorem space : Alike M outside space space := .state _

theorem line : Alike M outside line line := .state _

theorem mark : Alike M outside mark mark := fun _ _ _ => rfl

theorem rewind (start : Writer.Mark) : Alike M outside (rewind start) (rewind start) := .state _

theorem wroteSince (start : Writer.Mark) :
    Alike M outside (wroteSince start) (wroteSince start) := fun _ _ _ => rfl

theorem pending : Alike M outside pending pending := fun _ _ _ => rfl

theorem setPending (cs : List Comment) : Alike M outside (setPending cs) (setPending cs) := .state _

theorem indented (h : Alike M outside m m') : Alike M outside (indented m) (indented m') :=
  .seq (.state _) (h.bind fun a => .seq (.state _) (.pure a))

theorem broken {m m' : Print Unit} (isBroken : Bool) (h : Alike M outside m m') :
    Alike M outside (broken isBroken m) (broken isBroken m') :=
  .ite Iff.rfl (.indented (line.seq h)) (space.seq h)

theorem commaSeparated {ε : Type} {v : ε → ε} {as : List ε} {f f' : ε → Print Unit}
    (h : ∀ a ∈ as, Alike M outside (f a) (f' (v a))) :
    Alike M outside (commaSeparated f as) (commaSeparated f' (as.map v)) := by
  cases as with
  | nil => exact unit
  | cons a as =>
      obtain ⟨ha, has⟩ := List.forall_mem_cons.mp h
      exact ha.seq (forM fun a ha => (write ", ").seq (has a ha))

theorem read {k k' : PrintPlace → Print β}
    (h : ∀ p p', p.Alike M outside p' → Alike M outside (k p) (k' p')) :
    Alike M outside (MonadReader.read >>= k) (MonadReader.read >>= k') :=
  fun p p' hp => h p p' hp p p' hp

theorem job {k k' : PrintJob → Print β}
    (h : ∀ j j', j.Alike M outside j' → Alike M outside (k j) (k' j')) :
    Alike M outside (job >>= k) (job >>= k') :=
  fun p p' hp => h p.job p'.job hp.job p p' hp

theorem file {k k' : SourceFile → Print β} (h : ∀ f, Alike M outside (k f) (k' f.untyped)) :
    Alike M outside (file >>= k) (file >>= k') := by
  intro p p' hp
  change k p.job.file p = k' p'.job.file p'
  rw [hp.job.file]
  exact h _ p p' hp

theorem options {k k' : Options → Print β} (h : ∀ o, Alike M outside (k o) (k' o)) :
    Alike M outside (options >>= k) (options >>= k') := by
  intro p p' hp
  change k p.job.options p = k' p'.job.options p'
  rw [hp.job.options]
  exact h _ p p' hp

theorem target {k k' : ExportTarget → Print β} (h : ∀ t, Alike M outside (k t) (k' t)) :
    Alike M outside (target >>= k) (target >>= k') := by
  intro p p' hp
  change k p.target p = k' p'.target p'
  rw [hp.target]
  exact h _ p p' hp

theorem inScopeOf {node : NodeId} (hnode : outside node) (h : Alike M outside m m') :
    Alike M outside (inScopeOf node m) (inScopeOf node m') := by
  intro p p' hp
  exact h _ _ { hp with scope := rel_getD (hp.job.bindings.scopeOf? node hnode) hp.scope }

theorem withTarget (t : ExportTarget) (h : Alike M outside m m') :
    Alike M outside (withTarget t m) (withTarget t m') :=
  fun _ _ hp => h _ _ { hp with target := rfl }

theorem withEnum {y y' : SymbolId} (hy : M.symbols y y') (h : Alike M outside m m') :
    Alike M outside (withEnum y m) (withEnum y' m') :=
  fun _ _ hp => h _ _ { hp with currentEnum := .some hy }

theorem identifier (i : Identifier) : Alike M outside (identifier i) (identifier i) :=
  .file fun _ => .write _

end Alike
end Print

namespace Print
namespace Alike

theorem isKept (c : Comment) : Alike M outside (isKept c) (isKept c) :=
  .file fun _ => .options fun _ => .pure _

theorem comment (c : Comment) : Alike M outside (comment c) (comment c) := by
  refine .file fun f => ?_
  refine .ite Iff.rfl ?_ (.write _)
  have hget : Alike M outside (get : Print PrintState) get := fun _ _ _ => rfl
  refine hget.bind fun s => ?_
  have hcolumn : f.untyped.columnOf c.start = f.columnOf c.start :=
    f.untyped.columnOf_congr (g := f) rfl _
  rw [hcolumn]
  exact .write _

theorem skipComments (offset : Nat) :
    Alike M outside (skipComments offset) (skipComments offset) :=
  pending.bind fun _ => .setPending _

theorem leadingComments (offset : Nat) :
    Alike M outside (leadingComments offset) (leadingComments offset) := by
  refine pending.bind fun cs => .file fun f => ?_
  rw [attached_congr (f := f.untyped) (g := f) rfl]
  refine .seq (forM_same fun c _ => ?_) (.setPending _)
  refine (isKept c).bind fun kept => .ite Iff.rfl ?_ unit
  exact (comment c).seq (.ite Iff.rfl line space)

theorem trailingFrom (fuel offset : Nat) (isSeparated : Bool) :
    Alike M outside (trailingFrom fuel offset isSeparated)
      (trailingFrom fuel offset isSeparated) := by
  induction fuel generalizing offset isSeparated with
  | zero => exact unit
  | succ fuel ih =>
      refine .file fun f => ?_
      rw [f.untyped.skipBlanks_congr (g := f) rfl, f.untyped.skipSeparator_congr (g := f) rfl]
      dsimp only
      refine pending.bind fun cs => ?_
      split
      · exact unit
      · refine .ite Iff.rfl unit (.seq (.setPending _) ?_)
        refine (isKept _).bind fun kept => .ite Iff.rfl ?_ (ih _ _)
        exact space.seq ((comment _).seq (.ite Iff.rfl (ih _ _) line))

theorem trailingComments (offset : Nat) :
    Alike M outside (trailingComments offset) (trailingComments offset) :=
  pending.bind fun _ => trailingFrom _ _ _

theorem braceComments (offset : Nat) :
    Alike M outside (braceComments offset) (braceComments offset) := by
  refine .file fun f => ?_
  rw [f.untyped.skipBlanks_congr (g := f) rfl]
  exact pending.bind fun _ => .ite Iff.rfl (trailingComments _) unit

theorem closingComments (offset : Nat) :
    Alike M outside (closingComments offset) (closingComments offset) := by
  refine pending.bind fun cs => .seq (.setPending _) (forM_same fun c _ => ?_)
  refine .ite Iff.rfl ((isKept c).bind fun kept => .ite Iff.rfl ?_ unit) unit
  exact line.seq ((comment c).seq line)

theorem commented (span : Span) {m m' : Print Unit} (h : Alike M outside m m') :
    Alike M outside (commented span m) (commented span m') := by
  refine mark.bind fun start => (leadingComments span.start).seq (mark.bind fun body => h.seq ?_)
  refine (wroteSince body).bind fun wrote => .ite Iff.rfl ?_ ?_
  · exact (skipComments _).seq ((trailingComments _).seq (.pure true))
  · exact (rewind start).seq ((skipComments _).seq (.pure false))

theorem headerComments : Alike M outside headerComments headerComments := by
  refine .file fun f => ?_
  have hfirst : (f.untyped.statements.head?.map fun n => n.span.start).getD f.untyped.endOfFile =
      (f.statements.head?.map fun n => n.span.start).getD f.endOfFile := by
    change ((untypedAll f.statements).head?.map _).getD f.endOfFile = _
    cases f.statements with
    | nil => rfl
    | cons n _ => exact congrArg Span.start n.span_untyped
  rw [hfirst]
  dsimp only
  have hcomments : f.untyped.comments = f.comments := rfl
  rw [headerFrom_congr (f := f.untyped) (g := f) rfl, hcomments]
  split
  · exact unit
  · refine .ite Iff.rfl (.seq (forM_same fun c _ => ?_) (.setPending _)) unit
    exact (isKept c).bind fun kept => .ite Iff.rfl ((comment c).seq line) unit

end Alike
end Print
end Erasure

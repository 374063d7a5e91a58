import Erasure.Proofs.Scope.Introduced
import Erasure.Proofs.Scope.Invariant
import Erasure.Proofs.Scope.WellFormed

/-!
Steps of the binder that record declarations. A step says which nodes it may declare; if none of
them is declared twice, then well-formed bindings stay so. The rules put the nodes of a step
together from those of its parts.
-/

namespace Erasure
namespace Binder

/-- A step that keeps bindings well formed and declares some nodes only, none of them declared
before. What it gives satisfies a condition on the number of symbols that there are then. -/
def Records (known : Nat) (ids : List NodeId) {α : Type} (m : Binder α) (Q : α → Nat → Prop) :
    Prop :=
  ids.Nodup → ∀ (p : BinderPlace) (b : Bindings), b.WellFormed → p.scope < b.scopes.size →
    known ≤ b.symbols.size → (∀ i ∈ ids, b.Unrecorded i) →
      b.Extended ids (m p b).2 ∧ Q (m p b).1 (m p b).2.symbols.size

/-- Nothing is said about a result. -/
abbrev Anything {α : Type} : α → Nat → Prop := fun _ _ => True

/-- A symbol that exists. -/
abbrev Exists : SymbolId → Nat → Prop := fun y n => y < n

/-- A symbol that exists, if there is one. -/
abbrev ExistsIfAny : Option SymbolId → Nat → Prop := fun y? n => ∀ y ∈ y?, y < n

namespace Records

variable {known more : Nat} {ids u r : List NodeId} {α β γ : Type}
variable {m : Binder α} {k : α → Binder β} {Q : α → Nat → Prop} {R : β → Nat → Prop}

theorem mono (h : Records known ids m Q) (hle : known ≤ more) : Records more ids m Q :=
  fun hnodup p b hb hp hsize => h hnodup p b hb hp (Nat.le_trans hle hsize)

theorem weaken (h : Records known u m Q) (hle : ∀ i, u.count i ≤ ids.count i) :
    Records known ids m Q := by
  have hsub : u ⊆ ids := fun i hi =>
    List.count_pos_iff.mp (Nat.lt_of_lt_of_le (List.count_pos_iff.mpr hi) (hle i))
  intro hnodup p b hb hp hsize hfree
  have hused : u.Nodup := List.nodup_iff_count.mpr fun i =>
    Nat.le_trans (hle i) (List.nodup_iff_count.mp hnodup i)
  obtain ⟨hextended, hresult⟩ := h hused p b hb hp hsize fun i hi => hfree i (hsub hi)
  exact ⟨hextended.mono hsub, hresult⟩

protected theorem pure {a : α} (h : ∀ n, known ≤ n → Q a n) : Records known ids (pure a) Q :=
  fun _ _ _ hb _ hsize _ => ⟨.refl hb, h _ hsize⟩

protected theorem bind (h : Records known u m Q)
    (hk : ∀ a n, known ≤ n → Q a n → Records n r (k a) R) :
    Records known (u ++ r) (m >>= k) R := by
  intro hnodup p b hb hp hsize hfree
  obtain ⟨hused, hrest, hdisjoint⟩ := List.nodup_append.mp hnodup
  obtain ⟨hfirst, hresult⟩ :=
    h hused p b hb hp hsize fun i hi => hfree i (List.mem_append_left _ hi)
  have hfree' : ∀ i ∈ r, (m p b).2.Unrecorded i := fun i hi =>
    hfirst.unrecorded i (fun hmem => hdisjoint i hmem i hi rfl)
      (hfree i (List.mem_append_right _ hi))
  obtain ⟨hsecond, hresult'⟩ := hk _ _ (Nat.le_trans hsize hfirst.symbols_le) hresult hrest p _
    hfirst.wellFormed (Nat.lt_of_lt_of_le hp hfirst.scopes_le) (Nat.le_refl _) hfree'
  exact ⟨hfirst.trans hsecond, hresult'⟩

/-- A step of which nothing has to be known. -/
theorem seq (h : Records known u m Anything) (hk : ∀ a, Records known r (k a) R) :
    Records known (u ++ r) (m >>= k) R :=
  .bind h fun a _ hle _ => (hk a).mono hle

/-- A step that declares nothing. -/
theorem step (h : Records known [] m Anything) (hk : ∀ a, Records known ids (k a) R) :
    Records known ids (m >>= k) R := .seq h hk

theorem ite {c : Prop} [Decidable c] {m' : Binder α} (h : c → Records known ids m Q)
    (h' : ¬ c → Records known ids m' Q) : Records known ids (if c then m else m') Q := by
  split
  · exact h ‹_›
  · exact h' ‹_›

theorem forM {as : List γ} {f : γ → Binder Unit} {g : γ → List NodeId}
    (h : ∀ a ∈ as, Records known (g a) (f a) Anything) :
    Records known (as.flatMap g) (as.forM f) Anything := by
  induction as with
  | nil => exact .pure fun _ _ => trivial
  | cons a as ih =>
      obtain ⟨ha, has⟩ := List.forall_mem_cons.mp h
      exact .seq ha fun _ => ih has

theorem option {a? : Option γ} {f : γ → Binder Unit} {g : γ → List NodeId}
    (h : ∀ a ∈ a?, Records known (g a) (f a) Anything) :
    Records known (a?.toList.flatMap g) (a?.forM f) Anything := by
  cases a? with
  | none => exact .pure fun _ _ => trivial
  | some a => exact (h a rfl).weaken fun i => by simp

theorem currentScope : Records known ids currentScope Anything :=
  fun _ _ _ hb _ _ _ => ⟨.refl hb, trivial⟩

theorem withModifiers (ms : Modifiers) (h : Records known ids m Q) :
    Records known ids (withModifiers ms m) Q :=
  fun hnodup p => h hnodup { p with isAmbient := p.isAmbient || ms.isAmbient }

theorem inScope (kind : ScopeKind) (node : NodeId) {m : Binder Unit}
    (h : Records known ids m Anything) : Records known ids (inScope kind node m) Anything := by
  intro hnodup p b hb hp hsize hfree
  have hnew := hb.newScope kind hp node
  have hlt : b.scopes.size < (b.newScope kind (some p.scope) node).2.scopes.size := by simp
  obtain ⟨hextended, -⟩ := h hnodup { p with scope := b.scopes.size } _ hnew.wellFormed hlt
    (Nat.le_trans hsize hnew.symbols_le) fun i hi => hnew.unrecorded i (by simp) (hfree i hi)
  exact ⟨hnew.trans hextended, trivial⟩

theorem change {f : Bindings → Bindings}
    (h : ∀ b : Bindings, b.WellFormed → known ≤ b.symbols.size → b.Extended [] (f b)) :
    Records known ids (modify f : Binder Unit) Anything :=
  fun _ _ b hb _ hsize _ => ⟨(h b hb hsize).mono (List.nil_subset _), trivial⟩

theorem newSymbol (name : String) (flag : SymbolFlag) :
    Records known ids (modifyGet fun b => b.newSymbol name flag : Binder SymbolId) Exists :=
  fun _ _ b hb _ _ _ => ⟨(hb.newSymbol name flag).mono (List.nil_subset _), by
    show b.symbols.size < (b.newSymbol name flag).2.symbols.size
    simp⟩

theorem setSymbolOf (node : NodeId) {y : SymbolId} (hy : y < known) :
    Records known [node] (modify fun b => b.setSymbolOf node y : Binder Unit) Anything := by
  intro _ p b hb _ hsize hfree
  have hset := hb.setSymbolOf (hfree node (by simp)) (Nat.lt_of_lt_of_le hy hsize)
  exact ⟨hset.mono (List.nil_subset _), trivial⟩

theorem shareExport {b : Bindings} (h : b.WellFormed) (scope : ScopeId) {name : String}
    {y owner : SymbolId} (hy : y < b.symbols.size) (hname : (b.symbol y).name = name)
    (howner : owner < b.symbols.size) (p : BinderPlace) :
    b.Extended [] (shareExport scope name y owner p b).2 := by
  have hinsert := h.insertIfNew scope hy hname
  exact hinsert.step (hinsert.wellFormed.setOwner y (Nat.lt_of_lt_of_le howner hinsert.symbols_le))

theorem declareExcluding (scope : ScopeId) (name : Identifier) (kind : DeclarationKind)
    (excluded : SymbolFlags) (span : Span) (isExported : Bool) :
    Records known [name.id] (declareExcluding scope name kind excluded span isExported) Exists := by
  intro _ p b hb hp _ hfree
  have hdeclared := fun t => hb.declareExcluding t name.text excluded
    (d := (declaration name.id kind name.span span p b).1) (hfree name.id (by simp)) hp
  have hmark : ∀ (c : Bindings) (y : SymbolId), b.Extended [name.id] c → y < c.symbols.size →
      let c' := if isExported then c.modifySymbol y fun s => { s with isExported := true } else c
      b.Extended [name.id] c' ∧ y < c'.symbols.size := by
    intro c y hc hy
    have hset := hc.wellFormed.setExported y
    dsimp only
    split
    · exact ⟨hc.step hset, Nat.lt_of_lt_of_le hy hset.symbols_le⟩
    · exact ⟨hc, hy⟩
  rcases declareExcluding_cases p b scope name kind excluded span isExported with
    heq | ⟨owner, -, howner, heq⟩ <;> rw [heq]
  · have hnew := hdeclared (.locals scope)
    exact hmark _ _ hnew.extended hnew.lt
  · have hnew := hdeclared (.exports owner)
    have hshared := shareExport hnew.extended.wellFormed scope hnew.lt hnew.name_eq
      (Nat.lt_of_lt_of_le (hb.container_lt _ _ howner) hnew.extended.symbols_le) p
    exact hmark _ _ (hnew.extended.step hshared) (Nat.lt_of_lt_of_le hnew.lt hshared.symbols_le)

theorem declareHere (name : Identifier) (kind : DeclarationKind) (span : Span) (isExported : Bool) :
    Records known [name.id] (declareHere name kind span isExported) Exists :=
  .step .currentScope fun scope => .declareExcluding scope name kind _ span isExported

theorem declareBinding (scope : ScopeId) (n : Node) (kind : DeclarationKind) (span : Span)
    (isExported : Bool) :
    Records known n.bindingNumbers (declareBinding scope n kind span isExported) Anything := by
  have hnumbers : n.bindingNumbers = n.bindingIdentifiers.flatMap fun i => [i.id] :=
    List.map_eq_flatMap
  rw [hnumbers]
  refine .forM fun i _ => ?_
  exact .bind (r := []) (.declareExcluding scope i kind _ span isExported)
    fun _ _ _ _ => .pure fun _ _ => trivial

theorem declareVariables (kind : VariableKind) (ns : List Node) (isExported : Bool) :
    Records known (ns.flatMap Node.introduced) (declareVariables kind ns isExported) Anything := by
  refine .step .currentScope fun here =>
    .step (fun _ _ _ hb _ _ _ => ⟨.refl hb, trivial⟩) fun b => ?_
  refine .forM fun n _ => ?_
  split
  · rename_i name _ _ _ hform
    have hnumbers : n.introduced = name.bindingNumbers := by rw [Node.introduced, hform]
    exact hnumbers ▸ .declareBinding _ name _ _ _
  · exact .pure fun _ _ => trivial

theorem declareTypeParameter (excluded : SymbolFlags) (n : Node) :
    Records known n.introduced (declareTypeParameter excluded n) Anything := by
  unfold Binder.declareTypeParameter
  split
  · rename_i name _ _ hform
    have hnumbers : n.introduced = [name.id] := by rw [Node.introduced, hform]
    rw [hnumbers]
    exact .step .currentScope fun s => .bind (r := []) (.declareExcluding s name _ _ _ _)
      fun _ _ _ _ => .pure fun _ _ => trivial
  · exact .pure fun _ _ => trivial

theorem declareTypeParameters (ns : List Node) :
    Records known (ns.flatMap Node.introduced) (declareTypeParameters ns) Anything :=
  .forM fun n _ => .declareTypeParameter _ n

theorem declareParameter (n : Node) :
    Records known n.parameter.name.bindingNumbers (declareParameter n) Anything :=
  .ite (fun _ => .step .currentScope fun s => .declareBinding s _ _ _ _)
    fun _ => .pure fun _ _ => trivial

theorem declareAlias (name : Identifier) (isTypeOnly : Bool) (span : Span) (isExported : Bool) :
    Records known [name.id] (declareAlias name isTypeOnly span isExported) Anything :=
  .bind (r := []) (.declareHere name _ span isExported) fun _ _ _ _ => .pure fun _ _ => trivial

theorem declareBound (clause : ImportClause) (span : Span) :
    Records known (numbers clause.bindings?) (declareBound clause span) Anything := by
  unfold Binder.declareBound
  cases clause.bindings? with
  | none => exact .pure fun _ _ => trivial
  | some bindings =>
      rw [numbers_some]
      cases bindings with
      | all name => exact declareAlias name _ _ _
      | named specifiers =>
          refine (Records.forM fun s _ => declareAlias s.name _ _ _).weaken fun i => ?_
          exact count_flatMap_le (g := numbers) fun s _ => by
            simp only [numbers_importSpecifier, numbers_identifier, List.count_cons,
              List.count_append]
            omega

theorem declareImport (clause : ImportClause) (span : Span) :
    Records known (numbers clause) (declareImport clause span) Anything := by
  have hname : Records known (numbers clause.name?) (clause.name?.forM fun name =>
      Binder.declareAlias name clause.isTypeOnly span false) Anything :=
    .option (g := numbers) fun name _ => declareAlias name _ _ _
  rw [declareImport_eq, numbers_importClause]
  refine (Records.seq hname fun _ => declareBound clause span).weaken fun i => ?_
  simp only [List.count_cons, List.count_append]
  omega

/-- A member is declared by its own node. -/
theorem declareOwn (t : TableRef) (text : String) (node : NodeId) (kind : DeclarationKind)
    (nameSpan span : Span) : Records known [node] (do
      let d ← declaration node kind nameSpan span
      declareIn t text d) Exists := by
  intro _ p b hb hp _ hfree
  have hnew := hb.declareExcluding t text kind.excludes (d :=
    { node, kind, nameSpan, span, scope := p.scope, isAmbient := p.isAmbient })
    (hfree node (by simp)) hp
  exact ⟨hnew.extended, hnew.lt⟩

theorem declareMember (t : TableRef) (member key : Node) (kind : DeclarationKind) :
    Records known [member.id] (declareMember t member key kind) ExistsIfAny := by
  unfold Binder.declareMember
  split
  · rename_i text _
    refine .bind (r := []) (declareOwn t text member.id kind key.span member.span)
      fun y _ _ hy => .pure fun n hn => ?_
    rintro _ ⟨⟩
    exact Nat.lt_of_lt_of_le hy hn
  · exact .pure fun _ _ _ hy => by cases hy

end Records
end Binder
end Erasure

import Erasure.Proofs.Scope.Bindings
import Erasure.Proofs.Scope.Invariant

/-!
What a step of the binder adds. A step that declares names in new scopes only leaves the scopes and
symbols that existed before it as they were, also those that later names of the file lead to. No
step moves a scope, so that a walk that leaves a scope for the one around it is back where it was.
-/

namespace Erasure

/-- A table without symbols below a bound. -/
def SymbolTable.Above (bound : SymbolId) (t : SymbolTable) : Prop := ∀ e ∈ t.entries, bound ≤ e.2

namespace SymbolTable.Above

variable {bound : SymbolId} {t : SymbolTable}

theorem empty : SymbolTable.Above bound {} := by simp [SymbolTable.Above]

theorem find? (h : t.Above bound) {name : String} {y : SymbolId} (hy : t.find? name = some y) :
    bound ≤ y := by
  obtain ⟨before, after, heq, -⟩ := List.lookup_eq_some_iff.mp hy
  exact h (name, y) (by simp [heq])

theorem insert (h : t.Above bound) (name : String) {y : SymbolId} (hy : bound ≤ y) :
    (t.insert name y).Above bound := by
  unfold SymbolTable.insert
  split
  · intro e he
    obtain ⟨e', he', rfl⟩ := List.mem_map.mp he
    split
    · exact hy
    · exact h e' he'
  · intro e he
    rcases List.mem_append.mp he with he | he
    · exact h e he
    · obtain rfl := List.mem_singleton.mp he
      exact hy

end SymbolTable.Above

/-- The table of a new scope or symbol. -/
def TableRef.IsNew (base : Bindings) : TableRef → Prop
  | .locals s => base.scopes.size ≤ s
  | .exports y | .members y => base.symbols.size ≤ y

namespace Bindings

/-- Bindings that have grown from others. What those hold is unchanged, the nodes whose numbers
satisfy `outside` included, and names in new tables stand for new symbols. -/
structure Grown (base : Bindings) (outside : NodeId → Prop) (b : Bindings) : Prop where
  scopes_le : base.scopes.size ≤ b.scopes.size
  symbols_le : base.symbols.size ≤ b.symbols.size
  scope : ∀ s, s < base.scopes.size → b.scope s = base.scope s
  symbol : ∀ y, y < base.symbols.size → b.symbol y = base.symbol y
  scopeOf? : ∀ n, outside n → b.scopeOf? n = base.scopeOf? n
  symbolOf? : ∀ n, outside n → b.symbolOf? n = base.symbolOf? n
  locals : ∀ s, base.scopes.size ≤ s → (b.scope s).locals.Above base.symbols.size
  container : ∀ s y, base.scopes.size ≤ s → (b.scope s).container? = some y →
    base.symbols.size ≤ y
  exports : ∀ y, base.symbols.size ≤ y → (b.symbol y).exports.Above base.symbols.size
  members : ∀ y, base.symbols.size ≤ y → (b.symbol y).members.Above base.symbols.size

/-- Bindings with all scopes of others, which lie in the same scopes. -/
structure Later (b c : Bindings) : Prop where
  scopes_le : b.scopes.size ≤ c.scopes.size
  kind : ∀ s, s < b.scopes.size → (c.scope s).kind = (b.scope s).kind
  parent : ∀ s, s < b.scopes.size → (c.scope s).parent? = (b.scope s).parent?

namespace Later

variable {a b c : Bindings}

theorem of_scopes (h : c.scopes = b.scopes) : b.Later c := by
  have hscope : c.scope = b.scope := by
    funext s
    rw [Bindings.scope, Bindings.scope, h]
  exact ⟨Nat.le_of_eq (by rw [h]), fun s _ => by rw [hscope], fun s _ => by rw [hscope]⟩

theorem refl (b : Bindings) : b.Later b := .of_scopes rfl

theorem trans (h : a.Later b) (h' : b.Later c) : a.Later c where
  scopes_le := Nat.le_trans h.scopes_le h'.scopes_le
  kind s hs := (h'.kind s (Nat.lt_of_lt_of_le hs h.scopes_le)).trans (h.kind s hs)
  parent s hs := (h'.parent s (Nat.lt_of_lt_of_le hs h.scopes_le)).trans (h.parent s hs)

theorem scopeChain (h : b.Later c) (s : ScopeId) (hs : s < b.scopes.size) :
    c.scopeChain s = b.scopeChain s := by
  induction s using Nat.strongRecOn with
  | ind s ih =>
      rw [Bindings.scopeChain, h.parent s hs, Bindings.scopeChain.eq_1 b s]
      cases (b.scope s).parent? with
      | none => rfl
      | some parent =>
          by_cases hlt : parent < s
          · simp only [hlt, if_true, ih parent hlt (Nat.lt_trans hlt hs)]
          · simp only [hlt, if_false]

theorem mem_scopeChain_lt {s t : ScopeId} (hs : s < b.scopes.size) (ht : t ∈ b.scopeChain s) :
    t < b.scopes.size := by
  induction s using Nat.strongRecOn with
  | ind s ih =>
      rw [Bindings.scopeChain] at ht
      cases hparent : (b.scope s).parent? with
      | none =>
          simp only [hparent, List.mem_singleton] at ht
          exact ht ▸ hs
      | some parent =>
          by_cases hlt : parent < s
          · simp only [hparent, hlt, if_true, List.mem_cons] at ht
            rcases ht with rfl | ht
            · exact hs
            · exact ih parent hlt (Nat.lt_trans hlt hs) ht
          · simp only [hparent, hlt, if_false, List.mem_singleton] at ht
            exact ht ▸ hs

theorem functionContainer (h : b.Later c) {s : ScopeId} (hs : s < b.scopes.size) :
    c.functionContainer s = b.functionContainer s := by
  have hkinds : ∀ ts : List ScopeId, (∀ t ∈ ts, t < b.scopes.size) →
      (ts.find? fun t => (c.scope t).kind.isFunctionContainer) =
        ts.find? fun t => (b.scope t).kind.isFunctionContainer := by
    intro ts hts
    induction ts with
    | nil => rfl
    | cons t ts ih =>
        obtain ⟨ht, hts⟩ := List.forall_mem_cons.mp hts
        rw [List.find?_cons, List.find?_cons, h.kind t ht, ih hts]
  unfold Bindings.functionContainer
  rw [h.scopeChain s hs, hkinds _ fun t ht => mem_scopeChain_lt hs ht]

end Later

/-- Bindings after a change that only adds to a base. -/
structure Adds (base : Bindings) (outside : NodeId → Prop) (b c : Bindings) : Prop where
  grown : base.Grown outside c
  later : b.Later c

theorem scope_of_size_le (b : Bindings) {s : ScopeId} (h : b.scopes.size ≤ s) :
    b.scope s = default := by
  simp [scope, Array.getD, Nat.not_lt.mpr h]

theorem symbol_of_size_le (b : Bindings) {y : SymbolId} (h : b.symbols.size ≤ y) :
    b.symbol y = default := by
  simp [symbol, Array.getD, Nat.not_lt.mpr h]

theorem Grown.refl (base : Bindings) (outside : NodeId → Prop) : base.Grown outside base where
  scopes_le := Nat.le_refl _
  symbols_le := Nat.le_refl _
  scope _ _ := rfl
  symbol _ _ := rfl
  scopeOf? _ _ := rfl
  symbolOf? _ _ := rfl
  locals s hs := by rw [scope_of_size_le base hs]; exact .empty
  container s y hs hy := by rw [scope_of_size_le base hs] at hy; cases hy
  exports y hy := by rw [symbol_of_size_le base hy]; exact .empty
  members y hy := by rw [symbol_of_size_le base hy]; exact .empty

namespace Grown

variable {base b : Bindings} {outside : NodeId → Prop}

theorem newScope (h : base.Grown outside b) (kind : ScopeKind) (parent? : Option ScopeId)
    {node : NodeId} (hnode : ¬ outside node) :
    base.Adds outside b (b.newScope kind parent? node).2 where
  grown :=
    { h with
      scopes_le := by simpa using Nat.le_succ_of_le h.scopes_le
      scope := fun s hs => by
        rw [scope_newScope_of_ne _ _ _ _ (Nat.ne_of_lt (Nat.lt_of_lt_of_le hs h.scopes_le))]
        exact h.scope s hs
      scopeOf? := fun n hn => by
        have hne : n ≠ node := fun heq => hnode (heq ▸ hn)
        rw [scopeOf?_newScope_of_ne _ _ _ _ hne]
        exact h.scopeOf? n hn
      locals := fun s hs => by
        by_cases hnew : s = b.scopes.size
        · subst hnew
          rw [scope_newScope_self]
          exact .empty
        · rw [scope_newScope_of_ne _ _ _ _ hnew]
          exact h.locals s hs
      container := fun s y hs hy => by
        by_cases hnew : s = b.scopes.size
        · subst hnew
          rw [scope_newScope_self] at hy
          cases hy
        · rw [scope_newScope_of_ne _ _ _ _ hnew] at hy
          exact h.container s y hs hy }
  later :=
    { scopes_le := by simp
      kind := fun s hs => by rw [scope_newScope_of_ne _ _ _ _ (Nat.ne_of_lt hs)]
      parent := fun s hs => by rw [scope_newScope_of_ne _ _ _ _ (Nat.ne_of_lt hs)] }

theorem newSymbol (h : base.Grown outside b) (name : String) (flag : SymbolFlag) :
    base.Adds outside b (b.newSymbol name flag).2 where
  grown :=
    { h with
      symbols_le := by simpa using Nat.le_succ_of_le h.symbols_le
      symbol := fun y hy => by
        rw [symbol_newSymbol_of_ne _ _ _ (Nat.ne_of_lt (Nat.lt_of_lt_of_le hy h.symbols_le))]
        exact h.symbol y hy
      exports := fun y hy => by
        by_cases hnew : y = b.symbols.size
        · subst hnew
          rw [symbol_newSymbol_self]
          exact .empty
        · rw [symbol_newSymbol_of_ne _ _ _ hnew]
          exact h.exports y hy
      members := fun y hy => by
        by_cases hnew : y = b.symbols.size
        · subst hnew
          rw [symbol_newSymbol_self]
          exact .empty
        · rw [symbol_newSymbol_of_ne _ _ _ hnew]
          exact h.members y hy }
  later := .of_scopes rfl

theorem modifySymbol (h : base.Grown outside b) {y : SymbolId} (hy : base.symbols.size ≤ y)
    {f : Symbol → Symbol}
    (hexports : ∀ s, s.exports.Above base.symbols.size → (f s).exports.Above base.symbols.size)
    (hmembers : ∀ s, s.members.Above base.symbols.size → (f s).members.Above base.symbols.size) :
    base.Adds outside b (b.modifySymbol y f) where
  grown :=
    { h with
      symbols_le := by simpa using h.symbols_le
      symbol := fun z hz => by
        rw [symbol_modifySymbol_of_ne _ (Nat.ne_of_lt (Nat.lt_of_lt_of_le hz hy))]
        exact h.symbol z hz
      exports := fun z hz => by
        rcases b.symbol_modifySymbol_cases y z f with heq | ⟨-, heq⟩ <;> rw [heq]
        · exact h.exports z hz
        · exact hexports _ (h.exports z hz)
      members := fun z hz => by
        rcases b.symbol_modifySymbol_cases y z f with heq | ⟨-, heq⟩ <;> rw [heq]
        · exact h.members z hz
        · exact hmembers _ (h.members z hz) }
  later := .of_scopes rfl

theorem modifyScope (h : base.Grown outside b) {s : ScopeId} (hs : base.scopes.size ≤ s)
    {f : Scope → Scope} (hkind : ∀ t, (f t).kind = t.kind)
    (hparent : ∀ t, (f t).parent? = t.parent?)
    (hlocals : ∀ t, t.locals.Above base.symbols.size → (f t).locals.Above base.symbols.size)
    (hcontainer : ∀ t y, (f t).container? = some y → t.container? = some y ∨
      base.symbols.size ≤ y) : base.Adds outside b (b.modifyScope s f) where
  grown :=
    { h with
      scopes_le := by simpa using h.scopes_le
      scope := fun t ht => by
        rw [scope_modifyScope_of_ne _ (Nat.ne_of_lt (Nat.lt_of_lt_of_le ht hs))]
        exact h.scope t ht
      locals := fun t ht => by
        rcases b.scope_modifyScope_cases s t f with heq | ⟨-, heq⟩ <;> rw [heq]
        · exact h.locals t ht
        · exact hlocals _ (h.locals t ht)
      container := fun t y ht hy => by
        rcases b.scope_modifyScope_cases s t f with heq | ⟨-, heq⟩ <;> rw [heq] at hy
        · exact h.container t y ht hy
        · exact (hcontainer _ y hy).elim (h.container t y ht) id }
  later :=
    { scopes_le := by simp
      kind := fun t _ => by
        rcases b.scope_modifyScope_cases s t f with heq | ⟨-, heq⟩ <;> rw [heq]
        exact hkind _
      parent := fun t _ => by
        rcases b.scope_modifyScope_cases s t f with heq | ⟨-, heq⟩ <;> rw [heq]
        exact hparent _ }

theorem setSymbolOf (h : base.Grown outside b) {node : NodeId} (hnode : ¬ outside node)
    (y : SymbolId) : base.Adds outside b (b.setSymbolOf node y) where
  grown :=
    { h with
      symbolOf? := fun n hn => by
        have hne : n ≠ node := fun heq => hnode (heq ▸ hn)
        rw [symbolOf?_setSymbolOf_of_ne _ hne]
        exact h.symbolOf? n hn }
  later := .of_scopes rfl

/-- What is not a scope or a symbol is no part of it. -/
theorem error (h : base.Grown outside b) (m : Message) (span : Span) (args : List String) :
    base.Adds outside b (b.error m span args) :=
  ⟨{ h with }, .of_scopes rfl⟩

end Grown

theorem Adds.trans {base b c d : Bindings} {outside : NodeId → Prop}
    (h : base.Adds outside b c) (h' : base.Adds outside c d) : base.Adds outside b d :=
  ⟨h'.grown, h.later.trans h'.later⟩

namespace Grown

variable {base b : Bindings} {outside : NodeId → Prop}

theorem find? (h : base.Grown outside b) {t : TableRef} (ht : t.IsNew base) {name : String}
    {y : SymbolId} (hy : b.find? name t = some y) : base.symbols.size ≤ y := by
  cases t with
  | locals s => exact (h.locals s ht).find? hy
  | exports z => exact (h.exports z ht).find? hy
  | members z => exact (h.members z ht).find? hy

theorem insert (h : base.Grown outside b) {t : TableRef} (ht : t.IsNew base) (name : String)
    {y : SymbolId} (hy : base.symbols.size ≤ y) : base.Adds outside b (b.insert name y t) := by
  cases t with
  | locals s =>
      exact h.modifyScope ht (fun _ => rfl) (fun _ => rfl) (fun _ hm => hm.insert name hy)
        fun _ _ => .inl
  | exports z => exact h.modifySymbol ht (fun _ hm => hm.insert name hy) fun _ => id
  | members z => exact h.modifySymbol ht (fun _ => id) fun _ hm => hm.insert name hy

theorem addDeclaration (h : base.Grown outside b) {y : SymbolId} (hy : base.symbols.size ≤ y)
    (d : Declaration) : base.Adds outside b (b.addDeclaration y d) :=
  h.modifySymbol hy (fun _ => id) fun _ => id

theorem newDeclared (h : base.Grown outside b) (name : String) (d : Declaration) :
    base.symbols.size ≤ (b.newDeclared name d).1 ∧
      base.Adds outside b (b.newDeclared name d).2 := by
  have hnew := h.newSymbol name d.kind.flag
  exact ⟨h.symbols_le, hnew.trans (hnew.grown.addDeclaration h.symbols_le d)⟩

theorem checkImplementation (h : base.Grown outside b) (existing : Symbol) (d : Declaration) :
    base.Adds outside b (b.checkImplementation existing d) := by
  unfold Bindings.checkImplementation
  split
  · exact h.error _ _ _
  · exact ⟨h, .refl b⟩

theorem declareExcluding (h : base.Grown outside b) {t : TableRef} (ht : t.IsNew base)
    (name : String) (excluded : SymbolFlags) {d : Declaration} (hd : ¬ outside d.node) :
    base.symbols.size ≤ (b.declareExcluding t name excluded d).1 ∧
      base.Adds outside b (b.declareExcluding t name excluded d).2 := by
  unfold Bindings.declareExcluding
  cases hfound : b.find? name t with
  | none =>
      obtain ⟨hy, hnew⟩ := h.newDeclared name d
      have hinserted := hnew.trans (hnew.grown.insert ht name hy)
      exact ⟨hy, hinserted.trans (hinserted.grown.setSymbolOf hd _)⟩
  | some y =>
      have hy := h.find? ht hfound
      simp only
      split
      · have herror := h.error (duplicateMessage (b.symbol y) d) d.nameSpan [name]
        obtain ⟨hy, hnew⟩ := herror.grown.newDeclared name d
        have hadded := herror.trans hnew
        exact ⟨hy, hadded.trans (hadded.grown.setSymbolOf hd _)⟩
      · have hchecked := h.checkImplementation (b.symbol y) d
        have hadded := hchecked.trans (hchecked.grown.addDeclaration hy d)
        exact ⟨hy, hadded.trans (hadded.grown.setSymbolOf hd _)⟩

end Grown
end Bindings

namespace Bindings

theorem later_newScope (b : Bindings) (kind : ScopeKind) (parent? : Option ScopeId)
    (node : NodeId) : b.Later (b.newScope kind parent? node).2 where
  scopes_le := by simp
  kind s hs := by rw [scope_newScope_of_ne _ _ _ _ (Nat.ne_of_lt hs)]
  parent s hs := by rw [scope_newScope_of_ne _ _ _ _ (Nat.ne_of_lt hs)]

theorem later_modifyScope (b : Bindings) (s : ScopeId) {f : Scope → Scope}
    (hkind : ∀ t, (f t).kind = t.kind) (hparent : ∀ t, (f t).parent? = t.parent?) :
    b.Later (b.modifyScope s f) where
  scopes_le := by simp
  kind t _ := by
    rcases b.scope_modifyScope_cases s t f with heq | ⟨-, heq⟩ <;> rw [heq]
    exact hkind _
  parent t _ := by
    rcases b.scope_modifyScope_cases s t f with heq | ⟨-, heq⟩ <;> rw [heq]
    exact hparent _

theorem later_insert (b : Bindings) (name : String) (y : SymbolId) (t : TableRef) :
    b.Later (b.insert name y t) := by
  cases t with
  | locals s => exact b.later_modifyScope s (fun _ => rfl) fun _ => rfl
  | exports z | members z => exact .of_scopes rfl

theorem later_declareExcluding (b : Bindings) (t : TableRef) (name : String)
    (excluded : SymbolFlags) (d : Declaration) :
    b.Later (b.declareExcluding t name excluded d).2 := by
  unfold Bindings.declareExcluding
  cases b.find? name t with
  | none =>
      have hnew : b.Later (b.newDeclared name d).2 := .of_scopes rfl
      exact (hnew.trans (later_insert _ name _ t)).trans (.of_scopes rfl)
  | some y =>
      simp only
      split
      · exact .of_scopes rfl
      · have hchecked : b.Later (b.checkImplementation (b.symbol y) d) := by
          unfold checkImplementation
          split <;> exact .of_scopes rfl
        exact hchecked.trans (.of_scopes rfl)

end Bindings

namespace Binder

variable {I : Bindings → Prop} {α β : Type}

theorem keeps_later_shareExport (base : Bindings) (scope : ScopeId) (name : String)
    (y owner : SymbolId) : Keeps base.Later (shareExport scope name y owner) := by
  refine .change fun b hb => ?_
  have hinsert : base.Later
      (if (b.find? name (.locals scope)).isSome then b else b.insert name y (.locals scope)) := by
    split
    · exact hb
    · exact hb.trans (b.later_insert name y _)
  exact hinsert.trans (.of_scopes rfl)

theorem keeps_later_declareExcluding (base : Bindings) (scope : ScopeId) (name : Identifier)
    (kind : DeclarationKind) (excluded : SymbolFlags) (span : Span) (isExported : Bool) :
    Keeps base.Later (declareExcluding scope name kind excluded span isExported) := by
  intro p b hb
  have hmark : ∀ (c : Bindings) (y : SymbolId), base.Later c →
      base.Later (if isExported then c.modifySymbol y fun s =>
        { s with isExported := true } else c) := by
    intro c y hc
    split
    · exact hc.trans (.of_scopes rfl)
    · exact hc
  have hnew := fun t => hb.trans (b.later_declareExcluding t name.text excluded
    (declaration name.id kind name.span span p b).1)
  rcases declareExcluding_cases p b scope name kind excluded span isExported with
    heq | ⟨owner, -, -, heq⟩ <;> rw [heq]
  · exact hmark _ _ (hnew _)
  · exact hmark _ _ (keeps_later_shareExport base scope name.text _ owner p _ (hnew _))

theorem isInvariant_later (base : Bindings) : IsInvariant base.Later where
  newScope b kind parent? node h := h.trans (b.later_newScope kind parent? node)
  newSymbol _ _ _ h := h.trans (.of_scopes rfl)
  setSymbolOf _ _ _ h := h.trans (.of_scopes rfl)
  setContainer b scope _ h := h.trans (b.later_modifyScope scope (fun _ => rfl) fun _ => rfl)
  setParent _ _ _ h := h.trans (.of_scopes rfl)
  augment _ h := h.trans (.of_scopes rfl)
  declareOwned b t name d _ _ h := h.trans (b.later_declareExcluding t name _ d)
  declareName p b scope name kind excluded span isExported _ h :=
    keeps_later_declareExcluding base scope name kind excluded span isExported p b h

end Binder

/-- Bindings, and where a walk over the file stands. -/
structure Standpoint where
  place : BinderPlace
  bindings : Bindings

namespace Standpoint

/-- What a step makes of the bindings. -/
def run (s : Standpoint) (m : Binder Unit) : Standpoint :=
  { s with bindings := (m s.place s.bindings).2 }

/-- Open a scope and go on in it. -/
def enter (s : Standpoint) (kind : ScopeKind) (node : NodeId) : Standpoint :=
  let (id, bindings) := s.bindings.newScope kind (some s.place.scope) node
  { place := { s.place with scope := id }, bindings }

/-- Go on in the scope around the current one. -/
def leave (s : Standpoint) : Standpoint :=
  { s with place.scope := (s.bindings.scope s.place.scope).parent?.getD Bindings.rootScope }

/-- A step in a scope is the same as entering the scope, the step, and leaving the current scope. -/
theorem leave_run_enter (s : Standpoint) (kind : ScopeKind) (node : NodeId) {m : Binder Unit}
    (hm : ∀ base : Bindings, Binder.Keeps base.Later m) :
    ((s.enter kind node).run m).leave = s.run (Binder.inScope kind node m) := by
  have hlater := hm (s.enter kind node).bindings (s.enter kind node).place _ (.refl _)
  have hlt : s.bindings.scopes.size < (s.enter kind node).bindings.scopes.size := by
    simp [enter]
  have hparent : ((s.enter kind node).bindings.scope s.bindings.scopes.size).parent? =
      some s.place.scope := by
    rw [enter, Bindings.scope_newScope_self]
  have hback : (((s.enter kind node).run m).bindings.scope s.bindings.scopes.size).parent? =
      some s.place.scope := (hlater.parent s.bindings.scopes.size hlt).trans hparent
  show Standpoint.mk { s.place with
    scope := (Bindings.scope _ s.bindings.scopes.size).parent?.getD Bindings.rootScope } _ = _
  rw [hback]
  rfl

end Standpoint

end Erasure

import Erasure.Proofs.Scope.Bindings
import Erasure.Proofs.Untyped.Matching

/-!
Changes that are made to two sets of bindings at once. They stay matching if the changes match; a
scope or symbol that is added to both joins the matching.
-/

namespace Erasure

variable {M N : Matching} {outside : NodeId → Prop}

/-- Tables of matching scopes or symbols. -/
inductive TableRef.Matches (M : Matching) : TableRef → TableRef → Prop where
  | locals {s s' : ScopeId} (h : M.scopes s s') : TableRef.Matches M (.locals s) (.locals s')
  | exports {y y' : SymbolId} (h : M.symbols y y') : TableRef.Matches M (.exports y) (.exports y')
  | members {y y' : SymbolId} (h : M.symbols y y') : TableRef.Matches M (.members y) (.members y')

theorem TableRef.Matches.mono (hle : M ≤ N) {t t' : TableRef}
    (ht : t.Matches M t') : t.Matches N t' := by
  cases ht with
  | locals hs => exact .locals (hle.scopes _ _ hs)
  | exports hy => exact .exports (hle.symbols _ _ hy)
  | members hy => exact .members (hle.symbols _ _ hy)

/-- A new index is greater than the old ones. -/
theorem lt_iff_lt_of_new {a a' size size' : Nat} (h : a < size ∧ a' < size') :
    (size < a ↔ size' < a') ∧ (a < size ↔ a' < size') := by
  omega

namespace Bindings.Matches

variable {b b' : Bindings}

theorem newScope (h : b.Matches M outside b') (kind : ScopeKind) {parent? parent?' : Option ScopeId}
    (hparent : Option.Rel M.scopes parent? parent?') (node : NodeId) :
    (b.newScope kind parent? node).2.Matches (M.addScope b.scopes.size b'.scopes.size) outside
      (b'.newScope kind parent?' node).2 where
  root := .inl h.root
  scope := by
    have hle := M.le_addScope b.scopes.size b'.scopes.size
    rintro s s' (hs | ⟨rfl, rfl⟩)
    · obtain ⟨hlt, hlt'⟩ := h.scope_lt s s' hs
      rw [scope_newScope_of_ne _ _ _ _ (Nat.ne_of_lt hlt),
        scope_newScope_of_ne _ _ _ _ (Nat.ne_of_lt hlt')]
      exact (h.scope s s' hs).mono hle
    · rw [scope_newScope_self, scope_newScope_self]
      exact ⟨rfl, rel_imp hle.scopes hparent, .empty, .none⟩
  symbol y y' hy := (h.symbol y y' hy).mono (M.le_addScope _ _)
  scope_lt := by
    rintro s s' (hs | ⟨rfl, rfl⟩)
    · obtain ⟨hlt, hlt'⟩ := h.scope_lt s s' hs
      exact ⟨by simpa using Nat.lt_succ_of_lt hlt, by simpa using Nat.lt_succ_of_lt hlt'⟩
    · simp
  symbol_lt := h.symbol_lt
  scopes_lt_iff := by
    rintro s s' t t' (hs | ⟨rfl, rfl⟩) (ht | ⟨rfl, rfl⟩)
    · exact h.scopes_lt_iff s s' t t' hs ht
    · exact (lt_iff_lt_of_new (h.scope_lt s s' hs)).2
    · exact (lt_iff_lt_of_new (h.scope_lt t t' ht)).1
    · simp
  symbols_eq_iff := h.symbols_eq_iff
  scopeOf? n hn := by
    by_cases hnode : n = node
    · subst hnode
      rw [scopeOf?_newScope_self, scopeOf?_newScope_self]
      exact .some (.inr ⟨rfl, rfl⟩)
    · rw [scopeOf?_newScope_of_ne _ _ _ _ hnode, scopeOf?_newScope_of_ne _ _ _ _ hnode]
      exact rel_imp (fun _ _ => .inl) (h.scopeOf? n hn)
  symbolOf? := h.symbolOf?

theorem newSymbol (h : b.Matches M outside b') (name : String) (flag : SymbolFlag) :
    (b.newSymbol name flag).2.Matches (M.addSymbol b.symbols.size b'.symbols.size) outside
      (b'.newSymbol name flag).2 where
  root := h.root
  scope s s' hs := (h.scope s s' hs).mono (M.le_addSymbol _ _)
  symbol := by
    rintro y y' (hy | ⟨rfl, rfl⟩)
    · obtain ⟨hlt, hlt'⟩ := h.symbol_lt y y' hy
      rw [symbol_newSymbol_of_ne _ _ _ (Nat.ne_of_lt hlt),
        symbol_newSymbol_of_ne _ _ _ (Nat.ne_of_lt hlt')]
      exact (h.symbol y y' hy).mono (M.le_addSymbol _ _)
    · rw [symbol_newSymbol_self, symbol_newSymbol_self]
      exact ⟨rfl, rfl, .nil, rfl, .none, .empty, .empty⟩
  scope_lt := h.scope_lt
  symbol_lt := by
    rintro y y' (hy | ⟨rfl, rfl⟩)
    · obtain ⟨hlt, hlt'⟩ := h.symbol_lt y y' hy
      exact ⟨by simpa using Nat.lt_succ_of_lt hlt, by simpa using Nat.lt_succ_of_lt hlt'⟩
    · simp
  scopes_lt_iff := h.scopes_lt_iff
  symbols_eq_iff := by
    rintro y y' z z' (hy | ⟨rfl, rfl⟩) (hz | ⟨rfl, rfl⟩)
    · exact h.symbols_eq_iff y y' z z' hy hz
    · have hlt := h.symbol_lt y y' hy
      simp only [Nat.ne_of_lt hlt.1, Nat.ne_of_lt hlt.2]
    · have hlt := h.symbol_lt z z' hz
      simp only [Nat.ne_of_gt hlt.1, Nat.ne_of_gt hlt.2]
    · simp
  scopeOf? := h.scopeOf?
  symbolOf? n hn := rel_imp (fun _ _ => .inl) (h.symbolOf? n hn)

theorem modifySymbol (h : b.Matches M outside b') {y y' : SymbolId} (hy : M.symbols y y')
    {f f' : Symbol → Symbol}
    (hf : ∀ s s', s.Matches M outside s' → (f s).Matches M outside (f' s')) :
    (b.modifySymbol y f).Matches M outside (b'.modifySymbol y' f') where
  root := h.root
  scope := h.scope
  symbol z z' hz := by
    have hiff := h.symbols_eq_iff z z' y y' hz hy
    by_cases hzy : z = y
    · obtain ⟨hlt, hlt'⟩ := h.symbol_lt y y' hy
      rw [hzy, hiff.mp hzy, symbol_modifySymbol_self _ hlt, symbol_modifySymbol_self _ hlt']
      exact hf _ _ (h.symbol y y' hy)
    · rw [symbol_modifySymbol_of_ne _ hzy, symbol_modifySymbol_of_ne _ (mt hiff.mpr hzy)]
      exact h.symbol z z' hz
  scope_lt := h.scope_lt
  symbol_lt := by simpa using h.symbol_lt
  scopes_lt_iff := h.scopes_lt_iff
  symbols_eq_iff := h.symbols_eq_iff
  scopeOf? := h.scopeOf?
  symbolOf? := h.symbolOf?

theorem modifyScope (h : b.Matches M outside b') {s s' : ScopeId} (hs : M.scopes s s')
    {f f' : Scope → Scope} (hf : ∀ t t', t.Matches M t' → (f t).Matches M (f' t')) :
    (b.modifyScope s f).Matches M outside (b'.modifyScope s' f') where
  root := h.root
  scope t t' ht := by
    have hiff := h.scopes_eq_iff ht hs
    by_cases hts : t = s
    · obtain ⟨hlt, hlt'⟩ := h.scope_lt s s' hs
      rw [hts, hiff.mp hts, scope_modifyScope_self _ hlt, scope_modifyScope_self _ hlt']
      exact hf _ _ (h.scope s s' hs)
    · rw [scope_modifyScope_of_ne _ hts, scope_modifyScope_of_ne _ (mt hiff.mpr hts)]
      exact h.scope t t' ht
  symbol := h.symbol
  scope_lt := by simpa using h.scope_lt
  symbol_lt := h.symbol_lt
  scopes_lt_iff := h.scopes_lt_iff
  symbols_eq_iff := h.symbols_eq_iff
  scopeOf? := h.scopeOf?
  symbolOf? := h.symbolOf?

theorem setSymbolOf (h : b.Matches M outside b') (node : NodeId) {y y' : SymbolId}
    (hy : M.symbols y y') : (b.setSymbolOf node y).Matches M outside (b'.setSymbolOf node y') :=
  { h with
    symbolOf? := fun n hn => by
      by_cases hnode : n = node
      · subst hnode
        rw [symbolOf?_setSymbolOf_self, symbolOf?_setSymbolOf_self]
        exact .some hy
      · rw [symbolOf?_setSymbolOf_of_ne _ hnode, symbolOf?_setSymbolOf_of_ne _ hnode]
        exact h.symbolOf? n hn }

/-- Errors are no part of the matching. -/
theorem error (h : b.Matches M outside b') (m m' : Message) (span span' : Span)
    (args args' : List String) :
    (b.error m span args).Matches M outside (b'.error m' span' args') :=
  { h with }

theorem find? (h : b.Matches M outside b') {t t' : TableRef} (ht : t.Matches M t')
    (name : String) : Option.Rel M.symbols (b.find? name t) (b'.find? name t') := by
  cases ht with
  | locals hs => exact (h.scope _ _ hs).locals.find? name
  | exports hy => exact (h.symbol _ _ hy).exports.find? name
  | members hy => exact (h.symbol _ _ hy).members.find? name

theorem insert (h : b.Matches M outside b') {t t' : TableRef} (ht : t.Matches M t')
    (name : String) {y y' : SymbolId} (hy : M.symbols y y') :
    (b.insert name y t).Matches M outside (b'.insert name y' t') := by
  cases ht with
  | locals hs =>
      exact h.modifyScope hs fun s s' hm => { hm with locals := hm.locals.insert name hy }
  | exports hz =>
      exact h.modifySymbol hz fun s s' hm => { hm with exports := hm.exports.insert name hy }
  | members hz =>
      exact h.modifySymbol hz fun s s' hm => { hm with members := hm.members.insert name hy }

theorem addDeclaration (h : b.Matches M outside b') {y y' : SymbolId} (hy : M.symbols y y')
    {d d' : Declaration} (hd : d.Matches M outside d') :
    (b.addDeclaration y d).Matches M outside (b'.addDeclaration y' d') :=
  h.modifySymbol hy fun s s' hm =>
    { hm with
      flags := by rw [hm.flags, hd.kind]
      declarations := List.rel_append hm.declarations (.cons hd .nil) }

/-- A declared name in both, in a matching that holds more. -/
def Declares (M : Matching) (outside : NodeId → Prop) (r r' : SymbolId × Bindings) : Prop :=
  ∃ N, M ≤ N ∧ N.symbols r.1 r'.1 ∧ r.2.Matches N outside r'.2

theorem newDeclared (h : b.Matches M outside b') (name : String) {d d' : Declaration}
    (hd : d.Matches M outside d') :
    Declares M outside (b.newDeclared name d) (b'.newDeclared name d') := by
  have hle := M.le_addSymbol b.symbols.size b'.symbols.size
  refine ⟨_, hle, .inr ⟨rfl, rfl⟩, ?_⟩
  unfold Bindings.newDeclared
  rw [hd.kind]
  exact (h.newSymbol name d'.kind.flag).addDeclaration (.inr ⟨rfl, rfl⟩) (hd.mono hle)

theorem checkImplementation (h : b.Matches M outside b') (existing existing' : Symbol)
    (d d' : Declaration) :
    (b.checkImplementation existing d).Matches M outside
      (b'.checkImplementation existing' d') := by
  unfold Bindings.checkImplementation
  split <;> split
  · exact h.error _ _ _ _ _ _
  · exact { h with }
  · exact { h with }
  · exact h

theorem declareExcluding (h : b.Matches M outside b') {t t' : TableRef} (ht : t.Matches M t')
    (name : String) (excluded : SymbolFlags) {d d' : Declaration} (hd : d.Matches M outside d') :
    Declares M outside (b.declareExcluding t name excluded d)
      (b'.declareExcluding t' name excluded d') := by
  have hfind := h.find? ht name
  unfold Bindings.declareExcluding
  rw [hd.node]
  cases hfound : b.find? name t <;> cases hfound' : b'.find? name t' <;>
    rw [hfound, hfound'] at hfind <;> cases hfind
  · obtain ⟨N, hle, hy, hnew⟩ := h.newDeclared name hd
    exact ⟨N, hle, hy, (hnew.insert (ht.mono hle) name hy).setSymbolOf _ hy⟩
  · rename_i y y' hy
    simp only [(h.symbol y y' hy).has excluded]
    split
    · obtain ⟨N, hle, hy, hnew⟩ :=
        (h.error (duplicateMessage (b.symbol y) d) (duplicateMessage (b'.symbol y') d')
          d.nameSpan d'.nameSpan [name] [name]).newDeclared name hd
      exact ⟨N, hle, hy, hnew.setSymbolOf _ hy⟩
    · refine ⟨M, M.le_refl, hy, ?_⟩
      exact ((h.checkImplementation _ _ _ _).addDeclaration hy hd).setSymbolOf _ hy

end Bindings.Matches

end Erasure

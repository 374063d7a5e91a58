import Erasure.Scope.Bindings

/-!
What is left of bindings after a change to them, and what a name stands for in a chain of scopes:
the nearest of the symbols with that name that has the meaning that is looked for.
-/

namespace Erasure.Bindings

variable (b : Bindings)

@[simp]
theorem size_scopes_modifySymbol (y : SymbolId) (f : Symbol → Symbol) :
    (b.modifySymbol y f).scopes.size = b.scopes.size := rfl

@[simp]
theorem size_symbols_modifySymbol (y : SymbolId) (f : Symbol → Symbol) :
    (b.modifySymbol y f).symbols.size = b.symbols.size := Array.size_modify

theorem symbol_modifySymbol_self {y : SymbolId} (hy : y < b.symbols.size) (f : Symbol → Symbol) :
    (b.modifySymbol y f).symbol y = f (b.symbol y) := by
  simp [symbol, modifySymbol, Array.getD, hy, Array.getElem_modify]

theorem symbol_modifySymbol_of_ne {y z : SymbolId} (h : z ≠ y) (f : Symbol → Symbol) :
    (b.modifySymbol y f).symbol z = b.symbol z := by
  by_cases hz : z < b.symbols.size
  · simp [symbol, modifySymbol, Array.getD, hz, Array.getElem_modify, Ne.symm h]
  · simp [symbol, modifySymbol, Array.getD, hz]

theorem symbol_modifySymbol_cases (y z : SymbolId) (f : Symbol → Symbol) :
    (b.modifySymbol y f).symbol z = b.symbol z ∨
      z = y ∧ (b.modifySymbol y f).symbol z = f (b.symbol z) := by
  by_cases h : z = y
  · subst h
    by_cases hz : z < b.symbols.size
    · exact .inr ⟨rfl, b.symbol_modifySymbol_self hz f⟩
    · exact .inl (by simp [symbol, modifySymbol, Array.getD, hz])
  · exact .inl (b.symbol_modifySymbol_of_ne h f)

@[simp]
theorem size_scopes_modifyScope (s : ScopeId) (f : Scope → Scope) :
    (b.modifyScope s f).scopes.size = b.scopes.size := Array.size_modify

@[simp]
theorem size_symbols_modifyScope (s : ScopeId) (f : Scope → Scope) :
    (b.modifyScope s f).symbols.size = b.symbols.size := rfl

theorem scope_modifyScope_self {s : ScopeId} (hs : s < b.scopes.size) (f : Scope → Scope) :
    (b.modifyScope s f).scope s = f (b.scope s) := by
  simp [scope, modifyScope, Array.getD, hs, Array.getElem_modify]

theorem scope_modifyScope_of_ne {s t : ScopeId} (h : t ≠ s) (f : Scope → Scope) :
    (b.modifyScope s f).scope t = b.scope t := by
  by_cases ht : t < b.scopes.size
  · simp [scope, modifyScope, Array.getD, ht, Array.getElem_modify, Ne.symm h]
  · simp [scope, modifyScope, Array.getD, ht]

theorem scope_modifyScope_cases (s t : ScopeId) (f : Scope → Scope) :
    (b.modifyScope s f).scope t = b.scope t ∨
      t = s ∧ (b.modifyScope s f).scope t = f (b.scope t) := by
  by_cases h : t = s
  · subst h
    by_cases ht : t < b.scopes.size
    · exact .inr ⟨rfl, b.scope_modifyScope_self ht f⟩
    · exact .inl (by simp [scope, modifyScope, Array.getD, ht])
  · exact .inl (b.scope_modifyScope_of_ne h f)

section
variable (kind : ScopeKind) (parent? : Option ScopeId) (node : NodeId)

@[simp]
theorem size_scopes_newScope :
    (b.newScope kind parent? node).2.scopes.size = b.scopes.size + 1 := Array.size_push _

theorem scope_newScope_self :
    (b.newScope kind parent? node).2.scope b.scopes.size = { kind, parent? } := by
  simp [scope, newScope, Array.getD]

theorem scope_newScope_of_ne {s : ScopeId} (h : s ≠ b.scopes.size) :
    (b.newScope kind parent? node).2.scope s = b.scope s := by
  by_cases hs : s < b.scopes.size
  · simp [scope, newScope, Array.getD, hs, Array.getElem_push, Nat.lt_succ_of_lt hs]
  · have hs' : ¬ s < b.scopes.size + 1 := by
      intro hlt
      exact h (Nat.eq_of_lt_succ_of_not_lt hlt hs)
    simp [scope, newScope, Array.getD, hs, hs']

theorem scopeOf?_newScope_self :
    (b.newScope kind parent? node).2.scopeOf? node = some b.scopes.size := by
  simp [scopeOf?, newScope]

theorem scopeOf?_newScope_of_ne {n : NodeId} (h : n ≠ node) :
    (b.newScope kind parent? node).2.scopeOf? n = b.scopeOf? n := by
  simp [scopeOf?, newScope, Std.TreeMap.getElem?_insert, Ne.symm h]

end

section
variable (name : String) (flag : SymbolFlag)

@[simp]
theorem size_symbols_newSymbol :
    (b.newSymbol name flag).2.symbols.size = b.symbols.size + 1 := Array.size_push _

theorem symbol_newSymbol_self :
    (b.newSymbol name flag).2.symbol b.symbols.size = { name, flags := [flag] } := by
  simp [symbol, newSymbol, Array.getD]

theorem symbol_newSymbol_of_ne {y : SymbolId} (h : y ≠ b.symbols.size) :
    (b.newSymbol name flag).2.symbol y = b.symbol y := by
  by_cases hy : y < b.symbols.size
  · simp [symbol, newSymbol, Array.getD, hy, Array.getElem_push, Nat.lt_succ_of_lt hy]
  · have hy' : ¬ y < b.symbols.size + 1 := by
      intro hlt
      exact h (Nat.eq_of_lt_succ_of_not_lt hlt hy)
    simp [symbol, newSymbol, Array.getD, hy, hy']

end

theorem symbolOf?_setSymbolOf_self (n : NodeId) (y : SymbolId) :
    (b.setSymbolOf n y).symbolOf? n = some y := by
  simp [symbolOf?, setSymbolOf]

theorem symbolOf?_setSymbolOf_of_ne {n m : NodeId} (h : m ≠ n) (y : SymbolId) :
    (b.setSymbolOf n y).symbolOf? m = b.symbolOf? m := by
  simp [symbolOf?, setSymbolOf, Std.TreeMap.getElem?_insert, Ne.symm h]

end Erasure.Bindings

namespace Erasure.Bindings

variable {b : Bindings} {inner outer : ScopeId} {name : String} {meaning : SymbolFlags}

theorem resolve?_eq_findSome? (b : Bindings) (scope : ScopeId) (name : String)
    (meaning : SymbolFlags) :
    b.resolve? scope name meaning = (b.scopeChain scope).findSome? (b.resolveIn? name meaning) := by
  unfold resolve? resolveWithScope?
  induction b.scopeChain scope with
  | nil => rfl
  | cons s chain ih =>
      rw [List.findSome?_cons, List.findSome?_cons]
      cases b.resolveIn? name meaning s with
      | none => exact ih
      | some id => rfl

/-- A scope is searched after the scopes inside of it. -/
theorem resolve?_of_scopeChain {scopes : List ScopeId}
    (hchain : b.scopeChain inner = scopes ++ b.scopeChain outer) (name : String)
    (meaning : SymbolFlags) :
    b.resolve? inner name meaning =
      (scopes.findSome? (b.resolveIn? name meaning)).or (b.resolve? outer name meaning) := by
  rw [resolve?_eq_findSome?, hchain, List.findSome?_append, resolve?_eq_findSome?]

/-- A name stands for the same inside of some scopes and around them exactly if they declare no
other symbol with that name. -/
theorem resolve?_eq_iff_of_scopeChain {scopes : List ScopeId}
    (hchain : b.scopeChain inner = scopes ++ b.scopeChain outer) :
    b.resolve? inner name meaning = b.resolve? outer name meaning ↔
      ∀ id ∈ scopes.findSome? (b.resolveIn? name meaning),
        b.resolve? outer name meaning = some id := by
  rw [resolve?_of_scopeChain hchain]
  cases scopes.findSome? (b.resolveIn? name meaning) with
  | none => simp
  | some id => simp [eq_comm]

theorem scopeChain_of_parent (hparent : (b.scope inner).parent? = some outer)
    (hlt : outer < inner) : b.scopeChain inner = [inner] ++ b.scopeChain outer := by
  rw [scopeChain, hparent]
  exact if_pos hlt

/-- The symbols with a name in a scope, and in the namespace or enum that the scope belongs to. -/
def namedIn (b : Bindings) (name : String) (s : ScopeId) : List SymbolId :=
  ((b.scope s).locals.find? name).toList ++
    ((b.scope s).container?.bind fun c => (b.symbol c).exports.find? name).toList

/-- All symbols with a name that are declared around a scope, of which the nearest comes first. -/
def named (b : Bindings) (scope : ScopeId) (name : String) : List SymbolId :=
  (b.scopeChain scope).flatMap (b.namedIn name)

theorem resolveIn?_eq_find? (b : Bindings) (name : String) (meaning : SymbolFlags) (s : ScopeId) :
    b.resolveIn? name meaning s = (b.namedIn name s).find? (b.hasMeaning meaning) := by
  have hoption : ∀ id? : Option SymbolId,
      id?.filter (b.hasMeaning meaning) = id?.toList.find? (b.hasMeaning meaning) := by
    intro id?
    cases id? with
    | none => rfl
    | some id => cases hmeaning : b.hasMeaning meaning id <;> simp [Option.filter, hmeaning]
  unfold resolveIn? namedIn
  rw [List.find?_append, ← hoption, ← hoption]

/-- Looking a name up finds the nearest symbol that has the meaning. -/
theorem resolve?_eq_find? (b : Bindings) (scope : ScopeId) (name : String) (meaning : SymbolFlags) :
    b.resolve? scope name meaning = (b.named scope name).find? (b.hasMeaning meaning) := by
  rw [resolve?_eq_findSome?, named, List.find?_flatMap]
  exact congrArg (List.findSome? · _) (funext fun s => b.resolveIn?_eq_find? name meaning s)

end Erasure.Bindings

import Erasure.Proofs.Scope.Bindings
import Erasure.Scope.Binder

/-!
Bindings that are well formed. Whatever they refer to exists, tables hold symbols under their names,
and the node of a declaration leads to the one symbol that has it. Every change of the binder keeps
this if the nodes of new declarations are new.
-/

namespace Erasure
namespace Bindings

/-- A table holds symbols that exist, under their names. -/
def Keyed (b : Bindings) (t : SymbolTable) : Prop :=
  ∀ e ∈ t.entries, e.2 < b.symbols.size ∧ (b.symbol e.2).name = e.1

/-- No declaration is one of the node. -/
def Unrecorded (b : Bindings) (node : NodeId) : Prop :=
  ∀ y, ∀ d ∈ (b.symbol y).declarations, d.node ≠ node

/-- Tables and blocks of namespaces lead to symbols that exist. -/
structure Linked (b : Bindings) : Prop where
  locals : ∀ s, b.Keyed (b.scope s).locals
  exports : ∀ y, b.Keyed (b.symbol y).exports
  members : ∀ y, b.Keyed (b.symbol y).members
  container_lt : ∀ s y, (b.scope s).container? = some y → y < b.symbols.size

structure WellFormed (b : Bindings) : Prop extends Linked b where
  owner_lt : ∀ y z, (b.symbol y).parent? = some z → z < b.symbols.size
  /-- A scope lies in one that was opened before it. -/
  parent_lt : ∀ s t, (b.scope s).parent? = some t → t < s
  /-- All scopes lie in the scope of the file. -/
  rooted : ∀ s, 0 < s → s < b.scopes.size → (b.scope s).parent? ≠ none
  scopeOf_lt : ∀ node s, b.scopeOf? node = some s → s < b.scopes.size
  symbolOf_lt : ∀ node y, b.symbolOf? node = some y → y < b.symbols.size
  /-- A declaration is written in a scope, and its node leads to its symbol. -/
  declared : ∀ y, ∀ d ∈ (b.symbol y).declarations,
    d.scope < b.scopes.size ∧ b.symbolOf? d.node = some y
  /-- No symbol has two declarations of one node. -/
  distinct : ∀ y, ((b.symbol y).declarations.map Declaration.node).Nodup

/-- Well-formed bindings that extend others. New are declarations of some nodes only. -/
structure Extended (ids : List NodeId) (b c : Bindings) : Prop where
  wellFormed : c.WellFormed
  scopes_le : b.scopes.size ≤ c.scopes.size
  symbols_le : b.symbols.size ≤ c.symbols.size
  name_eq : ∀ y, y < b.symbols.size → (c.symbol y).name = (b.symbol y).name
  unrecorded : ∀ i, i ∉ ids → b.Unrecorded i → c.Unrecorded i

section
variable {b c d : Bindings} {ids more : List NodeId}

theorem Keyed.empty : b.Keyed {} := fun e he => by cases he

theorem Keyed.mono {t : SymbolTable} (h : b.Keyed t) (hsize : b.symbols.size ≤ c.symbols.size)
    (hname : ∀ y, y < b.symbols.size → (c.symbol y).name = (b.symbol y).name) : c.Keyed t := by
  intro e he
  obtain ⟨hlt, heq⟩ := h e he
  exact ⟨Nat.lt_of_lt_of_le hlt hsize, (hname _ hlt).trans heq⟩

theorem Keyed.find? {t : SymbolTable} (h : b.Keyed t) {name : String} {y : SymbolId}
    (hy : t.find? name = some y) : y < b.symbols.size ∧ (b.symbol y).name = name := by
  obtain ⟨before, after, heq, -⟩ := List.lookup_eq_some_iff.mp hy
  exact h (name, y) (by simp [heq])

theorem Keyed.insert {t : SymbolTable} (h : b.Keyed t) {name : String} {y : SymbolId}
    (hy : y < b.symbols.size) (hname : (b.symbol y).name = name) : b.Keyed (t.insert name y) := by
  unfold SymbolTable.insert
  split
  · intro e he
    obtain ⟨e', he', rfl⟩ := List.mem_map.mp he
    split
    · exact ⟨hy, hname⟩
    · exact h e' he'
  · intro e he
    rcases List.mem_append.mp he with he | he
    · exact h e he
    · obtain rfl := List.mem_singleton.mp he
      exact ⟨hy, hname⟩

theorem Extended.refl (h : b.WellFormed) : b.Extended ids b :=
  ⟨h, Nat.le_refl _, Nat.le_refl _, fun _ _ => rfl, fun _ _ => id⟩

theorem Extended.trans (h : b.Extended ids c) (h' : c.Extended more d) :
    b.Extended (ids ++ more) d where
  wellFormed := h'.wellFormed
  scopes_le := Nat.le_trans h.scopes_le h'.scopes_le
  symbols_le := Nat.le_trans h.symbols_le h'.symbols_le
  name_eq y hy := (h'.name_eq y (Nat.lt_of_lt_of_le hy h.symbols_le)).trans (h.name_eq y hy)
  unrecorded i hi hb := by
    rw [List.mem_append, not_or] at hi
    exact h'.unrecorded i hi.2 (h.unrecorded i hi.1 hb)

/-- A change that adds no declaration. -/
theorem Extended.step (h : b.Extended ids c) (h' : c.Extended [] d) : b.Extended ids d := by
  have htrans := h.trans h'
  rwa [List.append_nil] at htrans

theorem Extended.mono (h : b.Extended ids c) (hsub : ids ⊆ more) : b.Extended more c :=
  { h with unrecorded := fun i hi => h.unrecorded i fun hmem => hi (hsub hmem) }

end

theorem symbol_newSymbol_cases (b : Bindings) (name : String) (flag : SymbolFlag) (y : SymbolId) :
    (b.newSymbol name flag).2.symbol y = b.symbol y ∨
      (b.newSymbol name flag).2.symbol y = { name, flags := [flag] } := by
  by_cases hy : y = b.symbols.size
  · exact .inr (by rw [hy, symbol_newSymbol_self])
  · exact .inl (symbol_newSymbol_of_ne _ _ _ hy)

theorem scope_newScope_cases (b : Bindings) (kind : ScopeKind) (parent? : Option ScopeId)
    (node : NodeId) (s : ScopeId) :
    (b.newScope kind parent? node).2.scope s = b.scope s ∨
      s = b.scopes.size ∧ (b.newScope kind parent? node).2.scope s = { kind, parent? } := by
  by_cases hs : s = b.scopes.size
  · exact .inr ⟨hs, by rw [hs, scope_newScope_self]⟩
  · exact .inl (scope_newScope_of_ne _ _ _ _ hs)

theorem name_newSymbol (b : Bindings) (name : String) (flag : SymbolFlag) (y : SymbolId)
    (hy : y < b.symbols.size) : ((b.newSymbol name flag).2.symbol y).name = (b.symbol y).name := by
  rw [symbol_newSymbol_of_ne _ _ _ (Nat.ne_of_lt hy)]

theorem name_modifySymbol (b : Bindings) (y : SymbolId) {f : Symbol → Symbol}
    (hname : ∀ s, (f s).name = s.name) (z : SymbolId) :
    ((b.modifySymbol y f).symbol z).name = (b.symbol z).name := by
  rcases b.symbol_modifySymbol_cases y z f with heq | ⟨-, heq⟩ <;> rw [heq]
  exact hname _

theorem name_addDeclaration (b : Bindings) (y : SymbolId) (d : Declaration) (z : SymbolId) :
    ((b.addDeclaration y d).symbol z).name = (b.symbol z).name := by
  refine b.name_modifySymbol y ?_ z
  exact fun _ => rfl

theorem linked_empty : ({} : Bindings).Linked where
  locals _ := .empty
  exports _ := .empty
  members _ := .empty
  container_lt _ _ hy := by cases hy

namespace Linked

variable {b : Bindings} (h : b.Linked)
include h

/-- A change to none of the scopes and symbols. -/
theorem of_eq {c : Bindings} (hscopes : c.scopes = b.scopes) (hsymbols : c.symbols = b.symbols) :
    c.Linked := by
  cases b
  cases c
  cases hscopes
  cases hsymbols
  exact { h with }

theorem newScope (kind : ScopeKind) (parent? : Option ScopeId) (node : NodeId) :
    (b.newScope kind parent? node).2.Linked where
  locals s := by
    rcases b.scope_newScope_cases kind parent? node s with heq | ⟨-, heq⟩ <;> rw [heq]
    · exact h.locals s
    · exact .empty
  exports := h.exports
  members := h.members
  container_lt s y hy := by
    rcases b.scope_newScope_cases kind parent? node s with heq | ⟨-, heq⟩ <;> rw [heq] at hy
    · exact h.container_lt s y hy
    · cases hy

theorem newSymbol (name : String) (flag : SymbolFlag) : (b.newSymbol name flag).2.Linked := by
  have hsize : b.symbols.size ≤ (b.newSymbol name flag).2.symbols.size := by simp
  have hcases := b.symbol_newSymbol_cases name flag
  refine {
    locals := fun s => (h.locals s).mono hsize (b.name_newSymbol name flag)
    exports := fun y => ?_
    members := fun y => ?_
    container_lt := fun s y hy => Nat.lt_of_lt_of_le (h.container_lt s y hy) hsize }
  · rcases hcases y with heq | heq <;> rw [heq]
    · exact (h.exports y).mono hsize (b.name_newSymbol name flag)
    · exact .empty
  · rcases hcases y with heq | heq <;> rw [heq]
    · exact (h.members y).mono hsize (b.name_newSymbol name flag)
    · exact .empty

/-- A change to a symbol that leaves its name as it is. -/
theorem modifySymbol (y : SymbolId) {f : Symbol → Symbol} (hname : ∀ s, (f s).name = s.name)
    (hexports : ∀ s, b.Keyed s.exports → b.Keyed (f s).exports)
    (hmembers : ∀ s, b.Keyed s.members → b.Keyed (f s).members) :
    (b.modifySymbol y f).Linked := by
  have hcases := fun z => b.symbol_modifySymbol_cases y z f
  have hkeyed : ∀ {t : SymbolTable}, b.Keyed t → (b.modifySymbol y f).Keyed t := fun ht =>
    ht.mono (by simp) fun z _ => b.name_modifySymbol y hname z
  refine {
    locals := fun s => hkeyed (h.locals s)
    exports := fun z => ?_
    members := fun z => ?_
    container_lt := fun s z hz => by simpa using h.container_lt s z hz }
  · rcases hcases z with heq | ⟨-, heq⟩ <;> rw [heq]
    · exact hkeyed (h.exports z)
    · exact hkeyed (hexports _ (h.exports z))
  · rcases hcases z with heq | ⟨-, heq⟩ <;> rw [heq]
    · exact hkeyed (h.members z)
    · exact hkeyed (hmembers _ (h.members z))

theorem modifyScope (s : ScopeId) {f : Scope → Scope}
    (hlocals : ∀ t, b.Keyed t.locals → b.Keyed (f t).locals)
    (hcontainer : ∀ t y, (f t).container? = some y → t.container? = some y ∨
      y < b.symbols.size) : (b.modifyScope s f).Linked := by
  have hcases := fun t => b.scope_modifyScope_cases s t f
  refine { h with locals := fun t => ?_, container_lt := fun t y hy => ?_ }
  · rcases hcases t with heq | ⟨-, heq⟩ <;> rw [heq]
    · exact h.locals t
    · exact hlocals _ (h.locals t)
  · rcases hcases t with heq | ⟨-, heq⟩ <;> rw [heq] at hy
    · exact h.container_lt t y hy
    · exact (hcontainer _ y hy).elim (h.container_lt t y) id

theorem insert (t : TableRef) {name : String} {y : SymbolId} (hy : y < b.symbols.size)
    (hname : (b.symbol y).name = name) : (b.insert name y t).Linked := by
  cases t with
  | locals s => exact h.modifyScope s (fun _ ht => ht.insert hy hname) fun _ _ => .inl
  | exports z =>
      exact h.modifySymbol z (fun _ => rfl) (fun _ hs => hs.insert hy hname) fun _ => id
  | members z =>
      exact h.modifySymbol z (fun _ => rfl) (fun _ => id) fun _ hs => hs.insert hy hname

theorem addDeclaration (y : SymbolId) (d : Declaration) : (b.addDeclaration y d).Linked :=
  h.modifySymbol y (fun _ => rfl) (fun _ => id) fun _ => id

theorem setOwner (y owner : SymbolId) :
    (b.modifySymbol y fun s => { s with parent? := some owner }).Linked :=
  h.modifySymbol y (fun _ => rfl) (fun _ => id) fun _ => id

theorem setExported (y : SymbolId) :
    (b.modifySymbol y fun s => { s with isExported := true }).Linked :=
  h.modifySymbol y (fun _ => rfl) (fun _ => id) fun _ => id

theorem setContainer (s : ScopeId) {owner? : Option SymbolId}
    (howner : ∀ y ∈ owner?, y < b.symbols.size) :
    (b.modifyScope s fun t => { t with container? := owner? }).Linked :=
  h.modifyScope s (fun _ => id) fun _ y hy => .inr (howner y hy)

theorem find? {t : TableRef} {name : String} {y : SymbolId} (hy : b.find? name t = some y) :
    y < b.symbols.size ∧ (b.symbol y).name = name := by
  cases t with
  | locals s => exact (h.locals s).find? hy
  | exports z => exact (h.exports z).find? hy
  | members z => exact (h.members z).find? hy

end Linked

namespace WellFormed

variable {b : Bindings} (h : b.WellFormed)
include h

/-- A change to none of the scopes, symbols and nodes. -/
theorem of_eq {c : Bindings} (hscopes : c.scopes = b.scopes) (hsymbols : c.symbols = b.symbols)
    (hnodeScopes : c.nodeScopes = b.nodeScopes) (hnodeSymbols : c.nodeSymbols = b.nodeSymbols) :
    b.Extended [] c := by
  cases b
  cases c
  cases hscopes
  cases hsymbols
  cases hnodeScopes
  cases hnodeSymbols
  exact ⟨{ h with }, Nat.le_refl _, Nat.le_refl _, fun _ _ => rfl, fun _ _ => id⟩

theorem error (m : Message) (span : Span) (args : List String) :
    b.Extended [] (b.error m span args) := h.of_eq rfl rfl rfl rfl

theorem newScope (kind : ScopeKind) {parent : ScopeId} (hparent : parent < b.scopes.size)
    (node : NodeId) : b.Extended [] (b.newScope kind (some parent) node).2 := by
  have hcases := b.scope_newScope_cases kind (some parent) node
  refine ⟨?_, by simp, Nat.le_refl _, fun _ _ => rfl, fun _ _ => id⟩
  exact {
    toLinked := h.toLinked.newScope kind (some parent) node
    owner_lt := h.owner_lt
    parent_lt := fun s t ht => by
      rcases hcases s with heq | ⟨rfl, heq⟩ <;> rw [heq] at ht
      · exact h.parent_lt s t ht
      · exact Option.some.inj ht ▸ hparent
    rooted := fun s hpos hs => by
      rcases hcases s with heq | ⟨-, heq⟩ <;> rw [heq]
      · by_cases hnew : s = b.scopes.size
        · rw [← heq, hnew, scope_newScope_self]
          simp
        · rw [size_scopes_newScope] at hs
          exact h.rooted s hpos (Nat.lt_of_le_of_ne (Nat.le_of_lt_succ hs) hnew)
      · simp
    scopeOf_lt := fun n s hs => by
      rw [size_scopes_newScope]
      by_cases hn : n = node
      · rw [hn, scopeOf?_newScope_self] at hs
        exact Option.some.inj hs ▸ Nat.lt_succ_self _
      · rw [scopeOf?_newScope_of_ne _ _ _ _ hn] at hs
        exact Nat.lt_succ_of_lt (h.scopeOf_lt n s hs)
    symbolOf_lt := h.symbolOf_lt
    declared := fun y e he => by
      obtain ⟨hlt, heq⟩ := h.declared y e he
      exact ⟨by rw [size_scopes_newScope]; exact Nat.lt_succ_of_lt hlt, heq⟩
    distinct := h.distinct }

theorem newSymbol (name : String) (flag : SymbolFlag) :
    b.Extended [] (b.newSymbol name flag).2 := by
  have hcases := b.symbol_newSymbol_cases name flag
  have hsize : b.symbols.size ≤ (b.newSymbol name flag).2.symbols.size := by simp
  have hdeclarations : ∀ y, ∀ e ∈ ((b.newSymbol name flag).2.symbol y).declarations,
      e ∈ (b.symbol y).declarations := by
    intro y e he
    rcases hcases y with heq | heq <;> rw [heq] at he
    · exact he
    · cases he
  refine ⟨?_, Nat.le_refl _, hsize, b.name_newSymbol name flag,
    fun i _ hi y e he => hi y e (hdeclarations y e he)⟩
  exact {
    toLinked := h.toLinked.newSymbol name flag
    owner_lt := fun y z hz => by
      rcases hcases y with heq | heq <;> rw [heq] at hz
      · exact Nat.lt_of_lt_of_le (h.owner_lt y z hz) hsize
      · cases hz
    parent_lt := h.parent_lt
    rooted := h.rooted
    scopeOf_lt := h.scopeOf_lt
    symbolOf_lt := fun n y hy => Nat.lt_of_lt_of_le (h.symbolOf_lt n y hy) hsize
    declared := fun y e he => h.declared y e (hdeclarations y e he)
    distinct := fun y => by
      rcases hcases y with heq | heq <;> rw [heq]
      · exact h.distinct y
      · exact List.nodup_nil }

/-- A change to a symbol that leaves its name and its declarations as they are. -/
theorem modifySymbol (y : SymbolId) {f : Symbol → Symbol} (hname : ∀ s, (f s).name = s.name)
    (hlinked : (b.modifySymbol y f).Linked)
    (howner : ∀ s z, (f s).parent? = some z → s.parent? = some z ∨ z < b.symbols.size)
    (hdeclarations : ∀ s, (f s).declarations = s.declarations) :
    b.Extended [] (b.modifySymbol y f) := by
  have hdeclared : ∀ z, ((b.modifySymbol y f).symbol z).declarations =
      (b.symbol z).declarations := by
    intro z
    rcases b.symbol_modifySymbol_cases y z f with heq | ⟨-, heq⟩ <;> rw [heq]
    exact hdeclarations _
  refine ⟨?_, Nat.le_refl _, by simp, fun z _ => b.name_modifySymbol y hname z,
    fun i _ hi z e he => hi z e (hdeclared z ▸ he)⟩
  exact {
    toLinked := hlinked
    owner_lt := fun z x hx => by
      rw [size_symbols_modifySymbol]
      rcases b.symbol_modifySymbol_cases y z f with heq | ⟨-, heq⟩ <;> rw [heq] at hx
      · exact h.owner_lt z x hx
      · exact (howner _ x hx).elim (h.owner_lt z x) id
    parent_lt := h.parent_lt
    rooted := h.rooted
    scopeOf_lt := h.scopeOf_lt
    symbolOf_lt := fun n z hz => by simpa using h.symbolOf_lt n z hz
    declared := fun z e he => h.declared z e (hdeclared z ▸ he)
    distinct := fun z => by rw [hdeclared]; exact h.distinct z }

/-- A change to a scope that leaves it where it is. -/
theorem modifyScope (s : ScopeId) {f : Scope → Scope} (hparent : ∀ t, (f t).parent? = t.parent?)
    (hlinked : (b.modifyScope s f).Linked) : b.Extended [] (b.modifyScope s f) := by
  have hparents : ∀ t, ((b.modifyScope s f).scope t).parent? = (b.scope t).parent? := by
    intro t
    rcases b.scope_modifyScope_cases s t f with heq | ⟨-, heq⟩ <;> rw [heq]
    exact hparent _
  refine ⟨?_, by simp, Nat.le_refl _, fun _ _ => rfl, fun _ _ => id⟩
  exact {
    toLinked := hlinked
    owner_lt := h.owner_lt
    parent_lt := fun t u hu => h.parent_lt t u (hparents t ▸ hu)
    rooted := fun t hpos ht => by
      rw [hparents]
      exact h.rooted t hpos (by simpa using ht)
    scopeOf_lt := fun n t ht => by simpa using h.scopeOf_lt n t ht
    symbolOf_lt := h.symbolOf_lt
    declared := fun y e he => by
      rw [size_scopes_modifyScope]
      exact h.declared y e he
    distinct := h.distinct }

/-- A node that is not declared may stand for any symbol. -/
theorem setSymbolOf {node : NodeId} (hnode : b.Unrecorded node) {y : SymbolId}
    (hy : y < b.symbols.size) : b.Extended [] (b.setSymbolOf node y) := by
  refine ⟨?_, Nat.le_refl _, Nat.le_refl _, fun _ _ => rfl, fun _ _ => id⟩
  exact {
    h with
    symbolOf_lt := fun n z hz => by
      by_cases hn : n = node
      · rw [hn, symbolOf?_setSymbolOf_self] at hz
        exact Option.some.inj hz ▸ hy
      · rw [symbolOf?_setSymbolOf_of_ne _ hn] at hz
        exact h.symbolOf_lt n z hz
    declared := fun z e he => by
      rw [symbolOf?_setSymbolOf_of_ne _ (hnode z e he)]
      exact h.declared z e he }

theorem insert (t : TableRef) {name : String} {y : SymbolId} (hy : y < b.symbols.size)
    (hname : (b.symbol y).name = name) : b.Extended [] (b.insert name y t) := by
  have hlinked := h.toLinked.insert t hy hname
  cases t with
  | locals s => exact h.modifyScope s (fun _ => rfl) hlinked
  | exports z | members z =>
      exact h.modifySymbol z (fun _ => rfl) hlinked (fun _ _ => .inl) fun _ => rfl

theorem setOwner (y : SymbolId) {owner : SymbolId} (howner : owner < b.symbols.size) :
    b.Extended [] (b.modifySymbol y fun s => { s with parent? := some owner }) :=
  h.modifySymbol y (fun _ => rfl) (h.toLinked.setOwner y owner)
    (fun _ _ hz => .inr (Option.some.inj hz ▸ howner)) fun _ => rfl

theorem setExported (y : SymbolId) :
    b.Extended [] (b.modifySymbol y fun s => { s with isExported := true }) :=
  h.modifySymbol y (fun _ => rfl) (h.toLinked.setExported y) (fun _ _ => .inl) fun _ => rfl

theorem setContainer (s : ScopeId) {owner? : Option SymbolId}
    (howner : ∀ y ∈ owner?, y < b.symbols.size) :
    b.Extended [] (b.modifyScope s fun t => { t with container? := owner? }) :=
  h.modifyScope s (fun _ => rfl) (h.toLinked.setContainer s howner)

/-- A symbol that the table of a scope does not name yet. -/
theorem insertIfNew (s : ScopeId) {name : String} {y : SymbolId} (hy : y < b.symbols.size)
    (hname : (b.symbol y).name = name) :
    b.Extended [] (if (b.find? name (.locals s)).isSome then b
      else b.insert name y (.locals s)) := by
  split
  · exact .refl h
  · exact h.insert (.locals s) hy hname

/-- A new declaration of a symbol. -/
theorem record {y : SymbolId} (hy : y < b.symbols.size) {d : Declaration}
    (hd : b.Unrecorded d.node) (hscope : d.scope < b.scopes.size) :
    b.Extended [d.node] ((b.addDeclaration y d).setSymbolOf d.node y) := by
  have hcases := fun z => b.symbol_modifySymbol_cases y z fun s =>
    { s with flags := s.flags.insert d.kind.flag, declarations := s.declarations ++ [d] }
  have hsize : b.symbols.size ≤ (b.addDeclaration y d).symbols.size :=
    Nat.le_of_eq (b.size_symbols_modifySymbol y _).symm
  have hdeclarations : ∀ z, ∀ e ∈ ((b.addDeclaration y d).symbol z).declarations,
      e ∈ (b.symbol z).declarations ∨ z = y ∧ e = d := by
    intro z e he
    rcases hcases z with heq | ⟨rfl, heq⟩ <;> rw [addDeclaration, heq] at he
    · exact .inl he
    · rcases List.mem_append.mp he with he | he
      · exact .inl he
      · exact .inr ⟨rfl, List.mem_singleton.mp he⟩
  refine ⟨?_, Nat.le_refl _, hsize, fun z _ => b.name_addDeclaration y d z,
    fun i hi hfree z e he => ?_⟩
  · exact {
      toLinked := (h.toLinked.addDeclaration y d).of_eq rfl rfl
      owner_lt := fun z x hx => by
        refine Nat.lt_of_lt_of_le ?_ hsize
        rcases hcases z with heq | ⟨rfl, heq⟩ <;>
          exact h.owner_lt z x ((congrArg Symbol.parent? heq).symm.trans hx)
      parent_lt := h.parent_lt
      rooted := h.rooted
      scopeOf_lt := h.scopeOf_lt
      symbolOf_lt := fun n z hz => by
        refine Nat.lt_of_lt_of_le ?_ hsize
        by_cases hn : n = d.node
        · rw [hn, symbolOf?_setSymbolOf_self] at hz
          exact Option.some.inj hz ▸ hy
        · rw [symbolOf?_setSymbolOf_of_ne _ hn] at hz
          exact h.symbolOf_lt n z hz
      declared := fun z e he => by
        rcases hdeclarations z e he with he | ⟨rfl, rfl⟩
        · rw [symbolOf?_setSymbolOf_of_ne _ (hd z e he)]
          exact h.declared z e he
        · exact ⟨hscope, symbolOf?_setSymbolOf_self _ _ _⟩
      distinct := fun z => by
        rcases hcases z with heq | ⟨rfl, heq⟩
        · exact (congrArg Symbol.declarations heq).symm ▸ h.distinct z
        · refine (congrArg Symbol.declarations heq).symm ▸ ?_
          rw [List.map_append, List.map_singleton]
          refine List.nodup_append.mpr ⟨h.distinct z, by simp, ?_⟩
          intro i hi j hj
          obtain ⟨e, he, rfl⟩ := List.mem_map.mp hi
          exact List.mem_singleton.mp hj ▸ hd z e he }
  · rcases hdeclarations z e he with he | ⟨-, rfl⟩
    · exact hfree z e he
    · exact fun heq => hi (List.mem_singleton.mpr heq.symm)

/-- The symbol of a declaration has the declared name. -/
structure Declares (name : String) (node : NodeId) (b : Bindings) (r : SymbolId × Bindings) :
    Prop where
  extended : b.Extended [node] r.2
  lt : r.1 < r.2.symbols.size
  name_eq : (r.2.symbol r.1).name = name

theorem newDeclared (name : String) {d : Declaration} (hd : b.Unrecorded d.node)
    (hscope : d.scope < b.scopes.size) :
    Declares name d.node b
      (b.symbols.size, (b.newDeclared name d).2.setSymbolOf d.node b.symbols.size) := by
  have hnew := h.newSymbol name d.kind.flag
  have hlt : b.symbols.size < (b.newSymbol name d.kind.flag).2.symbols.size := by simp
  have hrecord := hnew.wellFormed.record hlt (hnew.unrecorded _ (by simp) hd) hscope
  exact ⟨hnew.trans hrecord, Nat.lt_of_lt_of_le hlt hrecord.symbols_le,
    (hrecord.name_eq _ hlt).trans (by rw [symbol_newSymbol_self])⟩

theorem declareExcluding (t : TableRef) (name : String) (excluded : SymbolFlags) {d : Declaration}
    (hd : b.Unrecorded d.node) (hscope : d.scope < b.scopes.size) :
    Declares name d.node b (b.declareExcluding t name excluded d) := by
  unfold Bindings.declareExcluding
  cases hfound : b.find? name t with
  | none =>
      have hnew := h.newDeclared name hd hscope
      have hinsert := hnew.extended.wellFormed.insert t hnew.lt hnew.name_eq
      have heq : ((b.newDeclared name d).2.insert name b.symbols.size t).setSymbolOf d.node
          b.symbols.size = ((b.newDeclared name d).2.setSymbolOf d.node b.symbols.size).insert name
            b.symbols.size t := by
        cases t <;> rfl
      show Declares name d.node b (b.symbols.size,
        ((b.newDeclared name d).2.insert name b.symbols.size t).setSymbolOf d.node b.symbols.size)
      rw [heq]
      exact ⟨hnew.extended.trans hinsert, Nat.lt_of_lt_of_le hnew.lt hinsert.symbols_le,
        (hinsert.name_eq _ hnew.lt).trans hnew.name_eq⟩
  | some y =>
      obtain ⟨hy, hname⟩ := h.find? hfound
      simp only
      split
      · have herror := h.error (duplicateMessage (b.symbol y) d) d.nameSpan [name]
        have hnew := herror.wellFormed.newDeclared name (herror.unrecorded _ (by simp) hd) hscope
        exact ⟨herror.trans hnew.extended, hnew.lt, hnew.name_eq⟩
      · have hchecked : b.Extended [] (b.checkImplementation (b.symbol y) d) ∧
            (b.checkImplementation (b.symbol y) d).scopes = b.scopes := by
          unfold Bindings.checkImplementation
          split
          · exact ⟨h.error _ _ _, rfl⟩
          · exact ⟨.refl h, rfl⟩
        obtain ⟨hchecked, hscopes⟩ := hchecked
        have hlt := Nat.lt_of_lt_of_le hy hchecked.symbols_le
        have hrecord := hchecked.wellFormed.record hlt (hchecked.unrecorded _ (by simp) hd)
          (hscopes.symm ▸ hscope)
        exact ⟨hchecked.trans hrecord, Nat.lt_of_lt_of_le hlt hrecord.symbols_le,
          (hrecord.name_eq _ hlt).trans ((hchecked.name_eq y hy).trans hname)⟩

end WellFormed
end Bindings
end Erasure

import Erasure.Proofs.Scope.Bindings
import Erasure.Proofs.Scope.Invariant

/-!
Where the declarations of a symbol are written. Classes, functions, enums and namespaces of one name
that are no members of a namespace are one symbol only if they are written in one scope. The blocks
of a namespace are different scopes, but what they export is one symbol.
-/

namespace Erasure

/-- The symbols of a table. -/
def SymbolTable.ids (t : SymbolTable) : List SymbolId := t.entries.map Prod.snd

namespace SymbolTable

theorem mem_ids_of_find? {t : SymbolTable} {name : String} {id : SymbolId}
    (h : t.find? name = some id) : id ∈ t.ids := by
  obtain ⟨before, after, heq, -⟩ := List.lookup_eq_some_iff.mp h
  exact List.mem_map.mpr ⟨(name, id), by simp [heq], rfl⟩

theorem mem_ids_insert {t : SymbolTable} {name : String} {id y : SymbolId}
    (h : y ∈ (t.insert name id).ids) : y ∈ t.ids ∨ y = id := by
  obtain ⟨e, he, rfl⟩ := List.mem_map.mp h
  unfold SymbolTable.insert at he
  split at he
  · obtain ⟨e', he', rfl⟩ := List.mem_map.mp he
    split
    · exact .inr rfl
    · exact .inl (List.mem_map.mpr ⟨e', he', rfl⟩)
  · rcases List.mem_append.mp he with he | he
    · exact .inl (List.mem_map.mpr ⟨e, he, rfl⟩)
    · obtain rfl := List.mem_singleton.mp he
      exact .inr rfl

end SymbolTable

namespace Bindings

/-- A symbol that is no member of a namespace or enum, but for one that is about to become one. -/
def IsOwn (b : Bindings) (except? : Option SymbolId) (y : SymbolId) : Prop :=
  (b.symbol y).parent? = none ∧ except? ≠ some y

/-- Tables hold symbols that exist, and what is no member of a namespace is declared in the one
scope that holds it. -/
structure Placed (except? : Option SymbolId) (b : Bindings) : Prop where
  local_lt : ∀ s y, y ∈ (b.scope s).locals.ids → y < b.symbols.size
  export_lt : ∀ z y, y ∈ (b.symbol z).exports.ids → y < b.symbols.size
  member_lt : ∀ z y, y ∈ (b.symbol z).members.ids → y < b.symbols.size
  scope_eq : ∀ s t y, b.IsOwn except? y → y ∈ (b.scope s).locals.ids →
    y ∈ (b.scope t).locals.ids → s = t
  declared : ∀ s y d, b.IsOwn except? y → y ∈ (b.scope s).locals.ids →
    d ∈ (b.symbol y).declarations → d.kind.isPlaced = true → d.scope = s
  together : ∀ y d e, b.IsOwn except? y → d ∈ (b.symbol y).declarations →
    e ∈ (b.symbol y).declarations → d.kind.isPlaced = true → e.kind.isPlaced = true →
      d.scope = e.scope

namespace Placed

variable {except? : Option SymbolId} {b c : Bindings}

theorem empty (except? : Option SymbolId) : Placed except? {} where
  local_lt _ _ hy := by cases hy
  export_lt _ _ hy := by cases hy
  member_lt _ _ hy := by cases hy
  scope_eq _ _ _ _ hy := by cases hy
  declared _ _ _ _ hy := by cases hy
  together _ _ _ _ hd := by cases hd

theorem weaken (h : b.Placed none) (y : SymbolId) : b.Placed (some y) where
  local_lt := h.local_lt
  export_lt := h.export_lt
  member_lt := h.member_lt
  scope_eq s t z hown := h.scope_eq s t z ⟨hown.1, by simp⟩
  declared s z d hown := h.declared s z d ⟨hown.1, by simp⟩
  together z d e hown := h.together z d e ⟨hown.1, by simp⟩

theorem strengthen {y : SymbolId} (h : b.Placed (some y)) (hy : (b.symbol y).parent? ≠ none) :
    b.Placed none := by
  have hown : ∀ z, b.IsOwn none z → b.IsOwn (some y) z := by
    rintro z ⟨hz, -⟩
    refine ⟨hz, fun heq => ?_⟩
    rw [Option.some.inj heq] at hy
    exact hy hz
  exact {
    local_lt := h.local_lt
    export_lt := h.export_lt
    member_lt := h.member_lt
    scope_eq := fun s t z hz => h.scope_eq s t z (hown z hz)
    declared := fun s z d hz => h.declared s z d (hown z hz)
    together := fun z d e hz => h.together z d e (hown z hz) }

/-- A change that adds no declaration and nothing to the table of a scope. -/
theorem of_le (h : b.Placed except?) (hsize : b.symbols.size ≤ c.symbols.size)
    (hlocals : ∀ s, (c.scope s).locals.ids ⊆ (b.scope s).locals.ids)
    (hexports : ∀ z y, y ∈ (c.symbol z).exports.ids →
      y ∈ (b.symbol z).exports.ids ∨ y < c.symbols.size)
    (hmembers : ∀ z y, y ∈ (c.symbol z).members.ids →
      y ∈ (b.symbol z).members.ids ∨ y < c.symbols.size)
    (hparent : ∀ y, (c.symbol y).parent? = none → (b.symbol y).parent? = none)
    (hdeclarations : ∀ y, (c.symbol y).declarations = (b.symbol y).declarations) :
    c.Placed except? := by
  have hown : ∀ y, c.IsOwn except? y → b.IsOwn except? y := fun y hy => ⟨hparent y hy.1, hy.2⟩
  refine {
    local_lt := fun s y hy => Nat.lt_of_lt_of_le (h.local_lt s y (hlocals s hy)) hsize
    export_lt := fun z y hy => ?_
    member_lt := fun z y hy => ?_
    scope_eq := fun s t y hy hs ht => h.scope_eq s t y (hown y hy) (hlocals s hs) (hlocals t ht)
    declared := fun s y d hy hs hd => ?_
    together := fun y d e hy hd he => ?_ }
  · rcases hexports z y hy with hy | hlt
    · exact Nat.lt_of_lt_of_le (h.export_lt z y hy) hsize
    · exact hlt
  · rcases hmembers z y hy with hy | hlt
    · exact Nat.lt_of_lt_of_le (h.member_lt z y hy) hsize
    · exact hlt
  · exact h.declared s y d (hown y hy) (hlocals s hs) (hdeclarations y ▸ hd)
  · exact h.together y d e (hown y hy) (hdeclarations y ▸ hd) (hdeclarations y ▸ he)

/-- A change to neither a scope nor a symbol. -/
theorem of_eq (h : b.Placed except?) (hscopes : c.scopes = b.scopes)
    (hsymbols : c.symbols = b.symbols) : c.Placed except? := by
  have hscope : c.scope = b.scope := by funext s; rw [Bindings.scope, Bindings.scope, hscopes]
  have hsymbol : c.symbol = b.symbol := by funext y; rw [Bindings.symbol, Bindings.symbol, hsymbols]
  refine h.of_le (Nat.le_of_eq (by rw [hsymbols])) ?_ ?_ ?_ ?_ ?_
  · exact fun s y hy => by rwa [hscope] at hy
  · exact fun z y hy => .inl (by rwa [hsymbol] at hy)
  · exact fun z y hy => .inl (by rwa [hsymbol] at hy)
  · exact fun y hy => by rwa [hsymbol] at hy
  · exact fun y => by rw [hsymbol]

theorem newScope (h : b.Placed except?) (kind : ScopeKind) (parent? : Option ScopeId)
    (node : NodeId) : (b.newScope kind parent? node).2.Placed except? := by
  refine h.of_le (Nat.le_refl _) (fun s y hy => ?_) (fun _ _ => .inl) (fun _ _ => .inl)
    (fun _ => id) fun _ => rfl
  by_cases hs : s = b.scopes.size
  · rw [hs, scope_newScope_self] at hy
    cases hy
  · rwa [scope_newScope_of_ne _ _ _ _ hs] at hy

theorem newSymbol (h : b.Placed except?) (name : String) (flag : SymbolFlag) :
    (b.newSymbol name flag).2.Placed except? := by
  have hcases : ∀ y, (b.newSymbol name flag).2.symbol y = b.symbol y ∨
      y = b.symbols.size ∧ (b.newSymbol name flag).2.symbol y = { name, flags := [flag] } := by
    intro y
    by_cases hy : y = b.symbols.size
    · exact .inr ⟨hy, by rw [hy, symbol_newSymbol_self]⟩
    · exact .inl (symbol_newSymbol_of_ne _ _ _ hy)
  have hnew : b.symbol b.symbols.size = default := by simp [symbol, Array.getD]
  refine h.of_le (by simp) (fun _ _ => id) (fun z y hy => ?_) (fun z y hy => ?_) (fun y hy => ?_)
    fun y => ?_
  · rcases hcases z with heq | ⟨-, heq⟩ <;> rw [heq] at hy
    · exact .inl hy
    · cases hy
  · rcases hcases z with heq | ⟨-, heq⟩ <;> rw [heq] at hy
    · exact .inl hy
    · cases hy
  · rcases hcases y with heq | ⟨rfl, -⟩
    · rwa [heq] at hy
    · rw [hnew]
      rfl
  · rcases hcases y with heq | ⟨rfl, heq⟩ <;> rw [heq]
    rw [hnew]
    rfl

/-- A change to a symbol that leaves its declarations as they are. -/
theorem modifySymbol (h : b.Placed except?) (y : SymbolId) {f : Symbol → Symbol}
    (hexports : ∀ s, ∀ z ∈ (f s).exports.ids, z ∈ s.exports.ids ∨ z < b.symbols.size)
    (hmembers : ∀ s, ∀ z ∈ (f s).members.ids, z ∈ s.members.ids ∨ z < b.symbols.size)
    (hparent : ∀ s, (f s).parent? = none → s.parent? = none)
    (hdeclarations : ∀ s, (f s).declarations = s.declarations) :
    (b.modifySymbol y f).Placed except? := by
  refine h.of_le (by simp) (fun _ _ => id) (fun z x hx => ?_) (fun z x hx => ?_) (fun x hx => ?_)
    fun x => ?_
  · rw [size_symbols_modifySymbol]
    rcases b.symbol_modifySymbol_cases y z f with heq | ⟨-, heq⟩ <;> rw [heq] at hx
    · exact .inl hx
    · exact hexports _ x hx
  · rw [size_symbols_modifySymbol]
    rcases b.symbol_modifySymbol_cases y z f with heq | ⟨-, heq⟩ <;> rw [heq] at hx
    · exact .inl hx
    · exact hmembers _ x hx
  · rcases b.symbol_modifySymbol_cases y x f with heq | ⟨-, heq⟩ <;> rw [heq] at hx
    · exact hx
    · exact hparent _ hx
  · rcases b.symbol_modifySymbol_cases y x f with heq | ⟨-, heq⟩ <;> rw [heq]
    exact hdeclarations _

theorem setContainer (h : b.Placed except?) (s : ScopeId) (owner? : Option SymbolId) :
    (b.modifyScope s fun t => { t with container? := owner? }).Placed except? := by
  refine h.of_le (Nat.le_refl _) (fun t y hy => ?_) (fun _ _ => .inl) (fun _ _ => .inl)
    (fun _ => id) fun _ => rfl
  rcases b.scope_modifyScope_cases s t _ with heq | ⟨-, heq⟩ <;> rw [heq] at hy <;> exact hy

/-- Adding a declaration to a symbol. One that is no member must not be declared elsewhere. -/
theorem addDeclaration (h : b.Placed except?) {y : SymbolId} {d : Declaration}
    (hd : d.kind.isPlaced = true → b.IsOwn except? y →
      (∀ s, y ∈ (b.scope s).locals.ids → d.scope = s) ∧
        ∀ e ∈ (b.symbol y).declarations, e.kind.isPlaced = true → e.scope = d.scope) :
    (b.addDeclaration y d).Placed except? := by
  have hsymbol := fun z => b.symbol_modifySymbol_cases y z fun s =>
    { s with flags := s.flags.insert d.kind.flag, declarations := s.declarations ++ [d] }
  have hparent : ∀ z, ((b.addDeclaration y d).symbol z).parent? = (b.symbol z).parent? := by
    intro z
    rcases hsymbol z with heq | ⟨-, heq⟩ <;> rw [Bindings.addDeclaration, heq]
  have hmem : ∀ z e, e ∈ ((b.addDeclaration y d).symbol z).declarations →
      e ∈ (b.symbol z).declarations ∨ z = y ∧ e = d := by
    intro z e he
    rcases hsymbol z with heq | ⟨hz, heq⟩ <;> rw [Bindings.addDeclaration, heq] at he
    · exact .inl he
    · rcases List.mem_append.mp he with he | he
      · exact .inl he
      · exact .inr ⟨hz, List.mem_singleton.mp he⟩
  have hown : ∀ z, (b.addDeclaration y d).IsOwn except? z → b.IsOwn except? z :=
    fun z hz => ⟨hparent z ▸ hz.1, hz.2⟩
  refine {
    local_lt := fun s z hz => ?_
    export_lt := fun x z hz => ?_
    member_lt := fun x z hz => ?_
    scope_eq := fun s t z hz => h.scope_eq s t z (hown z hz)
    declared := fun s z e hz hs he hplaced => ?_
    together := fun z e e' hz he he' hplaced hplaced' => ?_ }
  · simpa [Bindings.addDeclaration] using h.local_lt s z hz
  · rcases hsymbol x with heq | ⟨-, heq⟩ <;> rw [Bindings.addDeclaration, heq] at hz
    all_goals simpa [Bindings.addDeclaration] using h.export_lt x z hz
  · rcases hsymbol x with heq | ⟨-, heq⟩ <;> rw [Bindings.addDeclaration, heq] at hz
    all_goals simpa [Bindings.addDeclaration] using h.member_lt x z hz
  · rcases hmem z e he with he | ⟨rfl, rfl⟩
    · exact h.declared s z e (hown z hz) hs he hplaced
    · exact (hd hplaced (hown z hz)).1 s hs
  · rcases hmem z e he with hold | ⟨hzy, hnew⟩ <;> rcases hmem z e' he' with hold' | ⟨hzy', hnew'⟩
    · exact h.together z e e' (hown z hz) hold hold' hplaced hplaced'
    · subst hzy' hnew'
      exact (hd hplaced' (hown z hz)).2 e hold hplaced
    · subst hzy hnew
      exact ((hd hplaced (hown z hz)).2 e' hold' hplaced').symm
    · rw [hnew, hnew']

/-- Adding a symbol with its first declaration, which no table holds yet. -/
theorem newDeclared (h : b.Placed except?) (name : String) (d : Declaration) :
    (b.newDeclared name d).2.Placed except? := by
  refine (h.newSymbol name d.kind.flag).addDeclaration fun _ _ => ⟨fun s hs => ?_, fun e he => ?_⟩
  · exact absurd (h.local_lt s _ hs) (Nat.lt_irrefl _)
  · rw [symbol_newSymbol_self] at he
    cases he

end Placed

@[simp]
theorem size_symbols_newDeclared (b : Bindings) (name : String) (d : Declaration) :
    (b.newDeclared name d).2.symbols.size = b.symbols.size + 1 := by
  simp [newDeclared, addDeclaration]

@[simp]
theorem size_symbols_insert (b : Bindings) (name : String) (y : SymbolId) (t : TableRef) :
    (b.insert name y t).symbols.size = b.symbols.size := by
  cases t <;> simp [insert]

theorem declarations_newDeclared (b : Bindings) (name : String) (d : Declaration) :
    ((b.newDeclared name d).2.symbol b.symbols.size).declarations = [d] := by
  have hsymbol := (b.newSymbol name d.kind.flag).2.symbol_modifySymbol_self
    (y := b.symbols.size) (by simp) fun s =>
      { s with flags := s.flags.insert d.kind.flag, declarations := s.declarations ++ [d] }
  rw [symbol_newSymbol_self] at hsymbol
  exact congrArg Symbol.declarations hsymbol

namespace Placed

variable {except? : Option SymbolId} {b : Bindings}

/-- A new symbol is entered into the table of the scope that its declaration is written in. -/
theorem insert_newDeclared (h : b.Placed except?) (t : TableRef) (name : String) {d : Declaration}
    (hd : ∀ s, t = .locals s → d.kind.isPlaced = true → d.scope = s) :
    ((b.newDeclared name d).2.insert name b.symbols.size t).Placed except? := by
  have hnew := h.newDeclared name d
  have hlt : b.symbols.size < (b.newDeclared name d).2.symbols.size := by simp
  cases t with
  | exports z =>
      refine hnew.modifySymbol z (fun s y hy => ?_) (fun _ _ => .inl) (fun _ => id) fun _ => rfl
      exact (SymbolTable.mem_ids_insert hy).imp id fun heq => by rwa [heq]
  | members z =>
      refine hnew.modifySymbol z (fun _ _ => .inl) (fun s y hy => ?_) (fun _ => id) fun _ => rfl
      exact (SymbolTable.mem_ids_insert hy).imp id fun heq => by rwa [heq]
  | locals s =>
      have hids : ∀ t y, y ∈ (((b.newDeclared name d).2.insert name b.symbols.size
          (.locals s)).scope t).locals.ids →
            y ∈ (b.scope t).locals.ids ∨ t = s ∧ y = b.symbols.size := by
        intro t y hy
        rcases (b.newDeclared name d).2.scope_modifyScope_cases s t fun u =>
          { u with locals := u.locals.insert name b.symbols.size } with heq | ⟨ht, heq⟩
        · rw [Bindings.insert, heq] at hy
          exact .inl hy
        · rw [Bindings.insert, heq] at hy
          exact (SymbolTable.mem_ids_insert hy).imp id fun hy => ⟨ht, hy⟩
      have hold : ∀ t, b.symbols.size ∉ (b.scope t).locals.ids := fun t ht =>
        absurd (h.local_lt t _ ht) (Nat.lt_irrefl _)
      refine {
        local_lt := fun t y hy => ?_
        export_lt := hnew.export_lt
        member_lt := hnew.member_lt
        scope_eq := fun t u y hown ht hu => ?_
        declared := fun t y e hown ht he hplaced => ?_
        together := hnew.together }
      · rcases hids t y hy with hy | ⟨-, rfl⟩
        · exact hnew.local_lt t y hy
        · exact hlt
      · rcases hids t y ht with ht | ⟨hts, hy⟩ <;> rcases hids u y hu with hu | ⟨hus, hy'⟩
        · exact hnew.scope_eq t u y hown ht hu
        · exact absurd (hy' ▸ ht) (hold t)
        · exact absurd (hy ▸ hu) (hold u)
        · rw [hts, hus]
      · rcases hids t y ht with ht | ⟨hts, hy⟩
        · exact hnew.declared t y e hown ht he hplaced
        · subst hts hy
          have hfirst : e = d := List.mem_singleton.mp (declarations_newDeclared b name d ▸ he)
          exact hfirst ▸ hd t rfl (hfirst ▸ hplaced)

/-- Adding a declaration to a symbol that has others. -/
theorem merge (h : b.Placed except?) {y : SymbolId} {d : Declaration}
    (hd : d.kind.isPlaced = true → b.IsOwn except? y →
      (∀ s, y ∈ (b.scope s).locals.ids → d.scope = s) ∧
        ∀ e ∈ (b.symbol y).declarations, e.kind.isPlaced = true → e.scope = d.scope) :
    ((b.checkImplementation (b.symbol y) d).addDeclaration y d).Placed except? := by
  unfold Bindings.checkImplementation
  split
  · exact (h.of_eq (c := b.error _ _ _) rfl rfl).addDeclaration hd
  · exact h.addDeclaration hd

/-- Declaring a name in a scope. -/
theorem declareExcluding_locals (h : b.Placed none) {s : ScopeId} (name : String)
    (excluded : SymbolFlags) {d : Declaration} (hd : d.kind.isPlaced = true → d.scope = s) :
    (b.declareExcluding (.locals s) name excluded d).2.Placed none := by
  unfold Bindings.declareExcluding
  cases hfound : b.find? name (.locals s) with
  | none =>
      have hnew := h.insert_newDeclared (.locals s) name (d := d) (by rintro _ ⟨⟩; exact hd)
      exact hnew.of_eq rfl rfl
  | some y =>
      have hy : y ∈ (b.scope s).locals.ids := SymbolTable.mem_ids_of_find? hfound
      simp only
      split
      · have herror : (b.error (duplicateMessage (b.symbol y) d) d.nameSpan [name]).Placed none :=
          h.of_eq rfl rfl
        exact (herror.newDeclared name d).of_eq rfl rfl
      · refine (h.merge fun hplaced hown => ⟨fun t ht => ?_, fun e he hplaced' => ?_⟩).of_eq rfl rfl
        · rw [hd hplaced, h.scope_eq s t y hown hy ht]
        · rw [hd hplaced, h.declared s y e hown hy he hplaced']

/-- Declaring a member. The symbol is left out of account if its declaration has a place. -/
theorem declareExcluding_owned (h : b.Placed none) {t : TableRef} (ht : t.isOwned = true)
    (name : String) (excluded : SymbolFlags) (d : Declaration) :
    (b.declareExcluding t name excluded d).1 <
        (b.declareExcluding t name excluded d).2.symbols.size ∧
      (b.declareExcluding t name excluded d).2.Placed
        (if d.kind.isPlaced then some (b.declareExcluding t name excluded d).1 else none) := by
  have hweak : ∀ y, b.Placed (if d.kind.isPlaced then some y else none) := by
    intro y
    split
    · exact h.weaken y
    · exact h
  unfold Bindings.declareExcluding
  cases hfound : b.find? name t with
  | none =>
      have hnew := (hweak b.symbols.size).insert_newDeclared t name (d := d)
        (by rintro s rfl; cases ht)
      refine ⟨?_, hnew.of_eq rfl rfl⟩
      simp [setSymbolOf, Bindings.newDeclared, Bindings.addDeclaration, Bindings.newSymbol]
  | some y =>
      have hy : y < b.symbols.size := by
        cases t with
        | locals s => cases ht
        | exports z => exact h.export_lt z y (SymbolTable.mem_ids_of_find? hfound)
        | members z => exact h.member_lt z y (SymbolTable.mem_ids_of_find? hfound)
      simp only
      split
      · have herror : (b.error (duplicateMessage (b.symbol y) d) d.nameSpan [name]).Placed
            (if d.kind.isPlaced then some b.symbols.size else none) :=
          (hweak b.symbols.size).of_eq rfl rfl
        refine ⟨?_, (herror.newDeclared name d).of_eq rfl rfl⟩
        simp [setSymbolOf, Bindings.error, Bindings.newDeclared, Bindings.addDeclaration,
          Bindings.newSymbol]
      · refine ⟨?_, ((hweak y).merge fun hplaced hown => ?_).of_eq rfl rfl⟩
        · unfold Bindings.checkImplementation
          split <;> simpa [setSymbolOf, Bindings.addDeclaration, Bindings.error] using hy
        · rw [if_pos hplaced] at hown
          exact absurd rfl hown.2

/-- A member may be entered into the table of a scope. -/
theorem insert_member {y : SymbolId} (h : b.Placed (some y)) (hy : y < b.symbols.size) (s : ScopeId)
    (name : String) : (b.insert name y (.locals s)).Placed (some y) := by
  have hids : ∀ t z, z ≠ y → z ∈ ((b.insert name y (.locals s)).scope t).locals.ids →
      z ∈ (b.scope t).locals.ids := by
    intro t z hne hz
    rcases b.scope_modifyScope_cases s t fun u => { u with locals := u.locals.insert name y }
      with heq | ⟨-, heq⟩ <;> rw [Bindings.insert, heq] at hz
    · exact hz
    · exact (SymbolTable.mem_ids_insert hz).resolve_right hne
  have hne : ∀ z, (b.insert name y (.locals s)).IsOwn (some y) z → z ≠ y :=
    fun z hz heq => hz.2 (congrArg some heq.symm)
  refine {
    local_lt := fun t z hz => ?_
    export_lt := h.export_lt
    member_lt := h.member_lt
    scope_eq := fun t u z hown ht hu =>
      h.scope_eq t u z hown (hids t z (hne z hown) ht) (hids u z (hne z hown) hu)
    declared := fun t z d hown ht => h.declared t z d hown (hids t z (hne z hown) ht)
    together := h.together }
  by_cases heq : z = y
  · exact heq ▸ hy
  · exact h.local_lt t z (hids t z heq hz)

/-- Sharing an export with a scope makes it a member. -/
theorem shareExport {y : SymbolId} (h : b.Placed (some y)) (hy : y < b.symbols.size) (s : ScopeId)
    (name : String) (owner : SymbolId) (p : BinderPlace) :
    (Binder.shareExport s name y owner p b).2.Placed none := by
  have hshared : ∀ c : Bindings, c.Placed (some y) → y < c.symbols.size →
      (c.modifySymbol y fun s => { s with parent? := some owner }).Placed none := by
    intro c hc hlt
    have hparent := hc.modifySymbol y (f := fun s => { s with parent? := some owner })
      (fun _ _ => .inl) (fun _ _ => .inl) (fun _ hs => by cases hs) fun _ => rfl
    exact hparent.strengthen (by rw [symbol_modifySymbol_self _ hlt]; simp)
  change Placed none (Bindings.modifySymbol
    (if (b.find? name (.locals s)).isSome then b else b.insert name y (.locals s)) y _)
  split
  · exact hshared b h hy
  · exact hshared _ (h.insert_member hy s name) (by simpa using hy)

theorem setExported (h : b.Placed except?) (y : SymbolId) :
    (b.modifySymbol y fun s => { s with isExported := true }).Placed except? :=
  h.modifySymbol y (fun _ _ => .inl) (fun _ _ => .inl) (fun _ => id) fun _ => rfl

theorem declareName (h : b.Placed none) (p : BinderPlace) (scope : ScopeId) (name : Identifier)
    (kind : DeclarationKind) (excluded : SymbolFlags) (span : Span) (isExported : Bool)
    (hscope : kind.isPlaced = true → scope = p.scope) :
    (Binder.declareExcluding scope name kind excluded span isExported p b).2.Placed none := by
  let d : Declaration :=
    { node := name.id, kind, nameSpan := name.span, span
      scope := p.scope, isAmbient := p.isAmbient }
  let rest (owner? : Option SymbolId) :=
    Binder.declareFor owner? scope name.text excluded isExported d
  have hexported : ∀ (c : Bindings) (y : SymbolId), c.Placed none →
      (((do
        if isExported then modify fun b => b.modifySymbol y fun s => { s with isExported := true }
        return y) : Binder SymbolId) p c).2.Placed none := by
    intro c y hc
    split
    · exact hc.setExported y
    · exact hc
  have hrest : ∀ owner?, (rest owner? p b).2.Placed none := by
    intro owner?
    cases owner? with
    | none =>
        have hdeclared := h.declareExcluding_locals (s := scope) name.text excluded (d := d)
          fun hplaced => (hscope hplaced).symm
        exact hexported _ _ hdeclared
    | some owner =>
        obtain ⟨hlt, hdeclared⟩ :=
          h.declareExcluding_owned (t := .exports owner) rfl name.text excluded d
        refine hexported _ _ (Placed.shareExport ?_ hlt scope name.text owner p)
        split at hdeclared
        · exact hdeclared
        · exact hdeclared.weaken _
  rw [Binder.declareExcluding_eq]
  split
  · exact hrest _
  · exact hrest none

end Placed

theorem isInvariant_placed : Binder.IsInvariant (Placed none) where
  newScope _ kind parent? node h := h.newScope kind parent? node
  newSymbol _ name flag h := h.newSymbol name flag
  setSymbolOf _ _ _ h := h.of_eq rfl rfl
  setContainer _ s owner? h := h.setContainer s owner?
  setParent _ y owner h :=
    h.modifySymbol y (fun _ _ => .inl) (fun _ _ => .inl) (fun _ hs => by cases hs) fun _ => rfl
  augment _ h := h.of_eq rfl rfl
  declareOwned b t name d ht hd h := by
    have hdeclared := (h.declareExcluding_owned ht name d.kind.excludes d).2
    rwa [hd] at hdeclared
  declareName p _ scope name kind excluded span isExported hscope h :=
    h.declareName p scope name kind excluded span isExported hscope

/-- The classes, functions, enums and namespaces that are one symbol are written in one scope,
unless they are members of a namespace. -/
theorem scope_eq_of_mem_declarations (f : SourceFile) {y : SymbolId} {d e : Declaration}
    (hparent : (f.bind.symbol y).parent? = none) (hd : d ∈ (f.bind.symbol y).declarations)
    (he : e ∈ (f.bind.symbol y).declarations) (hdplaced : d.kind.isPlaced = true)
    (heplaced : e.kind.isPlaced = true) : d.scope = e.scope :=
  (isInvariant_placed.bind f ((Placed.empty none).newScope _ _ _)).together y d e
    ⟨hparent, by simp⟩ hd he hdplaced heplaced

end Bindings
end Erasure

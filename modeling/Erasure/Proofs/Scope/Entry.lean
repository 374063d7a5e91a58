import Erasure.Proofs.Scope.Growth
import Erasure.Proofs.Scope.WellFormed

/-!
Entries of tables. An entry is never changed: a name goes on to stand for the symbol that it was
first declared as. A declaration is of that symbol, or it is reported.
-/

namespace Erasure

namespace SymbolTable

variable {t : SymbolTable} {name : String} (h : t.find? name = none) (y : SymbolId)
include h

theorem insert_of_find?_none : t.insert name y = ⟨t.entries ++ [(name, y)]⟩ := by
  rw [insert, contains, h]
  rfl

theorem find?_insert_self : (t.insert name y).find? name = some y := by
  have hnone : t.entries.lookup name = none := h
  rw [insert_of_find?_none h, find?, List.lookup_append, hnone]
  simp

theorem find?_insert {other : String} {z : SymbolId} (hz : t.find? other = some z) :
    (t.insert name y).find? other = some z := by
  have hsome : t.entries.lookup other = some z := hz
  rw [insert_of_find?_none h, find?, List.lookup_append, hsome]
  rfl

end SymbolTable

/-- The scope or symbol that a table belongs to exists. -/
def TableRef.IsOf (b : Bindings) : TableRef → Prop
  | .locals s => s < b.scopes.size
  | .exports y | .members y => y < b.symbols.size

namespace Bindings

theorem table_of_find? {b : Bindings} {t : TableRef} {name : String} {y : SymbolId}
    (hy : b.find? name t = some y) : t.IsOf b := by
  cases t with
  | locals s =>
      refine Nat.lt_of_not_le fun hs => ?_
      rw [find?, scope_of_size_le b hs] at hy
      cases hy
  | exports z | members z =>
      refine Nat.lt_of_not_le fun hz => ?_
      rw [find?, symbol_of_size_le b hz] at hy
      cases hy

theorem lt_of_mem_declarations {b : Bindings} {y : SymbolId} {d : Declaration}
    (hd : d ∈ (b.symbol y).declarations) : y < b.symbols.size := by
  refine Nat.lt_of_not_le fun hy => ?_
  rw [symbol_of_size_le b hy] at hd
  cases hd

theorem find?_newSymbol (b : Bindings) (name : String) (flag : SymbolFlag) (other : String)
    (t : TableRef) : (b.newSymbol name flag).2.find? other t = b.find? other t := by
  cases t with
  | locals s => rfl
  | exports z | members z =>
      by_cases hz : z = b.symbols.size
      · rw [find?, find?, hz, symbol_newSymbol_self, symbol_of_size_le b (Nat.le_refl _)]
        rfl
      · rw [find?, find?, symbol_newSymbol_of_ne _ _ _ hz]

theorem find?_addDeclaration (b : Bindings) (y : SymbolId) (d : Declaration) (name : String)
    (t : TableRef) : (b.addDeclaration y d).find? name t = b.find? name t := by
  have hcases := fun z => b.symbol_modifySymbol_cases y z fun s =>
    { s with flags := s.flags.insert d.kind.flag, declarations := s.declarations ++ [d] }
  cases t with
  | locals s => rfl
  | exports z | members z =>
      rcases hcases z with heq | ⟨-, heq⟩ <;> rw [find?, find?, addDeclaration, heq]

theorem declarations_insert (b : Bindings) (name : String) (y : SymbolId) (t : TableRef)
    (z : SymbolId) : ((b.insert name y t).symbol z).declarations = (b.symbol z).declarations := by
  cases t with
  | locals s => rfl
  | exports x | members x =>
      rcases b.symbol_modifySymbol_cases x z _ with heq | ⟨-, heq⟩ <;> rw [insert, heq]

/-- What bindings hold is still there in others. -/
structure Retains (b c : Bindings) : Prop where
  later : b.Later c
  symbols_le : b.symbols.size ≤ c.symbols.size
  name_eq : ∀ y, y < b.symbols.size → (c.symbol y).name = (b.symbol y).name
  find? : ∀ name t y, b.find? name t = some y → c.find? name t = some y
  container : ∀ s, s < b.scopes.size → (c.scope s).container? = (b.scope s).container?
  errors : ∀ e ∈ b.errors, e ∈ c.errors

namespace Retains

variable {b c d : Bindings}

theorem trans (h : b.Retains c) (h' : c.Retains d) : b.Retains d where
  later := h.later.trans h'.later
  symbols_le := Nat.le_trans h.symbols_le h'.symbols_le
  name_eq y hy := (h'.name_eq y (Nat.lt_of_lt_of_le hy h.symbols_le)).trans (h.name_eq y hy)
  find? name t y hy := h'.find? name t y (h.find? name t y hy)
  container s hs :=
    (h'.container s (Nat.lt_of_lt_of_le hs h.later.scopes_le)).trans (h.container s hs)
  errors e he := h'.errors e (h.errors e he)

/-- A change to none of the scopes and symbols. -/
theorem of_eq (hscopes : c.scopes = b.scopes) (hsymbols : c.symbols = b.symbols)
    (herrors : ∀ e ∈ b.errors, e ∈ c.errors) : b.Retains c := by
  have hscope : c.scope = b.scope := by funext s; rw [Bindings.scope, Bindings.scope, hscopes]
  have hsymbol : c.symbol = b.symbol := by funext y; rw [Bindings.symbol, Bindings.symbol, hsymbols]
  refine ⟨.of_scopes hscopes, Nat.le_of_eq (by rw [hsymbols]), fun y _ => by rw [hsymbol], ?_,
    fun s _ => by rw [hscope], herrors⟩
  intro name t y hy
  cases t with
  | locals s => rwa [Bindings.find?, hscope]
  | exports z | members z => rwa [Bindings.find?, hsymbol]

theorem refl (b : Bindings) : b.Retains b := .of_eq rfl rfl fun _ => id

theorem error (b : Bindings) (m : Message) (span : Span) (args : List String) :
    b.Retains (b.error m span args) := by
  refine .of_eq rfl rfl fun e he => ?_
  rw [Bindings.errors, Bindings.error, List.reverse_cons]
  exact List.mem_append_left _ he

/-- A change to new scopes only. -/
theorem of_scope_eq (hsymbols : c.symbols = b.symbols) (herrors : c.errorsRev = b.errorsRev)
    (hsize : b.scopes.size ≤ c.scopes.size)
    (hscope : ∀ s, s < b.scopes.size → c.scope s = b.scope s) : b.Retains c := by
  have hsymbol : c.symbol = b.symbol := by funext y; rw [Bindings.symbol, Bindings.symbol, hsymbols]
  refine ⟨⟨hsize, fun s hs => by rw [hscope s hs], fun s hs => by rw [hscope s hs]⟩,
    Nat.le_of_eq (by rw [hsymbols]), fun y _ => by rw [hsymbol], ?_,
    fun s hs => by rw [hscope s hs], fun e he => by rwa [Bindings.errors, herrors]⟩
  intro name t y hy
  have ht := table_of_find? hy
  cases t with
  | locals s => rwa [Bindings.find?, hscope s ht]
  | exports z | members z => rwa [Bindings.find?, hsymbol]

theorem newSymbol (b : Bindings) (name : String) (flag : SymbolFlag) :
    b.Retains (b.newSymbol name flag).2 := by
  refine ⟨.of_scopes rfl, by simp, b.name_newSymbol name flag, ?_, fun _ _ => rfl, fun _ => id⟩
  exact fun other t y hy => (b.find?_newSymbol name flag other t).trans hy

/-- A change to a symbol that removes nothing from its tables. -/
theorem modifySymbol (b : Bindings) (y : SymbolId) {f : Symbol → Symbol}
    (hname : ∀ s, (f s).name = s.name)
    (hexports : ∀ name z, (b.symbol y).exports.find? name = some z →
      (f (b.symbol y)).exports.find? name = some z)
    (hmembers : ∀ name z, (b.symbol y).members.find? name = some z →
      (f (b.symbol y)).members.find? name = some z) :
    b.Retains (b.modifySymbol y f) := by
  refine ⟨.of_scopes rfl, by simp, fun z _ => b.name_modifySymbol y hname z, ?_, fun _ _ => rfl,
    fun _ => id⟩
  intro name t x hx
  cases t with
  | locals s => exact hx
  | exports z =>
      rcases b.symbol_modifySymbol_cases y z f with heq | ⟨rfl, heq⟩ <;> rw [Bindings.find?, heq]
      · exact hx
      · exact hexports name x hx
  | members z =>
      rcases b.symbol_modifySymbol_cases y z f with heq | ⟨rfl, heq⟩ <;> rw [Bindings.find?, heq]
      · exact hx
      · exact hmembers name x hx

theorem insert {name : String} {t : TableRef} (h : b.find? name t = none) (y : SymbolId) :
    b.Retains (b.insert name y t) := by
  cases t with
  | locals s =>
      refine ⟨b.later_insert name y (.locals s), Nat.le_refl _, fun _ _ => rfl, ?_, ?_, fun _ => id⟩
      · intro other t z hz
        cases t with
        | locals u =>
            rcases b.scope_modifyScope_cases s u fun u =>
              { u with locals := u.locals.insert name y }
              with heq | ⟨rfl, heq⟩ <;> rw [Bindings.find?, Bindings.insert, heq]
            · exact hz
            · exact SymbolTable.find?_insert h y hz
        | exports x | members x => exact hz
      · intro u _
        rcases b.scope_modifyScope_cases s u fun u => { u with locals := u.locals.insert name y }
          with heq | ⟨-, heq⟩ <;> rw [Bindings.insert, heq]
  | exports z =>
      exact .modifySymbol b z (fun _ => rfl) (fun _ _ => SymbolTable.find?_insert h y) fun _ _ => id
  | members z =>
      exact .modifySymbol b z (fun _ => rfl) (fun _ _ => id) fun _ _ => SymbolTable.find?_insert h y

theorem addDeclaration (b : Bindings) (y : SymbolId) (d : Declaration) :
    b.Retains (b.addDeclaration y d) := by
  refine .modifySymbol b y ?_ ?_ ?_
  · exact fun _ => rfl
  · exact fun _ _ => id
  · exact fun _ _ => id

theorem isOf (h : b.Retains c) {t : TableRef} (ht : t.IsOf b) : t.IsOf c := by
  cases t with
  | locals s => exact Nat.lt_of_lt_of_le ht h.later.scopes_le
  | exports y | members y => exact Nat.lt_of_lt_of_le ht h.symbols_le

end Retains

theorem find?_insert_self {b : Bindings} {name : String} {t : TableRef} (ht : t.IsOf b)
    (h : b.find? name t = none) (y : SymbolId) : (b.insert name y t).find? name t = some y := by
  cases t with
  | locals s =>
      rw [find?, insert, scope_modifyScope_self _ ht]
      exact SymbolTable.find?_insert_self h y
  | exports z | members z =>
      rw [find?, insert, symbol_modifySymbol_self _ ht]
      exact SymbolTable.find?_insert_self h y

theorem mem_declarations_addDeclaration {b : Bindings} {y z : SymbolId} {d e : Declaration}
    (he : e ∈ ((b.addDeclaration y d).symbol z).declarations) :
    e ∈ (b.symbol z).declarations ∨ z = y ∧ e = d := by
  rcases b.symbol_modifySymbol_cases y z fun s =>
    { s with flags := s.flags.insert d.kind.flag, declarations := s.declarations ++ [d] }
    with heq | ⟨rfl, heq⟩ <;> rw [addDeclaration, heq] at he
  · exact .inl he
  · rcases List.mem_append.mp he with he | he
    · exact .inl he
    · exact .inr ⟨rfl, List.mem_singleton.mp he⟩

/-- A declaration of a name is reported as a duplicate. -/
def Reports (b : Bindings) (name : String) (d : Declaration) : Prop :=
  ∃ m, (m = .redeclaredBlockScoped ∨ m = .duplicateIdentifier) ∧
    Diagnostic.ofMessage m d.nameSpan.start d.nameSpan.length [name] ∈ b.errors

theorem Retains.reports {b c : Bindings} (h : b.Retains c) {name : String} {d : Declaration}
    (hd : b.Reports name d) : c.Reports name d := by
  obtain ⟨m, hm, he⟩ := hd
  exact ⟨m, hm, h.errors _ he⟩

/-- What a declaration in a table leads to: the name stands for its symbol, or it is reported. -/
structure Enters (t : TableRef) (name : String) (d : Declaration) (b : Bindings)
    (r : SymbolId × Bindings) : Prop where
  retains : b.Retains r.2
  linked : r.2.Linked
  lt : r.1 < r.2.symbols.size
  name_eq : (r.2.symbol r.1).name = name
  declared : ∀ z, ∀ e ∈ (r.2.symbol z).declarations,
    e ∈ (b.symbol z).declarations ∨ z = r.1 ∧ e = d
  noticed : t.IsOf b → r.2.find? name t = some r.1 ∨ r.2.Reports name d

theorem Retains.newDeclared (b : Bindings) (name : String) (d : Declaration) :
    b.Retains (b.newDeclared name d).2 :=
  (Retains.newSymbol b name d.kind.flag).trans (.addDeclaration _ _ _)

theorem mem_declarations_newDeclared {b : Bindings} {name : String} {d e : Declaration}
    {z : SymbolId} (he : e ∈ ((b.newDeclared name d).2.symbol z).declarations) :
    e ∈ (b.symbol z).declarations ∨ z = b.symbols.size ∧ e = d := by
  rcases mem_declarations_addDeclaration (b := (b.newSymbol name d.kind.flag).2) he with he | hnew
  · rcases b.symbol_newSymbol_cases name d.kind.flag z with heq | heq <;> rw [heq] at he
    · exact .inl he
    · cases he
  · exact .inr hnew

theorem name_newDeclared (b : Bindings) (name : String) (d : Declaration) :
    ((b.newDeclared name d).2.symbol b.symbols.size).name = name := by
  refine (name_addDeclaration (b.newSymbol name d.kind.flag).2 _ d _).trans ?_
  rw [symbol_newSymbol_self]

theorem Linked.newDeclared {b : Bindings} (h : b.Linked) (name : String) (d : Declaration) :
    (b.newDeclared name d).2.Linked :=
  (h.newSymbol name d.kind.flag).addDeclaration _ d

theorem lt_newDeclared (b : Bindings) (name : String) (d : Declaration) :
    b.symbols.size < (b.newDeclared name d).2.symbols.size := by
  simp [Bindings.newDeclared, addDeclaration]

theorem find?_newDeclared (b : Bindings) (name : String) (d : Declaration) (other : String)
    (t : TableRef) : (b.newDeclared name d).2.find? other t = b.find? other t :=
  ((b.newSymbol name d.kind.flag).2.find?_addDeclaration _ d other t).trans
    (b.find?_newSymbol name d.kind.flag other t)

theorem reports_error (b : Bindings) (existing : Symbol) (name : String) (d : Declaration) :
    (b.error (duplicateMessage existing d) d.nameSpan [name]).Reports name d := by
  refine ⟨duplicateMessage existing d, ?_, ?_⟩
  · unfold duplicateMessage
    split
    · exact .inl rfl
    · exact .inr rfl
  · rw [errors, error, List.reverse_cons]
    exact List.mem_append_right _ (List.mem_singleton.mpr rfl)

theorem checkImplementation_arenas (b : Bindings) (existing : Symbol) (d : Declaration) :
    (b.checkImplementation existing d).scopes = b.scopes ∧
      (b.checkImplementation existing d).symbols = b.symbols := by
  unfold Bindings.checkImplementation
  split <;> exact ⟨rfl, rfl⟩

theorem symbol_checkImplementation (b : Bindings) (existing : Symbol) (d : Declaration)
    (y : SymbolId) : (b.checkImplementation existing d).symbol y = b.symbol y :=
  congrArg (·[y]!) (b.checkImplementation_arenas existing d).2

theorem Retains.checkImplementation (b : Bindings) (existing : Symbol) (d : Declaration) :
    b.Retains (b.checkImplementation existing d) := by
  unfold Bindings.checkImplementation
  split
  · exact .error _ _ _ _
  · exact .refl b

theorem Linked.declareExcluding {b : Bindings} (h : b.Linked) (t : TableRef) (name : String)
    (excluded : SymbolFlags) (d : Declaration) :
    Enters t name d b (b.declareExcluding t name excluded d) := by
  unfold Bindings.declareExcluding
  cases hfound : b.find? name t with
  | none =>
      have hnone := (b.find?_newDeclared name d name t).trans hfound
      have hnew := Retains.newDeclared b name d
      have hinsert := Retains.insert hnone b.symbols.size
      have hlt := b.lt_newDeclared name d
      have hname := b.name_newDeclared name d
      exact {
        retains := (hnew.trans hinsert).trans (.of_eq rfl rfl fun _ => id)
        linked := ((h.newDeclared name d).insert t hlt hname).of_eq rfl rfl
        lt := Nat.lt_of_lt_of_le hlt hinsert.symbols_le
        name_eq := (hinsert.name_eq _ hlt).trans hname
        declared := fun z e he => mem_declarations_newDeclared (declarations_insert _ _ _ t z ▸ he)
        noticed := fun ht => .inl (find?_insert_self (hnew.isOf ht) hnone _) }
  | some y =>
      obtain ⟨hy, hname⟩ := h.find? hfound
      simp only
      split
      · have herror := Retains.error b (duplicateMessage (b.symbol y) d) d.nameSpan [name]
        have hnew :=
          Retains.newDeclared (b.error (duplicateMessage (b.symbol y) d) d.nameSpan [name])
          name d
        exact {
          retains := (herror.trans hnew).trans (.of_eq rfl rfl fun _ => id)
          linked := ((h.of_eq rfl rfl).newDeclared name d).of_eq rfl rfl
          lt := lt_newDeclared _ name d
          name_eq := name_newDeclared _ name d
          declared := fun z e he => mem_declarations_newDeclared he
          noticed := fun _ => .inr (hnew.reports (b.reports_error _ name d)) }
      · obtain ⟨hscopes, hsymbols⟩ := b.checkImplementation_arenas (b.symbol y) d
        have hchecked := Retains.checkImplementation b (b.symbol y) d
        have hadded := Retains.addDeclaration (b.checkImplementation (b.symbol y) d) y d
        have hlinked : (b.checkImplementation (b.symbol y) d).Linked := h.of_eq hscopes hsymbols
        have hretains := hchecked.trans hadded
        refine {
          retains := hretains.trans (.of_eq rfl rfl fun _ => id)
          linked := (hlinked.addDeclaration y d).of_eq rfl rfl
          lt := Nat.lt_of_lt_of_le hy hretains.symbols_le
          name_eq := (hretains.name_eq y hy).trans hname
          declared := fun z e he => ?_
          noticed := fun _ => .inl (hretains.find? name t y hfound) }
        rcases mem_declarations_addDeclaration he with he | hnew
        · exact .inl (by rwa [symbol_checkImplementation] at he)
        · exact .inr hnew

end Bindings
end Erasure

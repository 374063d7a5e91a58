import Mathlib.Data.Option.Defs
import Mathlib.Data.List.Forall2
import Erasure.Scope.Bindings

/-!
Two sets of bindings with the same names. A matching tells which of their scopes and symbols stand
for the same; both can have further ones, which the names in the matching scopes do not lead to. So
what a name stands for in one of them it stands for in the other.
-/

namespace Erasure

/-- Which scopes and which symbols of two sets of bindings stand for the same. -/
structure Matching where
  scopes : ScopeId → ScopeId → Prop
  symbols : SymbolId → SymbolId → Prop

namespace Matching

/-- A matching that holds more. -/
structure Le (M N : Matching) : Prop where
  scopes : ∀ s s', M.scopes s s' → N.scopes s s'
  symbols : ∀ y y', M.symbols y y' → N.symbols y y'

instance : LE Matching := ⟨Le⟩

theorem le_refl (M : Matching) : M ≤ M := ⟨fun _ _ h => h, fun _ _ h => h⟩

theorem le_trans {L M N : Matching} (h : L ≤ M) (h' : M ≤ N) : L ≤ N :=
  ⟨fun s s' hs => h'.scopes s s' (h.scopes s s' hs),
    fun y y' hy => h'.symbols y y' (h.symbols y y' hy)⟩

/-- A matching with one more pair of scopes. -/
def addScope (M : Matching) (s s' : ScopeId) : Matching :=
  { M with scopes := fun t t' => M.scopes t t' ∨ t = s ∧ t' = s' }

/-- A matching with one more pair of symbols. -/
def addSymbol (M : Matching) (y y' : SymbolId) : Matching :=
  { M with symbols := fun z z' => M.symbols z z' ∨ z = y ∧ z' = y' }

theorem le_addScope (M : Matching) (s s' : ScopeId) : M ≤ M.addScope s s' :=
  ⟨fun _ _ h => .inl h, fun _ _ h => h⟩

theorem le_addSymbol (M : Matching) (y y' : SymbolId) : M ≤ M.addSymbol y y' :=
  ⟨fun _ _ h => h, fun _ _ h => .inl h⟩

end Matching

variable {M N : Matching} {outside : NodeId → Prop}

section
variable {α β γ δ : Type} {r : α → β → Prop} {q : γ → δ → Prop} {a? : Option α} {b? : Option β}

theorem rel_imp {r' : α → β → Prop} (h : ∀ a b, r a b → r' a b) (hab : Option.Rel r a? b?) :
    Option.Rel r' a? b? := by
  cases hab with
  | none => exact .none
  | some hab => exact .some (h _ _ hab)

theorem rel_isSome (hab : Option.Rel r a? b?) : a?.isSome = b?.isSome := by
  cases hab <;> rfl

theorem rel_isNone (hab : Option.Rel r a? b?) : a?.isNone = b?.isNone := by
  cases hab <;> rfl

theorem rel_or {c? : Option α} {d? : Option β} (hab : Option.Rel r a? b?)
    (hcd : Option.Rel r c? d?) : Option.Rel r (a?.or c?) (b?.or d?) := by
  cases hab with
  | none => exact hcd
  | some hab => exact .some hab

theorem rel_bind {f : α → Option γ} {g : β → Option δ} (hab : Option.Rel r a? b?)
    (h : ∀ a b, r a b → Option.Rel q (f a) (g b)) : Option.Rel q (a?.bind f) (b?.bind g) := by
  cases hab with
  | none => exact .none
  | some hab => exact h _ _ hab

theorem rel_map {f : α → γ} {g : β → δ} (hab : Option.Rel r a? b?)
    (h : ∀ a b, r a b → q (f a) (g b)) : Option.Rel q (a?.map f) (b?.map g) := by
  cases hab with
  | none => exact .none
  | some hab => exact .some (h _ _ hab)

theorem rel_filter {f : α → Bool} {g : β → Bool} (hab : Option.Rel r a? b?)
    (h : ∀ a b, r a b → f a = g b) : Option.Rel r (a?.filter f) (b?.filter g) := by
  cases hab with
  | none => exact .none
  | some hab =>
      rw [Option.filter_some, Option.filter_some, h _ _ hab]
      split
      · exact .some hab
      · exact .none

theorem rel_any {f : α → Bool} {g : β → Bool} (hab : Option.Rel r a? b?)
    (h : ∀ a b, r a b → f a = g b) : a?.any f = b?.any g := by
  cases hab with
  | none => rfl
  | some hab => exact h _ _ hab

theorem rel_getD {a : α} {b : β} (hab : Option.Rel r a? b?) (h : r a b) :
    r (a?.getD a) (b?.getD b) := by
  cases hab with
  | none => exact h
  | some hab => exact hab

theorem rel_of_eq {a? b? : Option α} (h : a? = b?) : Option.Rel Eq a? b? := by
  subst h
  cases a? with
  | none => exact .none
  | some a => exact .some rfl

theorem eq_of_rel {a? b? : Option α} (h : Option.Rel Eq a? b?) : a? = b? := by
  cases h with
  | none => rfl
  | some h => rw [h]

end

section
variable {α β γ δ : Type} {r : α → β → Prop} {q : γ → δ → Prop} {as : List α} {bs : List β}

theorem forall₂_find? {f : α → Bool} {g : β → Bool} (h : List.Forall₂ r as bs)
    (hfg : ∀ a b, r a b → f a = g b) : Option.Rel r (as.find? f) (bs.find? g) := by
  induction h with
  | nil => exact .none
  | cons hab _ ih =>
      rw [List.find?_cons, List.find?_cons, hfg _ _ hab]
      split
      · exact .some hab
      · exact ih

theorem forall₂_findSome? {f : α → Option γ} {g : β → Option δ} (h : List.Forall₂ r as bs)
    (hfg : ∀ a b, r a b → Option.Rel q (f a) (g b)) :
    Option.Rel q (as.findSome? f) (bs.findSome? g) := by
  induction h with
  | nil => exact .none
  | cons hab _ ih =>
      rw [List.findSome?_cons, List.findSome?_cons]
      have hhead := hfg _ _ hab
      revert hhead
      cases f _ <;> cases g _ <;> rintro ⟨⟩
      · exact ih
      · rename_i hq
        exact .some hq

theorem forall₂_any {f : α → Bool} {g : β → Bool} (h : List.Forall₂ r as bs)
    (hfg : ∀ a b, r a b → f a = g b) : as.any f = bs.any g := by
  induction h with
  | nil => rfl
  | cons hab _ ih => rw [List.any_cons, List.any_cons, hfg _ _ hab, ih]

theorem forall₂_takeWhile {f : α → Bool} {g : β → Bool} (h : List.Forall₂ r as bs)
    (hfg : ∀ a b, r a b → f a = g b) : List.Forall₂ r (as.takeWhile f) (bs.takeWhile g) := by
  induction h with
  | nil => exact .nil
  | cons hab _ ih =>
      rw [List.takeWhile_cons, List.takeWhile_cons, hfg _ _ hab]
      split
      · exact .cons hab ih
      · exact .nil

theorem forall₂_head? (h : List.Forall₂ r as bs) : Option.Rel r as.head? bs.head? := by
  cases h with
  | nil => exact .none
  | cons hab _ => exact .some hab

end

/-- The same names, which stand for matching symbols. -/
def SymbolTable.Matches (M : Matching) (t t' : SymbolTable) : Prop :=
  List.Forall₂ (fun e e' => e.1 = e'.1 ∧ M.symbols e.2 e'.2) t.entries t'.entries

namespace SymbolTable.Matches

variable {t t' : SymbolTable}

theorem mono (hle : M ≤ N) (h : t.Matches M t') : t.Matches N t' :=
  h.imp fun _ _ he => ⟨he.1, hle.symbols _ _ he.2⟩

theorem empty : SymbolTable.Matches M {} {} := .nil

theorem find? (h : t.Matches M t') (name : String) :
    Option.Rel M.symbols (t.find? name) (t'.find? name) := by
  obtain ⟨entries⟩ := t
  obtain ⟨entries'⟩ := t'
  unfold SymbolTable.find?
  change List.Forall₂ _ entries entries' at h
  induction h with
  | nil => exact .none
  | @cons e e' es es' he _ ih =>
      obtain ⟨key, y⟩ := e
      obtain ⟨key', y'⟩ := e'
      obtain ⟨rfl, hy⟩ := he
      rw [List.lookup_cons, List.lookup_cons]
      cases name == key with
      | true => exact .some hy
      | false => exact ih

theorem contains (h : t.Matches M t') (name : String) : t.contains name = t'.contains name := by
  exact rel_isSome (h.find? name)

theorem insert (h : t.Matches M t') (name : String) {y y' : SymbolId} (hy : M.symbols y y') :
    (t.insert name y).Matches M (t'.insert name y') := by
  unfold SymbolTable.insert
  rw [h.contains name]
  split
  · refine List.forall₂_map_left_iff.mpr (List.forall₂_map_right_iff.mpr (h.imp ?_))
    rintro ⟨key, z⟩ ⟨key', z'⟩ ⟨rfl, hz⟩
    by_cases hkey : key = name
    · simp [hkey, hy]
    · simp [hkey, hz]
  · exact List.rel_append h (.cons ⟨rfl, hy⟩ .nil)

end SymbolTable.Matches

structure Scope.Matches (M : Matching) (s s' : Scope) : Prop where
  kind : s.kind = s'.kind
  parent : Option.Rel M.scopes s.parent? s'.parent?
  locals : s.locals.Matches M s'.locals
  container : Option.Rel M.symbols s.container? s'.container?

/-- Declarations of one name, whose number satisfies `outside`. -/
structure Declaration.Matches (M : Matching) (outside : NodeId → Prop) (d d' : Declaration) :
    Prop where
  node : d.node = d'.node
  shared : outside d.node
  kind : d.kind = d'.kind
  nameSpan : d.nameSpan = d'.nameSpan
  span : d.span = d'.span
  scope : M.scopes d.scope d'.scope
  isAmbient : d.isAmbient = d'.isAmbient

structure Symbol.Matches (M : Matching) (outside : NodeId → Prop) (y y' : Symbol) : Prop where
  name : y.name = y'.name
  flags : y.flags = y'.flags
  declarations : List.Forall₂ (Declaration.Matches M outside) y.declarations y'.declarations
  isExported : y.isExported = y'.isExported
  parent : Option.Rel M.symbols y.parent? y'.parent?
  exports : y.exports.Matches M y'.exports
  members : y.members.Matches M y'.members

theorem Scope.Matches.mono (hle : M ≤ N) {s s' : Scope} (h : s.Matches M s') : s.Matches N s' where
  kind := h.kind
  parent := rel_imp hle.scopes h.parent
  locals := h.locals.mono hle
  container := rel_imp hle.symbols h.container

theorem Declaration.Matches.mono (hle : M ≤ N) {d d' : Declaration} (h : d.Matches M outside d') :
    d.Matches N outside d' :=
  { h with scope := hle.scopes _ _ h.scope }

namespace Symbol.Matches

variable {y y' : Symbol}

theorem mono (hle : M ≤ N) (h : y.Matches M outside y') : y.Matches N outside y' where
  name := h.name
  flags := h.flags
  declarations := h.declarations.imp fun _ _ => Declaration.Matches.mono hle
  isExported := h.isExported
  parent := rel_imp hle.symbols h.parent
  exports := h.exports.mono hle
  members := h.members.mono hle

theorem has (h : y.Matches M outside y') (flags : SymbolFlags) : y.has flags = y'.has flags := by
  rw [Symbol.has, Symbol.has, h.flags]

theorem isAlias (h : y.Matches M outside y') : y.isAlias = y'.isAlias := h.has _

theorem isConstEnum (h : y.Matches M outside y') : y.isConstEnum = y'.isConstEnum := h.has _

theorem declaration? (h : y.Matches M outside y') :
    Option.Rel (Declaration.Matches M outside) y.declaration? y'.declaration? :=
  forall₂_head? h.declarations

end Symbol.Matches

/-- Bindings whose scopes and symbols match, also as those of the nodes whose numbers satisfy
`outside`. -/
structure Bindings.Matches (M : Matching) (outside : NodeId → Prop) (b b' : Bindings) : Prop where
  root : M.scopes rootScope rootScope
  scope : ∀ s s', M.scopes s s' → (b.scope s).Matches M (b'.scope s')
  symbol : ∀ y y', M.symbols y y' → (b.symbol y).Matches M outside (b'.symbol y')
  scope_lt : ∀ s s', M.scopes s s' → s < b.scopes.size ∧ s' < b'.scopes.size
  symbol_lt : ∀ y y', M.symbols y y' → y < b.symbols.size ∧ y' < b'.symbols.size
  /-- Matching scopes are opened in the same order. -/
  scopes_lt_iff : ∀ s s' t t', M.scopes s s' → M.scopes t t' → (s < t ↔ s' < t')
  symbols_eq_iff : ∀ y y' z z', M.symbols y y' → M.symbols z z' → (y = z ↔ y' = z')
  scopeOf? : ∀ n, outside n → Option.Rel M.scopes (b.scopeOf? n) (b'.scopeOf? n)
  symbolOf? : ∀ n, outside n → Option.Rel M.symbols (b.symbolOf? n) (b'.symbolOf? n)

namespace Bindings.Matches

variable {b b' : Bindings} {s s' t t' : ScopeId} {y y' : SymbolId}

theorem scopes_eq_iff (h : b.Matches M outside b') (hs : M.scopes s s') (ht : M.scopes t t') :
    s = t ↔ s' = t' := by
  have hlt := h.scopes_lt_iff _ _ _ _ hs ht
  have hgt := h.scopes_lt_iff _ _ _ _ ht hs
  rw [Nat.eq_iff_le_and_ge, Nat.eq_iff_le_and_ge, ← Nat.not_lt, ← Nat.not_lt, ← Nat.not_lt,
    ← Nat.not_lt, hlt, hgt]

theorem scopeChain (h : b.Matches M outside b') (hs : M.scopes s s') :
    List.Forall₂ M.scopes (b.scopeChain s) (b'.scopeChain s') := by
  induction s using Nat.strongRecOn generalizing s' with
  | ind s ih =>
      rw [Bindings.scopeChain, Bindings.scopeChain.eq_1 b' s']
      have hparent := (h.scope s s' hs).parent
      revert hparent
      cases (b.scope s).parent? <;> cases (b'.scope s').parent? <;> rintro ⟨⟩
      · exact .cons hs .nil
      · rename_i p p' hp
        have hlt := h.scopes_lt_iff _ _ _ _ hp hs
        by_cases hps : p < s
        · simp only [hps, hlt.mp hps, if_true]
          exact .cons hs (ih p hps hp)
        · simp only [hps, mt hlt.mpr hps, if_false]
          exact .cons hs .nil

theorem functionContainer (h : b.Matches M outside b') (hs : M.scopes s s') :
    M.scopes (b.functionContainer s) (b'.functionContainer s') :=
  rel_getD (forall₂_find? (h.scopeChain hs) fun t t' ht => by rw [(h.scope t t' ht).kind]) h.root

theorem hasMeaning (h : b.Matches M outside b') (hy : M.symbols y y') (meaning : SymbolFlags) :
    b.hasMeaning meaning y = b'.hasMeaning meaning y' := by
  have hsymbol := h.symbol y y' hy
  rw [Bindings.hasMeaning, Bindings.hasMeaning, hsymbol.has, hsymbol.isAlias]

theorem resolveIn? (h : b.Matches M outside b') (hs : M.scopes s s') (name : String)
    (meaning : SymbolFlags) :
    Option.Rel M.symbols (b.resolveIn? name meaning s) (b'.resolveIn? name meaning s') := by
  have hscope := h.scope s s' hs
  refine rel_or ?_ ?_
  · exact rel_filter (hscope.locals.find? name) fun y y' hy => h.hasMeaning hy meaning
  · refine rel_filter ?_ fun y y' hy => h.hasMeaning hy meaning
    exact rel_bind hscope.container fun c c' hc => (h.symbol c c' hc).exports.find? name

theorem resolveWithScope? (h : b.Matches M outside b') (hs : M.scopes s s') (name : String)
    (meaning : SymbolFlags) :
    Option.Rel (fun found found' => M.scopes found.1 found'.1 ∧ M.symbols found.2 found'.2)
      (b.resolveWithScope? s name meaning) (b'.resolveWithScope? s' name meaning) := by
  refine forall₂_findSome? (h.scopeChain hs) fun t t' ht => ?_
  exact rel_map (h.resolveIn? ht name meaning) fun y y' hy => ⟨ht, hy⟩

theorem resolve? (h : b.Matches M outside b') (hs : M.scopes s s') (name : String)
    (meaning : SymbolFlags) :
    Option.Rel M.symbols (b.resolve? s name meaning) (b'.resolve? s' name meaning) :=
  rel_map (h.resolveWithScope? hs name meaning) fun _ _ hfound => hfound.2

end Bindings.Matches

end Erasure

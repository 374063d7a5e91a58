import Erasure.Parse.Grammar
import Erasure.Proofs.Scope.Entry
import Erasure.Proofs.Scope.Transition

/-!
Redeclarations. Of two declarations of a name in a scope either one is reported, or both are of the
symbol that the name stands for. A block of a namespace has two tables, its own and that of the
namespace: what the namespace exports is not compared with what the block had declared before.
-/

namespace Erasure
namespace Bindings

/-- A declaration is accounted for: its name stands for its symbol where it was declared, or it is
reported. -/
inductive Accounted (b : Bindings) (y : SymbolId) (d : Declaration) : Prop where
  | declared (h : b.find? (b.symbol y).name (.locals (b.targetScope d.kind d.scope)) = some y)
  | exported {owner : SymbolId} (htarget : b.targetScope d.kind d.scope = d.scope)
      (howner : (b.scope d.scope).container? = some owner)
      (h : b.find? (b.symbol y).name (.exports owner) = some y)
  | reported (h : b.Reports (b.symbol y).name d)

/-- A name that stands for one symbol in a block of a namespace, and for another one in the
namespace. -/
def Splits (b : Bindings) (s : ScopeId) (name : String) (y z : SymbolId) : Prop :=
  ∃ owner, (b.scope s).container? = some owner ∧ b.find? name (.locals s) = some y ∧
    b.find? name (.exports owner) = some z

/-- What bindings hold is kept, and new declarations in scopes are accounted for. -/
structure Notices (b c : Bindings) : Prop where
  retains : b.Retains c
  linked : c.Linked
  declared : ∀ y, ∀ d ∈ (c.symbol y).declarations, d ∈ (b.symbol y).declarations ∨
    (d.kind.isMember = false → d.scope < c.scopes.size ∧ c.Accounted y d)

theorem Accounted.mono {b c : Bindings} (h : b.Retains c) {y : SymbolId} (hy : y < b.symbols.size)
    {d : Declaration} (hd : d.scope < b.scopes.size) (hb : b.Accounted y d) : c.Accounted y d := by
  have hname := h.name_eq y hy
  have htarget := h.later.targetScope d.kind hd
  cases hb with
  | declared hfound => exact .declared (by rw [hname, htarget]; exact h.find? _ _ _ hfound)
  | exported hsame howner hfound =>
      exact .exported (htarget.trans hsame) ((h.container _ hd).trans howner)
        (by rw [hname]; exact h.find? _ _ _ hfound)
  | reported hreported => exact .reported (by rw [hname]; exact h.reports hreported)

theorem targetScope_lt {b : Bindings} (kind : DeclarationKind) {s : ScopeId}
    (hs : s < b.scopes.size) : b.targetScope kind s < b.scopes.size := by
  unfold targetScope functionContainer
  split
  · cases hfound : (b.scopeChain s).find? fun t => (b.scope t).kind.isFunctionContainer with
    | none => exact Nat.lt_of_le_of_lt (Nat.zero_le s) hs
    | some t => exact Later.mem_scopeChain_lt hs (List.mem_of_find?_eq_some hfound)
  · exact hs

theorem functionContainer_eq_self {b : Bindings} {s : ScopeId}
    (hs : (b.scope s).kind.isFunctionContainer = true) : b.functionContainer s = s := by
  unfold functionContainer
  rw [scopeChain]
  split
  · split <;> simp [hs]
  · simp [hs]

/-- Only a `var` is declared in another scope than the one that it is written in. -/
theorem targetScope_eq {b : Bindings} {s : ScopeId} {kind kind' : DeclarationKind}
    (h : (b.scope s).kind.isFunctionContainer = true ∨ (kind = .var ↔ kind' = .var)) :
    b.targetScope kind s = b.targetScope kind' s := by
  unfold targetScope
  rcases h with hs | hvar
  · rw [functionContainer_eq_self hs, ite_self, ite_self]
  · simp only [hvar]

namespace Notices

variable {b c d : Bindings}

theorem trans (h : b.Notices c) (h' : c.Notices d) : b.Notices d where
  retains := h.retains.trans h'.retains
  linked := h'.linked
  declared y e he := by
    rcases h'.declared y e he with hc | hnew
    · have hy := lt_of_mem_declarations hc
      refine (h.declared y e hc).imp_right fun haccounted hmember => ?_
      obtain ⟨hscope, haccounted⟩ := haccounted hmember
      exact ⟨Nat.lt_of_lt_of_le hscope h'.retains.later.scopes_le,
        haccounted.mono h'.retains hy hscope⟩
    · exact .inr hnew

/-- A change that adds no declaration. -/
theorem of_declarations (hretains : b.Retains c) (hlinked : c.Linked)
    (h : ∀ y, ∀ d ∈ (c.symbol y).declarations, d ∈ (b.symbol y).declarations) : b.Notices c :=
  ⟨hretains, hlinked, fun y d hd => .inl (h y d hd)⟩

/-- A change to none of the scopes, symbols and errors. -/
theorem of_eq (h : b.Linked) (hscopes : c.scopes = b.scopes) (hsymbols : c.symbols = b.symbols)
    (herrors : c.errorsRev = b.errorsRev) : b.Notices c := by
  refine .of_declarations (.of_eq hscopes hsymbols fun e he => ?_) (h.of_eq hscopes hsymbols) ?_
  · rwa [errors, herrors]
  · intro y d hd
    rwa [symbol, hsymbols] at hd

theorem refl (h : b.Linked) : b.Notices b := .of_eq h rfl rfl rfl

/-- A change to a symbol that leaves its name and its declarations as they are. -/
theorem modifySymbol (y : SymbolId) {f : Symbol → Symbol}
    (hretains : b.Retains (b.modifySymbol y f)) (hlinked : (b.modifySymbol y f).Linked)
    (hdeclarations : ∀ s, (f s).declarations = s.declarations) :
    b.Notices (b.modifySymbol y f) := by
  refine .of_declarations hretains hlinked fun z d hd => ?_
  rcases b.symbol_modifySymbol_cases y z f with heq | ⟨-, heq⟩ <;> rw [heq] at hd
  · exact hd
  · rwa [hdeclarations] at hd

end Notices

theorem Retains.newScope (b : Bindings) (kind : ScopeKind) (parent? : Option ScopeId)
    (node : NodeId) : b.Retains (b.newScope kind parent? node).2 :=
  .of_scope_eq rfl rfl (by simp) fun _ hs => b.scope_newScope_of_ne _ _ _ (Nat.ne_of_lt hs)

theorem Retains.newModule (b : Bindings) (parent : ScopeId) (node : NodeId)
    (owner? : Option SymbolId) : b.Retains (b.newModule parent node owner?) := by
  refine .of_scope_eq rfl rfl (by simp [Bindings.newModule]) fun s hs => ?_
  rw [Bindings.newModule, scope_modifyScope_of_ne _ (Nat.ne_of_lt hs),
    scope_newScope_of_ne _ _ _ _ (Nat.ne_of_lt hs)]

theorem Notices.newModule {b : Bindings} (h : b.Linked) (parent : ScopeId) (node : NodeId)
    {owner? : Option SymbolId} (howner : ∀ y ∈ owner?, y < b.symbols.size) :
    b.Notices (b.newModule parent node owner?) :=
  .of_declarations (.newModule b parent node owner?)
    ((h.newScope .module_ (some parent) node).setContainer b.scopes.size howner) fun _ _ => id

theorem Notices.setOwner {b : Bindings} (h : b.Linked) (y owner : SymbolId) :
    b.Notices (b.modifySymbol y fun s => { s with parent? := some owner }) :=
  .modifySymbol y (.modifySymbol b y (fun _ => rfl) (fun _ _ => id) fun _ _ => id)
    (h.setOwner y owner)
    fun _ => rfl

theorem Notices.setExported {b : Bindings} (h : b.Linked) (y : SymbolId) :
    b.Notices (b.modifySymbol y fun s => { s with isExported := true }) :=
  .modifySymbol y (.modifySymbol b y (fun _ => rfl) (fun _ _ => id) fun _ _ => id) (h.setExported y)
    fun _ => rfl

end Bindings

namespace Binder

open Bindings

theorem notices_shareExport {b : Bindings} (h : b.Linked) (scope : ScopeId) {name : String}
    {y : SymbolId} (owner : SymbolId) (hy : y < b.symbols.size) (hname : (b.symbol y).name = name)
    (p : BinderPlace) : b.Notices (shareExport scope name y owner p b).2 := by
  have hinsert : b.Notices (if (b.find? name (.locals scope)).isSome then b
      else b.insert name y (.locals scope)) := by
    split
    · exact .refl h
    · rename_i hnone
      exact .of_declarations (.insert (Option.not_isSome_iff_eq_none.mp hnone) y)
        (h.insert _ hy hname)
        fun _ _ => id
  exact hinsert.trans (.setOwner hinsert.linked y owner)

/-- What the declaration of a name leads to. -/
structure Declares (b : Bindings) (r : SymbolId × Bindings) : Prop where
  notices : b.Notices r.2
  lt : r.1 < r.2.symbols.size

theorem declares_declareExcluding {p : BinderPlace} {b : Bindings} (h : b.Linked)
    (hp : p.scope < b.scopes.size) (name : Identifier) (kind : DeclarationKind)
    (excluded : SymbolFlags) (span : Span) (isExported : Bool) :
    Declares b
      (declareExcluding (b.targetScope kind p.scope) name kind excluded span isExported p b) := by
  have hmark : ∀ (c : Bindings) (y : SymbolId), b.Notices c → y < c.symbols.size →
      Declares b (y, if isExported then c.modifySymbol y fun s => { s with isExported := true }
        else c) := by
    intro c y hc hy
    split
    · have hset := Notices.setExported hc.linked y
      exact ⟨hc.trans hset, Nat.lt_of_lt_of_le hy hset.retains.symbols_le⟩
    · exact ⟨hc, hy⟩
  -- the new declaration is the only one that has to be accounted for
  have hentered : ∀ (t : TableRef), t.IsOf b →
      (∀ c, b.Retains c → ∀ y, c.find? name.text t = some y → (c.symbol y).name = name.text →
        c.Accounted y (declaration name.id kind name.span span p b).1) →
      b.Notices (b.declareExcluding t name.text excluded
        (declaration name.id kind name.span span p b).1).2 := by
    intro t ht hfound
    have henter := h.declareExcluding t name.text excluded
      (declaration name.id kind name.span span p b).1
    refine ⟨henter.retains, henter.linked, fun z e he => ?_⟩
    refine (henter.declared z e he).imp_right ?_
    rintro ⟨rfl, rfl⟩ -
    refine ⟨Nat.lt_of_lt_of_le hp henter.retains.later.scopes_le, ?_⟩
    rcases henter.noticed ht with hfind | hreports
    · exact hfound _ henter.retains _ hfind henter.name_eq
    · exact .reported (henter.name_eq.symm ▸ hreports)
  rcases declareExcluding_cases p b
    (b.targetScope kind p.scope) name kind excluded span isExported with
    heq | ⟨owner, hscope, howner, heq⟩ <;> rw [heq]
  · have htarget := targetScope_lt kind hp
    refine hmark _ _ (hentered (.locals _) htarget fun c hc y hfind hname => ?_)
      (h.declareExcluding _ _ _ _).lt
    refine .declared ?_
    rw [hname]
    exact (congrArg (fun s => c.find? name.text (.locals s))
      (hc.later.targetScope kind hp)).trans hfind
  · have hnew : b.Notices (b.declareExcluding (.exports owner) name.text excluded
        (declaration name.id kind name.span span p b).1).2 := by
      refine hentered (.exports owner) (h.container_lt _ _ howner) fun c hc y hfind hname => ?_
      exact .exported ((hc.later.targetScope kind hp).trans hscope)
        ((hc.container _ hp).trans howner)
        (hname.symm ▸ hfind)
    have henter := h.declareExcluding (.exports owner) name.text excluded
      (declaration name.id kind name.span span p b).1
    have hshared := notices_shareExport henter.linked (b.targetScope kind p.scope) owner henter.lt
      henter.name_eq p
    exact hmark _ _ (hnew.trans hshared) (Nat.lt_of_lt_of_le henter.lt hshared.retains.symbols_le)

/-- The block of a namespace is tied to the symbol of its declaration. -/
theorem Declares.moduleOf {b : Bindings} {r : SymbolId × Bindings} (h : Declares b r)
    (parent : ScopeId) (node : NodeId) :
    b.Notices ((r.2.setSymbolOf node r.1).newModule parent node (some r.1)) := by
  have hset : r.2.Notices (r.2.setSymbolOf node r.1) := .of_eq h.notices.linked rfl rfl rfl
  refine h.notices.trans (hset.trans (.newModule hset.linked parent node ?_))
  rintro _ ⟨⟩
  exact h.lt

theorem later_moduleOf {b : Bindings} {r : SymbolId × Bindings} (h : b.Later r.2) {parent : ScopeId}
    {node : NodeId} : b.Later ((r.2.setSymbolOf node r.1).newModule parent node (some r.1)) := by
  have hset : b.Later (r.2.setSymbolOf node r.1) := h.trans (.of_scopes rfl)
  exact hset.trans (Retains.newModule _ parent node _).later

/-- Every change of the binder keeps what bindings hold and accounts for what it declares. -/
theorem isTransition_notices :
    IsTransition fun b c => b.Later c ∧ (b.Linked → b.Notices c) where
  refl b := ⟨.refl b, .refl⟩
  trans h h' := by
    refine ⟨h.1.trans h'.1, fun hb => ?_⟩
    have hfirst := h.2 hb
    exact hfirst.trans (h'.2 hfirst.linked)
  later h := h.1
  newScope b kind parent node _ := by
    have hretains := Retains.newScope b kind (some parent) node
    exact ⟨hretains.later, fun hb =>
      .of_declarations hretains (hb.newScope kind (some parent) node) fun _ _ => id⟩
  newModule b parent node _ :=
    ⟨(Retains.newModule b parent node none).later, fun hb => .newModule hb parent node (by simp)⟩
  declareModule p b name isInstantiated span isExported node hp := by
    refine ⟨later_moduleOf (keeps_later_declareExcluding b p.scope name (.namespace_ isInstantiated)
      (DeclarationKind.namespace_ isInstantiated).excludes span isExported p b
        (.refl b)), fun hb => ?_⟩
    exact Declares.moduleOf (declares_declareExcluding hb hp name (.namespace_ isInstantiated)
      (DeclarationKind.namespace_ isInstantiated).excludes span isExported) p.scope node
  newSymbol b name flag := by
    have hretains := Retains.newSymbol b name flag
    refine ⟨hretains.later, fun hb => .of_declarations hretains (hb.newSymbol name flag) ?_⟩
    intro y d hd
    rcases b.symbol_newSymbol_cases name flag y with heq | heq <;> rw [heq] at hd
    · exact hd
    · cases hd
  setSymbolOf b node y := ⟨.of_scopes rfl, fun hb => .of_eq hb rfl rfl rfl⟩
  setOwner b y owner := ⟨.of_scopes rfl, fun hb => .setOwner hb y owner⟩
  augment b := ⟨.of_scopes rfl, fun hb => .of_eq hb rfl rfl rfl⟩
  declareMember b t name d _ hmember := by
    refine ⟨b.later_declareExcluding t name d.kind.excludes d, fun hb => ?_⟩
    have henter := hb.declareExcluding t name d.kind.excludes d
    refine ⟨henter.retains, henter.linked, fun y e he => ?_⟩
    refine (henter.declared y e he).imp_right ?_
    rintro ⟨-, rfl⟩ hkind
    rw [hmember] at hkind
    cases hkind
  declareName p b name kind excluded span isExported hp _ _ :=
    ⟨keeps_later_declareExcluding b _ name kind excluded span isExported p b (.refl b), fun hb =>
      (declares_declareExcluding hb hp name kind excluded span isExported).notices⟩

end Binder

/-- Every declaration of a file that is not one of a member is accounted for. -/
theorem SourceFile.accounted (f : SourceFile) {y : SymbolId} {d : Declaration}
    (hd : d ∈ (f.bind.symbol y).declarations) (hmember : d.kind.isMember = false) :
    f.bind.Accounted y d := by
  have hnotices := (Binder.isTransition_notices.file f).2
    (Bindings.linked_empty.newScope .sourceFile none 0)
  rcases hnotices.declared y d hd with hd | hnew
  · cases hd
  · exact (hnew hmember).2

/-- Two declarations of a name in a scope are of one symbol, or one of them is reported. Otherwise
the scope is a block of a namespace: the block had declared the name before the namespace exported
it. A `var` in a block is one of the function, so that it is not compared with the names of the
block. -/
theorem eq_or_reports_of_same_scope (f : SourceFile) {y z : SymbolId} {d e : Declaration}
    (hd : d ∈ (f.bind.symbol y).declarations) (he : e ∈ (f.bind.symbol z).declarations)
    (hdmember : d.kind.isMember = false) (hemember : e.kind.isMember = false)
    (hname : (f.bind.symbol z).name = (f.bind.symbol y).name) (hscope : e.scope = d.scope)
    (hkinds : (f.bind.scope d.scope).kind.isFunctionContainer = true ∨
      (e.kind = .var ↔ d.kind = .var)) :
    y = z ∨ f.bind.Reports (f.bind.symbol y).name d ∨ f.bind.Reports (f.bind.symbol y).name e ∨
      f.bind.Splits d.scope (f.bind.symbol y).name y z ∨
      f.bind.Splits d.scope (f.bind.symbol y).name z y := by
  have htarget : f.bind.targetScope e.kind e.scope = f.bind.targetScope d.kind d.scope := by
    rw [hscope]
    exact Bindings.targetScope_eq hkinds
  cases f.accounted hd hdmember with
  | reported hreported => exact .inr (.inl hreported)
  | declared hy =>
      cases f.accounted he hemember with
      | reported hreported => exact .inr (.inr (.inl (hname ▸ hreported)))
      | declared hz =>
          rw [hname, htarget, hy] at hz
          exact .inl (Option.some.inj hz)
      | exported hsame howner hz =>
          rw [← htarget, hsame, hscope] at hy
          rw [hscope] at howner
          rw [hname] at hz
          exact .inr (.inr (.inr (.inl ⟨_, howner, hy, hz⟩)))
  | exported hsame howner hy =>
      cases f.accounted he hemember with
      | reported hreported => exact .inr (.inr (.inl (hname ▸ hreported)))
      | declared hz =>
          rw [hname, htarget, hsame] at hz
          exact .inr (.inr (.inr (.inr ⟨_, howner, hz, hy⟩)))
      | exported _ howner' hz =>
          rw [hscope, howner] at howner'
          rw [hname, ← Option.some.inj howner', hy] at hz
          exact .inl (Option.some.inj hz)

theorem eq_or_reports_of_same_scope_let_var :
    let b := (parseSource "a.ts" "let x; var x;").1.bind
    ∃ d ∈ (b.symbol 0).declarations, ∃ e ∈ (b.symbol 1).declarations,
      (b.symbol 0).name = "x" ∧ e.scope = d.scope ∧
        ((0 : SymbolId) = 1 ∨ b.Reports (b.symbol 0).name d ∨ b.Reports (b.symbol 0).name e ∨
          b.Splits d.scope (b.symbol 0).name 0 1 ∨ b.Splits d.scope (b.symbol 0).name 1 0) := by
  let d : Declaration :=
    { node := 1, kind := .let_, nameSpan := ⟨4, 5⟩, span := ⟨4, 5⟩, scope := 0, isAmbient := false }
  let e : Declaration :=
    { node := 5, kind := .var, nameSpan := ⟨11, 12⟩, span := ⟨11, 12⟩, scope := 0,
      isAmbient := false }
  have hfile : let b := (parseSource "a.ts" "let x; var x;").1.bind
      d ∈ (b.symbol 0).declarations ∧ e ∈ (b.symbol 1).declarations ∧ (b.symbol 0).name = "x" ∧
        (b.symbol 1).name = "x" ∧ (b.scope 0).kind.isFunctionContainer = true := by
    decide +kernel
  obtain ⟨hd, he, hname, hname', hkind⟩ := hfile
  exact ⟨d, hd, e, he, hname, rfl, eq_or_reports_of_same_scope _ hd he rfl rfl
    (hname'.trans hname.symm) rfl (.inl hkind)⟩

/-- A block of a namespace declares a name that the namespace exports after it: neither of the two
declarations is reported. -/
theorem exists_unnoticed_redeclaration :
    let r := parseSource "a.ts" "namespace N \x7b let x; export let x; \x7d"
    r.2 = [] ∧ r.1.bind.errors = [] ∧ ∃ y z, y ≠ z ∧
      (r.1.bind.symbol y).name = "x" ∧ (r.1.bind.symbol z).name = "x" ∧
        ∃ d e : Declaration, (r.1.bind.symbol y).declarations = [d] ∧
          (r.1.bind.symbol z).declarations = [e] ∧ d.kind = .let_ ∧ e.kind = .let_ ∧
            d.scope = e.scope := by
  let d : Declaration :=
    { node := 2, kind := .let_, nameSpan := ⟨18, 19⟩, span := ⟨18, 19⟩, scope := 1,
      isAmbient := false }
  let e : Declaration :=
    { node := 6, kind := .let_, nameSpan := ⟨32, 33⟩, span := ⟨32, 33⟩, scope := 1,
      isAmbient := false }
  have hfile : let r := parseSource "a.ts" "namespace N \x7b let x; export let x; \x7d"
      r.2.isEmpty = true ∧ r.1.bind.errors.isEmpty = true ∧ (r.1.bind.symbol 1).name = "x" ∧
        (r.1.bind.symbol 2).name = "x" ∧ (r.1.bind.symbol 1).declarations = [d] ∧
          (r.1.bind.symbol 2).declarations = [e] := by
    decide +kernel
  obtain ⟨hdiagnostics, herrors, hname, hname', hd, he⟩ := hfile
  exact ⟨List.isEmpty_iff.mp hdiagnostics, List.isEmpty_iff.mp herrors, 1, 2,
    by decide, hname, hname',
    d, e, hd, he, rfl, rfl, rfl⟩

end Erasure

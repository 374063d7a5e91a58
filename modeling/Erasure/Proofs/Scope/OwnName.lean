import Erasure.Proofs.Scope.Merging
import Erasure.Proofs.Scope.Bindings
import Erasure.Proofs.Scope.Redeclaration

/-!
The name of a function expression. It is the first one that is declared in the scope of the
function, which the parameters and the statements of the body share with it. Nothing declared there
hides it: another declaration of the name is reported, or it merges with the function.
-/

namespace Erasure
namespace Bindings

/-- A declaration is reported as a second implementation. -/
def ReportsImplementation (b : Bindings) (d : Declaration) : Prop :=
  Diagnostic.ofMessage .duplicateImplementation d.nameSpan.start d.nameSpan.length [] ∈ b.errors

/-- A declaration that was added to a symbol excludes nothing that the symbol had been declared as,
and is reported if both are implementations. The exclusions of type parameters depend on where they
are declared. -/
structure MergesInto (b : Bindings) (s : Symbol) (d : Declaration) : Prop where
  kinds : d.kind = .typeParameter ∨ s.has d.kind.excludes = false
  implementations : ∀ e ∈ s.declarations, e.isImplementation = true → d.isImplementation = true →
    b.ReportsImplementation d

/-- Symbols are not taken back, and what is added to them merges with what they were. -/
structure Merges (b c : Bindings) : Prop where
  symbols_le : b.symbols.size ≤ c.symbols.size
  errors : ∀ e ∈ b.errors, e ∈ c.errors
  flags : ∀ y < b.symbols.size, ∀ f ∈ (b.symbol y).flags, f ∈ (c.symbol y).flags
  declarations : ∀ y < b.symbols.size, ∀ d ∈ (b.symbol y).declarations,
    d ∈ (c.symbol y).declarations
  merged : ∀ y < b.symbols.size, ∀ d ∈ (c.symbol y).declarations,
    d ∈ (b.symbol y).declarations ∨ c.MergesInto (b.symbol y) d

theorem Symbol.has_mono {s s' : Symbol} (h : ∀ f ∈ s.flags, f ∈ s'.flags) {flags : SymbolFlags}
    (hs : s.has flags = true) : s'.has flags = true := by
  obtain ⟨f, hf, hflags⟩ := List.any_eq_true.mp hs
  exact List.any_eq_true.mpr ⟨f, h f hf, hflags⟩

namespace Merges

variable {b c d : Bindings}

theorem trans (h : b.Merges c) (h' : c.Merges d) : b.Merges d where
  symbols_le := Nat.le_trans h.symbols_le h'.symbols_le
  errors e he := h'.errors e (h.errors e he)
  flags y hy f hf := h'.flags y (Nat.lt_of_lt_of_le hy h.symbols_le) f (h.flags y hy f hf)
  declarations y hy e he :=
    h'.declarations y (Nat.lt_of_lt_of_le hy h.symbols_le) e (h.declarations y hy e he)
  merged y hy e he := by
    rcases h'.merged y (Nat.lt_of_lt_of_le hy h.symbols_le) e he with hc | hnew
    · refine (h.merged y hy e hc).imp_right fun hmerged => ⟨hmerged.kinds, ?_⟩
      exact fun x hx himplementation himplementation' =>
        h'.errors _ (hmerged.implementations x hx himplementation himplementation')
    · refine .inr ⟨hnew.kinds.imp_right fun hkinds => ?_, fun x hx => ?_⟩
      · refine eq_false_of_ne_true fun hhas => ?_
        rw [Symbol.has_mono (h.flags y hy) hhas] at hkinds
        cases hkinds
      · exact hnew.implementations x (h.declarations y hy x hx)

/-- A change that leaves the flags and declarations of the symbols as they are. -/
theorem of_symbol (hsize : b.symbols.size ≤ c.symbols.size) (herrors : ∀ e ∈ b.errors, e ∈ c.errors)
    (h : ∀ y < b.symbols.size, (c.symbol y).flags = (b.symbol y).flags ∧
      (c.symbol y).declarations = (b.symbol y).declarations) : b.Merges c where
  symbols_le := hsize
  errors := herrors
  flags y hy _ hf := (h y hy).1 ▸ hf
  declarations y hy _ hd := (h y hy).2 ▸ hd
  merged y hy _ hd := .inl ((h y hy).2 ▸ hd)

theorem of_eq (hsymbols : c.symbols = b.symbols) (herrors : ∀ e ∈ b.errors, e ∈ c.errors) :
    b.Merges c := by
  refine .of_symbol (Nat.le_of_eq (by rw [hsymbols])) herrors fun y _ => ?_
  rw [symbol, hsymbols]
  exact ⟨rfl, rfl⟩

theorem refl (b : Bindings) : b.Merges b := .of_eq rfl fun _ => id

theorem error (b : Bindings) (m : Message) (span : Span) (args : List String) :
    b.Merges (b.error m span args) := .of_eq rfl (Retains.error b m span args).errors

theorem modifySymbol (b : Bindings) (y : SymbolId) {f : Symbol → Symbol}
    (hflags : ∀ s, (f s).flags = s.flags)
    (hdeclarations : ∀ s, (f s).declarations = s.declarations) : b.Merges (b.modifySymbol y f) := by
  refine .of_symbol (by simp) (fun _ => id) fun z _ => ?_
  rcases b.symbol_modifySymbol_cases y z f with heq | ⟨-, heq⟩ <;> rw [heq]
  · exact ⟨rfl, rfl⟩
  · exact ⟨hflags _, hdeclarations _⟩

theorem insert (b : Bindings) (name : String) (y : SymbolId) (t : TableRef) :
    b.Merges (b.insert name y t) := by
  cases t with
  | locals s => exact .of_eq rfl fun _ => id
  | exports x | members x => exact .modifySymbol b x (fun _ => rfl) fun _ => rfl

theorem newSymbol (b : Bindings) (name : String) (flag : SymbolFlag) :
    b.Merges (b.newSymbol name flag).2 := by
  refine .of_symbol (by simp) (fun _ => id) fun y hy => ?_
  rw [symbol_newSymbol_of_ne _ _ _ (Nat.ne_of_lt hy)]
  exact ⟨rfl, rfl⟩

theorem newDeclared (b : Bindings) (name : String) (d : Declaration) :
    b.Merges (b.newDeclared name d).2 := by
  refine .of_symbol (Nat.le_of_lt (b.lt_newDeclared name d)) (fun _ => id) fun y hy => ?_
  rw [b.symbol_newDeclared_of_lt name d hy]
  exact ⟨rfl, rfl⟩

theorem addDeclaration {y : SymbolId} {d : Declaration} (h : b.MergesInto (b.symbol y) d) :
    b.Merges (b.addDeclaration y d) := by
  have hsymbol := b.symbol_modifySymbol_cases y (f := fun s =>
    { s with flags := s.flags.insert d.kind.flag, declarations := s.declarations ++ [d] })
  refine ⟨by simp [Bindings.addDeclaration], fun _ => id, fun z _ f hf => ?_, fun z _ e he => ?_,
    fun z _ e he => ?_⟩
  · rcases hsymbol z with heq | ⟨rfl, heq⟩
    · exact heq ▸ hf
    · refine heq ▸ ?_
      change f ∈ SymbolFlags.insert _ _
      unfold SymbolFlags.insert
      split
      · exact hf
      · exact List.mem_append_left _ hf
  · rcases hsymbol z with heq | ⟨rfl, heq⟩
    · exact heq ▸ he
    · exact heq ▸ List.mem_append_left _ he
  · rcases hsymbol z with heq | ⟨rfl, heq⟩ <;> rw [Bindings.addDeclaration, heq] at he
    · exact .inl he
    · rcases List.mem_append.mp he with he | he
      · exact .inl he
      · obtain rfl := List.mem_singleton.mp he
        exact .inr ⟨h.kinds, h.implementations⟩

theorem declareExcluding (b : Bindings) (t : TableRef) (name : String) {excluded : SymbolFlags}
    {d : Declaration} (hexcluded : d.kind = .typeParameter ∨ excluded = d.kind.excludes) :
    b.Merges (b.declareExcluding t name excluded d).2 := by
  cases hfound : b.find? name t with
  | none =>
      rw [declareExcluding_new hfound]
      exact ((newDeclared b name d).trans (.insert _ name _ t)).trans (.of_eq rfl fun _ => id)
  | some y =>
      cases hhas : (b.symbol y).has excluded with
      | true =>
          rw [declareExcluding_excluded hfound hhas]
          have herror := error b (duplicateMessage (b.symbol y) d) d.nameSpan [name]
          exact (herror.trans (.newDeclared _ name d)).trans (.of_eq rfl fun _ => id)
      | false =>
          rw [declareExcluding_merged hfound hhas]
          have hchecked : b.Merges (b.checkImplementation (b.symbol y) d) :=
            .of_eq (b.checkImplementation_arenas _ d).2 (Retains.checkImplementation b _ d).errors
          refine (hchecked.trans (.addDeclaration ?_)).trans (.of_eq rfl fun _ => id)
          rw [symbol_checkImplementation]
          have hkinds : d.kind = .typeParameter ∨ (b.symbol y).has d.kind.excludes = false := by
            rcases hexcluded with htype | rfl
            · exact .inl htype
            · exact .inr hhas
          refine ⟨hkinds, fun e he himplementation hnew => ?_⟩
          have hany : (d.isImplementation &&
              (b.symbol y).declarations.any Declaration.isImplementation) = true := by
            rw [hnew, Bool.true_and, List.any_eq_true]
            exact ⟨e, he, himplementation⟩
          rw [ReportsImplementation, Bindings.checkImplementation, if_pos hany, errors_error]
          exact List.mem_append_right _ (List.mem_singleton.mpr rfl)

end Merges
end Bindings

namespace Binder

open Bindings

theorem merges_shareExport (scope : ScopeId) (name : String) (y owner : SymbolId) (p : BinderPlace)
    (b : Bindings) : b.Merges (shareExport scope name y owner p b).2 := by
  have hinsert : b.Merges (if (b.find? name (.locals scope)).isSome then b
      else b.insert name y (.locals scope)) := by
    split
    · exact .refl b
    · exact .insert b name y _
  exact hinsert.trans (.modifySymbol _ y (fun _ => rfl) fun _ => rfl)

theorem merges_declareExcluding (p : BinderPlace) (b : Bindings) (scope : ScopeId)
    (name : Identifier) {kind : DeclarationKind} {excluded : SymbolFlags}
    (hexcluded : kind = .typeParameter ∨ excluded = kind.excludes) (span : Span)
    (isExported : Bool) :
    b.Merges (declareExcluding scope name kind excluded span isExported p b).2 := by
  have hmark : ∀ (c : Bindings) (y : SymbolId), b.Merges c →
      b.Merges (if isExported then c.modifySymbol y fun s => { s with isExported := true }
        else c) := by
    intro c y hc
    split
    · exact hc.trans (.modifySymbol c y (fun _ => rfl) fun _ => rfl)
    · exact hc
  have hnew := fun t => Merges.declareExcluding b t name.text
    (d := (declaration name.id kind name.span span p b).1) hexcluded
  rcases declareExcluding_cases p b scope name kind excluded span isExported with
    heq | ⟨owner, -, -, heq⟩ <;> rw [heq]
  · exact hmark _ _ (hnew _)
  · exact hmark _ _ ((hnew _).trans (merges_shareExport scope name.text _ owner p _))

/-- Whatever the binder declares merges with what its name was declared as. -/
theorem isTransition_merges : IsTransition fun b c => b.Later c ∧ b.Merges c where
  refl b := ⟨.refl b, .refl b⟩
  trans h h' := ⟨h.1.trans h'.1, h.2.trans h'.2⟩
  later h := h.1
  newScope b kind parent node hp :=
    ⟨(isTransition_notices.newScope b kind parent node hp).1, .of_eq rfl fun _ => id⟩
  newModule b parent node hp :=
    ⟨(isTransition_notices.newModule b parent node hp).1, .of_eq rfl fun _ => id⟩
  declareModule p b name isInstantiated span isExported node hp := by
    have hnotices :=
      isTransition_notices.declareModule p b name isInstantiated span isExported node hp
    have hname : b.Merges
        (declareName p.scope name (.namespace_ isInstantiated) span isExported p b).2 :=
      merges_declareExcluding p b p.scope name (.inr rfl) span isExported
    exact ⟨hnotices.1, hname.trans (.of_eq rfl fun _ => id)⟩
  newSymbol b name flag := ⟨(isTransition_notices.newSymbol b name flag).1, .newSymbol b name flag⟩
  setSymbolOf b node y := ⟨.of_scopes rfl, .of_eq rfl fun _ => id⟩
  setOwner b y owner := ⟨.of_scopes rfl, .modifySymbol b y (fun _ => rfl) fun _ => rfl⟩
  augment b := ⟨.of_scopes rfl, .of_eq rfl fun _ => id⟩
  declareMember b t name d _ _ :=
    ⟨b.later_declareExcluding t name d.kind.excludes d, .declareExcluding b t name (.inr rfl)⟩
  declareName p b name kind excluded span isExported hp hmember hexcluded := by
    have hnotices := isTransition_notices.declareName p b name kind excluded span isExported hp
      hmember hexcluded
    exact ⟨hnotices.1, merges_declareExcluding p b _ name hexcluded span isExported⟩

section
variable {n func : Node} {ms : Modifiers} {name : Identifier} {p : BinderPlace} {b : Bindings}

/-- The declaration of the name of a function expression, in the new scope of the function. -/
def ownDeclaration (name : Identifier) (func : Node) (p : BinderPlace) (b : Bindings) :
    Declaration where
  node := name.id
  kind := .function true
  nameSpan := name.span
  span := func.span
  scope := b.scopes.size
  isAmbient := p.isAmbient

/-- Bindings with the scope of a function expression, in which only its name is declared. -/
def enterNamed (name : Identifier) (func : Node) (p : BinderPlace) (b : Bindings) : Bindings :=
  ((b.newScope .function (some p.scope) func.id).2.declare (.locals b.scopes.size) name.text
    (ownDeclaration name func p b)).2

theorem walkNode_functionExpr (hform : n.form = .functionExpr ms (some name) func) (fuel : Nat) :
    (walkNode (fuel + 1) n p b).2 =
      (functionParts (walkNode fuel) func.func { p with scope := b.scopes.size }
        (enterNamed name func p b)).2 := by
  rw [walkNode, step, hform]
  rfl

theorem holds_enterNamed (name : Identifier) (func : Node) (p : BinderPlace) (b : Bindings) :
    (enterNamed name func p b).Holds (.locals b.scopes.size) name.text b.symbols.size
      [ownDeclaration name func p b] := by
  have hscope : TableRef.IsOf (b.newScope .function (some p.scope) func.id).2
      (.locals b.scopes.size) := by
    simp [TableRef.IsOf]
  have hnone : (b.newScope .function (some p.scope) func.id).2.find? name.text
      (.locals b.scopes.size) = none := by
    rw [Bindings.find?, scope_newScope_self]
    rfl
  have hfirst : ((b.newScope .function (some p.scope) func.id).2.declare (.locals b.scopes.size)
      name.text (ownDeclaration name func p b)).1 = b.symbols.size := by
    rw [Bindings.declare, declareExcluding_new hnone]
    rfl
  exact hfirst ▸ (holds_declare hscope hnone (ownDeclaration name func p b)).1

/-- What is kept of the scope of a function expression and of the symbol of its name while its
parameters and its body are bound. -/
structure KeepsName (name : Identifier) (func : Node) (p : BinderPlace) (b c : Bindings) :
    Prop where
  entered : ∀ z, ∀ d ∈ ((enterNamed name func p b).symbol z).declarations,
    d ∈ (b.symbol z).declarations ∨ d = ownDeclaration name func p b
  notices : (enterNamed name func p b).Notices c
  merges : (enterNamed name func p b).Merges c
  found : c.find? name.text (.locals b.scopes.size) = some b.symbols.size
  container : (c.scope b.scopes.size).container? = none
  parent : (c.scope b.scopes.size).parent? = some p.scope

theorem keepsName_walkNode (hform : n.form = .functionExpr ms (some name) func) (hb : b.Linked)
    (fuel : Nat) : KeepsName name func p b (walkNode (fuel + 1) n p b).2 := by
  rw [walkNode_functionExpr hform]
  have hholds := holds_enterNamed name func p b
  have hscope : b.scopes.size < (b.newScope .function (some p.scope) func.id).2.scopes.size := by
    simp
  have henter := (hb.newScope .function (some p.scope) func.id).declareExcluding
    (.locals b.scopes.size) name.text (DeclarationKind.function true).excludes
    (ownDeclaration name func p b)
  have hentered : b.scopes.size < (enterNamed name func p b).scopes.size := hholds.isOf
  have hnotices := (isTransition_notices.functionParts (isTransition_notices.walkNode fuel)
    func.func { p with scope := b.scopes.size } (enterNamed name func p b) hentered).2 henter.linked
  have hmerges := (isTransition_merges.functionParts (isTransition_merges.walkNode fuel) func.func
    { p with scope := b.scopes.size } (enterNamed name func p b) hentered).2
  have hretains := henter.retains.trans hnotices.retains
  refine ⟨fun z d hd => ?_, hnotices, hmerges, hnotices.retains.find? _ _ _ hholds.found, ?_, ?_⟩
  · exact (henter.declared z d hd).imp_right And.right
  · rw [hretains.container _ hscope, scope_newScope_self]
  · rw [hretains.later.parent _ hscope, scope_newScope_self]

namespace KeepsName

variable {c : Bindings} (h : KeepsName name func p b c)
include h

/-- The name is known in the function, as the function itself. -/
theorem resolve?_eq (hp : p.scope < b.scopes.size) {meaning : SymbolFlags}
    (hmeaning : SymbolFlag.function ∈ meaning) :
    c.resolve? b.scopes.size name.text meaning = some b.symbols.size := by
  have hholds := holds_enterNamed name func p b
  have hflag : SymbolFlag.function ∈ (c.symbol b.symbols.size).flags :=
    h.merges.flags _ hholds.lt _ ((hholds.flags _).mpr ⟨_, List.mem_singleton.mpr rfl, rfl⟩)
  have hhas : c.hasMeaning meaning b.symbols.size = true := by
    rw [hasMeaning, Bool.or_eq_true]
    exact .inl (List.any_eq_true.mpr ⟨_, hflag, List.contains_iff_mem.mpr hmeaning⟩)
  have hlocal : c.resolveIn? name.text meaning b.scopes.size = some b.symbols.size := by
    have hfound := h.found
    rw [Bindings.find?] at hfound
    simp [resolveIn?, hfound, hhas]
  rw [resolve?_of_scopeChain (scopeChain_of_parent h.parent hp), List.findSome?_singleton, hlocal]
  rfl

/-- Another declaration of the name in the scope of the function is reported, or it is one of the
function itself. -/
theorem joins_or_reports {z : SymbolId} {d : Declaration} (hd : d ∈ (c.symbol z).declarations)
    (hnew : d ∉ (b.symbol z).declarations) (hname : (c.symbol z).name = name.text)
    (hscope : c.targetScope d.kind d.scope = b.scopes.size) (hmember : d.kind.isMember = false)
    (hother : d.node ≠ name.id) :
    c.Reports name.text d ∨ z = b.symbols.size := by
  rcases h.notices.declared z d hd with hentered | haccounted
  · rcases h.entered z d hentered with hold | rfl
    · exact absurd hold hnew
    · exact absurd rfl hother
  · cases (haccounted hmember).2 with
    | declared hfound =>
        rw [hname, hscope, h.found] at hfound
        exact .inr (Option.some.inj hfound).symm
    | exported htarget howner _ =>
        rw [← htarget, hscope, h.container] at howner
        cases howner
    | reported hreports => exact .inl (hname ▸ hreports)

/-- What joins the function merges with it. -/
theorem mergesInto {d : Declaration} (hd : d ∈ (c.symbol b.symbols.size).declarations)
    (hnew : d ∉ (b.symbol b.symbols.size).declarations) (hother : d.node ≠ name.id) :
    c.MergesInto ((enterNamed name func p b).symbol b.symbols.size) d := by
  rcases h.merges.merged _ (holds_enterNamed name func p b).lt d hd with hentered | hmerged
  · rcases h.entered _ d hentered with hold | rfl
    · exact absurd hold hnew
    · exact absurd rfl hother
  · exact hmerged

theorem function_not_mem_excludes {d : Declaration}
    (hd : d ∈ (c.symbol b.symbols.size).declarations)
    (hnew : d ∉ (b.symbol b.symbols.size).declarations) (hother : d.node ≠ name.id) :
    SymbolFlag.function ∉ d.kind.excludes := by
  intro hmem
  rcases (h.mergesInto hd hnew hother).kinds with htype | hkinds
  · rw [htype] at hmem
    exact absurd hmem (by decide)
  · have hhas := ((holds_enterNamed name func p b).has_iff d.kind.excludes).mpr
      ⟨_, List.mem_singleton.mpr rfl, hmem⟩
    rw [hhas] at hkinds
    cases hkinds

theorem reportsImplementation {d : Declaration} (hambient : p.isAmbient = false)
    (hd : d ∈ (c.symbol b.symbols.size).declarations)
    (hnew : d ∉ (b.symbol b.symbols.size).declarations) (hother : d.node ≠ name.id)
    (himplementation : d.isImplementation = true) : c.ReportsImplementation d := by
  refine (h.mergesInto hd hnew hother).implementations (ownDeclaration name func p b) ?_ ?_
    himplementation
  · rw [(holds_enterNamed name func p b).declarations]
    exact List.mem_singleton.mpr rfl
  · rw [Declaration.isImplementation, ownDeclaration, hambient]
    rfl

end KeepsName

/-- Nothing in a function expression hides its name, which stands for the function in all of it. A
parameter or variable of that name is reported, and a class or a function is one of the function
expression itself unless it is reported. As the expression is an implementation, another one is
reported in any case. -/
theorem own_name_not_hidden (hform : n.form = .functionExpr ms (some name) func) (hb : b.Linked)
    (hp : p.scope < b.scopes.size) (fuel : Nat) :
    let c := (walkNode (fuel + 1) n p b).2
    c.resolve? b.scopes.size name.text SymbolFlags.value = some b.symbols.size ∧
      ∀ z, ∀ d ∈ (c.symbol z).declarations, d ∉ (b.symbol z).declarations → d.node ≠ name.id →
        (c.symbol z).name = name.text → c.targetScope d.kind d.scope = b.scopes.size →
          d.kind.isMember = false →
            (d.kind ∈ [.parameter, .var, .let_, .const, .using_] →
              z ≠ b.symbols.size ∧ c.Reports name.text d) ∧
            (d.kind = .class_ → z = b.symbols.size ∨ c.Reports name.text d) ∧
            (p.isAmbient = false → d.isImplementation = true →
              c.ReportsImplementation d ∨ c.Reports name.text d) := by
  intro c
  have h : KeepsName name func p b c := keepsName_walkNode hform hb fuel
  refine ⟨h.resolve?_eq hp (by decide), fun z d hd hnew hother hname hscope hmember => ?_⟩
  have hjoins := h.joins_or_reports hd hnew hname hscope hmember hother
  refine ⟨fun hkind => ?_, fun _ => hjoins.symm, fun hambient himplementation => ?_⟩
  · have hexcludes : ∀ k ∈ [DeclarationKind.parameter, .var, .let_, .const, .using_],
        SymbolFlag.function ∈ k.excludes := by
      decide
    have hne : z ≠ b.symbols.size := by
      rintro rfl
      exact h.function_not_mem_excludes hd hnew hother (hexcludes _ hkind)
    exact ⟨hne, hjoins.resolve_right hne⟩
  · rcases hjoins with hreports | rfl
    · exact .inr hreports
    · exact .inl (h.reportsImplementation hambient hd hnew hother himplementation)

end

/-- The expression `function f(f) {}`. -/
def hiddenFunction : Node :=
  let parameter : Node := ⟨3, ⟨11, 12⟩, .parameter
    { decorators := [], modifiers := {}, isRest := false
      name := ⟨2, ⟨11, 12⟩, .bindingIdentifier "f"⟩
      isOptional := false, type := none, initializer := none }⟩
  let func : Node := ⟨4, ⟨0, 16⟩, .functionLike
    { isAsync := false, isGenerator := false, typeParameters := none, parameters := [parameter]
      returnType := none, body := some ⟨5, ⟨14, 16⟩, .block [] false false⟩ }⟩
  ⟨0, ⟨0, 16⟩, .functionExpr {} (some ⟨1, ⟨9, 10⟩, "f"⟩) func⟩

theorem parameter_of_hiddenFunction_reported :
    let p : BinderPlace := { scope := 0, isAmbient := false }
    let c := (walkNode 3 hiddenFunction p fileScope).2
    let d : Declaration :=
      { node := 2, kind := .parameter, nameSpan := ⟨11, 12⟩, span := ⟨11, 12⟩, scope := 1
        isAmbient := false }
    fileScope.Linked ∧ p.scope < fileScope.scopes.size ∧ d ∈ (c.symbol 1).declarations ∧
      c.resolve? 1 "f" SymbolFlags.value = some 0 ∧ c.Reports "f" d := by
  intro p c d
  have hlinked : fileScope.Linked := linked_empty.newScope .sourceFile none 0
  have hwalk : d ∈ (c.symbol 1).declarations ∧ d ∉ (fileScope.symbol 1).declarations ∧
      (c.symbol 1).name = "f" ∧ c.targetScope d.kind d.scope = fileScope.scopes.size := by
    decide +kernel
  obtain ⟨hd, hnew, hname, hscope⟩ := hwalk
  obtain ⟨hresolved, hothers⟩ := own_name_not_hidden (n := hiddenFunction) (p := p) rfl hlinked
    Nat.zero_lt_one 2
  have hreported := (hothers 1 d hd hnew (by decide) hname hscope rfl).1 (by decide)
  exact ⟨hlinked, Nat.zero_lt_one, hd, hresolved, hreported.2⟩

/-- The parameter `f` of a function expression `f` is reported, and inside of it `f` stands for the
function. -/
theorem exists_reported_parameter :
    let r := parseSource "a.ts" "(function f(f) \x7b f; \x7d);"
    r.2 = [] ∧ ∃ y z, y ≠ z ∧ ∃ d e : Declaration,
      (r.1.bind.symbol y).declarations = [d] ∧ d.kind = .function true ∧
        (r.1.bind.symbol z).declarations = [e] ∧ e.kind = .parameter ∧ e.scope = d.scope ∧
          r.1.bind.resolve? d.scope "f" SymbolFlags.value = some y ∧ r.1.bind.Reports "f" e := by
  let d : Declaration :=
    { node := 1, kind := .function true, nameSpan := ⟨10, 11⟩, span := ⟨1, 21⟩, scope := 1
      isAmbient := false }
  let e : Declaration :=
    { node := 2, kind := .parameter, nameSpan := ⟨12, 13⟩, span := ⟨12, 13⟩, scope := 1
      isAmbient := false }
  have hfile : let r := parseSource "a.ts" "(function f(f) \x7b f; \x7d);"
      r.2.isEmpty = true ∧ (r.1.bind.symbol 0).declarations = [d] ∧
        (r.1.bind.symbol 1).declarations = [e] ∧
          r.1.bind.resolve? 1 "f" SymbolFlags.value = some 0 ∧
            Diagnostic.ofMessage .duplicateIdentifier 12 1 ["f"] ∈ r.1.bind.errors := by
    decide +kernel
  obtain ⟨hdiagnostics, hd, he, hresolved, hreported⟩ := hfile
  exact ⟨List.isEmpty_iff.mp hdiagnostics, 0, 1, by decide, d, e, hd, rfl, he, rfl, rfl, hresolved,
    .duplicateIdentifier, .inr rfl, hreported⟩

end Binder
end Erasure

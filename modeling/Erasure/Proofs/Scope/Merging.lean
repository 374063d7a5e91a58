import Erasure.Proofs.Scope.Entry

/-!
Declarations of one name in one table. They merge as long as none of them excludes another and at
most one is an implementation; the first that does not merge is reported. Statements exclude each
other in both directions, so that the order of the declarations does not decide whether there is a
report.
-/

namespace Erasure

namespace DeclarationKind

/-- Kinds of declarations that stand in a list of statements. -/
def statements : List DeclarationKind :=
  [var, let_, const, using_, function true, function false, class_, interface, typeAlias, enum true,
    enum false, namespace_ true, namespace_ false, importAlias true, importAlias false]

/-- The exclusions of statements are mutual. -/
theorem mem_excludes_comm : ∀ k ∈ statements, ∀ l ∈ statements,
    k.flag ∈ l.excludes ↔ l.flag ∈ k.excludes := by
  decide

end DeclarationKind

namespace Declaration

/-- Of two declarations of a name the second is reported: its kind excludes the first, or both are
implementations. -/
def ClashesWith (d e : Declaration) : Prop :=
  d.kind.flag ∈ e.kind.excludes ∨ d.isImplementation = true ∧ e.isImplementation = true

theorem clashesWith_comm {d e : Declaration} (hd : d.kind ∈ DeclarationKind.statements)
    (he : e.kind ∈ DeclarationKind.statements) : d.ClashesWith e ↔ e.ClashesWith d := by
  unfold ClashesWith
  rw [DeclarationKind.mem_excludes_comm _ hd _ he, and_comm]

/-- Whether any two declarations clash does not depend on their order. -/
theorem pairwise_iff_of_perm {ds es : List Declaration} (hperm : es.Perm ds)
    (hkinds : ∀ d ∈ ds, d.kind ∈ DeclarationKind.statements) :
    es.Pairwise (fun d e => ¬ d.ClashesWith e) ↔ ds.Pairwise fun d e => ¬ d.ClashesWith e := by
  have hmutual : ∀ {l : List Declaration}, (∀ d ∈ l, d.kind ∈ DeclarationKind.statements) →
      (l.Pairwise (fun d e => ¬ d.ClashesWith e) ↔
        l.Pairwise fun d e => ¬ d.ClashesWith e ∧ ¬ e.ClashesWith d) := by
    intro l hl
    refine List.Pairwise.iff_of_mem fun hd he => ?_
    rw [clashesWith_comm (hl _ he) (hl _ hd), and_self]
  rw [hmutual fun d hd => hkinds d (hperm.mem_iff.mp hd), hmutual hkinds]
  exact hperm.pairwise_iff And.symm

end Declaration

namespace Bindings

variable {b : Bindings} {t : TableRef} {name : String} {y : SymbolId} {d : Declaration}

theorem errors_error (b : Bindings) (m : Message) (span : Span) (args : List String) :
    (b.error m span args).errors =
      b.errors ++ [Diagnostic.ofMessage m span.start span.length args] := by
  rw [errors, errors, error, List.reverse_cons]

/-- A new name gets a symbol of its own. -/
theorem declareExcluding_new {excluded : SymbolFlags} (h : b.find? name t = none) :
    b.declareExcluding t name excluded d =
      (b.symbols.size,
        ((b.newDeclared name d).2.insert name b.symbols.size t).setSymbolOf d.node
          b.symbols.size) := by
  rw [declareExcluding, h]
  rfl

/-- A declaration that excludes what its name stands for is reported, and gets a symbol that no
table holds. -/
theorem declareExcluding_excluded {excluded : SymbolFlags} (h : b.find? name t = some y)
    (hexcluded : (b.symbol y).has excluded = true) :
    b.declareExcluding t name excluded d =
      (b.symbols.size,
        ((b.error (duplicateMessage (b.symbol y) d) d.nameSpan [name]).newDeclared name
          d).2.setSymbolOf d.node b.symbols.size) := by
  rw [declareExcluding, h]
  simp only [hexcluded, if_true]
  rfl

/-- Any other declaration merges with what its name stands for. -/
theorem declareExcluding_merged {excluded : SymbolFlags} (h : b.find? name t = some y)
    (hmerged : (b.symbol y).has excluded = false) :
    b.declareExcluding t name excluded d =
      (y, ((b.checkImplementation (b.symbol y) d).addDeclaration y d).setSymbolOf d.node y) := by
  rw [declareExcluding, h]
  simp only [hmerged]
  rfl

/-- A declaration leads to one report at most, at its name. -/
theorem exists_reports (b : Bindings) (t : TableRef) (name : String) (excluded : SymbolFlags)
    (d : Declaration) : ∃ reports, (b.declareExcluding t name excluded d).2.errors =
      b.errors ++ reports ∧ reports.length ≤ 1 ∧ ∀ e ∈ reports, e.start = d.nameSpan.start := by
  cases hfound : b.find? name t with
  | none =>
      rw [declareExcluding_new hfound]
      refine ⟨[], ?_, by simp⟩
      cases t <;> exact (List.append_nil _).symm
  | some y =>
      cases hexcluded : (b.symbol y).has excluded with
      | true =>
          rw [declareExcluding_excluded hfound hexcluded]
          exact ⟨_, b.errors_error _ _ _, by simp [Diagnostic.ofMessage]⟩
      | false =>
          rw [declareExcluding_merged hfound hexcluded]
          change ∃ reports, (b.checkImplementation (b.symbol y) d).errors = _ ∧ _
          unfold checkImplementation
          split
          · exact ⟨_, b.errors_error _ _ _, by simp [Diagnostic.ofMessage]⟩
          · exact ⟨[], by simp⟩

/-- A name stands for a symbol that is declared by some declarations and nothing else. -/
structure Holds (b : Bindings) (t : TableRef) (name : String) (y : SymbolId)
    (ds : List Declaration) : Prop where
  isOf : t.IsOf b
  found : b.find? name t = some y
  lt : y < b.symbols.size
  declarations : (b.symbol y).declarations = ds
  flags : ∀ f, f ∈ (b.symbol y).flags ↔ ∃ d ∈ ds, d.kind.flag = f

theorem symbol_newDeclared_self (b : Bindings) (name : String) (d : Declaration) :
    (b.newDeclared name d).2.symbol b.symbols.size =
      { name, flags := [d.kind.flag], declarations := [d] } := by
  have hlt : b.symbols.size < (b.newSymbol name d.kind.flag).2.symbols.size := by simp
  change ((b.newSymbol name d.kind.flag).2.addDeclaration b.symbols.size d).symbol _ = _
  rw [addDeclaration, symbol_modifySymbol_self _ hlt, symbol_newSymbol_self]
  simp [SymbolFlags.insert]

theorem symbol_newDeclared_of_lt (b : Bindings) (name : String) (d : Declaration)
    (hy : y < b.symbols.size) : (b.newDeclared name d).2.symbol y = b.symbol y := by
  have hne : y ≠ b.symbols.size := Nat.ne_of_lt hy
  change ((b.newSymbol name d.kind.flag).2.addDeclaration b.symbols.size d).symbol _ = _
  rw [addDeclaration, symbol_modifySymbol_of_ne _ hne, symbol_newSymbol_of_ne _ _ _ hne]

theorem symbol_insert_of_isOf (ht : t.IsOf b) (c : Bindings) (name : String) (z : SymbolId) :
    (c.insert name z t).symbol b.symbols.size = c.symbol b.symbols.size := by
  cases t with
  | locals s => rfl
  | exports x | members x => exact symbol_modifySymbol_of_ne _ (Nat.ne_of_gt ht) _

/-- The first declaration of a name is not reported. -/
theorem holds_declare (ht : t.IsOf b) (hnone : b.find? name t = none) (d : Declaration) :
    (b.declare t name d).2.Holds t name (b.declare t name d).1 [d] ∧
      (b.declare t name d).2.errors = b.errors := by
  have hnew := Retains.newDeclared b name d
  have hnone' := (b.find?_newDeclared name d name t).trans hnone
  have hinsert := Retains.insert hnone' b.symbols.size
  have hsymbol := (symbol_insert_of_isOf ht (b.newDeclared name d).2 name b.symbols.size).trans
    (b.symbol_newDeclared_self name d)
  rw [declare, declareExcluding_new hnone]
  refine ⟨⟨(hnew.trans hinsert).isOf ht, find?_insert_self (hnew.isOf ht) hnone' _, ?_, ?_, ?_⟩, ?_⟩
  · exact Nat.lt_of_lt_of_le (b.lt_newDeclared name d) hinsert.symbols_le
  · exact congrArg Symbol.declarations hsymbol
  · intro f
    change f ∈ (((b.newDeclared name d).2.insert name b.symbols.size t).symbol
      b.symbols.size).flags ↔ _
    rw [hsymbol]
    simp [eq_comm]
  · cases t <;> rfl

namespace Holds

variable {ds : List Declaration} (h : b.Holds t name y ds)
include h

theorem has_iff (excluded : SymbolFlags) :
    (b.symbol y).has excluded = true ↔ ∃ e ∈ ds, e.kind.flag ∈ excluded := by
  simp only [Symbol.has, SymbolFlags.intersects, List.any_eq_true, List.contains_iff_mem, h.flags]
  grind

/-- A change that leaves the symbol as it is. -/
theorem of_retains {c : Bindings} (hretains : b.Retains c) (hsymbol : c.symbol y = b.symbol y) :
    c.Holds t name y ds where
  isOf := hretains.isOf h.isOf
  found := hretains.find? _ _ _ h.found
  lt := Nat.lt_of_lt_of_le h.lt hretains.symbols_le
  declarations := by rw [hsymbol, h.declarations]
  flags f := by rw [hsymbol, h.flags]

theorem addDeclaration (d : Declaration) : (b.addDeclaration y d).Holds t name y (ds ++ [d]) := by
  have hretains := Retains.addDeclaration b y d
  have hsymbol : (b.addDeclaration y d).symbol y =
      { b.symbol y with
        flags := (b.symbol y).flags.insert d.kind.flag
        declarations := (b.symbol y).declarations ++ [d] } := symbol_modifySymbol_self _ h.lt _
  refine ⟨hretains.isOf h.isOf, hretains.find? _ _ _ h.found,
    Nat.lt_of_lt_of_le h.lt hretains.symbols_le, ?_, fun f => ?_⟩
  · rw [hsymbol, h.declarations]
  · rw [hsymbol]
    change f ∈ SymbolFlags.insert (b.symbol y).flags d.kind.flag ↔ _
    have hinsert : f ∈ SymbolFlags.insert (b.symbol y).flags d.kind.flag ↔
        f ∈ (b.symbol y).flags ∨ f = d.kind.flag := by
      unfold SymbolFlags.insert
      split
      · rename_i hmem
        rw [List.contains_iff_mem] at hmem
        grind
      · simp
    rw [hinsert, h.flags]
    grind

theorem errors_checkImplementation (d : Declaration) :
    (b.checkImplementation (b.symbol y) d).errors = b.errors ↔
      ∀ e ∈ ds, ¬ (e.isImplementation = true ∧ d.isImplementation = true) := by
  have hany : (d.isImplementation && (b.symbol y).declarations.any (·.isImplementation)) = true ↔
      ∃ e ∈ ds, e.isImplementation = true ∧ d.isImplementation = true := by
    rw [Bool.and_eq_true, List.any_eq_true, h.declarations]
    grind
  unfold checkImplementation
  split
  · rename_i himplementations
    rw [errors_error]
    obtain ⟨e, he, hboth⟩ := hany.mp himplementations
    exact iff_of_false (by simp) fun hnone => hnone e he hboth
  · rename_i himplementations
    exact iff_of_true rfl fun e he hboth => himplementations (hany.mpr ⟨e, he, hboth⟩)

/-- What a declaration makes of a name that was declared before. It is reported exactly if it
clashes with one of the declarations that have merged. -/
theorem declare (d : Declaration) :
    ((b.declare t name d).2.errors = b.errors ↔ ∀ e ∈ ds, ¬ e.ClashesWith d) ∧
      ((b.declare t name d).2.Holds t name y ds ∨
        (b.declare t name d).2.Holds t name y (ds ++ [d])) ∧
      ((b.declare t name d).2.errors = b.errors →
        (b.declare t name d).2.Holds t name y (ds ++ [d])) := by
  rw [Bindings.declare]
  cases hexcluded : (b.symbol y).has d.kind.excludes with
  | true =>
      rw [declareExcluding_excluded h.found hexcluded]
      obtain ⟨e, he, hflag⟩ := (h.has_iff _).mp hexcluded
      have herrors := b.errors_error (duplicateMessage (b.symbol y) d) d.nameSpan [name]
      have hchanged :
          (b.error (duplicateMessage (b.symbol y) d) d.nameSpan [name]).errors ≠ b.errors := by
        rw [herrors]
        simp
      have hretains := (Retains.error b (duplicateMessage (b.symbol y) d) d.nameSpan [name]).trans
        (.newDeclared _ name d)
      refine ⟨iff_of_false hchanged fun hnone => hnone e he (.inl hflag), .inl ?_, ?_⟩
      · exact (h.of_retains hretains (symbol_newDeclared_of_lt _ name d h.lt)).of_retains
          (.of_eq rfl rfl fun _ => id) rfl
      · exact fun heq => absurd heq hchanged
  | false =>
      rw [declareExcluding_merged h.found hexcluded]
      have hexcludes : ∀ e ∈ ds, e.kind.flag ∉ d.kind.excludes := fun e he hflag =>
        absurd ((h.has_iff _).mpr ⟨e, he, hflag⟩) (by simp [hexcluded])
      have hmerged : (((b.checkImplementation (b.symbol y) d).addDeclaration y d).setSymbolOf d.node
          y).Holds t name y (ds ++ [d]) :=
        ((h.of_retains (.checkImplementation b _ d)
          (b.symbol_checkImplementation _ d y)).addDeclaration d).of_retains
            (.of_eq rfl rfl fun _ => id) rfl
      refine ⟨(h.errors_checkImplementation d).trans ?_, .inr hmerged, fun _ => hmerged⟩
      unfold Declaration.ClashesWith
      grind

end Holds

/-- Declare a name several times in one table. -/
def declareAll (b : Bindings) (t : TableRef) (name : String) (ds : List Declaration) : Bindings :=
  ds.foldl (fun b d => (b.declare t name d).2) b

theorem declareAll_append (b : Bindings) (t : TableRef) (name : String) (ds es : List Declaration) :
    b.declareAll t name (ds ++ es) = (b.declareAll t name ds).declareAll t name es :=
  List.foldl_append

theorem errors_isInitial_declareAll (b : Bindings) (t : TableRef) (name : String)
    (ds : List Declaration) : b.errors <+: (b.declareAll t name ds).errors := by
  induction ds generalizing b with
  | nil => exact List.prefix_refl _
  | cons d ds ih =>
      obtain ⟨reports, hreports, -⟩ := b.exists_reports t name d.kind.excludes d
      exact (List.prefix_append b.errors reports).trans (hreports ▸ ih (b.declare t name d).2)

/-- The name goes on to stand for the symbol, whatever is declared. -/
theorem Holds.declareAll {es : List Declaration} (h : b.Holds t name y es)
    (ds : List Declaration) : ∃ merged, (b.declareAll t name ds).Holds t name y merged := by
  induction ds generalizing b es with
  | nil => exact ⟨es, h⟩
  | cons d ds ih =>
      obtain ⟨-, hrejected | hmerged, -⟩ := h.declare d
      · exact ih hrejected
      · exact ih hmerged

/-- Nothing is reported exactly if no declaration clashes with one before it. As long as that is so,
all of them have merged, so the symbol has the flags that the next one is tested against. -/
theorem Holds.errors_declareAll {es : List Declaration} (h : b.Holds t name y es)
    (ds : List Declaration) : (b.declareAll t name ds).errors = b.errors ↔
      (∀ e ∈ es, ∀ d ∈ ds, ¬ e.ClashesWith d) ∧ ds.Pairwise fun d e => ¬ d.ClashesWith e := by
  induction ds generalizing b es with
  | nil => simp [Bindings.declareAll]
  | cons d ds ih =>
      obtain ⟨hreported, -, hmerged⟩ := h.declare d
      by_cases hclash : ∀ e ∈ es, ¬ e.ClashesWith d
      · have hsilent := hreported.mpr hclash
        have hrest := ih (hmerged hsilent)
        rw [hsilent] at hrest
        refine hrest.trans ?_
        simp only [List.mem_append, List.mem_cons, List.pairwise_cons]
        grind
      · -- The report of `d` is never taken back.
        refine iff_of_false (fun hsilent => hclash (hreported.mp ?_)) fun hnone => hclash ?_
        · have hbefore := b.errors_isInitial_declareAll t name [d]
          have hafter : (b.declare t name d).2.errors <+: (b.declareAll t name (d :: ds)).errors :=
            (b.declare t name d).2.errors_isInitial_declareAll t name ds
          rw [hsilent] at hafter
          exact hafter.eq_of_length_le hbefore.length_le
        · exact fun e he => hnone.1 e he d List.mem_cons_self

/-- In an empty table nothing is reported exactly if no declaration clashes with one before it. -/
theorem errors_declareAll (ht : t.IsOf b) (hnone : b.find? name t = none) (ds : List Declaration) :
    (b.declareAll t name ds).errors = b.errors ↔ ds.Pairwise fun d e => ¬ d.ClashesWith e := by
  cases ds with
  | nil => simp [declareAll]
  | cons d ds =>
      obtain ⟨hholds, hsilent⟩ := holds_declare ht hnone d
      have hrest := hholds.errors_declareAll ds
      rw [hsilent] at hrest
      refine hrest.trans ?_
      simp only [List.mem_singleton, forall_eq, List.pairwise_cons]

/-- Whether a name is reported as declared twice in a table does not depend on the order of its
declarations. The first one is never reported, every other one leads to one report at most, and the
name stands for the symbol of the first one all along. -/
theorem duplicates_reported_in_any_order {ds : List Declaration} (ht : t.IsOf b)
    (hempty : b.find? name t = none) (hkinds : ∀ d ∈ ds, d.kind ∈ DeclarationKind.statements) :
    (∀ es, es.Perm ds → ((b.declareAll t name es).errors = b.errors ↔
      (b.declareAll t name ds).errors = b.errors)) ∧
    (∀ before d after, ds = before ++ d :: after → ∃ reports : List Diagnostic,
      (b.declareAll t name (before ++ [d])).errors =
          (b.declareAll t name before).errors ++ reports ∧
        reports.length ≤ 1 ∧ (before = [] → reports = [])) ∧
    ∀ first before after, ds = first :: before ++ after →
      (b.declareAll t name (first :: before)).find? name t = some (b.declare t name first).1 := by
  refine ⟨fun es hperm => ?_, fun before d _ _ => ?_, fun first before _ _ => ?_⟩
  · rw [errors_declareAll ht hempty, errors_declareAll ht hempty]
    exact Declaration.pairwise_iff_of_perm hperm hkinds
  · rw [declareAll_append]
    obtain ⟨reports, hreports, hone, -⟩ :=
      (b.declareAll t name before).exists_reports t name d.kind.excludes d
    refine ⟨reports, hreports, hone, ?_⟩
    rintro rfl
    have hsilent := (holds_declare ht hempty d).2
    exact List.append_right_eq_self.mp (hreports.symm.trans hsilent)
  · obtain ⟨merged, hholds⟩ := (holds_declare ht hempty first).1.declareAll before
    exact hholds.found

/-- The scope of a file without declarations. -/
def fileScope : Bindings := (({} : Bindings).newScope .sourceFile none 0).2

/-- An interface, a class and a function merge, but a type alias does not merge with the former
two. -/
theorem typeAlias_reported_in_any_order :
    let ds := [DeclarationKind.interface, .class_, .function false, .typeAlias].map fun kind =>
      (⟨0, kind, ⟨0, 1⟩, ⟨0, 1⟩, 0, false⟩ : Declaration)
    TableRef.IsOf fileScope (.locals 0) ∧ fileScope.find? "f" (.locals 0) = none ∧
      (∀ d ∈ ds, d.kind ∈ DeclarationKind.statements) ∧
        (fileScope.declareAll (.locals 0) "f" (ds.take 3)).errors = fileScope.errors ∧
          (fileScope.declareAll (.locals 0) "f" ds.reverse).errors ≠ fileScope.errors := by
  intro ds
  have hscope : TableRef.IsOf fileScope (.locals 0) := Nat.zero_lt_one
  have hempty : fileScope.find? "f" (.locals 0) = none := by decide +kernel
  have hkinds : ∀ d ∈ ds, d.kind ∈ DeclarationKind.statements := by decide
  have hreported : (fileScope.declareAll (.locals 0) "f" ds).errors ≠ fileScope.errors := by
    decide +kernel
  have hreversed := (duplicates_reported_in_any_order hscope hempty hkinds).1 ds.reverse
    ds.reverse_perm
  exact ⟨hscope, hempty, hkinds, by decide +kernel, fun h => hreported (hreversed.mp h)⟩

end Bindings
end Erasure

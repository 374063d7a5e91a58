import Erasure.Compile
import Erasure.Proofs.Text.Quoted

/-!
The names of the exports of a CommonJS module. Export lists, the assignments before the first
statement and references take a name as it is read; declarations take it as it is written. Both are
the same unless the declaration spells its name with escapes.

Patterns of exported variables become patterns of an assignment, whose targets are properties of the
object that holds the exports. An element that is a plain name is written with its property, which
only an object pattern can hold.
-/

namespace Erasure

/-- The values that a list without a module exports. -/
def Node.listedExports (n : Node) : List ExportSpecifier :=
  match n.form with
  | .exportStmt _ false (some (.named specifiers)) none _ =>
      specifiers.filter fun s => !s.isTypeOnly
  | _ => []

/-- What a name in an export list stands for. -/
def Bindings.listed? (b : Bindings) (s : ExportSpecifier) : Option SymbolId :=
  b.resolve? Bindings.rootScope s.source.text SymbolFlags.value

namespace Linkage

variable (f : SourceFile) (b : Bindings) (uses : ValueUses) (l : Linkage)

theorem addExports_eq (n : Node) : l.addExports b n = n.listedExports.foldl (addExport b) l := by
  obtain ⟨id, span, form⟩ := n
  cases form with
  | exportStmt modifiers isTypeOnly clause? specifier? attributes =>
      match isTypeOnly, clause?, specifier? with
      | false, some (.named _), none => rfl
      | false, some (.named _), some _ => rfl
      | false, some (.all _), _ => rfl
      | false, none, _ => rfl
      | true, _, _ => rfl
  | _ => rfl

theorem addReplacement_eq (name : Identifier) (text : String) :
    ∃ r, l.addReplacement b name text = { l with replacements := r } := by
  unfold addReplacement
  split
  · exact ⟨_, rfl⟩
  · exact ⟨_, rfl⟩

theorem addReplacements_eq (variableName : String) (default? : Option Identifier)
    (named : List ImportSpecifier) :
    ∃ r, l.addReplacements b variableName default? named = { l with replacements := r } := by
  have hnamed : ∀ k : Linkage, ∃ r, named.foldl (fun l s => l.addReplacement b s.name
      (Text.memberAccess variableName (importedName s))) k = { k with replacements := r } := by
    induction named with
    | nil => exact fun k => ⟨k.replacements, rfl⟩
    | cons s named ih =>
        intro k
        obtain ⟨r, hr⟩ := k.addReplacement_eq b s.name
          (Text.memberAccess variableName (importedName s))
        obtain ⟨t, ht⟩ := ih { k with replacements := r }
        exact ⟨t, by rw [List.foldl_cons, hr, ht]⟩
  unfold addReplacements
  cases default? with
  | none => exact hnamed l
  | some name =>
      obtain ⟨r, hr⟩ := l.addReplacement_eq b name (variableName ++ ".default")
      obtain ⟨t, ht⟩ := hnamed { l with replacements := r }
      exact ⟨t, by dsimp only; rw [hr, ht]⟩

/-- An import adds to what is required and to what names are replaced by. -/
theorem addImport_eq (node : NodeId) (clause : ImportClause) (specifier : StringLiteral) :
    ∃ requires replacements fresh, l.addImport f b uses node clause specifier =
      { l with requires := requires, replacements := replacements, fresh := fresh } := by
  unfold addImport
  dsimp only
  split
  · exact ⟨_, _, _, rfl⟩
  · split
    · obtain ⟨r, hr⟩ := l.addReplacements_eq b _ _ _
      rw [hr]
      exact ⟨_, _, _, rfl⟩
    · obtain ⟨r, hr⟩ :=
        (l.freshName f (FreshName.ofSpecifier specifier.value)).2.addReplacements_eq b _ _ _
      rw [hr]
      exact ⟨_, _, _, rfl⟩

/-- What a statement links adds no name of an export list. -/
theorem exportedAs_addStatement (n : Node) :
    (l.addStatement f b uses n).exportedAs = l.exportedAs := by
  unfold addStatement
  split
  · obtain ⟨_, _, _, himport⟩ := l.addImport_eq f b uses _ _ _
    rw [himport]
  · rfl
  · split <;> rfl
  · dsimp only
    split <;> rfl
  · rfl

/-- A name for a default export stays when another statement is linked. -/
theorem defaultName?_addStatement (h : l.defaultName?.isSome = true) (n : Node) :
    (l.addStatement f b uses n).defaultName?.isSome = true := by
  unfold addStatement
  split
  · obtain ⟨_, _, _, himport⟩ := l.addImport_eq f b uses _ _ _
    rw [himport]
    exact h
  · exact h
  · split
    · rfl
    · exact h
  · dsimp only
    split
    · rfl
    · exact h
  · exact h

/-- A name of a list adds to the names of exports only. -/
theorem addExport_eq (s : ExportSpecifier) :
    ∃ names, l.addExport b s = { l with exportedAs := names } := by
  unfold addExport
  split
  · split
    · exact ⟨_, rfl⟩
    · exact ⟨_, rfl⟩
  · exact ⟨_, rfl⟩

theorem foldl_addExport_eq (specifiers : List ExportSpecifier) :
    ∃ names, specifiers.foldl (addExport b) l = { l with exportedAs := names } := by
  induction specifiers generalizing l with
  | nil => exact ⟨l.exportedAs, rfl⟩
  | cons s specifiers ih =>
      obtain ⟨first, hfirst⟩ := l.addExport_eq b s
      obtain ⟨names, hnames⟩ := ih { l with exportedAs := first }
      exact ⟨names, by rw [List.foldl_cons, hfirst, hnames]⟩

/-- A name in a list is added to those of its symbol, unless that is imported. -/
theorem exportedAs_addExport (s : ExportSpecifier) (id : SymbolId) :
    (l.addExport b s).exportedAs.getD id [] =
      l.exportedAs.getD id [] ++
        if b.listed? s = some id ∧ l.replacements.contains id = false then [s.name.text]
        else [] := by
  unfold addExport Bindings.listed?
  cases b.resolve? Bindings.rootScope s.source.text SymbolFlags.value with
  | none => simp
  | some found =>
      by_cases hid : found = id
      · subst hid
        cases hreplaced : l.replacements.contains found <;> simp [hreplaced]
      · dsimp only
        split
        · simp [hid]
        · simp [hid, Std.TreeMap.getD_insert]

theorem foldl_addExport (specifiers : List ExportSpecifier) (id : SymbolId) :
    (specifiers.foldl (addExport b) l).exportedAs.getD id [] =
      l.exportedAs.getD id [] ++
        (specifiers.filter fun s =>
          b.listed? s = some id && !l.replacements.contains id).map fun s => s.name.text := by
  induction specifiers generalizing l with
  | nil => simp
  | cons s specifiers ih =>
      have hkept : (l.addExport b s).replacements = l.replacements := by
        obtain ⟨names, hnames⟩ := l.addExport_eq b s
        rw [hnames]
      rw [List.foldl_cons, ih (l.addExport b s), exportedAs_addExport, hkept,
        List.append_assoc, List.filter_cons]
      by_cases hadded : b.listed? s = some id ∧ l.replacements.contains id = false
      · simp only [hadded.1, hadded.2, and_self, if_true, decide_true,
          Bool.not_false, Bool.and_self,
          List.map_cons, List.cons_append, List.nil_append]
      · have hleft : (b.listed? s = some id && !l.replacements.contains id) = false := by
          simpa using hadded
        rw [if_neg hadded, hleft]
        rfl

/-- First the statements are linked, then the names of the lists are added. -/
theorem ofFile_eq : ofFile f b uses = (f.statements.flatMap Node.listedExports).foldl (addExport b)
    (f.statements.foldl (addStatement f b uses) {}) := by
  have hlists : ∀ k : Linkage, f.statements.foldl (addExports b) k =
      (f.statements.flatMap Node.listedExports).foldl (addExport b) k := by
    intro k
    rw [List.foldl_flatMap]
    congr 1
    funext k n
    exact k.addExports_eq b n
  exact hlists _

/-- The names under which a binding is exported by lists are those of the lists that stand for
it. -/
theorem exportedAs_ofFile (id : SymbolId) :
    (ofFile f b uses).exportedAs.getD id [] =
      ((f.statements.flatMap Node.listedExports).filter fun s =>
        b.listed? s = some id && !(ofFile f b uses).replacements.contains id).map
          fun s => s.name.text := by
  have hstatements : ∀ (ns : List Node) (k : Linkage),
      (ns.foldl (addStatement f b uses) k).exportedAs = k.exportedAs := by
    intro ns
    induction ns with
    | nil => exact fun _ => rfl
    | cons n ns ih => exact fun k => (ih _).trans (k.exportedAs_addStatement f b uses n)
  obtain ⟨names, hnames⟩ := foldl_addExport_eq b (f.statements.foldl (addStatement f b uses) {})
    (f.statements.flatMap Node.listedExports)
  rw [ofFile_eq, foldl_addExport, hstatements, hnames]
  rfl

/-- A default export without a name gets one. -/
theorem defaultName?_ofFile {n : Node} (hn : n ∈ f.statements) {ms : Modifiers} {func : Node}
    (hform : n.form = .functionStmt ms none func) (hdefault : ms.isDefault = true)
    (hbody : func.func.body.isSome = true) : (ofFile f b uses).defaultName?.isSome = true := by
  have hkept : ∀ (ns : List Node) (k : Linkage), k.defaultName?.isSome = true →
      (ns.foldl (addStatement f b uses) k).defaultName?.isSome = true := by
    intro ns
    induction ns with
    | nil => exact fun _ h => h
    | cons m ns ih => exact fun k h => ih _ (k.defaultName?_addStatement f b uses h m)
  have hmade : ∀ (ns : List Node) (k : Linkage), n ∈ ns →
      (ns.foldl (addStatement f b uses) k).defaultName?.isSome = true := by
    intro ns
    induction ns with
    | nil => exact fun _ h => nomatch h
    | cons m ns ih =>
        intro k hmem
        cases hmem with
        | head =>
            refine hkept ns _ ?_
            unfold addStatement
            rw [hform]
            dsimp only
            rw [hdefault, hbody]
            rfl
        | tail _ hmem => exact ih _ hmem
  obtain ⟨names, hnames⟩ := foldl_addExport_eq b (f.statements.foldl (addStatement f b uses) {})
    (f.statements.flatMap Node.listedExports)
  rw [ofFile_eq, hnames]
  exact hmade _ _ hn

end Linkage

/-- A place of a CommonJS module in which a name stands for a variable that the module exports. -/
structure PrintPlace.ReadsExport (p : PrintPlace) (name : String) (id : SymbolId) : Prop where
  isCommonJS : p.job.isCommonJS = true
  noMember : ∀ e ∈ p.currentEnum?, (p.job.bindings.symbol e).exports.contains name = false
  resolves : p.job.bindings.resolveWithScope? p.scope name SymbolFlags.value =
    some (Bindings.rootScope, id)
  noImport : p.job.linkage.replacements[id]? = none
  isExported : (p.job.bindings.symbol id).isExported = true
  isVariable : (p.job.bindings.symbol id).has (SymbolFlags.anyVariable ++ [.alias]) = true
  noParent : (p.job.bindings.symbol id).parent? = none

/-- References to an exported variable read the property with the name as it is read. -/
theorem PrintPlace.ReadsExport.replacement? {p : PrintPlace} {name : String} {id : SymbolId}
    (h : p.ReadsExport name id) :
    p.replacement? name = some (Text.memberAccess "exports" name) := by
  have hmember : (p.currentEnum?.map p.job.bindings.symbol).filter
      (fun e => e.exports.contains name) = none := by
    cases henum : p.currentEnum? with
    | none => rfl
    | some e => simpa using h.noMember e henum
  unfold PrintPlace.replacement?
  simp [hmember, h.resolves, PrintPlace.symbolReplacement?, h.noImport, h.isExported, h.isVariable,
    h.noParent, h.isCommonJS]

/-- Steps that write a text do the same only if it is the same text. -/
theorem Print.write_inj {a b : String} {p : PrintPlace} (h : write a p = write b p) : a = b := by
  have houtput : ∀ text : String,
      (write text p
        { writer := { atLineStart := false }, pending := [] }).2.writer.output = text := by
    intro text
    change (Writer.write { atLineStart := false } text).output = text
    unfold Writer.write
    split
    · rename_i hempty
      exact (String.isEmpty_iff.mp hempty).symm
    · simp
  rw [← houtput a, h, houtput b]

/-- The names under which an exported variable is known. Lists export it under the names that stand
in them. Its declaration sets the property that references read if it writes its name without
escapes, and only then. -/
theorem exported_variable_agrees_iff {f : SourceFile} {b : Bindings} {o : Options} {p : PrintPlace}
    (hjob : p.job = .ofFile f b o) {name : String} {id : SymbolId} (h : p.ReadsExport name id)
    {n : Node} (hn : n.form = .bindingIdentifier name) (print : Slot → Node → Print Bool) :
    p.job.linkage.exportedAs.getD id [] =
        ((f.statements.flatMap Node.listedExports).filter fun s => b.listed? s = some id).map
          (fun s => s.name.text) ∧
      ∃ text, p.replacement? name = some text ∧
        (Print.bindingTarget print (some "exports") n p = Print.write text p ↔
          f.written name n.span = name) := by
  have hlinkage : p.job.linkage = Linkage.ofFile f b p.job.uses := by
    have hcommon := h.isCommonJS
    rw [hjob] at hcommon ⊢
    exact if_pos hcommon
  have hfile : p.job.file = f := by rw [hjob]; rfl
  have hreplaced : p.job.linkage.replacements.contains id = false := by
    rw [Std.TreeMap.contains_eq_isSome_getElem?, h.noImport]
    rfl
  refine ⟨?_, _, h.replacement?, ?_⟩
  · rw [hlinkage] at hreplaced ⊢
    rw [Linkage.exportedAs_ofFile]
    simp [hreplaced]
  · have htarget : Print.bindingTarget print (some "exports") n p =
        Print.write (Text.memberAccess "exports" (f.written name n.span)) p := by
      unfold Print.bindingTarget
      rw [hn, ← hfile]
      rfl
    rw [htarget]
    exact ⟨fun heq => Text.memberAccess_inj (Print.write_inj heq), fun heq => by rw [heq]⟩

/-- A module that exports a variable where it is declared and by a list. -/
def listedVariable : SourceFile :=
  (parseSource "input.ts" "export const a = 1;\nexport \x7b a as b \x7d;").1

/-- The level of that module. -/
def listedVariablePlace : PrintPlace :=
  { job := .ofFile listedVariable listedVariable.bind { moduleKind := .commonJS }
    scope := Bindings.rootScope, target := .commonJS, currentEnum? := none }

theorem listedVariable_agrees :
    listedVariablePlace.job.linkage.exportedAs.getD 0 [] = ["b"] ∧
      ∃ text, listedVariablePlace.replacement? "a" = some text ∧
        Print.bindingTarget (Print.nodeWithin 0) (some "exports")
            ⟨0, ⟨13, 14⟩, .bindingIdentifier "a"⟩ listedVariablePlace =
          Print.write text listedVariablePlace := by
  have hplace : listedVariablePlace.job.isCommonJS = true ∧
      listedVariablePlace.job.bindings.resolveWithScope? listedVariablePlace.scope "a"
        SymbolFlags.value = some (Bindings.rootScope, 0) ∧
      listedVariablePlace.job.linkage.replacements[0]? = none ∧
      (listedVariablePlace.job.bindings.symbol 0).isExported = true ∧
      (listedVariablePlace.job.bindings.symbol 0).has (SymbolFlags.anyVariable ++ [.alias]) = true ∧
      (listedVariablePlace.job.bindings.symbol 0).parent? = none ∧
      listedVariable.written "a" ⟨13, 14⟩ = "a" ∧
      ((listedVariable.statements.flatMap Node.listedExports).filter fun s =>
        listedVariable.bind.listed? s = some 0).map (fun s => s.name.text) = ["b"] := by
    decide +kernel
  obtain ⟨hcommon, hresolves, himport, hexported, hvariable, hparent, hwritten, hlisted⟩ := hplace
  have hreads : listedVariablePlace.ReadsExport "a" 0 :=
    ⟨hcommon, fun e he => (Option.not_mem_none e he).elim, hresolves, himport, hexported, hvariable,
      hparent⟩
  have hjob : listedVariablePlace.job =
      .ofFile listedVariable listedVariable.bind { moduleKind := .commonJS } := rfl
  obtain ⟨hlists, text, htext, hagrees⟩ := exported_variable_agrees_iff hjob hreads
    (n := ⟨0, ⟨13, 14⟩, .bindingIdentifier "a"⟩) rfl (Print.nodeWithin 0)
  exact ⟨hlists.trans hlisted, text, htext, hagrees.mpr hwritten⟩

namespace PrintJob

variable (j : PrintJob)

/-- The names under which lists export a binding. -/
def listedNames (id : SymbolId) : List String := j.linkage.exportedAs.getD id []

/-- What a statement exports before the first statement runs: a function, by its names. -/
def hoistedExports (n : Node) : List (String × String) :=
  match n.form with
  | .functionStmt ms name? func =>
      if func.func.body.isNone || ms.isAmbient then []
      else match (name?.map Identifier.text).or j.linkage.defaultName? with
        | some name =>
            let own := if ms.isExport then [if ms.isDefault then "default" else name] else []
            let listed := (name?.bind fun i => j.bindings.symbolOf? i.id).map j.listedNames
            (own ++ listed.getD []).map fun exported => (exported, name)
        | none => []
  | _ => []

/-- What lists export of a statement once it has run: all that it declares. -/
def assignedExports (n : Node) : List (String × String) :=
  ((ModuleExports.declaredNodes n).filterMap j.bindings.symbolOf?).flatMap fun id =>
    (j.listedNames id).map fun exported => (exported, (j.bindings.symbol id).name)

/-- What a list exports that is read from another module. -/
def importedExports (n : Node) : List (String × String) :=
  n.listedExports.filterMap (Print.importedGetter? j)

end PrintJob

namespace Print

theorem forM_flatMap {α β : Type} (g : α → List β) (step : β → Print Unit) (as : List α) :
    (as.flatMap g).forM step = as.forM fun a => (g a).forM step := by
  induction as with
  | nil => rfl
  | cons a as ih =>
      rw [List.flatMap_cons]
      refine List.forM_append.trans ?_
      exact congrArg (fun rest => do (g a).forM step; rest) ih

/-- The step that sets a property of `exports`. -/
def setExport (e : String × String) : Print Unit :=
  write (Text.memberAccess "exports" e.1 ++ " = " ++ e.2 ++ ";")

theorem functionExports_run (n : Node) (p : PrintPlace) :
    functionExports n p = ((p.job.hoistedExports n).forM fun e => do
      setExport e
      line : Print Unit) p := by
  unfold functionExports PrintJob.hoistedExports
  change (match n.form with
    | .functionStmt ms name? func => _
    | _ => pure () : Print Unit) p = _
  cases n.form with
  | functionStmt ms name? func =>
    dsimp only
    split
    · rfl
    · cases (name?.map Identifier.text).or p.job.linkage.defaultName? with
      | none => rfl
      | some name =>
        have hlisted : ∀ id? : Option SymbolId,
            (id?.bind fun id => p.job.linkage.exportedAs[id]?).getD [] =
              (id?.map p.job.listedNames).getD [] := by
          rintro (_ | id)
          · rfl
          · exact Std.TreeMap.getD_eq_getD_getElem?.symm
        dsimp only
        rw [hlisted, List.forM_eq_forM, List.forM_eq_forM, List.forM_map]
        rfl
  | _ => rfl

theorem declaredExports_run (n : Node) (p : PrintPlace) :
    declaredExports n p = ((p.job.assignedExports n).forM fun e => do
      line
      setExport e : Print Unit) p := by
  unfold PrintJob.assignedExports
  rw [forM_flatMap]
  simp only [List.forM_eq_forM, List.forM_map]
  rfl

end Print

/-- The symbols of functions that a statement declares and that stay in the output. -/
def Node.printedFunction? (b : Bindings) (n : Node) : Option SymbolId :=
  match n.form with
  | .functionStmt ms name? func =>
      if func.func.body.isNone || ms.isAmbient then none
      else name?.bind fun i => b.symbolOf? i.id
  | _ => none

namespace PrintJob

variable (j : PrintJob)

/-- The names of the properties that a module sets for a statement, before the first one and once it
has run. -/
def exportNames (n : Node) : List String :=
  ModuleExports.names j.bindings j.options.preserveConstEnums n ++
    (j.hoistedExports n ++ j.assignedExports n ++ j.importedExports n).map Prod.fst

/-- Whether what a list exports has a value: functions have one where one of their declarations
stays in the output. -/
def HasValue (id : SymbolId) : Prop :=
  (j.bindings.symbol id).has [.function] = false ∨ j.linkage.replacements.contains id = true ∨
    ∃ m ∈ j.file.statements, m.printedFunction? j.bindings = some id ∨
      id ∈ (ModuleExports.declaredNodes m).filterMap j.bindings.symbolOf?

end PrintJob

/-- The names under which a statement passes values on, or exports what it declares and what has no
value before it runs. -/
def Node.valueExports (preserveConstEnums : Bool) (n : Node) : List String :=
  match n.form with
  | .exportStmt _ false (some (.all name)) (some _) _ => [name.text]
  | .exportStmt _ false (some (.named specifiers)) (some _) _ =>
      (specifiers.filter fun s => !s.isTypeOnly).map fun s => s.name.text
  | _ => ModuleExports.declaredNames preserveConstEnums n

/-- The name under which a statement exports a function where it is declared. -/
def Node.functionExport? (defaultName? : Option String) (n : Node) : Option String :=
  match n.form with
  | .functionStmt ms name? func =>
      if func.func.body.isNone || ms.isAmbient || !ms.isExport then none
      else ((name?.map Identifier.text).or defaultName?).map fun name =>
        if ms.isDefault then "default" else name
  | _ => none

namespace PrintJob

variable {f : SourceFile} {b : Bindings} {o : Options} {j : PrintJob}

theorem linkage_of_isCommonJS (hjob : j = .ofFile f b o) (hmodule : j.isCommonJS = true) :
    j.linkage = Linkage.ofFile f b j.uses := by
  rw [hjob] at hmodule ⊢
  exact if_pos hmodule

/-- The names of a binding are those of the lists that stand for it, unless it is imported. -/
theorem mem_listedNames_iff (hjob : j = .ofFile f b o) (hmodule : j.isCommonJS = true)
    {id : SymbolId} {name : String} : name ∈ j.listedNames id ↔
      j.linkage.replacements.contains id = false ∧
        ∃ n ∈ f.statements, ∃ s ∈ n.listedExports, b.listed? s = some id ∧ s.name.text = name := by
  unfold listedNames
  rw [linkage_of_isCommonJS hjob hmodule, Linkage.exportedAs_ofFile]
  simp only [List.mem_map, List.mem_filter, List.mem_flatMap, Bool.and_eq_true, decide_eq_true_eq,
    Bool.not_eq_true']
  constructor
  · rintro ⟨s, ⟨⟨n, hn, hs⟩, hlisted, hreplaced⟩, rfl⟩
    exact ⟨hreplaced, n, hn, s, hs, hlisted, rfl⟩
  · rintro ⟨hreplaced, n, hn, s, hs, hlisted, rfl⟩
    exact ⟨s, ⟨⟨n, hn, hs⟩, hlisted, hreplaced⟩, rfl⟩

theorem mem_importedExports_iff {n : Node} {name : String} :
    name ∈ (j.importedExports n).map Prod.fst ↔
      ∃ s ∈ n.listedExports, s.name.text = name ∧
        ∃ id, j.bindings.listed? s = some id ∧ j.linkage.replacements.contains id = true := by
  have hgetter : ∀ s : ExportSpecifier, (∃ text, Print.importedGetter? j s = some (name, text)) ↔
      s.name.text = name ∧
        ∃ id, j.bindings.listed? s = some id ∧ j.linkage.replacements.contains id = true := by
    intro s
    unfold Print.importedGetter? Bindings.listed?
    cases j.bindings.resolve? Bindings.rootScope s.source.text SymbolFlags.value with
    | none => simp
    | some id =>
        have hcontains : (∃ i, some id = some i ∧ j.linkage.replacements.contains i = true) ↔
            j.linkage.replacements[id]?.isSome = true := by
          rw [← Std.TreeMap.contains_eq_isSome_getElem?]
          exact ⟨fun ⟨_, heq, h⟩ => Option.some.inj heq ▸ h, fun h => ⟨id, rfl, h⟩⟩
        rw [hcontains]
        change (∃ text, (j.linkage.replacements[id]?.bind fun text => some (s.name.text, text)) =
          some (name, text)) ↔ _
        cases j.linkage.replacements[id]? <;> simp
  simp only [importedExports, List.mem_map, List.mem_filterMap]
  constructor
  · rintro ⟨⟨_, text⟩, ⟨s, hs, heq⟩, rfl⟩
    exact ⟨s, hs, (hgetter s).mp ⟨text, heq⟩⟩
  · rintro ⟨s, hs, h⟩
    obtain ⟨text, heq⟩ := (hgetter s).mpr h
    exact ⟨(name, text), ⟨s, hs, heq⟩, rfl⟩

theorem mem_names_iff {b : Bindings} {preserve : Bool} {n : Node} {name : String} :
    name ∈ ModuleExports.names b preserve n ↔
      name ∈ n.valueExports preserve ∨ ∃ s ∈ n.listedExports, s.name.text = name ∧
        ∃ id, b.listed? s = some id ∧ (b.symbol id).has [.function] = false := by
  have hlater : ∀ s : ExportSpecifier, ModuleExports.isAssignedLater b s = true ↔
      ∃ id, b.listed? s = some id ∧ (b.symbol id).has [.function] = false := by
    intro s
    unfold ModuleExports.isAssignedLater Bindings.listed?
    simp [Option.any_eq_true]
  obtain ⟨id, span, form⟩ := n
  cases form with
  | exportStmt modifiers isTypeOnly clause? specifier? attributes =>
      match isTypeOnly, clause?, specifier? with
      | false, some (.named specifiers), none =>
          change name ∈ ((specifiers.filter fun s => !s.isTypeOnly).filter
              (ModuleExports.isAssignedLater b)).map _ ↔ name ∈ [] ∨
            ∃ s ∈ specifiers.filter fun s => !s.isTypeOnly, _
          simp only [List.mem_map, List.mem_filter, hlater, List.not_mem_nil, false_or]
          constructor
          · rintro ⟨s, ⟨hs, hvalue⟩, rfl⟩
            exact ⟨s, hs, rfl, hvalue⟩
          · rintro ⟨s, hs, rfl, hvalue⟩
            exact ⟨s, ⟨hs, hvalue⟩, rfl⟩
      | false, some (.named _), some _ | false, some (.all _), some _ | false, some (.all _), none
      | false, none, _ | true, _, _ =>
          simp [ModuleExports.names, Node.valueExports, Node.listedExports]
  | _ => simp [ModuleExports.names, Node.valueExports, Node.listedExports]

/-- A function is exported before the first statement where it is declared and by lists. -/
theorem mem_hoistedExports_iff {n : Node} {name : String} :
    name ∈ (j.hoistedExports n).map Prod.fst ↔
      n.functionExport? j.linkage.defaultName? = some name ∨
        ∃ id, n.printedFunction? j.bindings = some id ∧ name ∈ j.listedNames id := by
  unfold hoistedExports Node.functionExport? Node.printedFunction?
  cases n.form with
  | functionStmt ms name? func =>
      dsimp only
      cases func.func.body.isNone || ms.isAmbient with
      | true => simp
      | false =>
          rw [if_neg Bool.false_ne_true, Bool.false_or, if_neg Bool.false_ne_true]
          cases name? with
          | none =>
              cases j.linkage.defaultName? <;> cases ms.isExport <;>
                simp [@eq_comm _ name]
          | some i =>
              have hlisted : ∀ id? : Option SymbolId, name ∈ (id?.map j.listedNames).getD [] ↔
                  ∃ id, id? = some id ∧ name ∈ j.listedNames id := by
                rintro (_ | id) <;> simp
              cases ms.isExport <;> simp [@eq_comm _ name, hlisted]
  | _ => simp

theorem mem_assignedExports_iff {n : Node} {name : String} :
    name ∈ (j.assignedExports n).map Prod.fst ↔
      ∃ id ∈ (ModuleExports.declaredNodes n).filterMap j.bindings.symbolOf?,
        name ∈ j.listedNames id := by
  simp only [assignedExports, List.map_flatMap, List.map_map, List.mem_flatMap]
  refine exists_congr fun id => and_congr_right fun _ => ?_
  simp

/-- A function without a name has one made for it, so that it is exported by default as well. -/
theorem functionExport?_default (hjob : j = .ofFile f b o) (hmodule : j.isCommonJS = true)
    {n : Node} (hn : n ∈ f.statements) {ms : Modifiers} {name? : Option Identifier} {func : Node}
    (hform : n.form = .functionStmt ms name? func) (hbody : func.func.body.isSome = true)
    (hambient : ms.isAmbient = false) (hexport : ms.isExport = true)
    (hdefault : ms.isDefault = true) :
    n.functionExport? j.linkage.defaultName? = some "default" := by
  have hname : ((name?.map Identifier.text).or j.linkage.defaultName?).isSome = true := by
    cases name? with
    | none =>
        rw [linkage_of_isCommonJS hjob hmodule]
        exact Linkage.defaultName?_ofFile f b j.uses hn hform hdefault hbody
    | some i => rfl
  obtain ⟨name, hname⟩ := Option.isSome_iff_exists.mp hname
  obtain ⟨body, hbody⟩ := Option.isSome_iff_exists.mp hbody
  unfold Node.functionExport?
  rw [hform]
  dsimp only
  rw [hname, hbody, hambient, hexport, hdefault]
  rfl

/-- The names of exports that are set before the first statement, after statements and by getters
are those of what the statements declare and pass on, and those of the lists whose symbols have a
value. A function that is only declared elsewhere is listed without having one. -/
theorem export_names_agree (hjob : j = .ofFile f b o) (hmodule : j.isCommonJS = true)
    (name : String) : (∃ n ∈ f.statements, name ∈ j.exportNames n) ↔
      ∃ n ∈ f.statements, name ∈ n.valueExports o.preserveConstEnums ∨
        n.functionExport? j.linkage.defaultName? = some name ∨
        ∃ s ∈ n.listedExports, s.name.text = name ∧
          ∃ id, b.listed? s = some id ∧ j.HasValue id := by
  have hb : j.bindings = b := by rw [hjob]; rfl
  have ho : j.options = o := by rw [hjob]; rfl
  have hf : j.file = f := by rw [hjob]; rfl
  have hlist (id : SymbolId) : name ∈ j.listedNames id ↔ _ := mem_listedNames_iff hjob hmodule
  unfold exportNames HasValue
  simp only [List.map_append, List.mem_append, mem_names_iff, mem_hoistedExports_iff,
    mem_assignedExports_iff, mem_importedExports_iff, hb, ho, hf]
  constructor
  · rintro ⟨n, hn, (hown | hlater) | ((hfunction | ⟨id, hid, hname⟩) | ⟨id, hid, hname⟩) | hgetter⟩
    · exact ⟨n, hn, .inl hown⟩
    · obtain ⟨s, hs, hname, id, hlisted, hvalue⟩ := hlater
      exact ⟨n, hn, .inr (.inr ⟨s, hs, hname, id, hlisted, .inl hvalue⟩)⟩
    · exact ⟨n, hn, .inr (.inl hfunction)⟩
    · obtain ⟨-, m, hm, s, hs, hlisted, hname⟩ := (hlist id).mp hname
      exact ⟨m, hm, .inr (.inr ⟨s, hs, hname, id, hlisted, .inr (.inr ⟨n, hn, .inl hid⟩)⟩)⟩
    · obtain ⟨-, m, hm, s, hs, hlisted, hname⟩ := (hlist id).mp hname
      exact ⟨m, hm, .inr (.inr ⟨s, hs, hname, id, hlisted, .inr (.inr ⟨n, hn, .inr hid⟩)⟩)⟩
    · obtain ⟨s, hs, hname, id, hlisted, hvalue⟩ := hgetter
      exact ⟨n, hn, .inr (.inr ⟨s, hs, hname, id, hlisted, .inr (.inl hvalue)⟩)⟩
  · rintro ⟨n, hn, hown | hfunction | ⟨s, hs, hname, id, hlisted, hvalue⟩⟩
    · exact ⟨n, hn, .inl (.inl hown)⟩
    · exact ⟨n, hn, .inr (.inl (.inl (.inl hfunction)))⟩
    · cases hreplaced : j.linkage.replacements.contains id with
      | true => exact ⟨n, hn, .inr (.inr ⟨s, hs, hname, id, hlisted, hreplaced⟩)⟩
      | false =>
          have hunder : name ∈ j.listedNames id :=
            (hlist id).mpr ⟨hreplaced, n, hn, s, hs, hlisted, hname⟩
          rcases hvalue with hvalue | himported | ⟨m, hm, hfunction | hdeclared⟩
          · exact ⟨n, hn, .inl (.inr ⟨s, hs, hname, id, hlisted, hvalue⟩)⟩
          · rw [hreplaced] at himported
            cases himported
          · exact ⟨m, hm, .inr (.inl (.inl (.inr ⟨id, hfunction, hunder⟩)))⟩
          · exact ⟨m, hm, .inr (.inl (.inr ⟨id, hdeclared, hunder⟩))⟩

end PrintJob

/-- A module that declares an exported variable with an escape in its name. -/
def escapedExport : String := "export const \\u0061 = 1;\na;"

/-- The declaration sets another property than the one that is made before it and read after it. -/
theorem escaped_export_disagrees :
    (compileWith { moduleKind := .commonJS } "input.ts" escapedExport).diagnostics = [] ∧
      (compileWith { moduleKind := .commonJS } "input.ts" escapedExport).output? =
        some ("\"use strict\";\n" ++
          "Object.defineProperty(exports, \"__esModule\", \x7b value: true \x7d);\n" ++
          "exports.a = void 0;\nexports[\"\\\\u0061\"] = 1;\nexports.a;\n") := by
  decide +kernel

/-- A namespace that exports the element of an array pattern. -/
def exportedElement : String := "namespace N \x7b export const [a] = []; \x7d"

/-- The element is written with a property, and the output is no program any more. -/
theorem element_written_with_property :
    (compile id "input.ts" exportedElement).diagnostics = [] ∧
      (compile id "input.ts" exportedElement).output? =
        some "var N;\n(function (N) \x7b\n    [a: N.a] = [];\n\x7d)(N || (N = \x7b\x7d));\n" ∧
      (parseSource "output.js"
        "var N;\n(function (N) \x7b\n    [a: N.a] = [];\n\x7d)(N || (N = \x7b\x7d));\n").2 ≠
          [] := by
  decide +kernel

end Erasure

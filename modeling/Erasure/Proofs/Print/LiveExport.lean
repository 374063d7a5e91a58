import Erasure.Proofs.Print.ExportedName
import Erasure.Proofs.Print.OptionalChain

/-!
Writes to the exported variables of a CommonJS module. A variable that is declared with `export` is
written as a property, so that its property is live. A variable that stands in an export list is
written as itself, and the properties that the list makes of it are set behind its declaration only.
-/

namespace Erasure

open ModuleExports in
/-- What declares nothing is followed by no assignment to a property. -/
theorem Print.declaredExports_eq_pure {n : Node} (h : declaredNodes n = []) (p : PrintPlace) :
    declaredExports n p = (pure () : Print Unit) p := by
  unfold declaredExports
  rw [h]
  rfl

namespace PrintPlace

/-- A place of a CommonJS module in which a name stands for a variable of the module. -/
structure ReadsVariable (p : PrintPlace) (name : String) (id : SymbolId) : Prop where
  isCommonJS : p.job.isCommonJS = true
  noMember : ∀ e ∈ p.currentEnum?, (p.job.bindings.symbol e).exports.contains name = false
  resolves : p.job.bindings.resolveWithScope? p.scope name SymbolFlags.value =
    some (Bindings.rootScope, id)
  noImport : p.job.linkage.replacements[id]? = none
  isVariable : (p.job.bindings.symbol id).has (SymbolFlags.anyVariable ++ [.alias]) = true
  noParent : (p.job.bindings.symbol id).parent? = none

variable {p : PrintPlace} {name : String} {id : SymbolId}

theorem ReadsVariable.readsExport (h : p.ReadsVariable name id)
    (hexported : (p.job.bindings.symbol id).isExported = true) : p.ReadsExport name id :=
  { h with isExported := hexported }

theorem ReadsVariable.replacement?_eq_none (h : p.ReadsVariable name id)
    (hlocal : (p.job.bindings.symbol id).isExported = false) : p.replacement? name = none := by
  have hmember : (p.currentEnum?.map p.job.bindings.symbol).filter
      (fun e => e.exports.contains name) = none := by
    cases henum : p.currentEnum? with
    | none => rfl
    | some e => simpa using h.noMember e henum
  unfold PrintPlace.replacement?
  simp [hmember, h.resolves, symbolReplacement?, h.noImport, hlocal]

end PrintPlace

namespace Print

/-- The target of a write is printed like a name that is read. -/
theorem operand_identifier (fuel : Nat) (required : Precedence) {n : Node} {name : String}
    (h : n.form = .identifier name) :
    operand (nodeWithin (fuel + 1)) required n = reference name n.span := by
  have hplain : n.form.insideErased? = none := by rw [h]; rfl
  have hconstant (p : PrintPlace) : p.constant? n = none := by
    simp [PrintPlace.constant?, PrintPlace.memberAccess?, h]
  change operandForm (nodeWithin fuel) required false n = _
  rw [operandForm_of_plain _ hplain hconstant, expressionForm, h]

end Print

open ModuleExports in
/-- A write sets a property of the exports, by its target or by what follows its statement, only if
the variable is declared with `export` and the property has its name. A property that an export list
makes of the variable keeps its value. -/
theorem write_sets_property_iff {p : PrintPlace} {name : String} {id : SymbolId}
    (h : p.ReadsVariable name id) {target statement : Node}
    (htarget : target.form = .identifier name)
    (hstatement : declaredNodes statement = []) {property : String}
    (hwritten : p.job.file.written name target.span ≠ Text.memberAccess "exports" property)
    (fuel : Nat) (required : Precedence) :
    (Print.operand (Print.nodeWithin (fuel + 1)) required target p =
          Print.write (Text.memberAccess "exports" property) p ∨
        Print.declaredExports statement p ≠ (pure () : Print Unit) p) ↔
      (p.job.bindings.symbol id).isExported = true ∧ name = property := by
  rw [Print.operand_identifier fuel required htarget,
    or_iff_left (not_not_intro (Print.declaredExports_eq_pure hstatement p))]
  change Print.write ((p.replacement? name).getD (p.job.file.written name target.span)) p = _ ↔ _
  cases hexported : (p.job.bindings.symbol id).isExported with
  | true =>
      rw [(h.readsExport hexported).replacement?, Option.getD_some]
      constructor
      · exact fun heq => ⟨rfl, Text.memberAccess_inj (Print.write_inj heq)⟩
      · rintro ⟨-, rfl⟩
        rfl
  | false =>
      rw [h.replacement?_eq_none hexported, Option.getD_none]
      constructor
      · exact fun heq => absurd (Print.write_inj heq) hwritten
      · exact fun heq => absurd heq.1 Bool.false_ne_true

/-- A module that exports a variable under another name and writes to it. -/
def writtenVariable : String := "let x = 1;\nexport \x7b x as y \x7d;\nx = 2;"

/-- The level of that module. -/
def writtenVariablePlace : PrintPlace :=
  { job := .ofFile (parseSource "input.ts" writtenVariable).1
      (parseSource "input.ts" writtenVariable).1.bind { moduleKind := .commonJS }
    scope := Bindings.rootScope, target := .commonJS, currentEnum? := none }

theorem writtenVariable_keeps_property :
    let target : Node := ⟨0, ⟨30, 31⟩, .identifier "x"⟩
    let assignment : Node :=
      ⟨0, ⟨30, 35⟩, .binary target .equals ⟨0, ⟨34, 35⟩, .numericLiteral "2"⟩ false false⟩
    writtenVariablePlace.job.linkage.exportedAs.getD 0 [] = ["y"] ∧
      ¬ (Print.operand (Print.nodeWithin 1) .leftHandSide target writtenVariablePlace =
            Print.write (Text.memberAccess "exports" "y") writtenVariablePlace ∨
          Print.declaredExports ⟨0, ⟨30, 36⟩, .exprStmt assignment⟩ writtenVariablePlace ≠
            (pure () : Print Unit) writtenVariablePlace) := by
  intro target assignment
  have hplace : writtenVariablePlace.job.isCommonJS = true ∧
      writtenVariablePlace.job.bindings.resolveWithScope? writtenVariablePlace.scope "x"
        SymbolFlags.value = some (Bindings.rootScope, 0) ∧
      writtenVariablePlace.job.linkage.replacements[0]? = none ∧
      (writtenVariablePlace.job.bindings.symbol 0).has
        (SymbolFlags.anyVariable ++ [.alias]) = true ∧
      (writtenVariablePlace.job.bindings.symbol 0).parent? = none ∧
      (writtenVariablePlace.job.bindings.symbol 0).isExported = false ∧
      writtenVariablePlace.job.linkage.exportedAs.getD 0 [] = ["y"] ∧
      writtenVariablePlace.job.file.written "x" ⟨30, 31⟩ ≠ Text.memberAccess "exports" "y" := by
    decide +kernel
  obtain ⟨hcommon, hresolves, himport, hvariable, hparent, hlocal, hlisted, hwritten⟩ := hplace
  have hreads : writtenVariablePlace.ReadsVariable "x" 0 :=
    ⟨hcommon, fun e he => (Option.not_mem_none e he).elim, hresolves, himport, hvariable, hparent⟩
  refine ⟨hlisted, fun hsets => ?_⟩
  have htarget : target.form = .identifier "x" := rfl
  have hexported := (write_sets_property_iff hreads htarget rfl hwritten 0 .leftHandSide).mp hsets
  exact Bool.false_ne_true (hlocal.symm.trans hexported.1)

/-- In a module without diagnostics the property keeps the first value of the variable. -/
theorem listed_variable_not_live :
    (compileWith { moduleKind := .commonJS } "input.ts" writtenVariable).diagnostics = [] ∧
      (compileWith { moduleKind := .commonJS } "input.ts" writtenVariable).output? =
        some ("\"use strict\";\n" ++
          "Object.defineProperty(exports, \"__esModule\", \x7b value: true \x7d);\n" ++
          "exports.y = void 0;\nlet x = 1;\nexports.y = x;\nx = 2;\n") := by
  decide +kernel

end Erasure

import Erasure.Proofs.Print.EmbeddedBody
import Erasure.Proofs.Scope.Placement

/-!
The variables that hold the objects of enums and namespaces. Of the declarations of one symbol that
declare a variable when the program runs, as the binder sees it, the first one declares the name.
The blocks of a namespace become functions, so a member that two of them declare has a variable in
one of them only.
-/

namespace Erasure

namespace Symbol

/-- The first declaration that declares a variable when the program runs. -/
def firstPrinted? (preserveConstEnums : Bool) (s : Symbol) : Option Declaration :=
  s.declarations.find? (Declaration.isPrinted preserveConstEnums)

/-- A declaration of a symbol declares a variable, and no two declarations of the symbol have the
same node. -/
structure Prints (s : Symbol) (preserveConstEnums : Bool) (d : Declaration) : Prop where
  nodup_nodes : (s.declarations.map Declaration.node).Nodup
  mem : d ∈ s.declarations
  isPrinted : d.isPrinted preserveConstEnums = true

end Symbol

theorem Declaration.isPlaced_of_isPrinted {preserveConstEnums : Bool} {d : Declaration}
    (h : d.isPrinted preserveConstEnums = true) : d.kind.isPlaced = true := by
  unfold Declaration.isPrinted at h
  cases hkind : d.kind <;> simp_all [DeclarationKind.isPlaced]

variable {preserveConstEnums : Bool}

theorem any_takeWhile_eq_false_iff {ds : List Declaration}
    (hnodes : (ds.map Declaration.node).Nodup)
    {d : Declaration} (hd : d ∈ ds) (hprinted : d.isPrinted preserveConstEnums = true) :
    (ds.takeWhile fun e => e.node ≠ d.node).any (Declaration.isPrinted preserveConstEnums) = false ↔
      ds.find? (Declaration.isPrinted preserveConstEnums) = some d := by
  induction ds with
  | nil => cases hd
  | cons e ds ih =>
      obtain ⟨hnew, hnodes⟩ := List.nodup_cons.mp hnodes
      rcases List.mem_cons.mp hd with rfl | hd
      · simp [hprinted]
      · have hne : e.node ≠ d.node := fun heq => hnew (List.mem_map.mpr ⟨d, hd, heq.symm⟩)
        have hne' : e ≠ d := fun heq => hne (congrArg Declaration.node heq)
        rw [List.takeWhile_cons_of_pos (by simpa using hne), List.any_cons, List.find?_cons]
        cases he : e.isPrinted preserveConstEnums with
        | true => simp [hne']
        | false => simpa using ih hnodes hd

namespace Symbol

variable {s : Symbol} {d : Declaration}

/-- The variable of an object is declared by the first printed declaration. -/
theorem Prints.isDeclaredBefore_eq_false_iff (h : s.Prints preserveConstEnums d) :
    s.isDeclaredBefore preserveConstEnums d.node = false ↔
      s.firstPrinted? preserveConstEnums = some d :=
  any_takeWhile_eq_false_iff h.nodup_nodes h.mem h.isPrinted

theorem Prints.exists_first (h : s.Prints preserveConstEnums d) :
    ∃ e, s.Prints preserveConstEnums e ∧ s.firstPrinted? preserveConstEnums = some e := by
  cases hfirst : s.firstPrinted? preserveConstEnums with
  | none => exact absurd h.isPrinted (List.find?_eq_none.mp hfirst d h.mem)
  | some e =>
      exact ⟨e, ⟨h.nodup_nodes, List.mem_of_find?_eq_some hfirst, List.find?_some hfirst⟩, rfl⟩

end Symbol

/-- The variable of an object is written for the first of its declarations only. -/
theorem Print.objectVariable_eq (p : PrintPlace) {owner : SymbolId} {d : Declaration}
    (h : (p.job.bindings.symbol owner).Prints p.job.options.preserveConstEnums d) (name : String)
    (isExported : Bool) :
    objectVariable owner d.node name isExported p =
      (if (p.job.bindings.symbol owner).firstPrinted? p.job.options.preserveConstEnums = some d then
        do objectDeclaration name isExported; line
      else pure () : Print Unit) p := by
  have hdeclares : declaresObject p (some owner) d.node = true ↔
      (p.job.bindings.symbol owner).firstPrinted? p.job.options.preserveConstEnums = some d := by
    rw [← h.isDeclaredBefore_eq_false_iff]
    exact Iff.of_eq (Bool.not_eq_true' _)
  funext s
  rw [objectVariable_run]
  simp only [hdeclares]

/-- The declarations of a symbol that is no member of a namespace stand in one scope, and the
variable of their object is written for one of them. -/
theorem Print.objectVariable_written_once {f : SourceFile} {j : PrintJob}
    (hbindings : j.bindings = f.bind) {owner : SymbolId} {d : Declaration}
    (h : (j.bindings.symbol owner).Prints j.options.preserveConstEnums d)
    (hparent : (j.bindings.symbol owner).parent? = none) :
    ∃ e, (j.bindings.symbol owner).Prints j.options.preserveConstEnums e ∧ e.scope = d.scope ∧
      ∀ e', (j.bindings.symbol owner).Prints j.options.preserveConstEnums e' →
        ∀ p : PrintPlace, p.job = j → ∀ (name : String) (isExported : Bool),
          objectVariable owner e'.node name isExported p =
            (if e' = e then do objectDeclaration name isExported; line
            else pure () : Print Unit) p := by
  obtain ⟨e, he, hfirst⟩ := h.exists_first
  refine ⟨e, he, ?_, fun e' he' p hp name isExported => ?_⟩
  · rw [hbindings] at he h hparent
    exact Bindings.scope_eq_of_mem_declarations f hparent he.mem h.mem
      (Declaration.isPlaced_of_isPrinted he.isPrinted)
      (Declaration.isPlaced_of_isPrinted h.isPrinted)
  · subst hp
    rw [objectVariable_eq p he', hfirst]
    simp only [Option.some_inj, eq_comm]

/-- A namespace whose second block extends a member of the first one. -/
def extendedMember : String := "namespace A.B \x7b 0; \x7d\nnamespace A.B \x7b 0; \x7d"

/-- The second block assigns the variable of the member without declaring it. -/
theorem extended_member_undeclared :
    (compile id "input.ts" extendedMember).diagnostics = [] ∧
      (compile id "input.ts" extendedMember).output? =
        some ("var A;\n(function (A) \x7b\n    let B;\n    (function (B) \x7b\n        0;\n" ++
          "    \x7d)(B = A.B || (A.B = \x7b\x7d));\n\x7d)(A || (A = \x7b\x7d));\n" ++
          "(function (A) \x7b\n    (function (B) \x7b\n        0;\n" ++
          "    \x7d)(B = A.B || (A.B = \x7b\x7d));\n\x7d)(A || (A = \x7b\x7d));\n") := by
  decide +kernel

/-- A namespace that calls in its second block what it declares in the first one. -/
def mergedBlocks : String :=
  "namespace N \x7b export function f() \x7b \x7d \x7d\nnamespace N \x7b f; \x7d"

theorem member_of_other_block_unqualified :
    (compile id "input.ts" mergedBlocks).diagnostics = [] ∧
      (compile id "input.ts" mergedBlocks).output? =
        some ("var N;\n(function (N) \x7b\n    function f() \x7b \x7d\n    N.f = f;\n" ++
          "\x7d)(N || (N = \x7b\x7d));\n(function (N) \x7b\n    f;\n" ++
          "\x7d)(N || (N = \x7b\x7d));\n") := by
  decide +kernel

end Erasure

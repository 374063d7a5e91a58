import Erasure.Print.Lowered
import Erasure.Print.Module
import Erasure.Proofs.Print.Composed.Functions

/-!
Enums, namespaces, imports and exports are printed by composed steps, given that the nodes below
them are. Whether they leave anything is settled by the place.
-/

namespace Erasure.Print

theorem Composed.objectVariable (owner : SymbolId) (node : NodeId) (name : String)
    (isExported : Bool) : Composed (objectVariable owner node name isExported) := by
  refine job (fun j => target fun t => ite ?_ unit) fun _ => rfl
  exact .when (write _) ((write _).seq line)

theorem Voiced.objectFiller (name : String) (isExported : Bool) {step : Print Unit}
    (h : Composed step) : Voiced (objectFiller name isExported step) := by
  refine .after (.write _) fun _ => ?_
  refine .after (.indented (Composed.line.seq h)) fun _ => .after .line fun _ => ?_
  refine .ask (fun p => .write ?_) fun _ => rfl
  simp

section
variable {print : Slot → Node → Print Bool} (hprint : ComposedNodes print)
include hprint

theorem Voiced.enumMember (owner : SymbolId) (enumName : String) (n key : Node)
    (initial? : Option Node) : Voiced (enumMember print owner enumName n key initial?) := by
  refine .job (fun j => ?_) fun _ => rfl
  split
  · exact .write (by simp)
  · exact .write (by simp)
  · refine .after (.write _) fun _ => ?_
    split
    · refine .after (.withEnum owner (.value hprint _)) fun _ => .write ?_
      simp
    · refine .after (.write _) fun _ => .write ?_
      simp

theorem Composed.enumMembers (owner : SymbolId) (enumName : String) (members : List Node) :
    Composed (enumMembers print owner enumName members) := by
  refine forM members fun n => ?_
  split
  · refine ((Voiced.enumMember hprint owner enumName n _ _).settled.commented _).bind fun _ => ?_
    exact ite line unit
  · exact unit

theorem Settled.enumDeclaration (ms : Modifiers) (name : Identifier) (members : List Node) :
    Settled (enumDeclaration print ms name members) := by
  refine job (fun j => ite nothing ?_) fun _ => rfl
  split
  · refine (Voiced.after (.objectVariable _ _ _ _) fun _ => ?_).settled
    exact .objectFiller _ _ (.enumMembers hprint _ _ _)
  · exact nothing

theorem Composed.namespaceBody (body? : Option Node) : Composed (namespaceBody print body?) := by
  refine option body? fun body => ?_
  split
  · exact (statementList hprint _).seq (closingComments _)
  · exact (discard (hprint _ body)).seq line

theorem Settled.namespaceDeclaration (n : Node) (isExported : Bool) :
    Settled (namespaceDeclaration print n isExported) := by
  refine job (fun j => ?_) fun _ => rfl
  split
  · refine ite ?_ nothing
    split
    · refine (Voiced.after (.objectVariable _ _ _ _) fun _ => ?_).settled
      exact .objectFiller _ _ (.inScopeOf _ (.withTarget _ (.namespaceBody hprint _)))
    · exact nothing
  · exact nothing

theorem Settled.moduleStatement (n : Node) : Settled (moduleStatement print n) := by
  unfold Print.moduleStatement
  split
  · exact namespaceDeclaration hprint n _
  · exact nothing

end

theorem Composed.bracedList {α : Type} {step : α → Print Unit} (h : ∀ a, Composed (step a))
    (as : List α) : Composed (bracedList step as) :=
  ite (write _) ((write _).seq ((commaSeparated as h).seq (write _)))

theorem Composed.renamed (property? : Option ExportName) : Composed (renamed property?) :=
  option property? fun _ => file (fun _ => write _) fun _ => rfl

theorem Composed.importSpecifier (s : ImportSpecifier) : Composed (importSpecifier s) :=
  (renamed _).seq (identifier _)

theorem Composed.exportSpecifier (s : ExportSpecifier) : Composed (exportSpecifier s) :=
  (renamed _).seq (file (fun _ => write _) fun _ => rfl)

theorem Composed.importBindings (hasDefault : Bool) (bs : ImportBindings) :
    Composed (importBindings hasDefault bs) := by
  unfold Print.importBindings
  split
  · exact .when (write _) ((write _).seq (identifier _))
  · exact .when (write _) (bracedList importSpecifier _)

theorem Voiced.importClause (kept : KeptImport) : Voiced (importClause kept) := by
  refine (write (by decide)).seq ((Composed.option _ .identifier).seq ?_)
  exact (Composed.option _ (.importBindings _)).seq (.write _)

theorem Settled.requiredImport (n : Node) (clause? : Option ImportClause)
    (specifier : StringLiteral) : Settled (requiredImport n clause? specifier) := by
  refine job (fun j => ?_) fun _ => rfl
  split
  · exact (Voiced.write (by simp)).settled
  · refine option _ fun name => .write ?_
    simp

section
variable {print : Slot → Node → Print Bool} (hprint : ComposedNodes print)
include hprint

theorem Composed.importAttribute (n : Node) : Composed (importAttribute print n) := by
  unfold Print.importAttribute
  split
  · exact (write _).seq (value hprint _)
  · exact unit

theorem Composed.importAttributes (n : Node) : Composed (importAttributes print n) := by
  unfold Print.importAttributes
  split
  · exact (write _).seq (bracedList (importAttribute hprint) _)
  · exact unit

theorem Composed.moduleSpecifier (specifier : StringLiteral) (attributes? : Option Node) :
    Composed (moduleSpecifier print specifier attributes?) := by
  refine file (fun f => (write _).seq (.seq ?_ (write _))) fun _ => rfl
  exact option attributes? (importAttributes hprint)

theorem Settled.importDeclaration (n : Node) (clause? : Option ImportClause)
    (specifier : StringLiteral) (attributes? : Option Node) :
    Settled (importDeclaration print n clause? specifier attributes?) := by
  refine job (fun j => ite (requiredImport n clause? specifier) ?_) fun _ => rfl
  split
  · exact ((Voiced.write (by decide)).seq (.moduleSpecifier hprint _ _)).settled
  · split
    · exact ((Voiced.importClause _).seq (.moduleSpecifier hprint _ _)).settled
    · exact nothing

end

theorem Composed.entityName (reference : EntityName) : Composed (entityName reference) := by
  unfold Print.entityName
  split
  · exact unit
  · exact (Composed.reference _ _).seq (forM _ fun i => (write _).seq (identifier i))

theorem Settled.requireAssignment (name : Identifier) (specifier : StringLiteral)
    (isExported : Bool) : Settled (requireAssignment name specifier isExported) := by
  refine job (fun j => ite (Voiced.write ?_).settled (ite (Voiced.write ?_).settled nothing))
    fun _ => rfl
  all_goals simp

theorem Settled.importAssignment (isTypeOnly : Bool) (name : Identifier)
    (reference : ModuleReference) (isExported : Bool) :
    Settled (importAssignment isTypeOnly name reference isExported) := by
  refine job (fun j => ite nothing ?_) fun _ => rfl
  split
  · exact requireAssignment _ _ _
  · refine ask (fun p => ite (target fun t => Voiced.settled (.seq (.write ?_) ?_)) nothing)
      fun _ => rfl
    · simp
    · exact (Composed.entityName _).seq (.write _)

theorem Voiced.exportGetter (name source : String) : Voiced (exportGetter name source) :=
  .write (by simp)

theorem Settled.requiredExports (n : Node) (specifiers : List ExportSpecifier)
    (specifier : StringLiteral) : Settled (requiredExports n specifiers specifier) := by
  refine job (fun j => option _ fun name => .seq (.write ?_) (.forM _ fun s => ?_)) fun _ => rfl
  · simp
  · exact Composed.line.seq (Voiced.exportGetter _ _).composed

theorem Settled.importedExports (specifiers : List ExportSpecifier) :
    Settled (importedExports specifiers) := by
  refine job (fun j => ?_) fun _ => rfl
  dsimp only
  split
  · exact nothing
  · refine ((Voiced.exportGetter _ _).seq (.forM _ fun g => ?_)).settled
    exact Composed.line.seq (Voiced.exportGetter _ _).composed

section
variable {print : Slot → Node → Print Bool} (hprint : ComposedNodes print)
include hprint

theorem Settled.exportList (specifiers : List ExportSpecifier)
    (specifier? : Option StringLiteral) (attributes? : Option Node) :
    Settled (exportList print specifiers specifier? attributes?) := by
  refine ask (fun p => ite nothing (Voiced.seq (.write (by decide)) ?_).settled) fun _ => rfl
  refine (Composed.bracedList .exportSpecifier _).seq ?_
  cases specifier? with
  | none => exact .write _
  | some specifier => exact (Composed.write _).seq (.moduleSpecifier hprint _ _)

theorem Settled.exportDeclaration (n : Node) (isTypeOnly : Bool) (clause? : Option ExportClause)
    (specifier? : Option StringLiteral) (attributes? : Option Node) :
    Settled (exportDeclaration print n isTypeOnly clause? specifier? attributes?) := by
  refine job (fun j => ite nothing ?_) fun _ => rfl
  split
  · refine ite (Voiced.write ?_).settled (Voiced.seq (.write (by decide)) ?_).settled
    · simp
    · exact .moduleSpecifier hprint _ _
  · refine ite (Voiced.write ?_).settled (Voiced.seq (.write ?_) ?_).settled
    · simp
    · simp
    · exact .moduleSpecifier hprint _ _
  · refine ite ?_ (exportList hprint _ _ _)
    split
    · exact requiredExports n _ _
    · exact importedExports _
  · exact nothing

theorem Settled.exportAssignment (isEquals : Bool) (n : Node) :
    Settled (exportAssignment print isEquals n) := by
  have hexported (text : String) (h : text ≠ "") : Settled (do
      write text
      value print n
      write ";") := ((Voiced.write h).seq ((Composed.value hprint n).seq (.write _))).settled
  refine ask (fun p => ?_) fun _ => rfl
  dsimp only
  refine ite (ite (hexported _ (by decide)) nothing) (ite nothing (hexported _ ?_))
  split <;> decide

end

theorem Composed.declaredExports (n : Node) : Composed (declaredExports n) :=
  job (fun _ => forM _ fun _ => forM _ fun _ => line.seq (write _)) fun _ => rfl

theorem Composed.functionExports (n : Node) : Composed (functionExports n) := by
  refine job (fun j => ?_) fun _ => rfl
  split
  · refine ite unit ?_
    split
    · exact forM _ fun exported => (write _).seq line
    · exact unit
  · exact unit

theorem Composed.commonJSPreamble (statements : List Node) :
    Composed (commonJSPreamble statements) := by
  have hexported (j : PrintJob) : Composed (do
      let names := (statements.flatMap
        (ModuleExports.names j.bindings j.options.preserveConstEnums)).eraseDups
      if !names.isEmpty then
        Print.write ("".intercalate
          (names.reverse.map fun n => Text.memberAccess "exports" n ++ " = ") ++ "void 0;")
        Print.line
      statements.forM Print.functionExports) :=
    ite ((write _).seq (line.seq (forM _ functionExports))) (forM _ functionExports)
  refine job (fun j => .when (forM _ fun _ => (write _).seq line) ?_) fun _ => rfl
  exact ite ((write _).seq (line.seq (hexported j))) (hexported j)

end Erasure.Print

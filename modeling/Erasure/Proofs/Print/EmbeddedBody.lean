import Erasure.Compile
import Erasure.Proofs.Print.Surroundings

/-!
Bodies that are single statements: those of conditions, loops and labels. A body that is erased
leaves an empty statement, and any other is printed as a statement of its own kind, except for those
that are lowered to more than one. Of these only the first stands where the body does.
-/

namespace Erasure
namespace Print

/-- Steps on lines of their own. -/
def lines : List (Print Unit) → Print Unit
  | [] => pure ()
  | step :: steps => do
      step
      steps.forM fun step => do line; step

section
variable (print : Slot → Node → Print Bool) (p : PrintPlace)

/-- The declaration of the variable of an object. -/
def objectDeclaration (name : String) (isExported : Bool) : Print Unit := do
  let t ← target
  if isExported && t = .topLevel then write "export "
  write (t.keyword ++ " " ++ name ++ ";")

/-- Whether a declaration is the first one that needs the variable of an object. -/
def declaresObject (owner? : Option SymbolId) (node : NodeId) : Bool :=
  owner?.any fun owner =>
    !(p.job.bindings.symbol owner).isDeclaredBefore p.job.options.preserveConstEnums node

/-- A variable that holds an object, unless it was declared before, and the call that fills it. -/
def objectParts (owner? : Option SymbolId) (node : NodeId) (name : String) (isExported : Bool)
    (step : SymbolId → Print Unit) : List (Print Unit) :=
  let filler := owner?.toList.map fun owner => objectFiller name isExported (step owner)
  if declaresObject p owner? node then objectDeclaration name isExported :: filler else filler

def enumParts (ms : Modifiers) (name : Identifier) (members : List Node) : List (Print Unit) :=
  if ms.isAmbient || (ms.has .isConst && !p.job.options.preserveConstEnums) then []
  else
    let text := p.job.file.identifierText name
    objectParts p (p.job.bindings.symbolOf? name.id) name.id text ms.isExport fun owner =>
      enumMembers print owner text members

def namespaceParts (n : Node) : List (Print Unit) :=
  match n.form with
  | .moduleDeclaration ms (.identifier name) body? false =>
      if n.isInstantiated p.job.options.preserveConstEnums then
        let text := p.job.file.identifierText name
        objectParts p (p.job.bindings.symbolOf? n.id) name.id text ms.isExport fun _ =>
          inScopeOf n.id (withTarget (.namespace_ text) (namespaceBody print body?))
      else []
  | _ => []

/-- The name that a class is declared with. -/
def classNameAt? (c : ClassLike) : Option String :=
  (declaredName? c.name c.modifiers.isExport p { pending := [] }).1

def classHead (n : Node) (name? : Option String) : Print Unit := do
  n.classLike.decorators.forM fun d => do
    decorator print d
    line
  exportKeywords n.classLike.modifiers
  classBody print n name? name?.isSome

/-- The static fields that have moved behind a class. -/
def movedFields (c : ClassLike) : List (Node × Node) :=
  if p.job.options.useDefineForClassFields then []
  else (c.members.filterMap ClassMember.ofNode?).filterMap ClassMember.staticAssignment?

def classParts (n : Node) : List (Print Unit) :=
  let c := n.classLike
  if c.modifiers.isAmbient then []
  else
    let name? := classNameAt? p c
    classHead print n name? :: name?.toList.flatMap fun name =>
      (movedFields p c).map fun field => memberAssignment print name field.1 field.2

def requiredParts (n : Node) (specifiers : List ExportSpecifier) (specifier : StringLiteral) :
    List (Print Unit) :=
  match p.job.linkage.requires[n.id]? with
  | some name =>
      write ("var " ++ name ++ " = require(" ++ p.job.file.literalText specifier ++ ");") ::
        (specifiers.filter fun s => !s.isTypeOnly).map fun s =>
          exportGetter s.name.text (Text.memberAccess name s.source.text)
  | none => []

def importedParts (specifiers : List ExportSpecifier) : List (Print Unit) :=
  ((specifiers.filter fun s => !s.isTypeOnly).filterMap (importedGetter? p.job)).map fun g =>
    exportGetter g.1 g.2

/-- The statements that a statement is printed as, where exports are not properties of an
object. -/
def statementParts (n : Node) : List (Print Unit) :=
  match n.form with
  | .enumStmt ms name members => enumParts print p ms name members
  | .moduleStmt declaration => namespaceParts print p declaration
  | .classStmt cls => classParts print p cls
  | .exportStmt _ false (some (.named specifiers)) specifier? _ =>
      if p.job.isCommonJS then
        match specifier? with
        | some specifier => requiredParts p n specifiers specifier
        | none => importedParts p specifiers
      else [statementForm print n]
  | _ => [statementForm print n]

variable {print p} (s : PrintState)

theorem lines_cons (step : Print Unit) (steps : List (Print Unit)) :
    lines (step :: steps) p s = (steps.forM fun step => do line; step) p (step p s).2 := rfl

theorem lines_map {α : Type} (step : Print Unit) (f : α → Print Unit) (as : List α) :
    lines (step :: as.map f) p s = (as.forM fun a => do line; f a) p (step p s).2 := by
  rw [lines_cons]
  generalize (step p s).2 = s'
  induction as generalizing s' with
  | nil => rfl
  | cons a as ih => exact ih _

theorem objectVariable_run (owner : SymbolId) (node : NodeId) (name : String) (isExported : Bool) :
    objectVariable owner node name isExported p s =
      (if declaresObject p (some owner) node then do objectDeclaration name isExported; line
      else pure () : Print Unit) p s := by
  unfold objectVariable objectDeclaration
  change (if declaresObject p (some owner) node = true then _ else _ : Print Unit) p s = _
  cases declaresObject p (some owner) node with
  | false => rfl
  | true =>
      change (if (isExported && decide (p.target = .topLevel)) = true then _ else _ : Print Unit)
        p s = ((if (isExported && decide (p.target = .topLevel)) = true then _ else _ :
          Print Unit) >>= fun _ => line) p s
      split <;> rfl

theorem object_eq_lines (owner : SymbolId) (node : NodeId) (name : String) (isExported : Bool)
    (step : SymbolId → Print Unit) :
    (do objectVariable owner node name isExported; objectFiller name isExported (step owner) :
      Print Unit) p s = lines (objectParts p (some owner) node name isExported step) p s := by
  rw [bind_run, objectVariable_run]
  unfold objectParts
  cases declaresObject p (some owner) node with
  | true | false => rfl

theorem enumDeclaration_eq_lines (ms : Modifiers) (name : Identifier) (members : List Node) :
    enumDeclaration print ms name members p s = lines (enumParts print p ms name members) p s := by
  unfold enumDeclaration enumParts
  change (if _ then _ else _ : Print Unit) p s = _
  split
  · rfl
  · cases p.job.bindings.symbolOf? name.id with
    | none => rfl
    | some owner =>
        exact object_eq_lines s owner name.id _ ms.isExport fun owner =>
          enumMembers print owner _ members

theorem moduleStatement_eq_lines (n : Node) :
    moduleStatement print n p s = lines (namespaceParts print p n) p s := by
  obtain ⟨id, span, form⟩ := n
  unfold moduleStatement namespaceDeclaration namespaceParts
  cases form with
  | moduleDeclaration ms name body? isGlobal =>
      cases name with
      | string _ => cases isGlobal <;> rfl
      | identifier name =>
          cases isGlobal with
          | true => rfl
          | false =>
              change (if _ then _ else _ : Print Unit) p s = _
              dsimp only
              split
              · cases p.job.bindings.symbolOf? id with
                | none => rfl
                | some owner => exact object_eq_lines s owner name.id _ ms.isExport fun _ => _
              · rfl
  | _ => rfl

theorem classExport?_of_container {t : ExportTarget} (ht : t.container? = none) (ms : Modifiers)
    (name : String) : classExport? t ms name = none := by
  have hne : t ≠ .commonJS := by
    rintro rfl
    cases ht
  unfold classExport?
  simp [ht, hne]

theorem classDeclaration_eq_lines (hp : p.target.container? = none) (n : Node) :
    classDeclaration print n p s = lines (classParts print p n) p s := by
  unfold classDeclaration classParts
  dsimp only
  change (if _ then _ else _ : Print Unit) p s = _
  split
  · rfl
  · have hname : ∀ s', declaredName? n.classLike.name n.classLike.modifiers.isExport p s' =
        (classNameAt? p n.classLike, s') := by
      intro s'
      rfl
    rw [bind_run, bind_run, bind_run, hname]
    generalize classNameAt? p n.classLike = name?
    cases name? with
    | none =>
        rw [Option.toList_none, List.flatMap_nil, lines_cons]
        dsimp only
        rw [bind_run]
        rfl
    | some name =>
        have hexport := classExport?_of_container hp n.classLike.modifiers name
        rw [Option.toList_some, List.flatMap_singleton, lines_map]
        dsimp only
        rw [bind_run]
        change (if _ then _ else _ : Print Unit) p _ = _
        unfold movedFields
        cases p.job.options.useDefineForClassFields with
        | true | false =>
            change ((classExport? p.target n.classLike.modifiers name).forM _ : Print Unit) p _ = _
            rw [hexport]
            rfl

theorem requiredExports_eq_lines (n : Node) (specifiers : List ExportSpecifier)
    (specifier : StringLiteral) :
    requiredExports n specifiers specifier p s =
      lines (requiredParts p n specifiers specifier) p s := by
  unfold requiredExports requiredParts
  rw [bind_run]
  change (p.job.linkage.requires[n.id]?.forM _ : Print Unit) p s = _
  cases p.job.linkage.requires[n.id]? with
  | none => rfl
  | some name =>
      dsimp only
      rw [lines_map]
      rfl

theorem importedExports_run (specifiers : List ExportSpecifier) :
    importedExports specifiers p s =
      (match (specifiers.filter fun s => !s.isTypeOnly).filterMap (importedGetter? p.job) with
      | [] => pure ()
      | first :: rest => do
          exportGetter first.1 first.2
          rest.forM fun g => do
            line
            exportGetter g.1 g.2 : Print Unit) p s :=
  rfl

theorem importedExports_eq_lines (specifiers : List ExportSpecifier) :
    importedExports specifiers p s = lines (importedParts p specifiers) p s := by
  rw [importedExports_run]
  unfold importedParts
  cases (specifiers.filter fun s => !s.isTypeOnly).filterMap (importedGetter? p.job) with
  | nil => rfl
  | cons first rest =>
      rw [List.map_cons, lines_map]
      rfl

theorem exportStatement_eq_lines (n : Node) (specifiers : List ExportSpecifier)
    (specifier? : Option StringLiteral) (attributes? : Option Node) :
    exportDeclaration print n false (some (.named specifiers)) specifier? attributes? p s =
      lines (if p.job.isCommonJS then
          match specifier? with
          | some specifier => requiredParts p n specifiers specifier
          | none => importedParts p specifiers
        else [exportDeclaration print n false (some (.named specifiers)) specifier? attributes?])
        p s := by
  cases hmodule : p.job.isCommonJS with
  | false => rfl
  | true =>
      have hcommonJS : exportDeclaration print n false (some (.named specifiers)) specifier?
          attributes? p s = (match specifier? with
            | some specifier => requiredExports n specifiers specifier
            | none => importedExports specifiers : Print Unit) p s := by
        unfold exportDeclaration
        rw [bind_run]
        exact congrArg (fun m : Print Unit => m p s) (if_pos hmodule)
      rw [hcommonJS, if_pos rfl]
      cases specifier? with
      | some specifier => exact requiredExports_eq_lines s n specifiers specifier
      | none => exact importedExports_eq_lines s specifiers

theorem statementForm_eq_lines (hp : p.target.container? = none) (n : Node) :
    statementForm print n p s = lines (statementParts print p n) p s := by
  obtain ⟨id, span, form⟩ := n
  cases form with
  | enumStmt ms name members => exact enumDeclaration_eq_lines s ms name members
  | moduleStmt declaration => exact moduleStatement_eq_lines s declaration
  | classStmt cls => exact classDeclaration_eq_lines s hp cls
  | exportStmt ms isTypeOnly clause? specifier? attributes? =>
      cases isTypeOnly with
      | true => rfl
      | false =>
          cases clause? with
          | none => rfl
          | some clause =>
              cases clause with
              | all name => rfl
              | named specifiers =>
                  exact exportStatement_eq_lines s _ specifiers specifier? attributes?
  | _ => rfl

/-- A body: an empty statement, if nothing is left of it. -/
def body (print : Slot → Node → Print Bool) (n : Node) : Print Unit := do
  if !(← commented n.span (lines (statementParts print (← read) n))) then write ";"

theorem commented_congr {span : Span} {m m' : Print Unit} (h : ∀ s, m p s = m' p s) :
    commented span m p s = commented span m' p s := by
  have hcoded : coded span m p s = coded span m' p s := congrArg Prod.snd (h _)
  rw [commented_run, commented_run, hcoded]

theorem statement_eq_lines (hp : p.target.container? = none) (n : Node) :
    statement print n p s = commented n.span (lines (statementParts print p n)) p s := by
  have hne : p.target ≠ .commonJS := by
    intro htarget
    rw [htarget] at hp
    cases hp
  have hform : commented n.span (statementForm print n) p s =
      commented n.span (lines (statementParts print p n)) p s :=
    commented_congr s fun s => statementForm_eq_lines s hp n
  unfold statement
  rw [bind_run, hform]
  change (if ((commented n.span (lines (statementParts print p n)) p s).1 &&
    decide (p.target = .commonJS)) = true then _ else _ : Print Bool) p _ = _
  rw [decide_eq_false hne, Bool.and_false, if_neg Bool.false_ne_true]
  rfl

theorem body_eq (print : Slot → Node → Print Bool) (hp : p.target.container? = none) (n : Node) :
    (do if !(← statement print n) then write ";" : Print Unit) p s = body print n p s := by
  rw [bind_run, statement_eq_lines s hp]
  rfl

/-- A body that is no block stands on a line of its own. -/
theorem embedded_eq (fuel : Nat) {n : Node} (hblock : n.form.isBlockStatement = false) :
    embedded (nodeWithin (fuel + 1)) n p s =
      (indented do line; withTarget .nested (body (nodeWithin fuel) n) : Print Unit) p s := by
  have hbody := fun s => body_eq s (p := { p with target := .nested }) (nodeWithin fuel) rfl n
  unfold embedded
  rw [hblock, if_neg Bool.false_ne_true]
  exact congrArg (fun r : Unit × PrintState => (r.1, { r.2 with writer := r.2.writer.dedent }))
    (hbody (line p { s with writer := s.writer.indent }).2)

/-- The body of a label stands behind it. -/
theorem labeledStatement_eq (hp : p.target.container? = none) (fuel : Nat) (label : Identifier)
    (n : Node) : labeledStatement (nodeWithin (fuel + 1)) label n p s =
      (do identifier label; write ": "; body (nodeWithin fuel) n : Print Unit) p s :=
  body_eq _ (nodeWithin fuel) hp n

/-- Whether a statement becomes more than one: it declares the variable of an object, has static
fields that have moved behind it, or lists more than one export that becomes a property. -/
def splits (p : PrintPlace) (n : Node) : Bool :=
  match n.form with
  | .enumStmt ms name _ =>
      !(ms.isAmbient || (ms.has .isConst && !p.job.options.preserveConstEnums)) &&
        declaresObject p (p.job.bindings.symbolOf? name.id) name.id
  | .moduleStmt declaration =>
      match declaration.form with
      | .moduleDeclaration _ (.identifier name) _ false =>
          declaration.isInstantiated p.job.options.preserveConstEnums &&
            declaresObject p (p.job.bindings.symbolOf? declaration.id) name.id
      | _ => false
  | .classStmt cls =>
      let c := cls.classLike
      !c.modifiers.isAmbient && (classNameAt? p c).isSome && !(movedFields p c).isEmpty
  | .exportStmt _ false (some (.named specifiers)) specifier? _ =>
      let values := specifiers.filter fun s => !s.isTypeOnly
      p.job.isCommonJS && match specifier? with
        | some _ => (p.job.linkage.requires[n.id]?).isSome && !values.isEmpty
        | none => decide (1 < (values.filterMap (importedGetter? p.job)).length)
  | _ => false

theorem one_lt_length_objectParts (owner? : Option SymbolId) (node : NodeId) (name : String)
    (isExported : Bool) (step : SymbolId → Print Unit) :
    1 < (objectParts p owner? node name isExported step).length ↔
      declaresObject p owner? node = true := by
  unfold objectParts
  cases owner? with
  | none => simp [declaresObject]
  | some owner =>
      cases declaresObject p (some owner) node with
      | true | false => simp

theorem one_lt_length_classParts (n : Node) :
    1 < (classParts print p n).length ↔
      (!n.classLike.modifiers.isAmbient && (classNameAt? p n.classLike).isSome &&
        !(movedFields p n.classLike).isEmpty) = true := by
  unfold classParts
  dsimp only
  cases n.classLike.modifiers.isAmbient with
  | true => simp
  | false =>
      cases classNameAt? p n.classLike with
      | none => simp
      | some name => simp [List.length_pos_iff]

theorem one_lt_length_requiredParts (n : Node) (specifiers : List ExportSpecifier)
    (specifier : StringLiteral) :
    1 < (requiredParts p n specifiers specifier).length ↔
      ((p.job.linkage.requires[n.id]?).isSome &&
        !(specifiers.filter fun s => !s.isTypeOnly).isEmpty) = true := by
  unfold requiredParts
  cases p.job.linkage.requires[n.id]? with
  | none => simp
  | some name =>
      rw [List.length_cons, List.length_map]
      simp [List.length_pos_iff]

theorem one_lt_length_statementParts (n : Node) :
    1 < (statementParts print p n).length ↔ splits p n = true := by
  unfold statementParts splits
  split
  · unfold enumParts
    split
    · rename_i herased
      simp [herased]
    · rename_i hkept
      rw [one_lt_length_objectParts, Bool.eq_false_of_not_eq_true hkept]
      simp
  · unfold namespaceParts
    split
    · rename_i declaration _ _ ms name body? _
      cases declaration.isInstantiated p.job.options.preserveConstEnums with
      | true => exact one_lt_length_objectParts _ _ _ _ _
      | false => simp
    · simp
  · exact one_lt_length_classParts _
  · rename_i specifiers specifier? _ _
    cases p.job.isCommonJS with
    | false => simp
    | true =>
        cases specifier? with
        | some specifier => exact one_lt_length_requiredParts n specifiers specifier
        | none => simp [importedParts]
  · simp

end

section
variable {print : Slot → Node → Print Bool} (hprint : ComposedNodes print) {p : PrintPlace}
  {step : Print Unit}

theorem voiced_of_mem_objectParts {owner? : Option SymbolId} {node : NodeId} {name : String}
    {isExported : Bool} {fill : SymbolId → Print Unit} (hfill : ∀ owner, Composed (fill owner))
    (h : step ∈ objectParts p owner? node name isExported fill) : Voiced step := by
  have hfiller : ∀ step ∈ owner?.toList.map fun owner => objectFiller name isExported (fill owner),
      Voiced step := by
    intro step hstep
    obtain ⟨owner, -, rfl⟩ := List.mem_map.mp hstep
    exact .objectFiller name isExported (hfill owner)
  unfold objectParts at h
  dsimp only at h
  split at h
  · rcases List.mem_cons.mp h with rfl | h
    · refine .after (m := target) (.target fun _ => .pure _) fun t => .when (.write _) (.write ?_)
      simp
    · exact hfiller step h
  · exact hfiller step h

theorem voiced_of_mem_requiredParts {n : Node} {specifiers : List ExportSpecifier}
    {specifier : StringLiteral} (h : step ∈ requiredParts p n specifiers specifier) :
    Voiced step := by
  unfold requiredParts at h
  split at h
  · rcases List.mem_cons.mp h with rfl | h
    · exact .write (by simp)
    · obtain ⟨s, -, rfl⟩ := List.mem_map.mp h
      exact .exportGetter _ _
  · cases h

theorem voiced_of_mem_importedParts {specifiers : List ExportSpecifier}
    (h : step ∈ importedParts p specifiers) : Voiced step := by
  obtain ⟨getter, -, rfl⟩ := List.mem_map.mp h
  exact .exportGetter _ _

include hprint

theorem voiced_of_mem_enumParts {ms : Modifiers} {name : Identifier} {members : List Node}
    (h : step ∈ enumParts print p ms name members) : Voiced step := by
  unfold enumParts at h
  split at h
  · cases h
  · exact voiced_of_mem_objectParts (fun owner => .enumMembers hprint owner _ members) h

theorem voiced_of_mem_namespaceParts {n : Node} (h : step ∈ namespaceParts print p n) :
    Voiced step := by
  unfold namespaceParts at h
  split at h
  · split at h
    · refine voiced_of_mem_objectParts (fun _ => .inScopeOf _ (.withTarget _ ?_)) h
      exact .namespaceBody hprint _
    · cases h
  · cases h

theorem voiced_of_mem_classParts {n : Node} (h : step ∈ classParts print p n) : Voiced step := by
  unfold classParts at h
  dsimp only at h
  split at h
  · cases h
  · rcases List.mem_cons.mp h with rfl | h
    · refine .after (.forM _ fun d => (Composed.decorator hprint d).seq .line) fun _ => ?_
      exact .after (.exportKeywords _) fun _ => .classBody hprint n _ _
    · obtain ⟨name, -, h⟩ := List.mem_flatMap.mp h
      obtain ⟨field, -, rfl⟩ := List.mem_map.mp h
      refine .after (.write _) fun _ => .after (.memberSuffix hprint _) fun _ => ?_
      exact .after (.write _) fun _ => .after (.value hprint _) fun _ => .write (by decide)

/-- Where a statement splits, something is printed for each part. -/
theorem voiced_of_splits {n : Node} (hsplits : splits p n = true)
    (h : step ∈ statementParts print p n) : Voiced step := by
  obtain ⟨id, span, form⟩ := n
  cases form with
  | enumStmt ms name members => exact voiced_of_mem_enumParts hprint h
  | moduleStmt declaration => exact voiced_of_mem_namespaceParts hprint h
  | classStmt cls => exact voiced_of_mem_classParts hprint h
  | exportStmt ms isTypeOnly clause? specifier? attributes? =>
      cases isTypeOnly with
      | true => cases hsplits
      | false =>
          cases clause? with
          | none => cases hsplits
          | some clause =>
              cases clause with
              | all name => cases hsplits
              | named specifiers =>
                  obtain ⟨hmodule, -⟩ := Bool.and_eq_true_iff.mp hsplits
                  change step ∈ if p.job.isCommonJS = true then _ else _ at h
                  rw [if_pos hmodule] at h
                  cases specifier? with
                  | some specifier => exact voiced_of_mem_requiredParts h
                  | none => exact voiced_of_mem_importedParts h
  | _ => cases hsplits

end

section
variable {print : Slot → Node → Print Bool} {p : PrintPlace} (s : PrintState)

/-- What is printed for a body, whether something is left of it or not. -/
theorem body_cases (fuel : Nat) (hp : p.target.container? = none) (n : Node) :
    ((statement (nodeWithin fuel) n p s).1 = false ∧
      (body (nodeWithin fuel) n p s).2.writer = s.writer.write ";") ∨
    ((statement (nodeWithin fuel) n p s).1 = true ∧
      (body (nodeWithin fuel) n p s).2 = (statement (nodeWithin fuel) n p s).2) := by
  have htraces := traces_statement (ComposedNodes.nodeWithin fuel) n
  rw [← body_eq s (nodeWithin fuel) hp, bind_run]
  cases hprinted : (statement (nodeWithin fuel) n p s).1 with
  | false => exact .inl ⟨rfl, congrArg (Writer.write · ";") (htraces.erased p s hprinted)⟩
  | true => exact .inr ⟨rfl, rfl⟩

/-- A body that is no block stands on a line of its own, and the body of a label behind the label.
It is never left out: if nothing is left of it, it is an empty statement. It is printed as its
parts, which are more than one exactly where a statement splits; then none of them is empty, and
those after the first stand behind the statement that the body belongs to. What stands behind a
label is a body in turn. -/
theorem bodies_printed_as_statements (fuel : Nat) (n : Node) (hp : p.target.container? = none) :
    (n.form.isBlockStatement = false → embedded (nodeWithin (fuel + 1)) n p s =
      (indented do line; withTarget .nested (body (nodeWithin fuel) n) : Print Unit) p s) ∧
    (∀ label, labeledStatement (nodeWithin (fuel + 1)) label n p s =
      (do identifier label; write ": "; body (nodeWithin fuel) n : Print Unit) p s) ∧
    (∃ text ≠ "", (body (nodeWithin fuel) n p s).2.writer.output = s.writer.output ++ text) ∧
    ((statement (nodeWithin fuel) n p s).1 = false →
      (body (nodeWithin fuel) n p s).2.writer = s.writer.write ";") ∧
    (1 < (statementParts (nodeWithin fuel) p n).length ↔ splits p n = true) ∧
    (splits p n = true → ∀ step ∈ statementParts (nodeWithin fuel) p n, ∀ s,
      s.writer.length < (step p s).2.writer.length) := by
  have hprint := ComposedNodes.nodeWithin fuel
  refine ⟨embedded_eq s fuel, fun label => labeledStatement_eq s hp fuel label n, ?_, ?_,
    one_lt_length_statementParts n, ?_⟩
  · rcases body_cases s fuel hp n with ⟨-, hwriter⟩ | ⟨hprinted, hstate⟩
    · rw [hwriter, s.writer.write_eq (by decide)]
      exact ⟨_, by simp, rfl⟩
    · rw [hstate]
      exact ((traces_statement hprint n).printed p s hprinted).1
  · intro herased
    rcases body_cases s fuel hp n with ⟨-, hwriter⟩ | ⟨hprinted, -⟩
    · exact hwriter
    · rw [hprinted] at herased
      cases herased
  · exact fun hsplits step hstep => (voiced_of_splits hprint hsplits hstep).writes p

end

/-- The enum of `if (1) enum E {}`. -/
def embeddedEnum : Node := ⟨2, ⟨7, 16⟩, .enumStmt {} ⟨1, ⟨12, 13⟩, "E"⟩ []⟩

def embeddedEnumFile : SourceFile where
  fileName := "input.ts"
  text := "if (1) enum E \x7b\x7d"
  statements := [⟨3, ⟨0, 16⟩, .ifStmt ⟨0, ⟨4, 5⟩, .numericLiteral "1"⟩ embeddedEnum none⟩]
  comments := []
  endOfFile := 16
  nodeCount := 4

theorem embeddedEnum_splits :
    let j := PrintJob.ofFile embeddedEnumFile embeddedEnumFile.bind {}
    let p := { j.place with target := .nested }
    p.target.container? = none ∧ 1 < (statementParts (nodeWithin 1) p embeddedEnum).length := by
  intro j p
  have hbodies := bodies_printed_as_statements (p := p) { pending := [] } 1 embeddedEnum rfl
  exact ⟨rfl, hbodies.2.2.2.2.1.mpr (by decide +kernel)⟩

/-- The function that fills the enum is called whatever the condition is: what is printed for the
single statement of the program are two, and the call is no part of the first. -/
theorem embedded_enum_filled_unconditionally :
    let text := "if (1)\n    let E;\n    (function (E) \x7b\n    \x7d)(E || (E = \x7b\x7d));\n"
    let r := parseSource "output.js" text
    (compile id "input.ts" "if (1) enum E \x7b\x7d").diagnostics = [] ∧
      (compile id "input.ts" "if (1) enum E \x7b\x7d").output? = some text ∧ r.2 = [] ∧
        r.1.statements.map (fun n => n.form.isIfStatement) = [true, false] := by
  decide +kernel

end Print
end Erasure

import Erasure.Proofs.Untyped.PrintExpression

/-!
Enums, namespaces, imports and exports are printed alike with and without types. What is printed of
them is decided by symbols, which match.
-/

namespace Erasure

variable {M : Matching} {outside : NodeId → Prop}

theorem Declaration.Matches.isPrinted {d d' : Declaration} (h : d.Matches M outside d')
    (preserve : Bool) : d.isPrinted preserve = d'.isPrinted preserve := by
  rw [Declaration.isPrinted, Declaration.isPrinted, h.isAmbient, h.kind]

theorem Symbol.Matches.isDeclaredBefore {y y' : Symbol} (h : y.Matches M outside y')
    (preserve : Bool) (node : NodeId) :
    y.isDeclaredBefore preserve node = y'.isDeclaredBefore preserve node := by
  have hbefore : List.Forall₂ (Declaration.Matches M outside)
      (y.declarations.takeWhile fun d => d.node ≠ node)
      (y'.declarations.takeWhile fun d => d.node ≠ node) :=
    forall₂_takeWhile h.declarations fun d d' hd => by rw [hd.node]
  exact forall₂_any hbefore fun d d' hd => hd.isPrinted preserve

namespace ModuleExports

/-- The names of variables. -/
theorem variableNames_untyped {α : Type} (g : Identifier → α) (ns : List Node) :
    ((untypedAll ns).flatMap fun d =>
      match d.form with
      | .variableDeclaration name _ _ _ => name.bindingIdentifiers.map g
      | _ => []) =
    ns.flatMap fun d =>
      match d.form with
      | .variableDeclaration name _ _ _ => name.bindingIdentifiers.map g
      | _ => [] := by
  rw [untypedAll_eq_map, List.flatMap_map]
  refine congrArg (List.flatMap · ns) (funext fun d => ?_)
  rw [Node.form_untyped]
  cases d.form with
  | variableDeclaration name _ _ _ => exact congrArg (List.map g) name.bindingIdentifiers_untyped
  | _ => rfl

theorem declaredNodes_untyped (n : Node) : declaredNodes n.untyped = declaredNodes n := by
  unfold declaredNodes
  rw [Node.form_untyped]
  cases n.form with
  | varStmt ms list =>
      obtain ⟨id, span, form⟩ := list
      cases form with
      | variableList kind declarations => exact variableNames_untyped Identifier.id declarations
      | _ => rfl
  | classStmt cls => exact congrArg ([·]) cls.id_untyped
  | moduleStmt declaration => exact congrArg ([·]) declaration.id_untyped
  | importStmt ms clause? specifier attributes => cases clause? <;> rfl
  | _ => rfl

theorem outside_declaredNodes {n : Node} (hn : n.Apart outside) :
    ∀ i ∈ declaredNodes n, outside i := by
  have hform := hn.form
  have hnames := hn.name
  intro i hi
  unfold declaredNodes at hi
  split at hi
  case h_1 ms list h =>
    rw [h] at hform
    obtain ⟨_, _, form⟩ := list
    obtain ⟨-, -, hlist⟩ := hform
    dsimp only at hi
    split at hi
    · obtain ⟨d, hd, hi⟩ := List.mem_flatMap.mp hi
      have hdeclaration := (apartAll_iff.mp hlist d hd).form
      split at hi
      · rename_i hdf
        rw [hdf] at hdeclaration
        obtain ⟨b, hb, rfl⟩ := List.mem_map.mp hi
        exact Node.Apart.bindingIdentifiers _ hdeclaration.1 b hb
      · cases hi
    · cases hi
  case h_2 cls h =>
    rw [h] at hform
    exact List.mem_singleton.mp hi ▸ Node.Apart.id hform
  case h_3 h | h_5 h =>
    rw [h] at hnames
    exact hnames i hi
  case h_4 declaration h =>
    rw [h] at hform
    exact List.mem_singleton.mp hi ▸ Node.Apart.id hform
  case h_6 clause specifier attributes h =>
    rw [h] at hnames
    refine hnames i ?_
    change i ∈ clause.name?.toList.map Identifier.id ++ _
    rwa [← Option.toList_map]
  case h_7 => cases hi

theorem declaredNames_untyped (preserve : Bool) (n : Node) :
    declaredNames preserve n.untyped = declaredNames preserve n := by
  unfold declaredNames
  rw [Node.form_untyped]
  cases n.form with
  | varStmt ms list =>
      obtain ⟨id, span, form⟩ := list
      cases form with
      | variableList kind declarations =>
          exact congrArg (fun names => if !ms.isExport || ms.isAmbient then [] else names)
            (variableNames_untyped Identifier.text declarations)
      | _ => rfl
  | classStmt cls =>
      change (if cls.untyped.classLike.modifiers.isExport &&
          !cls.untyped.classLike.modifiers.isDefault && !cls.untyped.classLike.modifiers.isAmbient
        then (cls.untyped.classLike.name.map Identifier.text).toList else []) = _
      rw [Node.classLike_untyped, ClassLike.modifiers_untyped, ClassLike.name_untyped]
  | moduleStmt declaration =>
      have hinstantiated := declaration.isInstantiated_untyped preserve
      obtain ⟨_, _, form⟩ := declaration
      cases form with
      | moduleDeclaration ms name body isGlobal =>
          exact congrArg (fun c => if ms.isExport && c then
            (name.identifier?.map Identifier.text).toList else []) hinstantiated
      | _ => rfl
  | importEqualsStmt ms isTypeOnly name reference =>
      cases isTypeOnly <;> cases reference <;> rfl
  | _ => rfl

theorem names_untyped {b b' : Bindings} (hb : b.Matches M outside b') (preserve : Bool)
    (n : Node) : names b' preserve n.untyped = names b preserve n := by
  have hlater : isAssignedLater b = isAssignedLater b' := by
    funext s
    refine rel_any (hb.resolve? hb.root s.source.text _) fun y y' hy => ?_
    rw [(hb.symbol y y' hy).has]
  have hdeclared := declaredNames_untyped preserve n
  unfold names
  rw [hlater, Node.form_untyped]
  cases n.form with
  | exportStmt ms isTypeOnly clause? specifier? attributes =>
      cases isTypeOnly with
      | true => exact hdeclared
      | false =>
          cases clause? with
          | none => exact hdeclared
          | some clause =>
              cases clause with
              | named specifiers => rfl
              | all name =>
                  cases specifier? with
                  | none => exact hdeclared
                  | some _ => rfl
  | _ => exact hdeclared

end ModuleExports

namespace Print.Alike

/-- Steps for things that match. -/
theorem forall₂ {ε ε' : Type} {r : ε → ε' → Prop} {as : List ε} {bs : List ε'}
    {f : ε → Print Unit} {f' : ε' → Print Unit} (hab : List.Forall₂ r as bs)
    (h : ∀ a b, r a b → Alike M outside (f a) (f' b)) :
    Alike M outside (as.forM f) (bs.forM f') := by
  induction hab with
  | nil => exact unit
  | cons hab _ ih => exact (h _ _ hab).seq ih

theorem objectVariable {y y' : SymbolId} (hy : M.symbols y y') (node : NodeId) (name : String)
    (isExported : Bool) :
    Alike M outside (Print.objectVariable y node name isExported)
      (Print.objectVariable y' node name isExported) := by
  refine .job fun j j' hj => .target fun t => ?_
  rw [hj.options, (hj.bindings.symbol y y' hy).isDeclaredBefore]
  refine .ite Iff.rfl ?_ unit
  exact .when Iff.rfl (write "export ") ((write _).seq line)

theorem objectFiller (name : String) (isExported : Bool) {m m' : Print Unit}
    (h : Alike M outside m m') :
    Alike M outside (Print.objectFiller name isExported m)
      (Print.objectFiller name isExported m') :=
  (write _).seq (.seq (.indented (line.seq h)) (line.seq (.target fun _ => .write _)))

section
variable {print print' : Slot → Node → Print Bool}
variable (hprint : NodesAlike M outside print print')
include hprint

theorem enumMember {y y' : SymbolId} (hy : M.symbols y y') (enumName : String) {n : Node}
    (hn : n.Apart outside) (key : Node) {initial? : Option Node}
    (hinitial : ApartOption outside initial?) :
    Alike M outside (Print.enumMember print y enumName n key initial?)
      (Print.enumMember print' y' enumName n.untyped key.untyped (untypedOption initial?)) := by
  unfold Print.enumMember
  rw [Node.staticKey?_untyped, Node.id_untyped]
  refine .job fun j j' hj => ?_
  rw [hj.enumValues n.id hn.id]
  split
  · exact .write _
  · exact .write _
  · refine (write _).seq ?_
    cases initial? with
    | none => exact (write "void 0").seq (write _)
    | some initial => exact (withEnum hy (value hprint hinitial)).seq (write _)

theorem enumMembers {y y' : SymbolId} (hy : M.symbols y y') (enumName : String) {ns : List Node}
    (hns : ApartAll outside ns) :
    Alike M outside (Print.enumMembers print y enumName ns)
      (Print.enumMembers print' y' enumName (untypedAll ns)) := by
  refine .nodes hns fun n hn => ?_
  have hform := hn.form
  rw [Node.form_untyped, Node.span_untyped]
  cases h : n.form with
  | enumMember key initial? =>
      rw [h] at hform
      refine (Alike.commented _ ?_).bind fun _ => .ite Iff.rfl line unit
      exact enumMember hprint hy enumName hn key hform.2
  | _ => exact unit

theorem enumDeclaration (ms : Modifiers) {name : Identifier} (hname : outside name.id)
    {ns : List Node} (hns : ApartAll outside ns) :
    Alike M outside (Print.enumDeclaration print ms name ns)
      (Print.enumDeclaration print' ms name (untypedAll ns)) := by
  refine .job fun j j' hj => ?_
  have howner := hj.bindings.symbolOf? name.id hname
  rw [hj.options, hj.file]
  refine .ite Iff.rfl unit ?_
  revert howner
  cases j.bindings.symbolOf? name.id <;> cases j'.bindings.symbolOf? name.id <;> rintro ⟨⟩
  · exact unit
  · rename_i y y' hy
    refine (objectVariable hy _ _ _).seq (objectFiller _ _ ?_)
    exact enumMembers hprint hy _ hns

theorem namespaceBody {n? : Option Node} (hn : ApartOption outside n?) :
    Alike M outside (Print.namespaceBody print n?)
      (Print.namespaceBody print' (untypedOption n?)) := by
  refine .node? hn fun n hn => ?_
  have hform := hn.form
  have hother : Alike M outside
      (do Functor.discard (print (.namespace_ true) n); Print.line)
      (do Functor.discard (print' (.namespace_ true) n.untyped); Print.line) :=
    .seq (.discard (hprint _ n hn)) line
  rw [Node.form_untyped, Node.span_untyped]
  cases h : n.form with
  | moduleBlock statements =>
      rw [h] at hform
      exact (statementList hprint hform).seq (closingComments _)
  | _ => exact hother

theorem namespaceDeclaration {n : Node} (hn : n.Apart outside) (isExported : Bool) :
    Alike M outside (Print.namespaceDeclaration print n isExported)
      (Print.namespaceDeclaration print' n.untyped isExported) := by
  have hform := hn.form
  refine .job fun j j' hj => ?_
  have howner := hj.bindings.symbolOf? n.id hn.id
  rw [Node.form_untyped, Node.isInstantiated_untyped, Node.id_untyped, hj.options, hj.file]
  cases h : n.form with
  | moduleDeclaration ms name body? isGlobal =>
      rw [h] at hform
      cases name with
      | string _ => exact unit
      | identifier name =>
          cases isGlobal with
          | true => exact unit
          | false =>
              refine .ite Iff.rfl ?_ unit
              revert howner
              cases j.bindings.symbolOf? n.id <;> cases j'.bindings.symbolOf? n.id <;> rintro ⟨⟩
              · exact unit
              · rename_i y y' hy
                refine (objectVariable hy _ _ _).seq (objectFiller _ _ (.inScopeOf hn.id ?_))
                exact .withTarget _ (namespaceBody hprint hform)
  | _ => exact unit

theorem moduleStatement {n : Node} (hn : n.Apart outside) :
    Alike M outside (Print.moduleStatement print n) (Print.moduleStatement print' n.untyped) := by
  unfold Print.moduleStatement
  rw [Node.form_untyped]
  cases n.form with
  | moduleDeclaration ms _ _ _ => exact namespaceDeclaration hprint hn ms.isExport
  | _ => exact unit

omit hprint in
theorem bracedList {ε : Type} {v : ε → ε} {as : List ε} {f f' : ε → Print Unit}
    (h : ∀ a ∈ as, Alike M outside (f a) (f' (v a))) :
    Alike M outside (Print.bracedList f as) (Print.bracedList f' (as.map v)) := by
  unfold Print.bracedList
  rw [List.isEmpty_map]
  exact .ite Iff.rfl (write _) ((write _).seq ((commaSeparated h).seq (write _)))

omit hprint in
theorem bracedList_same {ε : Type} {as : List ε} {f : ε → Print Unit}
    (h : ∀ a, Alike M outside (f a) (f a)) :
    Alike M outside (Print.bracedList f as) (Print.bracedList f as) := by
  have hmap : Alike M outside (Print.bracedList f as) (Print.bracedList f (as.map id)) :=
    bracedList fun a _ => h a
  rwa [List.map_id] at hmap

theorem importAttribute {n : Node} (hn : n.Apart outside) :
    Alike M outside (Print.importAttribute print n) (Print.importAttribute print' n.untyped) := by
  have hform := hn.form
  unfold Print.importAttribute
  rw [Node.form_untyped]
  cases h : n.form with
  | importAttribute name inner =>
      rw [h] at hform
      exact (write _).seq (value hprint hform)
  | _ => exact unit

theorem importAttributes {n : Node} (hn : n.Apart outside) :
    Alike M outside (Print.importAttributes print n) (Print.importAttributes print' n.untyped) := by
  have hform := hn.form
  unfold Print.importAttributes
  rw [Node.form_untyped]
  cases h : n.form with
  | importAttributes keyword elements =>
      rw [h] at hform
      have helements := bracedList fun e he =>
        importAttribute hprint (apartAll_iff.mp hform e he)
      rw [← untypedAll_eq_map] at helements
      exact (write _).seq helements
  | _ => exact unit

theorem moduleSpecifier (specifier : StringLiteral) {attributes? : Option Node}
    (hattributes : ApartOption outside attributes?) :
    Alike M outside (Print.moduleSpecifier print specifier attributes?)
      (Print.moduleSpecifier print' specifier (untypedOption attributes?)) := by
  refine .file fun _ => (write _).seq (.seq ?_ (write ";"))
  exact .node? hattributes fun _ hn => importAttributes hprint hn

omit hprint in
theorem renamed (property? : Option ExportName) :
    Alike M outside (Print.renamed property?) (Print.renamed property?) :=
  option_same fun _ _ => .file fun _ => .write _

omit hprint in
theorem importSpecifier (s : ImportSpecifier) :
    Alike M outside (Print.importSpecifier s) (Print.importSpecifier s) :=
  (renamed _).seq (identifier _)

omit hprint in
theorem exportSpecifier (s : ExportSpecifier) :
    Alike M outside (Print.exportSpecifier s) (Print.exportSpecifier s) :=
  (renamed _).seq (.file fun _ => .write _)

omit hprint in
theorem keptImport? {j j' : PrintJob} (hj : j.Alike M outside j') {clause : ImportClause}
    (hclause : ∀ i ∈ clause.nameIds, outside i) :
    Print.keptImport? j clause = Print.keptImport? j' clause := by
  have hkept : ∀ i : Identifier, i.id ∈ clause.nameIds →
      (j.options.verbatimModuleSyntax || j.isUsed i) =
        (j'.options.verbatimModuleSyntax || j'.isUsed i) := by
    intro i hi
    rw [hj.options, hj.isUsed (hclause i.id hi)]
  have hdefault : clause.name?.filter (fun i => j.options.verbatimModuleSyntax || j.isUsed i) =
      clause.name?.filter fun i => j'.options.verbatimModuleSyntax || j'.isUsed i := by
    cases h : clause.name? with
    | none => rfl
    | some i =>
        rw [Option.filter_some, Option.filter_some, hkept i (ImportClause.mem_nameIds_of_name h)]
  unfold Print.keptImport?
  dsimp only
  rw [hdefault]
  cases h : clause.bindings? with
  | none => rfl
  | some bindings =>
      cases bindings with
      | all i =>
          simp only [hkept i (ImportClause.mem_nameIds_of_all h)]
      | named specifiers =>
          have hfilter : specifiers.filter (fun s => !s.isTypeOnly &&
                (j.options.verbatimModuleSyntax || j.isUsed s.name)) =
              specifiers.filter fun s => !s.isTypeOnly &&
                (j'.options.verbatimModuleSyntax || j'.isUsed s.name) :=
            List.filter_congr fun s hs => by
              rw [hkept s.name (ImportClause.mem_nameIds_of_named h hs)]
          simp only [hfilter]
          simp only [hj.options]

omit hprint in
theorem importBindings (hasDefault : Bool) (bindings : ImportBindings) :
    Alike M outside (Print.importBindings hasDefault bindings)
      (Print.importBindings hasDefault bindings) := by
  cases bindings with
  | all name =>
      rw [Print.importBindings]
      refine .when Iff.rfl (write ", ") ?_
      exact (write _).seq (identifier name)
  | named specifiers =>
      rw [Print.importBindings]
      refine .when Iff.rfl (write ", ") ?_
      exact bracedList_same importSpecifier

omit hprint in
theorem importClause (kept : KeptImport) :
    Alike M outside (Print.importClause kept) (Print.importClause kept) :=
  (write _).seq (.seq (option_same fun i _ => identifier i)
    (.seq (option_same fun _ _ => importBindings _ _) (write _)))

omit hprint in
theorem requiredImport (n : Node) (clause? : Option ImportClause) (specifier : StringLiteral) :
    Alike M outside (Print.requiredImport n clause? specifier)
      (Print.requiredImport n.untyped clause? specifier) := by
  refine .job fun j j' hj => ?_
  rw [hj.file, hj.linkage.requires, Node.id_untyped]
  cases clause? with
  | none => exact .write _
  | some _ => exact option_same fun _ _ => write _

theorem importDeclaration {n : Node} {clause? : Option ImportClause}
    (hclause : ∀ clause ∈ clause?, ∀ i ∈ clause.nameIds, outside i) (specifier : StringLiteral)
    {attributes? : Option Node} (hattributes : ApartOption outside attributes?) :
    Alike M outside (Print.importDeclaration print n clause? specifier attributes?)
      (Print.importDeclaration print' n.untyped clause? specifier (untypedOption attributes?)) := by
  have hspecifier := moduleSpecifier hprint specifier hattributes
  refine .job fun j j' hj => ?_
  rw [hj.isCommonJS]
  refine .ite Iff.rfl (requiredImport n clause? specifier) ?_
  cases clause? with
  | none => exact (write _).seq hspecifier
  | some clause =>
      dsimp only
      rw [keptImport? hj (hclause clause rfl)]
      cases Print.keptImport? j' clause with
      | none => exact unit
      | some kept => exact (importClause kept).seq hspecifier

omit hprint in
theorem startsWithValue {p p' : PrintPlace} (hp : p.Alike M outside p') (reference : EntityName) :
    Print.startsWithValue p reference = Print.startsWithValue p' reference := by
  unfold Print.startsWithValue
  refine congrArg (reference.first?.any ·) (funext fun first => ?_)
  have hresolved := hp.resolve? first.text (SymbolFlags.value ++ SymbolFlags.namespaces)
  revert hresolved
  cases p.resolve? first.text (SymbolFlags.value ++ SymbolFlags.namespaces) <;>
    cases p'.resolve? first.text (SymbolFlags.value ++ SymbolFlags.namespaces) <;> rintro ⟨⟩
  · rfl
  · rename_i y y' hy
    exact (hp.job.bindings.symbol y y' hy).has _

omit hprint in
theorem entityName (reference : EntityName) :
    Alike M outside (Print.entityName reference) (Print.entityName reference) := by
  unfold Print.entityName
  split
  · exact unit
  · exact (Alike.reference _ _).seq (forM_same fun i _ => (write ".").seq (identifier i))

omit hprint in
theorem requireAssignment {name : Identifier} (hname : outside name.id) (specifier : StringLiteral)
    (isExported : Bool) :
    Alike M outside (Print.requireAssignment name specifier isExported)
      (Print.requireAssignment name specifier isExported) := by
  refine .job fun j j' hj => ?_
  rw [hj.file, hj.isCommonJS, hj.options, hj.isUsed hname]
  exact .ite Iff.rfl (write _) (.ite Iff.rfl (write _) unit)

omit hprint in
theorem importAssignment (isTypeOnly : Bool) {name : Identifier} (hname : outside name.id)
    (reference : ModuleReference) (isExported : Bool) :
    Alike M outside (Print.importAssignment isTypeOnly name reference isExported)
      (Print.importAssignment isTypeOnly name reference isExported) := by
  refine .job fun j j' hj => .ite Iff.rfl unit ?_
  cases reference with
  | external specifier => exact requireAssignment hname specifier isExported
  | entity reference =>
      refine .read fun p p' hp => ?_
      rw [startsWithValue hp, hj.isUsed hname, hj.file]
      refine .ite Iff.rfl (.target fun t => (write _).seq ?_) unit
      exact (entityName reference).seq (write ";")

omit hprint in
theorem keptExports {p p' : PrintPlace} (hp : p.Alike M outside p') (isReexport : Bool)
    (specifiers : List ExportSpecifier) :
    Print.keptExports p isReexport specifiers = Print.keptExports p' isReexport specifiers := by
  unfold Print.keptExports
  refine List.filter_congr fun s _ => ?_
  rw [hp.job.options, hp.namesOnlyType]

theorem exportList (specifiers : List ExportSpecifier) (specifier? : Option StringLiteral)
    {attributes? : Option Node} (hattributes : ApartOption outside attributes?) :
    Alike M outside (Print.exportList print specifiers specifier? attributes?)
      (Print.exportList print' specifiers specifier? (untypedOption attributes?)) := by
  refine .read fun p p' hp => ?_
  rw [keptExports hp]
  refine .ite Iff.rfl unit ((write "export ").seq ((bracedList_same exportSpecifier).seq ?_))
  cases specifier? with
  | none => exact .write _
  | some specifier => exact (write _).seq (moduleSpecifier hprint specifier hattributes)

omit hprint in
theorem requiredExports (n : Node) (specifiers : List ExportSpecifier)
    (specifier : StringLiteral) :
    Alike M outside (Print.requiredExports n specifiers specifier)
      (Print.requiredExports n.untyped specifiers specifier) := by
  refine .job fun j j' hj => ?_
  rw [hj.linkage.requires, Node.id_untyped, hj.file]
  refine option_same fun name _ => (write _).seq (forM_same fun s _ => line.seq ?_)
  exact .write _

omit hprint in
theorem importedGetter? {j j' : PrintJob} (hj : j.Alike M outside j') :
    Print.importedGetter? j = Print.importedGetter? j' := by
  funext s
  refine eq_of_rel (rel_bind (hj.bindings.resolve? hj.bindings.root s.source.text _) ?_)
  intro y y' hy
  refine rel_of_eq ?_
  rw [hj.linkage.replacements y y' hy]

omit hprint in
theorem importedExports (specifiers : List ExportSpecifier) :
    Alike M outside (Print.importedExports specifiers) (Print.importedExports specifiers) := by
  refine .job fun j j' hj => ?_
  rw [importedGetter? hj]
  dsimp only
  split
  · exact unit
  · exact .seq (.write _) (forM_same fun g _ => line.seq (.write _))

theorem exportDeclaration (n : Node) (isTypeOnly : Bool) (clause? : Option ExportClause)
    (specifier? : Option StringLiteral) {attributes? : Option Node}
    (hattributes : ApartOption outside attributes?) :
    Alike M outside (Print.exportDeclaration print n isTypeOnly clause? specifier? attributes?)
      (Print.exportDeclaration print' n.untyped isTypeOnly clause? specifier?
        (untypedOption attributes?)) := by
  refine .job fun j j' hj => .ite Iff.rfl unit ?_
  rw [hj.isCommonJS, hj.file]
  split
  · exact .ite Iff.rfl (write _) ((write _).seq (moduleSpecifier hprint _ hattributes))
  · exact .ite Iff.rfl (write _) ((write _).seq (moduleSpecifier hprint _ hattributes))
  · refine .ite Iff.rfl ?_ (exportList hprint _ _ hattributes)
    split
    · exact requiredExports n _ _
    · exact importedExports _
  · exact unit

theorem exportAssignment (isEquals : Bool) {n : Node} (hn : n.Apart outside) :
    Alike M outside (Print.exportAssignment print isEquals n)
      (Print.exportAssignment print' isEquals n.untyped) := by
  have hexported : ∀ target : String, Alike M outside
      (do Print.write target; Print.value print n; Print.write ";")
      (do Print.write target; Print.value print' n.untyped; Print.write ";") :=
    fun target => (write target).seq ((value hprint hn).seq (write ";"))
  refine .read fun p p' hp => ?_
  have hnames : p.namesOnlyType = p'.namesOnlyType := funext hp.namesOnlyType
  rw [Node.identifier?_untyped, hp.job.isCommonJS, hp.job.options, hnames]
  exact .ite Iff.rfl (.ite Iff.rfl (hexported _) unit) (.ite Iff.rfl unit (hexported _))

end

theorem declaredExports {n : Node} (hn : n.Apart outside) :
    Alike M outside (Print.declaredExports n) (Print.declaredExports n.untyped) := by
  refine .job fun j j' hj => ?_
  have hb := hj.bindings
  have hsymbols : ∀ is : List NodeId, (∀ i ∈ is, outside i) →
      List.Forall₂ M.symbols (is.filterMap j.bindings.symbolOf?)
        (is.filterMap j'.bindings.symbolOf?) := by
    intro is his
    induction is with
    | nil => exact .nil
    | cons i is ih =>
        obtain ⟨hi, his⟩ := List.forall_mem_cons.mp his
        have hsymbol := hb.symbolOf? i hi
        rw [List.filterMap_cons, List.filterMap_cons]
        revert hsymbol
        cases j.bindings.symbolOf? i <;> cases j'.bindings.symbolOf? i <;> rintro ⟨⟩
        · exact ih his
        · rename_i hy
          exact .cons hy (ih his)
  rw [ModuleExports.declaredNodes_untyped]
  refine forall₂ (hsymbols _ (ModuleExports.outside_declaredNodes hn)) fun y y' hy => ?_
  rw [hj.linkage.exportedAs.getD hy, (hb.symbol y y' hy).name]
  exact forM_same fun _ _ => line.seq (write _)

theorem functionExports {n : Node} (hn : n.Apart outside) :
    Alike M outside (Print.functionExports n) (Print.functionExports n.untyped) := by
  have hnames := hn.name
  refine .job fun j j' hj => ?_
  rw [Node.form_untyped]
  cases h : n.form with
  | functionStmt ms name? func =>
      rw [h] at hnames
      have hlisted : (name?.bind fun i => j.bindings.symbolOf? i.id).bind
            (fun id => j.linkage.exportedAs[id]?) =
          (name?.bind fun i => j'.bindings.symbolOf? i.id).bind
            fun id => j'.linkage.exportedAs[id]? := by
        cases name? with
        | none => rfl
        | some name =>
            have hname := hnames name.id (List.mem_singleton.mpr rfl)
            refine eq_of_rel (rel_bind (hj.bindings.symbolOf? name.id hname) fun y y' hy => ?_)
            exact rel_of_eq (hj.linkage.exportedAs y y' hy)
      change Alike M outside _ (if func.untyped.func.body.isNone || ms.isAmbient then _ else _)
      rw [Node.func_untyped, FunctionLike.body_untyped, Option.isNone_map,
        hj.linkage.defaultName]
      refine .ite Iff.rfl unit ?_
      split
      · dsimp only
        rw [hlisted]
        exact forM_same fun _ _ => (write _).seq line
      · exact unit
  | _ => exact unit

theorem commonJSPreamble {ns : List Node} (hns : ApartAll outside ns) :
    Alike M outside (Print.commonJSPreamble ns) (Print.commonJSPreamble (untypedAll ns)) := by
  refine .job fun j j' hj => ?_
  have hfunctions : Alike M outside (ns.forM Print.functionExports)
      ((untypedAll ns).forM Print.functionExports) := .nodes hns fun _ hn => functionExports hn
  have hnames : (untypedAll ns).flatMap
        (ModuleExports.names j'.bindings j'.options.preserveConstEnums) =
      ns.flatMap (ModuleExports.names j.bindings j.options.preserveConstEnums) := by
    rw [untypedAll_eq_map, List.flatMap_map, ← hj.options]
    exact congrArg (List.flatMap · ns) (funext (ModuleExports.names_untyped hj.bindings _))
  have hstar : (untypedAll ns).any isExportStar = ns.any isExportStar := by
    rw [untypedAll_eq_map, any_untyped isExportStar_untyped]
  have hequals : (untypedAll ns).any isExportEquals = ns.any isExportEquals := by
    rw [untypedAll_eq_map, any_untyped isExportEquals_untyped]
  rw [hnames, hstar, hequals]
  refine .when Iff.rfl (forM_same fun _ _ => (write _).seq line) ?_
  refine .when_seq Iff.rfl (write _) line ?_
  exact .when_seq Iff.rfl (write _) line hfunctions

end Print.Alike
end Erasure

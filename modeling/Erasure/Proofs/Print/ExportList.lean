import Erasure.Proofs.Print.ExportedName
import Erasure.Proofs.Print.Surroundings
import Erasure.Proofs.Untyped.Uses

/-!
Names of imports in export lists. Whether a name stays in a list is decided by what it may stand
for, and an import may stand for anything; whether the import stays is decided by what it is marked
as. Both agree on imports of values, and only on those. An import stays if a value of the program
reads its name, as the walk over used values finds it.
-/

namespace Erasure

/-- A statement exports a value by a name of its list that stands for a symbol of the file. -/
structure Bindings.Lists (b : Bindings) (n : Node) (e : ExportSpecifier) (id : SymbolId) :
    Prop where
  mem : e ∈ n.listedExports
  listed : b.listed? e = some id

namespace ValueUses

/-- A step of the walk that takes no mark away. -/
def Keeps (step : Walk Unit) : Prop :=
  ∀ scope u id, u.contains id = true → (step scope u).2.contains id = true

theorem contains_insert_of_contains {u : ValueUses} {id : SymbolId} (h : u.contains id = true)
    (other : SymbolId) : (u.insert other).contains id = true := by
  rw [contains_insert, h, Bool.or_true]

namespace Keeps

variable {b : Bindings} {p q : Walk Unit}

theorem unit : Keeps (pure ()) := fun _ _ _ h => h

theorem seq (hp : Keeps p) (hq : Keeps q) : Keeps (do p; q) :=
  fun _ _ _ h => hq _ _ _ (hp _ _ _ h)

theorem reading {f : ScopeId → Walk Unit} (h : ∀ scope, Keeps (f scope)) :
    Keeps (do f (← read)) :=
  fun scope _ _ hu => h scope scope _ _ hu

theorem forM {α : Type} {as : List α} {f : α → Walk Unit} (h : ∀ a ∈ as, Keeps (f a)) :
    Keeps (as.forM f) := by
  induction as with
  | nil => exact unit
  | cons a as ih => exact seq (h a (by simp)) (ih fun c hc => h c (by simp [hc]))

/-- What one step of several marks stays marked. -/
theorem contains_forM {α : Type} {as : List α} {f : α → Walk Unit} (hf : ∀ a, Keeps (f a)) {a : α}
    (ha : a ∈ as) {scope : ScopeId} {id : SymbolId}
    (h : ∀ u, (f a scope u).2.contains id = true) (u : ValueUses) :
    (as.forM f scope u).2.contains id = true := by
  induction as generalizing u with
  | nil => cases ha
  | cons c as ih =>
      cases ha with
      | head =>
          have hrest : Keeps (as.forM f) := forM fun c _ => hf c
          exact hrest _ _ _ (h u)
      | tail _ ha => exact ih ha _

theorem inScopeOf (node : NodeId) (hp : Keeps p) : Keeps (inScopeOf b node p) :=
  fun _ _ _ h => hp _ _ _ h

theorem markName (name : String) : Keeps (markName b name) := by
  unfold ValueUses.markName
  refine reading fun scope => ?_
  split
  · exact fun _ _ _ h => contains_insert_of_contains h _
  · exact unit

theorem markExport (s : ExportSpecifier) :
    Keeps (if s.isTypeOnly then pure () else ValueUses.markName b s.source.text) := by
  split
  · exact unit
  · exact markName _

theorem markShorthand (property : Node) : Keeps (markShorthand b property) := by
  unfold ValueUses.markShorthand
  split
  · exact markName _
  · exact unit

theorem markReference (name : Identifier) (isExported : Bool) (reference : EntityName) :
    Keeps (markReference b name isExported reference) := by
  unfold ValueUses.markReference
  refine reading fun scope => ?_
  dsimp only
  split
  · split
    · exact fun _ _ _ h => contains_insert_of_contains h _
    · split
      · exact fun _ _ _ h => h
      · exact unit
  · exact unit

theorem classParts {walk : Node → Walk Unit} (hwalk : ∀ n, Keeps (walk n)) (n : Node)
    (c : ClassLike) : Keeps (classParts b walk n c) := by
  unfold ValueUses.classParts
  refine seq (forM fun d _ => hwalk d) ?_
  have hmembers : Keeps (ValueUses.inScopeOf b n.id (c.members.forM walk)) :=
    inScopeOf _ (forM fun m _ => hwalk m)
  split
  · split
    · exact seq (hwalk _) hmembers
    · exact hmembers
  · exact hmembers

theorem step {walk : Node → Walk Unit} (hwalk : ∀ n, Keeps (walk n)) (n : Node) :
    Keeps (step b walk n) := by
  have hbelow : Keeps (n.visited.forM walk) := forM fun c _ => hwalk c
  unfold ValueUses.step
  dsimp only
  split
  · exact unit
  · split
    · exact markName _
    · exact seq (forM fun p _ => markShorthand p) hbelow
    -- loops, switches, blocks, arrow functions and catch clauses open a scope
    iterate 7 exact inScopeOf _ hbelow
    · split
      · exact unit
      · exact inScopeOf _ hbelow
    · split
      · exact unit
      · exact classParts hwalk n _
    · split
      · exact unit
      · exact hbelow
    · split
      · exact unit
      · exact inScopeOf _ hbelow
    · exact forM fun s _ => markExport s
    · exact markReference _ _ _
    · exact hbelow

theorem walkNode (fuel : Nat) (n : Node) : Keeps (walkNode b fuel n) := by
  induction fuel generalizing n with
  | zero => exact unit
  | succ fuel ih => exact step ih n

end Keeps

/-- Following the aliases takes no mark away. -/
theorem contains_closed {u : ValueUses} {id : SymbolId} (h : u.contains id = true) :
    u.closed.contains id = true := by
  have hfollow : ∀ (as : List (SymbolId × SymbolId)) (v : ValueUses), v.contains id = true →
      (as.foldl (fun u a => if u.contains a.1 then u.insert a.2 else u) v).contains id = true := by
    intro as
    induction as with
    | nil => exact fun _ hv => hv
    | cons a as ih =>
        intro v hv
        refine ih _ ?_
        dsimp only
        split
        · exact contains_insert_of_contains hv _
        · exact hv
  have hrepeat : ∀ n : Nat, (n.repeat followAliases u).contains id = true := by
    intro n
    induction n with
    | zero => exact h
    | succ n ih => exact hfollow _ _ ih
  exact hrepeat _

variable {b : Bindings}

theorem markName_run (scope : ScopeId) (name : String) (u : ValueUses) :
    markName b name scope u = (match b.resolve? scope name SymbolFlags.value with
      | some id => modify (·.insert id)
      | _ => pure () : Walk Unit) scope u :=
  rfl

theorem markName_of_resolves {scope : ScopeId} {name : String} {id : SymbolId}
    (h : b.resolve? scope name SymbolFlags.value = some id) (u : ValueUses) :
    markName b name scope u = ((), u.insert id) := by
  rw [markName_run, h]
  rfl

/-- What a list of a file exports is used. -/
theorem contains_of_lists {f : SourceFile} {n : Node} (hn : n ∈ f.statements)
    (hcount : n.id < f.nodeCount) {e : ExportSpecifier} {id : SymbolId} (h : b.Lists n e id) :
    (ofFile f b).contains id = true := by
  refine contains_closed (Keeps.contains_forM (Keeps.walkNode _) hn (fun u => ?_) {})
  obtain ⟨count, hcount⟩ := Nat.exists_eq_add_of_lt hcount
  rw [hcount, walkNode]
  have he := h.mem
  unfold Node.listedExports at he
  split at he
  · rename_i hform
    obtain ⟨hmem, hvalue⟩ := List.mem_filter.mp he
    unfold ValueUses.step
    rw [hform]
    refine Keeps.contains_forM Keeps.markExport hmem (fun u => ?_) u
    rw [if_neg (by simpa using hvalue), markName_of_resolves h.listed, contains_insert,
      decide_eq_true rfl, Bool.true_or]
  · cases he

end ValueUses

/-- The names that an import declares, each with whether it is only a type. -/
def ImportClause.declared (c : ImportClause) : List (Identifier × Bool) :=
  (c.name?.toList.map fun name => (name, c.isTypeOnly)) ++
    match c.bindings? with
    | some (.all name) => [(name, c.isTypeOnly)]
    | some (.named specifiers) => specifiers.map fun s => (s.name, c.isTypeOnly || s.isTypeOnly)
    | none => []

/-- The names that bindings of an import declare as they are printed. -/
def ImportBindings.names : ImportBindings → List Identifier
  | .all name => [name]
  | .named specifiers => specifiers.map ImportSpecifier.name

namespace Print

/-- The names that the printed part of an import declares. -/
def KeptImport.names (k : KeptImport) : List Identifier :=
  k.default?.toList ++ (k.bindings?.map ImportBindings.names).getD []

/-- The list of an import keeps the names that are kept and that are not only types. -/
theorem mem_keptNames_iff {specifiers : List ImportSpecifier} {name : Identifier}
    (isKept : Identifier → Bool) (hname : isKept name = true) (keepsEmpty : Bool) :
    name ∈ ((if (specifiers.filter fun s => !s.isTypeOnly && isKept s.name).isEmpty && keepsEmpty
        then none
        else some (ImportBindings.named
          (specifiers.filter fun s => !s.isTypeOnly && isKept s.name))).map
            ImportBindings.names).getD [] ↔
      ∃ s ∈ specifiers, s.isTypeOnly = false ∧ s.name = name := by
  have hfilter : name ∈ (specifiers.filter fun s => !s.isTypeOnly && isKept s.name).map
      ImportSpecifier.name ↔ ∃ s ∈ specifiers, s.isTypeOnly = false ∧ s.name = name := by
    simp only [List.mem_map, List.mem_filter, Bool.and_eq_true, Bool.not_eq_true']
    constructor
    · rintro ⟨s, ⟨hs, hvalue, -⟩, rfl⟩
      exact ⟨s, hs, hvalue, rfl⟩
    · rintro ⟨s, hs, hvalue, rfl⟩
      exact ⟨s, ⟨hs, hvalue, hname⟩, rfl⟩
  rw [← hfilter]
  split
  · rename_i hempty
    rw [List.isEmpty_iff.mp (Bool.and_eq_true_iff.mp hempty).1]
    rfl
  · rfl

/-- An import keeps the names that are used, unless they are only types. -/
theorem mem_keptImport?_iff {j : PrintJob} {c : ImportClause} {name : Identifier}
    (hused : j.isUsed name = true) :
    (∃ k, keptImport? j c = some k ∧ name ∈ k.names) ↔ (name, false) ∈ c.declared := by
  have hkept : (j.options.verbatimModuleSyntax || j.isUsed name) = true := by
    rw [hused, Bool.or_true]
  have hdefault : name ∈ (c.name?.filter fun i =>
      j.options.verbatimModuleSyntax || j.isUsed i).toList ↔ c.name? = some name := by
    rw [Option.mem_toList, Option.filter_eq_some_iff]
    exact and_iff_left hkept
  have hsome : ∀ (default? : Option Identifier) (bindings? : Option ImportBindings),
      (∃ k, (if c.isTypeOnly || (default?.isNone && bindings?.isNone) then none
        else some (KeptImport.mk default? bindings?)) = some k ∧ name ∈ k.names) ↔
      c.isTypeOnly = false ∧ (name ∈ default?.toList ∨
        name ∈ (bindings?.map ImportBindings.names).getD []) := by
    intro default? bindings?
    cases c.isTypeOnly <;> cases default? <;> cases bindings? <;>
      simp [KeptImport.names, @eq_comm _ name]
  have hname : (name, false) ∈ c.name?.toList.map (fun name => (name, c.isTypeOnly)) ↔
      c.isTypeOnly = false ∧ c.name? = some name := by
    cases c.isTypeOnly <;> simp [Option.mem_toList, and_comm]
  unfold keptImport?
  dsimp only
  rw [hsome, hdefault, ImportClause.declared, List.mem_append, hname, and_or_left]
  refine or_congr_right ?_
  cases c.bindings? with
  | none => simp
  | some bindings =>
      cases bindings with
      | all only =>
          dsimp only
          by_cases honly : name = only
          · subst honly
            rw [if_pos hkept]
            cases c.isTypeOnly <;> simp [ImportBindings.names]
          · split <;> simp [ImportBindings.names, honly]
      | named specifiers =>
          dsimp only
          rw [mem_keptNames_iff (fun i => j.options.verbatimModuleSyntax || j.isUsed i) hkept]
          cases c.isTypeOnly <;> simp [and_comm]

end Print

namespace Bindings.Lists

variable {b : Bindings} {n : Node} {e : ExportSpecifier} {id : SymbolId}

theorem isTypeOnly_eq_false (h : b.Lists n e id) : e.isTypeOnly = false := by
  have he := h.mem
  unfold Node.listedExports at he
  split at he
  · simpa using (List.mem_filter.mp he).2
  · cases he

/-- The name stays in the list as it is printed. -/
theorem mem_keptExports (h : b.Lists n e id) {p : PrintPlace} (hbindings : p.job.bindings = b)
    (hscope : p.scope = rootScope) : e ∈ Print.keptExports p false n.listedExports := by
  have hresolved : p.resolve? e.source.text SymbolFlags.value = some id := by
    rw [PrintPlace.resolve?, hscope, hbindings]
    exact h.listed
  have hvalue : p.namesOnlyType e.source.text = false := by
    rw [PrintPlace.namesOnlyType, hresolved]
    rfl
  unfold Print.keptExports
  rw [List.mem_filter, hvalue]
  simp [h.mem, h.isTypeOnly_eq_false]

end Bindings.Lists

/-- Export lists and imports. A name of an export list that stands for an import stays in the list;
the import that declares it stays if it is not only a type. So the printed list names something that
is declared in the output exactly if the import is one of values. -/
theorem listed_import_declared_iff {f : SourceFile} {b : Bindings} {o : Options} {p : PrintPlace}
    (hjob : p.job = .ofFile f b o) (hscope : p.scope = Bindings.rootScope) {n : Node}
    (hn : n ∈ f.statements) (hcount : n.id < f.nodeCount) {e : ExportSpecifier}
    (he : e ∈ n.listedExports) {c : ImportClause} {name : Identifier} {id : SymbolId}
    (hname : b.symbolOf? name.id = some id) (hlisted : b.listed? e = some id) :
    e ∈ Print.keptExports p false n.listedExports ∧
      ((∃ k, Print.keptImport? p.job c = some k ∧ name ∈ k.names) ↔
        (name, false) ∈ c.declared) := by
  have hlists : b.Lists n e id := ⟨he, hlisted⟩
  have hused : p.job.isUsed name = true := by
    have hmarked := ValueUses.contains_of_lists hn hcount hlists
    rw [hjob]
    change ((b.symbolOf? name.id).any (ValueUses.ofFile f b).contains) = true
    rw [hname]
    exact hmarked
  exact ⟨hlists.mem_keptExports (by rw [hjob]; rfl) hscope, Print.mem_keptImport?_iff hused⟩

/-- A module that exports what it imports. -/
def passedOn : SourceFile :=
  (parseSource "input.ts" "import \x7b a \x7d from \"m\";\nexport \x7b a \x7d;").1

/-- The level of that module. -/
def passedOnPlace : PrintPlace :=
  { job := .ofFile passedOn passedOn.bind {}
    scope := Bindings.rootScope, target := .topLevel, currentEnum? := none }

/-- What that module imports. -/
def passedOnClause : ImportClause :=
  match passedOn.statements with
  | ⟨_, _, .importStmt _ (some c) _ _⟩ :: _ => c
  | _ => default

theorem passedOn_declared : ∃ n ∈ passedOn.statements, ∃ e ∈ n.listedExports,
    e ∈ Print.keptExports passedOnPlace false n.listedExports ∧
      ∃ name k, passedOn.bind.symbolOf? name.id = some 0 ∧
        Print.keptImport? passedOnPlace.job passedOnClause = some k ∧ name ∈ k.names := by
  have hfile : (∃ n ∈ passedOn.statements, n.id < passedOn.nodeCount ∧
        ∃ e ∈ n.listedExports, passedOn.bind.listed? e = some 0) ∧
      ∃ d ∈ passedOnClause.declared, passedOn.bind.symbolOf? d.1.id = some 0 ∧ d.2 = false := by
    decide +kernel
  obtain ⟨⟨n, hn, hcount, e, he, hlisted⟩, ⟨name, _⟩, hname, hid, rfl⟩ := hfile
  obtain ⟨hkept, himport⟩ := listed_import_declared_iff (p := passedOnPlace) (c := passedOnClause)
    rfl rfl hn hcount he hid hlisted
  obtain ⟨k, hk, hdeclared⟩ := himport.mpr hname
  exact ⟨n, hn, e, he, hkept, name, k, hid, hk, hdeclared⟩

namespace Print

/-- A step that at a place writes something whatever was written before, or nothing. -/
def Tells (p : PrintPlace) (writes : Bool) (m : Print Unit) : Prop :=
  ∀ s, (m p s).2.writer.wroteSince s.writer.mark = writes

theorem Voiced.tells {m : Print Unit} (h : Voiced m) (p : PrintPlace) : Tells p true m :=
  fun s => decide_eq_true (h.writes p s)

namespace Tells

variable {p : PrintPlace} {m : Print Unit} {writes : Bool}

theorem nothing : Tells p false (pure ()) :=
  fun s => decide_eq_false (Nat.lt_irrefl s.writer.length)

/-- A step that is taken under a condition. -/
theorem when {c : Bool} (h : c = true → Tells p true m) : Tells p c (if c then m else pure ()) := by
  cases c with
  | true => exact h rfl
  | false => exact nothing

/-- A step that is left out under a condition. -/
theorem otherwise {c : Bool} (h : c = false → Tells p writes m) :
    Tells p (!c && writes) (if c then pure () else m) := by
  cases c with
  | true => exact nothing
  | false => exact h rfl

theorem ask {k : PrintPlace → Print Unit} (h : Tells p writes (k p)) :
    Tells p writes (read >>= k) := h

theorem job {k : PrintJob → Print Unit} (h : Tells p writes (k p.job)) :
    Tells p writes (Print.job >>= k) := h

theorem target {k : ExportTarget → Print Unit} (h : Tells p writes (k p.target)) :
    Tells p writes (Print.target >>= k) := h

section
variable {print : Slot → Node → Print Bool} (hprint : ComposedNodes print)
include hprint

theorem variableStatement (htarget : p.target = .topLevel) (ms : Modifiers) (kind : VariableKind)
    (declarations : List Node) :
    Tells p (!ms.isAmbient) (Print.variableStatement print ms kind declarations) := by
  rw [← Bool.and_true (!ms.isAmbient)]
  refine target (otherwise fun _ => ?_)
  rw [htarget]
  refine Voiced.tells (Voiced.when (.write _) (Voiced.seq ?_ (.write _))) p
  exact .variableList hprint kind declarations

theorem enumDeclaration (ms : Modifiers) {name : Identifier} {owner : SymbolId}
    (howner : p.job.bindings.symbolOf? name.id = some owner) (members : List Node) :
    Tells p (!(ms.isAmbient || (ms.has .isConst && !p.job.options.preserveConstEnums)))
      (Print.enumDeclaration print ms name members) := by
  rw [← Bool.and_true (!(ms.isAmbient || _))]
  refine job (otherwise fun _ => ?_)
  rw [howner]
  refine Voiced.tells (Voiced.after (.objectVariable _ _ _ _) fun _ => ?_) p
  exact .objectFiller _ _ (.enumMembers hprint _ _ _)

theorem moduleStatement {n : Node} {owner : SymbolId}
    (howner : p.job.bindings.symbolOf? n.id = some owner) :
    Tells p (match n.form with
        | .moduleDeclaration _ (.identifier _) _ false =>
            n.isInstantiated p.job.options.preserveConstEnums
        | _ => false) (Print.moduleStatement print n) := by
  unfold Print.moduleStatement Print.namespaceDeclaration
  cases n.form with
  | moduleDeclaration ms name body? isGlobal =>
      refine job ?_
      cases name with
      | string _ => exact nothing
      | identifier name =>
          cases isGlobal with
          | true => exact nothing
          | false =>
              refine when fun _ => ?_
              rw [howner]
              refine Voiced.tells (Voiced.after (.objectVariable _ _ _ _) fun _ => ?_) p
              exact .objectFiller _ _ (.inScopeOf _ (.withTarget _ (.namespaceBody hprint _)))
  | _ => exact nothing

end

theorem requireAssignment {name : Identifier} (hmodule : p.job.isCommonJS = false)
    (hused : p.job.isUsed name = true) (specifier : StringLiteral) (isExported : Bool) :
    Tells p (p.job.options.moduleKind = .preserve)
      (Print.requireAssignment name specifier isExported) := by
  refine job ?_
  rw [hmodule, hused, Bool.or_true, Bool.and_true, Bool.false_or, Bool.false_and,
    if_neg Bool.false_ne_true]
  refine when fun _ => (Voiced.write ?_).tells p
  simp

theorem importAssignment (isTypeOnly : Bool) {name : Identifier}
    (hmodule : p.job.isCommonJS = false) (hused : p.job.isUsed name = true)
    (reference : ModuleReference) (isExported : Bool) :
    Tells p (!isTypeOnly && match reference with
        | .external _ => p.job.options.moduleKind = .preserve
        | .entity reference => startsWithValue p reference)
      (Print.importAssignment isTypeOnly name reference isExported) := by
  refine job (otherwise fun _ => ?_)
  cases reference with
  | external specifier => exact requireAssignment hmodule hused specifier isExported
  | entity reference =>
      refine ask ?_
      rw [hused, Bool.or_true, Bool.and_true]
      refine when fun _ => target ?_
      refine Voiced.tells (.seq (.write ?_) ?_) p
      · simp
      · exact (Composed.entityName _).seq (.write _)

section
variable {print : Slot → Node → Print Bool} (hprint : ComposedNodes print)
include hprint

theorem functionDeclaration (ms : Modifiers) (name? : Option Identifier) (n : Node) :
    Tells p (n.func.body.isSome && !ms.isAmbient)
      (Print.functionDeclaration print ms name? n) := by
  cases h : n.func.body.isSome && !ms.isAmbient with
  | true => exact (Voiced.functionDeclaration hprint h name?).tells p
  | false =>
      rw [functionDeclaration_erased h]
      exact nothing

theorem classDeclaration (n : Node) :
    Tells p (!n.classLike.modifiers.isAmbient) (Print.classDeclaration print n) := by
  cases h : n.classLike.modifiers.isAmbient with
  | true =>
      rw [show Print.classDeclaration print n = pure () from if_pos h]
      exact nothing
  | false => exact (Voiced.classDeclaration hprint h).tells p

end

end Tells

end Print

/-- The nodes by which a statement declares what is neither imported nor only a type. -/
def Node.localNodes (n : Node) : List NodeId :=
  match n.form with
  | .functionStmt _ name? _ => (name?.map Identifier.id).toList
  | .importStmt _ _ _ _ => []
  | _ => ModuleExports.declaredNodes n

/-- Whether what a statement declares exists when the program runs. An import assignment declares
what it refers to. -/
def PrintPlace.hasValue (p : PrintPlace) (m : Node) : Bool :=
  match m.form with
  | .varStmt ms _ => !ms.isAmbient
  | .functionStmt ms _ func => func.func.body.isSome && !ms.isAmbient
  | .classStmt cls => !cls.classLike.modifiers.isAmbient
  | .enumStmt ms _ _ =>
      !(ms.isAmbient || (ms.has .isConst && !p.job.options.preserveConstEnums))
  | .moduleStmt declaration =>
      match declaration.form with
      | .moduleDeclaration _ (.identifier _) _ false =>
          declaration.isInstantiated p.job.options.preserveConstEnums
      | _ => false
  | .importEqualsStmt _ isTypeOnly _ reference =>
      !isTypeOnly && match reference with
        | .external _ => p.job.options.moduleKind = .preserve
        | .entity reference => Print.startsWithValue p reference
  | _ => false

theorem Print.tells_statementForm {print : Slot → Node → Print Bool}
    (hprint : ComposedNodes print) {p : PrintPlace} (hmodule : p.job.isCommonJS = false)
    (htarget : p.target = .topLevel) {m : Node} {i : NodeId} (hi : i ∈ m.localNodes) {id : SymbolId}
    (hid : p.job.bindings.symbolOf? i = some id) (hused : p.job.uses.contains id = true) :
    Tells p (p.hasValue m) (statementForm print m) := by
  unfold Node.localNodes ModuleExports.declaredNodes at hi
  unfold PrintPlace.hasValue Print.statementForm
  cases hform : m.form with
  | varStmt ms list =>
      rw [hform] at hi
      dsimp only at hi ⊢
      cases hlist : list.form with
      | variableList kind declarations =>
          exact Tells.variableStatement hprint htarget ms kind declarations
      | _ =>
          rw [hlist] at hi
          cases hi
  | functionStmt ms name? func => exact Tells.functionDeclaration hprint ms name? func
  | classStmt cls => exact Tells.classDeclaration hprint cls
  | enumStmt ms name members =>
      rw [hform] at hi
      obtain rfl := List.mem_singleton.mp hi
      exact Tells.enumDeclaration hprint ms hid members
  | moduleStmt declaration =>
      rw [hform] at hi
      obtain rfl := List.mem_singleton.mp hi
      exact Tells.moduleStatement hprint hid
  | importEqualsStmt ms isTypeOnly name reference =>
      rw [hform] at hi
      obtain rfl := List.mem_singleton.mp hi
      refine Tells.importAssignment isTypeOnly hmodule ?_ reference ms.isExport
      change (p.job.bindings.symbolOf? name.id).any p.job.uses.contains = true
      rw [hid]
      exact hused
  | _ =>
      rw [hform] at hi
      cases hi

/-- Export lists and declarations. A name of an export list that stands for something declared in
the file stays in the list; each statement that declares it is printed exactly if what it declares
there exists when the program runs. -/
theorem listed_local_declared_iff {f : SourceFile} {b : Bindings} {o : Options} {j : PrintJob}
    (hjob : j = .ofFile f b o) (hmodule : j.isCommonJS = false) {n : Node} (hn : n ∈ f.statements)
    (hcount : n.id < f.nodeCount) {e : ExportSpecifier} (he : e ∈ n.listedExports) {id : SymbolId}
    (hlisted : b.listed? e = some id) {m : Node} {i : NodeId} (hi : i ∈ m.localNodes)
    (hid : b.symbolOf? i = some id) (fuel : Nat) (s : PrintState) :
    e ∈ Print.keptExports j.place false n.listedExports ∧
      ((Print.nodeWithin (fuel + 1) .statement m j.place s).1 = true ↔
        j.place.hasValue m = true) := by
  have hlists : b.Lists n e id := ⟨he, hlisted⟩
  have htarget : j.place.target = .topLevel := by
    unfold PrintJob.place
    rw [hmodule]
    rfl
  have hused : j.uses.contains id = true := by
    rw [hjob]
    exact ValueUses.contains_of_lists hn hcount hlists
  have hprint := Print.ComposedNodes.nodeWithin fuel
  have htold : (Print.nodeWithin (fuel + 1) .statement m j.place s).1 = j.place.hasValue m := by
    refine ((Print.traces_statement hprint m).told j.place s s).trans ?_
    refine Print.tells_statementForm hprint hmodule htarget hi ?_ hused s
    rw [hjob]
    exact hid
  exact ⟨hlists.mem_keptExports (by rw [hjob]; rfl) rfl, by rw [htold]⟩

/-- A module that exports a type as if it were a value. -/
def exportedType : String := "import type \x7b T \x7d from \"m\";\nexport \x7b T \x7d;"

/-- The list keeps the name, but the import is gone: nothing in the output declares the name. -/
theorem exported_type_undeclared :
    (compile id "input.ts" exportedType).diagnostics = [] ∧
      (compile id "input.ts" exportedType).output? = some "export \x7b T \x7d;\n" ∧
      (parseSource "output.js" "export \x7b T \x7d;\n").2 = [] ∧
      ((parseSource "output.js" "export \x7b T \x7d;\n").1.statements.flatMap
        Node.listedExports).map (fun e => (e.source.text,
          (parseSource "output.js" "export \x7b T \x7d;\n").1.bind.listed? e)) = [("T", none)] := by
  decide +kernel

/-- The names that a file imports and that are not only types. -/
def SourceFile.importedNames (f : SourceFile) : List String :=
  f.statements.flatMap fun n =>
    match n.form with
    | .importStmt _ (some clause) _ _ =>
        if clause.isTypeOnly then []
        else
          (clause.name?.map Identifier.text).toList ++
            match clause.bindings? with
            | some (.all name) => [name.text]
            | some (.named specifiers) =>
                (specifiers.filter fun s => !s.isTypeOnly).map fun s => s.name.text
            | none => []
    | _ => []

/-- The name that a statement of a file reads as the subject of a `switch`. -/
def Node.switchedName? (n : Node) : Option String :=
  match n.form with
  | .switchStmt subject _ => subject.identifier?
  | _ => none

/-- A file that selects by an imported name, which a clause declares once more. -/
def shadowedSwitch : String :=
  "import \x7b x \x7d from \"m\";\nswitch (x) \x7b default: let x; \x7d"

/-- The declaration in the clause hides the import from the walk, but not from the subject: the
output reads a name that it does not import any more. -/
theorem import_lost_behind_switch :
    (parseSource "input.ts" shadowedSwitch).1.importedNames = ["x"] ∧
      (compile id "input.ts" shadowedSwitch).diagnostics = [] ∧
      (compile id "input.ts" shadowedSwitch).output? =
        some "switch (x) \x7b\n    default: let x;\n\x7d\n" ∧
      (parseSource "output.js" "switch (x) \x7b\n    default: let x;\n\x7d\n").2 = [] ∧
      (parseSource "output.js"
        "switch (x) \x7b\n    default: let x;\n\x7d\n").1.importedNames = [] ∧
      (parseSource "output.js" "switch (x) \x7b\n    default: let x;\n\x7d\n").1.statements.map
        Node.switchedName? = [some "x"] := by
  decide +kernel

end Erasure

import Erasure.Print.Linkage
import Erasure.Proofs.Untyped.Uses

/-!
The ties of a module to others, with and without its types. Names are made in the same order, and
stand for matching symbols.
-/

namespace Erasure

variable {M : Matching} {outside : NodeId → Prop} {b b' : Bindings}

namespace ImportClause

variable {c : ImportClause}

theorem mem_nameIds_of_name {i : Identifier} (h : i ∈ c.name?) : i.id ∈ c.nameIds :=
  List.mem_append_left _ (List.mem_map.mpr ⟨i, Option.mem_toList.mpr h, rfl⟩)

theorem mem_nameIds_of_all {i : Identifier} (h : c.bindings? = some (.all i)) :
    i.id ∈ c.nameIds := by
  refine List.mem_append_right _ ?_
  rw [h]
  exact List.mem_singleton.mpr rfl

theorem mem_nameIds_of_named {specifiers : List ImportSpecifier}
    (h : c.bindings? = some (.named specifiers)) {s : ImportSpecifier} (hs : s ∈ specifiers) :
    s.name.id ∈ c.nameIds := by
  refine List.mem_append_right _ ?_
  rw [h]
  exact List.mem_map.mpr ⟨s, hs, rfl⟩

end ImportClause

/-- Maps that give the same to matching symbols. -/
def MapsAlike {α : Type} (M : Matching) (m m' : Std.TreeMap SymbolId α) : Prop :=
  ∀ y y', M.symbols y y' → m[y]? = m'[y']?

namespace MapsAlike

variable {α : Type} {m m' : Std.TreeMap SymbolId α} {y y' : SymbolId}

theorem empty : MapsAlike M ({} : Std.TreeMap SymbolId α) {} := fun _ _ _ => rfl

theorem insert (h : MapsAlike M m m') (hb : b.Matches M outside b') (hy : M.symbols y y') (a : α) :
    MapsAlike M (m.insert y a) (m'.insert y' a) := by
  intro z z' hz
  have heq := hb.symbols_eq_iff y y' z z' hy hz
  simp only [Std.TreeMap.getElem?_insert, Nat.compare_eq_eq, heq]
  split
  · rfl
  · exact h z z' hz

theorem contains (h : MapsAlike M m m') (hy : M.symbols y y') : m.contains y = m'.contains y' := by
  rw [Std.TreeMap.contains_eq_isSome_getElem?, Std.TreeMap.contains_eq_isSome_getElem?, h y y' hy]

theorem getD (h : MapsAlike M m m') (hy : M.symbols y y') (a : α) : m.getD y a = m'.getD y' a := by
  rw [Std.TreeMap.getD_eq_getD_getElem?, Std.TreeMap.getD_eq_getD_getElem?, h y y' hy]

end MapsAlike

namespace Linkage

/-- The same names for matching symbols. -/
structure Alike (M : Matching) (l l' : Linkage) : Prop where
  requires : l.requires = l'.requires
  replacements : MapsAlike M l.replacements l'.replacements
  exportedAs : MapsAlike M l.exportedAs l'.exportedAs
  defaultName : l.defaultName? = l'.defaultName?
  fresh : l.fresh = l'.fresh

namespace Alike

variable {l l' : Linkage} {f : SourceFile} {u u' : ValueUses}

theorem empty : Alike M {} {} := ⟨rfl, .empty, .empty, rfl, rfl⟩

theorem freshName_fst (h : Alike M l l') (base : String) :
    (l.freshName f base).1 = (l'.freshName f.untyped base).1 := by
  change FreshName.choose l.fresh f.text base = FreshName.choose l'.fresh f.text base
  rw [h.fresh]

theorem freshName_snd (h : Alike M l l') (base : String) :
    Alike M (l.freshName f base).2 (l'.freshName f.untyped base).2 :=
  { h with fresh := congrArg₂ List.cons (h.freshName_fst base) h.fresh }

theorem addReplacement (h : Alike M l l') (hb : b.Matches M outside b') {name : Identifier}
    (hname : outside name.id) (text : String) :
    Alike M (l.addReplacement b name text) (l'.addReplacement b' name text) := by
  have hsymbol := hb.symbolOf? name.id hname
  unfold Linkage.addReplacement
  revert hsymbol
  cases b.symbolOf? name.id <;> cases b'.symbolOf? name.id <;> rintro ⟨⟩
  · exact h
  · rename_i hy
    exact { h with replacements := h.replacements.insert hb hy text }

theorem addReplacements (h : Alike M l l') (hb : b.Matches M outside b') (variableName : String)
    {default? : Option Identifier} (hdefault : ∀ i ∈ default?, outside i.id)
    {named : List ImportSpecifier} (hnamed : ∀ s ∈ named, outside s.name.id) :
    Alike M (l.addReplacements b variableName default? named)
      (l'.addReplacements b' variableName default? named) := by
  have hfold : ∀ k k' : Linkage, Alike M k k' →
      Alike M
        (named.foldl (fun l s =>
          l.addReplacement b s.name (Text.memberAccess variableName (importedName s))) k)
        (named.foldl (fun l s =>
          l.addReplacement b' s.name (Text.memberAccess variableName (importedName s))) k') := by
    induction named with
    | nil => exact fun _ _ hk => hk
    | cons s named ih =>
        obtain ⟨hs, hnamed⟩ := List.forall_mem_cons.mp hnamed
        exact fun k k' hk => ih hnamed _ _ (hk.addReplacement hb hs _)
  cases default? with
  | none => exact hfold _ _ h
  | some i => exact hfold _ _ (h.addReplacement hb (hdefault i rfl) _)

theorem addRequire (h : Alike M l l') (node : NodeId) {name name' : String} (hname : name = name') :
    Alike M { l with requires := l.requires.insert node name }
      { l' with requires := l'.requires.insert node name' } :=
  { h with requires := congrArg₂ (·.insert node ·) h.requires hname }

theorem isUsed (hb : b.Matches M outside b') (hu : u.Alike M u') {name : Identifier}
    (hname : outside name.id) : Linkage.isUsed b u name = Linkage.isUsed b' u' name :=
  rel_any (hb.symbolOf? name.id hname) fun y y' hy => hu.used y y' hy

section
variable (hb : b.Matches M outside b') (hu : u.Alike M u') {clause : ImportClause}
variable (hclause : ∀ i ∈ clause.nameIds, outside i)
include hb hu hclause

theorem usedDefault? :
    clause.name?.filter (Linkage.isUsed b u) = clause.name?.filter (Linkage.isUsed b' u') := by
  cases h : clause.name? with
  | none => rfl
  | some i =>
      have hi := hclause i.id (ImportClause.mem_nameIds_of_name h)
      rw [Option.filter_some, Option.filter_some, isUsed hb hu hi]

theorem usedNamespace? (default? : Option Identifier) :
    Linkage.usedNamespace? b u default? clause.bindings? =
      Linkage.usedNamespace? b' u' default? clause.bindings? := by
  cases h : clause.bindings? with
  | none => rfl
  | some bindings =>
      cases bindings with
      | named _ => rfl
      | all name =>
          have hname := hclause name.id (ImportClause.mem_nameIds_of_all h)
          rw [Linkage.usedNamespace?, Linkage.usedNamespace?, isUsed hb hu hname]

theorem usedSpecifiers :
    Linkage.usedSpecifiers b u clause.bindings? =
      Linkage.usedSpecifiers b' u' clause.bindings? := by
  cases h : clause.bindings? with
  | none => rfl
  | some bindings =>
      cases bindings with
      | all _ => rfl
      | named specifiers =>
          refine List.filter_congr fun s hs => ?_
          rw [isUsed hb hu (hclause _ (ImportClause.mem_nameIds_of_named h hs))]

end

theorem addImport (h : Alike M l l') (hb : b.Matches M outside b') (hu : u.Alike M u')
    (node : NodeId) {clause : ImportClause} (hclause : ∀ i ∈ clause.nameIds, outside i)
    (specifier : StringLiteral) :
    Alike M (l.addImport f b u node clause specifier)
      (l'.addImport f.untyped b' u' node clause specifier) := by
  have hdefault : ∀ i ∈ clause.name?.filter (Linkage.isUsed b' u'), outside i.id :=
    fun i hi => hclause i.id (ImportClause.mem_nameIds_of_name (Option.mem_filter_iff.mp hi).1)
  have hnamed : ∀ s ∈ Linkage.usedSpecifiers b' u' clause.bindings?, outside s.name.id := by
    intro s hs
    unfold Linkage.usedSpecifiers at hs
    split at hs
    · rename_i specifiers hbindings
      exact hclause _ (ImportClause.mem_nameIds_of_named hbindings (List.mem_filter.mp hs).1)
    · cases hs
  unfold Linkage.addImport
  dsimp only
  rw [usedDefault? hb hu hclause, usedNamespace? hb hu hclause, usedSpecifiers hb hu hclause]
  split
  · exact h
  · cases Linkage.usedNamespace? b' u' _ clause.bindings? with
    | some name => exact (h.addReplacements hb _ hdefault hnamed).addRequire node rfl
    | none =>
        have hname := h.freshName_fst (f := f) (FreshName.ofSpecifier specifier.value)
        have hfresh := h.freshName_snd (f := f) (FreshName.ofSpecifier specifier.value)
        dsimp only
        rw [hname]
        exact (hfresh.addReplacements hb _ hdefault hnamed).addRequire node rfl

theorem addDefaultName (h : Alike M l l') :
    Alike M (l.addDefaultName f) (l'.addDefaultName f.untyped) :=
  { h.freshName_snd (f := f) "default" with
    defaultName := congrArg some (h.freshName_fst "default") }

theorem addStatement (h : Alike M l l') (hb : b.Matches M outside b') (hu : u.Alike M u')
    {n : Node} (hn : n.Apart outside) :
    Alike M (l.addStatement f b u n) (l'.addStatement f.untyped b' u' n.untyped) := by
  have hnames := hn.name
  unfold Linkage.addStatement
  rw [Node.form_untyped, Node.id_untyped]
  cases hform : n.form with
  | importStmt ms clause? specifier attributes =>
      rw [hform] at hnames
      cases clause? with
      | none => exact h
      | some clause => exact h.addImport hb hu n.id hnames specifier
  | exportStmt ms isTypeOnly clause? specifier? attributes =>
      cases isTypeOnly with
      | true => exact h
      | false =>
          cases clause? with
          | none => exact h
          | some clause =>
              cases clause with
              | all _ => exact h
              | named _ =>
                  cases specifier? with
                  | none => exact h
                  | some specifier =>
                      have hname := h.freshName_fst (f := f) (FreshName.ofSpecifier specifier.value)
                      have hk := h.freshName_snd (f := f) (FreshName.ofSpecifier specifier.value)
                      exact hk.addRequire n.id hname
  | functionStmt ms name? func =>
      cases name? with
      | some _ => exact h
      | none =>
          change Alike M (if ms.isDefault && func.func.body.isSome then _ else _)
            (if ms.isDefault && func.untyped.func.body.isSome then _ else _)
          rw [Node.func_untyped, FunctionLike.body_untyped, Option.isSome_map]
          split
          · exact h.addDefaultName
          · exact h
  | classStmt cls =>
      have hcls : cls.untyped.classLike = cls.classLike.untyped := cls.classLike_untyped
      change Alike M _ (if cls.untyped.classLike.name.isNone &&
        cls.untyped.classLike.modifiers.isDefault && !cls.untyped.classLike.modifiers.isAmbient
        then _ else _)
      rw [hcls, ClassLike.name_untyped, ClassLike.modifiers_untyped]
      dsimp only
      split
      · exact h.addDefaultName
      · exact h
  | _ => exact h

theorem addExport (h : Alike M l l') (hb : b.Matches M outside b') (s : ExportSpecifier) :
    Alike M (l.addExport b s) (l'.addExport b' s) := by
  have hresolved := hb.resolve? hb.root s.source.text SymbolFlags.value
  unfold Linkage.addExport
  revert hresolved
  cases b.resolve? Bindings.rootScope s.source.text SymbolFlags.value <;>
    cases b'.resolve? Bindings.rootScope s.source.text SymbolFlags.value <;> rintro ⟨⟩
  · exact h
  · rename_i y y' hy
    dsimp only
    rw [h.replacements.contains hy, h.exportedAs.getD hy]
    split
    · exact h
    · exact { h with exportedAs := h.exportedAs.insert hb hy _ }

theorem addExports (h : Alike M l l') (hb : b.Matches M outside b') (n : Node) :
    Alike M (l.addExports b n) (l'.addExports b' n.untyped) := by
  have hfold : ∀ ss : List ExportSpecifier,
      Alike M (ss.foldl (Linkage.addExport b) l) (ss.foldl (Linkage.addExport b') l') := by
    intro ss
    induction ss generalizing l l' with
    | nil => exact h
    | cons s ss ih => exact ih (h.addExport hb s)
  unfold Linkage.addExports
  rw [Node.form_untyped]
  cases n.form with
  | exportStmt ms isTypeOnly clause? specifier? attributes =>
      cases isTypeOnly with
      | true => exact h
      | false =>
          cases clause? with
          | none => exact h
          | some clause =>
              cases clause with
              | all _ => exact h
              | named _ =>
                  cases specifier? with
                  | none => exact hfold _
                  | some _ => exact h
  | _ => exact h

end Alike

/-- A file is tied to others by the same names with and without its types. -/
theorem alike_ofFile {f : SourceFile} {u u' : ValueUses} (hf : ∀ n ∈ f.statements, n.Apart outside)
    (hb : b.Matches M outside b') (hu : u.Alike M u') :
    Alike M (ofFile f b u) (ofFile f.untyped b' u') := by
  have hfold : ∀ (add add' : Linkage → Node → Linkage) (ns : List Node) (l l' : Linkage),
      (∀ n ∈ ns, ∀ k k', Alike M k k' → Alike M (add k n) (add' k' n.untyped)) → Alike M l l' →
      Alike M (ns.foldl add l) ((ns.map Node.untyped).foldl add' l') := by
    intro add add' ns
    induction ns with
    | nil => exact fun _ _ _ h => h
    | cons n ns ih =>
        intro l l' hadd h
        obtain ⟨hn, hns⟩ := List.forall_mem_cons.mp hadd
        exact ih _ _ hns (hn _ _ h)
  unfold ofFile
  change Alike M _ ((untypedAll f.statements).foldl (addExports b')
    ((untypedAll f.statements).foldl (addStatement f.untyped b' u') {}))
  rw [untypedAll_eq_map]
  refine hfold _ _ _ _ _ (fun n _ k k' hk => hk.addExports hb n) ?_
  exact hfold _ _ _ _ _ (fun n hn k k' hk => hk.addStatement hb hu (hf n hn)) .empty

end Linkage
end Erasure

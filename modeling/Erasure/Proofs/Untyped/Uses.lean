import Erasure.Print.ValueUse
import Erasure.Proofs.Untyped.BinderWalk

/-!
The names that a file uses as values, with and without its types. The walk that finds them passes
types by, so that it marks matching symbols in both.
-/

namespace Erasure

variable {M : Matching} {outside : NodeId → Prop} {b b' : Bindings}

theorem Form.isTypeSyntax_untyped (form : Form) :
    form.untyped.isTypeSyntax = form.isTypeSyntax := by
  cases form <;> rfl

theorem Form.isErasedMember_untyped (ambient : Bool) (form : Form) :
    form.untyped.isErasedMember ambient = form.isErasedMember ambient := by
  have hbody : ∀ func : Node, func.untyped.func.body.isNone = func.func.body.isNone := by simp
  cases form with
  | methodMember _ _ func | getterMember _ func | setterMember _ func | constructorMember func =>
      exact hbody func
  | _ => rfl

namespace ValueUses

/-- Uses of matching symbols. -/
structure Alike (M : Matching) (u u' : ValueUses) : Prop where
  used : ∀ y y', M.symbols y y' → u.contains y = u'.contains y'
  aliases : List.Forall₂ (fun a a' => M.symbols a.1 a'.1 ∧ M.symbols a.2 a'.2) u.aliases u'.aliases

theorem contains_insert (u : ValueUses) (y z : SymbolId) :
    (u.insert y).contains z = (decide (z = y) || u.contains z) := by
  have hcompare : (compare y z == .eq) = decide (z = y) := by
    rw [Bool.eq_iff_iff, beq_iff_eq, Nat.compare_eq_eq, decide_eq_true_iff]
    exact eq_comm
  rw [contains, insert, Std.TreeSet.contains_insert, hcompare]
  rfl

namespace Alike

variable {u u' : ValueUses}

theorem empty : Alike M {} {} := ⟨fun _ _ _ => rfl, .nil⟩

theorem insert (h : Alike M u u') (hb : b.Matches M outside b') {y y' : SymbolId}
    (hy : M.symbols y y') : Alike M (u.insert y) (u'.insert y') where
  used z z' hz := by
    rw [contains_insert, contains_insert, h.used z z' hz,
      decide_eq_decide.mpr (hb.symbols_eq_iff z z' y y' hz hy)]
  aliases := h.aliases

theorem foldAliases (hb : b.Matches M outside b') {as as' : List (SymbolId × SymbolId)}
    (has : List.Forall₂ (fun a a' => M.symbols a.1 a'.1 ∧ M.symbols a.2 a'.2) as as')
    (h : Alike M u u') :
    Alike M (as.foldl (fun u a => if u.contains a.1 then u.insert a.2 else u) u)
      (as'.foldl (fun u a => if u.contains a.1 then u.insert a.2 else u) u') := by
  induction has generalizing u u' with
  | nil => exact h
  | cons ha _ ih =>
      refine ih ?_
      dsimp only
      rw [h.used _ _ ha.1]
      split
      · exact h.insert hb ha.2
      · exact h

theorem followAliases (hb : b.Matches M outside b') (h : Alike M u u') :
    Alike M u.followAliases u'.followAliases :=
  foldAliases hb h.aliases h

theorem closed (hb : b.Matches M outside b') (h : Alike M u u') : Alike M u.closed u'.closed := by
  unfold ValueUses.closed
  rw [h.aliases.length_eq]
  generalize u'.aliases.length = count
  induction count with
  | zero => exact h
  | succ count ih => exact ih.followAliases hb

end Alike

/-- Steps of the walk from matching scopes that mark matching symbols. -/
def Agrees (M : Matching) (m m' : Walk Unit) : Prop :=
  ∀ (s s' : ScopeId) (u u' : ValueUses), M.scopes s s' → Alike M u u' →
    Alike M (m s u).2 (m' s' u').2

/-- Walks that agree on syntax outside of types and pass types by. -/
structure WalksAlike (M : Matching) (outside : NodeId → Prop)
    (walk walk' : Node → Walk Unit) : Prop where
  value : ∀ n : Node, n.Apart outside → Agrees M (walk n) (walk' n.untyped)
  type : ∀ t : Node, t.form.isTypeSyntax = true → walk t = pure ()
  blank : walk' .blankType = pure ()

namespace Agrees

variable {m m' k k' : Walk Unit}

theorem unit : Agrees M (pure ()) (pure ()) := fun _ _ _ _ _ hu => hu

theorem seq (h : Agrees M m m') (hk : Agrees M k k') :
    Agrees M (do m; k) (do m'; k') :=
  fun s s' u u' hs hu => hk s s' _ _ hs (h s s' u u' hs hu)

theorem forM {ε : Type} {as : List ε} {v : ε → ε} {f f' : ε → Walk Unit}
    (h : ∀ a ∈ as, Agrees M (f a) (f' (v a))) : Agrees M (as.forM f) ((as.map v).forM f') := by
  induction as with
  | nil => exact unit
  | cons a as ih =>
      obtain ⟨ha, has⟩ := List.forall_mem_cons.mp h
      exact seq ha (ih has)

theorem forM_same {ε : Type} {as : List ε} {f f' : ε → Walk Unit}
    (h : ∀ a ∈ as, Agrees M (f a) (f' a)) : Agrees M (as.forM f) (as.forM f') := by
  have hmap := forM (v := id) h
  rwa [List.map_id] at hmap

theorem inScopeOf (hb : b.Matches M outside b') {node node' : NodeId} (hnode : outside node)
    (heq : node' = node) (h : Agrees M m m') :
    Agrees M (inScopeOf b node m) (inScopeOf b' node' m') := by
  subst heq
  exact fun s s' u u' hs hu => h _ _ u u' (rel_getD (hb.scopeOf? node' hnode) hs) hu

theorem reading {f f' : ScopeId → Walk Unit} (h : ∀ s s', M.scopes s s' → Agrees M (f s) (f' s')) :
    Agrees M (do let s ← read; f s) (do let s ← read; f' s) :=
  fun s s' u u' hs hu => h s s' hs s s' u u' hs hu

theorem mark (hb : b.Matches M outside b') {y y' : SymbolId} (hy : M.symbols y y') :
    Agrees M (modify (·.insert y)) (modify (·.insert y')) :=
  fun _ _ _ _ _ hu => hu.insert hb hy

theorem markName (hb : b.Matches M outside b') (name : String) :
    Agrees M (markName b name) (markName b' name) := by
  refine reading fun s s' hs => ?_
  have hresolve := hb.resolve? hs name SymbolFlags.value
  cases h : b.resolve? s name SymbolFlags.value <;>
    cases h' : b'.resolve? s' name SymbolFlags.value <;> rw [h, h'] at hresolve <;> cases hresolve
  · exact unit
  · rename_i hy
    exact mark hb hy

theorem markExports (hb : b.Matches M outside b') (specifiers : List ExportSpecifier) :
    Agrees M (markExports b specifiers) (markExports b' specifiers) := by
  refine forM_same fun s _ => ?_
  split
  · exact unit
  · exact markName hb _

theorem markShorthand (hb : b.Matches M outside b') (property : Node) :
    Agrees M (markShorthand b property) (markShorthand b' property.untyped) := by
  unfold ValueUses.markShorthand
  rw [Node.form_untyped]
  cases property.form with
  | shorthandProperty name _ => exact markName hb name.text
  | _ => exact unit

theorem markReference (hb : b.Matches M outside b') {name : Identifier} (hname : outside name.id)
    (isExported : Bool) (reference : EntityName) :
    Agrees M (markReference b name isExported reference)
      (markReference b' name isExported reference) := by
  refine reading fun s s' hs => ?_
  have htarget : Option.Rel M.symbols
      (reference.first?.bind fun first =>
        b.resolve? s first.text (SymbolFlags.value ++ SymbolFlags.namespaces))
      (reference.first?.bind fun first =>
        b'.resolve? s' first.text (SymbolFlags.value ++ SymbolFlags.namespaces)) :=
    rel_bind (rel_of_eq rfl) fun first first' heq => heq ▸ hb.resolve? hs _ _
  dsimp only
  revert htarget
  generalize (reference.first?.bind fun first =>
    b.resolve? s first.text (SymbolFlags.value ++ SymbolFlags.namespaces)) = target?
  generalize (reference.first?.bind fun first =>
    b'.resolve? s' first.text (SymbolFlags.value ++ SymbolFlags.namespaces)) = target?'
  intro htarget
  cases htarget with
  | none => exact unit
  | some hy =>
      dsimp only
      split
      · exact mark hb hy
      · have hsymbol := hb.symbolOf? name.id hname
        cases h : b.symbolOf? name.id <;> cases h' : b'.symbolOf? name.id <;>
          rw [h, h'] at hsymbol <;> cases hsymbol
        · exact unit
        · rename_i hid
          exact fun _ _ _ _ _ hu =>
            { hu with aliases := List.rel_append hu.aliases (.cons ⟨hid, hy⟩ .nil) }

variable {walk walk' : Node → Walk Unit}

theorem values (hwalk : WalksAlike M outside walk walk') {ns : List Node}
    (hns : ∀ n ∈ ns, n.Apart outside) :
    Agrees M (ns.forM walk) ((ns.map Node.untyped).forM walk') :=
  forM fun n hn => hwalk.value n (hns n hn)

theorem erased (hwalk : WalksAlike M outside walk walk') {ns ms : List Node}
    (h : Erases outside false ns ms) : Agrees M (ns.forM walk) (ms.forM walk') := by
  induction h with
  | nil => exact unit
  | value hn _ ih => exact seq (hwalk.value _ hn) ih
  | @type t ns ms _ hkind _ ih =>
      change Agrees M (do walk t; ns.forM walk) _
      rw [hwalk.type t (hkind.resolve_left Bool.false_ne_true)]
      exact ih
  | @blank ns ms _ ih =>
      change Agrees M _ (do walk' .blankType; ms.forM walk')
      rw [hwalk.blank]
      exact ih

theorem classParts (hwalk : WalksAlike M outside walk walk') (hb : b.Matches M outside b')
    {n : Node} (hn : outside n.id) {c : ClassLike} (hc : c.Apart outside) :
    Agrees M (classParts b walk n c) (classParts b' walk' n.untyped c.untyped) := by
  have hmembers : Agrees M (ValueUses.inScopeOf b n.id (c.members.forM walk))
      (ValueUses.inScopeOf b' n.untyped.id (c.untyped.members.forM walk')) := by
    rw [ClassLike.members_untyped]
    exact inScopeOf hb hn n.id_untyped (values hwalk hc.members)
  unfold ValueUses.classParts
  rw [ClassLike.decorators_untyped, ClassLike.base_untyped]
  refine seq (values hwalk hc.decorators) ?_
  have hbase := hc.base
  cases hsome : c.base with
  | none => exact hmembers
  | some base =>
      have hform := (hbase base hsome).form
      simp only [Option.map_some, Node.form_untyped]
      cases h : base.form with
      | heritage _ expression _ =>
          rw [h] at hform
          exact seq (hwalk.value expression hform.1) hmembers
      | _ => exact hmembers

theorem step (hwalk : WalksAlike M outside walk walk') (hb : b.Matches M outside b') {n : Node}
    (hn : n.Apart outside) : Agrees M (step b walk n) (step b' walk' n.untyped) := by
  have hapart := hn.form
  have hname := hn.name
  have hbelow : n.form.hasClauses = false →
      Agrees M (n.visited.forM walk) (n.untyped.visited.forM walk') := by
    intro hclauses
    have herases := Node.erases_visited hn
    rw [hclauses] at herases
    exact erased hwalk herases
  have hscope : n.form.hasClauses = false →
      Agrees M (ValueUses.inScopeOf b n.id (n.visited.forM walk))
        (ValueUses.inScopeOf b' n.untyped.id (n.untyped.visited.forM walk')) :=
    fun hclauses => inScopeOf hb hn.id n.id_untyped (hbelow hclauses)
  unfold ValueUses.step
  rw [Node.form_untyped, Form.isTypeSyntax_untyped, Form.isTypeOnlyStatement_untyped]
  dsimp only
  split
  · exact unit
  · rename_i hvalue
    cases hform : n.form with
    | identifier name => exact markName hb name
    | objectLiteral properties layout =>
        rw [hform] at hbelow
        have hproperties : Agrees M (properties.forM (ValueUses.markShorthand b))
            ((untypedAll properties).forM (ValueUses.markShorthand b')) := by
          rw [untypedAll_eq_map]
          exact forM fun p _ => markShorthand hb p
        exact seq hproperties (hbelow rfl)
    | forStmt _ _ _ _ | forInStmt _ _ _ | forOfStmt _ _ _ _ | switchStmt _ _ | block _ _ _
    | arrowFunction _ _ | catchClause _ _ =>
        rw [hform] at hscope
        exact hscope rfl
    | functionLike f =>
        rw [hform] at hscope
        change Agrees M (if f.body.isNone then _ else _) (if f.untyped.body.isNone then _ else _)
        rw [FunctionLike.body_untyped, Option.isNone_map]
        split
        · exact unit
        · exact hscope rfl
    | classLike c =>
        rw [hform] at hapart
        change Agrees M (if c.modifiers.isAmbient then _ else _)
          (if c.untyped.modifiers.isAmbient then _ else _)
        rw [ClassLike.modifiers_untyped]
        split
        · exact unit
        · exact classParts hwalk hb hn.id hapart
    | classMember decorators ms member =>
        rw [hform] at hbelow
        change Agrees M (if member.isErasedMember ms.isWithoutCode then _ else _)
          (if member.untyped.isErasedMember ms.isWithoutCode then _ else _)
        rw [Form.isErasedMember_untyped]
        split
        · exact unit
        · exact hbelow rfl
    | moduleDeclaration ms name body isGlobal =>
        rw [hform] at hscope
        change Agrees M (if ms.isAmbient || isGlobal || name.identifier?.isNone then _ else _)
          (if ms.isAmbient || isGlobal || name.identifier?.isNone then _ else _)
        split
        · exact unit
        · exact hscope rfl
    | exportStmt ms isTypeOnly clause? specifier? attributes =>
        rw [hform] at hbelow
        cases clause? with
        | none => exact hbelow rfl
        | some clause =>
            cases clause with
            | all name => exact hbelow rfl
            | named specifiers =>
                cases specifier? with
                | none => exact markExports hb specifiers
                | some specifier => exact hbelow rfl
    | importEqualsStmt ms isTypeOnly name reference =>
        rw [hform] at hname hbelow
        cases reference with
        | entity reference =>
            exact markReference hb (hname _ (List.mem_singleton.mpr rfl)) ms.isExport reference
        | external specifier => exact hbelow rfl
    | interfaceStmt _ _ _ _ _ =>
        rw [hform] at hvalue
        exact (hvalue rfl).elim
    | _ =>
        rw [hform] at hbelow
        exact hbelow rfl

end Agrees

theorem walkNode_alike (hb : b.Matches M outside b') (fuel : Nat) :
    WalksAlike M outside (walkNode b fuel) (walkNode b' fuel) := by
  induction fuel with
  | zero => exact ⟨fun _ _ => .unit, fun _ _ => rfl, rfl⟩
  | succ fuel ih =>
      refine ⟨fun n hn => .step ih hb hn, fun t ht => ?_, rfl⟩
      change step b (walkNode b fuel) t = pure ()
      unfold ValueUses.step
      rw [ht]
      rfl

/-- A file uses matching symbols as values with and without its types. -/
theorem alike_ofFile {f : SourceFile} (hf : ∀ n ∈ f.statements, n.Apart outside)
    (hb : b.Matches M outside b') : Alike M (ofFile f b) (ofFile f.untyped b') := by
  have hwalk := Agrees.values (walkNode_alike hb f.nodeCount) hf
  rw [← untypedAll_eq_map] at hwalk
  exact (hwalk _ _ _ _ hb.root .empty).closed hb

end ValueUses
end Erasure

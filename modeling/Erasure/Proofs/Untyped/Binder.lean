import Erasure.Proofs.Scope.SecludedWalk
import Erasure.Proofs.Untyped.Changes
import Erasure.Proofs.Untyped.Parts

/-!
The bindings of a file and of the file without its types. Both binders take the same steps, but for
the types that the first one walks over. So their bindings match: names outside of types stand for
the same in both.
-/

namespace Erasure

variable {M N L : Matching} {outside : NodeId → Prop}

/-- A type that is walked over on one side only is no part of the matching. -/
theorem Bindings.Matches.of_grown {b b' c : Bindings} (h : b.Matches M outside b')
    (hgrown : b.Grown outside c) : c.Matches M outside b' where
  root := h.root
  scope s s' hs := by
    rw [hgrown.scope s (h.scope_lt s s' hs).1]
    exact h.scope s s' hs
  symbol y y' hy := by
    rw [hgrown.symbol y (h.symbol_lt y y' hy).1]
    exact h.symbol y y' hy
  scope_lt s s' hs :=
    ⟨Nat.lt_of_lt_of_le (h.scope_lt s s' hs).1 hgrown.scopes_le, (h.scope_lt s s' hs).2⟩
  symbol_lt y y' hy :=
    ⟨Nat.lt_of_lt_of_le (h.symbol_lt y y' hy).1 hgrown.symbols_le, (h.symbol_lt y y' hy).2⟩
  scopes_lt_iff := h.scopes_lt_iff
  symbols_eq_iff := h.symbols_eq_iff
  scopeOf? n hn := by
    rw [hgrown.scopeOf? n hn]
    exact h.scopeOf? n hn
  symbolOf? n hn := by
    rw [hgrown.symbolOf? n hn]
    exact h.symbolOf? n hn

/-- Places in matching scopes. -/
structure BinderPlace.Matches (M : Matching) (p p' : BinderPlace) : Prop where
  scope : M.scopes p.scope p'.scope
  isAmbient : p.isAmbient = p'.isAmbient

theorem BinderPlace.Matches.mono {p p' : BinderPlace} (hle : N ≤ L) (h : p.Matches N p') :
    p.Matches L p' :=
  ⟨hle.scopes _ _ h.scope, h.isAmbient⟩

namespace Binder

/-- Steps from matching places and bindings to matching bindings, with results in a relation. The
matching can grow. -/
def Agrees (M : Matching) (outside : NodeId → Prop) {α β : Type} (m : Binder α) (m' : Binder β)
    (R : Matching → α → β → Prop) : Prop :=
  ∀ (N : Matching) (p p' : BinderPlace) (b b' : Bindings), M ≤ N → p.Matches N p' →
    b.Matches N outside b' →
    ∃ L, N ≤ L ∧ R L (m p b).1 (m' p' b').1 ∧ (m p b).2.Matches L outside (m' p' b').2

/-- Results of which nothing is to be known. -/
abbrev AnyResult {α β : Type} : Matching → α → β → Prop := fun _ _ _ => True

/-- Symbols that match. -/
abbrev SymbolResult : Matching → SymbolId → SymbolId → Prop := fun N y y' => N.symbols y y'

/-- Scopes that match. -/
abbrev ScopeResult : Matching → ScopeId → ScopeId → Prop := fun N s s' => N.scopes s s'

namespace Agrees

variable {α β γ δ : Type} {m : Binder α} {m' : Binder β} {k : α → Binder γ} {k' : β → Binder δ}
variable {R : Matching → α → β → Prop} {Q : Matching → γ → δ → Prop}

theorem pure {a : α} {a' : β} (h : ∀ N, M ≤ N → R N a a') :
    Agrees M outside (Pure.pure a) (Pure.pure a') R :=
  fun N _ _ _ _ hM _ hb => ⟨N, N.le_refl, h N hM, hb⟩

theorem unit : Agrees M outside (Pure.pure () : Binder Unit) (Pure.pure () : Binder Unit)
    AnyResult :=
  .pure fun _ _ => trivial

theorem bind (h : Agrees M outside m m' R)
    (hk : ∀ N, M ≤ N → ∀ a a', R N a a' → Agrees N outside (k a) (k' a') Q) :
    Agrees M outside (m >>= k) (m' >>= k') Q := by
  intro N p p' b b' hM hp hb
  obtain ⟨L, hL, hR, hb₁⟩ := h N p p' b b' hM hp hb
  have hML := Matching.le_trans hM hL
  obtain ⟨K, hK, hQ, hb₂⟩ := hk L hML _ _ hR L p p' _ _ L.le_refl (hp.mono hL) hb₁
  exact ⟨K, Matching.le_trans hL hK, hQ, hb₂⟩

/-- What matching bindings have in common can be used for a step. -/
theorem of_matches
    (h : ∀ (N : Matching) (b b' : Bindings), M ≤ N → b.Matches N outside b' →
      Agrees N outside m m' R) :
    Agrees M outside m m' R :=
  fun N p p' b b' hM hp hb => h N b b' hM hb N p p' b b' N.le_refl hp hb

theorem change {f f' : Bindings → Bindings}
    (h : ∀ N b b', M ≤ N → b.Matches N outside b' → (f b).Matches N outside (f' b')) :
    Agrees M outside (modify f : Binder Unit) (modify f' : Binder Unit) AnyResult :=
  fun N _ _ b b' hM _ hb => ⟨N, N.le_refl, trivial, h N b b' hM hb⟩

theorem declares {f f' : Bindings → SymbolId × Bindings}
    (h : ∀ N b b', M ≤ N → b.Matches N outside b' →
      Bindings.Matches.Declares N outside (f b) (f' b')) :
    Agrees M outside (modifyGet f : Binder SymbolId) (modifyGet f' : Binder SymbolId)
      SymbolResult :=
  fun N _ _ b b' hM _ hb => h N b b' hM hb

theorem when {c : Prop} [Decidable c] {a : α} {z : β}
    (hm : c → Agrees M outside m m' R) (ha : ¬ c → ∀ N, M ≤ N → R N a z)
    (hk : ∀ N, M ≤ N → ∀ a a', R N a a' → Agrees N outside (k a) (k' a') Q) :
    Agrees M outside (if c then m >>= k else k a) (if c then m' >>= k' else k' z) Q := by
  by_cases hc : c
  · rw [if_pos hc, if_pos hc]
    exact .bind (hm hc) hk
  · rw [if_neg hc, if_neg hc]
    exact hk M M.le_refl a z (ha hc M M.le_refl)

theorem forM {ε : Type} {as : List ε} {u : ε → ε} {f g : ε → Binder Unit}
    (h : ∀ N, M ≤ N → ∀ a ∈ as, Agrees N outside (f a) (g (u a)) AnyResult) :
    Agrees M outside (as.forM f) ((as.map u).forM g) AnyResult := by
  induction as generalizing M with
  | nil => exact .unit
  | cons a as ih =>
      refine .bind (h M M.le_refl a List.mem_cons_self) fun N hN _ _ _ => ih fun L hL b hb => ?_
      exact h L (Matching.le_trans hN hL) b (List.mem_cons_of_mem a hb)

/-- A list of things that are no syntax. -/
theorem forM_same {ε : Type} {as : List ε} {f f' : ε → Binder Unit}
    (h : ∀ N, M ≤ N → ∀ a ∈ as, Agrees N outside (f a) (f' a) AnyResult) :
    Agrees M outside (as.forM f) (as.forM f') AnyResult := by
  have hmap := forM (u := id) h
  rwa [List.map_id] at hmap

theorem option {ε : Type} {a? : Option ε} {u : ε → ε} {f f' : ε → Binder Unit}
    (h : ∀ a ∈ a?, Agrees M outside (f a) (f' (u a)) AnyResult) :
    Agrees M outside (a?.forM f) ((a?.map u).forM f') AnyResult := by
  cases a? with
  | none => exact .unit
  | some a => exact h a rfl

end Agrees

theorem Agrees.currentScope : Agrees M outside currentScope currentScope ScopeResult :=
  fun N _ _ _ _ _ hp hb => ⟨N, N.le_refl, hp.scope, hb⟩

theorem Agrees.withModifiers {α β : Type} {m : Binder α} {m' : Binder β}
    {R : Matching → α → β → Prop} (ms : Modifiers) (h : Agrees M outside m m' R) :
    Agrees M outside (withModifiers ms m) (withModifiers ms m') R :=
  fun N _ _ b b' hM hp hb =>
    h N _ _ b b' hM ⟨hp.scope, congrArg (· || ms.isAmbient) hp.isAmbient⟩ hb

theorem Agrees.inScope (kind : ScopeKind) {node node' : NodeId} (hnode : node' = node)
    {m m' : Binder Unit} (h : ∀ N, M ≤ N → Agrees N outside m m' AnyResult) :
    Agrees M outside (inScope kind node m) (inScope kind node' m') AnyResult := by
  subst hnode
  intro N p p' b b' hM hp hb
  have hle := N.le_addScope b.scopes.size b'.scopes.size
  obtain ⟨L, hL, -, hb'⟩ := h _ (Matching.le_trans hM hle) _ { p with scope := b.scopes.size }
    { p' with scope := b'.scopes.size } _ _ (Matching.le_refl _) ⟨.inr ⟨rfl, rfl⟩, hp.isAmbient⟩
    (hb.newScope kind (.some hp.scope) node')
  exact ⟨L, Matching.le_trans hle hL, trivial, hb'⟩

theorem Agrees.declaration {node : NodeId} (hnode : outside node) (kind : DeclarationKind)
    (nameSpan span : Span) :
    Agrees M outside (declaration node kind nameSpan span) (declaration node kind nameSpan span)
      fun N d d' => d.Matches N outside d' :=
  fun N _ _ _ _ _ hp hb => ⟨N, N.le_refl, ⟨rfl, hnode, rfl, rfl, rfl, hp.scope, hp.isAmbient⟩, hb⟩

theorem Agrees.declareIn {t t' : TableRef} (ht : t.Matches M t') (name : String)
    {d d' : Declaration} (hd : d.Matches M outside d') :
    Agrees M outside (declareIn t name d) (declareIn t' name d') SymbolResult := by
  refine .declares fun N b b' hM hb => ?_
  unfold Bindings.declare
  rw [hd.kind]
  exact hb.declareExcluding (ht.mono hM) name _ (hd.mono hM)

theorem Agrees.currentNamespace? :
    Agrees M outside currentNamespace? currentNamespace? fun N => Option.Rel N.symbols := by
  intro N p p' b b' _ hp hb
  refine ⟨N, N.le_refl, ?_, hb⟩
  have hscope := hb.scope _ _ hp.scope
  change Option.Rel N.symbols
    (if (b.scope p.scope).kind = .module_ then (b.scope p.scope).container? else none)
    (if (b'.scope p'.scope).kind = .module_ then (b'.scope p'.scope).container? else none)
  rw [hscope.kind]
  split
  · exact hscope.container
  · exact .none

theorem Agrees.shareExport {s s' : ScopeId} (hs : M.scopes s s') (name : String)
    {y y' owner owner' : SymbolId} (hy : M.symbols y y') (howner : M.symbols owner owner') :
    Agrees M outside (shareExport s name y owner) (shareExport s' name y' owner') AnyResult := by
  refine .change fun N b b' hM hb => ?_
  have htable : TableRef.Matches N (.locals s) (.locals s') := .locals (hM.scopes _ _ hs)
  have hshared : Bindings.Matches N outside
      (if (b.find? name (.locals s)).isSome then b else b.insert name y (.locals s))
      (if (b'.find? name (.locals s')).isSome then b' else b'.insert name y' (.locals s')) := by
    rw [rel_isSome (hb.find? htable name)]
    split
    · exact hb
    · exact hb.insert htable name (hM.symbols _ _ hy)
  exact hshared.modifySymbol (hM.symbols _ _ hy) fun _ _ hm =>
    { hm with parent := .some (hM.symbols _ _ howner) }

theorem Agrees.markExported {y y' : SymbolId} (hy : M.symbols y y') :
    Agrees M outside
      (modify fun b => b.modifySymbol y fun s => { s with isExported := true } : Binder Unit)
      (modify fun b => b.modifySymbol y' fun s => { s with isExported := true } : Binder Unit)
      AnyResult :=
  .change fun _ _ _ hM hb => hb.modifySymbol (hM.symbols _ _ hy) fun _ _ hm =>
    { hm with isExported := rfl }

theorem Agrees.declareExcluding {s s' : ScopeId} (hs : M.scopes s s') {name : Identifier}
    (hname : outside name.id) (kind : DeclarationKind) (excluded : SymbolFlags) (span : Span)
    (isExported : Bool) :
    Agrees M outside (declareExcluding s name kind excluded span isExported)
      (declareExcluding s' name kind excluded span isExported) SymbolResult := by
  unfold Binder.declareExcluding
  refine .bind (.declaration hname kind name.span span) fun N hN d d' hd => ?_
  refine .bind .currentScope fun L hL here here' hhere => ?_
  refine .of_matches fun K b b' hK hb => ?_
  have hNK := Matching.le_trans hL hK
  have hscopes := (Matching.le_trans hN hNK).scopes _ _ hs
  have hiff := hb.scopes_eq_iff hscopes (hK.scopes _ _ hhere)
  rw [decide_eq_decide.mpr hiff]
  refine .when (a := none) (z := none) (R := fun N => Option.Rel N.symbols)
    (fun _ => .currentNamespace?) (fun _ _ _ => .none) fun N₁ hN₁ owner? owner?' howner => ?_
  have htable : TableRef.Matches N₁ ((owner?.map TableRef.exports).getD (.locals s))
      ((owner?'.map TableRef.exports).getD (.locals s')) := by
    cases howner with
    | none => exact .locals (hN₁.scopes _ _ hscopes)
    | some howner => exact .exports howner
  refine .bind (.declares fun N₂ b b' hN₂ hb => hb.declareExcluding (htable.mono hN₂) name.text
    excluded (hd.mono (Matching.le_trans hNK (Matching.le_trans hN₁ hN₂)))) fun N₂ hN₂ y y' hy => ?_
  have hscopes₂ := (Matching.le_trans hN₁ hN₂).scopes _ _ hscopes
  cases howner with
  | none =>
      exact .when (a := ()) (z := ()) (R := AnyResult) (fun _ => .markExported hy)
        (fun _ _ _ => trivial) fun _ hle _ _ _ => .pure fun _ hle' =>
          (Matching.le_trans hle hle').symbols _ _ hy
  | some howner =>
      refine .bind (.shareExport hscopes₂ name.text hy (hN₂.symbols _ _ howner))
        fun N₃ hN₃ _ _ _ => ?_
      have hy₃ := hN₃.symbols _ _ hy
      exact .when (a := ()) (z := ()) (R := AnyResult) (fun _ => .markExported hy₃)
        (fun _ _ _ => trivial) fun _ hle _ _ _ => .pure fun _ hle' =>
          (Matching.le_trans hle hle').symbols _ _ hy₃

end Binder
end Erasure

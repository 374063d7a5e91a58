import Erasure.Proofs.Scope.Growth
import Erasure.Proofs.Scope.Readers

/-!
The scopes that the binder opens. A node opens at most one scope, inside of the scope in which the
binder stands, and it keeps that scope. So a path in the tree leads from scope to scope in the
bindings that the binder leaves behind, as it did when the binder was there.
-/

namespace Erasure

namespace Passage

/-- The passages that the binder enters. -/
def isBound : Passage → Bool
  | scope _ | base _ => true
  | subject _ => false

end Passage

namespace Bindings

/-- What a path leads to, from the scope in which the binder stands: every scope that is recorded on
it lies in the one that the binder was in there. -/
inductive Leads (b : Bindings) : ScopeId → List Passage → ScopeId → Prop
  | here (s : ScopeId) : b.Leads s [] s
  | none {s e : ScopeId} {w : Passage} {ws : List Passage} (hw : b.scopeOf? w.node = none)
      (h : b.Leads s ws e) : b.Leads s (w :: ws) e
  | into {s x e : ScopeId} {w : Passage} {ws : List Passage} (hw : b.scopeOf? w.node = some x)
      (hparent : (b.scope x).parent? = some s) (hlt : s < x) (hbound : w.isBound = true)
      (h : b.Leads x ws e) : b.Leads s (w :: ws) e
  | beside {s x e : ScopeId} {w : Passage} {ws : List Passage} (hw : b.scopeOf? w.node = some x)
      (hparent : (b.scope x).parent? = some s) (hlt : s < x) (hbound : w.isBound = false)
      (h : b.Leads s ws e) : b.Leads s (w :: ws) e

variable {b c d : Bindings} {ids more : List NodeId} {s e e' : ScopeId} {ws ws' : List Passage}

theorem Leads.append (h : b.Leads s ws e) (h' : b.Leads e ws' e') : b.Leads s (ws ++ ws') e' := by
  induction h with
  | here => exact h'
  | none hw _ ih => exact .none hw (ih h')
  | into hw hparent hlt hbound _ ih => exact .into hw hparent hlt hbound (ih h')
  | beside hw hparent hlt hbound _ ih => exact .beside hw hparent hlt hbound (ih h')

/-- Bindings with more scopes, which only some nodes have opened. -/
structure Opened (ids : List NodeId) (b c : Bindings) : Prop where
  later : b.Later c
  others : ∀ k, k ∉ ids → c.scopeOf? k = b.scopeOf? k

namespace Opened

theorem refl (b : Bindings) : Opened [] b b := ⟨.refl b, fun _ _ => rfl⟩

theorem mono (h : Opened ids b c) (hsub : ids ⊆ more) : Opened more b c :=
  ⟨h.later, fun k hk => h.others k fun hmem => hk (hsub hmem)⟩

theorem trans (h : Opened ids b c) (h' : Opened more c d) : Opened (ids ++ more) b d where
  later := h.later.trans h'.later
  others k hk := by
    rw [List.mem_append, not_or] at hk
    rw [h'.others k hk.2, h.others k hk.1]

theorem newScope (b : Bindings) (kind : ScopeKind) (parent? : Option ScopeId) (node : NodeId) :
    Opened [node] b (b.newScope kind parent? node).2 where
  later := b.later_newScope kind parent? node
  others k hk := b.scopeOf?_newScope_of_ne kind parent? node (by simpa using hk)

end Opened

theorem lt_of_parent? {x : ScopeId} (h : (b.scope x).parent? = some s) : x < b.scopes.size := by
  by_contra hle
  rw [scope_of_size_le b (Nat.le_of_not_lt hle)] at h
  cases h

/-- A path goes on to lead where it did if its nodes keep their scopes. -/
theorem Leads.mono (h : b.Leads s ws e) (hlater : b.Later c)
    (hkept : ∀ w ∈ ws, c.scopeOf? w.node = b.scopeOf? w.node) : c.Leads s ws e := by
  induction h with
  | here => exact .here _
  | @none _ _ w _ hw _ ih =>
      obtain ⟨hkeep, hkept⟩ := List.forall_mem_cons.mp hkept
      exact .none (hkeep.trans hw) (ih hkept)
  | into hw hparent hlt hbound _ ih =>
      obtain ⟨hkeep, hkept⟩ := List.forall_mem_cons.mp hkept
      exact .into (hkeep.trans hw) ((hlater.parent _ (lt_of_parent? hparent)).trans hparent) hlt
        hbound (ih hkept)
  | beside hw hparent hlt hbound _ ih =>
      obtain ⟨hkeep, hkept⟩ := List.forall_mem_cons.mp hkept
      exact .beside (hkeep.trans hw) ((hlater.parent _ (lt_of_parent? hparent)).trans hparent) hlt
        hbound (ih hkept)

end Bindings

/-- Paths from where a step starts to the nodes that it visits. -/
def Routes := List Passage → Node → Prop

namespace Routes

variable {W : Routes} {n c m : Node}

/-- The paths that go on in the scope of a node. -/
def within (W : Routes) (node : NodeId) : Routes := fun ws m =>
  ∃ w : Passage, w.node = node ∧ w.isBound = true ∧ W (w :: ws) m

/-- The paths that go on beside the scope of a node. -/
def beside (W : Routes) (node : NodeId) : Routes := fun ws m =>
  ∃ w : Passage, w.node = node ∧ w.isBound = false ∧ W (w :: ws) m

/-- The paths that go on in a node, inside of its scope or not. -/
def around (W : Routes) (node : NodeId) : Routes := fun ws m =>
  W ws m ∨ ∃ w : Passage, w.node = node ∧ W (w :: ws) m

/-- All paths down from a node are among those given. -/
def Covers (W : Routes) (n : Node) : Prop := ∀ ws m, n.Path ws m → W ws m

namespace Covers

theorem here (h : W.Covers n) : W [] n := h [] n (.here n)

theorem stay (h : W.Covers n) (hway : n.Way none c) : W.Covers c :=
  fun ws m hpath => h ws m (.step hway hpath)

theorem into (h : W.Covers n) {w : Passage} (hway : n.Way (some w) c) (hw : w.isBound = true) :
    (W.within w.node).Covers c :=
  fun ws m hpath => ⟨w, rfl, hw, h (w :: ws) m (.step hway hpath)⟩

theorem beside (h : W.Covers n) {w : Passage} (hway : n.Way (some w) c)
    (hw : w.isBound = false) : (W.beside w.node).Covers c :=
  fun ws m hpath => ⟨w, rfl, hw, h (w :: ws) m (.step hway hpath)⟩

theorem around (h : W.Covers n) (hc : c ∈ n.form.children) : (W.around n.id).Covers c := by
  intro ws m hpath
  obtain ⟨w?, hway⟩ := Node.exists_way hc
  cases w? with
  | none => exact .inl (h ws m (.step hway hpath))
  | some w => exact .inr ⟨w, hway.node_eq, h (w :: ws) m (.step hway hpath)⟩

theorem plain (h : W.Covers n) (hsplits : n.form.splits = false) (hopens : n.form.opens = false)
    (hc : c ∈ n.form.children) : W.Covers c :=
  h.stay (.plain hsplits hopens hc)

theorem inside (h : W.Covers n) (hsplits : n.form.splits = false) (hopens : n.form.opens = true)
    (hc : c ∈ n.form.children) : (W.within n.id).Covers c :=
  h.into (.into hsplits hopens hc) rfl

theorem visited (h : ∀ c ∈ n.form.children, W.Covers c) : ∀ m ∈ n.visited, W.Covers m :=
  Node.forall_visited h fun _ hc hinner _ hm =>
    hc.plain (Form.splits_of_isInner hinner) (Form.opens_of_isInner hinner) hm

end Covers
end Routes

namespace Binder

open Bindings (Opened)

/-- A walk that opens scopes for nodes in the one that it walks over. -/
def OpensWithin (walk : Node → Binder Unit) : Prop :=
  ∀ m p b, Opened (numbers m) b (walk m p b).2

/-- What holds of a node where the binder visits it, and of the bindings that a step around the
visit leads to. -/
structure Arrives (ids : List NodeId) (W : Routes) (start : ScopeId) (walk : Node → Binder Unit)
    (final : Bindings) (m : Node) (q : BinderPlace) (t : Bindings) : Prop where
  path : ∃ ws, W ws m ∧ (∀ w ∈ ws, w.node ∈ ids) ∧ final.Leads start ws q.scope
  numbers_subset : numbers m ⊆ ids
  unopened : ∀ k ∈ numbers m, t.scopeOf? k = none
  inside : q.scope < t.scopes.size
  kept : ∀ k ∈ numbers m, final.scopeOf? k = (walk m q t).2.scopeOf? k
  later : (walk m q t).2.Later final

/-- A step that opens scopes for some numbers, each at most once, and visits nodes along paths. -/
structure Opens {α : Type} (ids : List NodeId) (W : Routes)
    (step : (Node → Binder Unit) → Binder α) : Prop where
  opened : ∀ {walk}, OpensWithin walk → ∀ p b, Opened ids b (step walk p b).2
  arrives : ∀ {walk}, OpensWithin walk → ∀ {p b}, p.scope < b.scopes.size → ids.Nodup →
    (∀ k ∈ ids, b.scopeOf? k = none) → ∀ {m q t}, Visits step walk p b m q t →
      Arrives ids W p.scope walk (step walk p b).2 m q t

variable {ids more : List NodeId} {W W' : Routes} {m : Node} {α β γ : Type}

namespace Arrives

variable {start : ScopeId} {walk : Node → Binder Unit} {b c : Bindings} {q : BinderPlace}
  {t : Bindings}

theorem mono (h : Arrives ids W start walk b m q t) (hsub : ids ⊆ more) :
    Arrives more W start walk b m q t :=
  { h with
    path := by
      obtain ⟨ws, hws, hids, hleads⟩ := h.path
      exact ⟨ws, hws, fun w hw => hsub (hids w hw), hleads⟩
    numbers_subset := fun _ hk => hsub (h.numbers_subset hk) }

/-- What is left of a visit when more scopes have been opened for other nodes. -/
theorem trans (h : Arrives ids W start walk b m q t) (hopened : Opened more b c)
    (hapart : ∀ k ∈ ids, k ∉ more) : Arrives ids W start walk c m q t :=
  { h with
    path := by
      obtain ⟨ws, hws, hids, hleads⟩ := h.path
      exact ⟨ws, hws, hids, hleads.mono hopened.later fun w hw =>
        hopened.others _ (hapart _ (hids w hw))⟩
    kept := fun k hk =>
      (hopened.others k (hapart k (h.numbers_subset hk))).trans (h.kept k hk)
    later := h.later.trans hopened.later }

end Arrives

namespace Opens

variable {step : (Node → Binder Unit) → Binder α}

theorem mono (h : Opens ids W step) (hids : ∀ i, ids.count i ≤ more.count i)
    (hW : ∀ ws m, W ws m → W' ws m) : Opens more W' step := by
  have hsub : ids ⊆ more := fun k hk =>
    List.count_pos_iff.mp (Nat.lt_of_lt_of_le (List.count_pos_iff.mpr hk) (hids k))
  refine ⟨fun hwalk p b => (h.opened hwalk p b).mono hsub, ?_⟩
  intro walk hwalk p b hp hnodup hnone m q t hvisit
  have harrives := (h.arrives hwalk hp (nodup_of_count_le hids hnodup)
    (fun k hk => hnone k (hsub hk)) hvisit).mono hsub
  obtain ⟨ws, hws, hpath⟩ := harrives.path
  exact { harrives with path := ⟨ws, hW ws m hws, hpath⟩ }

theorem ofCount (h : Opens ids W step) (hids : ∀ i, ids.count i ≤ more.count i) :
    Opens more W step :=
  h.mono hids fun _ _ => id

/-- A step without visits and new scopes. -/
theorem const {a : Binder α} (ha : ∀ base, Keeps (Opened [] base) a) : Opens [] W fun _ => a :=
  ⟨fun _ p b => ha b p b (.refl b),
    fun _ _ _ _ _ _ _ _ _ hvisit => (Visits.not_const a hvisit).elim⟩

theorem walk (hm : W [] m) : Opens (numbers m) W fun walk => walk m := by
  refine ⟨fun hwalk p b => hwalk m p b, ?_⟩
  intro walk hwalk p b hp _ hnone n q t hvisit
  obtain ⟨rfl, rfl, rfl⟩ := hvisit.eq_of_walk
  exact {
    path := ⟨[], hm, List.forall_mem_nil _, .here _⟩
    numbers_subset := fun _ => id
    unopened := hnone
    inside := hp
    kept := fun _ _ => rfl
    later := .refl _ }

theorem bind {first : (Node → Binder Unit) → Binder α}
    {second : α → (Node → Binder Unit) → Binder β} (hfirst : Opens ids W first)
    (hsecond : ∀ x, Opens more W (second x)) :
    Opens (ids ++ more) W fun walk => first walk >>= fun x => second x walk := by
  refine ⟨fun hwalk p b => (hfirst.opened hwalk p b).trans ((hsecond _).opened hwalk p _), ?_⟩
  intro walk hwalk p b hp hnodup hnone m q t hvisit
  obtain ⟨hids, hmore, hapart⟩ := List.nodup_append.mp hnodup
  have hopened := hfirst.opened hwalk p b
  have hnoneLeft : ∀ k ∈ ids, b.scopeOf? k = none := fun k hk =>
    hnone k (List.mem_append_left _ hk)
  rcases hvisit.of_bind with hvisit | hvisit
  · have harrives := hfirst.arrives hwalk hp hids hnoneLeft hvisit
    exact (harrives.trans ((hsecond _).opened hwalk p _) fun k hk hk' =>
      hapart k hk k hk' rfl).mono (List.subset_append_left _ _)
  · refine ((hsecond _).arrives hwalk (Nat.lt_of_lt_of_le hp hopened.later.scopes_le) hmore
      (fun k hk => ?_) hvisit).mono (List.subset_append_right _ _)
    rw [hopened.others k fun hk' => hapart k hk' k hk rfl]
    exact hnone k (List.mem_append_right _ hk)

theorem after {first : Binder α} {second : α → (Node → Binder Unit) → Binder β}
    (hfirst : ∀ base, Keeps (Opened [] base) first) (hsecond : ∀ x, Opens ids W (second x)) :
    Opens ids W fun walk => first >>= fun x => second x walk :=
  .bind (.const hfirst) hsecond

theorem ite {c : Prop} [Decidable c] {first second : (Node → Binder Unit) → Binder α}
    (hfirst : c → Opens ids W first) (hsecond : ¬ c → Opens ids W second) :
    Opens ids W fun walk => if c then first walk else second walk := by
  by_cases hc : c
  · simp only [hc, if_true]; exact hfirst hc
  · simp only [hc, if_false]; exact hsecond hc

theorem forM {as : List γ} {f : γ → (Node → Binder Unit) → Binder Unit} {g : γ → List NodeId}
    (h : ∀ a ∈ as, Opens (g a) W (f a)) :
    Opens (as.flatMap g) W fun walk => as.forM (f · walk) := by
  induction as with
  | nil => exact .const fun _ => .pure ()
  | cons a as ih =>
      obtain ⟨ha, has⟩ := List.forall_mem_cons.mp h
      exact .bind ha fun _ => ih has

theorem all {ns : List Node} (h : ∀ n ∈ ns, W [] n) :
    Opens (numbers ns) W fun walk => ns.forM walk :=
  .forM fun n hn => .walk (h n hn)

theorem optional {n? : Option Node} (h : ∀ n ∈ n?, W [] n) :
    Opens (numbers n?) W fun walk => n?.forM walk := by
  cases n? with
  | none => exact .const fun _ => .pure ()
  | some n =>
      rw [numbers_some]
      exact .walk (h n rfl)

theorem withModifiers (ms : Modifiers) (h : Opens ids W step) :
    Opens ids W fun walk => Binder.withModifiers ms (step walk) := by
  refine ⟨fun hwalk p b => h.opened hwalk _ b, ?_⟩
  intro walk hwalk p b hp hnodup hnone m q t hvisit
  exact h.arrives hwalk (p := { p with isAmbient := p.isAmbient || ms.isAmbient }) hp hnodup hnone
    hvisit

/-- A scope that a step opens belongs to its node and lies in the one that the step starts in. -/
theorem scopeOf?_inScope {step : (Node → Binder Unit) → Binder Unit} (h : Opens ids W step)
    {k : NodeId} (hk : k ∉ ids) (kind : ScopeKind) {walk : Node → Binder Unit}
    (hwalk : OpensWithin walk) (p : BinderPlace) (b : Bindings) :
    (Binder.inScope kind k (step walk) p b).2.scopeOf? k = some b.scopes.size ∧
      ((Binder.inScope kind k (step walk) p b).2.scope b.scopes.size).parent? = some p.scope := by
  have hopened := h.opened hwalk { p with scope := b.scopes.size }
    (b.newScope kind (some p.scope) k).2
  refine ⟨(hopened.others k hk).trans (b.scopeOf?_newScope_self kind _ k),
    (hopened.later.parent _ ?_).trans ?_⟩
  · simp
  · rw [b.scope_newScope_self]

/-- A step in a scope of a node. -/
theorem inScope {step : (Node → Binder Unit) → Binder Unit} {k : NodeId} (kind : ScopeKind)
    (h : Opens ids (W.within k) step) :
    Opens (k :: ids) W fun walk => Binder.inScope kind k (step walk) := by
  refine ⟨fun hwalk p b => (Opened.newScope b kind (some p.scope) k).trans
    (h.opened hwalk { p with scope := b.scopes.size } _), ?_⟩
  intro walk hwalk p b hp hnodup hnone m q t hvisit
  obtain ⟨hk, hids⟩ := List.nodup_cons.mp hnodup
  obtain ⟨hscope, hparent⟩ := h.scopeOf?_inScope hk kind hwalk p b
  have hinside : b.scopes.size < (b.newScope kind (some p.scope) k).2.scopes.size := by simp
  have harrives := h.arrives hwalk (p := { p with scope := b.scopes.size }) hinside hids
    (fun i hi => ?_) hvisit
  · obtain ⟨ws, ⟨w, rfl, hbound, hW⟩, hmem, hleads⟩ := harrives.path
    exact { harrives.mono (List.subset_cons_self _ _) with
      path := ⟨w :: ws, hW, List.forall_mem_cons.mpr
        ⟨List.mem_cons_self, fun w hw => List.mem_cons_of_mem _ (hmem w hw)⟩,
        .into hscope hparent hp hbound hleads⟩ }
  · have hne : i ≠ k := fun heq => hk (heq ▸ hi)
    exact (b.scopeOf?_newScope_of_ne kind _ k hne).trans (hnone i (List.mem_cons_of_mem _ hi))

/-- A step on the parts of a node that gets no scope. -/
theorem around {k : NodeId} (h : Opens ids (W.around k) step) : Opens (k :: ids) W step := by
  refine ⟨fun hwalk p b => (h.opened hwalk p b).mono (List.subset_cons_self _ _), ?_⟩
  intro walk hwalk p b hp hnodup hnone m q t hvisit
  obtain ⟨hk, hids⟩ := List.nodup_cons.mp hnodup
  obtain ⟨hnonek, hnone⟩ := List.forall_mem_cons.mp hnone
  have harrives := h.arrives hwalk hp hids hnone hvisit
  obtain ⟨ws, hW, hmem, hleads⟩ := harrives.path
  have hmem' : ∀ w ∈ ws, w.node ∈ k :: ids := fun w hw => List.mem_cons_of_mem _ (hmem w hw)
  refine { harrives.mono (List.subset_cons_self _ _) with path := ?_ }
  rcases hW with hW | ⟨w, rfl, hW⟩
  · exact ⟨ws, hW, hmem', hleads⟩
  · exact ⟨w :: ws, hW, List.forall_mem_cons.mpr ⟨List.mem_cons_self, hmem'⟩,
      .none (((h.opened hwalk p b).others _ hk).trans hnonek) hleads⟩

/-- A step beside a scope that is opened after it. -/
theorem beside {second : (Node → Binder Unit) → Binder Unit} {k : NodeId} (kind : ScopeKind)
    (hfirst : Opens ids (W.beside k) step) (hsecond : Opens more (W.within k) second) :
    Opens (ids ++ k :: more) W fun walk =>
      step walk >>= fun _ => Binder.inScope kind k (second walk) := by
  have hscope := hsecond.inScope kind
  refine ⟨fun hwalk p b => (hfirst.opened hwalk p b).trans (hscope.opened hwalk p _), ?_⟩
  intro walk hwalk p b hp hnodup hnone m q t hvisit
  obtain ⟨hids, hmore, hapart⟩ := List.nodup_append.mp hnodup
  have hopened := hfirst.opened hwalk p b
  rcases hvisit.of_bind with hvisit | hvisit
  · have harrives := (hfirst.arrives hwalk hp hids
      (fun k hk => hnone k (List.mem_append_left _ hk)) hvisit).trans
      (hscope.opened hwalk p (step walk p b).2) fun k hk hk' => hapart k hk k hk' rfl
    obtain ⟨hrecorded, hparent⟩ := hsecond.scopeOf?_inScope (List.nodup_cons.mp hmore).1 kind hwalk
      p (step walk p b).2
    obtain ⟨ws, ⟨w, rfl, hbound, hW⟩, hmem, hleads⟩ := harrives.path
    exact { harrives.mono (List.subset_append_left _ _) with
      path := ⟨w :: ws, hW, List.forall_mem_cons.mpr
        ⟨List.mem_append_right _ List.mem_cons_self,
          fun w hw => List.mem_append_left _ (hmem w hw)⟩,
        .beside hrecorded hparent (Nat.lt_of_lt_of_le hp hopened.later.scopes_le) hbound hleads⟩ }
  · refine (hscope.arrives hwalk (Nat.lt_of_lt_of_le hp hopened.later.scopes_le) hmore
      (fun k hk => ?_) hvisit).mono (List.subset_append_right _ _)
    rw [hopened.others k fun hk' => hapart k hk' k hk rfl]
    exact hnone k (List.mem_append_right _ hk)

end Opens
end Binder
end Erasure

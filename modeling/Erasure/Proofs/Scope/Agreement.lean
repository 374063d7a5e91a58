import Erasure.Proofs.Scope.Bindings
import Erasure.Proofs.Scope.OpeningWalk

/-!
The scopes in which the walks over a file stand. On the way to a node they enter the same scopes,
except beside a scope: the walk over used values enters that of a `switch` for what it selects by,
and the binder opens that of a class around what the class extends.
-/

namespace Erasure

namespace SourceFile

variable (f : SourceFile)

/-- The walk that binds a file. -/
def bindingWalk : TreeWalk BinderPlace Bindings where
  top walk := f.statements.forM walk
  step n walk := Binder.step walk n
  walk := Binder.walkNode
  walk_succ _ _ := rfl
  fuel := f.nodeCount
  place := { scope := Bindings.rootScope, isAmbient := f.fileName.endsWith ".d.ts" }
  state := (({} : Bindings).newScope .sourceFile none 0).2

theorem run_bindingWalk : f.bindingWalk.run = f.bind := rfl

/-- The walk that looks for used values. -/
def usageWalk (b : Bindings) : TreeWalk ScopeId ValueUses where
  top walk := f.statements.forM walk
  step n walk := ValueUses.step b walk n
  walk := ValueUses.walkNode b
  walk_succ _ _ := rfl
  fuel := f.nodeCount
  place := Bindings.rootScope
  state := {}

theorem run_usageWalk (b : Bindings) :
    (f.usageWalk b).run.closed = ValueUses.ofFile f b :=
  rfl

/-- The walk that checks a file. -/
def checkWalk (b : Bindings) (o : Options) : TreeWalk CheckPlace CheckState where
  top walk := do
    Check.overloads f.statements
    f.statements.forM walk
  step n walk := Check.step walk n
  walk := Check.walkNode
  walk_succ _ _ := rfl
  fuel := f.nodeCount
  place :=
    { job := { file := f, bindings := b, options := o, enumValues := EnumValues.ofFile f b }
      scope := Bindings.rootScope
      isAmbient := f.fileName.endsWith ".d.ts" }
  state := {}

theorem run_checkWalk (b : Bindings) (o : Options) :
    (f.checkWalk b o).run.errorsRev.reverse = f.check b o :=
  rfl

end SourceFile

section
variable {f : SourceFile} {b : Bindings} {o : Options} {fuel : Nat} {n : Node}

theorem ValueUses.at_of_reaches {q : ScopeId} {t : ValueUses}
    (h : (f.usageWalk b).Reaches fuel n q t) : At f b n q :=
  h.induction (.all fun _ hm => .of_mem hm) fun _ _ => visits_step

theorem Check.at_of_reaches {q : CheckPlace} {t : CheckState}
    (h : (f.checkWalk b o).Reaches fuel n q t) : At f b n q :=
  h.induction (.after fun _ => .all fun _ hm => ⟨rfl, .of_mem hm⟩) fun _ _ => visits_step

end

namespace Binder

variable {f : SourceFile} {n m : Node} {q : BinderPlace} {t : Bindings}

/-- What holds of a node in the step at another one holds of it in the file. -/
theorem Arrives.below {ids : List NodeId} {start : ScopeId} {final : Bindings} {p : BinderPlace}
    {s : Bindings} {fuel : Nat}
    (h : Arrives ids f.Path start (walkNode (fuel + 1)) final m p s)
    (hn : Arrives (numbers m) m.Path p.scope (walkNode fuel) (walkNode (fuel + 1) m p s).2 n q t) :
    Arrives ids f.Path start (walkNode fuel) final n q t where
  path := by
    obtain ⟨ws, ⟨statement, hmem, hpath⟩, hids, hleads⟩ := h.path
    obtain ⟨ws', hpath', hids', hleads'⟩ := hn.path
    refine ⟨ws ++ ws', ⟨statement, hmem, hpath.trans hpath'⟩, fun w hw => ?_, ?_⟩
    · rcases List.mem_append.mp hw with hw | hw
      · exact hids w hw
      · exact h.numbers_subset (hids' w hw)
    · exact hleads.append (hleads'.mono h.later fun w hw => h.kept _ (hids' w hw))
  numbers_subset _ hk := h.numbers_subset (hn.numbers_subset hk)
  unopened := hn.unopened
  inside := hn.inside
  kept k hk := (h.kept k (hn.numbers_subset hk)).trans (hn.kept k hk)
  later := hn.later.trans h.later

/-- The binder stands in the scope that the path to a node leads to. -/
theorem arrives_of_reaches (hids : (numbers f.statements).Nodup)
    (hpos : ∀ i ∈ numbers f.statements, 0 < i) {fuel : Nat}
    (h : f.bindingWalk.Reaches fuel n q t) :
    Arrives (numbers f.statements) f.Path Bindings.rootScope (walkNode fuel) f.bind n q t := by
  induction h with
  | top h =>
      have hopens : Opens (numbers f.statements) f.Path fun walk => f.statements.forM walk :=
        .all fun m hm => ⟨m, hm, .here m⟩
      refine hopens.arrives (opensWithin_walkNode f.nodeCount) ?_ hids (fun i hi => ?_) h
      · simp [SourceFile.bindingWalk, Bindings.rootScope]
      · exact Bindings.scopeOf?_newScope_of_ne {} _ _ _ (Nat.ne_of_gt (hpos i hi))
  | @inside fuel m n p q s t h hn ih =>
      obtain ⟨ws, ⟨statement, hmem, hpath⟩, -⟩ := ih.path
      have hm : (numbers m).Nodup := nodup_of_count_le (fun i => Nat.le_trans
        (hpath.count_numbers_le i) (count_le_of_mem hmem numbers i)) hids
      exact ih.below ((Opens.step fun _ _ hpath => hpath).arrives (opensWithin_walkNode fuel)
        ih.inside hm ih.unopened hn)

end Binder

/-- The scopes around the walk over used values, and around the binder, that are not around the
checker. -/
structure Asides where
  used : List ScopeId := []
  bound : List ScopeId := []

/-- What is around some walks only behind a passage. Into a scope all of them go; that of a `switch`
is around what it selects by for the walk over used values, and that of a class around what it
extends for the binder. -/
def Asides.behind (a : Asides) (w : Passage) (s : ScopeId) : Asides :=
  match w with
  | .scope _ => {}
  | .subject _ => { a with used := s :: a.bound }
  | .base _ => { a with bound := s :: a.bound }

namespace Bindings

variable {b : Bindings}

/-- Only passages by a scope change what is around some walks. -/
def passing (b : Bindings) (a : Asides) (w : Passage) : Asides :=
  (b.scopeOf? w.node).elim a (a.behind w)

/-- What is around some walks only at the end of a path. -/
def asides (b : Bindings) (ws : List Passage) : Asides := ws.foldl b.passing {}

/-- From where the walks stand a path leads to where they stand then. -/
theorem Leads.scopeChain_append {s e : ScopeId} {ws : List Passage} (h : b.Leads s ws e)
    {u c : ScopeId} {a : Asides} (hused : b.scopeChain u = a.used ++ b.scopeChain c)
    (hbound : b.scopeChain s = a.bound ++ b.scopeChain c) :
    b.scopeChain (b.follow Passage.isUsed u ws) =
        (ws.foldl b.passing a).used ++ b.scopeChain (b.follow Passage.isInto c ws) ∧
      b.scopeChain e =
        (ws.foldl b.passing a).bound ++ b.scopeChain (b.follow Passage.isInto c ws) := by
  have hinner {s x : ScopeId} (hparent : (b.scope x).parent? = some s) (hlt : s < x) {a : Asides}
      {c : ScopeId} (hbound : b.scopeChain s = a.bound ++ b.scopeChain c) :
      b.scopeChain x = x :: a.bound ++ b.scopeChain c := by
    rw [scopeChain_of_parent hparent hlt, hbound]
    rfl
  induction h generalizing u c a with
  | here => exact ⟨hused, hbound⟩
  | none hw _ ih =>
      simp only [follow, List.foldl_cons, passing, hw, Option.getD_none, ite_self, Option.elim_none]
      exact ih hused hbound
  | @into _ _ _ w _ hw hparent hlt hinto _ ih =>
      simp only [follow, List.foldl_cons, passing, hw, Option.getD_some, Option.elim_some]
      cases w with
      | scope k => exact ih (List.nil_append _).symm (List.nil_append _).symm
      | base k => exact ih hused (hinner hparent hlt hbound)
      | subject k => cases hinto
  | @beside _ _ _ w _ hw hparent hlt hbeside _ ih =>
      simp only [follow, List.foldl_cons, passing, hw, Option.getD_some, Option.elim_some]
      cases w with
      | subject k => exact ih (hinner hparent hlt hbound) hbound
      | scope k | base k => cases hbeside

end Bindings

/-- A file has one path to a node. -/
theorem SourceFile.Path.eq {f : SourceFile} (hids : (numbers f.statements).Nodup)
    {ws ws' : List Passage} {n : Node} (h : f.Path ws n) (h' : f.Path ws' n) : ws = ws' := by
  obtain ⟨m, hm, hpath⟩ := h
  obtain ⟨m', hm', hpath'⟩ := h'
  obtain rfl := eq_of_mem_numbers hids hm hm' hpath.id_mem_numbers hpath'.id_mem_numbers
  exact hpath.eq (nodup_of_count_le (fun i => count_le_of_mem hm numbers i) hids) hpath'

/-- Where the walks over a file stand at a node: beyond the scopes around the checker there are
those that the path to the node tells, around the walk over used values and around the binder. A
name stands for the same symbol exactly if these scopes declare no other one. -/
theorem walks_agree_iff (fileName source : String) (o : Options) :
    let f := (parseSource fileName source).1
    let b := f.bind
    ∀ {n : Node} {u : ScopeId} {c : CheckPlace} {e : BinderPlace} {i j k : Nat} {r : ValueUses}
      {s : CheckState} {t : Bindings}, (f.usageWalk b).Reaches i n u r →
      (f.checkWalk b o).Reaches j n c s → f.bindingWalk.Reaches k n e t →
      ∃ ws, f.Path ws n ∧ b.scopeChain u = (b.asides ws).used ++ b.scopeChain c.scope ∧
        b.scopeChain e.scope = (b.asides ws).bound ++ b.scopeChain c.scope ∧
        ∀ name meaning,
          (b.resolve? u name meaning = b.resolve? c.scope name meaning ↔
            ∀ id ∈ (b.asides ws).used.findSome? (b.resolveIn? name meaning),
              b.resolve? c.scope name meaning = some id) ∧
          (b.resolve? e.scope name meaning = b.resolve? c.scope name meaning ↔
            ∀ id ∈ (b.asides ws).bound.findSome? (b.resolveIn? name meaning),
              b.resolve? c.scope name meaning = some id) := by
  intro f b n u c e i j k r s t husage hcheck hbinding
  obtain ⟨hids, hrange⟩ := nodup_numbers_parseSource fileName source
  obtain ⟨ws, hws, rfl⟩ := ValueUses.at_of_reaches husage
  obtain ⟨-, ws', hws', hc⟩ := Check.at_of_reaches hcheck
  obtain rfl := hws.eq hids hws'
  obtain ⟨ws', hws', -, hleads⟩ :=
    (Binder.arrives_of_reaches hids (fun i hi => (hrange i hi).1) hbinding).path
  obtain rfl := hws.eq hids hws'
  obtain ⟨hused, hbound⟩ := hleads.scopeChain_append (a := {}) (u := Bindings.rootScope)
    (c := Bindings.rootScope) (List.nil_append _).symm (List.nil_append _).symm
  rw [← hc] at hused hbound
  exact ⟨ws, hws, hused, hbound, fun name meaning => ⟨Bindings.resolve?_eq_iff_of_scopeChain hused,
    Bindings.resolve?_eq_iff_of_scopeChain hbound⟩⟩

section
variable {f : SourceFile} {b : Bindings} {o : Options} {n subject : Node} {clauses : List Node}
  (hform : n.form = .switchStmt subject clauses)
include hform

theorem Node.visited_switch (hsubject : subject.form.isInner = false) :
    n.visited = subject :: n.visited.tail := by
  rw [Node.visited, hform]
  change (if subject.form.isInner then _ else [subject]) ++ _ =
    subject :: ((if subject.form.isInner then _ else [subject]) ++ _).tail
  rw [hsubject]
  rfl

/-- The walk over used values comes to what a `switch` selects by in the scope of the clauses. -/
theorem usageWalk_reaches_subject {fuel : Nat} {p : ScopeId} {r u v : ValueUses}
    (h : (f.usageWalk b).Reaches (fuel + 1) n p r) (hsubject : subject.form.isInner = false)
    (hrest : subject ∉ n.visited.tail)
    (huv : n.visited.tail.forM (ValueUses.walkNode b fuel) ((b.scopeOf? n.id).getD p) u ≠
      n.visited.tail.forM (ValueUses.walkNode b fuel) ((b.scopeOf? n.id).getD p) v) :
    (f.usageWalk b).Reaches fuel subject ((b.scopeOf? n.id).getD p) r := by
  have hstep : (f.usageWalk b).step n = fun walk =>
      ValueUses.inScopeOf b n.id ((subject :: n.visited.tail).forM walk) := by
    funext walk
    change ValueUses.step b walk n = _
    rw [← Node.visited_switch hform hsubject]
    unfold ValueUses.step
    rw [hform]
    rfl
  refine .inside h ?_
  rw [hstep]
  exact .withReader (@Visits.mem _ _ _ _ _ _ [] _ List.not_mem_nil hrest u v huv)

/-- The checker comes to it in the scope around the statement. -/
theorem checkWalk_reaches_subject {fuel : Nat} {c : CheckPlace} {s u v : CheckState}
    (h : (f.checkWalk b o).Reaches (fuel + 1) n c s) (hrest : subject ∉ clauses)
    (huv : Check.inScopeOf n.id (Check.withTarget .switch (clauses.forM (Check.walkNode fuel)))
        { c with isAmbient := c.isAmbient || false } u ≠
      Check.inScopeOf n.id (Check.withTarget .switch (clauses.forM (Check.walkNode fuel)))
        { c with isAmbient := c.isAmbient || false } v) :
    (f.checkWalk b o).Reaches fuel subject { c with isAmbient := c.isAmbient || false } s := by
  have hstep : (f.checkWalk b o).step n = fun walk => Check.withModifiers {} (do
      walk subject
      Check.inScopeOf n.id (Check.withTarget .switch (clauses.forM walk))) := by
    funext walk
    change Check.step walk n = _
    unfold Check.step
    rw [hform]
    unfold Check.statementForm
    rw [hform]
    rfl
  refine .inside h ?_
  rw [hstep]
  refine .withReader (.now (fun other hother w => ?_) huv)
  exact Visits.forM_congr (fun m hm r y => hother m r y fun heq => hrest (heq ▸ hm)) w

/-- The binder comes to it in the scope around the statement. -/
theorem bindingWalk_reaches_subject {fuel : Nat} {e : BinderPlace} {t u v : Bindings}
    (h : f.bindingWalk.Reaches (fuel + 1) n e t) (hrest : subject ∉ clauses)
    (huv : Binder.inScope .block n.id (clauses.forM (Binder.walkNode fuel)) e u ≠
      Binder.inScope .block n.id (clauses.forM (Binder.walkNode fuel)) e v) :
    f.bindingWalk.Reaches fuel subject e t := by
  have hstep : f.bindingWalk.step n = fun walk => (do
      walk subject
      Binder.inScope .block n.id (clauses.forM walk)) := by
    funext walk
    change Binder.step walk n = _
    unfold Binder.step
    rw [hform]
  refine .inside h ?_
  rw [hstep]
  refine .now (fun other hother w => ?_) huv
  exact Visits.forM_congr (fun m hm r y => hother m r y fun heq => hrest (heq ▸ hm)) _

end

section
variable {f : SourceFile} {b : Bindings} {o : Options} {before : List Node} {n : Node}
  (hlast : f.statements = before ++ [n]) (hn : n ∉ before)
include hlast hn

theorem usageWalk_reaches_last :
    ∃ r, (f.usageWalk b).Reaches f.nodeCount n Bindings.rootScope r := by
  refine ⟨(before.forM (ValueUses.walkNode b f.nodeCount) Bindings.rootScope {}).2, .top ?_⟩
  change Visits (fun walk => f.statements.forM walk) _ _ _ _ _ _
  rw [hlast]
  refine .mem hn List.not_mem_nil (u := {}) (v := { aliases := [(0, 0)] }) fun heq => ?_
  cases congrArg (fun r : Unit × ValueUses => r.2.aliases) heq

theorem checkWalk_reaches_last :
    ∃ s, (f.checkWalk b o).Reaches f.nodeCount n (f.checkWalk b o).place s := by
  refine ⟨(before.forM (Check.walkNode f.nodeCount) (f.checkWalk b o).place
    (Check.overloads f.statements (f.checkWalk b o).place {}).2).2, .top (.after ?_)⟩
  change Visits (fun walk => f.statements.forM walk) _ _
    (Check.overloads f.statements (f.checkWalk b o).place {}).2 _ _ _
  rw [hlast]
  refine .mem hn List.not_mem_nil (u := {})
    (v := { errorsRev := [.ofMessage .expressionExpected 0 0 []] }) fun heq => ?_
  cases congrArg (fun r : Unit × CheckState => r.2.errorsRev) heq

theorem bindingWalk_reaches_last :
    ∃ t, f.bindingWalk.Reaches f.nodeCount n f.bindingWalk.place t := by
  refine ⟨(before.forM (Binder.walkNode f.nodeCount) f.bindingWalk.place f.bindingWalk.state).2,
    .top ?_⟩
  change Visits (fun walk => f.statements.forM walk) _ _ _ _ _ _
  rw [hlast]
  refine .mem hn List.not_mem_nil (u := {}) (v := { augmentsGlobals := true }) fun heq => ?_
  cases congrArg (fun r : Unit × Bindings => r.2.augmentsGlobals) heq

end

/-- What a `switch` selects by. -/
def Node.switchSubject? (n : Node) : Option Node :=
  match n.form with
  | .switchStmt subject _ => some subject
  | _ => none

theorem Node.form_of_switchSubject? {n subject : Node} (h : n.switchSubject? = some subject) :
    n.form = .switchStmt subject n.form.children.tail := by
  unfold switchSubject? at h
  split at h
  · rename_i hform
    cases h
    rw [hform]
    rfl
  · cases h

namespace SourceFile

variable (f : SourceFile)

/-- The last statement of a file. -/
def lastStatement : Node := f.statements.getLastD default

/-- What the walk over used values makes of a state in the clauses of the last statement. -/
def usedInClauses (scope : ScopeId) (u : ValueUses) : ValueUses :=
  (f.lastStatement.visited.tail.forM (ValueUses.walkNode f.bind (f.nodeCount - 1)) scope u).2

/-- Where the checker stands at a last statement without modifiers. -/
def lastPlace (o : Options) : CheckPlace :=
  { (f.checkWalk f.bind o).place with
    isAmbient := (f.checkWalk f.bind o).place.isAmbient || false }

/-- What the checker makes of a state in the clauses of the last statement. -/
def checkedInClauses (o : Options) (s : CheckState) : CheckState :=
  (Check.inScopeOf f.lastStatement.id (Check.withTarget .switch
    (f.lastStatement.form.children.tail.forM (Check.walkNode (f.nodeCount - 1))))
    (f.lastPlace o) s).2

/-- What the binder makes of bindings in the clauses of the last statement. -/
def boundInClauses (b : Bindings) : Bindings :=
  (Binder.inScope .block f.lastStatement.id
    (f.lastStatement.form.children.tail.forM (Binder.walkNode (f.nodeCount - 1)))
    f.bindingWalk.place b).2

end SourceFile

section
variable {f : SourceFile} (hids : (numbers f.statements).Nodup) (hsome : f.statements ≠ [])

include hsome in
theorem SourceFile.statements_eq_append :
    f.statements = f.statements.dropLast ++ [f.lastStatement] := by
  rw [lastStatement, List.getLastD_eq_getLast?, List.getLast?_eq_some_getLast hsome]
  exact (List.dropLast_append_getLast hsome).symm

include hids hsome

theorem SourceFile.lastStatement_not_mem : f.lastStatement ∉ f.statements.dropLast := by
  have hnodup := nodup_of_nodup_numbers hids
  rw [statements_eq_append hsome] at hnodup
  exact fun hmem => (List.nodup_append.mp hnodup).2.2 _ hmem _ (List.mem_singleton.mpr rfl) rfl

theorem SourceFile.nodup_numbers_lastStatement : (numbers f.lastStatement).Nodup := by
  have hmem : f.lastStatement ∈ f.statements := by
    rw [statements_eq_append hsome]
    exact List.mem_append_right _ (List.mem_singleton.mpr rfl)
  exact nodup_of_count_le (fun i => count_le_of_mem hmem numbers i) hids

/-- All walks over a file that ends in a `switch` come to what it selects by, if what they do there
is not lost in the clauses. -/
theorem reaches_subject {o : Options} {subject : Node} {scope : ScopeId}
    (hsubject : f.lastStatement.switchSubject? = some subject)
    (hinner : subject.form.isInner = false) (hcount : 0 < f.nodeCount)
    (hscope : (f.bind.scopeOf? f.lastStatement.id).getD Bindings.rootScope = scope)
    {u v : ValueUses} (hused : f.usedInClauses scope u ≠ f.usedInClauses scope v)
    {s s' : CheckState} (hchecked : f.checkedInClauses o s ≠ f.checkedInClauses o s')
    {b b' : Bindings} (hbound : f.boundInClauses b ≠ f.boundInClauses b') :
    ∃ r t x, (f.usageWalk f.bind).Reaches (f.nodeCount - 1) subject scope r ∧
      (f.checkWalk f.bind o).Reaches (f.nodeCount - 1) subject (f.lastPlace o) t ∧
      f.bindingWalk.Reaches (f.nodeCount - 1) subject f.bindingWalk.place x := by
  have hform := Node.form_of_switchSubject? hsubject
  have hlast := SourceFile.statements_eq_append hsome
  have hn := SourceFile.lastStatement_not_mem hids hsome
  have hnode := SourceFile.nodup_numbers_lastStatement hids hsome
  have hclauses : subject ∉ f.lastStatement.form.children.tail := by
    have hnodup := nodup_of_nodup_numbers
      (nodup_of_count_le f.lastStatement.count_numbers_children_le hnode)
    rw [hform] at hnodup
    exact (List.nodup_cons.mp hnodup).1
  have hrest : subject ∉ f.lastStatement.visited.tail := by
    have hnodup := nodup_of_nodup_numbers (nodup_of_count_le (fun i => Nat.le_trans
      (f.lastStatement.count_numbers_visited_le i) (by rw [Node.count_numbers_eq]; omega)) hnode)
    rw [Node.visited_switch hform hinner] at hnodup
    exact (List.nodup_cons.mp hnodup).1
  have hfuel : f.nodeCount = f.nodeCount - 1 + 1 := by omega
  obtain ⟨r, husage⟩ := usageWalk_reaches_last (b := f.bind) hlast hn
  obtain ⟨t, hcheck⟩ := checkWalk_reaches_last (b := f.bind) (o := o) hlast hn
  obtain ⟨x, hbinding⟩ := bindingWalk_reaches_last hlast hn
  rw [hfuel] at husage hcheck hbinding
  subst hscope
  exact ⟨r, t, x,
    usageWalk_reaches_subject hform husage hinner hrest fun heq => hused (congrArg Prod.snd heq),
    checkWalk_reaches_subject hform hcheck hclauses fun heq => hchecked (congrArg Prod.snd heq),
    bindingWalk_reaches_subject hform hbinding hclauses fun heq => hbound (congrArg Prod.snd heq)⟩

end

/-- A text that selects by an imported name, which a clause declares once more. -/
def shadowingText : String :=
  "import \x7b kind \x7d from \"m\";\nswitch (kind) \x7b case 1: const kind = 2; \x7d"

def shadowingFile : SourceFile := (parseSource "input.ts" shadowingText).1

theorem shadowingFile_computed :
    (parseSource "input.ts" shadowingText).2 = [] ∧
      shadowingFile.statements.isEmpty = false ∧ 0 < shadowingFile.nodeCount ∧
      shadowingFile.lastStatement.switchSubject?.isSome = true ∧
      (∀ n ∈ shadowingFile.lastStatement.switchSubject?,
        n.form.isInner = false ∧ n.identifier? = some "kind") ∧
      (shadowingFile.bind.scopeOf? shadowingFile.lastStatement.id).getD Bindings.rootScope = 1 ∧
      shadowingFile.bind.resolve? 1 "kind" SymbolFlags.value = some 1 ∧
      shadowingFile.bind.resolve? 0 "kind" SymbolFlags.value = some 0 ∧
      (shadowingFile.usedInClauses 1 {}).aliases.length ≠
        (shadowingFile.usedInClauses 1 { aliases := [(0, 0)] }).aliases.length ∧
      (shadowingFile.checkedInClauses {} {}).errorsRev.length ≠
        (shadowingFile.checkedInClauses {}
          { errorsRev := [.ofMessage .expressionExpected 0 0 []] }).errorsRev.length ∧
      (shadowingFile.boundInClauses {}).augmentsGlobals ≠
        (shadowingFile.boundInClauses { augmentsGlobals := true }).augmentsGlobals := by
  decide +kernel

/-- All walks come to what the `switch` selects by. -/
theorem shadowingFile_reached : ∃ subject fuel r s t,
    subject.identifier? = some "kind" ∧
      (shadowingFile.usageWalk shadowingFile.bind).Reaches fuel subject 1 r ∧
      (shadowingFile.checkWalk shadowingFile.bind {}).Reaches fuel subject
        (shadowingFile.lastPlace {}) s ∧
      shadowingFile.bindingWalk.Reaches fuel subject shadowingFile.bindingWalk.place t := by
  have hids : (numbers shadowingFile.statements).Nodup := by
    rw [shadowingFile]
    exact (nodup_numbers_parseSource "input.ts" shadowingText).1
  obtain ⟨-, hsome, hcount, hswitch, hsubject, hscope, -, -, hused, hchecked, hbound⟩ :=
    shadowingFile_computed
  obtain ⟨subject, hmem⟩ := Option.isSome_iff_exists.mp hswitch
  obtain ⟨hinner, hkind⟩ := hsubject subject hmem
  obtain ⟨r, s, t, hreached⟩ := reaches_subject hids (List.isEmpty_eq_false_iff.mp hsome) hmem
    hinner hcount hscope (fun heq => hused (congrArg (·.aliases.length) heq))
    (fun heq => hchecked (congrArg (·.errorsRev.length) heq))
    (fun heq => hbound (congrArg (·.augmentsGlobals) heq))
  exact ⟨subject, _, r, s, t, hkind, hreached⟩

/-- There the walk over used values is in the scope of the clauses, and the others are not. -/
theorem shadowingFile_asides :
    ∃ ws subject, shadowingFile.Path ws subject ∧ subject.identifier? = some "kind" ∧
      shadowingFile.bind.scopeChain 1 =
        (shadowingFile.bind.asides ws).used ++ shadowingFile.bind.scopeChain 0 := by
  obtain ⟨subject, fuel, r, s, t, hkind, husage, hcheck, hbinding⟩ := shadowingFile_reached
  rw [shadowingFile] at *
  obtain ⟨ws, hpath, hused, -⟩ := walks_agree_iff "input.ts" shadowingText {} husage hcheck hbinding
  exact ⟨ws, subject, hpath, hkind, hused⟩

/-- The walk over used values takes the subject for the constant, the other walks for the import. -/
theorem switch_subject_resolved_apart :
    (parseSource "input.ts" shadowingText).2 = [] ∧
      ∃ (subject : Node) (fuel : Nat) (r : ValueUses) (c : CheckPlace) (s : CheckState)
        (e : BinderPlace) (t : Bindings), subject.identifier? = some "kind" ∧
        (shadowingFile.usageWalk shadowingFile.bind).Reaches fuel subject 1 r ∧
        (shadowingFile.checkWalk shadowingFile.bind {}).Reaches fuel subject c s ∧
        shadowingFile.bindingWalk.Reaches fuel subject e t ∧
        shadowingFile.bind.resolve? 1 "kind" SymbolFlags.value = some 1 ∧
        shadowingFile.bind.resolve? c.scope "kind" SymbolFlags.value = some 0 ∧
        shadowingFile.bind.resolve? e.scope "kind" SymbolFlags.value = some 0 := by
  obtain ⟨subject, fuel, r, s, t, hkind, husage, hcheck, hbinding⟩ := shadowingFile_reached
  obtain ⟨hclean, -, -, -, -, -, hinside, houtside, -⟩ := shadowingFile_computed
  exact ⟨hclean, subject, fuel, r, _, s, _, t, hkind, husage, hcheck, hbinding, hinside, houtside,
    houtside⟩

end Erasure

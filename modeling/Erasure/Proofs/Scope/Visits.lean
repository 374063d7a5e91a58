import Erasure.Proofs.Scope.Introduced

/-!
Which nodes a walk over a syntax tree visits, and the scopes on the way to them. All walks are steps
with a parameter for the walk over the nodes below, so that the visits of a step are told apart by
this parameter: a step visits a node in a place and a state if its outcome changes with what the
parameter does there. A scope belongs to a node, and most nodes that have one have it around all of
their parts; what a `switch` selects by stands beside the clauses, and what a class extends beside
its members.
-/

namespace Erasure

/-- A walk over nodes that knows where it stands and changes a state. -/
abbrev NodeWalk (π σ : Type) := Node → ReaderT π (StateM σ) Unit

variable {π σ α β γ : Type}

/-- What a step does with a walk depends on what the walk does at a node, in a place and a state. -/
def Visits (step : NodeWalk π σ → ReaderT π (StateM σ) α) (walk : NodeWalk π σ) (p : π) (s : σ)
    (n : Node) (q : π) (t : σ) : Prop :=
  ∃ other : NodeWalk π σ, (∀ m r u, ¬ (m = n ∧ r = q ∧ u = t) → other m r u = walk m r u) ∧
    step other p s ≠ step walk p s

namespace Visits

variable {walk : NodeWalk π σ} {p q : π} {s t : σ} {m n : Node}

theorem not_const (a : ReaderT π (StateM σ) α) : ¬ Visits (fun _ => a) walk p s n q t :=
  fun ⟨_, _, hne⟩ => hne rfl

/-- The walk over a node visits it where the walk starts. -/
theorem eq_of_walk (h : Visits (fun walk => walk m) walk p s n q t) : n = m ∧ q = p ∧ t = s := by
  obtain ⟨other, hother, hne⟩ := h
  refine Classical.byContradiction fun hapart => hne ?_
  exact hother m p s fun ⟨hm, hp, hs⟩ => hapart ⟨hm.symm, hp.symm, hs.symm⟩

/-- Of two steps one visits the node, and the second starts in the state that the first leads to. -/
theorem of_bind {first : NodeWalk π σ → ReaderT π (StateM σ) α}
    {second : α → NodeWalk π σ → ReaderT π (StateM σ) β}
    (h : Visits (fun walk => first walk >>= fun x => second x walk) walk p s n q t) :
    Visits first walk p s n q t ∨
      Visits (second (first walk p s).1) walk p (first walk p s).2 n q t := by
  obtain ⟨other, hother, hne⟩ := h
  by_cases hfirst : first other p s = first walk p s
  · refine .inr ⟨other, hother, fun hsecond => hne ?_⟩
    change second (first other p s).1 other p (first other p s).2 =
      second (first walk p s).1 walk p (first walk p s).2
    rw [hfirst, hsecond]
  · exact .inl ⟨other, hother, hfirst⟩

/-- A step after another one visits what it visits in the state that the other one leads to. -/
theorem after {first : ReaderT π (StateM σ) α}
    {second : α → NodeWalk π σ → ReaderT π (StateM σ) β}
    (h : Visits (second (first p s).1) walk p (first p s).2 n q t) :
    Visits (fun walk => first >>= fun x => second x walk) walk p s n q t := h

theorem withReader {f : π → π} {step : NodeWalk π σ → ReaderT π (StateM σ) α}
    (h : Visits step walk (f p) s n q t) :
    Visits (fun walk => withReader f (step walk)) walk p s n q t := h

/-- A node is visited if what comes after it does not forget the state that it starts in. -/
theorem now {rest : NodeWalk π σ → ReaderT π (StateM σ) Unit}
    (hrest : ∀ other : NodeWalk π σ, (∀ m r u, m ≠ n → other m r u = walk m r u) →
      ∀ u, rest other p u = rest walk p u)
    {u v : σ} (huv : rest walk p u ≠ rest walk p v) :
    Visits (fun walk => walk n >>= fun _ => rest walk) walk p s n p s := by
  classical
  obtain ⟨x, hx⟩ : ∃ x, rest walk p x ≠ rest walk p (walk n p s).2 := by
    by_cases hu : rest walk p u = rest walk p (walk n p s).2
    · exact ⟨v, fun hv => huv (hu.trans hv.symm)⟩
    · exact ⟨u, hu⟩
  let other : NodeWalk π σ := fun m r y => if m = n ∧ r = p ∧ y = s then ((), x) else walk m r y
  have hother : ∀ m r y, ¬ (m = n ∧ r = p ∧ y = s) → other m r y = walk m r y :=
    fun m r y hne => if_neg hne
  refine ⟨other, hother, ?_⟩
  have hhere : other n p s = ((), x) := if_pos ⟨rfl, rfl, rfl⟩
  change rest other p (other n p s).2 ≠ rest walk p (walk n p s).2
  rwa [hhere, hrest other fun m r y hne => hother m r y fun heq => hne heq.1]

theorem forM_congr {other : NodeWalk π σ} {ns : List Node}
    (h : ∀ m ∈ ns, ∀ r u, other m r u = walk m r u) (u : σ) :
    ns.forM other p u = ns.forM walk p u := by
  induction ns generalizing u with
  | nil => rfl
  | cons n ns ih =>
      obtain ⟨hn, hns⟩ := List.forall_mem_cons.mp h
      change ns.forM other p (other n p u).2 = ns.forM walk p (walk n p u).2
      rw [hn, ih hns]

/-- A node of a list is visited in the state that the nodes before it lead to. -/
theorem mem {before after : List Node} (hbefore : n ∉ before) (hafter : n ∉ after) {u v : σ}
    (huv : after.forM walk p u ≠ after.forM walk p v) :
    Visits (fun walk => (before ++ n :: after).forM walk) walk p s n p
      (before.forM walk p s).2 := by
  induction before generalizing s with
  | nil =>
      exact .now (fun other hother => forM_congr fun m hm r u =>
        hother m r u fun heq => hafter (heq ▸ hm)) huv
  | cons m before ih =>
      obtain ⟨hm, hbefore⟩ := not_or.mp (mt List.mem_cons.mpr hbefore)
      obtain ⟨other, hother, hne⟩ := ih hbefore
      refine ⟨other, hother, ?_⟩
      have hfirst : other m p s = walk m p s := hother m p s fun heq => hm heq.1.symm
      change (before ++ n :: after).forM other p (other m p s).2 ≠
        (before ++ n :: after).forM walk p (walk m p s).2
      rwa [hfirst]

end Visits

/-- All that a step visits in a place is related to it. -/
def VisitsOnly (R : Node → π → Prop) (p : π) (step : NodeWalk π σ → ReaderT π (StateM σ) α) :
    Prop :=
  ∀ walk s n q t, Visits step walk p s n q t → R n q

namespace VisitsOnly

variable {R : Node → π → Prop} {p : π}

theorem const (a : ReaderT π (StateM σ) α) : VisitsOnly R p fun _ => a :=
  fun _ _ _ _ _ h => (Visits.not_const a h).elim

theorem walk {m : Node} (h : R m p) : VisitsOnly R p fun walk : NodeWalk π σ => walk m := by
  intro walk s n q t hvisit
  obtain ⟨rfl, rfl, -⟩ := hvisit.eq_of_walk
  exact h

theorem bind {first : NodeWalk π σ → ReaderT π (StateM σ) α}
    {second : α → NodeWalk π σ → ReaderT π (StateM σ) β} (hfirst : VisitsOnly R p first)
    (hsecond : ∀ x, VisitsOnly R p (second x)) :
    VisitsOnly R p fun walk => first walk >>= fun x => second x walk := by
  intro walk s n q t hvisit
  rcases hvisit.of_bind with hvisit | hvisit
  · exact hfirst walk s n q t hvisit
  · exact hsecond _ walk _ n q t hvisit

theorem after {first : ReaderT π (StateM σ) α}
    {second : α → NodeWalk π σ → ReaderT π (StateM σ) β}
    (hsecond : ∀ x, VisitsOnly R p (second x)) :
    VisitsOnly R p fun walk => first >>= fun x => second x walk :=
  .bind (.const first) hsecond

theorem forM {as : List γ} {f : γ → NodeWalk π σ → ReaderT π (StateM σ) Unit}
    (h : ∀ a ∈ as, VisitsOnly R p (f a)) : VisitsOnly R p fun walk => as.forM (f · walk) := by
  induction as with
  | nil => exact .const (pure ())
  | cons a as ih =>
      obtain ⟨ha, has⟩ := List.forall_mem_cons.mp h
      exact .bind ha fun _ => ih has

theorem option {a? : Option γ} {f : γ → NodeWalk π σ → ReaderT π (StateM σ) Unit}
    (h : ∀ a ∈ a?, VisitsOnly R p (f a)) : VisitsOnly R p fun walk => a?.forM (f · walk) := by
  cases a? with
  | none => exact .const (pure ())
  | some a => exact h a rfl

theorem all {ns : List Node} (h : ∀ n ∈ ns, R n p) :
    VisitsOnly R p fun walk : NodeWalk π σ => ns.forM walk :=
  .forM fun n hn => .walk (h n hn)

theorem optional {n? : Option Node} (h : ∀ n ∈ n?, R n p) :
    VisitsOnly R p fun walk : NodeWalk π σ => n?.forM walk :=
  .option fun n hn => .walk (h n hn)

theorem withReader {f : π → π} {step : NodeWalk π σ → ReaderT π (StateM σ) α}
    (h : VisitsOnly R (f p) step) : VisitsOnly R p fun walk => withReader f (step walk) :=
  h

theorem ite {c : Prop} [Decidable c] {first second : NodeWalk π σ → ReaderT π (StateM σ) α}
    (hfirst : c → VisitsOnly R p first) (hsecond : ¬ c → VisitsOnly R p second) :
    VisitsOnly R p fun walk => if c then first walk else second walk := by
  by_cases hc : c
  · simp only [hc, if_true]; exact hfirst hc
  · simp only [hc, if_false]; exact hsecond hc

end VisitsOnly

/-- A walk over a whole tree, as deep as its fuel allows. -/
structure TreeWalk (π σ : Type) where
  /-- What is done with the walk at the top of the tree. -/
  top : NodeWalk π σ → ReaderT π (StateM σ) Unit
  /-- What is done at a node with the walk over the nodes below it. -/
  step : Node → NodeWalk π σ → ReaderT π (StateM σ) Unit
  walk : Nat → NodeWalk π σ
  walk_succ : ∀ fuel n, walk (fuel + 1) n = step n (walk fuel)
  fuel : Nat
  place : π
  state : σ

namespace TreeWalk

def run (w : TreeWalk π σ) : σ := (w.top (w.walk w.fuel) w.place w.state).2

/-- A node that the walk comes to with some fuel left, in a place and a state. -/
inductive Reaches (w : TreeWalk π σ) : Nat → Node → π → σ → Prop
  | top {n : Node} {q : π} {t : σ} (h : Visits w.top (w.walk w.fuel) w.place w.state n q t) :
      w.Reaches w.fuel n q t
  | inside {fuel : Nat} {m n : Node} {p q : π} {s t : σ} (h : w.Reaches (fuel + 1) m p s)
      (hn : Visits (w.step m) (w.walk fuel) p s n q t) : w.Reaches fuel n q t

/-- What holds at the top and is handed down by every step holds wherever the walk comes to. -/
theorem Reaches.induction {w : TreeWalk π σ} {R : Node → π → Prop}
    (htop : VisitsOnly R w.place w.top) (hstep : ∀ n p, R n p → VisitsOnly R p (w.step n))
    {fuel : Nat} {n : Node} {q : π} {t : σ} (h : w.Reaches fuel n q t) : R n q := by
  induction h with
  | top h => exact htop _ _ _ _ _ h
  | inside _ hn ih => exact hstep _ _ ih _ _ _ _ _ hn

end TreeWalk

/-- A scope that is met on the way from a node to one of its parts. -/
inductive Passage where
  /-- Into the scope of a node. -/
  | scope (node : NodeId)
  /-- Beside the scope of a `switch`, to what it selects by. -/
  | subject (node : NodeId)
  /-- Beside the scope of a class, to what it extends. -/
  | base (node : NodeId)

namespace Passage

def node : Passage → NodeId
  | scope node | subject node | base node => node

/-- The scope lies around the part. -/
def isInto : Passage → Bool
  | scope _ => true
  | subject _ | base _ => false

end Passage

/-- Syntax that can have a scope around all of its parts. -/
def Form.opens : Form → Bool
  | .forStmt _ _ _ _ | .forInStmt _ _ _ | .forOfStmt _ _ _ _ | .block _ _ _ | .arrowFunction _ _
  | .functionLike _ | .catchClause _ _ | .moduleDeclaration _ _ _ _ | .interfaceStmt _ _ _ _ _
  | .typeAliasStmt _ _ _ _ => true
  | .typeParameter _ _ _ _ => false
  | form => form.isTypeSyntax

/-- Syntax with some parts in its scope and others beside it. -/
def Form.splits : Form → Bool
  | .switchStmt _ _ | .classLike _ => true
  | _ => false

theorem Form.splits_of_isInner {form : Form} (h : form.isInner = true) : form.splits = false := by
  cases form <;> first | rfl | cases h

theorem Form.opens_of_isInner {form : Form} (h : form.isInner = true) : form.opens = false := by
  cases form <;> first | rfl | cases h

/-- What holds of the parts of a node, and of the parts of inner parts, holds of all that is visited
from the node. -/
theorem Node.forall_visited {P : Node → Prop} {n : Node} (h : ∀ c ∈ n.form.children, P c)
    (hinner : ∀ c, P c → c.form.isInner = true → ∀ m ∈ c.form.children, P m) :
    ∀ m ∈ n.visited, P m := by
  have hthrough : ∀ m ∈ n.form.children.flatMap fun c =>
      if c.form.isInner then c.form.children else [c], P m := by
    intro m hm
    obtain ⟨c, hc, hm⟩ := List.mem_flatMap.mp hm
    split at hm
    · rename_i hform
      exact hinner c (h c hc) hform m hm
    · exact List.mem_singleton.mp hm ▸ h c hc
  intro m hm
  unfold visited at hm
  split at hm
  · cases hm
  · cases hm
  · exact hthrough m hm

/-- From a node to a part of it, with the scope that is met. -/
inductive Node.Way (n : Node) : Option Passage → Node → Prop
  | subject {subject : Node} {clauses : List Node} (h : n.form = .switchStmt subject clauses) :
      n.Way (some (.subject n.id)) subject
  | clause {subject c : Node} {clauses : List Node} (h : n.form = .switchStmt subject clauses)
      (hc : c ∈ clauses) : n.Way (some (.scope n.id)) c
  | decorator {c : Node} {cls : ClassLike} (h : n.form = .classLike cls)
      (hc : c ∈ cls.decorators) : n.Way none c
  | base {c : Node} {cls : ClassLike} (h : n.form = .classLike cls) (hc : cls.base = some c) :
      n.Way (some (.base n.id)) c
  | classPart {c : Node} {cls : ClassLike} (h : n.form = .classLike cls)
      (hc : c ∈ cls.typeParameters.getD [] ++ cls.interfaces ++ cls.members) :
      n.Way (some (.scope n.id)) c
  | part {c : Node} (h : n.form.splits = false) (hc : c ∈ n.form.children) :
      n.Way (if n.form.opens then some (.scope n.id) else none) c

/-- From a node down to another one, with the scopes that are met, outermost first. -/
inductive Node.Path : Node → List Passage → Node → Prop
  | here (n : Node) : n.Path [] n
  | step {n c m : Node} {w? : Option Passage} {ws : List Passage} (h : n.Way w? c)
      (hm : c.Path ws m) : n.Path (w?.toList ++ ws) m

theorem ClassLike.mem_children_iff {c : Node} {cls : ClassLike} :
    c ∈ cls.children ↔ c ∈ cls.decorators ∨ cls.base = some c ∨
      c ∈ cls.typeParameters.getD [] ++ cls.interfaces ++ cls.members := by
  simp only [children, List.mem_append, Option.mem_toList, or_assoc, or_left_comm]

namespace Node

variable {n c c' m : Node} {w? w'? : Option Passage} {ws ws' : List Passage}

theorem Way.mem_children (h : n.Way w? c) : c ∈ n.form.children := by
  cases h with
  | subject h => rw [h]; exact List.mem_cons_self
  | clause h hc => rw [h]; exact List.mem_cons_of_mem _ hc
  | decorator h hc => rw [h]; exact ClassLike.mem_children_iff.mpr (.inl hc)
  | base h hc => rw [h]; exact ClassLike.mem_children_iff.mpr (.inr (.inl hc))
  | classPart h hc => rw [h]; exact ClassLike.mem_children_iff.mpr (.inr (.inr hc))
  | part _ hc => exact hc

/-- A part of a node without a scope. -/
theorem Way.plain (hsplits : n.form.splits = false) (hopens : n.form.opens = false)
    (hc : c ∈ n.form.children) : n.Way none c := by
  have hway := Way.part hsplits hc
  rwa [hopens] at hway

/-- A part of a node with a scope around it. -/
theorem Way.into (hsplits : n.form.splits = false) (hopens : n.form.opens = true)
    (hc : c ∈ n.form.children) : n.Way (some (.scope n.id)) c := by
  have hway := Way.part hsplits hc
  rwa [hopens] at hway

theorem Way.node_eq {w : Passage} (h : n.Way (some w) c) : w.node = n.id := by
  obtain ⟨w?, hw⟩ : ∃ w?, w? = some w := ⟨_, rfl⟩
  rw [← hw] at h
  cases h with
  | subject | clause | base | classPart => cases hw; rfl
  | decorator => cases hw
  | part =>
      split at hw
      · cases hw; rfl
      · cases hw

theorem exists_way (hc : c ∈ n.form.children) : ∃ w?, n.Way w? c := by
  cases hform : n.form with
  | switchStmt subject clauses =>
      rw [hform] at hc
      rcases List.mem_cons.mp hc with rfl | hc
      · exact ⟨_, .subject hform⟩
      · exact ⟨_, .clause hform hc⟩
  | classLike cls =>
      rw [hform] at hc
      rcases ClassLike.mem_children_iff.mp hc with hc | hc | hc
      · exact ⟨_, .decorator hform hc⟩
      · exact ⟨_, .base hform hc⟩
      · exact ⟨_, .classPart hform hc⟩
  | _ => exact ⟨_, .part (by rw [hform]; rfl) hc⟩

theorem Path.trans (h : n.Path ws c) (h' : c.Path ws' m) : n.Path (ws ++ ws') m := by
  induction h with
  | here => exact h'
  | step hway _ ih =>
      rw [List.append_assoc]
      exact .step hway (ih h')

theorem Path.child (h : n.Path ws c) (hway : c.Way w? m) : n.Path (ws ++ w?.toList) m := by
  have hpath := h.trans (.step hway (.here m))
  rwa [List.append_nil] at hpath

theorem count_numbers_children_le (n : Node) (i : NodeId) :
    (numbers n.form.children).count i ≤ (numbers n).count i := by
  have hchildren := n.form.count_numbers_children_le i
  rw [count_numbers_eq]
  omega

/-- The numbers of a node on a path from another one are numbers of that one. -/
theorem Path.count_numbers_le (h : n.Path ws m) (i : NodeId) :
    (numbers m).count i ≤ (numbers n).count i := by
  induction h with
  | here => exact Nat.le_refl _
  | @step n c _ _ _ hway _ ih =>
      exact Nat.le_trans ih (Nat.le_trans (count_le_of_mem hway.mem_children numbers i)
        (n.count_numbers_children_le i))

theorem id_mem_numbers (n : Node) : n.id ∈ numbers n := by
  rw [n.numbers_eq]
  exact List.mem_cons_self

theorem Path.id_mem_numbers (h : n.Path ws m) : m.id ∈ numbers n :=
  List.count_pos_iff.mp
    (Nat.lt_of_lt_of_le (List.count_pos_iff.mpr m.id_mem_numbers) (h.count_numbers_le m.id))

end Node

theorem nodup_of_count_le {xs ys : List NodeId} (h : ∀ i, xs.count i ≤ ys.count i)
    (hys : ys.Nodup) : xs.Nodup :=
  List.nodup_iff_count.mpr fun i => Nat.le_trans (h i) (List.nodup_iff_count.mp hys i)

/-- Among nodes with different numbers a number belongs to one of them. -/
theorem eq_of_mem_numbers {ns : List Node} (hns : (numbers ns).Nodup) {c c' : Node} (hc : c ∈ ns)
    (hc' : c' ∈ ns) {i : NodeId} (hi : i ∈ numbers c) (hi' : i ∈ numbers c') : c = c' := by
  induction ns with
  | nil => cases hc
  | cons n ns ih =>
      rw [numbers_cons] at hns
      obtain ⟨-, hrest, hapart⟩ := List.nodup_append.mp hns
      have hmem : ∀ {d : Node}, d ∈ ns → i ∈ numbers d → i ∈ numbers ns := fun hd hid =>
        List.mem_flatMap.mpr ⟨_, hd, hid⟩
      rcases List.mem_cons.mp hc with hn | hc <;> rcases List.mem_cons.mp hc' with hn' | hc'
      · rw [hn, hn']
      · exact (hapart i (hn ▸ hi) i (hmem hc' hi') rfl).elim
      · exact (hapart i (hn' ▸ hi') i (hmem hc hi) rfl).elim
      · exact ih hrest hc hc'

theorem nodup_of_nodup_numbers {ns : List Node} (hns : (numbers ns).Nodup) : ns.Nodup := by
  induction ns with
  | nil => exact .nil
  | cons n ns ih =>
      rw [numbers_cons] at hns
      obtain ⟨-, hrest, hapart⟩ := List.nodup_append.mp hns
      refine List.nodup_cons.mpr ⟨fun hn => ?_, ih hrest⟩
      exact hapart n.id n.id_mem_numbers n.id (List.mem_flatMap.mpr ⟨n, hn, n.id_mem_numbers⟩) rfl

namespace Node

variable {n c m : Node} {w? w'? : Option Passage} {ws ws' : List Passage}

theorem Way.of_switch {subject : Node} {clauses : List Node}
    (hform : n.form = .switchStmt subject clauses) (h : n.Way w? c) :
    w? = some (.subject n.id) ∧ c = subject ∨ w? = some (.scope n.id) ∧ c ∈ clauses := by
  cases h with
  | subject h =>
      rw [hform] at h
      cases h
      exact .inl ⟨rfl, rfl⟩
  | clause h hc =>
      rw [hform] at h
      cases h
      exact .inr ⟨rfl, hc⟩
  | decorator h | base h | classPart h => rw [hform] at h; cases h
  | part h => rw [hform] at h; cases h

theorem Way.of_class {cls : ClassLike} (hform : n.form = .classLike cls) (h : n.Way w? c) :
    w? = none ∧ c ∈ cls.decorators ∨ w? = some (.base n.id) ∧ cls.base = some c ∨
      w? = some (.scope n.id) ∧
        c ∈ cls.typeParameters.getD [] ++ cls.interfaces ++ cls.members := by
  cases h with
  | subject h | clause h => rw [hform] at h; cases h
  | decorator h hc =>
      rw [hform] at h
      cases h
      exact .inl ⟨rfl, hc⟩
  | base h hc =>
      rw [hform] at h
      cases h
      exact .inr (.inl ⟨rfl, hc⟩)
  | classPart h hc =>
      rw [hform] at h
      cases h
      exact .inr (.inr ⟨rfl, hc⟩)
  | part h => rw [hform] at h; cases h

theorem Way.of_whole (hsplits : n.form.splits = false) (h : n.Way w? c) :
    w? = if n.form.opens then some (.scope n.id) else none := by
  cases h with
  | subject h | clause h | decorator h | base h | classPart h => rw [h] at hsplits; cases hsplits
  | part => rfl

/-- The scope that is met on the way to a part depends on the part only. -/
theorem Way.eq (hn : (numbers n).Nodup) (h : n.Way w? c) (h' : n.Way w'? c) : w? = w'? := by
  have hnodup := nodup_of_nodup_numbers (nodup_of_count_le n.count_numbers_children_le hn)
  by_cases hsplits : n.form.splits = false
  · rw [h.of_whole hsplits, h'.of_whole hsplits]
  · cases hform : n.form with
    | switchStmt subject clauses =>
        rw [hform] at hnodup
        have hsubject : subject ∉ clauses := (List.nodup_cons.mp hnodup).1
        obtain ⟨rfl, rfl⟩ | ⟨rfl, hc⟩ := h.of_switch hform <;>
          obtain ⟨rfl, hc'⟩ | ⟨rfl, hc'⟩ := h'.of_switch hform
        · rfl
        · exact (hsubject hc').elim
        · exact (hsubject (hc' ▸ hc)).elim
        · rfl
    | classLike cls =>
        rw [hform] at hnodup
        change cls.children.Nodup at hnodup
        have hparts := h.of_class hform
        have hparts' := h'.of_class hform
        simp only [ClassLike.children, List.nodup_append, List.mem_append,
          Option.mem_toList] at hnodup
        simp only [List.mem_append] at hparts hparts'
        grind
    | _ => exact (hsplits (by rw [hform]; rfl)).elim

/-- No path leads back to where it started. -/
theorem Way.not_path (hn : (numbers n).Nodup) (h : n.Way w? c) : ¬ c.Path ws n := by
  intro hpath
  have hchild : 1 ≤ (numbers n.form.children).count n.id :=
    Nat.lt_of_lt_of_le (List.count_pos_iff.mpr hpath.id_mem_numbers)
      (count_le_of_mem h.mem_children numbers n.id)
  have honce := List.nodup_iff_count.mp hn n.id
  have hparts := n.form.count_numbers_children_le n.id
  rw [n.count_numbers_eq, List.count_singleton_self] at honce
  omega

/-- There is one path between two nodes of a tree with different numbers. -/
theorem Path.eq (hn : (numbers n).Nodup) (h : n.Path ws m) (h' : n.Path ws' m) : ws = ws' := by
  induction h generalizing ws' with
  | here =>
      cases h' with
      | here => rfl
      | step hway hpath => exact (hway.not_path hn hpath).elim
  | @step n c m w? ws hway hpath ih =>
      have hchildren := nodup_of_count_le n.count_numbers_children_le hn
      cases h' with
      | here => exact (hway.not_path hn hpath).elim
      | @step _ c' _ w'? ws' hway' hpath' =>
          obtain rfl := eq_of_mem_numbers hchildren hway.mem_children hway'.mem_children
            hpath.id_mem_numbers hpath'.id_mem_numbers
          have hc : (numbers c).Nodup := nodup_of_count_le
            (fun i => count_le_of_mem hway.mem_children numbers i) hchildren
          rw [hway.eq hn hway', ih hc hpath']

end Node
end Erasure

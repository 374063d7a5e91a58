import Erasure.Proofs.Parse.Numbering.Statements
import Erasure.Proofs.Scope.Introduced
import Erasure.Proofs.Untyped.EnumValues

/-!
The table with the values of enum members. Every member of a file is evaluated once, and a value
that is found is kept, so that in the finished table each initializer evaluates to the value that
its member has there.
-/

namespace Erasure

namespace Node

def enumMembers (n : Node) : List Node :=
  match n.form with
  | .enumStmt _ _ members => members
  | _ => []

theorem enumMembers_sublist (n : Node) : n.enumMembers.Sublist n.form.children := by
  unfold enumMembers
  split
  · rename_i hform
    rw [hform]
    exact List.Sublist.refl _
  · exact List.nil_sublist _

theorem count_numbers_parts_le (n : Node) (i : NodeId) :
    [n.id].count i + (numbers n.form.parts).count i ≤ (numbers n).count i := by
  rw [count_numbers_eq]
  omega

/-- What is visited below a node are its children, or parts of them. -/
theorem count_visited_parts_le (n : Node) (i : NodeId) :
    (n.visited.flatMap fun v => numbers v.form.parts).count i ≤
      (n.form.children.flatMap fun c => numbers c.form.parts).count i := by
  have hparts : ∀ ns : List Node,
      ((ns.flatMap fun c => if c.form.isInner then c.form.children else [c]).flatMap
        fun v => numbers v.form.parts).count i ≤
          (ns.flatMap fun c => numbers c.form.parts).count i := by
    intro ns
    rw [List.flatMap_assoc]
    refine count_flatMap_le fun c _ => ?_
    split
    · refine Nat.le_trans (count_flatMap_le fun v _ => ?_) (c.form.count_numbers_children_le i)
      exact Nat.le_trans (Nat.le_add_left _ _) (v.count_numbers_parts_le i)
    · exact Nat.le_of_eq (by rw [List.flatMap_singleton])
  unfold visited
  split
  · exact Nat.zero_le _
  · exact Nat.zero_le _
  · exact hparts _

/-- The numbers of the members of all enums in a node are among the numbers below it. -/
theorem count_members_visitedWithin_le (fuel : Nat) (n : Node) (i : NodeId) :
    ((n.visitedWithin fuel).flatMap fun v => v.enumMembers.map Node.id).count i ≤
      (numbers n.form.parts).count i := by
  induction fuel generalizing n with
  | zero => exact Nat.zero_le _
  | succ fuel ih =>
      have hbelow : ((n.visited.flatMap (Node.visitedWithin fuel)).flatMap
          fun v => v.enumMembers.map Node.id).count i ≤
            (n.form.children.flatMap fun c => numbers c.form.parts).count i := by
        rw [List.flatMap_assoc]
        exact Nat.le_trans (count_flatMap_le fun v _ => ih v) (n.count_visited_parts_le i)
      have hmembers : (n.enumMembers.map Node.id).count i ≤
          (n.form.children.flatMap fun c => [c.id]).count i := by
        rw [← List.map_eq_flatMap]
        exact (n.enumMembers_sublist.map Node.id).count_le i
      have hchildren : (n.form.children.flatMap fun c => [c.id]).count i +
          (n.form.children.flatMap fun c => numbers c.form.parts).count i ≤
            (numbers n.form.children).count i := by
        rw [← count_flatMap_append]
        refine count_flatMap_le fun c _ => ?_
        rw [List.count_append]
        exact c.count_numbers_parts_le i
      have hparts := n.form.count_numbers_children_le i
      rw [visitedWithin, List.flatMap_cons, List.count_append]
      omega

end Node

theorem SourceFile.nodup_members {f : SourceFile} (h : (numbers f.statements).Nodup) :
    (f.nodes.flatMap fun n => n.enumMembers.map Node.id).Nodup := by
  refine List.nodup_iff_count_le_one.mpr fun i => ?_
  refine Nat.le_trans ?_ (List.nodup_iff_count_le_one.mp h i)
  rw [nodes, List.flatMap_assoc]
  refine count_flatMap_le fun n _ => ?_
  refine Nat.le_trans (n.count_members_visitedWithin_le _ i) ?_
  exact Nat.le_trans (Nat.le_add_left _ _) (n.count_numbers_parts_le i)

namespace EnumValues

variable {b : Bindings} {owner? : Option SymbolId} {v u w : EnumValues}

/-- A table that knows every value that another one knows. -/
def Extends (w v : EnumValues) : Prop :=
  ∀ (i : NodeId) (x : EnumValue), v[i]? = some x → w[i]? = some x

theorem Extends.member? (h : w.Extends v) {owner : SymbolId} {name : String} {x : EnumValue}
    (hx : v.member? b owner name = some x) : w.member? b owner name = some x := by
  obtain ⟨member, hmember, hx⟩ := Option.bind_eq_some_iff.mp hx
  obtain ⟨d, hd, hx⟩ := Option.bind_eq_some_iff.mp hx
  exact Option.bind_eq_some_iff.mpr ⟨member, hmember, Option.bind_eq_some_iff.mpr ⟨d, hd, h _ x hx⟩⟩

theorem Extends.memberOf? (h : w.Extends v) {target : Node} {name : String} {x : EnumValue}
    (hx : (⟨b, v, owner?⟩ : Scope).memberOf? target name = some x) :
    (⟨b, w, owner?⟩ : Scope).memberOf? target name = some x := by
  obtain ⟨object, hobject, hx⟩ := Option.bind_eq_some_iff.mp hx
  obtain ⟨owner, howner, hx⟩ := Option.bind_eq_some_iff.mp hx
  exact Option.bind_eq_some_iff.mpr
    ⟨object, hobject, Option.bind_eq_some_iff.mpr ⟨owner, howner, h.member? hx⟩⟩

theorem Extends.named? (h : w.Extends v) {name : String} {x : EnumValue}
    (hx : (⟨b, v, owner?⟩ : Scope).named? name = some x) :
    (⟨b, w, owner?⟩ : Scope).named? name = some x := by
  unfold Scope.named? at hx ⊢
  split
  · rwa [if_pos ‹_›] at hx
  · rw [if_neg ‹_›] at hx
    split
    · rwa [if_pos ‹_›] at hx
    · rw [if_neg ‹_›] at hx
      obtain ⟨owner, howner, hx⟩ := Option.bind_eq_some_iff.mp hx
      exact Option.bind_eq_some_iff.mpr ⟨owner, howner, h.member? hx⟩

theorem mapM_eq_some_of_le {α β : Type} {f g : α → Option β} {as : List α} {bs : List β}
    (h : ∀ a x, f a = some x → g a = some x) (hf : as.mapM f = some bs) : as.mapM g = some bs := by
  induction as generalizing bs with
  | nil => exact hf
  | cons a as ih =>
      rw [List.mapM_cons] at hf ⊢
      obtain ⟨x, hx, hf⟩ := Option.bind_eq_some_iff.mp hf
      obtain ⟨xs, hxs, hf⟩ := Option.bind_eq_some_iff.mp hf
      exact Option.bind_eq_some_iff.mpr
        ⟨x, h a x hx, Option.bind_eq_some_iff.mpr ⟨xs, ih hxs, hf⟩⟩

theorem templateSpan?_eq_some_of_le {f g : Node → Option EnumValue}
    (h : ∀ n x, f n = some x → g n = some x) {n : Node} {text : String}
    (hf : templateSpan? f n = some text) : templateSpan? g n = some text := by
  unfold templateSpan? at hf ⊢
  cases hform : n.form with
  | templateSpan expression literal =>
      rw [hform] at hf
      obtain ⟨x, hx, hf⟩ := Option.bind_eq_some_iff.mp hf
      exact Option.bind_eq_some_iff.mpr ⟨x, h _ x hx, hf⟩
  | _ => rw [hform] at hf; cases hf

/-- What is evaluated with some values has the same value with more of them. -/
theorem Extends.evaluate? (h : w.Extends v) (fuel : Nat) (n : Node) (x : EnumValue)
    (hx : EnumValues.evaluate? ⟨b, v, owner?⟩ fuel n = some x) :
    EnumValues.evaluate? ⟨b, w, owner?⟩ fuel n = some x := by
  induction fuel generalizing n x with
  | zero => cases hx
  | succ fuel ih =>
      rw [EnumValues.evaluate?] at hx ⊢
      cases hform : n.form with
      | template head spans =>
          rw [hform] at hx
          obtain ⟨first, hfirst, hx⟩ := Option.bind_eq_some_iff.mp hx
          obtain ⟨rest, hrest, hx⟩ := Option.bind_eq_some_iff.mp hx
          have hspans := mapM_eq_some_of_le (fun _ _ => templateSpan?_eq_some_of_le ih) hrest
          exact Option.bind_eq_some_iff.mpr
            ⟨first, hfirst, Option.bind_eq_some_iff.mpr ⟨rest, hspans, hx⟩⟩
      | parenthesized inner =>
          rw [hform] at hx
          exact ih inner x hx
      | identifier name =>
          rw [hform] at hx
          exact h.named? hx
      | propertyAccess target name isOptional breakBeforeDot =>
          rw [hform] at hx
          dsimp only at hx ⊢
          split
          · rwa [if_pos ‹_›] at hx
          · rw [if_neg ‹_›] at hx
            exact h.memberOf? hx
      | elementAccess target index isOptional =>
          rw [hform] at hx
          dsimp only at hx ⊢
          split <;> simp only [*] at hx
          · exact h.memberOf? hx
          · exact h.memberOf? hx
          · cases hx
      | prefixUnary operator operand =>
          rw [hform] at hx
          obtain ⟨y, hy, hx⟩ := Option.bind_eq_some_iff.mp hx
          exact Option.bind_eq_some_iff.mpr ⟨y, ih operand y hy, hx⟩
      | binary left operator right breakBefore breakAfter =>
          rw [hform] at hx
          obtain ⟨y, hy, hx⟩ := Option.bind_eq_some_iff.mp hx
          obtain ⟨z, hz, hx⟩ := Option.bind_eq_some_iff.mp hx
          exact Option.bind_eq_some_iff.mpr
            ⟨y, ih left y hy, Option.bind_eq_some_iff.mpr ⟨z, ih right z hz, hx⟩⟩
      | _ => rw [hform] at hx; exact hx

/-- A member, with the enum that it belongs to. -/
abbrev EnumStep := Option SymbolId × Node

/-- The table `w` that some members make of the table `v`: it knows what `v` knows about all others,
and every initializer evaluates in it to the value that it has for the member. -/
structure Completes (b : Bindings) (steps : List EnumStep) (v w : EnumValues) : Prop where
  outside : ∀ i, i ∉ steps.map (fun step => step.2.id) → w[i]? = v[i]?
  evaluated : ∀ step ∈ steps, ∀ (key e : Node) (x : EnumValue),
    step.2.form = .enumMember key (some e) → w[step.2.id]? = some x →
      evaluate? ⟨b, w, step.1⟩ (Limits.enumFold + 1) e = some x

namespace Completes

theorem nil (b : Bindings) (v : EnumValues) : Completes b [] v v :=
  ⟨fun _ _ => rfl, fun _ h => nomatch h⟩

theorem extends_of_new {steps : List EnumStep} (h : Completes b steps v w)
    (hnew : ∀ step ∈ steps, v[step.2.id]? = none) : w.Extends v := by
  intro i x hx
  by_cases hi : i ∈ steps.map fun step => step.2.id
  · obtain ⟨step, hstep, rfl⟩ := List.mem_map.mp hi
    rw [hnew step hstep] at hx
    cases hx
  · rw [h.outside i hi, hx]

/-- Values that are found first stay, if the later members are others. -/
theorem append {first second : List EnumStep} (hfirst : Completes b first v u)
    (hsecond : Completes b second u w)
    (hapart : ∀ step ∈ first, step.2.id ∉ second.map fun step => step.2.id)
    (hnew : ∀ step ∈ second, u[step.2.id]? = none) : Completes b (first ++ second) v w where
  outside i hi := by
    rw [List.map_append, List.mem_append, not_or] at hi
    rw [hsecond.outside i hi.2, hfirst.outside i hi.1]
  evaluated step hstep key e x hform hx := by
    rcases List.mem_append.mp hstep with hmem | hmem
    · rw [hsecond.outside _ (hapart step hmem)] at hx
      have hvalue := hfirst.evaluated step hmem key e x hform hx
      exact (hsecond.extends_of_new hnew).evaluate? _ e x hvalue
    · exact hsecond.evaluated step hmem key e x hform hx

end Completes

theorem Progress.getElem?_record_of_ne (p : Progress) {member i : NodeId} (h : i ≠ member)
    (value : Option EnumValue) : (p.record member value).values[i]? = p.values[i]? := by
  cases value with
  | none => rfl
  | some x => exact getElem?_insert_of_ne p.values h x

theorem Progress.getElem?_record_self (p : Progress) {member : NodeId} (value : Option EnumValue)
    (hnew : p.values[member]? = none) : (p.record member value).values[member]? = value := by
  cases value with
  | none => exact hnew
  | some x => exact getElem?_insert_self p.values member x

/-- What one member adds to the table. -/
theorem evaluateMember_completes (p : Progress) (n : Node) (hnew : p.values[n.id]? = none) :
    Completes b [(owner?, n)] p.values (evaluateMember b owner? p n).values := by
  by_cases hmember : ∃ key initial?, n.form = .enumMember key initial?
  · obtain ⟨key, initial?, hform⟩ := hmember
    rw [evaluateMember_enumMember b owner? p hform]
    have houtside : ∀ i, i ≠ n.id → (p.record n.id (memberValue? b owner? p initial?)).values[i]? =
        p.values[i]? := fun i hi => p.getElem?_record_of_ne hi _
    have hself := p.getElem?_record_self (memberValue? b owner? p initial?) hnew
    refine ⟨fun i hi => houtside i (by simpa using hi), ?_⟩
    intro step hstep key' e x hstepForm hx
    cases List.mem_singleton.mp hstep
    cases hform.symm.trans hstepForm
    have hextends : (p.record n.id (memberValue? b owner? p (some e))).values.Extends p.values := by
      intro i y hy
      rw [houtside i (fun heq => by rw [heq, hnew] at hy; cases hy), hy]
    exact hextends.evaluate? _ e x (hself.symm.trans hx)
  · have hsame : evaluateMember b owner? p n = p := by
      unfold evaluateMember
      split
      · rename_i key initial? hform
        exact absurd ⟨key, initial?, hform⟩ hmember
      · rfl
    rw [hsame]
    refine ⟨fun _ _ => rfl, fun step hstep key e x hform _ => ?_⟩
    cases List.mem_singleton.mp hstep
    exact absurd ⟨key, some e, hform⟩ hmember

/-- What the members of an enum add. -/
theorem foldl_evaluateMember_completes (members : List Node) (p : Progress)
    (hnodup : (members.map Node.id).Nodup) (hnew : ∀ n ∈ members, p.values[n.id]? = none) :
    Completes b (members.map fun n => (owner?, n)) p.values
      (members.foldl (evaluateMember b owner?) p).values := by
  induction members generalizing p with
  | nil => exact .nil b p.values
  | cons n members ih =>
      obtain ⟨hn, hnodup⟩ := List.nodup_cons.mp hnodup
      have hfirst : Completes b [(owner?, n)] p.values (evaluateMember b owner? p n).values :=
        evaluateMember_completes p n (hnew n List.mem_cons_self)
      have hnext : ∀ m ∈ members, (evaluateMember b owner? p n).values[m.id]? = none := by
        intro m hm
        have hne : m.id ≠ n.id := fun heq => hn (heq ▸ List.mem_map_of_mem hm)
        rw [hfirst.outside m.id (by simpa using hne)]
        exact hnew m (List.mem_cons_of_mem _ hm)
      refine hfirst.append (ih _ hnodup hnext) ?_ ?_
      · intro step hstep
        cases List.mem_singleton.mp hstep
        simpa [Function.comp_def] using hn
      · intro step hstep
        obtain ⟨m, hm, rfl⟩ := List.mem_map.mp hstep
        exact hnext m hm

/-- The members of a node with their enum. -/
def steps (b : Bindings) (n : Node) : List EnumStep :=
  match n.form with
  | .enumStmt _ name members => members.map fun m => (b.symbolOf? name.id, m)
  | _ => []

theorem map_steps (b : Bindings) (n : Node) :
    (steps b n).map (fun step => step.2.id) = n.enumMembers.map Node.id := by
  unfold steps Node.enumMembers
  split <;> simp [Function.comp_def, *]

theorem evaluateEnum_completes (v : EnumValues) (n : Node)
    (hnodup : (n.enumMembers.map Node.id).Nodup)
    (hnew : ∀ i ∈ n.enumMembers.map Node.id, v[i]? = none) :
    Completes b (steps b n) v (evaluateEnum b v n) := by
  unfold Node.enumMembers at hnodup hnew
  unfold evaluateEnum steps
  cases hform : n.form with
  | enumStmt ms name members =>
      rw [hform] at hnodup hnew
      exact foldl_evaluateMember_completes members { values := v } hnodup fun m hm =>
        hnew m.id (List.mem_map_of_mem hm)
  | _ => exact .nil b v

/-- What all enums in some nodes add. -/
theorem foldl_evaluateEnum_completes (ns : List Node) (v : EnumValues)
    (hnodup : (ns.flatMap fun n => n.enumMembers.map Node.id).Nodup)
    (hnew : ∀ i ∈ ns.flatMap fun n => n.enumMembers.map Node.id, v[i]? = none) :
    Completes b (ns.flatMap (steps b)) v (ns.foldl (evaluateEnum b) v) := by
  induction ns generalizing v with
  | nil => exact .nil b v
  | cons n ns ih =>
      rw [List.flatMap_cons] at hnodup hnew ⊢
      obtain ⟨hfirst, hrest, hapart⟩ := List.nodup_append.mp hnodup
      have hids : (ns.flatMap (steps b)).map (fun step => step.2.id) =
          ns.flatMap fun n => n.enumMembers.map Node.id := by
        rw [List.map_flatMap]
        simp only [map_steps]
      have hn := evaluateEnum_completes (b := b) v n hfirst fun i hi =>
        hnew i (List.mem_append_left _ hi)
      have hnext : ∀ i ∈ ns.flatMap (fun n => n.enumMembers.map Node.id),
          (evaluateEnum b v n)[i]? = none := by
        intro i hi
        have hout : i ∉ (steps b n).map fun step => step.2.id := by
          rw [map_steps]
          exact fun hmem => hapart i hmem i hi rfl
        rw [hn.outside i hout]
        exact hnew i (List.mem_append_right _ hi)
      refine hn.append (ih _ hrest hnext) ?_ ?_
      · intro step hstep
        rw [hids]
        have hmem : step.2.id ∈ n.enumMembers.map Node.id := by
          rw [← map_steps b]
          exact List.mem_map_of_mem (f := fun step : EnumStep => step.2.id) hstep
        exact fun hi => hapart _ hmem _ hi rfl
      · intro step hstep
        refine hnext _ ?_
        rw [← hids]
        exact List.mem_map_of_mem (f := fun step : EnumStep => step.2.id) hstep

/-- In the table of a file every initializer evaluates to the value of its member. -/
theorem evaluate?_of_getElem? {f : SourceFile} (hf : (numbers f.statements).Nodup) {n : Node}
    (hn : n ∈ f.nodes) {ms : Modifiers} {name : Identifier} {members : List Node}
    (hform : n.form = .enumStmt ms name members) {member key e : Node} (hmember : member ∈ members)
    (hinitial : member.form = .enumMember key (some e)) {x : EnumValue}
    (hx : (ofFile f b)[member.id]? = some x) :
    evaluate? ⟨b, ofFile f b, b.symbolOf? name.id⟩ (Limits.enumFold + 1) e = some x := by
  have hcompletes := foldl_evaluateEnum_completes (b := b) f.nodes {}
    (SourceFile.nodup_members hf) fun i _ => by simp
  refine hcompletes.evaluated (b.symbolOf? name.id, member) ?_ key e x hinitial hx
  refine List.mem_flatMap.mpr ⟨n, hn, ?_⟩
  unfold steps
  rw [hform]
  exact List.mem_map_of_mem hmember

end EnumValues

end Erasure

import Erasure.Check.Statement
import Erasure.Proofs.Parse.Numbering.Statements

/-!
What stands around a jump. The nodes of a file are reached from its statements, and on the way the
loops, switches and labels are gathered that a jump can leave. In a parsed file no two jumps start
at the same place, so that the start of a jump tells what stands around it.
-/

namespace Erasure

namespace Form

def isLoop : Form → Bool
  | .doStmt _ _ | .whileStmt _ _ | .forStmt _ _ _ _ | .forInStmt _ _ _ | .forOfStmt _ _ _ _ => true
  | _ => false

def isSwitch : Form → Bool
  | .switchStmt _ _ => true
  | _ => false

def hasLabel (name : String) : Form → Bool
  | .labeledStmt label _ => label.text = name
  | _ => false

/-- A label on a loop, or on another label on one. -/
def labelsLoop (name : String) : Form → Bool
  | .labeledStmt label body => label.text = name && body.isIteration
  | _ => false

/-- What is reported of a jump that has no target, and which statements around it are targets. -/
def jump? : Form → Option (Message × (Form → Bool))
  | .breakStmt none => some (.breakOutsideLoop, fun f => f.isLoop || f.isSwitch)
  | .continueStmt none => some (.continueOutsideLoop, isLoop)
  | .breakStmt (some label) => some (.breakToLabel, hasLabel label.text)
  | .continueStmt (some label) => some (.continueToLabel, labelsLoop label.text)
  | _ => none

end Form

/-- The nodes that are looked at below a node. -/
structure JumpParts where
  /-- Those that stand where the node does. -/
  plain : List Node := []
  /-- Those from which a jump can go to the node itself. -/
  governed : List Node := []
  /-- Those that no jump leaves. -/
  secluded : List Node := []

namespace JumpParts

def all (p : JumpParts) : List Node := p.plain ++ p.governed ++ p.secluded

end JumpParts

/-- Members with a function have it right below them. -/
def Form.memberParts : Form → JumpParts
  | .propertyMember key _ _ type? initial? =>
      { plain := key :: type?.toList, secluded := initial?.toList }
  | .methodMember key _ func | .getterMember key func | .setterMember key func =>
      { plain := [key], secluded := func.func.children }
  | .constructorMember func => { secluded := func.func.children }
  | .indexMember parameters type? => { plain := parameters ++ type?.toList }
  | .staticBlock body => { secluded := [body] }
  | _ => {}

def Node.propertyParts (n : Node) : JumpParts :=
  match n.form with
  | .shorthandProperty _ initial? => { plain := initial?.toList }
  | .methodProperty key func | .getterProperty key func | .setterProperty key func =>
      { plain := [key], secluded := func.func.children }
  | _ => { plain := [n] }

/-- Loops, switches and labels can be left by a jump, and functions, arrow functions, initializers
of fields, static blocks and namespaces cannot. Anything else leaves its parts where it stands.

The expression that a clause of `implements`, or of `extends` in an interface, names is not looked
at, and neither are the attributes of imports and exports. -/
def Node.jumpParts (n : Node) : JumpParts :=
  match n.form with
  | .doStmt _ _ | .whileStmt _ _ | .forStmt _ _ _ _ | .forInStmt _ _ _ | .forOfStmt _ _ _ _ =>
      { governed := n.visited }
  | .switchStmt subject clauses => { plain := [subject], governed := clauses }
  | .labeledStmt _ body => { governed := [body] }
  | .functionLike f | .arrowFunction f _ => { secluded := f.children }
  | .moduleDeclaration _ _ _ _ => { secluded := n.visited }
  | .classLike c => { plain := c.children }
  | .classMember decorators _ member =>
      { member.memberParts with plain := decorators ++ member.memberParts.plain }
  | .objectLiteral properties _ =>
      { plain := properties.flatMap fun p => p.propertyParts.plain
        secluded := properties.flatMap fun p => p.propertyParts.secluded }
  | .heritage true _ typeArguments => { plain := typeArguments.getD [] }
  | .returnStmt value? => { plain := value?.toList }
  | .withStmt object body => { plain := [object, body] }
  | .enumStmt _ _ members => { plain := members }
  | .exportAssignment _ value => { plain := [value] }
  | _ => { plain := n.visited }

/-- A node of a file, and the loops, switches and labels between it and the innermost function,
initializer of a field, static block or namespace around it. -/
inductive SourceFile.Holds (f : SourceFile) : List Node → Node → Prop
  | statement {n : Node} (h : n ∈ f.statements) : f.Holds [] n
  | plain {around : List Node} {n c : Node} (h : f.Holds around n) (hc : c ∈ n.jumpParts.plain) :
      f.Holds around c
  | governed {around : List Node} {n c : Node} (h : f.Holds around n)
      (hc : c ∈ n.jumpParts.governed) : f.Holds (n :: around) c
  | secluded {around : List Node} {n c : Node} (h : f.Holds around n)
      (hc : c ∈ n.jumpParts.secluded) : f.Holds [] c

/-- The parts of a node, each with what stands around it. -/
def Node.placed (around : List Node) (n : Node) : List (List Node × Node) :=
  n.jumpParts.plain.map (around, ·) ++ n.jumpParts.governed.map (n :: around, ·) ++
    n.jumpParts.secluded.map ([], ·)

/-- A node and the nodes below it, as deep as the fuel allows, each with what stands around it. -/
def Node.heldWithin : Nat → List Node → Node → List (List Node × Node)
  | 0, _, _ => []
  | fuel + 1, around, n =>
      (around, n) :: (n.placed around).flatMap fun x => x.2.heldWithin fuel x.1

theorem count_marks_flatMap_le {f : Node → List Node} {ns : List Node} {i : Mark}
    (h : ∀ n ∈ ns, (marks (f n)).count i ≤ (marks n).count i) :
    (marks (ns.flatMap f)).count i ≤ (marks ns).count i := by
  induction ns with
  | nil => exact Nat.le_refl _
  | cons n ns ih =>
      obtain ⟨hn, hns⟩ := List.forall_mem_cons.mp h
      simp only [List.flatMap_cons, marks_append, marks_cons, List.count_append]
      exact Nat.add_le_add hn (ih hns)

theorem Node.count_marks_form_le (n : Node) (i : Mark) :
    (marks n.form).count i ≤ (marks n).count i := by
  simp only [n.marks_eq, List.count_cons, List.count_append]
  omega

theorem Form.count_marks_parts_le (form : Form) (i : Mark) :
    (marks form.parts).count i ≤ (marks form).count i := by
  simp only [marks_form, List.count_append]
  omega

theorem Form.count_marks_children_le (form : Form) (i : Mark) :
    (marks form.children).count i ≤ (marks form.parts).count i := by
  have hdirect (member : Form) : (marks member.directChildren).count i ≤
      (marks member.parts).count i := by
    cases member with
    | classMember _ _ _ | typeElement _ _ => exact Nat.zero_le _
    | _ => exact Nat.le_refl _
  cases form with
  | classMember decorators _ member =>
      simp only [Form.children, Form.parts, marks_append, List.count_append]
      exact Nat.add_le_add_left (hdirect member) _
  | typeElement _ element => exact hdirect element
  | _ => exact Nat.le_refl _

namespace Node

theorem count_marks_children_le (n : Node) (i : Mark) :
    (marks n.form.children).count i ≤ (marks n).count i :=
  ((n.form.count_marks_children_le i).trans (n.form.count_marks_parts_le i)).trans
    (n.count_marks_form_le i)

theorem count_marks_visited_le (n : Node) (i : Mark) :
    (marks n.visited).count i ≤ (marks n.form.parts).count i := by
  unfold visited
  split
  · exact Nat.zero_le _
  · exact Nat.zero_le _
  · refine (count_marks_flatMap_le fun c _ => ?_).trans (n.form.count_marks_children_le i)
    split
    · exact c.count_marks_children_le i
    · simp

theorem count_marks_func_le (n : Node) (i : Mark) :
    (marks n.func.children).count i ≤ (marks n).count i := by
  unfold func Form.function?
  split
  · rename_i f hform
    refine Nat.le_trans ?_ (n.count_marks_form_le i)
    rw [hform]
    exact Form.count_marks_parts_le (.functionLike f) i
  · exact Nat.zero_le _

end Node

theorem Form.count_marks_memberParts_le (form : Form) (i : Mark) :
    (marks form.memberParts.all).count i ≤ (marks form.parts).count i := by
  unfold memberParts
  split
  · simp [JumpParts.all, parts, directChildren]
  iterate 3
    rename_i func
    have hfunc := func.count_marks_func_le i
    simp [JumpParts.all, parts, directChildren]
    omega
  · rename_i func
    have hfunc := func.count_marks_func_le i
    simp [JumpParts.all, parts, directChildren]
    omega
  · simp [JumpParts.all, parts, directChildren]
  · simp [JumpParts.all, parts, directChildren]
  · exact Nat.zero_le _

theorem Node.count_marks_propertyParts_le (n : Node) (i : Mark) :
    (marks n.propertyParts.all).count i ≤ (marks n).count i := by
  have hform := n.count_marks_form_le i
  unfold propertyParts
  split
  · rename_i heq
    rw [heq] at hform
    refine Nat.le_trans ?_ hform
    simp [JumpParts.all, Form.directChildren, List.count_cons]
  iterate 3
    rename_i func heq
    have hfunc := func.count_marks_func_le i
    rw [heq] at hform
    simp [JumpParts.all, Form.directChildren] at hform ⊢
    omega
  · simp [JumpParts.all]

theorem count_marks_properties_le (ns : List Node) (i : Mark) :
    (marks (ns.flatMap fun n => n.propertyParts.plain)).count i +
      (marks (ns.flatMap fun n => n.propertyParts.secluded)).count i ≤ (marks ns).count i := by
  induction ns with
  | nil => exact Nat.le_refl _
  | cons n ns ih =>
      have hn := n.count_marks_propertyParts_le i
      simp only [JumpParts.all, List.flatMap_cons, marks_append, marks_cons, List.count_append]
        at hn ⊢
      omega

/-- The parts of a node are in it, and no two of them are the same or one in the other. -/
theorem Node.count_marks_jumpParts_le (n : Node) (i : Mark) :
    (marks n.jumpParts.all).count i ≤ (marks n.form).count i := by
  refine Nat.le_trans ?_ (n.form.count_marks_parts_le i)
  have hvisited := n.count_marks_visited_le i
  unfold jumpParts
  split
  case h_1 | h_2 | h_3 | h_4 | h_5 | h_10 | h_19 => simpa [JumpParts.all] using hvisited
  case h_12 decorators _ member hform =>
    have hmember := member.count_marks_memberParts_le i
    rw [hform]
    simp [JumpParts.all] at hmember ⊢
    omega
  case h_13 properties _ hform =>
    have hproperties := count_marks_properties_le properties i
    rw [hform]
    simpa [JumpParts.all, Form.directChildren] using hproperties
  case h_14 expression typeArguments hform =>
    rw [hform]
    simp [JumpParts.all, Form.directChildren]
  all_goals
    rename_i hform
    rw [hform]
    simp [JumpParts.all, Form.directChildren]

theorem Node.map_placed (around : List Node) (n : Node) :
    (n.placed around).map Prod.snd = n.jumpParts.all := by
  simp [placed, JumpParts.all, Function.comp_def]

/-- The marks of a node itself that is held. -/
def heldMarks (x : List Node × Node) : List Mark := x.2.form.jumpMarks x.2.span.start

theorem count_flatMap_heldMarks_le (xs : List (List Node × Node))
    {f : List Node × Node → List (List Node × Node)} {i : Mark}
    (h : ∀ x ∈ xs, ((f x).flatMap heldMarks).count i ≤ (marks x.2).count i) :
    ((xs.flatMap f).flatMap heldMarks).count i ≤ (marks (xs.map Prod.snd)).count i := by
  induction xs with
  | nil => exact Nat.le_refl _
  | cons x xs ih =>
      obtain ⟨hx, hxs⟩ := List.forall_mem_cons.mp h
      simp only [List.flatMap_cons, List.flatMap_append, List.map_cons, marks_cons,
        List.count_append]
      exact Nat.add_le_add hx (ih hxs)

/-- Every jump below a node is held once. -/
theorem Node.count_heldMarks_le (fuel : Nat) (around : List Node) (n : Node) (i : Mark) :
    ((n.heldWithin fuel around).flatMap heldMarks).count i ≤ (marks n).count i := by
  induction fuel generalizing around n with
  | zero => exact Nat.zero_le _
  | succ fuel ih =>
      have hparts := n.count_marks_jumpParts_le i
      have hbelow := count_flatMap_heldMarks_le (n.placed around) fun x _ => ih x.1 x.2
      rw [map_placed] at hbelow
      rw [n.marks_eq, heldWithin]
      simp only [heldMarks, List.flatMap_cons, List.count_cons, List.count_append] at hbelow ⊢
      omega

theorem length_numbers_le {ns : List Node} {n : Node} (h : n ∈ ns) :
    (numbers n).length ≤ (numbers ns).length := by
  obtain ⟨before, after, rfl⟩ := List.append_of_mem h
  simp only [numbers_append, numbers_cons, List.length_append]
  omega

/-- A node has a number of its own next to those in its parts. -/
theorem Node.length_numbers_lt {around : List Node} {n : Node} {x : List Node × Node}
    (hx : x ∈ n.placed around) : (numbers x.2).length < (numbers n).length := by
  have hle : (n.id :: numbers n.jumpParts.all).Subperm (numbers n) := by
    refine List.subperm_ext_iff.mpr fun i _ => ?_
    have hparts := n.count_marks_jumpParts_le (.number i)
    rw [count_numbers] at hparts
    rw [← n.count_number, n.marks_eq]
    simp only [List.count_cons, List.count_append, beq_iff_eq, Mark.number.injEq]
    omega
  have hall : x.2 ∈ n.jumpParts.all := map_placed around n ▸ List.mem_map_of_mem hx
  exact (Nat.lt_succ_of_le (length_numbers_le hall)).trans_le hle.length_le

theorem Node.self_mem_heldWithin {fuel : Nat} {n : Node} (hfuel : (numbers n).length ≤ fuel)
    (around : List Node) : (around, n) ∈ n.heldWithin fuel around := by
  cases fuel with
  | zero =>
      rw [n.numbers_eq] at hfuel
      exact absurd hfuel (Nat.not_succ_le_zero _)
  | succ fuel => exact List.mem_cons_self

/-- With enough fuel the parts of a node that is held are held, too. -/
theorem Node.placed_mem_heldWithin {fuel : Nat} {around : List Node} {n : Node}
    (hfuel : (numbers n).length ≤ fuel) {x y : List Node × Node} (hx : x ∈ n.heldWithin fuel around)
    (hy : y ∈ x.2.placed x.1) : y ∈ n.heldWithin fuel around := by
  induction fuel generalizing around n with
  | zero => cases hx
  | succ fuel ih =>
      simp only [heldWithin, List.mem_cons, List.mem_flatMap] at hx ⊢
      have hlt {z : List Node × Node} (hz : z ∈ n.placed around) : (numbers z.2).length ≤ fuel :=
        Nat.le_of_lt_succ ((length_numbers_lt hz).trans_le hfuel)
      rcases hx with rfl | ⟨z, hz, hx⟩
      · exact .inr ⟨y, hy, self_mem_heldWithin (hlt hy) y.1⟩
      · exact .inr ⟨z, hz, ih (hlt hz) hx⟩

namespace SourceFile

variable {f : SourceFile} {around : List Node} {n : Node}

/-- The nodes of a file, each with what stands around it. -/
def held (f : SourceFile) (fuel : Nat) : List (List Node × Node) :=
  f.statements.flatMap (Node.heldWithin fuel [])

theorem Holds.placed (h : f.Holds around n) {x : List Node × Node} (hx : x ∈ n.placed around) :
    f.Holds x.1 x.2 := by
  simp only [Node.placed, List.mem_append, List.mem_map] at hx
  rcases hx with (⟨c, hc, rfl⟩ | ⟨c, hc, rfl⟩) | ⟨c, hc, rfl⟩
  · exact .plain h hc
  · exact .governed h hc
  · exact .secluded h hc

theorem Holds.heldWithin (h : f.Holds around n) {fuel : Nat} {x : List Node × Node}
    (hx : x ∈ n.heldWithin fuel around) : f.Holds x.1 x.2 := by
  induction fuel generalizing around n with
  | zero => cases hx
  | succ fuel ih =>
      simp only [Node.heldWithin, List.mem_cons, List.mem_flatMap] at hx
      rcases hx with rfl | ⟨y, hy, hx⟩
      · exact h
      · exact ih (h.placed hy) hx

theorem placed_mem_held {fuel : Nat} (hfuel : (numbers f.statements).length ≤ fuel)
    {x y : List Node × Node} (hx : x ∈ f.held fuel) (hy : y ∈ x.2.placed x.1) :
    y ∈ f.held fuel := by
  obtain ⟨s, hs, hx⟩ := List.mem_flatMap.mp hx
  exact List.mem_flatMap.mpr
    ⟨s, hs, Node.placed_mem_heldWithin ((length_numbers_le hs).trans hfuel) hx hy⟩

theorem holds_iff {fuel : Nat} (hfuel : (numbers f.statements).length ≤ fuel) :
    f.Holds around n ↔ (around, n) ∈ f.held fuel := by
  constructor
  · intro h
    induction h with
    | @statement n h =>
        exact List.mem_flatMap.mpr
          ⟨n, h, Node.self_mem_heldWithin ((length_numbers_le h).trans hfuel) []⟩
    | plain _ hc ih => exact placed_mem_held hfuel ih (by simp [Node.placed, hc])
    | governed _ hc ih => exact placed_mem_held hfuel ih (by simp [Node.placed, hc])
    | secluded _ hc ih => exact placed_mem_held hfuel ih (by simp [Node.placed, hc])
  · intro h
    obtain ⟨s, hs, hx⟩ := List.mem_flatMap.mp h
    exact (Holds.statement hs).heldWithin hx

end SourceFile

theorem length_numbers_parseSource (fileName source : String) :
    (numbers (parseSource fileName source).1.statements).length ≤
      (parseSource fileName source).1.nodeCount := by
  obtain ⟨hnodup, hlt⟩ := nodup_numbers_parseSource fileName source
  have hsubset : numbers (parseSource fileName source).1.statements ⊆
      List.range (parseSource fileName source).1.nodeCount :=
    fun i hi => List.mem_range.mpr (hlt i hi).2
  simpa using (List.subperm_of_subset hnodup hsubset).length_le

theorem eq_of_count_flatMap_le_one {α β : Type} [DecidableEq β] {xs : List α} {f : α → List β}
    {i : β} (h : (xs.flatMap f).count i ≤ 1) {x y : α} (hx : x ∈ xs) (hy : y ∈ xs)
    (hix : i ∈ f x) (hiy : i ∈ f y) : x = y := by
  induction xs with
  | nil => cases hx
  | cons z zs ih =>
      rw [List.flatMap_cons, List.count_append] at h
      have hz {w : α} (hw : w ∈ zs) (hi : i ∈ f w) : 0 < (zs.flatMap f).count i :=
        List.count_pos_iff.mpr (List.mem_flatMap.mpr ⟨w, hw, hi⟩)
      rcases List.mem_cons.mp hx with rfl | hx' <;> rcases List.mem_cons.mp hy with rfl | hy'
      · rfl
      · have hfirst := List.count_pos_iff.mpr hix
        have hrest := hz hy' hiy
        omega
      · have hfirst := List.count_pos_iff.mpr hiy
        have hrest := hz hx' hix
        omega
      · exact ih (by omega) hx' hy'

theorem Form.mem_jumpMarks {form : Form} (h : form.jump?.isSome) (start : Nat) :
    Mark.jump start ∈ form.jumpMarks start := by
  unfold jump? at h
  split at h
  iterate 4
    exact List.mem_singleton_self _
  · cases h

/-- Where a jump starts tells which one it is, and what stands around it. -/
theorem holds_eq_of_start {fileName source : String} {around around' : List Node} {n n' : Node}
    (h : (parseSource fileName source).1.Holds around n)
    (h' : (parseSource fileName source).1.Holds around' n') (hjump : n.form.jump?.isSome)
    (hjump' : n'.form.jump?.isSome) (hstart : n.span.start = n'.span.start) :
    (around, n) = (around', n') := by
  have hfuel := length_numbers_parseSource fileName source
  refine eq_of_count_flatMap_le_one (f := heldMarks) (i := .jump n.span.start) ?_
    ((SourceFile.holds_iff hfuel).mp h) ((SourceFile.holds_iff hfuel).mp h')
    (Form.mem_jumpMarks hjump _) (hstart ▸ Form.mem_jumpMarks hjump' _)
  have hheld := count_flatMap_heldMarks_le (i := .jump n.span.start)
    ((parseSource fileName source).1.statements.map ([], ·)) fun x _ =>
      x.2.count_heldMarks_le (parseSource fileName source).1.nodeCount x.1 _
  rw [List.flatMap_map, List.map_map] at hheld
  refine hheld.trans ?_
  simpa [Function.comp_def] using count_jump_parseSource fileName source n.span.start

end Erasure

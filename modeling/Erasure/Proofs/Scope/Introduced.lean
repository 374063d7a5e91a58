import Mathlib.Data.List.Count
import Erasure.Proofs.Syntax.Numbers

/-!
The numbers in a node that are declared where the node stands, and the other ones, which a walk over
the node may declare. No number is of both sorts, so that no declaration is repeated.
-/

namespace Erasure

theorem count_flatMap_le {α : Type} {xs : List α} {f g : α → List NodeId} {i : NodeId}
    (h : ∀ x ∈ xs, (f x).count i ≤ (g x).count i) :
    (xs.flatMap f).count i ≤ (xs.flatMap g).count i := by
  induction xs with
  | nil => exact Nat.le_refl _
  | cons x xs ih =>
      obtain ⟨hx, hxs⟩ := List.forall_mem_cons.mp h
      rw [List.flatMap_cons, List.flatMap_cons, List.count_append, List.count_append]
      exact Nat.add_le_add hx (ih hxs)

theorem count_flatMap_le_of_sublist {α : Type} {xs ys : List α} (h : xs.Sublist ys)
    (f : α → List NodeId) (i : NodeId) :
    (xs.flatMap f).count i ≤ (ys.flatMap f).count i := by
  induction h with
  | slnil => exact Nat.le_refl _
  | cons y _ ih =>
      rw [List.flatMap_cons, List.count_append]
      exact Nat.le_add_left_of_le ih
  | cons_cons y _ ih =>
      rw [List.flatMap_cons, List.flatMap_cons, List.count_append, List.count_append]
      exact Nat.add_le_add_left ih _

theorem count_le_of_mem {α : Type} {xs : List α} {x : α} (h : x ∈ xs) (f : α → List NodeId)
    (i : NodeId) : (f x).count i ≤ (xs.flatMap f).count i := by
  have hle := count_flatMap_le_of_sublist (List.singleton_sublist.mpr h) f i
  rwa [List.flatMap_singleton] at hle

theorem count_flatMap_append {α : Type} (xs : List α) (f g : α → List NodeId) (i : NodeId) :
    (xs.flatMap fun x => f x ++ g x).count i = (xs.flatMap f).count i + (xs.flatMap g).count i := by
  induction xs with
  | nil => rfl
  | cons x xs ih =>
      simp only [List.flatMap_cons, List.count_append, ih]
      omega

theorem bindingIdentifiersOf_eq (ns : List Node) :
    bindingIdentifiersOf ns = ns.flatMap Node.bindingIdentifiers := by
  induction ns with
  | nil => rfl
  | cons n ns ih => rw [bindingIdentifiersOf, ih, List.flatMap_cons]

theorem bindingIdentifiersOfHoles_eq (ns : List (Option Node)) :
    bindingIdentifiersOfHoles ns = (ns.filterMap id).flatMap Node.bindingIdentifiers := by
  induction ns with
  | nil => rfl
  | cons n? ns ih =>
      rw [bindingIdentifiersOfHoles, ih]
      cases n? with
      | none => rfl
      | some n => rfl

theorem Parameter.name_mem_children (p : Parameter) : p.name ∈ p.children := by
  simp [Parameter.children]

theorem mem_bindingElement {property initializer : Option Node} {name : Node} :
    name ∈ property.toList ++ [name] ++ initializer.toList := by
  simp

namespace Node

/-- The numbers of the names that a binding introduces. -/
def bindingNumbers (n : Node) : List NodeId := n.bindingIdentifiers.map Identifier.id

theorem bindingNumbers_eq (n : Node) :
    n.bindingNumbers = match n.form with
      | .bindingIdentifier _ => [n.id]
      | .objectPattern elements => elements.flatMap bindingNumbers
      | .arrayPattern elements _ => (elements.filterMap fun x => x).flatMap bindingNumbers
      | .bindingElement _ _ name _ => name.bindingNumbers
      | _ => [] := by
  obtain ⟨id, span, form⟩ := n
  have hform : (Node.mk id span form).bindingIdentifiers = form.bindingIdentifiersAt id span := by
    rw [bindingIdentifiers]
  rw [bindingNumbers, hform]
  cases form with
  | objectPattern elements =>
      rw [Form.bindingIdentifiersAt, bindingIdentifiersOf_eq, List.map_flatMap]
      rfl
  | arrayPattern elements _ =>
      rw [Form.bindingIdentifiersAt, bindingIdentifiersOfHoles_eq, List.map_flatMap]
      rfl
  | bindingIdentifier _ | bindingElement _ _ _ _ => rw [Form.bindingIdentifiersAt]; rfl
  | _ => rfl

theorem count_numbers_eq (n : Node) (i : NodeId) :
    (numbers n).count i = [n.id].count i + n.form.ownNumbers.count i +
      (numbers n.form.parts).count i := by
  rw [numbers_eq, numbers_form, ← List.singleton_append, List.count_append, List.count_append,
    Nat.add_assoc]

theorem count_bindingNumbers_le (n : Node) (i : NodeId) :
    n.bindingNumbers.count i ≤ (numbers n).count i := by
  have hparts : ∀ c ∈ n.form.parts, c.bindingNumbers.count i ≤ (numbers c).count i :=
    fun c hc => c.count_bindingNumbers_le i
  have hflat : (n.form.parts.flatMap bindingNumbers).count i ≤ (numbers n.form.parts).count i :=
    count_flatMap_le hparts
  rw [count_numbers_eq, bindingNumbers_eq]
  split
  · omega
  · rename_i hform
    rw [hform] at hflat ⊢
    exact Nat.le_add_left_of_le hflat
  · rename_i hform
    rw [hform] at hflat ⊢
    exact Nat.le_add_left_of_le hflat
  · rename_i name _ hform
    have hmem : name ∈ n.form.parts := by rw [hform]; exact mem_bindingElement
    exact Nat.le_add_left_of_le (Nat.le_trans (hparts name hmem) (count_le_of_mem hmem numbers i))
  · exact Nat.zero_le _
termination_by sizeOf n
decreasing_by
  have hlt := Form.sizeOf_lt_of_mem_parts hc
  cases n
  simp only [Node.mk.sizeOf_spec] at hlt ⊢
  omega

end Node

/-- Syntax that introduces a number. -/
def Form.introduces : Form → Bool
  | .typeParameter _ _ _ _ | .parameter _ | .variableDeclaration _ _ _ _ | .enumMember _ _
  | .bindingIdentifier _ | .objectPattern _ | .arrayPattern _ _ | .bindingElement _ _ _ _ => true
  | _ => false

namespace Node

/-- The numbers that are declared where a node stands: that of a type parameter, those of the names
of a binding, and those of parameters and enum members, which can be properties. -/
def introduced (n : Node) : List NodeId :=
  match n.form with
  | .typeParameter _ name _ _ => [name.id]
  | .parameter p => n.id :: p.name.bindingNumbers
  | .variableDeclaration name _ _ _ => name.bindingNumbers
  | .enumMember _ _ => [n.id]
  | _ => n.bindingNumbers

/-- The other numbers in a node. -/
def interior (n : Node) : List NodeId := (numbers n).diff n.introduced

theorem count_introduced_le (n : Node) (i : NodeId) :
    n.introduced.count i ≤ (numbers n).count i := by
  have hname : ∀ name ∈ n.form.parts,
      name.bindingNumbers.count i ≤ (numbers n.form.parts).count i :=
    fun name hmem => Nat.le_trans (name.count_bindingNumbers_le i) (count_le_of_mem hmem numbers i)
  unfold introduced
  split
  · rename_i name _ _ hform
    have hown : n.form.ownNumbers = [name.id] := by rw [hform]; rfl
    rw [count_numbers_eq, hown]
    omega
  · rename_i p hform
    have hle := hname p.name (by rw [hform]; exact p.name_mem_children)
    rw [count_numbers_eq, ← List.singleton_append, List.count_append]
    omega
  · rename_i name _ _ _ hform
    have hle := hname name (by rw [hform]; exact List.mem_cons_self)
    rw [count_numbers_eq]
    omega
  · rw [count_numbers_eq]
    omega
  · exact n.count_bindingNumbers_le i

theorem count_introduced_add_interior (n : Node) (i : NodeId) :
    n.introduced.count i + n.interior.count i = (numbers n).count i := by
  rw [interior, List.count_diff]
  exact Nat.add_sub_cancel' (n.count_introduced_le i)

theorem count_interior_le (n : Node) (i : NodeId) : n.interior.count i ≤ (numbers n).count i :=
  Nat.le_of_add_left_le (Nat.le_of_eq (n.count_introduced_add_interior i))

/-- A node that introduces nothing is its interior. -/
theorem interior_eq {n : Node} (h : n.form.introduces = false) : n.interior = numbers n := by
  have hintroduced : n.introduced = [] := by
    rw [introduced, bindingNumbers_eq]
    cases hform : n.form with
    | typeParameter _ _ _ _ | parameter _ | variableDeclaration _ _ _ _ | enumMember _ _
    | bindingIdentifier _ | objectPattern _ | arrayPattern _ _ | bindingElement _ _ _ _ =>
        rw [hform] at h
        cases h
    | _ => rfl
  rw [interior, hintroduced, List.diff_nil]

theorem count_flatMap_introduced_add_interior (ns : List Node) (i : NodeId) :
    (ns.flatMap introduced).count i + (ns.flatMap interior).count i = (numbers ns).count i := by
  induction ns with
  | nil => rfl
  | cons n ns ih =>
      have hn := n.count_introduced_add_interior i
      simp only [List.flatMap_cons, List.count_append, numbers_cons]
      omega

theorem count_flatMap_interior_le (ns : List Node) (i : NodeId) :
    (ns.flatMap interior).count i ≤ (numbers ns).count i :=
  count_flatMap_le fun n _ => n.count_interior_le i

theorem count_bindingNumbers_le_introduced (n : Node) (i : NodeId) :
    n.bindingNumbers.count i ≤ n.introduced.count i := by
  unfold introduced
  split
  iterate 4
    rename_i hform
    rw [bindingNumbers_eq, hform]
    exact Nat.zero_le _
  · exact Nat.le_refl _

end Node

theorem Form.count_numbers_children_le (form : Form) (i : NodeId) :
    (numbers form.children).count i ≤ (numbers form.parts).count i := by
  have hdirect : ∀ member : Form, (numbers member.directChildren).count i ≤
      (numbers member.parts).count i := by
    intro member
    cases member with
    | classMember _ _ _ | typeElement _ _ => exact Nat.zero_le _
    | _ => exact Nat.le_refl _
  cases form with
  | classMember decorators _ member =>
      simp only [Form.children, Form.parts, numbers_append, List.count_append]
      exact Nat.add_le_add_left (hdirect member) _
  | typeElement _ element => exact hdirect element
  | _ => exact Nat.le_refl _

namespace Node

/-- The interiors of the children of a node are parts of its own. -/
theorem count_children_le (n : Node) (i : NodeId) :
    (n.form.children.flatMap interior).count i ≤ n.interior.count i := by
  suffices hsum : n.introduced.count i + (n.form.children.flatMap interior).count i ≤
      (numbers n).count i by
    have hinterior := n.count_introduced_add_interior i
    omega
  have hchildren := n.form.count_numbers_children_le i
  have hflat := count_flatMap_introduced_add_interior n.form.children i
  have hmem : ∀ name ∈ n.form.children,
      name.bindingNumbers.count i ≤ (n.form.children.flatMap introduced).count i :=
    fun name hname => Nat.le_trans (name.count_bindingNumbers_le_introduced i)
      (count_le_of_mem hname introduced i)
  have hbindings : (n.form.children.flatMap bindingNumbers).count i ≤
      (n.form.children.flatMap introduced).count i :=
    count_flatMap_le fun c _ => c.count_bindingNumbers_le_introduced i
  rw [count_numbers_eq]
  unfold introduced
  split
  · rename_i name _ _ hform
    have hown : n.form.ownNumbers = [name.id] := by rw [hform]; rfl
    rw [hown]
    omega
  · rename_i p hform
    have hname := hmem p.name (by rw [hform]; exact p.name_mem_children)
    rw [← List.singleton_append, List.count_append]
    omega
  · rename_i name _ _ _ hform
    have hname := hmem name (by rw [hform]; exact List.mem_cons_self)
    omega
  · omega
  · rw [bindingNumbers_eq]
    split
    · omega
    · rename_i elements hform
      have helements : n.form.children = elements := by rw [hform]; rfl
      rw [← helements]
      omega
    · rename_i elements _ hform
      have helements : n.form.children = elements.filterMap fun x => x := by rw [hform]; rfl
      rw [← helements]
      omega
    · rename_i name _ hform
      have hname := hmem name (by rw [hform]; exact mem_bindingElement)
      omega
    · rw [List.count_nil]
      omega

theorem count_visited_le (n : Node) (i : NodeId) :
    (n.visited.flatMap interior).count i ≤ (n.form.children.flatMap interior).count i := by
  have hparts : ∀ ns : List Node,
      ((ns.flatMap fun c =>
        if c.form.isInner then c.form.children else [c]).flatMap interior).count i ≤
        (ns.flatMap interior).count i := by
    intro ns
    rw [List.flatMap_assoc]
    refine count_flatMap_le fun c _ => ?_
    split
    · exact c.count_children_le i
    · exact Nat.le_of_eq (by rw [List.flatMap_singleton])
  unfold visited
  split
  · exact Nat.zero_le _
  · exact Nat.zero_le _
  · exact hparts _

/-- Declaring some children and walking over what is visited repeats no declaration. -/
theorem count_introduced_add_visited_le (n : Node) {ns : List Node}
    (hns : ns.Sublist n.form.children) (i : NodeId) :
    (ns.flatMap introduced).count i + (n.visited.flatMap interior).count i ≤
      (numbers n.form.parts).count i := by
  have hintroduced := count_flatMap_le_of_sublist hns introduced i
  have hvisited := n.count_visited_le i
  have hflat := count_flatMap_introduced_add_interior n.form.children i
  have hparts := n.form.count_numbers_children_le i
  omega

theorem count_declared_children_le (n : Node) {ns : List Node} (hns : ns.Sublist n.form.children)
    (i : NodeId) :
    (ns.flatMap introduced ++ n.visited.flatMap interior).count i ≤ (numbers n).count i := by
  have hle := n.count_introduced_add_visited_le hns i
  rw [count_numbers_eq, List.count_append]
  omega

/-- The number of a parameter, by which a class declares a property. -/
def propertyNumbers (n : Node) : List NodeId :=
  match n.form with
  | .parameter _ => [n.id]
  | _ => []

/-- The numbers of a parameter that its function declares or walks over. -/
def parameterNumbers (n : Node) : List NodeId := n.parameter.name.bindingNumbers ++ n.interior

theorem count_parameter_le (n : Node) (i : NodeId) :
    n.propertyNumbers.count i + n.parameterNumbers.count i ≤ (numbers n).count i := by
  have hsum := n.count_introduced_add_interior i
  have hintroduced : n.propertyNumbers.count i + n.parameter.name.bindingNumbers.count i ≤
      n.introduced.count i := by
    by_cases hparameter : ∃ p, n.form = .parameter p
    · obtain ⟨p, hform⟩ := hparameter
      have hproperty : n.propertyNumbers = [n.id] := by rw [propertyNumbers, hform]
      have hname : n.parameter.name = p.name := by rw [parameter, hform]
      have heq : n.introduced = [n.id] ++ p.name.bindingNumbers := by
        rw [introduced, hform]
        rfl
      exact Nat.le_of_eq (by rw [hproperty, hname, heq, List.count_append])
    · have hproperty : n.propertyNumbers = [] := by
        unfold propertyNumbers
        split
        · exact absurd ⟨_, ‹_›⟩ hparameter
        · rfl
      have hname : n.parameter.name = n := by
        unfold parameter
        split
        · exact absurd ⟨_, ‹_›⟩ hparameter
        · rfl
      rw [hproperty, hname, List.count_nil, Nat.zero_add]
      exact n.count_bindingNumbers_le_introduced i
  rw [parameterNumbers, List.count_append]
  omega

end Node

theorem FunctionLike.typeParameters_sublist (f : FunctionLike) :
    (f.typeParameters.getD []).Sublist f.children :=
  List.sublist_append_of_sublist_left
    (List.sublist_append_of_sublist_left (List.sublist_append_left _ _))

/-- The numbers in a function, but for those of parameters that can be properties. -/
def FunctionLike.interior (f : FunctionLike) : List NodeId :=
  numbers (f.typeParameters.getD []) ++ (f.parameters.flatMap Node.parameterNumbers ++
    (numbers f.returnType ++ numbers f.body))

theorem FunctionLike.count_interior_le (f : FunctionLike) (i : NodeId) :
    (f.parameters.flatMap Node.propertyNumbers).count i + f.interior.count i ≤
      (numbers f).count i := by
  have hparameters : ∀ ns : List Node, (ns.flatMap Node.propertyNumbers).count i +
      (ns.flatMap Node.parameterNumbers).count i ≤ (numbers ns).count i := by
    intro ns
    induction ns with
    | nil => exact Nat.le_refl _
    | cons n ns ih =>
        have hn := n.count_parameter_le i
        simp only [List.flatMap_cons, List.count_append, numbers_cons]
        omega
  have hsum := hparameters f.parameters
  simp only [FunctionLike.interior, numbers_function, FunctionLike.children, numbers_append,
    numbers_toList, List.count_append]
  omega

end Erasure

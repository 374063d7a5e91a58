import Mathlib.Data.List.Count
import Erasure.Syntax.SourceFile

/-!
The numbers in a piece of syntax: those of all nodes in it, and of all names, string literals,
clauses and specifiers, which are nodes without a form. A number that is used twice is there twice.

Next to the numbers there are the places where jumps start. Both are marks that are given out in
order while syntax is read, the numbers by the counter and the places by the text, so that one count
serves for both.
-/

namespace Erasure

/-- Syntax, and what is made of it while it is read, with the numbers in it. -/
class Numbered (α : Type) where
  numbers : α → List NodeId

export Numbered (numbers)

/-- The sizes of the members of a list together. -/
noncomputable def totalSize : List Node → Nat
  | [] => 0
  | n :: ns => sizeOf n + totalSize ns

theorem totalSize_nil : totalSize [] = 0 := rfl

theorem totalSize_cons (n : Node) (ns : List Node) :
    totalSize (n :: ns) = sizeOf n + totalSize ns := rfl

theorem totalSize_append (ns ms : List Node) :
    totalSize (ns ++ ms) = totalSize ns + totalSize ms := by
  induction ns with
  | nil => exact (Nat.zero_add _).symm
  | cons n ns ih => rw [List.cons_append, totalSize_cons, totalSize_cons, ih, Nat.add_assoc]

theorem sizeOf_le_totalSize {n : Node} {ns : List Node} (h : n ∈ ns) :
    sizeOf n ≤ totalSize ns := by
  induction ns with
  | nil => cases h
  | cons m ns ih =>
      rw [totalSize_cons]
      rcases List.mem_cons.mp h with rfl | h
      · exact Nat.le_add_right _ _
      · exact Nat.le_trans (ih h) (Nat.le_add_left _ _)

theorem sizeOf_list (ns : List Node) : sizeOf ns = totalSize ns + (ns.length + 1) := by
  induction ns with
  | nil => rfl
  | cons n ns ih =>
      rw [List.cons.sizeOf_spec, ih, totalSize_cons, List.length_cons]
      omega

theorem sizeOf_option (o : Option Node) : sizeOf o = totalSize o.toList + 1 := by
  cases o with
  | none => rfl
  | some n => exact Nat.add_comm 1 (sizeOf n)

theorem sizeOf_optionalList (o : Option (List Node)) :
    sizeOf o = totalSize (o.getD []) + o.elim 1 (·.length + 2) := by
  cases o with
  | none => rfl
  | some ns =>
      rw [Option.some.sizeOf_spec, sizeOf_list, Option.getD_some, Option.elim_some]
      omega

theorem sizeOf_holes (ns : List (Option Node)) :
    sizeOf ns = totalSize (ns.filterMap id) + (2 * ns.length + 1) := by
  induction ns with
  | nil => rfl
  | cons o ns ih =>
      rw [List.cons.sizeOf_spec, ih, List.length_cons]
      cases o with
      | none =>
          rw [List.filterMap_cons_none rfl, Option.none.sizeOf_spec]
          omega
      | some n =>
          rw [List.filterMap_cons_some (f := id) rfl, totalSize_cons, Option.some.sizeOf_spec]
          omega

theorem FunctionLike.totalSize_lt (f : FunctionLike) : totalSize f.children < sizeOf f := by
  cases f
  simp only [children, totalSize_append, mk.sizeOf_spec, sizeOf_list, sizeOf_option,
    sizeOf_optionalList]
  omega

theorem Parameter.totalSize_lt (p : Parameter) : totalSize p.children < sizeOf p := by
  cases p
  simp only [children, totalSize_append, totalSize_cons, totalSize_nil, mk.sizeOf_spec,
    sizeOf_list, sizeOf_option]
  omega

theorem ClassLike.totalSize_lt (c : ClassLike) : totalSize c.children < sizeOf c := by
  cases c
  simp only [children, totalSize_append, mk.sizeOf_spec, sizeOf_list, sizeOf_option,
    sizeOf_optionalList]
  omega

namespace Form

theorem totalSize_lt (f : Form) : totalSize f.directChildren < sizeOf f := by
  cases f
  all_goals dsimp only [directChildren]
  case arrowFunction f _ | functionType f | constructorType _ f | functionLike f
      | callSignature f | constructSignature f | methodSignature _ _ f =>
    have hf := f.totalSize_lt
    simp [totalSize_cons]
    omega
  case parameter p =>
    have hp := p.totalSize_lt
    simp
    omega
  case classLike c =>
    have hc := c.totalSize_lt
    simp
    omega
  all_goals
    simp [totalSize_append, totalSize_cons, totalSize_nil, sizeOf_list, sizeOf_option,
      sizeOf_optionalList, sizeOf_holes]
  all_goals omega

theorem sizeOf_lt_of_mem_directChildren {f : Form} {n : Node} (h : n ∈ f.directChildren) :
    sizeOf n < sizeOf f :=
  Nat.lt_of_le_of_lt (sizeOf_le_totalSize h) f.totalSize_lt

/-- The nodes that are in a form and in no other node of it. -/
@[simp]
def parts : Form → List Node
  | .classMember decorators _ member => decorators ++ member.parts
  | .typeElement _ element => element.parts
  | form => form.directChildren

theorem sizeOf_lt_of_mem_parts {f : Form} {n : Node} (h : n ∈ f.parts) :
    sizeOf n < sizeOf f := by
  fun_induction parts f with
  | case1 decorators ms member ih =>
      simp only [classMember.sizeOf_spec]
      rcases List.mem_append.mp h with hd | hm
      · have hlt := List.sizeOf_lt_of_mem hd
        omega
      · have hlt := ih hm
        omega
  | case2 ms element ih =>
      have hlt := ih h
      simp only [typeElement.sizeOf_spec]
      omega
  | case3 form => exact sizeOf_lt_of_mem_directChildren h

end Form

section
variable {α : Type} [Numbered α]

instance : Numbered Unit := ⟨fun _ => []⟩

instance : Numbered Bool := ⟨fun _ => []⟩

instance : Numbered Identifier := ⟨fun name => [name.id]⟩

instance : Numbered StringLiteral := ⟨fun literal => [literal.id]⟩

instance : Numbered (List α) := ⟨fun xs => xs.flatMap numbers⟩

instance : Numbered (Option α) := ⟨fun x => numbers x.toList⟩

instance : Numbered EntityName := ⟨fun name => name.id :: numbers name.segments⟩

instance : Numbered MemberName := ⟨fun name => numbers name.ident⟩

instance : Numbered ExportName where
  numbers
    | .identifier name => numbers name
    | .string literal => numbers literal

instance : Numbered ImportSpecifier := ⟨fun s => s.id :: (numbers s.property? ++ numbers s.name)⟩

instance : Numbered ImportBindings where
  numbers
    | .all name => numbers name
    | .named specifiers => numbers specifiers

instance : Numbered ImportClause := ⟨fun c => c.id :: (numbers c.name? ++ numbers c.bindings?)⟩

instance : Numbered ExportSpecifier := ⟨fun s => s.id :: (numbers s.property? ++ numbers s.name)⟩

instance : Numbered ExportClause where
  numbers
    | .all name => numbers name
    | .named specifiers => numbers specifiers

instance : Numbered ModuleReference where
  numbers
    | .external specifier => numbers specifier
    | .entity name => numbers name

instance : Numbered ModuleName where
  numbers
    | .identifier name => numbers name
    | .string literal => numbers literal

end

/-- The numbers in a form outside of the nodes in it. -/
@[simp]
def Form.ownNumbers : Form → List NodeId
  | .functionExpr _ name _ | .functionStmt _ name _ => numbers name
  | .propertyAccess _ name _ _ => numbers name
  | .shorthandProperty name _ | .interfaceStmt _ name _ _ _ | .typeAliasStmt _ name _ _
  | .enumStmt _ name _ | .namespaceExport name | .labeledStmt name _ | .typeParameter _ name _ _
  | .namedTupleMember name _ _ _ | .predicateType _ name _ => numbers name
  | .importStmt _ clause specifier _ => numbers clause ++ numbers specifier
  | .importEqualsStmt _ _ name reference => numbers name ++ numbers reference
  | .exportStmt _ _ clause specifier _ => numbers clause ++ numbers specifier
  | .continueStmt label | .breakStmt label => numbers label
  | .classLike cls => numbers cls.name
  | .moduleDeclaration _ name _ _ => numbers name
  | .referenceType name _ | .typeQuery name _ => numbers name
  | .importType _ argument qualifier _ => numbers argument ++ numbers qualifier
  | .classMember _ _ member => member.ownNumbers
  | .typeElement _ element => element.ownNumbers
  | _ => []

def Node.allNumbers (n : Node) : List NodeId :=
  n.id :: (n.form.ownNumbers ++ n.form.parts.attach.flatMap fun c => c.1.allNumbers)
termination_by sizeOf n
decreasing_by
  have hlt := Form.sizeOf_lt_of_mem_parts c.2
  cases n
  simp only [Node.mk.sizeOf_spec] at hlt ⊢
  omega

instance : Numbered Node := ⟨Node.allNumbers⟩

instance : Numbered Form := ⟨fun form => form.ownNumbers ++ numbers form.parts⟩

instance : Numbered FunctionLike := ⟨fun f => numbers f.children⟩

theorem Node.numbers_eq (n : Node) : numbers n = n.id :: numbers n.form := by
  show n.allNumbers = n.id :: (n.form.ownNumbers ++ n.form.parts.flatMap Node.allNumbers)
  rw [Node.allNumbers, List.flatMap_subtype fun _ _ => rfl, List.unattach_attach]

section
variable {α : Type} [Numbered α]

@[simp]
theorem numbers_bool (b : Bool) : numbers b = [] := rfl

@[simp]
theorem numbers_nil : numbers ([] : List α) = [] := rfl

@[simp]
theorem numbers_cons (x : α) (xs : List α) : numbers (x :: xs) = numbers x ++ numbers xs :=
  List.flatMap_cons

@[simp]
theorem numbers_append (xs ys : List α) : numbers (xs ++ ys) = numbers xs ++ numbers ys :=
  List.flatMap_append

@[simp]
theorem numbers_none : numbers (none : Option α) = [] := rfl

@[simp]
theorem numbers_some (x : α) : numbers (some x) = numbers x := List.append_nil _

@[simp]
theorem numbers_toList (x : Option α) : numbers x.toList = numbers x := rfl

@[simp]
theorem numbers_identifier (name : Identifier) : numbers name = [name.id] := rfl

@[simp]
theorem numbers_literal (literal : StringLiteral) : numbers literal = [literal.id] := rfl

@[simp]
theorem numbers_entityName (name : EntityName) :
    numbers name = name.id :: numbers name.segments := rfl

@[simp]
theorem numbers_memberName (name : MemberName) : numbers name = [name.ident.id] := rfl

@[simp]
theorem numbers_exportName_identifier (name : Identifier) :
    numbers (ExportName.identifier name) = [name.id] := rfl

@[simp]
theorem numbers_exportName_string (literal : StringLiteral) :
    numbers (ExportName.string literal) = [literal.id] := rfl

@[simp]
theorem numbers_importSpecifier (s : ImportSpecifier) :
    numbers s = s.id :: (numbers s.property? ++ numbers s.name) := rfl

@[simp]
theorem numbers_allBindings (name : Identifier) : numbers (ImportBindings.all name) = [name.id] :=
  rfl

@[simp]
theorem numbers_namedBindings (specifiers : List ImportSpecifier) :
    numbers (ImportBindings.named specifiers) = numbers specifiers := rfl

@[simp]
theorem numbers_importClause (c : ImportClause) :
    numbers c = c.id :: (numbers c.name? ++ numbers c.bindings?) := rfl

@[simp]
theorem numbers_exportSpecifier (s : ExportSpecifier) :
    numbers s = s.id :: (numbers s.property? ++ numbers s.name) := rfl

@[simp]
theorem numbers_allExports (name : ExportName) : numbers (ExportClause.all name) = numbers name :=
  rfl

@[simp]
theorem numbers_namedExports (specifiers : List ExportSpecifier) :
    numbers (ExportClause.named specifiers) = numbers specifiers := rfl

@[simp]
theorem numbers_external (specifier : StringLiteral) :
    numbers (ModuleReference.external specifier) = [specifier.id] := rfl

@[simp]
theorem numbers_entity (name : EntityName) : numbers (ModuleReference.entity name) = numbers name :=
  rfl

@[simp]
theorem numbers_moduleName_identifier (name : Identifier) :
    numbers (ModuleName.identifier name) = [name.id] := rfl

@[simp]
theorem numbers_moduleName_string (literal : StringLiteral) :
    numbers (ModuleName.string literal) = [literal.id] := rfl

@[simp]
theorem numbers_function (f : FunctionLike) : numbers f = numbers f.children := rfl

@[simp]
theorem numbers_node (id : NodeId) (span : Span) (form : Form) :
    numbers (Node.mk id span form) = id :: numbers form :=
  Node.numbers_eq _

@[simp]
theorem numbers_form (form : Form) : numbers form = form.ownNumbers ++ numbers form.parts := rfl

end

/-- Something that is given out once. -/
inductive Mark where
  | number (id : NodeId)
  /-- A `break` or `continue` starts here. -/
  | jump (start : Nat)
  deriving DecidableEq

/-- Where a mark stands in the order in which marks of its kind are given out. -/
def Mark.value : Mark → Nat
  | number id => id
  | jump start => start

/-- Syntax, and what is made of it while it is read, with the marks in it. -/
class Marked (α : Type) where
  marks : α → List Mark

export Marked (marks)

/-- Syntax without statements has no marks but its numbers. -/
class Plain (α : Type) [Numbered α] [Marked α] : Prop where
  marks_eq : ∀ x : α, marks x = (numbers x).map .number

attribute [simp] Plain.marks_eq

section
variable {α β : Type} [Marked α] [Marked β]

instance : Marked (List α) := ⟨fun xs => xs.flatMap marks⟩

instance : Marked (Option α) := ⟨fun x => marks x.toList⟩

instance : Marked (α × β) := ⟨fun x => marks x.1 ++ marks x.2⟩

@[simp]
theorem marks_nil : marks ([] : List α) = [] := rfl

@[simp]
theorem marks_cons (x : α) (xs : List α) : marks (x :: xs) = marks x ++ marks xs :=
  List.flatMap_cons

@[simp]
theorem marks_append (xs ys : List α) : marks (xs ++ ys) = marks xs ++ marks ys :=
  List.flatMap_append

@[simp]
theorem marks_none : marks (none : Option α) = [] := rfl

@[simp]
theorem marks_some (x : α) : marks (some x) = marks x := List.append_nil _

@[simp]
theorem marks_toList (x : Option α) : marks x.toList = marks x := rfl

@[simp]
theorem marks_getD (xs : Option (List α)) : marks (xs.getD []) = marks xs := by
  cases xs with
  | none => rfl
  | some xs => exact (marks_some xs).symm

@[simp]
theorem marks_filterMap (xs : List (Option α)) : marks (xs.filterMap fun x => x) = marks xs := by
  induction xs with
  | nil => rfl
  | cons x xs ih =>
      cases x with
      | none => exact ih
      | some x =>
          have hcons : ((some x :: xs).filterMap fun x => x) = x :: xs.filterMap fun x => x := rfl
          rw [hcons, marks_cons, marks_cons, marks_some, ih]

@[simp]
theorem count_marks_reverse (i : Mark) (xs : List α) :
    (marks xs.reverse).count i = (marks xs).count i := by
  induction xs with
  | nil => rfl
  | cons x xs ih =>
      simp only [List.reverse_cons, marks_append, marks_cons, marks_nil, List.append_nil,
        List.count_append, ih, Nat.add_comm]

@[simp]
theorem marks_pair (x : α) (y : β) : marks (x, y) = marks x ++ marks y := rfl

instance [Numbered α] [Plain α] : Plain (List α) where
  marks_eq xs := by
    induction xs with
    | nil => rfl
    | cons x xs ih => rw [marks_cons, numbers_cons, List.map_append, Plain.marks_eq, ih]

instance [Numbered α] [Plain α] : Plain (Option α) where
  marks_eq x := Plain.marks_eq x.toList

end

instance : Marked Unit := ⟨fun x => (numbers x).map .number⟩

instance : Marked Bool := ⟨fun x => (numbers x).map .number⟩

instance : Marked Identifier := ⟨fun x => (numbers x).map .number⟩

instance : Marked StringLiteral := ⟨fun x => (numbers x).map .number⟩

instance : Marked EntityName := ⟨fun x => (numbers x).map .number⟩

instance : Marked MemberName := ⟨fun x => (numbers x).map .number⟩

instance : Marked ExportName := ⟨fun x => (numbers x).map .number⟩

instance : Marked ImportSpecifier := ⟨fun x => (numbers x).map .number⟩

instance : Marked ImportBindings := ⟨fun x => (numbers x).map .number⟩

instance : Marked ImportClause := ⟨fun x => (numbers x).map .number⟩

instance : Marked ExportSpecifier := ⟨fun x => (numbers x).map .number⟩

instance : Marked ExportClause := ⟨fun x => (numbers x).map .number⟩

instance : Marked ModuleReference := ⟨fun x => (numbers x).map .number⟩

instance : Marked ModuleName := ⟨fun x => (numbers x).map .number⟩

instance : Plain Unit := ⟨fun _ => rfl⟩

instance : Plain Bool := ⟨fun _ => rfl⟩

instance : Plain Identifier := ⟨fun _ => rfl⟩

instance : Plain StringLiteral := ⟨fun _ => rfl⟩

instance : Plain EntityName := ⟨fun _ => rfl⟩

instance : Plain MemberName := ⟨fun _ => rfl⟩

instance : Plain ExportName := ⟨fun _ => rfl⟩

instance : Plain ImportSpecifier := ⟨fun _ => rfl⟩

instance : Plain ImportBindings := ⟨fun _ => rfl⟩

instance : Plain ImportClause := ⟨fun _ => rfl⟩

instance : Plain ExportSpecifier := ⟨fun _ => rfl⟩

instance : Plain ExportClause := ⟨fun _ => rfl⟩

instance : Plain ModuleReference := ⟨fun _ => rfl⟩

instance : Plain ModuleName := ⟨fun _ => rfl⟩

/-- The mark of a node with this form that is not its number. -/
def Form.jumpMarks (start : Nat) : Form → List Mark
  | .breakStmt _ | .continueStmt _ => [.jump start]
  | _ => []

/-- Nodes with this form are marked by their number only. -/
def Form.NoJump (form : Form) : Prop := ∀ start, form.jumpMarks start = []

def Node.allMarks (n : Node) : List Mark :=
  .number n.id :: (n.form.jumpMarks n.span.start ++ (n.form.ownNumbers.map .number ++
    n.form.parts.attach.flatMap fun c => c.1.allMarks))
termination_by sizeOf n
decreasing_by
  have hlt := Form.sizeOf_lt_of_mem_parts c.2
  cases n
  simp only [Node.mk.sizeOf_spec] at hlt ⊢
  omega

instance : Marked Node := ⟨Node.allMarks⟩

instance : Marked Form := ⟨fun form => form.ownNumbers.map .number ++ marks form.parts⟩

instance : Marked FunctionLike := ⟨fun f => marks f.children⟩

theorem Node.marks_eq (n : Node) :
    marks n = .number n.id :: (n.form.jumpMarks n.span.start ++ marks n.form) := by
  show n.allMarks = .number n.id :: (n.form.jumpMarks n.span.start ++
    (n.form.ownNumbers.map .number ++ n.form.parts.flatMap Node.allMarks))
  rw [Node.allMarks, List.flatMap_subtype fun _ _ => rfl, List.unattach_attach]

@[simp]
theorem marks_function (f : FunctionLike) : marks f = marks f.children := rfl

@[simp]
theorem marks_node (id : NodeId) (span : Span) (form : Form) :
    marks (Node.mk id span form) = .number id :: (form.jumpMarks span.start ++ marks form) :=
  Node.marks_eq _

@[simp]
theorem marks_form (form : Form) :
    marks form = form.ownNumbers.map .number ++ marks form.parts := rfl

/-- Lists of which every element has a number as often as a mark have it so, too. -/
theorem count_number_of_forall {xs : List Node} {i : NodeId}
    (h : ∀ x ∈ xs, (marks x).count (.number i) = (numbers x).count i) :
    (marks xs).count (.number i) = (numbers xs).count i := by
  show (xs.flatMap marks).count _ = (xs.flatMap numbers).count i
  rw [List.count_flatMap, List.count_flatMap]
  exact congrArg List.sum (List.map_congr_left h)

theorem Node.count_number (n : Node) (i : NodeId) :
    (marks n).count (.number i) = (numbers n).count i := by
  have hown : (n.form.ownNumbers.map Mark.number).count (.number i) = n.form.ownNumbers.count i :=
    List.count_map_of_injective _ _ (fun _ _ h => Mark.number.inj h) i
  have hjump : (n.form.jumpMarks n.span.start).count (.number i) = 0 := by
    cases n.form <;> simp [Form.jumpMarks]
  have hparts := count_number_of_forall fun c (hc : c ∈ n.form.parts) => c.count_number i
  rw [n.marks_eq, n.numbers_eq, marks_form, numbers_form]
  simp only [List.count_cons, List.count_append, hown, hjump, hparts, Nat.zero_add, beq_iff_eq,
    Mark.number.injEq]
termination_by sizeOf n
decreasing_by
  have hlt := Form.sizeOf_lt_of_mem_parts hc
  cases n
  simp only [Node.mk.sizeOf_spec] at hlt ⊢
  omega

theorem count_numbers (ns : List Node) (i : NodeId) :
    (marks ns).count (.number i) = (numbers ns).count i :=
  count_number_of_forall fun n _ => n.count_number i

end Erasure

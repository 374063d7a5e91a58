import Erasure.Proofs.Parse.Comparisons

/-!
Trees of names and binary operators. A tree is grouped by the levels of its operators if every
operand binds as tightly as its operator asks. The names and operators from left to right determine
a grouped tree.
-/

namespace Erasure

namespace Precedence

/-- The level of an operator in a tree. What is no operator binds like a name. -/
def ofOperator (k : TokenKind) : Precedence := (ofBinary? k).getD primary

variable {k : TokenKind}

/-- Names bind tighter than operators. -/
theorem ofOperator_lt_primary (h : (ofBinary? k).isSome = true) : ofOperator k < primary := by
  revert h
  cases k <;> decide

/-- Powers bind tighter than other operators. -/
theorem ofOperator_lt_power (h : (ofBinary? k).isSome = true) (hne : k ≠ .power) :
    ofOperator k < ofOperator .power := by
  revert h hne
  cases k <;> decide

/-- Only powers are at their level. -/
theorem eq_power_of_level (h : (ofOperator k).level = (ofOperator .power).level) : k = .power := by
  revert h
  cases k <;> decide

/-- What binds as tightly as this can be a left operand of an operator. Operators associate to the
left, powers to the right. -/
def FitsLeft (k : TokenKind) (p : Precedence) : Prop :=
  if k = .power then ofOperator k < p else ofOperator k ≤ p

/-- What binds as tightly as this can be a right operand of an operator. -/
def FitsRight (k : TokenKind) (p : Precedence) : Prop :=
  if k = .power then ofOperator k ≤ p else ofOperator k < p

instance (k : TokenKind) (p : Precedence) : Decidable (FitsLeft k p) :=
  inferInstanceAs (Decidable (if k = .power then ofOperator k < p else ofOperator k ≤ p))

instance (k : TokenKind) (p : Precedence) : Decidable (FitsRight k p) :=
  inferInstanceAs (Decidable (if k = .power then ofOperator k ≤ p else ofOperator k < p))

variable {p q : Precedence}

theorem FitsLeft.le (h : FitsLeft k p) : ofOperator k ≤ p := by
  unfold FitsLeft at h
  split at h
  · exact Nat.le_of_lt h
  · exact h

theorem FitsRight.le (h : FitsRight k p) : ofOperator k ≤ p := by
  unfold FitsRight at h
  split at h
  · exact h
  · exact Nat.le_of_lt h

theorem FitsLeft.trans (h : FitsLeft k p) (hq : p ≤ q) : FitsLeft k q := by
  unfold FitsLeft at h ⊢
  split
  · rw [if_pos ‹_›] at h
    exact Nat.lt_of_lt_of_le h hq
  · rw [if_neg ‹_›] at h
    exact Nat.le_trans h hq

theorem FitsRight.trans (h : FitsRight k p) (hq : p ≤ q) : FitsRight k q := by
  unfold FitsRight at h ⊢
  split
  · rw [if_pos ‹_›] at h
    exact Nat.le_trans h hq
  · rw [if_neg ‹_›] at h
    exact Nat.lt_of_lt_of_le h hq

theorem fitsLeft_primary (h : (ofBinary? k).isSome = true) : FitsLeft k primary := by
  unfold FitsLeft
  split
  · exact ofOperator_lt_primary h
  · exact Nat.le_of_lt (ofOperator_lt_primary h)

theorem fitsRight_primary (h : (ofBinary? k).isSome = true) : FitsRight k primary := by
  unfold FitsRight
  split
  · exact Nat.le_of_lt (ofOperator_lt_primary h)
  · exact ofOperator_lt_primary h

/-- An operator cannot have another one on its right that has it on its left. -/
theorem FitsRight.not_fitsLeft {l : TokenKind} (h : FitsRight k (ofOperator l)) :
    ¬ FitsLeft l (ofOperator k) := by
  intro hleft
  by_cases hpower : k = .power
  · -- At the level of powers there are only powers, and these do not nest to the left.
    subst hpower
    have hl : l = .power := eq_power_of_level (Nat.le_antisymm hleft.le h.le)
    rw [FitsLeft, if_pos hl] at hleft
    exact Nat.lt_irrefl _ (Nat.lt_of_lt_of_le hleft h.le)
  · rw [FitsRight, if_neg hpower] at h
    exact Nat.lt_irrefl _ (Nat.lt_of_lt_of_le h hleft.le)

end Precedence

/-- A tree of names and binary operators. -/
inductive OperatorTree where
  | name (text : String)
  | operation (left : OperatorTree) (operator : TokenKind) (right : OperatorTree)
  deriving DecidableEq

namespace OperatorTree

/-- The names and operators of a tree from left to right. -/
def items : OperatorTree → List Item
  | name text => [.name text]
  | operation left k right => left.items ++ .operator k :: right.items

/-- Names bind tightest. -/
def precedence : OperatorTree → Precedence
  | name _ => .primary
  | operation _ k _ => .ofOperator k

/-- Every operand in the tree binds as tightly as its operator asks. -/
def Grouped : OperatorTree → Prop
  | name _ => True
  | operation left k right =>
      left.Grouped ∧ right.Grouped ∧ Precedence.FitsLeft k left.precedence ∧
        Precedence.FitsRight k right.precedence

instance decidableGrouped : (t : OperatorTree) → Decidable t.Grouped
  | name _ => inferInstanceAs (Decidable True)
  | operation left k right =>
      have := decidableGrouped left
      have := decidableGrouped right
      inferInstanceAs (Decidable (left.Grouped ∧ right.Grouped ∧
        Precedence.FitsLeft k left.precedence ∧ Precedence.FitsRight k right.precedence))

variable {t left right left' right' : OperatorTree} {k l : TokenKind}

/-- No operator in a grouped tree binds less tightly than the tree. -/
theorem Grouped.precedence_le (h : t.Grouped) (hl : .operator l ∈ t.items) :
    t.precedence ≤ .ofOperator l := by
  induction t with
  | name text => simp [items] at hl
  | operation left k right ihl ihr =>
      obtain ⟨hleft, hright, hfl, hfr⟩ := h
      simp only [items, List.mem_append, List.mem_cons, Item.operator.injEq] at hl
      rcases hl with hl | rfl | hl
      · exact Nat.le_trans hfl.le (ihl hleft hl)
      · exact Nat.le_refl _
      · exact Nat.le_trans hfr.le (ihr hright hl)

/-- With the same items the left operand of one tree does not reach behind the operator of the
other. -/
theorem not_cut_behind {i : Item} {between : List Item} (h : (operation left k right).Grouped)
    (h' : (operation left' l right').Grouped) (hleft : left'.items = left.items ++ i :: between)
    (hright : .operator k :: right.items = i :: between ++
      .operator l :: right'.items) : False := by
  rw [List.cons_append, List.cons.injEq] at hright
  obtain ⟨rfl, hright⟩ := hright
  have hl : .operator l ∈ right.items := by simp [hright]
  have hk : .operator k ∈ left'.items := by simp [hleft]
  obtain ⟨-, hgrouped, -, hfits⟩ := h
  obtain ⟨hgrouped', -, hfits', -⟩ := h'
  exact (hfits.trans (hgrouped.precedence_le hl)).not_fitsLeft
    (hfits'.trans (hgrouped'.precedence_le hk))

/-- The items of two grouped trees are cut at the same operator. -/
theorem eq_of_cut (h : (operation left k right).Grouped) (h' : (operation left' l right').Grouped)
    (heq : (operation left k right).items = (operation left' l right').items) :
    left.items = left'.items ∧ k = l ∧ right.items = right'.items := by
  simp only [items, List.append_eq_append_iff] at heq
  rcases heq with ⟨between, hleft, hright⟩ | ⟨between, hleft, hright⟩
  · cases between with
    | nil => simp_all
    | cons i between => exact (not_cut_behind h h' hleft hright).elim
  · cases between with
    | nil => simp_all
    | cons i between => exact (not_cut_behind h' h hleft hright).elim

/-- A name is no operation. -/
theorem items_operation_ne (text : String) : (operation left k right).items ≠ [.name text] := by
  intro heq
  have hmem : .operator k ∈ (operation left k right).items := by simp [items]
  rw [heq] at hmem
  simp at hmem

/-- Two grouped trees with the same names and operators in order are the same. -/
theorem Grouped.eq_of_items_eq {t' : OperatorTree} (h : t.Grouped) (h' : t'.Grouped)
    (heq : t.items = t'.items) : t = t' := by
  induction t generalizing t' with
  | name text =>
      cases t' with
      | name text' => simpa [items] using heq
      | operation left' l right' => exact absurd heq.symm (items_operation_ne text)
  | operation left k right ihl ihr =>
      cases t' with
      | name text' => exact absurd heq (items_operation_ne text')
      | operation left' l right' =>
          obtain ⟨hleft, rfl, hright⟩ := eq_of_cut h h' heq
          rw [ihl h.1 h'.1 hleft, ihr h.2.1 h'.2.1 hright]

end OperatorTree

mutual

/-- The tree of an expression that has nothing but names and binary operators. -/
def Node.operatorTree? : Node → Option OperatorTree
  | ⟨_, _, form⟩ => form.operatorTree?

def Form.operatorTree? : Form → Option OperatorTree
  | .identifier text => some (.name text)
  | .binary left operator right _ _ =>
      match left.operatorTree?, right.operatorTree? with
      | some left, some right => some (.operation left operator right)
      | _, _ => none
  | _ => none

end

theorem Node.operatorTree?_eq (n : Node) : n.operatorTree? = n.form.operatorTree? := by
  cases n
  rw [Node.operatorTree?]

theorem Node.operatorTree?_identifier {n : Node} {text : String} (h : n.form = .identifier text) :
    n.operatorTree? = some (.name text) := by
  rw [Node.operatorTree?_eq, h, Form.operatorTree?]

theorem Node.operatorTree?_binary {n left right : Node} {operator : TokenKind} {b c : Bool}
    {l r : OperatorTree} (h : n.form = .binary left operator right b c)
    (hl : left.operatorTree? = some l) (hr : right.operatorTree? = some r) :
    n.operatorTree? = some (.operation l operator r) := by
  rw [Node.operatorTree?_eq, h, Form.operatorTree?, hl, hr]

end Erasure

import Mathlib.Data.List.Forall2
import Mathlib.Data.List.Induction
import Erasure.Check.LiteralType

/-!
Unions as they are displayed. Their members are found in five passes: nested unions are opened, the
first of equal members is kept, both truth values become one type, literals of a primitive type go
where this type is a member, and null goes where it is in every type. No pass but the last one
changes what the union accepts, and the last one only takes away.
-/

namespace Erasure.StatedType

variable {N : Type}

/-- Neither an array nor a union. -/
def isPlain : StatedType N → Bool
  | array _ | union _ => false
  | _ => true

mutual

/-- Induction over annotations: on the elements of arrays and on all members of unions. -/
theorem nestedInduction {P : StatedType N → Prop} (plain : ∀ t, t.isPlain = true → P t)
    (array : ∀ t, P t → P (array t)) (union : ∀ ts, (∀ t ∈ ts, P t) → P (union ts)) : ∀ t, P t
  | .array t => array t (nestedInduction plain array union t)
  | .union ts => union ts (nestedInduction_all plain array union ts)
  | .any | .unknown | .string | .number | .bigInt | .boolean | .symbol | .nonPrimitive | .void
  | .undefined | .null | .never | .stringLiteral _ | .numberLiteral _ | .bigIntLiteral _
  | .booleanLiteral _ => plain _ rfl

theorem nestedInduction_all {P : StatedType N → Prop} (plain : ∀ t, t.isPlain = true → P t)
    (array : ∀ t, P t → P (array t)) (union : ∀ ts, (∀ t ∈ ts, P t) → P (union ts)) :
    ∀ ts : List (StatedType N), ∀ t ∈ ts, P t
  | [] => nofun
  | t :: ts => List.forall_mem_cons.mpr
      ⟨nestedInduction plain array union t, nestedInduction_all plain array union ts⟩

end

theorem sameAll_iff [BEq N] {ss ts : List (StatedType N)} :
    sameAll ss ts = true ↔ List.Forall₂ (fun s t => same s t = true) ss ts := by
  induction ss generalizing ts with
  | nil => cases ts <;> simp [sameAll]
  | cons s ss ih => cases ts <;> simp [sameAll, ih]

theorem eq_of_same_plain [BEq N] {s t : StatedType N} (hs : s.isPlain = true)
    (h : same s t = true) :
    s = t ∨ ∃ v w, s = numberLiteral v ∧ t = numberLiteral w ∧ (v == w) = true := by
  cases s with
  | numberLiteral v =>
      cases t with
      | numberLiteral w => exact .inr ⟨v, w, rfl, rfl, h⟩
      | _ => cases h
  | array _ | union _ => cases hs
  | _ => cases t <;> simp_all [same]

theorem exists_of_same_array [BEq N] {s t : StatedType N} (h : same (array s) t = true) :
    ∃ u, t = array u ∧ same s u = true := by
  cases t with
  | array u => exact ⟨u, rfl, h⟩
  | _ => cases h

theorem exists_of_same_union [BEq N] {ss : List (StatedType N)} {t : StatedType N}
    (h : same (union ss) t = true) :
    ∃ ts, t = union ts ∧ List.Forall₂ (fun s t => same s t = true) ss ts := by
  cases t with
  | union ts => exact ⟨ts, rfl, sameAll_iff.mp h⟩
  | _ => cases h

section
variable [BEq N] [EquivBEq N]

theorem same_refl (t : StatedType N) : same t t = true := by
  induction t using nestedInduction with
  | plain t h => cases t <;> simp_all [same, isPlain]
  | array t ih => exact ih
  | union ts ih => exact sameAll_iff.mpr (List.forall₂_same.mpr ih)

theorem same_symm {s t : StatedType N} (h : same s t = true) : same t s = true := by
  induction s using nestedInduction generalizing t with
  | plain s hs =>
      rcases eq_of_same_plain hs h with rfl | ⟨v, w, rfl, rfl, hvw⟩
      · exact h
      · exact BEq.symm hvw
  | array s ih =>
      obtain ⟨t, rfl, h⟩ := exists_of_same_array h
      exact ih h
  | union ss ih =>
      obtain ⟨ts, rfl, hall⟩ := exists_of_same_union h
      clear h
      refine sameAll_iff.mpr ?_
      induction hall with
      | nil => exact .nil
      | cons h _ ihs =>
          obtain ⟨hs, hss⟩ := List.forall_mem_cons.mp ih
          exact .cons (hs h) (ihs hss)

theorem same_trans {r s t : StatedType N} (hrs : same r s = true) (hst : same s t = true) :
    same r t = true := by
  induction r using nestedInduction generalizing s t with
  | plain r hr =>
      rcases eq_of_same_plain hr hrs with rfl | ⟨v, w, rfl, rfl, hvw⟩
      · exact hst
      · rcases eq_of_same_plain rfl hst with rfl | ⟨w, x, heq, rfl, hwx⟩
        · exact hvw
        · cases heq
          exact BEq.trans hvw hwx
  | array r ih =>
      obtain ⟨s, rfl, hrs⟩ := exists_of_same_array hrs
      obtain ⟨t, rfl, hst⟩ := exists_of_same_array hst
      exact ih hrs hst
  | union rs ih =>
      obtain ⟨ss, rfl, hall⟩ := exists_of_same_union hrs
      obtain ⟨ts, rfl, hall'⟩ := exists_of_same_union hst
      clear hrs hst
      refine sameAll_iff.mpr ?_
      induction hall generalizing ts with
      | nil => exact hall'
      | cons h _ ihs =>
          obtain ⟨hr, hrs⟩ := List.forall_mem_cons.mp ih
          cases hall' with
          | cons hfirst hrest => exact .cons (hr h hfirst) (ihs hrs _ hrest)

instance : EquivBEq (StatedType N) where
  rfl := same_refl _
  symm := same_symm
  trans := same_trans

end

/-- What the passes ask of a member is the same for equal ones. -/
theorem alike_of_same [BEq N] {s t : StatedType N} (h : (s == t) = true) :
    s.isBooleanLiteral = t.isBooleanLiteral ∧ s.isNullish = t.isNullish ∧
      s.widened? = t.widened? := by
  cases s <;> cases t <;> first | exact ⟨rfl, rfl, rfl⟩ | cases h

/-- Equal annotations accept the same values. -/
theorem accepts_congr [BEq N] [EquivBEq N] (strict : Bool) {s t : StatedType N} (v : ValueType N)
    (h : (s == t) = true) : accepts strict s v = accepts strict t v := by
  induction s using nestedInduction generalizing t v with
  | plain s hs =>
      rcases eq_of_same_plain hs h with rfl | ⟨x, y, rfl, rfl, hxy⟩
      · rfl
      · cases v <;> simp [accepts, acceptsPlain, BEq.congr_left hxy, isNever]
  | array s ih =>
      obtain ⟨t, rfl, h⟩ := exists_of_same_array h
      cases v with
      | array elements => exact List.all_congr rfl fun e => ih e.2 h
      | _ => rfl
  | union ss ih =>
      obtain ⟨ts, rfl, hall⟩ := exists_of_same_union h
      clear h
      have hany (v : ValueType N) : acceptedByAny strict ss v = acceptedByAny strict ts v := by
        induction hall with
        | nil => rfl
        | cons h _ ihs =>
            obtain ⟨hs, hss⟩ := List.forall_mem_cons.mp ih
            rw [acceptedByAny, acceptedByAny, hs v h, ihs hss]
      unfold accepts
      split <;> simp_all

section
variable [BEq N] (strict : Bool)

/-- Whether one of some members accepts a value. -/
def offers (ts : List (StatedType N)) (v : ValueType N) : Bool := ts.any (accepts strict · v)

theorem acceptedByAny_eq_offers (ts : List (StatedType N)) (v : ValueType N) :
    acceptedByAny strict ts v = offers strict ts v := by
  induction ts with
  | nil => rfl
  | cons t ts ih => rw [acceptedByAny, ih]; rfl

theorem accepts_union (ts : List (StatedType N)) {v : ValueType N} (hv : v ≠ .boolean none) :
    accepts strict (union ts) v = offers strict ts v := by
  rw [accepts, acceptedByAny_eq_offers]
  exact hv

/-- A truth value that is not known is accepted if both of them are. -/
theorem accepts_boolean_none (t : StatedType N) :
    accepts strict t (.boolean none) =
      (accepts strict t (.boolean (some true)) && accepts strict t (.boolean (some false))) := by
  cases t with
  | booleanLiteral b => cases b <;> rfl
  | _ => rfl

end

theorem alternatives_of_plain {t : StatedType N} (h : t.isPlain = true) : t.alternatives = [t] := by
  cases t <;> first | rfl | cases h

/-- An annotation accepts what one of its alternatives accepts. -/
theorem accepts_eq_offers [BEq N] (strict : Bool) (t : StatedType N) {v : ValueType N}
    (hv : v ≠ .boolean none) : accepts strict t v = offers strict t.alternatives v := by
  induction t using nestedInduction with
  | plain t h => simp [alternatives_of_plain h, offers]
  | array t => simp [alternatives, offers]
  | union ts ih =>
      rw [accepts_union strict ts hv, alternatives]
      unfold offers at ih ⊢
      induction ts with
      | nil => rfl
      | cons t ts ihs =>
          obtain ⟨ht, hts⟩ := List.forall_mem_cons.mp ih
          rw [alternativesOf, List.any_append, List.any_cons, ht, ihs hts]

/-- No two members are equal. -/
def Apart [BEq N] (ts : List (StatedType N)) : Prop := ts.Pairwise fun s t => (s == t) = false

theorem contains_filter [BEq N] {p : StatedType N → Bool}
    (hp : ∀ s t, (s == t) = true → p s = p t) (ts : List (StatedType N)) (t : StatedType N) :
    (ts.filter p).contains t = (ts.contains t && p t) := by
  induction ts with
  | nil => rfl
  | cons s ts ih =>
      cases heq : t == s with
      | true =>
          have hs := hp t s heq
          cases h : p s <;> simp_all
      | false => cases h : p s <;> simp_all

section
variable [BEq N] [EquivBEq N] {ss ts : List (StatedType N)}

theorem contains_of_mem {t : StatedType N} (h : t ∈ ts) : ts.contains t = true :=
  List.contains_iff_exists_mem_beq.mpr ⟨t, h, BEq.rfl⟩

omit [EquivBEq N] in
theorem any_mono {p : StatedType N → Bool} (hp : ∀ s t, (s == t) = true → p s = p t)
    (h : ∀ s ∈ ss, ts.contains s = true) (hs : ss.any p = true) : ts.any p = true := by
  obtain ⟨s, hmem, hs⟩ := List.any_eq_true.mp hs
  obtain ⟨t, ht, heq⟩ := List.contains_iff_exists_mem_beq.mp (h s hmem)
  exact List.any_eq_true.mpr ⟨t, ht, hp s t heq ▸ hs⟩

/-- What is asked of some member depends only on what the members are up to equality. -/
theorem any_congr {p : StatedType N → Bool} (hp : ∀ s t, (s == t) = true → p s = p t)
    (h : ∀ t, ss.contains t = ts.contains t) : ss.any p = ts.any p := by
  rw [Bool.eq_iff_iff]
  exact ⟨any_mono hp fun s hs => h s ▸ contains_of_mem hs,
    any_mono hp fun t ht => (h t).symm ▸ contains_of_mem ht⟩

theorem offers_congr (strict : Bool) (v : ValueType N)
    (h : ∀ t, ss.contains t = ts.contains t) : offers strict ss v = offers strict ts v :=
  any_congr (fun _ _ => accepts_congr strict v) h

/-- Nothing equal to a member stands among members that are apart from it. -/
theorem contains_eq_false_of_apart {s t : StatedType N} (hs : ∀ x ∈ ts, (s == x) = false)
    (h : (t == s) = true) : ts.contains t = false := by
  rw [List.contains_congr h, ← Bool.not_eq_true, List.contains_iff_exists_mem_beq]
  rintro ⟨x, hx, heq⟩
  rw [hs x hx] at heq
  cases heq

/-- Lists of members that are apart and the same up to equality are permutations of each other up
to equality. -/
theorem exists_perm_of_contains (hss : Apart ss) (hts : Apart ts)
    (h : ∀ t, ss.contains t = ts.contains t) :
    ∃ us : List (StatedType N), us.Perm ss ∧ List.Forall₂ (fun u t => (u == t) = true) us ts := by
  induction ts generalizing ss with
  | nil =>
      cases ss with
      | nil => exact ⟨[], .nil, .nil⟩
      | cons s ss => exact absurd (h s) (by simp)
  | cons t ts ih =>
      have ht : ss.contains t = true := by rw [h]; simp
      obtain ⟨s, hmem, heq⟩ := List.contains_iff_exists_mem_beq.mp ht
      obtain ⟨before, after, rfl⟩ := List.append_of_mem hmem
      have hperm : (before ++ s :: after).Perm (s :: (before ++ after)) := List.perm_middle
      have hapart : Apart (s :: (before ++ after)) :=
        (hperm.pairwise_iff fun hxy => BEq.comm.trans hxy).mp hss
      obtain ⟨hs, hrest⟩ := List.pairwise_cons.mp hapart
      obtain ⟨ht, hts⟩ := List.pairwise_cons.mp hts
      have hsame (x : StatedType N) : (before ++ after).contains x = ts.contains x := by
        have hx := h x
        rw [hperm.contains_eq, List.contains_cons, List.contains_cons, BEq.congr_right heq] at hx
        cases hxs : x == s with
        | true =>
            rw [contains_eq_false_of_apart hs hxs,
              contains_eq_false_of_apart ht (BEq.congr_right heq ▸ hxs)]
        | false => simpa [hxs] using hx
      obtain ⟨us, hus, hall⟩ := ih hrest hts hsame
      exact ⟨s :: us, (hus.cons s).trans hperm.symm, .cons (BEq.symm heq) hall⟩

end

/-- Put a member behind others unless it is one of them. -/
def insertNew [BEq N] (kept : List (StatedType N)) (t : StatedType N) : List (StatedType N) :=
  if kept.contains t then kept else kept ++ [t]

section
variable [BEq N] [EquivBEq N] (ts : List (StatedType N)) (t : StatedType N)

omit [EquivBEq N] in
theorem distinct_append (us : List (StatedType N)) :
    distinct (ts ++ us) = us.foldl insertNew (distinct ts) := List.foldl_append

theorem contains_insertNew (kept : List (StatedType N)) (s : StatedType N) :
    (insertNew kept s).contains t = (kept.contains t || t == s) := by
  unfold insertNew
  split
  · rename_i hs
    cases h : t == s with
    | true => rw [List.contains_congr h, hs, Bool.or_true]
    | false => rw [Bool.or_false]
  · simp

theorem contains_distinct : (distinct ts).contains t = ts.contains t := by
  induction ts using List.reverseRecOn with
  | nil => rfl
  | append_singleton ts s ih =>
      rw [distinct_append, List.foldl_cons, List.foldl_nil, contains_insertNew, ih]
      simp

theorem apart_insertNew {kept : List (StatedType N)} (h : Apart kept) :
    Apart (insertNew kept t) := by
  unfold insertNew
  split
  · exact h
  · rename_i ht
    refine List.pairwise_append.mpr ⟨h, List.pairwise_singleton _ _, fun s hs x hx => ?_⟩
    obtain rfl := List.mem_singleton.mp hx
    by_contra heq
    rw [Bool.not_eq_false] at heq
    exact ht (List.contains_iff_exists_mem_beq.mpr ⟨s, hs, BEq.symm heq⟩)

theorem apart_distinct : Apart (distinct ts) := by
  induction ts using List.reverseRecOn with
  | nil => exact .nil
  | append_singleton ts s ih =>
      rw [distinct_append]
      exact apart_insertNew s ih

omit [EquivBEq N] in
/-- Members that were there before are left out. -/
theorem foldl_insertNew_of_contains {kept : List (StatedType N)}
    (h : ∀ t ∈ ts, kept.contains t = true) : ts.foldl insertNew kept = kept := by
  induction ts with
  | nil => rfl
  | cons t ts ih =>
      obtain ⟨ht, hts⟩ := List.forall_mem_cons.mp h
      rw [List.foldl_cons, insertNew, if_pos ht, ih hts]

theorem distinct_of_repeated {again : List (StatedType N)} (rest : List (StatedType N))
    (h : ∀ t ∈ again, ts.contains t = true) :
    distinct (ts ++ again ++ rest) = distinct (ts ++ rest) := by
  rw [distinct_append, distinct_append, distinct_append,
    foldl_insertNew_of_contains again fun t ht => (contains_distinct ts t).trans (h t ht)]

end

section
variable [BEq N]

/-- Both truth values are among some members. -/
def hasBooleans (ts : List (StatedType N)) : Bool :=
  ts.contains (booleanLiteral true) && ts.contains (booleanLiteral false)

theorem mergeBooleans_eq (ts : List (StatedType N)) :
    mergeBooleans ts =
      if hasBooleans ts then insertNew (ts.filter fun t => !t.isBooleanLiteral) boolean
      else ts := rfl

theorem contains_absorbLiterals (ts : List (StatedType N)) (t : StatedType N) :
    (absorbLiterals ts).contains t = (ts.contains t && !t.widened?.any ts.contains) :=
  contains_filter (fun s t h => by rw [(alike_of_same h).2.2]) ts t

theorem contains_dropNullish (strict : Bool) (ts : List (StatedType N)) (t : StatedType N) :
    (dropNullish strict ts).contains t =
      (ts.contains t && !(!strict && ts.any (fun t => !t.isNullish) && t.isNullish)) := by
  have hfilter := contains_filter (p := fun t => !t.isNullish)
    (fun _ _ h => congrArg not (alike_of_same h).2.1) ts t
  unfold dropNullish
  split
  · rename_i h
    rw [hfilter, h, Bool.true_and]
  · rename_i h
    rw [Bool.not_eq_true] at h
    rw [h, Bool.false_and, Bool.not_false, Bool.and_true]

end

section
variable [BEq N] [EquivBEq N] (strict : Bool) {ss ts : List (StatedType N)}

theorem contains_mergeBooleans (ts : List (StatedType N)) (t : StatedType N) :
    (mergeBooleans ts).contains t =
      if hasBooleans ts then ts.contains t && !t.isBooleanLiteral || t == boolean
      else ts.contains t := by
  rw [mergeBooleans_eq]
  split
  · rw [contains_insertNew, contains_filter fun _ _ h => congrArg not (alike_of_same h).1]
  · rfl

theorem apart_mergeBooleans (h : Apart ts) : Apart (mergeBooleans ts) := by
  rw [mergeBooleans_eq]
  split
  · exact apart_insertNew boolean (List.Pairwise.sublist List.filter_sublist h)
  · exact h

theorem apart_normalized (t : StatedType N) : Apart (normalized strict t) := by
  have hmerged := apart_mergeBooleans (apart_distinct t.alternatives)
  have habsorbed : Apart (absorbLiterals (mergeBooleans (distinct t.alternatives))) :=
    List.Pairwise.sublist List.filter_sublist hmerged
  have hdropped : Apart
      (dropNullish strict (absorbLiterals (mergeBooleans (distinct t.alternatives)))) := by
    unfold dropNullish
    split
    · exact List.Pairwise.sublist List.filter_sublist habsorbed
    · exact habsorbed
  exact ((List.mergeSort_perm _ _).pairwise_iff fun hxy => BEq.comm.trans hxy).mpr hdropped

/-- What the members are up to equality depends only on what the alternatives are. -/
theorem contains_normalized {s t : StatedType N}
    (h : ∀ x, s.alternatives.contains x = t.alternatives.contains x) (x : StatedType N) :
    (normalized strict s).contains x = (normalized strict t).contains x := by
  have hdistinct (x : StatedType N) :
      (distinct s.alternatives).contains x = (distinct t.alternatives).contains x := by
    rw [contains_distinct, contains_distinct, h]
  have hmerged (x : StatedType N) : (mergeBooleans (distinct s.alternatives)).contains x =
      (mergeBooleans (distinct t.alternatives)).contains x := by
    have hboth : hasBooleans (distinct s.alternatives) = hasBooleans (distinct t.alternatives) := by
      rw [hasBooleans, hasBooleans, hdistinct, hdistinct]
    rw [contains_mergeBooleans, contains_mergeBooleans, hboth, hdistinct]
  have habsorbed (x : StatedType N) :
      (absorbLiterals (mergeBooleans (distinct s.alternatives))).contains x =
        (absorbLiterals (mergeBooleans (distinct t.alternatives))).contains x := by
    rw [contains_absorbLiterals, contains_absorbLiterals, hmerged, funext hmerged]
  have hsome := any_congr (p := fun t => !t.isNullish)
    (fun _ _ h => congrArg not (alike_of_same h).2.1) habsorbed
  rw [normalized, normalized, (List.mergeSort_perm _ _).contains_eq,
    (List.mergeSort_perm _ _).contains_eq, contains_dropNullish, contains_dropNullish, habsorbed,
    hsome]

end

theorem widened?_of_widened {t w : StatedType N} (hw : t.widened? = some w) :
    w.widened? = none := by
  cases t <;> cases hw <;> rfl

section
variable [BEq N] (strict : Bool) {v : ValueType N}

/-- The primitive type of a literal accepts what the literal does. -/
theorem accepts_of_widened {t w : StatedType N} (hw : t.widened? = some w)
    (h : accepts strict t v = true) : accepts strict w v = true := by
  cases t <;> cases hw <;> cases v <;> simp_all [accepts, acceptsPlain, isNever]

/-- A truth value that is known is accepted by a literal if it is accepted at all. -/
theorem accepts_literal_of_boolean (hv : v ≠ .boolean none)
    (h : accepts strict boolean v = true) :
    ∃ b, accepts strict (booleanLiteral b) v = true := by
  cases v with
  | boolean value? =>
      cases value? with
      | none => exact absurd rfl hv
      | some b => exact ⟨b, by simp [accepts, acceptsPlain]⟩
  | _ => exact ⟨true, h⟩

theorem offers_of_dropNullish {ts : List (StatedType N)}
    (h : offers strict (dropNullish strict ts) v = true) : offers strict ts v = true := by
  obtain ⟨t, ht, hv⟩ := List.any_eq_true.mp h
  unfold dropNullish at ht
  split at ht
  · exact List.any_eq_true.mpr ⟨t, (List.mem_filter.mp ht).1, hv⟩
  · exact List.any_eq_true.mpr ⟨t, ht, hv⟩

end

section
variable [BEq N] [EquivBEq N] (strict : Bool) (ts : List (StatedType N)) {v : ValueType N}

variable {ts} in
theorem offers_of_contains {t : StatedType N} (h : ts.contains t = true)
    (hv : accepts strict t v = true) : offers strict ts v = true := by
  obtain ⟨s, hs, heq⟩ := List.contains_iff_exists_mem_beq.mp h
  exact List.any_eq_true.mpr ⟨s, hs, accepts_congr strict v heq ▸ hv⟩

theorem offers_mergeBooleans (hv : v ≠ .boolean none) :
    offers strict (mergeBooleans ts) v = offers strict ts v := by
  cases hboth : hasBooleans ts with
  | false => rw [mergeBooleans_eq, hboth, if_neg Bool.false_ne_true]
  | true =>
      have hcontains := contains_mergeBooleans ts
      rw [hboth] at hcontains
      rw [Bool.eq_iff_iff]
      constructor
      · intro h
        obtain ⟨t, ht, hacc⟩ := List.any_eq_true.mp h
        have hmem := hcontains t ▸ contains_of_mem ht
        rw [if_pos rfl, Bool.or_eq_true, Bool.and_eq_true] at hmem
        rcases hmem with ⟨hmem, -⟩ | heq
        · exact offers_of_contains strict hmem hacc
        · rw [accepts_congr strict v heq] at hacc
          obtain ⟨b, hb⟩ := accepts_literal_of_boolean strict hv hacc
          obtain ⟨htrue, hfalse⟩ := Bool.and_eq_true_iff.mp hboth
          cases b with
          | true => exact offers_of_contains strict htrue hb
          | false => exact offers_of_contains strict hfalse hb
      · intro h
        obtain ⟨t, ht, hacc⟩ := List.any_eq_true.mp h
        cases hliteral : t.isBooleanLiteral with
        | false =>
            refine offers_of_contains strict ?_ hacc
            rw [hcontains, if_pos rfl, contains_of_mem ht, hliteral]
            rfl
        | true =>
            have hwidened : t.widened? = some boolean := by
              cases t <;> first | rfl | cases hliteral
            refine offers_of_contains strict ?_ (accepts_of_widened strict hwidened hacc)
            rw [hcontains, if_pos rfl, BEq.rfl, Bool.or_true]

theorem offers_absorbLiterals : offers strict (absorbLiterals ts) v = offers strict ts v := by
  rw [Bool.eq_iff_iff]
  constructor
  · intro h
    obtain ⟨t, ht, hacc⟩ := List.any_eq_true.mp h
    exact List.any_eq_true.mpr ⟨t, (List.mem_filter.mp ht).1, hacc⟩
  · intro h
    obtain ⟨t, ht, hacc⟩ := List.any_eq_true.mp h
    cases habsorbed : t.widened?.any ts.contains with
    | false =>
        refine offers_of_contains strict ?_ hacc
        rw [contains_absorbLiterals, contains_of_mem ht, habsorbed]
        rfl
    | true =>
        cases hw : t.widened? with
        | none =>
            rw [hw] at habsorbed
            cases habsorbed
        | some w =>
            rw [hw, Option.any_some] at habsorbed
            refine offers_of_contains strict ?_ (accepts_of_widened strict hw hacc)
            rw [contains_absorbLiterals, habsorbed, widened?_of_widened hw]
            rfl

/-- The passes up to the last one change nothing, and neither does the order. -/
theorem offers_normalized (t : StatedType N) (hv : v ≠ .boolean none) :
    offers strict (normalized strict t) v =
      offers strict (dropNullish strict
        (absorbLiterals (mergeBooleans (distinct t.alternatives)))) v ∧
    offers strict (absorbLiterals (mergeBooleans (distinct t.alternatives))) v =
      accepts strict t v := by
  refine ⟨(List.mergeSort_perm _ _).any_eq, ?_⟩
  rw [offers_absorbLiterals, offers_mergeBooleans strict _ hv,
    offers_congr strict v (contains_distinct t.alternatives), accepts_eq_offers strict t hv]

end

theorem alternativesOf_append (ss ts : List (StatedType N)) :
    alternativesOf (ss ++ ts) = alternativesOf ss ++ alternativesOf ts := by
  induction ss with
  | nil => rfl
  | cons s ss ih => rw [List.cons_append, alternativesOf, alternativesOf, ih, List.append_assoc]

/-- The alternatives of equal annotations are the same up to equality. -/
theorem contains_alternatives [BEq N] [EquivBEq N] {s t : StatedType N} (h : (s == t) = true)
    (x : StatedType N) : s.alternatives.contains x = t.alternatives.contains x := by
  have single {s t : StatedType N} (h : (s == t) = true) : [s].contains x = [t].contains x := by
    simpa using BEq.congr_right h
  induction s using nestedInduction generalizing t with
  | plain s hs =>
      have ht : t.isPlain = true := by
        rcases eq_of_same_plain hs h with rfl | ⟨_, _, -, rfl, -⟩
        · exact hs
        · rfl
      rw [alternatives_of_plain hs, alternatives_of_plain ht]
      exact single h
  | array s =>
      obtain ⟨t, rfl, -⟩ := exists_of_same_array h
      exact single h
  | union ss ih =>
      obtain ⟨ts, rfl, hall⟩ := exists_of_same_union h
      clear h
      rw [alternatives, alternatives]
      induction hall with
      | nil => rfl
      | cons h _ ihs =>
          obtain ⟨hs, hss⟩ := List.forall_mem_cons.mp ih
          rw [alternativesOf, alternativesOf, List.contains_append, List.contains_append, hs h,
            ihs hss]

section
variable [BEq N] [EquivBEq N]

/-- A union displays as what it accepts, whether a value is known or not: truth values that are not
known are taken apart. -/
theorem accepts_union_normalized (strict : Bool) (t : StatedType N) (v : ValueType N) :
    (accepts strict (union (normalized strict t)) v = true → accepts strict t v = true) ∧
    (strict = true → accepts strict (union (normalized strict t)) v = accepts strict t v) := by
  have hknown {v : ValueType N} (hv : v ≠ .boolean none) :
      (accepts strict (union (normalized strict t)) v = true → accepts strict t v = true) ∧
      (strict = true → accepts strict (union (normalized strict t)) v = accepts strict t v) := by
    obtain ⟨hsort, hpasses⟩ := offers_normalized strict t hv
    rw [accepts_union strict _ hv, hsort]
    refine ⟨fun h => hpasses ▸ offers_of_dropNullish strict h, ?_⟩
    rintro rfl
    exact hpasses
  by_cases hv : v = .boolean none
  · subst hv
    have htrue := hknown (v := .boolean (some true)) nofun
    have hfalse := hknown (v := .boolean (some false)) nofun
    rw [accepts_boolean_none, accepts_boolean_none strict t]
    refine ⟨fun h => ?_, fun hs => by rw [htrue.2 hs, hfalse.2 hs]⟩
    obtain ⟨ht, hf⟩ := Bool.and_eq_true_iff.mp h
    rw [htrue.1 ht, hfalse.1 hf]
    rfl
  · exact hknown hv

omit [EquivBEq N] in
theorem normalized_of_nested (strict : Bool) (before inner after : List (StatedType N)) :
    normalized strict (union (before ++ union inner :: after)) =
      normalized strict (union (before ++ inner ++ after)) := by
  have halternatives : (union (before ++ union inner :: after)).alternatives =
      (union (before ++ inner ++ after)).alternatives := by
    simp only [alternatives, alternativesOf_append, alternativesOf, List.append_assoc]
  rw [normalized, normalized, halternatives]

theorem normalized_of_repeated (strict : Bool) {s t : StatedType N} (h : (s == t) = true)
    (before between after : List (StatedType N)) :
    normalized strict (union (before ++ t :: between ++ s :: after)) =
      normalized strict (union (before ++ t :: between ++ after)) := by
  have hagain : ∀ x ∈ s.alternatives,
      (alternativesOf (before ++ t :: between)).contains x = true := by
    intro x hx
    have ht : t.alternatives.contains x = true :=
      contains_alternatives h x ▸ contains_of_mem hx
    rw [alternativesOf_append, alternativesOf, List.contains_append, List.contains_append, ht]
    simp
  have hdistinct : distinct (union (before ++ t :: between ++ s :: after)).alternatives =
      distinct (union (before ++ t :: between ++ after)).alternatives := by
    have hrepeated := distinct_of_repeated _ (alternativesOf after) hagain
    rw [alternatives, alternatives, alternativesOf_append, alternativesOf, ← List.append_assoc,
      hrepeated, ← alternativesOf_append]
  rw [normalized, normalized, hdistinct]

/-- The members that a union displays accept what the union does, except that without strict null
checks null may be left out. They stay what they are when a nested union is opened and when a member
is repeated, and are the same up to their order for all unions with the same alternatives. -/
theorem normalized_members :
    (∀ (t : StatedType N) (v : ValueType N),
      accepts true t v = accepts true (union (normalized true t)) v) ∧
    (∀ (strict : Bool) (t : StatedType N) (v : ValueType N),
      accepts strict t v = false → accepts strict (union (normalized strict t)) v = false) ∧
    (∀ (strict : Bool) (before inner after : List (StatedType N)),
      normalized strict (union (before ++ union inner :: after)) =
        normalized strict (union (before ++ inner ++ after))) ∧
    (∀ (strict : Bool) (s t : StatedType N) (before between after : List (StatedType N)),
      (s == t) = true →
        normalized strict (union (before ++ t :: between ++ s :: after)) =
          normalized strict (union (before ++ t :: between ++ after))) ∧
    ∀ (strict : Bool) (s t : StatedType N),
      (∀ x, s.alternatives.contains x = t.alternatives.contains x) →
        ∃ members, members.Perm (normalized strict s) ∧
          List.Forall₂ (fun x y => (x == y) = true) members (normalized strict t) := by
  refine ⟨fun t v => ((accepts_union_normalized true t v).2 rfl).symm, fun strict t v h => ?_,
    normalized_of_nested, fun strict s t before between after h =>
      normalized_of_repeated strict h before between after, fun strict s t h => ?_⟩
  · have hmono := (accepts_union_normalized strict t v).1
    rw [h] at hmono
    exact Bool.eq_false_iff.mpr fun hacc => absurd (hmono hacc) Bool.false_ne_true
  · exact exists_perm_of_contains (apart_normalized strict s) (apart_normalized strict t)
      (contains_normalized strict h)

end

/-- The literal 1 goes with its second occurrence and both with the type of numbers. -/
theorem normalized_members_mixed :
    let nested : StatedType Nat := union [numberLiteral 1, union [null, number]]
    let flat : StatedType Nat := union [numberLiteral 1, null, number]
    accepts true nested (.number 2) = accepts true (union (normalized true nested)) (.number 2) ∧
    (accepts false nested (.string none) = false ∧
      accepts false (union (normalized false nested)) (.string none) = false) ∧
    normalized false nested = normalized false flat ∧
    ((numberLiteral 1 == (numberLiteral 1 : StatedType Nat)) = true ∧
      normalized false (union [numberLiteral 1, null, number, numberLiteral 1]) =
        normalized false flat) ∧
    (∀ x, nested.alternatives.contains x = flat.alternatives.contains x) ∧
      ∃ members, members.Perm (normalized false nested) ∧
        List.Forall₂ (fun x y => (x == y) = true) members (normalized false flat) := by
  intro nested flat
  obtain ⟨hstrict, hrejected, hnested, hrepeated, hsame⟩ := normalized_members (N := Nat)
  have hnull : accepts false nested (.string none) = false := by decide
  have heq : (numberLiteral 1 == (numberLiteral 1 : StatedType Nat)) = true := by decide
  have halternatives (x : StatedType Nat) :
      nested.alternatives.contains x = flat.alternatives.contains x := rfl
  exact ⟨hstrict nested _, ⟨hnull, hrejected false nested _ hnull⟩,
    hnested false [numberLiteral 1] [null, number] [],
    ⟨heq, hrepeated false _ _ [] [null, number] [] heq⟩, halternatives,
    hsame false nested flat halternatives⟩

end Erasure.StatedType

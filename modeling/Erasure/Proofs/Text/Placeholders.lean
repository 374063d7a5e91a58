import Mathlib.Data.List.Infix
import Erasure.Diagnostic

/-!
The arguments of a message are filled in one after the other. The first of them are then filled in
as they would be all at once, unless a placeholder of the next one arises that the template does not
have: from the text of an argument, or from such a text and what stands beside it.
-/

namespace Erasure
namespace Text

section
variable {word replacement : List Char}

theorem replaceFrom_length (ys zs : List Char) :
    replaceFrom word replacement ys.length (ys ++ zs) = replaceFrom word replacement 0 zs := by
  induction ys with
  | nil => rfl
  | cons y ys ih => exact ih

theorem replace_word_append (hne : word ≠ []) (cs : List Char) :
    replace word replacement (word ++ cs) = replacement ++ replace word replacement cs := by
  obtain ⟨x, body, rfl⟩ := List.exists_cons_of_ne_nil hne
  have hfound : (x :: body).isPrefixOf (x :: (body ++ cs)) = true :=
    List.isPrefixOf_iff_prefix.mpr (List.prefix_append (x :: body) cs)
  rw [replace, List.cons_append, replaceFrom, if_pos hfound]
  exact congrArg (replacement ++ ·) (replaceFrom_length body cs)

theorem replace_cons {c : Char} {cs : List Char} (h : ¬ word <+: c :: cs) :
    replace word replacement (c :: cs) = c :: replace word replacement cs := by
  rw [replace, replaceFrom, if_neg (fun hp => h (List.isPrefixOf_iff_prefix.mp hp))]
  rfl

theorem replace_self (hne : word ≠ []) (cs : List Char) : replace word word cs = cs := by
  induction hn : cs.length using Nat.strongRecOn generalizing cs with
  | ind n ih =>
      by_cases hp : word <+: cs
      · obtain ⟨ds, rfl⟩ := hp
        have hpos := List.length_pos_iff.mpr hne
        rw [replace_word_append hne, ih ds.length (by simp at hn; omega) ds rfl]
      · cases cs with
        | nil => rfl
        | cons c cs => rw [replace_cons hp, ih cs.length (by simp at hn; omega) cs rfl]

end

/-- A text with a word in all its open places. -/
def closeWith (word : List Char) (open? : List (Option Char)) : List Char :=
  open?.flatMap fun x? => x?.elim word fun c => [c]

theorem closeWith_none (word : List Char) (m : List (Option Char)) :
    closeWith word (none :: m) = word ++ closeWith word m := rfl

theorem closeWith_some (word : List Char) (c : Char) (m : List (Option Char)) :
    closeWith word (some c :: m) = c :: closeWith word m := rfl

theorem closeWith_map_append (word cs : List Char) (m : List (Option Char)) :
    closeWith word (cs.map some ++ m) = cs ++ closeWith word m := by
  induction cs with
  | nil => rfl
  | cons c cs ih => exact congrArg (c :: ·) ih

theorem closeWith_map (word cs : List Char) : closeWith word (cs.map some) = cs := by
  have h := closeWith_map_append word cs []
  rwa [List.append_nil, show closeWith word [] = [] from rfl, List.append_nil] at h

section
variable {x : Char} {body : List Char}

/-- The rest of a word whose first character is no other one stands outside of the open places. -/
theorem map_prefix_of_prefix_closeWith {cs : List Char} {m : List (Option Char)} (hcs : x ∉ cs)
    (h : cs <+: closeWith (x :: body) m) : cs.map some <+: m := by
  induction cs generalizing m with
  | nil => exact List.nil_prefix
  | cons c cs ih =>
      obtain ⟨hc, hcs⟩ := not_or.mp (mt List.mem_cons.mpr hcs)
      rcases m with _ | ⟨_ | d, m⟩
      · exact absurd (List.prefix_nil.mp h) (List.cons_ne_nil c cs)
      · exact absurd (List.cons_prefix_cons.mp h).1.symm hc
      · obtain ⟨rfl, hrest⟩ := List.cons_prefix_cons.mp h
        exact List.cons_prefix_cons.mpr ⟨rfl, ih hcs hrest⟩

variable (hbody : x ∉ body)
include hbody

theorem map_prefix_iff (c : Char) (m : List (Option Char)) :
    x :: body <+: closeWith (x :: body) (some c :: m) ↔
      (x :: body).map some <+: some c :: m := by
  constructor
  · intro h
    obtain ⟨rfl, hrest⟩ := List.cons_prefix_cons.mp h
    exact List.cons_prefix_cons.mpr ⟨rfl, map_prefix_of_prefix_closeWith hbody hrest⟩
  · rintro ⟨rest, hrest⟩
    rw [← hrest, closeWith_map_append]
    exact List.prefix_append _ _

theorem replace_closeWith {m : List (Option Char)} (replacement : List Char)
    (h : ¬ (x :: body).map some <:+: m) :
    replace (x :: body) replacement (closeWith (x :: body) m) = closeWith replacement m := by
  induction m with
  | nil => rfl
  | cons c? m ih =>
      have hrest := ih fun hin => h (hin.trans (List.infix_cons (List.infix_refl m)))
      cases c? with
      | none =>
          rw [closeWith_none, replace_word_append (List.cons_ne_nil x body), hrest, closeWith_none]
      | some c =>
          have hp : ¬ x :: body <+: closeWith (x :: body) (some c :: m) := fun hp =>
            h ((map_prefix_iff hbody c m).mp hp).isInfix
          rw [closeWith_some] at hp ⊢
          rw [replace_cons hp, hrest, closeWith_some]

/-- Every occurrence of the word outside of the open places changes the length once more. -/
theorem length_replace_closeWith (m : List (Option Char)) (replacement : List Char) :
    ∃ more, (replace (x :: body) replacement (closeWith (x :: body) m)).length +
        more * (x :: body).length =
          (closeWith replacement m).length + more * replacement.length := by
  have hne : x :: body ≠ [] := List.cons_ne_nil x body
  induction hn : m.length using Nat.strongRecOn generalizing m with
  | ind n ih =>
      rcases m with _ | ⟨_ | c, m⟩
      · exact ⟨0, by simp [closeWith, replace, replaceFrom]⟩
      · obtain ⟨more, hmore⟩ := ih m.length (by simp at hn; omega) m rfl
        refine ⟨more, ?_⟩
        rw [closeWith_none, closeWith_none, replace_word_append hne, List.length_append,
          List.length_append]
        omega
      · by_cases hp : (x :: body).map some <+: some c :: m
        · obtain ⟨rest, hrest⟩ := hp
          obtain ⟨more, hmore⟩ := ih rest.length (by
            have := congrArg List.length hrest
            simp at this hn
            omega) rest rfl
          refine ⟨more + 1, ?_⟩
          rw [← hrest, closeWith_map_append, closeWith_map_append,
            replace_word_append hne, List.length_append, List.length_append, Nat.succ_mul,
            Nat.succ_mul]
          omega
        · obtain ⟨more, hmore⟩ := ih m.length (by simp at hn; omega) m rfl
          refine ⟨more, ?_⟩
          rw [← map_prefix_iff hbody, closeWith_some] at hp
          rw [closeWith_some, closeWith_some, replace_cons hp]
          simp only [List.length_cons] at hmore ⊢
          omega

theorem eq_word_of_replace_closeWith {m : List (Option Char)} {replacement : List Char}
    (hin : (x :: body).map some <:+: m)
    (h : replace (x :: body) replacement (closeWith (x :: body) m) = closeWith replacement m) :
    replacement = x :: body := by
  have hne : x :: body ≠ [] := List.cons_ne_nil x body
  induction m with
  | nil => cases List.infix_nil.mp hin
  | cons c? m ih =>
      by_cases hp : (x :: body).map some <+: c? :: m
      · obtain ⟨rest, hrest⟩ := hp
        rw [← hrest, closeWith_map_append, closeWith_map_append, replace_word_append hne] at h
        obtain ⟨more, hmore⟩ := length_replace_closeWith hbody rest replacement
        have hlength := congrArg List.length h
        rw [List.length_append, List.length_append] at hlength
        have hmul : (more + 1) * replacement.length = (more + 1) * (x :: body).length := by
          rw [Nat.succ_mul, Nat.succ_mul]
          omega
        exact (List.append_inj h (Nat.eq_of_mul_eq_mul_left (Nat.succ_pos more) hmul)).1
      · have hrest := (List.infix_cons_iff.mp hin).resolve_left hp
        cases c? with
        | none =>
            rw [closeWith_none, closeWith_none, replace_word_append hne] at h
            exact ih hrest (List.append_cancel_left h)
        | some c =>
            rw [← map_prefix_iff hbody, closeWith_some] at hp
            rw [closeWith_some, closeWith_some, replace_cons hp] at h
            exact ih hrest (List.cons.inj h).2

theorem replace_closeWith_iff (m : List (Option Char)) (replacement : List Char) :
    replace (x :: body) replacement (closeWith (x :: body) m) = closeWith replacement m ↔
      replacement = x :: body ∨ ¬ (x :: body).map some <:+: m := by
  constructor
  · intro h
    by_contra hnot
    obtain ⟨hne, hin⟩ := not_or.mp hnot
    exact hne (eq_word_of_replace_closeWith hbody (not_not.mp hin) h)
  · rintro (rfl | hnot)
    · exact replace_self (List.cons_ne_nil x body) _
    · exact replace_closeWith hbody replacement hnot

end
end Text

/-- The characters of a placeholder behind its brace. -/
def placeholderEnd (index : Nat) : List Char := (toString index).toList ++ ['\x7d']

theorem placeholder_eq (index : Nat) : placeholder index = '\x7b' :: placeholderEnd index := rfl

theorem not_mem_placeholderEnd (index : Nat) : '\x7b' ∉ placeholderEnd index := by
  intro hmem
  rcases List.mem_append.mp hmem with hdigit | hbrace
  · have hdigit : '\x7b' ∈ Nat.toDigits 10 index := by
      rwa [← Nat.toList_repr]
    exact absurd (Nat.isDigit_of_mem_toDigits (by decide) (by decide) hdigit) (by decide)
  · exact absurd hbrace (by decide)

namespace Template

/-- What a template has at one place. -/
inductive Piece where
  | char (c : Char)
  /-- The placeholder of an argument. -/
  | argument (index : Nat)

/-- The argument with whose placeholder a text starts. -/
def argumentAt? (count : Nat) (cs : List Char) : Option Nat :=
  (List.range count).find? fun i => (placeholder i).isPrefixOf cs

/-- The pieces of a template for a number of arguments, with `skip` characters of the placeholder
last found still to pass over. -/
def piecesFrom (count : Nat) : Nat → List Char → List Piece
  | _, [] => []
  | skip + 1, _ :: cs => piecesFrom count skip cs
  | 0, c :: cs =>
      match argumentAt? count (c :: cs) with
      | some i => .argument i :: piecesFrom count ((placeholder i).length - 1) cs
      | none => .char c :: piecesFrom count 0 cs

def pieces (count : Nat) (template : String) : List Piece := piecesFrom count 0 template.toList

/-- What stands at the place of an argument once the first `k` are filled in. -/
def argumentText (k : Nat) (args : List String) (index : Nat) : List Char :=
  if index < k then (args.getD index "").toList else placeholder index

/-- A piece of a template, once the first `k` arguments are filled in. -/
def Piece.text (k : Nat) (args : List String) : Piece → List Char
  | char c => [c]
  | argument i => argumentText k args i

/-- A template in which the placeholders of the first `k` arguments are replaced at once. -/
def fillFirst (k : Nat) (template : String) (args : List String) : String :=
  String.ofList ((pieces args.length template).flatMap (Piece.text k args))

/-- A piece once the first `k` arguments are filled in; the places of the next one are left open. -/
def Piece.textAround (k : Nat) (args : List String) : Piece → List (Option Char)
  | char c => [some c]
  | argument i => if i = k then [none] else (argumentText k args i).map some

/-- After the first `k` arguments are filled in, the placeholder of the next one stands where the
template does not have it. -/
def Arises (template : String) (args : List String) (k : Nat) : Prop :=
  (placeholder k).map some <:+: (pieces args.length template).flatMap (Piece.textAround k args)

theorem placeholder_of_argumentAt? {count i : Nat} {cs : List Char}
    (h : argumentAt? count cs = some i) : placeholder i <+: cs := by
  have hfound := List.find?_some (p := fun i => (placeholder i).isPrefixOf cs) h
  exact List.isPrefixOf_iff_prefix.mp hfound

/-- The pieces of a template spell it. -/
theorem piecesFrom_text (count : Nat) (args : List String) (skip : Nat) (cs : List Char) :
    (piecesFrom count skip cs).flatMap (Piece.text 0 args) = cs.drop skip := by
  fun_induction piecesFrom count skip cs with
  | case1 => rw [List.flatMap_nil, List.drop_nil]
  | case2 skip c cs ih => rw [ih, List.drop_succ_cons]
  | case3 c cs i hfound ih =>
      have htext : Piece.text 0 args (.argument i) = placeholder i := by
        rw [Piece.text, argumentText, if_neg (Nat.not_lt_zero i)]
      have hdrop :
        cs.drop ((placeholder i).length - 1) = (c :: cs).drop (placeholder i).length := by
        rw [placeholder_eq, List.length_cons, Nat.add_sub_cancel, List.drop_succ_cons]
      rw [List.flatMap_cons, ih, htext, hdrop, List.drop_zero]
      exact List.prefix_iff_eq_append.mp (placeholder_of_argumentAt? hfound)
  | case4 c cs _ ih =>
      rw [List.flatMap_cons, ih]
      rfl

section
variable (k : Nat) (args : List String)

/-- The places of the next argument are its placeholder before it is filled in. -/
theorem closeWith_placeholder (p : Piece) :
    Text.closeWith (placeholder k) (p.textAround k args) = p.text k args := by
  cases p with
  | char c => rfl
  | argument i =>
      simp only [Piece.textAround, Piece.text, argumentText]
      split
      · rw [if_neg (by omega), Text.closeWith_none]
        subst_vars
        exact List.append_nil _
      · exact Text.closeWith_map _ _

/-- Afterwards they are the argument. -/
theorem closeWith_argument (p : Piece) :
    Text.closeWith (args.getD k "").toList (p.textAround k args) = p.text (k + 1) args := by
  cases p with
  | char c => rfl
  | argument i =>
      simp only [Piece.textAround, Piece.text, argumentText]
      split
      · rw [if_pos (by omega), Text.closeWith_none]
        subst_vars
        exact List.append_nil _
      · have hlt : i < k + 1 ↔ i < k := by omega
        simp only [Text.closeWith_map, hlt]

theorem closeWith_flatMap {word : List Char} {j : Nat} (ps : List Piece)
    (h : ∀ p : Piece, Text.closeWith word (p.textAround k args) = p.text j args) :
    Text.closeWith word (ps.flatMap (Piece.textAround k args)) =
      ps.flatMap (Piece.text j args) := by
  rw [Text.closeWith, List.flatMap_assoc]
  exact List.flatMap_congr fun p _ => h p

end

/-- Where the arguments before it were filled in at once, the next one is filled in at once with
them, unless a placeholder of it arises. -/
theorem replace_placeholder_iff (template : String) (args : List String) (k : Nat) :
    Text.replace (placeholder k) (args.getD k "").toList
        ((pieces args.length template).flatMap (Piece.text k args)) =
      (pieces args.length template).flatMap (Piece.text (k + 1) args) ↔
    (args.getD k "").toList = placeholder k ∨ ¬ Arises template args k := by
  rw [← closeWith_flatMap k args _ (closeWith_placeholder k args),
    ← closeWith_flatMap k args _ (closeWith_argument k args)]
  exact Text.replace_closeWith_iff (not_mem_placeholderEnd k) _ _

end Template

theorem fillFrom_append (index : Nat) (template : List Char) (args : List String) (arg : String) :
    fillFrom index template (args ++ [arg]) =
      Text.replace (placeholder (index + args.length)) arg.toList
        (fillFrom index template args) := by
  induction args generalizing index template with
  | nil => rfl
  | cons first args ih =>
      rw [List.cons_append, fillFrom, ih, fillFrom, List.length_cons, Nat.succ_add_eq_add_succ]

theorem fillFrom_take_succ (template : List Char) {args : List String} {k : Nat}
    (h : k < args.length) :
    fillFrom 0 template (args.take (k + 1)) =
      Text.replace (placeholder k) (args.getD k "").toList
        (fillFrom 0 template (args.take k)) := by
  rw [List.take_succ_eq_append_getElem h, fillFrom_append, List.length_take,
    Nat.min_eq_left h.le, Nat.zero_add, List.getD, List.getElem?_eq_getElem h,
    Option.getD_some]

open Template in
/-- At every stage the arguments filled in one after the other are filled in as if at once, exactly
if no stage makes a placeholder of the next argument, or that argument reads like its
placeholder. -/
theorem filled_at_once_iff (template : String) (args : List String) :
    (∀ k ≤ args.length, fillTemplate template (args.take k) = fillFirst k template args) ↔
      ∀ k < args.length,
        (args.getD k "").toList = placeholder k ∨ ¬ Arises template args k := by
  simp only [fillTemplate, fillFirst, String.ofList_inj]
  constructor
  · intro h k hk
    rw [← replace_placeholder_iff, ← h k hk.le, ← h (k + 1) hk, fillFrom_take_succ _ hk]
  · intro h k hk
    induction k with
    | zero => exact ((piecesFrom_text _ args 0 _).trans List.drop_zero).symm
    | succ k ih =>
        rw [fillFrom_take_succ _ hk, ih (Nat.le_of_succ_le hk)]
        exact (replace_placeholder_iff template args k).mpr (h k hk)

/-- A string that reads like the placeholder of the second argument is replaced by that argument. -/
theorem argument_replaced_in_argument :
    fillTemplate Message.notAssignable.template ["\"\x7b1\x7d\"", "\"a\""] =
        "Type '\"\"a\"\"' is not assignable to type '\"a\"'." ∧
      Template.fillFirst 2 Message.notAssignable.template ["\"\x7b1\x7d\"", "\"a\""] =
        "Type '\"\x7b1\x7d\"' is not assignable to type '\"a\"'." := by
  decide +kernel

end Erasure

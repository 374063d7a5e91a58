import Mathlib.Order.Interval.Finset.Nat
import Erasure.Proofs.Print.ExportedName
import Erasure.Proofs.Token.Apart

/-!
The names that are made for the output. A search for one ends at the first number that is not
taken, since at each character of the text and at each entry of the list at most one number is
taken. What it ends with is no name made before and no word of the text, so that it is no
identifier there either, unless one that is written with escapes.
-/

namespace Erasure

namespace FreshName

/-- A word stands in a text, and the characters beside it are no parts of names. -/
def Mentions (text name : String) : Prop :=
  ∃ before after, text.toList = before ++ name.toList ++ after ∧
    before.getLast?.any Text.isIdentifierPart = false ∧
    after.head?.any Text.isIdentifierPart = false

theorem isMentionedFrom_iff {name : List Char} (hne : name ≠ []) (inWord : Bool) (cs : List Char) :
    isMentionedFrom name inWord cs = true ↔
      ∃ before after, cs = before ++ name ++ after ∧
        before.getLast?.elim inWord Text.isIdentifierPart = false ∧
        after.head?.any Text.isIdentifierPart = false := by
  induction cs generalizing inWord with
  | nil =>
      refine iff_of_false Bool.false_ne_true ?_
      rintro ⟨before, after, heq, -⟩
      simp at heq
      exact hne heq.2.1
  | cons c cs ih =>
      rw [isMentionedFrom, Bool.or_eq_true, ih]
      constructor
      · rintro (hhere | ⟨before, after, rfl, hbefore, hafter⟩)
        · simp only [Bool.and_eq_true, Bool.not_eq_true', List.isPrefixOf_iff_prefix] at hhere
          obtain ⟨⟨hin, after, hstands⟩, hafter⟩ := hhere
          refine ⟨[], after, hstands.symm, hin, ?_⟩
          rwa [← hstands, List.drop_left' rfl] at hafter
        · refine ⟨c :: before, after, rfl, ?_, hafter⟩
          rw [List.getLast?_cons]
          cases hlast : before.getLast? <;> simpa [hlast] using hbefore
      · rintro ⟨before, after, heq, hbefore, hafter⟩
        cases before with
        | nil =>
            left
            rw [List.nil_append] at heq
            have hstands : name.isPrefixOf (c :: cs) = true :=
              List.isPrefixOf_iff_prefix.mpr ⟨after, heq.symm⟩
            rw [hstands, heq, List.drop_left' rfl, hafter,
              show inWord = false from hbefore]
            rfl
        | cons d before =>
            obtain ⟨rfl, rfl⟩ := List.cons.inj heq
            refine .inr ⟨before, after, rfl, ?_, hafter⟩
            rw [List.getLast?_cons] at hbefore
            cases hlast : before.getLast? <;> simpa [hlast] using hbefore

theorem isMentioned_iff {name text : String} (hne : name ≠ "") :
    isMentioned name text = true ↔ Mentions text name := by
  have hlist : name.toList ≠ [] := fun hnil => hne (String.toList_eq_nil_iff.mp hnil)
  have helim (o : Option Char) : o.elim false Text.isIdentifierPart =
      o.any Text.isIdentifierPart := by
    cases o <;> rfl
  rw [isMentioned, isMentionedFrom_iff hlist, Mentions]
  simp only [helim]

theorem toList_numbered (base : String) (n : Nat) :
    (numbered base n).toList = base.toList ++ '_' :: Nat.toDigits 10 n := by
  simp [numbered, Nat.toList_repr]

theorem numbered_ne (base : String) (n : Nat) : numbered base n ≠ "" := by
  intro hnil
  have := congrArg String.toList hnil
  simp [toList_numbered] at this

theorem numbered_injective (base : String) : Function.Injective (numbered base) := by
  intro m n h
  have hlist := congrArg String.toList h
  rw [toList_numbered, toList_numbered] at hlist
  have hdigits := (List.cons.inj (List.append_cancel_left hlist)).2
  calc
    m = Nat.ofDigitChars 10 (Nat.toDigits 10 m) 0 := Nat.ofDigitChars_ten_toDigits.symm
    _ = Nat.ofDigitChars 10 (Nat.toDigits 10 n) 0 := by rw [hdigits]
    _ = n := Nat.ofDigitChars_ten_toDigits

/-- At one place stands at most one numbered name on a base, as a number would go on with the
digits of a longer one. -/
theorem numbered_unique {base : String} {m n : Nat} {cs : List Char}
    (hm : (numbered base m).toList <+: cs) (hn : (numbered base n).toList <+: cs)
    (hend : (cs.drop (numbered base m).toList.length).head?.any Text.isIdentifierPart = false)
    (hle : (numbered base m).toList.length ≤ (numbered base n).toList.length) : m = n := by
  obtain ⟨more, hmore⟩ := List.prefix_of_prefix_length_le hm hn hle
  cases more with
  | nil =>
      rw [List.append_nil, String.toList_inj] at hmore
      exact numbered_injective base hmore
  | cons d ds =>
      obtain ⟨after, rfl⟩ := hn
      rw [← hmore, List.append_assoc, List.drop_left' rfl] at hend
      rw [toList_numbered, toList_numbered, List.append_assoc, List.append_cancel_left_eq,
        List.cons_append] at hmore
      have hdigit : d ∈ Nat.toDigits 10 n := by
        rw [← (List.cons.inj hmore).2]
        exact List.mem_append_right _ List.mem_cons_self
      have hpart := Text.isIdentifierPart_of_isDigit
        (Nat.isDigit_of_mem_toDigits (by decide) (by decide) hdigit)
      simp [hpart] at hend

/-- A search goes through taken numbers only, and ends at one that is not taken or with its fuel. -/
theorem chooseFrom_spec (isTaken : String → Bool) (base : String) (fuel n : Nat) :
    ∃ m, n ≤ m ∧ m ≤ n + fuel ∧ chooseFrom isTaken base fuel n = numbered base m ∧
      (∀ k, n ≤ k → k < m → isTaken (numbered base k) = true) ∧
      (m < n + fuel → isTaken (numbered base m) = false) := by
  induction fuel generalizing n with
  | zero => exact ⟨n, le_rfl, le_rfl, rfl, fun k h h' => by omega, fun h => by omega⟩
  | succ fuel ih =>
      rw [chooseFrom]
      split
      · rename_i htaken
        obtain ⟨m, hle, hfuel, heq, hbelow, hfree⟩ := ih (n + 1)
        refine ⟨m, by omega, by omega, heq, fun k hk hkm => ?_, fun h => hfree (by omega)⟩
        rcases Nat.eq_or_lt_of_le hk with rfl | hlt
        · exact htaken
        · exact hbelow k hlt hkm
      · rename_i hfree
        exact ⟨n, le_rfl, by omega, rfl, fun k h h' => by omega, fun _ => by simpa using hfree⟩

/-- The numbers taken by the characters of a text are no more than these. -/
theorem card_mentioned_le (base : String) (inWord : Bool) (cs : List Char) (S : Finset Nat) :
    (S.filter fun n => isMentionedFrom (numbered base n).toList inWord cs = true).card ≤
      cs.length := by
  induction cs generalizing inWord with
  | nil => simp [isMentionedFrom]
  | cons c cs ih =>
      simp only [isMentionedFrom, Bool.or_eq_true]
      rw [Finset.filter_or, List.length_cons, Nat.add_comm]
      refine (Finset.card_union_le _ _).trans (Nat.add_le_add ?_ (ih _))
      refine Finset.card_le_one.mpr fun m hm n hn => ?_
      simp only [Finset.mem_filter, Bool.and_eq_true, Bool.not_eq_true',
        List.isPrefixOf_iff_prefix] at hm hn
      obtain ⟨-, ⟨-, hm⟩, hmend⟩ := hm
      obtain ⟨-, ⟨-, hn⟩, hnend⟩ := hn
      rcases Nat.le_total (numbered base m).toList.length (numbered base n).toList.length with
        hle | hle
      · exact numbered_unique hm hn hmend hle
      · exact (numbered_unique hn hm hnend hle).symm

theorem card_used_le (base : String) (used : List String) (S : Finset Nat) :
    (S.filter fun n => numbered base n ∈ used).card ≤ used.length := by
  refine (Finset.card_le_card_of_injOn (numbered base) (fun n hn => ?_)
    (numbered_injective base).injOn).trans (List.toFinset_card_le used)
  simpa using (Finset.mem_filter.mp hn).2

/-- A name is one of a list or stands in a text. -/
def Taken (used : List String) (text name : String) : Prop := name ∈ used ∨ Mentions text name

/-- The numbers up to one more than the characters and list entries are not all taken. -/
theorem exists_not_taken (used : List String) (text base : String) :
    ∃ n, 1 ≤ n ∧ n ≤ used.length + text.length + 1 ∧ ¬ Taken used text (numbered base n) := by
  by_contra hall
  push Not at hall
  let S := Finset.Icc 1 (used.length + text.length + 1)
  have hsub : S ⊆ (S.filter fun n => numbered base n ∈ used) ∪
      S.filter fun n => isMentionedFrom (numbered base n).toList false text.toList = true := by
    intro n hn
    obtain ⟨h1, hle⟩ := Finset.mem_Icc.mp hn
    rw [← Finset.filter_or]
    exact Finset.mem_filter.mpr
      ⟨hn, (hall n h1 hle).imp_right (isMentioned_iff (numbered_ne base n)).mpr⟩
  have hcard := (Finset.card_le_card hsub).trans ((Finset.card_union_le _ _).trans
    (Nat.add_le_add (card_used_le base used S) (card_mentioned_le base false text.toList S)))
  rw [Nat.card_Icc, String.length_toList] at hcard
  omega

/-- A search ends at the first number that is not taken. -/
theorem choose_spec (used : List String) (text base : String) :
    ∃ n, 1 ≤ n ∧ choose used text base = numbered base n ∧ ¬ Taken used text (numbered base n) ∧
      ∀ m, 1 ≤ m → m < n → Taken used text (numbered base m) := by
  have htaken (n : Nat) : (used.contains (numbered base n) || isMentioned (numbered base n) text) =
      true ↔ Taken used text (numbered base n) := by
    rw [Bool.or_eq_true, isMentioned_iff (numbered_ne base n), List.contains_iff_mem, Taken]
  obtain ⟨n, h1, hfuel, heq, hbelow, hfree⟩ := chooseFrom_spec
    (fun name => used.contains name || isMentioned name text) base (used.length + text.length) 1
  have hbelow' (m : Nat) (hm : 1 ≤ m) (hlt : m < n) : Taken used text (numbered base m) :=
    (htaken m).mp (hbelow m hm hlt)
  refine ⟨n, h1, heq, ?_, hbelow'⟩
  rcases Nat.eq_or_lt_of_le hfuel with hlast | hlt
  · obtain ⟨m, hm, hle, hnot⟩ := exists_not_taken used text base
    rcases Nat.eq_or_lt_of_le (show m ≤ n by omega) with rfl | hlt
    · exact hnot
    · exact absurd (hbelow' m hm hlt) hnot
  · intro h
    have := (htaken n).mpr h
    rw [hfree hlt] at this
    cases this

theorem not_mem_numbered {base : String} (h : '\\' ∉ base.toList) (n : Nat) :
    '\\' ∉ (numbered base n).toList := by
  rw [toList_numbered]
  intro hmem
  rcases List.mem_append.mp hmem with hbase | hrest
  · exact h hbase
  · rcases List.mem_cons.mp hrest with hline | hdigit
    · exact absurd hline (by decide)
    · exact absurd (Nat.isDigit_of_mem_toDigits (by decide) (by decide) hdigit) (by decide)

theorem not_mem_ofSpecifier (specifier : String) : '\\' ∉ (ofSpecifier specifier).toList := by
  have hmap (cs : List Char) :
      '\\' ∉ cs.map fun c => if c.isAlphanum || c = '_' then c else '_' := by
    intro hmem
    obtain ⟨c, -, hc⟩ := List.mem_map.mp hmem
    split at hc
    · rename_i hword
      rw [hc] at hword
      exact absurd hword (by decide)
    · exact absurd hc (by decide)
  unfold ofSpecifier
  dsimp only
  split
  · decide
  · rename_i heq
    rw [String.toList_ofList]
    split
    · exact List.not_mem_cons_of_ne_of_not_mem (by decide) (hmap _)
    · exact hmap _

/-- Names made one after the other for a text, last one first. -/
inductive Made (text : String) : List String → Prop where
  | nil : Made text []
  | cons {earlier : List String} {base : String} (hbase : '\\' ∉ base.toList)
      (h : Made text earlier) : Made text (choose earlier text base :: earlier)

theorem Made.of_suffix {text : String} {names later : List String} (h : Made text names)
    (hs : later <:+ names) : Made text later := by
  induction h with
  | nil =>
      rw [List.suffix_nil.mp hs]
      exact .nil
  | cons hbase h ih =>
      rcases List.suffix_cons_iff.mp hs with rfl | hs
      · exact .cons hbase h
      · exact ih hs

/-- The first of the numbered names on a base that is no name made before and no word of a text. -/
structure First (text : String) (earlier : List String) (name : String) : Prop where
  found : ∃ base n, 1 ≤ n ∧ name = numbered base n ∧
    ∀ m, 1 ≤ m → m < n → Taken earlier text (numbered base m)
  new : name ∉ earlier
  unmentioned : ¬ Mentions text name

theorem Made.first {text name : String} {earlier : List String} (h : Made text (name :: earlier)) :
    First text earlier name ∧ '\\' ∉ name.toList := by
  cases h with
  | @cons _ base hbase =>
      obtain ⟨n, hn, heq, hfree, hbelow⟩ := choose_spec earlier text base
      rw [heq]
      exact ⟨⟨⟨base, n, hn, rfl, hbelow⟩, fun hmem => hfree (.inl hmem),
        fun hmentions => hfree (.inr hmentions)⟩, not_mem_numbered hbase n⟩

end FreshName

namespace Linkage

open FreshName

variable {f : SourceFile} {b : Bindings} {uses : ValueUses} {l : Linkage}

theorem made_freshName (h : Made f.text l.fresh) {base : String} (hbase : '\\' ∉ base.toList) :
    Made f.text (l.freshName f base).2.fresh := .cons hbase h

theorem made_addImport (h : Made f.text l.fresh) (node : NodeId) (clause : ImportClause)
    (specifier : StringLiteral) :
    Made f.text (l.addImport f b uses node clause specifier).fresh := by
  unfold addImport
  dsimp only
  split
  · exact h
  · split
    · obtain ⟨_, hreplaced⟩ := l.addReplacements_eq b _ _ _
      rw [hreplaced]
      exact h
    · obtain ⟨_, hreplaced⟩ :=
        (l.freshName f (FreshName.ofSpecifier specifier.value)).2.addReplacements_eq b _ _ _
      rw [hreplaced]
      exact made_freshName h (not_mem_ofSpecifier _)

theorem made_addStatement (h : Made f.text l.fresh) (n : Node) :
    Made f.text (l.addStatement f b uses n).fresh := by
  have hdefault : Made f.text (l.addDefaultName f).fresh := made_freshName h (by decide)
  unfold addStatement
  split
  · exact made_addImport h _ _ _
  · exact made_freshName h (not_mem_ofSpecifier _)
  · split
    · exact hdefault
    · exact h
  · dsimp only
    split
    · exact hdefault
    · exact h
  · exact h

theorem made_ofFile (f : SourceFile) (b : Bindings) (uses : ValueUses) :
    Made f.text (ofFile f b uses).fresh := by
  obtain ⟨_, hlists⟩ := foldl_addExport_eq b (f.statements.foldl (addStatement f b uses) {})
    (f.statements.flatMap Node.listedExports)
  rw [ofFile_eq, hlists]
  exact List.foldlRecOn (motive := fun k : Linkage => Made f.text k.fresh) f.statements _ .nil
    fun k hk n _ => made_addStatement hk n

end Linkage

namespace Scanner

/-- A token that is no private name and has no escapes was read as a name. -/
theorem scanName_plain {s : Scanner} (hk : s.scanName.token ≠ .unknown)
    (hflag : s.scanName.flags.unicodeEscape = false) :
    s.readName.2.chars ≠ [] ∧ s.readName.2.escaped = false ∧
      s.scanName.value = s.readName.1.text := by
  unfold scanName at hk hflag ⊢
  dsimp only at hk hflag ⊢
  split
  · rename_i hempty
    rw [if_pos hempty] at hk
    exact absurd rfl hk
  · rename_i hchars
    rw [if_neg hchars] at hflag
    split
    · rename_i hescaped
      rw [if_pos hescaped] at hflag
      exact absurd hflag Bool.noConfusion
    · rename_i hplain
      exact ⟨by simpa using hchars, by simpa using hplain, rfl⟩

/-- Without lexical errors, the character before a name without escapes is no part of one. -/
theorem Reaches.before_name {source : String} {kept : List Scanner} {s : Scanner}
    (h : Reaches source kept s) (he : s.errorsRev = []) {x : Char}
    (hx : s.tokenStart.rest.head? = some x) (hstart : Text.isIdentifierStart x = true) :
    s.tokenStart.before.head?.any Text.isIdentifierPart = false := by
  refine Bool.eq_false_iff.mpr fun hbefore => ?_
  rw [(h.apart he).1 hbefore x hx] at hstart
  cases hstart

/-- A name without escapes stands in the text as a word, unless reading it passed over a backslash,
or a lexical error was found and the name directly follows a part of another one. -/
theorem Reaches.mentions {source : String} {kept : List Scanner} {s : Scanner}
    (h : Reaches source kept s) (hk : s.token.isIdentifierOrKeyword = true)
    (hflag : s.flags.unicodeEscape = false)
    (hbefore : s.errorsRev = [] ∨ s.tokenStart.before.head?.any Text.isIdentifierPart = false) :
    '\\' ∈ s.value.toList ∨ FreshName.Mentions source s.value := by
  have hname : s.token.isName = true := by rw [TokenKind.isName, hk, Bool.true_or]
  obtain ⟨b, rfl, hsound, hstart, ⟨-, rfl⟩ | rfl⟩ := h.named hname
  · rcases token_scanPrivateName b with heq | heq
    · exact absurd heq (TokenKind.ne_of_isName hname).2
    · rw [heq] at hk
      exact absurd hk (by decide)
  · obtain ⟨hchars, hplain, hvalue⟩ := scanName_plain (TokenKind.ne_of_isName hname).2 hflag
    have hplace : b.scanName.tokenStart = b.cursor := by
      rw [(scanName_frame b).2.2.1, (readName_frame b).2, hstart]
    have htext {n : Nat} (hn : b.readName.1.cursor = b.cursor.advance n) :
        b.scanName.value.toList = b.cursor.rest.take n := by
      rw [hvalue, text_readName (hstart ▸ hsound) (hstart ▸ hn), hstart, String.toList_ofList]
    rcases readName_plain hplain hchars with ⟨n, hread, hcursor, hstop⟩ | ⟨-, m, hcursor, hmem⟩
    · right
      have hword := isIdentifier_readName hchars
      have hfront : b.scanName.tokenStart.before.head?.any Text.isIdentifierPart = false := by
        refine hbefore.elim (fun he => ?_) id
        rw [hread] at hword
        cases hrest : b.cursor.rest.take n with
        | nil =>
            rw [hrest] at hword
            exact absurd hword (by decide)
        | cons x xs =>
            rw [hrest, ScannedName.isIdentifier_ofList, Bool.and_eq_true] at hword
            refine h.before_name he (x := x) ?_ hword.1
            rw [hplace, ← List.take_append_drop n b.cursor.rest, hrest]
            rfl
      refine ⟨b.cursor.before.reverse, b.cursor.rest.drop n, ?_, ?_, ?_⟩
      · rw [htext hcursor, List.append_assoc, List.take_append_drop, hsound.split]
      · rw [List.getLast?_reverse, ← hplace]
        exact hfront
      · have hlength : b.cursor.rest.length ≤ b.remaining := Placed.length_le fun _ => hsound
        have hend := hstop hlength
        rw [hcursor, Cursor.rest_advance] at hend
        cases hhead : (b.cursor.rest.drop n).head? with
        | none => rfl
        | some c => exact hend c hhead
    · left
      rw [htext hcursor]
      exact hmem

end Scanner

/-- Each name that is made for a module is the first of its kind: the search for it ends, it is no
name that was made before, and it is no word of the text. So it is no identifier or keyword of the
text either, unless one that is written with escapes or, behind a lexical error, one that directly
follows a part of another name. -/
theorem made_name_differs {f : SourceFile} {b : Bindings} {uses : ValueUses} {name : String}
    {earlier : List String} (h : name :: earlier <:+ (Linkage.ofFile f b uses).fresh) :
    FreshName.First f.text earlier name ∧
      ∀ kept s, Scanner.Reaches f.text kept s → s.token.isIdentifierOrKeyword = true →
        s.flags.unicodeEscape = false →
        (s.errors = [] ∨ s.tokenStart.before.head?.any Text.isIdentifierPart = false) →
        s.value ≠ name := by
  obtain ⟨hfirst, hplain⟩ := ((Linkage.made_ofFile f b uses).of_suffix h).first
  refine ⟨hfirst, fun kept s hs hk hflag hbefore heq => ?_⟩
  subst heq
  rcases hs.mentions hk hflag (hbefore.imp_left List.reverse_eq_nil_iff.mp) with
    hback | hmentions
  · exact hplain hback
  · exact hfirst.unmentioned hmentions

/-- A module that requires another one and has a variable with the name made first. -/
def numberedVariable : SourceFile := (parseSource "input.ts" "export \x7b\x7d from \"a\";a_1").1

/-- The name of the module required passes over that of the variable. -/
theorem numberedVariable_name_differs :
    let fresh := (Linkage.ofFile numberedVariable numberedVariable.bind
      (.ofFile numberedVariable numberedVariable.bind)).fresh
    let s := (TokenStream.next^[7] (.ofString numberedVariable.text)).scanner
    fresh = ["a_2"] ∧ FreshName.First numberedVariable.text [] "a_2" ∧
      s.value = "a_1" ∧ s.value ≠ "a_2" := by
  intro fresh s
  have hfile : fresh = ["a_2"] ∧ s.value = "a_1" ∧ s.token.isIdentifierOrKeyword = true ∧
      s.flags.unicodeEscape = false ∧ s.errors = [] := by
    decide +kernel
  obtain ⟨hfresh, hvalue, hk, hflag, herrors⟩ := hfile
  have hsuffix : "a_2" :: [] <:+ fresh := hfresh ▸ List.suffix_rfl
  obtain ⟨hfirst, hdiffers⟩ := made_name_differs hsuffix
  exact ⟨hfresh, hfirst, hvalue,
    hdiffers [] s (TokenStream.reaches_iterate numberedVariable.text 7) hk hflag (.inl herrors)⟩

/-- A module with a variable whose name is written with an escape. -/
def escapedVariable : String := "import\x7bx\x7dfrom\"a\";let \\u0061_1;x"

/-- The name of the variable is made for the import, and the output declares it twice. -/
theorem escapedVariable_name_clashes :
    let f := (parseSource "input.ts" escapedVariable).1
    let s := (TokenStream.next^[9] (.ofString escapedVariable)).scanner
    (Linkage.ofFile f f.bind (.ofFile f f.bind)).fresh = ["a_1"] ∧
      Scanner.Reaches escapedVariable [] s ∧ s.token = .identifier ∧ s.value = "a_1" ∧
      (compileWith { moduleKind := .commonJS } "input.ts" escapedVariable).output? =
        some ("\"use strict\";\n" ++
          "Object.defineProperty(exports, \"__esModule\", \x7b value: true \x7d);\n" ++
          "const a_1 = require(\"a\");\nlet \\u0061_1;\na_1.x;\n") := by
  intro f s
  have hfile : (Linkage.ofFile f f.bind (.ofFile f f.bind)).fresh = ["a_1"] ∧
      s.token = .identifier ∧ s.value = "a_1" ∧
        (compileWith { moduleKind := .commonJS } "input.ts" escapedVariable).output? =
          some ("\"use strict\";\n" ++
            "Object.defineProperty(exports, \"__esModule\", \x7b value: true \x7d);\n" ++
            "const a_1 = require(\"a\");\nlet \\u0061_1;\na_1.x;\n") := by
    decide +kernel
  exact ⟨hfile.1, TokenStream.reaches_iterate escapedVariable 9, hfile.2⟩

end Erasure

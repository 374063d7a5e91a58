import Erasure.Proofs.Text.Lines
import Erasure.Proofs.Token.Place
import Erasure.Syntax.Precedence

/-!
Lines of names and binary operators, and the tokens that the scanner finds in them. An operator
that starts with `>` is found in pieces, unless it is read anew.
-/

namespace Erasure

/-- A name that is no keyword. -/
structure Word where
  text : String
  isIdentifier : Text.isIdentifier text = true
  not_keyword : TokenKind.ofKeyword? text = none

/-- A binary operator; assertions about types are none. -/
structure Operator where
  kind : TokenKind
  isBinary : (Precedence.ofBinary? kind).isSome = true
  ne_as : kind ≠ .asKw
  ne_satisfies : kind ≠ .satisfiesKw

/-- Operators, each with the name behind it. -/
abbrev Operations := List (Operator × Word)

/-- The text of operations, with a space on both sides of every operator. -/
def Operations.chars : Operations → List Char
  | [] => []
  | (o, w) :: rest => ' ' :: o.kind.text.toList ++ (' ' :: w.text.toList ++ chars rest)

structure Line where
  first : Word
  rest : Operations

def Line.text (l : Line) : String := String.ofList (l.first.text.toList ++ l.rest.chars)

namespace TokenKind

/-- The first token of an operator, before it is read anew. -/
def first : TokenKind → TokenKind
  | greaterEquals | shiftRight | shiftRightUnsigned => greaterThan
  | k => k

/-- The tokens behind the first one of an operator. -/
def more : TokenKind → List TokenKind
  | greaterEquals => [equals]
  | shiftRight => [greaterThan]
  | shiftRightUnsigned => [greaterThan, greaterThan]
  | _ => []

/-- The characters of these tokens. -/
def moreChars : TokenKind → List Char
  | greaterEquals => ['=']
  | shiftRight => ['>']
  | shiftRightUnsigned => ['>', '>']
  | _ => []

end TokenKind

/-- The tokens of operations, with the end of the file behind them. -/
def Operations.tokens : Operations → List TokenKind
  | [] => [.endOfFile]
  | (o, _) :: rest => o.kind.first :: (o.kind.more ++ .identifier :: tokens rest)

/-- Operators that are signs and do not start with `>`. -/
def TokenKind.signs : List TokenKind :=
  [questionQuestion, barBar, ampersandAmpersand, bar, caret, ampersand, equalsEquals, notEquals,
   strictEquals, strictNotEquals, lessThan, lessEquals, shiftLeft, plus, minus, asterisk, slash,
   percent, power]

theorem Operator.kind_mem (o : Operator) : o.kind ∈ TokenKind.signs ∨ o.kind = .inKw ∨
    o.kind = .instanceofKw ∨ o.kind = .greaterThan ∨ o.kind = .greaterEquals ∨
    o.kind = .shiftRight ∨ o.kind = .shiftRightUnsigned := by
  obtain ⟨k, hbinary, has, hsatisfies⟩ := o
  revert hbinary has hsatisfies
  cases k <;> decide

namespace ScannedName

/-- Names end at a space or at the end of the text. -/
def Ends (cs : List Char) : Prop := cs = [] ∨ ∃ ds, cs = ' ' :: ds

/-- Behind its first character a name is read to its end. -/
theorem read_rest (fuel : Nat) {c : Cursor} {chars word cs : List Char}
    (hr : c.rest = word ++ cs) (hend : Ends cs) (hword : word.all Text.isIdentifierPart = true)
    (hchars : chars ≠ []) (hfuel : word.length < fuel) :
    read fuel { cursor := c, chars } =
      { cursor := c.advance word.length, chars := word.reverse ++ chars } := by
  induction word generalizing fuel c chars with
  | nil =>
      obtain ⟨fuel, rfl⟩ : ∃ n, fuel = n + 1 := ⟨fuel - 1, by omega⟩
      rcases hend with rfl | ⟨ds, rfl⟩
      · simp [read, hr, Cursor.advance]
      · have hsome : chars.isEmpty = false := by simpa using hchars
        have hpart : Text.isIdentifierPart ' ' = false := by decide
        simp [read, hr, accepts, hsome, hpart, Cursor.advance]
  | cons x xs ih =>
      obtain ⟨fuel, rfl⟩ : ∃ n, fuel = n + 1 := ⟨fuel - 1, by omega⟩
      obtain ⟨hx, hxs⟩ := Bool.and_eq_true_iff.mp (List.all_cons ▸ hword)
      have hne : x ≠ '\\' := by
        rintro rfl
        exact absurd hx (by decide)
      have hsome : chars.isEmpty = false := by simpa using hchars
      have hnext : c.next.rest = xs ++ cs := by rw [Cursor.rest_next, hr]; rfl
      have hrest := ih fuel hnext hxs (List.cons_ne_nil x chars)
        (by simpa using hfuel)
      rw [read, hr]
      simp only [List.cons_append, hne, if_false, accepts, hsome, hx, if_true, Bool.false_eq_true]
      rw [hrest]
      simp [Cursor.advance]

theorem read_identifier (fuel : Nat) {c : Cursor} {text : String} {cs : List Char}
    (h : Text.isIdentifier text = true) (hr : c.rest = text.toList ++ cs) (hend : Ends cs)
    (hfuel : text.toList.length < fuel) :
    read fuel { cursor := c } =
      { cursor := c.advance text.toList.length, chars := text.toList.reverse } := by
  unfold Text.isIdentifier at h
  split at h
  · cases h
  · rename_i x xs htext
    obtain ⟨hx, hxs⟩ := Bool.and_eq_true_iff.mp h
    rw [htext] at hr hfuel ⊢
    obtain ⟨fuel, rfl⟩ : ∃ n, fuel = n + 1 := ⟨fuel - 1, by omega⟩
    have hne : x ≠ '\\' := by
      rintro rfl
      exact absurd hx (by decide)
    have hnext : c.next.rest = xs ++ cs := by rw [Cursor.rest_next, hr]; rfl
    have hrest := read_rest fuel hnext hend hxs (List.cons_ne_nil x [])
      (by simpa using hfuel)
    rw [read, hr]
    simp only [List.cons_append, hne, if_false, accepts, List.isEmpty_nil, hx, if_true]
    rw [hrest]
    simp [Cursor.advance]

end ScannedName

namespace Scanner

/-- The scanner reads on from some characters. -/
structure Reads (cs : List Char) (s : Scanner) : Prop where
  sound : s.cursor.Sound s.source
  rest : s.cursor.rest = cs

theorem Reads.length_le {cs : List Char} {s : Scanner} (h : s.Reads cs) :
    cs.length ≤ s.remaining :=
  h.rest ▸ Placed.length_le fun _ => h.sound

/-- A character that is passed over by no rule for blanks and comments. -/
def startsToken (c : Char) (cs : List Char) : Prop :=
  Text.isLineBreak c = false ∧ Text.isInlineBlank c = false ∧ c ≠ '#' ∧
    (c = '/' → cs.head? ≠ some '/' ∧ cs.head? ≠ some '*')

theorem skipTrivia_of_startsToken {fuel : Nat} {s : Scanner} {c : Char} {cs : List Char}
    (hr : s.cursor.rest = c :: cs) (h : startsToken c cs) : skipTrivia fuel s = s := by
  cases fuel with
  | zero => rfl
  | succ fuel =>
      obtain ⟨hbreak, hblank, hhash, hslash⟩ := h
      have hline : (decide (c = '/') && decide (cs.head? = some '/')) = false := by
        simpa using fun hc => (hslash hc).1
      have hblock : (decide (c = '/') && decide (cs.head? = some '*')) = false := by
        simpa using fun hc => (hslash hc).2
      rw [skipTrivia, hr]
      simp [hbreak, hblank, hhash, hline, hblock]

/-- The scanner on the first character of a token, behind a number of characters. -/
def onToken (s : Scanner) (n : Nat) : Scanner :=
  { s with
    fullStart := s.stop, flags := {}, value := "", cursor := s.cursor.advance n
    tokenStart := s.cursor.advance n }

theorem scan_start {s : Scanner} {c : Char} {cs : List Char} (hr : s.cursor.rest = c :: cs)
    (h : startsToken c cs) : s.scan = scanToken (s.onToken 0) c := by
  have hbefore : s.beforeToken = { s with fullStart := s.stop, flags := {}, value := "" } :=
    skipTrivia_of_startsToken hr h
  rw [scan_eq, hbefore, hr]
  rfl

theorem scan_blank {s : Scanner} {c : Char} {cs : List Char} (hr : s.cursor.rest = ' ' :: c :: cs)
    (h : startsToken c cs) : s.scan = scanToken (s.onToken 1) c := by
  have hrest : (s.cursor.advance 1).rest = c :: cs := by rw [Cursor.rest_advance, hr]; rfl
  have hbefore : s.beforeToken =
      { s with fullStart := s.stop, flags := {}, value := "", cursor := s.cursor.advance 1 } := by
    rw [beforeToken, skipTrivia, hr]
    exact skipTrivia_of_startsToken hrest h
  rw [scan_eq, hbefore, hrest]
  rfl

theorem Reads.onToken {s : Scanner} {n : Nat} {cs : List Char} (h : s.Reads cs) :
    (s.onToken n).Reads (cs.drop n) :=
  ⟨h.sound.advance n, by rw [← h.rest]; exact Cursor.rest_advance s.cursor n⟩

theorem text_onToken {s : Scanner} {cs : List Char} {n : Nat} (h : (s.onToken n).Reads cs)
    (m : Nat) : ((s.onToken n).advance m).text = String.ofList (cs.take m) := by
  have hslice := h.sound.slice_advance m
  rw [h.rest] at hslice
  exact hslice

/-- A name is read with its text, and is a keyword if its text is one. -/
theorem scanName_onToken {s : Scanner} {text : String} {cs : List Char} {n : Nat}
    (htext : Text.isIdentifier text = true) (hend : ScannedName.Ends cs)
    (h : (s.onToken n).Reads (text.toList ++ cs)) :
    (s.onToken n).scanName = ((s.onToken n).advance text.toList.length).finish
      ((TokenKind.ofKeyword? text).getD .identifier) := by
  have hlength := h.length_le
  rw [List.length_append] at hlength
  have hread := ScannedName.read_identifier ((s.onToken n).remaining + 1) htext h.rest hend
    (by omega)
  have hname : ((s.onToken n).advance text.toList.length).text = text := by
    rw [text_onToken h, List.take_left' rfl, String.ofList_toList]
  have hchars : text.toList.reverse.isEmpty = false := by
    unfold Text.isIdentifier at htext
    split at htext
    · cases htext
    · rename_i heq
      rw [heq]
      simp
  rw [scanName, readName, hread]
  simp only [hchars]
  show ((s.onToken n).advance text.toList.length).finish ((TokenKind.ofKeyword?
    ((s.onToken n).advance text.toList.length).text).getD .identifier) = _
  rw [hname]

theorem scanToken_name {s : Scanner} {c : Char} (h : Text.isIdentifierStart c = true) :
    s.scanToken c = s.scanName := by
  have hne (d : Char) (hd : Text.isIdentifierStart d = false) : c ≠ d := by
    rintro rfl
    rw [h] at hd
    cases hd
  have hdigit : Text.isAsciiDigit c = false := by
    by_contra hd
    rw [Bool.not_eq_false] at hd
    rw [Text.isIdentifierStart_of_isAsciiDigit hd] at h
    cases h
  simp [scanToken, hne '"' (by decide), hne '\'' (by decide), hne '\x60' (by decide), hdigit,
    hne '.' (by decide), hne '#' (by decide), h]

theorem startsToken_of_isIdentifierStart {c : Char} {cs : List Char}
    (h : Text.isIdentifierStart c = true) : startsToken c cs := by
  have hfalse {b : Bool} (hb : b = true → Text.isIdentifierStart c = false) : b = false := by
    by_contra hne
    rw [Bool.not_eq_false] at hne
    rw [hb hne] at h
    cases h
  refine ⟨hfalse Text.isIdentifierStart_of_isLineBreak,
    hfalse Text.isIdentifierStart_of_isInlineBlank, ?_, ?_⟩
  · rintro rfl
    exact absurd h (by decide)
  · rintro rfl
    exact absurd h (by decide)

/-- The scanner stands on a token, on the line of the one before, and reads on from some
characters. -/
structure Finds (k : TokenKind) (cs : List Char) (s : Scanner) : Prop where
  token : s.token = k
  line : s.flags.precedingLineBreak = false
  reads : s.Reads cs

theorem Reads.finds {s : Scanner} {n : Nat} {cs : List Char} (h : (s.onToken n).Reads cs)
    (m : Nat) (k : TokenKind) : (((s.onToken n).advance m).finish k).Finds k (cs.drop m) :=
  ⟨rfl, rfl, h.sound.advance m, by rw [← h.rest]; exact Cursor.rest_advance _ m⟩

/-- The name that a scanner finds behind a number of characters. -/
theorem finds_name {s : Scanner} {text : String} {cs : List Char} {n : Nat}
    (htext : Text.isIdentifier text = true) (hend : ScannedName.Ends cs)
    (h : (s.onToken n).Reads (text.toList ++ cs))
    (hscan : ∀ c ds, text.toList ++ cs = c :: ds → startsToken c ds →
      s.scan = scanToken (s.onToken n) c) :
    s.scan.Finds ((TokenKind.ofKeyword? text).getD .identifier) cs ∧ s.scan.value = text := by
  have hname := scanName_onToken htext hend h
  have hvalue : ((s.onToken n).advance text.toList.length).text = text := by
    rw [text_onToken h, List.take_left' rfl, String.ofList_toList]
  have hscan : s.scan = (s.onToken n).scanName := by
    unfold Text.isIdentifier at htext
    split at htext
    · cases htext
    · rename_i c ds heq
      have hc := (Bool.and_eq_true_iff.mp htext).1
      rw [hscan c (ds ++ cs) (by rw [heq]; rfl) (startsToken_of_isIdentifierStart hc)]
      exact scanToken_name hc
  rw [hscan, hname]
  refine ⟨?_, hvalue⟩
  have hfinds := h.finds text.toList.length ((TokenKind.ofKeyword? text).getD .identifier)
  rwa [List.drop_left' rfl] at hfinds

theorem finds_name_blank {s : Scanner} {text : String} {cs : List Char}
    (htext : Text.isIdentifier text = true) (hend : ScannedName.Ends cs)
    (h : s.Reads (' ' :: (text.toList ++ cs))) :
    s.scan.Finds ((TokenKind.ofKeyword? text).getD .identifier) cs ∧ s.scan.value = text :=
  finds_name htext hend (h.onToken (n := 1)) fun _ _ hcs hc => scan_blank (by rw [h.rest, hcs]) hc

theorem finds_name_start {s : Scanner} {text : String} {cs : List Char}
    (htext : Text.isIdentifier text = true) (hend : ScannedName.Ends cs)
    (h : s.Reads (text.toList ++ cs)) :
    s.scan.Finds ((TokenKind.ofKeyword? text).getD .identifier) cs ∧ s.scan.value = text :=
  finds_name htext hend (h.onToken (n := 0)) fun _ _ hcs hc => scan_start (by rw [h.rest, hcs]) hc

theorem scan_end {s : Scanner} (h : s.cursor.rest = []) :
    s.scan = { s with
      fullStart := s.stop, flags := {}, value := "", tokenStart := s.cursor
      token := .endOfFile } := by
  have hbefore : s.beforeToken = { s with fullStart := s.stop, flags := {}, value := "" } := by
    rw [beforeToken, skipTrivia, h]
  rw [scan_eq, hbefore, h]

theorem finds_end {s : Scanner} (h : s.Reads []) : s.scan.Finds .endOfFile [] := by
  rw [scan_end h.rest]
  exact ⟨rfl, rfl, h.sound, h.rest⟩

/-- Characters that only start punctuators. -/
def isSign (c : Char) : Bool :=
  !(c = '"' || c = '\'' || c = '\x60' || Text.isAsciiDigit c || c = '.' || c = '#' || c = '\\' ||
    Text.isIdentifierStart c || Text.isLineBreak c || Text.isInlineBlank c)

theorem scanToken_sign {s : Scanner} {c : Char} (hc : isSign c = true) {k : TokenKind} {m : Nat}
    (hp : TokenKind.punctuator? s.cursor.rest = some (k, m)) :
    s.scanToken c = (s.advance m).finish k := by
  simp only [isSign, Bool.not_eq_true', Bool.or_eq_false_iff, decide_eq_false_iff_not] at hc
  simp [scanToken, hc, hp]

theorem finds_sign {s : Scanner} {c : Char} {cs : List Char} {n m : Nat} {k : TokenKind}
    (hc : isSign c = true) (hscan : s.scan = scanToken (s.onToken n) c)
    (h : (s.onToken n).Reads (c :: cs)) (hp : TokenKind.punctuator? (c :: cs) = some (k, m)) :
    s.scan.Finds k ((c :: cs).drop m) := by
  rw [hscan, scanToken_sign hc (by rw [h.rest]; exact hp)]
  exact h.finds m k

theorem startsToken_of_isSign {c : Char} {cs : List Char} (hc : isSign c = true)
    (hslash : c = '/' → cs.head? ≠ some '/' ∧ cs.head? ≠ some '*') : startsToken c cs := by
  simp only [isSign, Bool.not_eq_true', Bool.or_eq_false_iff, decide_eq_false_iff_not] at hc
  exact ⟨hc.1.2, hc.2, hc.1.1.1.1.2, hslash⟩

theorem signs_table : (TokenKind.signs.all fun k =>
    match k.text.toList with
    | c :: ds => isSign c && (c != '/' || ds.isEmpty)
    | [] => false) = true := by
  decide

theorem punctuator?_signs (cs : List Char) : ∀ k ∈ TokenKind.signs,
    TokenKind.punctuator? (k.text.toList ++ ' ' :: cs) = some (k, k.text.toList.length) :=
  List.map_inj_left.mp (by rfl)

theorem finds_signs {s : Scanner} {k : TokenKind} (hk : k ∈ TokenKind.signs) {cs : List Char}
    (h : s.Reads (' ' :: (k.text.toList ++ ' ' :: cs))) : s.scan.Finds k (' ' :: cs) := by
  have htable := List.all_eq_true.mp signs_table k hk
  have hp := punctuator?_signs cs k hk
  have hreads := h.onToken (n := 1)
  rw [List.drop_succ_cons, List.drop_zero] at hreads
  split at htable
  · rename_i c ds htext
    obtain ⟨hc, hslash⟩ := Bool.and_eq_true_iff.mp htable
    rw [htext] at h hp hreads
    have hstart : startsToken c (ds ++ ' ' :: cs) := by
      refine startsToken_of_isSign hc fun heq => ?_
      rw [heq] at hslash
      have hnil : ds = [] := by simpa using hslash
      rw [hnil]
      exact ⟨by simp, by simp⟩
    have hfinds : s.scan.Finds k (((c :: ds) ++ ' ' :: cs).drop (c :: ds).length) :=
      finds_sign hc (scan_blank h.rest hstart) hreads hp
    rwa [List.drop_left' rfl] at hfinds
  · cases htable

/-- What starts with `>` is found as this sign. -/
theorem finds_greater {s : Scanner} {cs : List Char} {n : Nat}
    (h : (s.onToken n).Reads ('>' :: cs)) (hscan : startsToken '>' cs →
      s.scan = scanToken (s.onToken n) '>') : s.scan.Finds .greaterThan cs :=
  finds_sign (by decide)
    (hscan (startsToken_of_isSign (by decide) fun heq => absurd heq (by decide)))
    h (by rfl)

theorem finds_operator {s : Scanner} (o : Operator) {cs : List Char}
    (h : s.Reads (' ' :: (o.kind.text.toList ++ ' ' :: cs))) :
    s.scan.Finds o.kind.first (o.kind.moreChars ++ ' ' :: cs) := by
  have keyword (text : String) {k : TokenKind} (htext : Text.isIdentifier text = true)
      (hk : TokenKind.ofKeyword? text = some k) (h : s.Reads (' ' :: (text.toList ++ ' ' :: cs))) :
      s.scan.Finds k (' ' :: cs) := by
    have hfinds := (finds_name_blank htext (.inr ⟨cs, rfl⟩) h).1
    rwa [hk] at hfinds
  have greater {ds : List Char} (h : s.Reads (' ' :: '>' :: ds)) :
      s.scan.Finds .greaterThan ds :=
    finds_greater (h.onToken (n := 1)) fun hstart => scan_blank h.rest hstart
  rcases o.kind_mem with hk | hk | hk | hk | hk | hk | hk
  · have table : ∀ k ∈ TokenKind.signs, k.first = k ∧ k.moreChars = [] := by decide
    obtain ⟨hfirst, hmore⟩ := table _ hk
    rw [hfirst, hmore]
    exact finds_signs hk h
  · rw [hk] at h ⊢
    exact keyword "in" (by decide) (by decide) h
  · rw [hk] at h ⊢
    exact keyword "instanceof" (by decide) (by decide) h
  all_goals
    rw [hk] at h ⊢
    exact greater h

/-- An operator that starts with `>` is joined when it is read anew, and others stay as they are. -/
theorem Finds.rescanGreater {s : Scanner} {o : Operator} {cs : List Char}
    (h : s.Finds o.kind.first (o.kind.moreChars ++ ' ' :: cs)) :
    s.rescanGreater.Finds o.kind (' ' :: cs) := by
  have other (hne : o.kind.first ≠ .greaterThan) (hfirst : o.kind.first = o.kind)
      (hmore : o.kind.moreChars = []) : s.rescanGreater.Finds o.kind (' ' :: cs) := by
    rw [Scanner.rescanGreater, h.token, if_neg hne]
    rwa [hfirst, hmore] at h
  have joined (more : List Char) (hfirst : o.kind.first = .greaterThan)
      (hmore : o.kind.moreChars = more)
      (hfind : (greaterOperators.find? fun p => p.1.isPrefixOf (more ++ ' ' :: cs)) =
        some (more, o.kind)) : s.rescanGreater.Finds o.kind (' ' :: cs) := by
    rw [Scanner.rescanGreater, h.token, if_pos hfirst, h.reads.rest, hmore, hfind]
    refine ⟨rfl, h.line, h.reads.sound.advance _, ?_⟩
    show (s.cursor.advance more.length).rest = _
    rw [Cursor.rest_advance, h.reads.rest, hmore, List.drop_left' rfl]
  rcases o.kind_mem with hk | hk | hk | hk | hk | hk | hk
  · have table : ∀ k ∈ TokenKind.signs,
        k.first ≠ .greaterThan ∧ k.first = k ∧ k.moreChars = [] := by decide
    obtain ⟨hne, hfirst, hmore⟩ := table _ hk
    exact other hne hfirst hmore
  · exact other (by rw [hk]; decide) (by rw [hk]; rfl) (by rw [hk]; rfl)
  · exact other (by rw [hk]; decide) (by rw [hk]; rfl) (by rw [hk]; rfl)
  · rw [hk] at h ⊢
    have hfirst : TokenKind.greaterThan.first = .greaterThan := rfl
    rw [Scanner.rescanGreater, h.token, if_pos hfirst, h.reads.rest]
    exact h
  · exact joined ['='] (by rw [hk]; rfl) (by rw [hk]; rfl) (by rw [hk]; rfl)
  · exact joined ['>'] (by rw [hk]; rfl) (by rw [hk]; rfl) (by rw [hk]; rfl)
  · exact joined ['>', '>'] (by rw [hk]; rfl) (by rw [hk]; rfl) (by rw [hk]; rfl)

/-- The scanner stands on a name with operations behind it. -/
structure OnWord (w : Word) (rest : Operations) (s : Scanner) : Prop where
  finds : s.Finds .identifier rest.chars
  value : s.value = w.text

/-- The scanner stands behind a name, on the first token of the operations that follow. -/
def Behind : Operations → Scanner → Prop
  | [], s => s.Finds .endOfFile []
  | (o, w) :: rest, s =>
      s.Finds o.kind.first (o.kind.moreChars ++ ' ' :: (w.text.toList ++ Operations.chars rest))

theorem ends_chars (rest : Operations) : ScannedName.Ends rest.chars := by
  cases rest with
  | nil => exact .inl rfl
  | cons p rest => exact .inr ⟨_, rfl⟩

theorem onWord_blank {s : Scanner} {w : Word} {rest : Operations}
    (h : s.Reads (' ' :: (w.text.toList ++ rest.chars))) : OnWord w rest s.scan := by
  obtain ⟨hfinds, hvalue⟩ := finds_name_blank w.isIdentifier (ends_chars rest) h
  rw [w.not_keyword] at hfinds
  exact ⟨hfinds, hvalue⟩

theorem onWord_start {s : Scanner} {w : Word} {rest : Operations}
    (h : s.Reads (w.text.toList ++ rest.chars)) : OnWord w rest s.scan := by
  obtain ⟨hfinds, hvalue⟩ := finds_name_start w.isIdentifier (ends_chars rest) h
  rw [w.not_keyword] at hfinds
  exact ⟨hfinds, hvalue⟩

theorem OnWord.scan {s : Scanner} {w : Word} {rest : Operations} (h : s.OnWord w rest) :
    s.scan.Behind rest := by
  cases rest with
  | nil => exact finds_end h.finds.reads
  | cons p rest => exact finds_operator p.1 h.finds.reads

/-- The operator is found when it is read anew, and the name after it comes next. -/
theorem Behind.rescanGreater {s : Scanner} {o : Operator} {w : Word} {rest : Operations}
    (h : s.Behind ((o, w) :: rest)) :
    s.rescanGreater.Finds o.kind (' ' :: (w.text.toList ++ rest.chars)) :=
  Finds.rescanGreater h

theorem Behind.next {s : Scanner} {o : Operator} {w : Word} {rest : Operations}
    (h : s.Behind ((o, w) :: rest)) : s.rescanGreater.scan.OnWord w rest :=
  onWord_blank h.rescanGreater.reads

/-- The tokens that the scanner finds one after the other, all on one line, unless one is read
anew. -/
def Yields : List TokenKind → Scanner → Prop
  | [], _ => True
  | k :: ks, s =>
      s.token = k ∧ s.flags.precedingLineBreak = false ∧ ks.length ≤ s.remaining + 1 ∧
        s.scan.Yields ks

theorem Finds.yields {s : Scanner} {k : TokenKind} {cs : List Char} {ks : List TokenKind}
    (h : s.Finds k cs) (hlength : ks.length ≤ cs.length + 1) (hs : s.scan.Yields ks) :
    s.Yields (k :: ks) :=
  ⟨h.token, h.line, hlength.trans (Nat.succ_le_succ h.reads.length_le), hs⟩

theorem length_more_le (o : Operator) : o.kind.more.length ≤ o.kind.text.toList.length := by
  rcases o.kind_mem with hk | hk | hk | hk | hk | hk | hk
  · have table : ∀ k ∈ TokenKind.signs, k.more = [] := by decide
    rw [table _ hk]
    exact Nat.zero_le _
  all_goals
    rw [hk]
    decide

theorem length_tokens_le (rest : Operations) : rest.tokens.length ≤ rest.chars.length + 1 := by
  induction rest with
  | nil => exact Nat.le_refl 1
  | cons p rest ih =>
      have hmore := length_more_le p.1
      simp only [Operations.tokens, Operations.chars, List.length_cons, List.length_append]
      omega

theorem finds_equals {s : Scanner} {cs : List Char} (h : s.Reads ('=' :: ' ' :: cs)) :
    s.scan.Finds .equals (' ' :: cs) := by
  have hstart : startsToken '=' (' ' :: cs) :=
    startsToken_of_isSign (by decide) fun heq => absurd heq (by decide)
  exact finds_sign (by decide) (scan_start h.rest hstart) (h.onToken (n := 0)) (by rfl)

/-- The tokens of an operator from one of its pieces on. -/
theorem Finds.yields_more {s : Scanner} {k : TokenKind} {o : Operator} {w : Word}
    {rest : Operations}
    (h : s.Finds k (o.kind.moreChars ++ ' ' :: (w.text.toList ++ rest.chars)))
    (hw : ∀ t : Scanner, t.OnWord w rest → t.Yields (.identifier :: rest.tokens)) :
    s.Yields (k :: (o.kind.more ++ .identifier :: rest.tokens)) := by
  have bound (ks : List TokenKind) (cs : List Char) (hks : ks.length ≤ cs.length) :
      (ks ++ .identifier :: rest.tokens).length ≤
        (cs ++ ' ' :: (w.text.toList ++ rest.chars)).length + 1 := by
    have hrest := length_tokens_le rest
    simp only [List.length_cons, List.length_append]
    omega
  have last {s : Scanner} {k : TokenKind}
      (h : s.Finds k (' ' :: (w.text.toList ++ rest.chars))) :
      s.Yields (k :: .identifier :: rest.tokens) :=
    h.yields (bound [] [] (Nat.le_refl 0)) (hw _ (onWord_blank h.reads))
  have greater {s : Scanner} {cs : List Char} (h : s.Reads ('>' :: cs)) :
      s.scan.Finds .greaterThan cs :=
    finds_greater (h.onToken (n := 0)) fun hstart => scan_start h.rest hstart
  rcases o.kind_mem with hk | hk | hk | hk | hk | hk | hk
  · have table : ∀ k ∈ TokenKind.signs, k.more = [] ∧ k.moreChars = [] := by decide
    obtain ⟨hmore, hchars⟩ := table _ hk
    rw [hmore]
    rw [hchars] at h
    exact last h
  iterate 3
    rw [hk] at h ⊢
    exact last h
  · rw [hk] at h ⊢
    exact h.yields (bound [.equals] ['='] (Nat.le_refl 1)) (last (finds_equals h.reads))
  · rw [hk] at h ⊢
    exact h.yields (bound [.greaterThan] ['>'] (Nat.le_refl 1)) (last (greater h.reads))
  · rw [hk] at h ⊢
    have hnext := greater h.reads
    exact h.yields (bound [.greaterThan, .greaterThan] ['>', '>'] (Nat.le_refl 2))
      (hnext.yields (bound [.greaterThan] ['>'] (Nat.le_refl 1)) (last (greater hnext.reads)))

theorem OnWord.yields {s : Scanner} {w : Word} {rest : Operations} (h : s.OnWord w rest) :
    s.Yields (.identifier :: rest.tokens) := by
  induction rest generalizing s w with
  | nil => exact h.finds.yields (by decide) ((finds_end h.finds.reads).yields (by decide) trivial)
  | cons p rest ih =>
      exact h.finds.yields (length_tokens_le _) (Finds.yields_more h.scan fun _ => ih)

theorem Behind.yields {s : Scanner} {rest : Operations} (h : s.Behind rest) :
    s.Yields rest.tokens := by
  cases rest with
  | nil => exact Finds.yields h (by decide) trivial
  | cons p rest => exact Finds.yields_more h fun _ => OnWord.yields

end Scanner
end Erasure

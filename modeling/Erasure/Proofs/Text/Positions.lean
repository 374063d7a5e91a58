import Erasure.Proofs.Token.Cursor
import Erasure.Text.LineMap

/-!
Lines and columns of offsets. A line ends behind a line feed, and behind a carriage return that no
line feed follows. The line of an offset is the number of lines that have ended there, and its
column counts UTF-16 code units from the last of these ends on. Offsets on the boundaries of
characters have different positions, in the order of the offsets.
-/

namespace Erasure.Text

/-- A line ends behind so many characters. -/
def endsLineAt (cs : List Char) : Nat → Bool
  | 0 => false
  | k + 1 => cs[k]? = some '\n' || cs[k]? = some '\r' && cs[k + 1]? ≠ some '\n'

/-- The numbers of characters, up to a given one, behind which a line ends. -/
def lineEnds (cs : List Char) (k : Nat) : List Nat := (List.range (k + 1)).filter (endsLineAt cs)

theorem lineEnds_zero (cs : List Char) : lineEnds cs 0 = [] := rfl

theorem lineEnds_succ (cs : List Char) (k : Nat) :
    lineEnds cs (k + 1) = lineEnds cs k ++ if endsLineAt cs (k + 1) then [k + 1] else [] := by
  rw [lineEnds, List.range_succ, List.filter_append, List.filter_singleton, Bool.cond_eq_ite]
  rfl

theorem lineEnds_cons (c : Char) (cs : List Char) (k : Nat) :
    lineEnds (c :: cs) (k + 1) =
      (if endsLineAt (c :: cs) 1 then [1] else []) ++ (lineEnds cs k).map (· + 1) := by
  induction k with
  | zero => rw [lineEnds_succ, lineEnds_zero, lineEnds_zero, List.nil_append, List.map_nil,
      List.append_nil]
  | succ k ih =>
      have hshift : endsLineAt (c :: cs) (k + 1 + 1) = endsLineAt cs (k + 1) := rfl
      rw [lineEnds_succ, ih, hshift, lineEnds_succ cs k, List.map_append, List.append_assoc]
      cases endsLineAt cs (k + 1) <;> rfl

theorem le_of_mem_lineEnds {cs : List Char} {k i : Nat} (h : i ∈ lineEnds cs k) : i ≤ k :=
  Nat.le_of_lt_succ (List.mem_range.mp (List.mem_of_mem_filter h))

/-- Further on, lines only end behind the place. -/
theorem lineEnds_add (cs : List Char) (k n : Nat) :
    ∃ later, lineEnds cs (k + n) = lineEnds cs k ++ later ∧ ∀ i ∈ later, k < i := by
  induction n with
  | zero => exact ⟨[], (List.append_nil _).symm, nofun⟩
  | succ n ih =>
      obtain ⟨later, heq, hlater⟩ := ih
      refine ⟨later ++ if endsLineAt cs (k + n + 1) then [k + n + 1] else [], ?_, ?_⟩
      · rw [← Nat.add_assoc, lineEnds_succ, heq, List.append_assoc]
      · intro i hi
        rcases List.mem_append.mp hi with hi | hi
        · exact hlater i hi
        · split at hi
          · rw [List.mem_singleton.mp hi]
            omega
          · cases hi

/-- The next line starts where a line ends. -/
theorem lineStartsFrom_eq (offset : Nat) (cs : List Char) :
    lineStartsFrom offset cs =
      (lineEnds cs cs.length).map fun k => offset + byteSize (cs.take k) := by
  fun_induction lineStartsFrom offset cs with
  | case1 offset => rfl
  | case2 offset cs ih =>
      have hends : lineEnds ('\r' :: '\n' :: cs) (cs.length + 1 + 1) =
          2 :: (lineEnds cs cs.length).map (· + 2) := by
        rw [lineEnds_cons, lineEnds_cons]
        simp [endsLineAt]
      rw [ih, List.length_cons, List.length_cons, hends, List.map_cons, List.map_map]
      refine congrArg₂ _ rfl (List.map_congr_left fun k _ => ?_)
      simp only [Function.comp_apply, List.take_succ_cons, byteSize_cons]
      have hreturn : ('\r' : Char).utf8Size = 1 := rfl
      have hfeed : ('\n' : Char).utf8Size = 1 := rfl
      omega
  | case3 offset c cs hpair next hbreak ih =>
      have hend : endsLineAt (c :: cs) 1 = true := by
        rcases Bool.or_eq_true_iff.mp hbreak with hc | hc
        · simp [endsLineAt, of_decide_eq_true hc]
        · cases cs with
          | nil => simp [endsLineAt, of_decide_eq_true hc]
          | cons d ds =>
              have hd : d ≠ '\n' := fun hd => hpair ds (of_decide_eq_true hc) (by rw [hd])
              simp [endsLineAt, of_decide_eq_true hc, hd]
      rw [ih, List.length_cons, lineEnds_cons, if_pos hend, List.singleton_append, List.map_cons,
        List.map_map]
      refine congrArg₂ _ ?_ (List.map_congr_left fun k _ => ?_)
      · simp [next]
      · simp [next, Nat.add_assoc]
  | case4 offset c cs hpair next hbreak ih =>
      have hend : endsLineAt (c :: cs) 1 = false := by
        have hc := Bool.or_eq_false_iff.mp (Bool.eq_false_iff.mpr hbreak)
        simp [endsLineAt, of_decide_eq_false hc.1, of_decide_eq_false hc.2]
      rw [ih, List.length_cons, lineEnds_cons, hend, List.map_append, List.map_map]
      refine List.map_congr_left fun k _ => ?_
      simp [next, Nat.add_assoc]

theorem byteSize_take_le_iff {cs : List Char} {i k : Nat} (hi : i ≤ cs.length) :
    byteSize (cs.take i) ≤ byteSize (cs.take k) ↔ i ≤ k := by
  constructor
  · intro h
    by_contra hlt
    obtain ⟨n, rfl⟩ := Nat.exists_eq_add_of_lt (Nat.lt_of_not_le hlt)
    rw [Nat.add_assoc, List.take_add, byteSize_append] at h
    have hne : (cs.drop k).take (n + 1) ≠ [] := by
      rw [← List.length_pos_iff, List.length_take, List.length_drop]
      omega
    have := byteSize_pos hne
    omega
  · intro h
    obtain ⟨n, rfl⟩ := Nat.exists_eq_add_of_le h
    rw [List.take_add, byteSize_append]
    exact Nat.le_add_right _ _

/-- The line starts up to a place are the start of the text and the ends of lines up to there. -/
theorem takeWhile_starts (s : String) {k : Nat} (hk : k ≤ s.toList.length) :
    (LineMap.ofString s).starts.takeWhile (· ≤ byteSize (s.toList.take k)) =
      (0 :: lineEnds s.toList k).map fun i => byteSize (s.toList.take i) := by
  obtain ⟨later, heq, hlater⟩ := lineEnds_add s.toList k (s.toList.length - k)
  rw [Nat.add_sub_cancel' hk] at heq
  have hle {i : Nat} (hi : i ∈ lineEnds s.toList s.toList.length) : i ≤ s.toList.length :=
    le_of_mem_lineEnds hi
  have hstarts : (LineMap.ofString s).starts =
      (0 :: lineEnds s.toList k).map (fun i => byteSize (s.toList.take i)) ++
        later.map fun i => byteSize (s.toList.take i) := by
    rw [← List.map_append, List.cons_append, ← heq]
    simp [LineMap.ofString, lineStartsFrom_eq]
  rw [hstarts, List.takeWhile_append_of_pos, List.append_right_eq_self]
  · cases later with
    | nil => rfl
    | cons i later =>
        have hi : i ≤ s.toList.length := hle (heq ▸ by simp)
        have hlt := hlater i List.mem_cons_self
        rw [List.map_cons, List.takeWhile_cons_of_neg]
        simpa using (byteSize_take_le_iff hi).not.mpr (Nat.not_le_of_lt hlt)
  · intro start hstart
    obtain ⟨i, hi, rfl⟩ := List.mem_map.mp hstart
    have hik : i ≤ k := by
      rcases List.mem_cons.mp hi with rfl | hi
      · exact Nat.zero_le _
      · exact le_of_mem_lineEnds hi
    exact decide_eq_true ((byteSize_take_le_iff (hik.trans hk)).mpr hik)

/-- Behind how many characters the line starts that a place lies in. -/
def lineBegin (cs : List Char) (k : Nat) : Nat := (lineEnds cs k).getLast?.getD 0

theorem lineBegin_le (cs : List Char) (k : Nat) : lineBegin cs k ≤ k := by
  unfold lineBegin
  cases hl : (lineEnds cs k).getLast? with
  | none => exact Nat.zero_le _
  | some i => exact le_of_mem_lineEnds (List.mem_of_getLast? hl)

/-- The text from the start of the line to a place. -/
def lineUpTo (cs : List Char) (k : Nat) : List Char := (cs.take k).drop (lineBegin cs k)

theorem take_eq_append_lineUpTo (cs : List Char) (k : Nat) :
    cs.take (lineBegin cs k) ++ lineUpTo cs k = cs.take k := by
  have htake : (cs.take k).take (lineBegin cs k) = cs.take (lineBegin cs k) := by
    rw [List.take_take, Nat.min_eq_left (lineBegin_le cs k)]
  rw [lineUpTo, ← htake, List.take_append_drop]

/-- The position of a place, by the ends of lines up to it. -/
def truePosition (cs : List Char) (k : Nat) : Position where
  line := (lineEnds cs k).length
  character := length16 (String.ofList (lineUpTo cs k))

/-- Lines are compared first, and columns within a line. -/
def Position.Before (p q : Position) : Prop :=
  p.line < q.line ∨ p.line = q.line ∧ p.character < q.character

theorem length16_append (cs ds : List Char) :
    length16 (String.ofList (cs ++ ds)) =
      length16 (String.ofList cs) + length16 (String.ofList ds) := by
  simp only [length16, String.toList_ofList]
  induction cs with
  | nil => simp
  | cons c cs ih => simp only [List.cons_append, List.foldr_cons, ih, Nat.add_assoc]

theorem length16_pos {cs : List Char} (h : cs ≠ []) : 0 < length16 (String.ofList cs) := by
  cases cs with
  | nil => exact absurd rfl h
  | cons c cs =>
      have hunits : 0 < units16 c := by unfold units16; split <;> decide
      simp only [length16, String.toList_ofList, List.foldr_cons]
      omega

/-- Later places have later positions: more lines have ended, or the same line is longer. -/
theorem truePosition_before {cs : List Char} {j k : Nat} (hj : j < k) (hk : k ≤ cs.length) :
    (truePosition cs j).Before (truePosition cs k) := by
  obtain ⟨n, rfl⟩ := Nat.exists_eq_add_of_le hj.le
  obtain ⟨later, heq, -⟩ := lineEnds_add cs j n
  cases later with
  | cons i later =>
      left
      simp [truePosition, heq]
  | nil =>
      rw [List.append_nil] at heq
      have hbegin : lineBegin cs (j + n) = lineBegin cs j := by rw [lineBegin, heq, lineBegin]
      have hmore : lineUpTo cs (j + n) = lineUpTo cs j ++ (cs.drop j).take n := by
        have hlength : lineBegin cs j ≤ (cs.take j).length := by
          rw [List.length_take]
          have := lineBegin_le cs j
          omega
        rw [lineUpTo, hbegin, List.take_add, List.drop_append_of_le_length hlength, lineUpTo]
      have hne : (cs.drop j).take n ≠ [] := by
        rw [← List.length_pos_iff, List.length_take, List.length_drop]
        omega
      refine .inr ⟨by rw [truePosition, truePosition, heq], ?_⟩
      simp only [truePosition, hmore, length16_append]
      exact Nat.lt_add_of_pos_right (length16_pos hne)

namespace LineMap

theorem lineOf_boundary (s : String) {k : Nat} (hk : k ≤ s.toList.length) :
    (ofString s).lineOf (byteSize (s.toList.take k)) = (lineEnds s.toList k).length := by
  rw [lineOf, takeWhile_starts s hk]
  simp

theorem lineStart_boundary (s : String) {k : Nat} (hk : k ≤ s.toList.length) :
    (ofString s).lineStart (lineEnds s.toList k).length =
      byteSize (s.toList.take (lineBegin s.toList k)) := by
  obtain ⟨later, hstarts⟩ :=
    List.takeWhile_prefix (l := (ofString s).starts) (· ≤ byteSize (s.toList.take k))
  rw [takeWhile_starts s hk] at hstarts
  have hlast : (0 :: lineEnds s.toList k)[(lineEnds s.toList k).length]? =
      some (lineBegin s.toList k) := by
    rw [lineBegin, ← List.getLast?_cons, List.getLast?_eq_getElem?]
    rfl
  rw [lineStart, ← hstarts, List.getElem?_append_left (by simp), List.getElem?_map, hlast]
  rfl

theorem position_boundary (s : String) {k : Nat} (hk : k ≤ s.toList.length) :
    (ofString s).position s (byteSize (s.toList.take k)) = truePosition s.toList k := by
  have hsplit := take_eq_append_lineUpTo s.toList k
  have hsize : byteSize (s.toList.take k) ≤ s.utf8ByteSize := by
    rw [← byteSize_toList, ← List.take_append_drop k s.toList, byteSize_append]
    simp
  have hslice : slice? s (byteSize (s.toList.take (lineBegin s.toList k)))
      (byteSize (s.toList.take k)) = some (String.ofList (lineUpTo s.toList k)) := by
    rw [← hsplit, byteSize_append]
    exact slice?_of_split s _ _ (s.toList.drop k) (by rw [hsplit, List.take_append_drop])
  simp only [position, Nat.min_eq_left hsize, lineOf_boundary s hk, lineStart_boundary s hk, hslice]
  rfl

/-- Offsets behind the end have the position of the end. -/
theorem position_of_size_le (s : String) {offset : Nat} (h : s.utf8ByteSize ≤ offset) :
    (ofString s).position s offset = (ofString s).position s s.utf8ByteSize := by
  simp only [position, Nat.min_eq_right h, Nat.min_self]

/-- The position of an offset on the boundary of a character tells how many lines have ended up to
there, and how long the line is that has not. It grows with the offset, up to the end of the text;
behind the end it stays what it is there. -/
theorem positions_of_boundaries (s : String) :
    (∀ k ≤ s.toList.length,
      (ofString s).position s (byteSize (s.toList.take k)) = truePosition s.toList k) ∧
    (∀ j k, j < k → k ≤ s.toList.length →
      ((ofString s).position s (byteSize (s.toList.take j))).Before
        ((ofString s).position s (byteSize (s.toList.take k)))) ∧
    ∀ offset, s.utf8ByteSize ≤ offset →
      (ofString s).position s offset = (ofString s).position s s.utf8ByteSize := by
  refine ⟨fun k hk => position_boundary s hk, fun j k hj hk => ?_,
    fun offset h => position_of_size_le s h⟩
  rw [position_boundary s (hj.le.trans hk), position_boundary s hk]
  exact truePosition_before hj hk

/-- A line feed behind a carriage return ends the same line, and a character of four bytes takes two
columns. -/
theorem positions_of_mixed_lines :
    let s := "a\r\n😀b\rc"
    let m := ofString s
    4 ≤ s.toList.length ∧ m.position s 7 = ⟨1, 2⟩ ∧
      (2 < 4 ∧ 4 ≤ s.toList.length ∧ (m.position s 2).Before (m.position s 7)) ∧
      s.utf8ByteSize ≤ 99 ∧ m.position s 99 = m.position s s.utf8ByteSize := by
  intro s m
  have hlength : 4 ≤ s.toList.length := by decide
  have hsize : s.utf8ByteSize ≤ 99 := by decide
  have htwo : byteSize (s.toList.take 2) = 2 := by decide
  have hseven : byteSize (s.toList.take 4) = 7 := by decide
  have htrue : truePosition s.toList 4 = ⟨1, 2⟩ := by decide
  obtain ⟨hposition, hbefore, hend⟩ := positions_of_boundaries s
  have hat := hposition 4 hlength
  have hgrows := hbefore 2 4 (by decide) hlength
  rw [hseven, htrue] at hat
  rw [htwo, hseven] at hgrows
  exact ⟨hlength, hat, ⟨by decide, hlength, hgrows⟩, hsize, hend 99 hsize⟩

end LineMap
end Erasure.Text

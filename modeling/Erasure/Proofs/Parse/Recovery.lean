import Erasure.Proofs.Parse.Spans.Statements
import Erasure.Proofs.Parse.Standstill
import Erasure.Proofs.Parse.Statements

/-!
Recovery from errors is not silent: a file without diagnostics has a tree in which nothing was made
up, unless the nesting limit was reached somewhere. The report of the limit is made only once, and
it is lost when the part of the text where it was made was only read on trial. What is then made up
at the limit stays without a diagnostic.
-/

namespace Erasure

namespace Parse

instance (nt : Nonterminal) : Proceeds (substitute nt) := by
  unfold substitute
  split <;> infer_instance

instance sound_exhausted : Sound exhausted := ⟨fun _ => .error⟩

instance sound_rule (g : Grammar) [Sound g] : Sound (rule g) where
  gives := fun nt => by
    cases nt with
    | statement => exact statement_gives
    | type => exact type_gives
    | typeOperator => exact typeOperator_gives
    | assignment => exact assignment_gives
    | binary above => exact binary_gives
    | unary => exact unary_gives
    | primary => exact primary_gives
    | binding missing => exact binding_gives
    | namespaceBody start ms => exact namespaceBody_gives

/-- Every amount of fuel gives sound parsers, as every rule keeps soundness. -/
instance sound_grammar (fuel : Nat) : Sound (grammar fuel) := by
  induction fuel with
  | zero => exact sound_exhausted
  | succ fuel ih => exact sound_rule (grammar fuel)

/-- The nesting limit was reached while a file was read, perhaps in a part that was read on trial
and given up. -/
def reachesLimit (fileName source : String) : Bool :=
  (file (ParseState.ofString fileName source)).2.depthReported

theorem genuineAll_file {fileName source : String}
    (h : (file (ParseState.ofString fileName source)).2.Quiet) :
    GenuineAll (file (ParseState.ofString fileName source)).1 := by
  rw [file_eq] at h ⊢
  exact (statementList_gives (P := fun _ => True) _ (ready_firstState fileName source)
    fun _ => trivial).2 h

end Parse

theorem Diagnostic.sort_eq_nil {ds : List Diagnostic} (h : sort ds = []) : ds = [] :=
  List.length_eq_zero_iff.mp (by rw [← List.length_mergeSort ds, ← sort, h, List.length_nil])

/-- Without a diagnostic nothing in the tree was made up, as long as the nesting limit was not
reached. -/
theorem genuine_of_no_diagnostics (fileName source : String)
    (hlimit : Parse.reachesLimit fileName source = false)
    (h : (parseSource fileName source).2 = []) :
    ∀ n ∈ (parseSource fileName source).1.statements, n.Genuine := by
  have hall := Diagnostic.sort_eq_nil h
  obtain ⟨hparse, hscan⟩ := List.append_eq_nil_iff.mp hall
  exact Parse.genuineAll_file
    ⟨List.reverse_eq_nil_iff.mp hparse, List.reverse_eq_nil_iff.mp hscan, hlimit⟩

theorem genuine_of_no_diagnostics_call :
    Parse.reachesLimit "a.ts" "f(x as T);" = false ∧ (parseSource "a.ts" "f(x as T);").2 = [] ∧
      ∀ n ∈ (parseSource "a.ts" "f(x as T);").1.statements, n.Genuine := by
  have hfile : Parse.reachesLimit "a.ts" "f(x as T);" = false ∧
      (parseSource "a.ts" "f(x as T);").2.isEmpty = true := by
    decide +kernel
  obtain ⟨hlimit, hempty⟩ := hfile
  have hempty := List.isEmpty_iff.mp hempty
  exact ⟨hlimit, hempty, genuine_of_no_diagnostics _ _ hlimit hempty⟩

/-- No error is reported. -/
def ParseState.isSilent (s : ParseState) : Bool :=
  s.errorsRev.isEmpty && s.scanner.errorsRev.isEmpty

theorem diagnostics_of_isSilent {fileName source : String}
    (h : (Parse.quickFile fileName source).2.isSilent = true) :
    (parseSource fileName source).2 = [] := by
  obtain ⟨hparse, hscan⟩ := Bool.and_eq_true_iff.mp h
  show Diagnostic.sort ((Parse.file (ParseState.ofString fileName source)).2.errorsRev.reverse ++
    (Parse.file (ParseState.ofString fileName source)).2.scanner.errorsRev.reverse) = []
  rw [Parse.file_eq_quickFile, List.isEmpty_iff.mp hparse, List.isEmpty_iff.mp hscan]
  exact List.mergeSort_nil

theorem mem_statements_of_quickFile {fileName source : String} {n : Node}
    (h : (Parse.quickFile fileName source).1.head? = some n) :
    n ∈ (parseSource fileName source).1.statements := by
  show n ∈ (Parse.file (ParseState.ofString fileName source)).1
  rw [Parse.file_eq_quickFile]
  exact List.mem_of_head? h

/-- On the path to the innermost statement a placeholder stands. -/
def isSilentAlong (path : List Nat) (result : List Node × ParseState) : Bool :=
  result.2.isSilent &&
    (result.1.head? >>= Node.descend? path).any fun m => m.form.isPlaceholder

theorem exists_of_isSilentAlong {path : List Nat} {fileName source : String}
    (h : isSilentAlong path (Parse.quickFile fileName source) = true) :
    (parseSource fileName source).2 = [] ∧
      ∃ n ∈ (parseSource fileName source).1.statements, ¬ n.Genuine := by
  obtain ⟨hempty, hmissing⟩ := Bool.and_eq_true_iff.mp h
  obtain ⟨m, hm, hplaceholder⟩ := (Option.any_eq_true _ _).mp hmissing
  obtain ⟨n, hn, hpath⟩ := Option.bind_eq_some_iff.mp hm
  refine ⟨diagnostics_of_isSilent hempty, n, mem_statements_of_quickFile hn, fun hgenuine => ?_⟩
  have hkind := (hgenuine.descend hpath).not_placeholder
  rw [hplaceholder] at hkind
  cases hkind

/-- Where an arrow function was tried first the report of the limit is lost: the word before the
decorator starts a declaration that contains itself, up to the limit. -/
theorem exists_silent_placeholder :
    (parseSource "a.ts" "(a=function()\x7bpublic@b class c\x7b\x7d\x7d)").2 = [] ∧
      ∃ n ∈ (parseSource "a.ts" "(a=function()\x7bpublic@b class c\x7b\x7d\x7d)").1.statements,
        ¬ n.Genuine := by
  have hsilent : isSilentAlong [0, 0, 1, 0, 0, 0]
      (Parse.quickFile "a.ts" "(a=function()\x7bpublic@b class c\x7b\x7d\x7d)") = true := by
    decide +kernel
  exact exists_of_isSilentAlong hsilent

/-- The spans of the nodes that are visited nest: each lies within the one above it. -/
inductive Node.Nested : Node → Prop where
  | intro {n : Node} (ordered : n.span.start ≤ n.span.stop)
      (within : ∀ c ∈ n.visited, n.span.start ≤ c.span.start ∧ c.span.stop ≤ n.span.stop)
      (visited : ∀ c ∈ n.visited, c.Nested) : n.Nested

/-- A visited node is a part, or a part of one. -/
theorem Node.mem_visited {n c : Node} (h : c ∈ n.visited) :
    c ∈ n.form.pieces ∨ ∃ m ∈ n.form.pieces, c ∈ m.form.pieces := by
  unfold Node.visited at h
  split at h
  · cases h
  · cases h
  · obtain ⟨m, hm, hc⟩ := List.mem_flatMap.mp h
    split at hc
    · exact .inr ⟨m, List.mem_append_right _ hm, List.mem_append_right _ hc⟩
    · obtain rfl := List.mem_singleton.mp hc
      exact .inl (List.mem_append_right _ hm)

/-- In a tree that is faithful to its text a node lies around what is visited from it, too. -/
theorem Node.Faithful.nested {source : String} {n : Node} (h : n.Faithful source) : n.Nested := by
  suffices hall : n.Nested ∧ ∀ c ∈ n.form.pieces, c.Nested from hall.1
  induction h with
  | intro ordered within inOrder literal pieces ih =>
      rename_i n
      have hfaithful : n.Faithful source := .intro ordered within inOrder literal pieces
      refine ⟨.intro ordered (fun c hc => ?_) fun c hc => ?_, fun c hc => (ih c hc).1⟩
      · obtain hc | ⟨m, hm, hc⟩ := Node.mem_visited hc
        · exact within c hc
        · have hlies := (hfaithful.lies_part hm).part hc
          exact ⟨hlies.start_le, hlies.stop_le⟩
      · obtain hc | ⟨m, hm, hc⟩ := Node.mem_visited hc
        · exact (ih c hc).1
        · exact (ih m hm).2 c hc

/-- Without a diagnostic the trees are faithful to the text, as long as the nesting limit was not
reached: the spans nest, the statements of every list are in order, and literals are written as they
stand in the text. -/
theorem faithful_of_no_diagnostics (fileName source : String)
    (hlimit : Parse.reachesLimit fileName source = false)
    (h : (parseSource fileName source).2 = []) :
    InOrder (parseSource fileName source).1.statements ∧
      ∀ n ∈ (parseSource fileName source).1.statements,
        n.Faithful source ∧ n.Nested ∧ n.span.stop ≤ source.utf8ByteSize := by
  have hall := Diagnostic.sort_eq_nil h
  obtain ⟨hparse, hscan⟩ := List.append_eq_nil_iff.mp hall
  obtain ⟨horder, hlies⟩ := Parse.lies_file fileName source
    ⟨List.reverse_eq_nil_iff.mp hparse, List.reverse_eq_nil_iff.mp hscan, hlimit⟩
  refine ⟨horder, fun n hn => ?_⟩
  obtain ⟨hfaithful, -, hstop⟩ := hlies n hn
  exact ⟨hfaithful, hfaithful.nested, hstop⟩

/-- The slash after the parenthesis is read anew as the start of a regular expression. -/
theorem faithful_of_no_diagnostics_call :
    Parse.reachesLimit "a.ts" "{f(1);g(/y/)}" = false ∧
      (parseSource "a.ts" "{f(1);g(/y/)}").2 = [] ∧
      InOrder (parseSource "a.ts" "{f(1);g(/y/)}").1.statements ∧
      ∀ n ∈ (parseSource "a.ts" "{f(1);g(/y/)}").1.statements,
        n.Faithful "{f(1);g(/y/)}" ∧ n.Nested ∧
          n.span.stop ≤ "{f(1);g(/y/)}".utf8ByteSize := by
  have hfile : Parse.reachesLimit "a.ts" "{f(1);g(/y/)}" = false ∧
      (parseSource "a.ts" "{f(1);g(/y/)}").2.isEmpty = true := by
    decide +kernel
  obtain ⟨hlimit, hempty⟩ := hfile
  have hempty := List.isEmpty_iff.mp hempty
  exact ⟨hlimit, hempty, faithful_of_no_diagnostics _ _ hlimit hempty⟩

/-- The node that is reached by choosing a visited node at every step. -/
def Node.reach? : List Nat → Node → Option Node
  | [], n => some n
  | i :: path, n => n.visited[i]? >>= reach? path

namespace Node.Nested

variable {n m : Node} (h : n.Nested)
include h

theorem stop_le {c : Node} (hc : c ∈ n.visited) : c.span.stop ≤ n.span.stop := by
  cases h with | intro _ within => exact (within c hc).2

theorem reach {path : List Nat} (hm : n.reach? path = some m) : m.Nested := by
  induction path generalizing n with
  | nil =>
      cases hm
      exact h
  | cons i path ih =>
      obtain ⟨c, hc, hm⟩ := Option.bind_eq_some_iff.mp hm
      cases h with | intro _ _ visited => exact ih (visited c (List.mem_of_getElem? hc)) hm

end Node.Nested

/-- A node at the end of a path ends before a node below it. -/
def outgrowsAlong (path : List Nat) (result : List Node × ParseState) : Bool :=
  result.2.isSilent && (result.1.head? >>= Node.reach? path).any fun m =>
    m.visited.any fun c => m.span.stop < c.span.stop

theorem exists_of_outgrowsAlong {path : List Nat} {fileName source : String}
    (h : outgrowsAlong path (Parse.quickFile fileName source) = true) :
    (parseSource fileName source).2 = [] ∧
      ∃ n ∈ (parseSource fileName source).1.statements, ¬ n.Nested := by
  obtain ⟨hempty, houtgrown⟩ := Bool.and_eq_true_iff.mp h
  obtain ⟨m, hm, hany⟩ := (Option.any_eq_true _ _).mp houtgrown
  obtain ⟨n, hn, hpath⟩ := Option.bind_eq_some_iff.mp hm
  obtain ⟨c, hc, hlt⟩ := List.any_eq_true.mp hany
  refine ⟨diagnostics_of_isSilent hempty, n, mem_statements_of_quickFile hn, fun hnested => ?_⟩
  exact Nat.not_le.mpr (of_decide_eq_true hlt) ((hnested.reach hpath).stop_le hc)

/-- A statement that was made up at the limit stands where the text was not read any further, behind
the statement that it is a part of. -/
theorem exists_silent_outgrowth :
    (parseSource "a.ts" "(a=function()\x7bif(1) public@b class c\x7b\x7d\x7d)").2 = [] ∧
      ∃ n ∈ (parseSource "a.ts"
          "(a=function()\x7bif(1) public@b class c\x7b\x7d\x7d)").1.statements,
        ¬ n.Nested := by
  have houtgrown : outgrowsAlong [0, 0, 1, 0, 0, 0]
      (Parse.quickFile "a.ts" "(a=function()\x7bif(1) public@b class c\x7b\x7d\x7d)") = true := by
    decide +kernel
  exact exists_of_outgrowsAlong houtgrown

end Erasure

import Erasure.Print.File
import Erasure.Proofs.Print.Stretch

/-!
What every step of printing is made of: text, line breaks, indentation, the comments around a step,
and attempts that are taken back. A property of all of printing needs one case for each of these.
What they ask about the text of a file has the same answer for files with the same text, and the
list of its comments is not asked for by any of them, only the comments still to come.
-/

namespace Erasure

namespace SourceFile

variable {f g : SourceFile} (h : f.text = g.text)
include h

theorem columnFrom_congr (column n : Nat) : f.columnFrom column n = g.columnFrom column n := by
  induction n generalizing column with
  | zero => rfl
  | succ n ih => rw [columnFrom, columnFrom, ih, h]

theorem columnOf_congr (offset : Nat) : f.columnOf offset = g.columnOf offset :=
  columnFrom_congr h 0 offset

theorem skipBlanks_congr (offset : Nat) : f.skipBlanks offset = g.skipBlanks offset := by
  fun_induction f.skipBlanks offset with
  | case1 offset c hc hblank ih =>
      rw [skipBlanks.eq_def g]
      split
      · rename_i c' hc'
        obtain rfl : c = c' := Option.some.inj (hc.symm.trans (h ▸ hc'))
        rw [if_pos hblank, ih]
      · rename_i hc'
        cases hc.symm.trans (h ▸ hc')
  | case2 offset c hc hblank =>
      rw [skipBlanks.eq_def g]
      split
      · rename_i c' hc'
        obtain rfl : c = c' := Option.some.inj (hc.symm.trans (h ▸ hc'))
        rw [if_neg hblank]
      · rfl
  | case3 offset hc =>
      rw [skipBlanks.eq_def g]
      split
      · rename_i c' hc'
        cases hc.symm.trans (h ▸ hc')
      · rfl

theorem skipSeparator_congr (offset : Nat) : f.skipSeparator offset = g.skipSeparator offset := by
  unfold skipSeparator
  simp only [skipBlanks_congr h, h]

theorem isBlankBetween_congr (start stop : Nat) :
    f.isBlankBetween start stop = g.isBlankBetween start stop := by
  unfold isBlankBetween
  rw [h]

theorem lineFeedsBetween_congr (start stop : Nat) :
    f.lineFeedsBetween start stop = g.lineFeedsBetween start stop := by
  unfold lineFeedsBetween
  rw [h]

end SourceFile

namespace Print

variable {f g : SourceFile} (h : f.text = g.text)
include h

theorem attached_congr (offset : Nat) (cs : List Comment) :
    attached f offset cs = attached g offset cs := by
  induction cs generalizing offset with
  | nil => rfl
  | cons c cs ih => rw [attached, attached, ih, SourceFile.isBlankBetween_congr h]

theorem headerFrom_congr (firstToken : Nat) (last? : Option Nat) (cs : List Comment) :
    headerFrom f firstToken last? cs = headerFrom g firstToken last? cs := by
  induction cs generalizing last? with
  | nil => rfl
  | cons c cs ih =>
      unfold headerFrom
      simp only [ih, SourceFile.isBlankBetween_congr h, SourceFile.lineFeedsBetween_congr h]

end Print

/-- The file without its comments. -/
def SourceFile.uncommented (f : SourceFile) : SourceFile := { f with comments := [] }

def PrintJob.uncommented (j : PrintJob) : PrintJob := { j with file := j.file.uncommented }

def PrintPlace.uncommented (p : PrintPlace) : PrintPlace := { p with job := p.job.uncommented }

namespace PrintPlace

mutual

theorem entity?_uncommented (p : PrintPlace) :
    (n : Node) → p.uncommented.entity? n = p.entity? n
  | ⟨_, _, form⟩ => entityOf?_uncommented p form

theorem entityOf?_uncommented (p : PrintPlace) (form : Form) :
    p.uncommented.entityOf? form = p.entityOf? form := by
  cases form with
  | propertyAccess target name isOptional _ =>
      obtain ⟨name, isPrivate⟩ := name
      cases isPrivate with
      | true => rfl
      | false =>
          cases isOptional with
          | true => rfl
          | false => exact congrArg (Option.bind · _) (entity?_uncommented p target)
  | parenthesized inner => exact entity?_uncommented p inner
  | _ => rfl

end

theorem constant?_uncommented (p : PrintPlace) (n : Node) :
    p.uncommented.constant? n = p.constant? n := by
  unfold constant?
  simp only [entity?_uncommented]
  rfl

end PrintPlace

namespace Print

theorem bind_run {α β : Type} (m : Print α) (k : α → Print β) (p : PrintPlace) (s : PrintState) :
    (m >>= k) p s = k (m p s).1 p (m p s).2 := rfl

section
variable (span : Span) (code : Print Unit) (p : PrintPlace) (s : PrintState)

/-- The state after the comments before a span. -/
def opened : PrintState := (leadingComments span.start p s).2

/-- The state after the comments before a span and the code in it. -/
def coded : PrintState := (code p (opened span p s)).2

/-- What is done after the code depends on whether it made the output longer. -/
theorem commented_run : commented span code p s =
    if (coded span code p s).writer.wroteSince (opened span p s).writer.mark then
      (true, ((do skipComments span.stop; trailingComments span.stop : Print Unit) p
        (coded span code p s)).2)
    else
      (false, ((do rewind s.writer.mark; skipComments span.stop : Print Unit) p
        (coded span code p s)).2) := by
  change (if (coded span code p s).writer.wroteSince (opened span p s).writer.mark then do
      skipComments span.stop
      trailingComments span.stop
      return true
    else do
      rewind s.writer.mark
      skipComments span.stop
      return false : Print Bool) p (coded span code p s) = _
  split <;> rfl

theorem told_commented : (commented span code p s).1 =
    (coded span code p s).writer.wroteSince (opened span p s).writer.mark := by
  rw [commented_run]
  split
  · rename_i hwrote
    exact hwrote.symm
  · rename_i hsilent
    exact (Bool.eq_false_of_not_eq_true hsilent).symm

end

/-- Whether a step writes anything depends on the place and not on what was written before. -/
def Decided {α : Type} (m : Print α) : Prop :=
  ∀ p, (∀ s, (m p s).2.writer.wroteSince s.writer.mark = true) ∨
    ∀ s, (m p s).2.writer.wroteSince s.writer.mark = false

/-- A step that is taken back, with the space before it, if it tells that it printed nothing. -/
def tentative (m : Print Bool) : Print Unit := do
  let start ← mark
  space
  if !(← m) then rewind start

/-- Steps that are put together from text, indentation and steps on comments. -/
inductive Composed : {α : Type} → Print α → Prop
  | pure {α : Type} (a : α) : Composed (Pure.pure a : Print α)
  | bind {α β : Type} {m : Print α} {k : α → Print β} :
      Composed m → (∀ a, Composed (k a)) → Composed (m >>= k)
  | ask {α : Type} {k : PrintPlace → Print α} :
      (∀ p, Composed (k p)) → (∀ p, k p.uncommented = k p) → Composed (MonadReader.read >>= k)
  | inScopeOf {α : Type} {m : Print α} (node : NodeId) : Composed m → Composed (inScopeOf node m)
  | withTarget {α : Type} {m : Print α} (t : ExportTarget) : Composed m → Composed (withTarget t m)
  | withEnum {α : Type} {m : Print α} (owner : SymbolId) : Composed m → Composed (withEnum owner m)
  | write (text : String) : Composed (write text)
  | line : Composed line
  | indented {α : Type} {m : Print α} : Composed m → Composed (indented m)
  | comments {m : Print Unit} : OnComments m → Composed m
  | commented {m : Print Unit} (span : Span) :
      Composed m → Decided m → Composed (commented span m)
  | tentative {m : Print Bool} : Composed m → Composed (tentative m)

/-- Steps that do the same in a file without comments. -/
def Blind {α : Type} (m : Print α) : Prop := ∀ p : PrintPlace, m p.uncommented = m p

namespace Blind

variable {α β : Type} {m : Print α}

theorem pure (a : α) : Blind (Pure.pure a : Print α) := fun _ => rfl

theorem bind {k : α → Print β} (h : Blind m) (hk : ∀ a, Blind (k a)) : Blind (m >>= k) := by
  intro p
  change (m p.uncommented >>= fun a => k a p.uncommented) = (m p >>= fun a => k a p)
  rw [h p]
  exact congrArg _ (funext fun a => hk a p)

theorem seq {n : Print β} (h : Blind m) (hn : Blind n) : Blind (m >>= fun _ => n) :=
  h.bind fun _ => hn

theorem ask {k : PrintPlace → Print β} (h : ∀ p, Blind (k p))
    (hk : ∀ p, k p.uncommented = k p) : Blind (MonadReader.read >>= k) := by
  intro p
  change k p.uncommented p.uncommented = k p p
  rw [hk, h p p]

theorem within {f : PrintPlace → PrintPlace} (h : Blind m)
    (hf : ∀ p, f p.uncommented = (f p).uncommented) : Blind (withReader f m) := by
  intro p
  change m (f p.uncommented) = m (f p)
  rw [hf, h]

theorem file {k : SourceFile → Print β} (h : ∀ f, Blind (k f))
    (hk : ∀ f, k f.uncommented = k f) : Blind (file >>= k) :=
  ask (fun p => h p.job.file) fun p => hk p.job.file

theorem options {k : Options → Print β} (h : ∀ o, Blind (k o)) : Blind (options >>= k) :=
  ask (fun p => h p.job.options) fun _ => rfl

theorem ite {c : Prop} [Decidable c] {n : Print α} (h : Blind m) (hn : Blind n) :
    Blind (if c then m else n) := by
  split
  · exact h
  · exact hn

theorem forM {ε : Type} {f : ε → Print Unit} (as : List ε) (h : ∀ a, Blind (f a)) :
    Blind (as.forM f) := by
  induction as with
  | nil => exact pure ()
  | cons a as ih => exact (h a).seq ih

/-- Steps that do not ask where printing stands. -/
theorem state (m : StateM PrintState α) : Blind (fun _ => m : Print α) := fun _ => rfl

theorem write (text : String) : Blind (write text) := state _

theorem line : Blind line := state _

theorem space : Blind space := state _

theorem mark : Blind mark := fun _ => rfl

theorem rewind (start : Writer.Mark) : Blind (rewind start) := state _

theorem wroteSince (start : Writer.Mark) : Blind (wroteSince start) := fun _ => rfl

theorem pending : Blind pending := fun _ => rfl

theorem setPending (cs : List Comment) : Blind (setPending cs) := state _

theorem indented (h : Blind m) : Blind (indented m) :=
  (state _).seq (h.bind fun a => (state _).seq (pure a))

theorem isKept (c : Comment) : Blind (isKept c) :=
  file (fun _ => options fun _ => pure _) fun _ => rfl

theorem comment (c : Comment) : Blind (comment c) := by
  refine file (fun f => ite ?_ (write _)) fun f => ?_
  · have hget : Blind (get : Print PrintState) := fun _ => rfl
    exact hget.bind fun _ => write _
  · simp only [SourceFile.columnOf_congr (show f.uncommented.text = f.text from rfl)]
    rfl

theorem skipComments (offset : Nat) : Blind (skipComments offset) :=
  pending.bind fun _ => setPending _

theorem leadingComments (offset : Nat) : Blind (leadingComments offset) := by
  refine pending.bind fun cs => file (fun f => .seq ?_ (setPending _)) fun f => ?_
  · refine forM _ fun c => (isKept c).bind fun _ => ite ((comment c).seq ?_) (pure ())
    exact ite line space
  · simp only [attached_congr (show f.uncommented.text = f.text from rfl)]

theorem trailingFrom (fuel offset : Nat) (isSeparated : Bool) :
    Blind (trailingFrom fuel offset isSeparated) := by
  induction fuel generalizing offset isSeparated with
  | zero => exact pure ()
  | succ fuel ih =>
      refine file (fun f => pending.bind fun cs => ?_) fun f => ?_
      · split
        · exact pure ()
        · refine ite (pure ()) ((setPending _).seq ((isKept _).bind fun _ => ite ?_ (ih _ _)))
          exact space.seq ((comment _).seq (ite (ih _ _) line))
      · have htext : f.uncommented.text = f.text := rfl
        simp only [SourceFile.skipBlanks_congr htext, SourceFile.skipSeparator_congr htext]
        rfl

theorem trailingComments (offset : Nat) : Blind (trailingComments offset) :=
  pending.bind fun _ => trailingFrom _ _ _

theorem onComments {m : Print Unit} (h : OnComments m) : Blind m := by
  cases h with
  | skip offset => exact skipComments offset
  | leading offset => exact leadingComments offset
  | trailing offset => exact trailingComments offset
  | brace offset =>
      refine file (fun _ => pending.bind fun _ => ite (trailingComments _) (pure ())) fun f => ?_
      simp only [SourceFile.skipBlanks_congr (show f.uncommented.text = f.text from rfl)]
  | closing offset =>
      refine pending.bind fun _ => (setPending _).seq (forM _ fun c => ite ?_ (pure ()))
      exact (isKept c).bind fun _ => ite (line.seq ((comment c).seq line)) (pure ())

theorem commented {m : Print Unit} (span : Span) (h : Blind m) : Blind (commented span m) := by
  refine mark.bind fun start => (leadingComments _).seq (mark.bind fun body => h.seq ?_)
  refine (wroteSince body).bind fun _ => ite ?_ ?_
  · exact (skipComments _).seq ((trailingComments _).seq (pure true))
  · exact (rewind start).seq ((skipComments _).seq (pure false))

theorem tentative {m : Print Bool} (h : Blind m) : Blind (tentative m) :=
  mark.bind fun start => space.seq (h.bind fun _ => ite (rewind start) (pure ()))

end Blind

/-- Composed steps do the same in a file without comments. -/
theorem Composed.blind {α : Type} {m : Print α} (h : Composed m) : Blind m := by
  induction h with
  | pure a => exact .pure a
  | bind _ _ ihm ihk => exact ihm.bind ihk
  | ask _ hk ih => exact .ask ih hk
  | inScopeOf _ _ ih | withTarget _ _ ih | withEnum _ _ ih => exact ih.within fun _ => rfl
  | write text => exact .write text
  | line => exact .line
  | indented _ ih => exact ih.indented
  | comments h => exact .onComments h
  | commented span _ _ ih => exact ih.commented span
  | tentative _ ih => exact ih.tentative

namespace Composed

variable {α β : Type} {m : Print α}

theorem unit : Composed (Pure.pure () : Print Unit) := .pure ()

theorem space : Composed space := .write " "

theorem seq {n : Print β} (h : Composed m) (hn : Composed n) : Composed (m >>= fun _ => n) :=
  h.bind fun _ => hn

/-- A step that is left out unless a condition holds. -/
theorem when {c : Prop} [Decidable c] {m : Print Unit} {k : Unit → Print β} (h : Composed m)
    (hk : Composed (k ())) : Composed (if c then m >>= k else k ()) := by
  split
  · exact h.bind fun _ => hk
  · exact hk

theorem ite {c : Prop} [Decidable c] {n : Print α} (h : Composed m) (hn : Composed n) :
    Composed (if c then m else n) := by
  split
  · exact h
  · exact hn

theorem discard (h : Composed m) : Composed (Functor.discard m) :=
  h.bind fun _ => unit

theorem forM {ε : Type} {f : ε → Print Unit} (as : List ε) (h : ∀ a, Composed (f a)) :
    Composed (as.forM f) := by
  induction as with
  | nil => exact unit
  | cons a as ih => exact (h a).seq ih

theorem option {ε : Type} {f : ε → Print Unit} (a? : Option ε) (h : ∀ a, Composed (f a)) :
    Composed (a?.forM f) := by
  cases a? with
  | none => exact unit
  | some a => exact h a

theorem broken {m : Print Unit} (isBroken : Bool) (h : Composed m) :
    Composed (broken isBroken m) :=
  .ite (.indented (line.seq h)) (space.seq h)

theorem commaSeparated {ε : Type} {f : ε → Print Unit} (as : List ε) (h : ∀ a, Composed (f a)) :
    Composed (commaSeparated f as) := by
  cases as with
  | nil => exact unit
  | cons a as => exact (h a).seq (.forM as fun a => (write ", ").seq (h a))

theorem job {k : PrintJob → Print β} (h : ∀ j, Composed (k j))
    (hk : ∀ j, k j.uncommented = k j) : Composed (job >>= k) :=
  ask (fun p => h p.job) fun p => hk p.job

theorem file {k : SourceFile → Print β} (h : ∀ f, Composed (k f))
    (hk : ∀ f, k f.uncommented = k f) : Composed (file >>= k) :=
  ask (fun p => h p.job.file) fun p => hk p.job.file

theorem options {k : Options → Print β} (h : ∀ o, Composed (k o)) : Composed (options >>= k) :=
  ask (fun p => h p.job.options) fun _ => rfl

theorem target {k : ExportTarget → Print β} (h : ∀ t, Composed (k t)) : Composed (target >>= k) :=
  ask (fun p => h p.target) fun _ => rfl

theorem identifier (i : Identifier) : Composed (identifier i) :=
  file (fun _ => write _) fun _ => rfl

end Composed

end Print
end Erasure

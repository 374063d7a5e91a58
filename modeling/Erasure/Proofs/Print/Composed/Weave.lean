import Erasure.Proofs.Print.Composed

/-!
What composed steps write. With and without comments to come they write the same code, up to spaces
and line breaks, and decide alike what is erased; the comments are woven into it. Without comments
that stay they write the very same text. There are steps that write something in any case, and steps
of which the place alone decides whether they write anything, so that what is erased does not depend
on comments.
-/

namespace Erasure.Print

/-- What a step adds to the output of a state, with the comments that it passes over. -/
def Adds (j : PrintJob) (s s' : PrintState) (ps : List Piece) : Prop :=
  ∃ passed, s.pending = passed ++ s'.pending ∧ Stretch j passed s.writer s'.writer ps

namespace Adds

variable {j : PrintJob} {s s' s'' : PrintState} {ps qs : List Piece}

theorem refl (s : PrintState) : Adds j s s [] := ⟨[], rfl, .refl _⟩

theorem trans (h : Adds j s s' ps) (h' : Adds j s' s'' qs) : Adds j s s'' (ps ++ qs) := by
  obtain ⟨passed, hpending, hps⟩ := h
  obtain ⟨passed', hpending', hqs⟩ := h'
  exact ⟨passed ++ passed', by rw [hpending, hpending', List.append_assoc], hps.trans hqs⟩

theorem pending_suffix (h : Adds j s s' ps) : s'.pending <:+ s.pending := by
  obtain ⟨passed, hpending, -⟩ := h
  exact ⟨passed, hpending.symm⟩

theorem pending_eq_nil (h : Adds j s s' ps) (hs : s.pending = []) : s'.pending = [] :=
  List.suffix_nil.mp (hs ▸ h.pending_suffix)

/-- Going back leaves nothing but the comments that were passed over. -/
theorem rewind (h : Adds j s s' ps) : Adds j s
    { s' with writer := s'.writer.rewind s.writer.mark } [] := by
  obtain ⟨passed, hpending, hps⟩ := h
  refine ⟨passed, hpending, ?_⟩
  rw [Writer.rewind_mark hps.output hps.indentLevel]
  exact .refl _

/-- The level that was raised for a step is lowered again. -/
theorem dedent (h : Adds j { s with writer := s.writer.indent } s' ps) :
    Adds j s { s' with writer := s'.writer.dedent } ps := by
  obtain ⟨passed, hpending, hps⟩ := h
  have hlevel : s'.writer.dedent.indentLevel = s.writer.indentLevel := by
    rw [Writer.dedent, hps.indentLevel]
    rfl
  exact ⟨passed, hpending, { hps with output := hps.output, indentLevel := hlevel }⟩

end Adds

/-- A step gives the same result with comments to come and without, and writes the same code. -/
def Weaves {α : Type} (m : Print α) : Prop :=
  ∀ (p : PrintPlace) (s s₀ : PrintState), s₀.pending = [] →
    (m p s).1 = (m p s₀).1 ∧ ∃ ps ps₀, Adds p.job s (m p s).2 ps ∧ Adds p.job s₀ (m p s₀).2 ps₀ ∧
      Text.dense (Piece.codeOf ps) = Text.dense (Piece.codeOf ps₀)

namespace Weaves

variable {α β : Type} {m : Print α}

theorem pure (a : α) : Weaves (Pure.pure a) :=
  fun _ s s₀ _ => ⟨rfl, [], [], .refl s, .refl s₀, rfl⟩

theorem bind {k : α → Print β} (h : Weaves m) (hk : ∀ a, Weaves (k a)) : Weaves (m >>= k) := by
  intro p s s₀ hs₀
  obtain ⟨hresult, ps, ps₀, hps, hps₀, hcode⟩ := h p s s₀ hs₀
  obtain ⟨hresult', qs, qs₀, hqs, hqs₀, hcode'⟩ :=
    hk (m p s).1 p (m p s).2 (m p s₀).2 (hps₀.pending_eq_nil hs₀)
  rw [bind_run, bind_run, ← hresult]
  refine ⟨hresult', ps ++ qs, ps₀ ++ qs₀, hps.trans hqs, hps₀.trans hqs₀, ?_⟩
  rw [Piece.codeOf_append, Piece.codeOf_append, Text.dense_append, Text.dense_append, hcode, hcode']

theorem ask {k : PrintPlace → Print β} (h : ∀ p, Weaves (k p)) :
    Weaves (MonadReader.read >>= k) :=
  fun p => h p p

/-- A step in another place of the same job. -/
theorem within {f : PrintPlace → PrintPlace} (h : Weaves m) (hf : ∀ p, (f p).job = p.job) :
    Weaves (withReader f m) := by
  intro p s s₀ hs₀
  have := h (f p) s s₀ hs₀
  rwa [hf] at this

theorem write (text : String) : Weaves (write text) := by
  intro p s s₀ _
  obtain ⟨ps, hps, hcode⟩ := Stretch.write (j := p.job) s.writer text
  obtain ⟨ps₀, hps₀, hcode₀⟩ := Stretch.write (j := p.job) s₀.writer text
  exact ⟨rfl, ps, ps₀, ⟨[], rfl, hps⟩, ⟨[], rfl, hps₀⟩, hcode.trans hcode₀.symm⟩

theorem line : Weaves line := by
  intro p s s₀ _
  obtain ⟨ps, hps, hcode⟩ := Stretch.line (j := p.job) s.writer
  obtain ⟨ps₀, hps₀, hcode₀⟩ := Stretch.line (j := p.job) s₀.writer
  exact ⟨rfl, ps, ps₀, ⟨[], rfl, hps⟩, ⟨[], rfl, hps₀⟩, hcode.trans hcode₀.symm⟩

theorem indented (h : Weaves m) : Weaves (indented m) := by
  intro p s s₀ hs₀
  obtain ⟨hresult, ps, ps₀, hps, hps₀, hcode⟩ :=
    h p { s with writer := s.writer.indent } { s₀ with writer := s₀.writer.indent } hs₀
  exact ⟨hresult, ps, ps₀, hps.dedent, hps₀.dedent, hcode⟩

theorem onComments {m : Print Unit} (h : OnComments m) : Weaves m := by
  intro p s s₀ _
  obtain ⟨passed, ps, hpending, hps⟩ := h.annotates p s
  obtain ⟨passed₀, ps₀, hpending₀, hps₀⟩ := h.annotates p s₀
  exact ⟨rfl, ps, ps₀, ⟨passed, hpending, hps.toStretch⟩, ⟨passed₀, hpending₀, hps₀.toStretch⟩,
    hps.blank.trans hps₀.blank.symm⟩

theorem commented {m : Print Unit} (span : Span) (h : Weaves m) (hdecided : Decided m) :
    Weaves (commented span m) := by
  intro p s s₀ hs₀
  have hbody : Weaves (do leadingComments span.start; m) :=
    (onComments (.leading _)).bind fun _ => h
  obtain ⟨-, ps, ps₀, hps, hps₀, hcode⟩ := hbody p s s₀ hs₀
  rw [commented_run, commented_run]
  rcases hdecided p with hwrites | hsilent
  · have hwrote : ∀ s, (coded span m p s).writer.wroteSince (opened span p s).writer.mark = true :=
      fun s => hwrites _
    rw [if_pos (hwrote s), if_pos (hwrote s₀)]
    have hafter : Weaves (do skipComments span.stop; trailingComments span.stop) :=
      (onComments (.skip _)).bind fun _ => onComments (.trailing _)
    obtain ⟨-, qs, qs₀, hqs, hqs₀, hcode'⟩ := hafter p _ _ (hps₀.pending_eq_nil hs₀)
    refine ⟨rfl, ps ++ qs, ps₀ ++ qs₀, hps.trans hqs, hps₀.trans hqs₀, ?_⟩
    rw [Piece.codeOf_append, Piece.codeOf_append, Text.dense_append, Text.dense_append, hcode,
      hcode']
  · have hwrote :
      ∀ s, ¬ (coded span m p s).writer.wroteSince (opened span p s).writer.mark = true :=
      fun s => ne_of_eq_of_ne (hsilent _) Bool.false_ne_true
    rw [if_neg (hwrote s), if_neg (hwrote s₀)]
    obtain ⟨-, qs, qs₀, hqs, hqs₀, hcode'⟩ :=
      onComments (.skip span.stop) p _ _ (hps₀.rewind.pending_eq_nil hs₀)
    exact ⟨rfl, qs, qs₀, hps.rewind.trans hqs, hps₀.rewind.trans hqs₀, hcode'⟩

theorem tentative {m : Print Bool} (h : Weaves m) : Weaves (tentative m) := by
  intro p s s₀ hs₀
  have hrun : ∀ s, Print.tentative m p s =
      (if !((do space; m : Print Bool) p s).1 then rewind s.writer.mark else return ()) p
        ((do space; m : Print Bool) p s).2 := fun _ => rfl
  have hbody : Weaves (do space; m) := (write " ").bind fun _ => h
  obtain ⟨hresult, ps, ps₀, hps, hps₀, hcode⟩ := hbody p s s₀ hs₀
  rw [hrun, hrun, hresult]
  cases ((do space; m : Print Bool) p s₀).1 with
  | true => exact ⟨rfl, ps, ps₀, hps, hps₀, hcode⟩
  | false => exact ⟨rfl, [], [], hps.rewind, hps₀.rewind, rfl⟩

end Weaves

theorem Composed.weaves {α : Type} {m : Print α} (h : Composed m) : Weaves m := by
  induction h with
  | pure a => exact .pure a
  | bind _ _ ihm ihk => exact ihm.bind ihk
  | ask _ _ ih => exact .ask ih
  | inScopeOf _ _ ih | withTarget _ _ ih | withEnum _ _ ih => exact ih.within fun _ => rfl
  | write text => exact .write text
  | line => exact .line
  | indented _ ih => exact ih.indented
  | comments h => exact .onComments h
  | commented span _ hdecided ih => exact ih.commented span hdecided
  | tentative _ ih => exact ih.tentative

theorem Composed.length_le {α : Type} {m : Print α} (h : Composed m) (p : PrintPlace)
    (s : PrintState) : s.writer.length ≤ (m p s).2.writer.length := by
  obtain ⟨_, ps, _, ⟨_, _, hps⟩, _⟩ := h.weaves p s { pending := [] } rfl
  rw [Writer.length, Writer.length, hps.output, String.utf8ByteSize_append]
  exact Nat.le_add_right _ _

/-- Composed steps that write something in any case. -/
structure Voiced {α : Type} (m : Print α) : Prop where
  composed : Composed m
  writes : ∀ p s, s.writer.length < (m p s).2.writer.length

/-- Composed steps of which the place alone decides whether they write anything. -/
structure Settled {α : Type} (m : Print α) : Prop where
  composed : Composed m
  decided : Decided m

namespace Voiced

variable {α β : Type} {m : Print α}

theorem write {text : String} (h : text ≠ "") : Voiced (write text) where
  composed := .write text
  writes p s := by
    have hpos : text.utf8ByteSize ≠ 0 := mt String.utf8ByteSize_eq_zero_iff.mp h
    change s.writer.length < (s.writer.write text).length
    rw [s.writer.write_eq h, Writer.length, Writer.length, String.utf8ByteSize_append,
      String.utf8ByteSize_append]
    omega

theorem space : Voiced space := write (by decide)

theorem bind {k : α → Print β} (h : Voiced m) (hk : ∀ a, Composed (k a)) : Voiced (m >>= k) where
  composed := h.composed.bind hk
  writes p s := (h.writes p s).trans_le ((hk (m p s).1).length_le p (m p s).2)

theorem seq {n : Print β} (h : Voiced m) (hn : Composed n) : Voiced (m >>= fun _ => n) :=
  h.bind fun _ => hn

/-- Steps that write something at the end. -/
theorem after {k : α → Print β} (h : Composed m) (hk : ∀ a, Voiced (k a)) : Voiced (m >>= k) where
  composed := h.bind fun a => (hk a).composed
  writes p s := (h.length_le p s).trans_lt ((hk (m p s).1).writes p (m p s).2)

theorem ite {c : Prop} [Decidable c] {n : Print α} (h : Voiced m) (hn : Voiced n) :
    Voiced (if c then m else n) := by
  split
  · exact h
  · exact hn

/-- A step that is left out unless a condition holds. -/
theorem when {c : Prop} [Decidable c] {m : Print Unit} {k : Unit → Print β} (h : Composed m)
    (hk : Voiced (k ())) : Voiced (if c then m >>= k else k ()) := by
  split
  · exact after h fun _ => hk
  · exact hk

theorem ask {k : PrintPlace → Print β} (h : ∀ p, Voiced (k p))
    (hk : ∀ p, k p.uncommented = k p) : Voiced (MonadReader.read >>= k) where
  composed := .ask (fun p => (h p).composed) hk
  writes p s := (h p).writes p s

theorem job {k : PrintJob → Print β} (h : ∀ j, Voiced (k j)) (hk : ∀ j, k j.uncommented = k j) :
    Voiced (job >>= k) :=
  ask (fun p => h p.job) fun p => hk p.job

theorem options {k : Options → Print β} (h : ∀ o, Voiced (k o)) : Voiced (options >>= k) :=
  ask (fun p => h p.job.options) fun _ => rfl

theorem inScopeOf (node : NodeId) (h : Voiced m) : Voiced (inScopeOf node m) where
  composed := h.composed.inScopeOf node
  writes p s := h.writes { p with scope := (p.job.bindings.scopeOf? node).getD p.scope } s

theorem decided (h : Voiced m) : Decided m :=
  fun p => .inl fun s => decide_eq_true (h.writes p s)

theorem settled (h : Voiced m) : Settled m := ⟨h.composed, h.decided⟩

end Voiced

namespace Settled

variable {α β : Type} {m : Print α}

theorem pure (a : α) : Settled (Pure.pure a : Print α) where
  composed := .pure a
  decided _ := .inr fun s => decide_eq_false (Nat.lt_irrefl s.writer.length)

theorem nothing : Settled (Pure.pure () : Print Unit) := pure ()

theorem ite {c : Prop} [Decidable c] {n : Print α} (h : Settled m) (hn : Settled n) :
    Settled (if c then m else n) := by
  split
  · exact h
  · exact hn

theorem ask {k : PrintPlace → Print β} (h : ∀ p, Settled (k p))
    (hk : ∀ p, k p.uncommented = k p) : Settled (MonadReader.read >>= k) where
  composed := .ask (fun p => (h p).composed) hk
  decided p := (h p).decided p

theorem job {k : PrintJob → Print β} (h : ∀ j, Settled (k j)) (hk : ∀ j, k j.uncommented = k j) :
    Settled (job >>= k) :=
  ask (fun p => h p.job) fun p => hk p.job

theorem target {k : ExportTarget → Print β} (h : ∀ t, Settled (k t)) : Settled (target >>= k) :=
  ask (fun p => h p.target) fun _ => rfl

theorem option {ε : Type} {f : ε → Print Unit} (a? : Option ε) (h : ∀ a, Voiced (f a)) :
    Settled (a?.forM f) := by
  cases a? with
  | none => exact nothing
  | some a => exact (h a).settled

theorem commented {m : Print Unit} (h : Settled m) (span : Span) : Composed (commented span m) :=
  .commented span h.composed h.decided

end Settled
end Erasure.Print

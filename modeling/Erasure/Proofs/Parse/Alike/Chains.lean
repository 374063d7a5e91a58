import Erasure.Proofs.Parse.Alike

/-!
Patterns, chains and functions over two grammars, and the progress of the lists in them.
-/

namespace Erasure.Parse

set_option synthInstance.maxSize 5000

variable {g g' : Grammar} [Lawful g]

instance : Alike g g' (propertyKey g) (propertyKey g') := by
  unfold propertyKey
  refine .bind inferInstance fun _ => .bind inferInstance fun _ => ?_
  split <;> infer_instance

instance (k : TokenKind) : Alike g g' (typeAfter? g k) (typeAfter? g' k) := by
  unfold typeAfter?
  infer_instance

instance : Alike g g' (typeClause? g) (typeClause? g') := by
  unfold typeClause?
  infer_instance

instance : Alike g g' (initializer? g) (initializer? g') := by
  unfold initializer?
  infer_instance

instance : Alike g g' (propertyBinding? g) (propertyBinding? g') := by
  unfold propertyBinding?
  infer_instance

instance (start : Nat) (isRest : Bool) (target : Option (Option Node × Node)) :
    Alike g g' (targetRest g start isRest target) (targetRest g' start isRest target) := by
  unfold targetRest
  split <;> infer_instance

instance : Alike g g' (objectPatternElement g) (objectPatternElement g') := by
  unfold objectPatternElement
  dsimp only
  infer_instance

theorem targetRest_leads (n start : Nat) (isRest : Bool) (target : Option (Option Node × Node)) :
    Leads (live n) (targetRest g start isRest target) (moved gathers n) := by
  unfold targetRest
  split
  · exact .stop nofun
  · exact .step (proceeds g) fun _ => .stay fun _ =>
      .accept (by decide) (.rest inferInstance) (.stop nofun)

instance : Gathers (objectPatternElement g) := by
  refine .of_leads fun n => ?_
  unfold objectPatternElement
  refine .ifAtClose (.stop nofun) (.stay fun start => .step inferInstance fun isRest => ?_)
  exact .ite (fun _ => .step inferInstance fun _ => .stay fun _ => targetRest_leads _ _ _ _)
    fun _ => .step (proceeds g) fun _ => targetRest_leads _ _ _ _

instance : Alike g g' (objectPattern g) (objectPattern g') := by
  unfold objectPattern
  infer_instance

instance : Alike g g' (arrayPatternElement g) (arrayPatternElement g') := by
  unfold arrayPatternElement
  infer_instance

instance (x : List (Option Node) × Bool) :
    Alike g g' (arrayPatternStep g x) (arrayPatternStep g' x) := by
  unfold arrayPatternStep
  infer_instance

instance : Advances (arrayPatternStep g) := by
  refine .of_leads fun n x => ?_
  unfold arrayPatternStep
  refine .ifAtClose (.stop id) (.ifAccept (by decide) (.rest inferInstance) ?_)
  refine .stay fun _ => .stay fun _ => .ite (fun _ => .stay fun _ => .stop id) fun _ => ?_
  exact .step (proceeds g) fun _ => .ifAccept (by decide) (.rest inferInstance) (.stop id)

instance : Alike g g' (arrayPatternElements g) (arrayPatternElements g') := by
  unfold arrayPatternElements
  infer_instance

instance : Alike g g' (arrayPattern g) (arrayPattern g') := by
  unfold arrayPattern
  refine .bind inferInstance fun _ => .bind inferInstance fun _ => .bind inferInstance
    fun ⟨_, _⟩ => ?_
  infer_instance

instance (missing : Message) : Alike g g' (binding g missing) (binding g' missing) := by
  unfold binding
  refine .bind inferInstance fun _ => ?_
  split <;> infer_instance

section
variable {close : TokenKind} {missing : Message} {isStart : Parse Bool} [Stays isStart]
  {element element' : Parse Node}

instance [Alike g g' element element'] (list : OpenList) :
    Alike g g' (delimitedStep close missing isStart element list)
      (delimitedStep close missing isStart element' list) := by
  unfold delimitedStep
  dsimp only
  infer_instance

theorem advances_delimitedStep (helement : Proceeds element) :
    Advances (delimitedStep close missing isStart element) := by
  refine .of_leads fun n list => ?_
  unfold delimitedStep
  refine .ifAtClose (.stop id) (.stay fun found => .branch (fun _ => ?_) fun _ => ?_)
  · refine .start fun start hstart => .stay fun _ => .step helement fun _ => ?_
    refine .ifAccept (by decide) (.rest inferInstance) (.stay fun _ => .branch (fun _ => .stop id)
      fun _ => .step inferInstance fun _ => ?_)
    exact .guard hstart (.rest inferInstance)
  · exact .stay fun _ => .stay fun _ => .branch (fun _ => .stop id) fun _ =>
      .advance (.rest inferInstance)

instance [h : Alike g g' element element'] :
    Alike g g' (delimitedList close missing isStart element)
      (delimitedList close missing isStart element') := by
  have : Advances (delimitedStep close missing isStart element) :=
    advances_delimitedStep h.proceeds
  unfold delimitedList
  dsimp only
  infer_instance

end

instance (start : Nat) (x : Node × Nat) :
    Alike g g' (commaStep g start x) (commaStep g' start x) := by
  unfold commaStep
  infer_instance

instance (start : Nat) : Advances (commaStep g start) := by
  refine .of_leads fun n x => ?_
  unfold commaStep
  refine .isToken (by decide) ?_ (.stop id)
  exact .stay fun _ => .branch (fun _ => .stop id) fun _ => .stay fun _ =>
    .advance (.rest (proceeds g))

instance : Alike g g' (expression g) (expression g') := by
  unfold expression
  refine .withContext _ (.bind inferInstance fun _ => .bind inferInstance fun _ =>
    .bind inferInstance fun ⟨_, _⟩ => ?_)
  infer_instance

instance : Alike g g' (expressionAllowIn g) (expressionAllowIn g') := by
  unfold expressionAllowIn
  infer_instance

instance : Alike g g' (templateStep g) (templateStep g') := by
  unfold templateStep
  refine .bind inferInstance fun _ => .bind inferInstance fun _ => .bind inferInstance
    fun ⟨_, _⟩ => ?_
  infer_instance

/-- A template goes on only behind the text after a substitution. -/
theorem templateContinuation_leads (n : Nat) :
    Leads (since n) templateContinuation (moved (fun x => x.2 = false) n) := by
  unfold templateContinuation
  refine .ifToken (by decide) (.step inferInstance fun _ => .stay fun _ => ?_)
    (.step inferInstance fun _ => .stop nofun)
  exact .advance (.rest inferInstance)

instance : Gathers (templateStep g) := by
  refine .of_leads fun n => ?_
  unfold templateStep
  refine .stay fun _ => .step (proceeds g) fun _ => .bind (templateContinuation_leads n)
    fun ⟨_, _⟩ => ?_
  exact .stay fun _ => .pure fun _ ha => ha

instance : Alike g g' (template g) (template g') := by
  unfold template
  infer_instance

theorem template_leads (n : Nat) : Leads (live n) (template g) fun _ => past n := by
  unfold template
  refine .stay fun _ => .stay fun _ => .branch (fun _ => ?_) fun _ => ?_
  · exact .stay fun _ => .stay fun _ => .advance (.keep inferInstance)
  · exact .stay fun _ => .advance (.keep (proceeds g))

instance : Alike g g' (argument g) (argument g') := by
  unfold argument
  infer_instance

instance : Alike g g' (argumentList g) (argumentList g') := by
  unfold argumentList
  dsimp only
  refine .bind inferInstance fun _ => .bind inferInstance fun ⟨_, _⟩ => ?_
  infer_instance

theorem argumentList_leads (n : Nat) :
    Leads (fun a => since n a ∧ a.token = .openParen) (argumentList g) fun _ => past n := by
  unfold argumentList
  exact .require (by decide) (.keep (proceeds g))

instance : Alike g g' (typeArgumentStep g) (typeArgumentStep g') := by
  unfold typeArgumentStep
  infer_instance

instance : Gathers (typeArgumentStep g) := by
  refine .of_leads fun n => ?_
  unfold typeArgumentStep
  exact .step inferInstance fun _ => .accept (by decide) (.rest inferInstance) (.stop nofun)

instance : Alike g g' (expressionTypeArguments? g) (expressionTypeArguments? g') := by
  unfold expressionTypeArguments?
  infer_instance

theorem expressionTypeArguments_leads (n : Nat) :
    Leads (since n) (expressionTypeArguments? g) (moved (fun x => x.isSome = true) n) := by
  unfold expressionTypeArguments?
  refine .isToken (by decide) (.attempt (proceeds g) ?_) (.stop nofun)
  exact .stay fun _ => .advance (.rest (proceeds g))

section
variable {step step' : Node → Parse (ForInStep Node)}

instance [∀ n, Alike g g' (step n) (step' n)] (x : Node × Nat) :
    Alike g g' (chainStep step x) (chainStep step' x) := by
  unfold chainStep
  refine .bind inferInstance fun _ => ?_
  split
  · infer_instance
  · refine .bind inferInstance fun r => ?_
    cases r <;> infer_instance

theorem advances_chainStep
    (hstep : ∀ n target, Leads (since n) (step target) (moved yields n)) :
    Advances (chainStep step) := by
  refine .of_leads fun n x => ?_
  unfold chainStep
  refine .stay fun _ => .branch (fun _ => .stop id) fun _ => .bind (hstep n _) fun r => ?_
  cases r with
  | done _ => exact .stop id
  | yield _ => exact .pure fun _ ha => ha

end

instance (start : Nat) (tag : Node) (typeArguments : Option (List Node)) :
    Alike g g' (taggedTemplate g start tag typeArguments)
      (taggedTemplate g' start tag typeArguments) := by
  unfold taggedTemplate
  infer_instance

instance (start : Nat) (target : Node) (isOptional : Bool) :
    Alike g g' (elementAccess g start target isOptional)
      (elementAccess g' start target isOptional) := by
  unfold elementAccess
  infer_instance

instance (start : Nat) (target : Node) :
    Alike g g' (instantiationStep g start target) (instantiationStep g' start target) := by
  unfold instantiationStep
  refine .bind inferInstance fun _ => ?_
  split <;> infer_instance

theorem instantiationStep_leads (n start : Nat) (target : Node) :
    Leads (since n) (instantiationStep g start target) (moved yields n) := by
  unfold instantiationStep
  refine .bind (expressionTypeArguments_leads n) fun types? => ?_
  split
  · exact .stay fun _ => .pure fun _ ha _ => ha rfl
  · exact .stop id

instance (start : Nat) (target : Node) :
    Alike g g' (postfixChain g start target) (postfixChain g' start target) := by
  unfold postfixChain
  infer_instance

theorem postfixChain_leads (n start : Nat) (target : Node) :
    Leads (since n) (postfixChain g start target) (moved yields n) := by
  unfold postfixChain
  refine .isToken (by decide) (.stay fun _ => .ite (fun _ => ?_) fun _ => ?_)
    (.stay fun _ => instantiationStep_leads n start target)
  · exact .advance (.rest inferInstance)
  · exact (instantiationStep_leads n start target).weaken fun _ => From.le

instance (start : Nat) (isOptional : Bool) (target : Node) :
    Alike g g' (quasiStep g start isOptional target) (quasiStep g' start isOptional target) := by
  unfold quasiStep
  dsimp only
  infer_instance

theorem quasiStep_leads (n start : Nat) (isOptional : Bool) (target : Node) :
    Leads (since n) (quasiStep g start isOptional target) (moved yields n) := by
  unfold quasiStep
  dsimp only
  refine .token fun k => .branch (fun hk => .known ?_ ?_) fun _ =>
    .weaken (C := since n) ?_ fun _ => And.left
  · rintro rfl
    cases hk
  · exact .bind (.bind (template_leads n) fun _ => .keep inferInstance) fun _ => .rest inferInstance
  · exact .branch (fun _ => .stop id) fun _ => postfixChain_leads n start target

instance (start : Nat) (isOptional : Bool) (target : Node) :
    Alike g g' (elementStep g start isOptional target)
      (elementStep g' start isOptional target) := by
  unfold elementStep
  dsimp only
  infer_instance

theorem elementStep_leads (n start : Nat) (isOptional : Bool) (target : Node) :
    Leads (since n) (elementStep g start isOptional target) (moved yields n) := by
  unfold elementStep
  have quasi := quasiStep_leads (g := g) n start isOptional target
  exact .stay fun _ => .ite (fun _ => .ifAccept (by decide) (.rest (proceeds g)) quasi)
    fun _ => quasi

instance (start : Nat) (allowOptional : Bool) (target : Node) :
    Alike g g' (memberStep g start allowOptional target)
      (memberStep g' start allowOptional target) := by
  unfold memberStep
  infer_instance

/-- The sign of an optional chain is no end of the text. -/
theorem isOptionalChain_leads (isAllowed : Bool) :
    Leads (fun a => a.token = .endOfFile) (isOptionalChain isAllowed)
      fun found _ => found = false := by
  unfold isOptionalChain
  refine .ite (fun _ => .pure fun _ _ => rfl) fun _ => ?_
  refine .ask (R := fun found a => found = decide (a.token = .questionDot)) (fun _ => rfl)
    fun found => .ite (fun _ => .pure fun _ _ => rfl) fun h => .of_false fun a ha => ?_
  rw [ha.2, ha.1] at h
  exact h rfl

theorem memberStep_leads (n start : Nat) (allowOptional : Bool) (target : Node) :
    Leads (since n) (memberStep g start allowOptional target) (moved yields n) := by
  unfold memberStep
  refine .stay fun _ => .test (isOptionalChain_leads allowOptional) ?_ ?_
  · refine .bind (R := fun _ => past n) ?_ fun _ => .rest (proceeds g)
    exact .advance (.keep inferInstance)
  · show Leads (since n) (accept .dot >>= fun found => if found = true then _ else _) _
    exact .ifAccept (by decide) (.rest inferInstance) (elementStep_leads n start false target)

instance (start : Nat) (allowOptional : Bool) (first : Node) :
    Alike g g' (memberChain g start allowOptional first)
      (memberChain g' start allowOptional first) := by
  unfold memberChain
  have := advances_chainStep fun n => memberStep_leads (g := g) n start allowOptional
  refine .bind inferInstance fun ⟨_, _⟩ => ?_
  infer_instance

instance (start : Nat) (isOptional : Bool) (callee : Node) (typeArguments : Option (List Node)) :
    Alike g g' (callRest g start isOptional callee typeArguments)
      (callRest g' start isOptional callee typeArguments) := by
  unfold callRest
  infer_instance

instance (start : Nat) (callee : Node) :
    Alike g g' (callStep g start callee) (callStep g' start callee) := by
  unfold callStep
  infer_instance

theorem callStep_leads (n start : Nat) (callee : Node) :
    Leads (since n) (callStep g start callee) (moved yields n) := by
  unfold callStep callRest
  refine .step (proceeds g) fun _ => .ifAccept (by decide) (.rest (proceeds g)) ?_
  refine .stay fun _ => .onToken (.ite (fun _ => ?_) fun h => absurd rfl h) (.stop id)
  split
  exact .bind (argumentList_leads n) fun _ => .rest inferInstance

instance (start : Nat) (first : Node) :
    Alike g g' (callChain g start first) (callChain g' start first) := by
  unfold callChain
  have := advances_chainStep fun n => callStep_leads (g := g) n start
  refine .bind inferInstance fun ⟨_, _⟩ => ?_
  infer_instance

instance : Alike g g' (leftHandSide g) (leftHandSide g') := by
  unfold leftHandSide
  infer_instance

instance : Alike g g' (decoratorStep g) (decoratorStep g') := by
  unfold decoratorStep
  infer_instance

instance : Gathers (decoratorStep g) := by
  refine .of_leads fun n => ?_
  unfold decoratorStep
  exact .stay fun _ => .ifAccept (by decide) (.rest (proceeds g)) (.stop nofun)

instance : Alike g g' (decorators g) (decorators g') := by
  unfold decorators
  infer_instance

end Erasure.Parse

import Erasure.Compile
import Erasure.Proofs.Print.Composed.File
import Erasure.Proofs.Print.FieldAssignments

/-!
When static fields and static blocks run. In the source they run in the order of the members and
inside of the class: `this` is the class, and its private names are known. In the output, what stays
in the class runs first, and then the assignments that stand behind the class.
-/

namespace Erasure

/-- The key of a class member. -/
def Form.memberKey? : Form → Option Node
  | .propertyMember key _ _ _ _ | .methodMember key _ _ | .getterMember key _
  | .setterMember key _ => some key
  | _ => none

/-- The nodes right below a form that have its `this`. Arrow functions are among them; functions,
fields and static blocks have a `this` of their own, but not the keys and decorators of members. -/
def Form.sameReceiver : Form → List Node
  | .functionLike _ => []
  | .classMember decorators _ member => decorators ++ member.memberKey?.toList
  | form => form.children

/-- The words whose meaning depends on the object that code runs for, or on how it is called. -/
def Form.isReceiver : Form → Bool
  | .thisExpr | .superExpr | .metaProperty .newKw _ => true
  | _ => false

/-- A node in which `this`, `super` or `new.target` stands for what it stands for around the
node. -/
inductive Node.ReadsReceiver : Node → Prop
  | here {n : Node} : n.form.isReceiver = true → ReadsReceiver n
  | inside {n inner : Node} : inner ∈ n.form.sameReceiver → ReadsReceiver inner → ReadsReceiver n

/-- The private name that a form uses. -/
def Form.usedPrivate? : Form → Option String
  | .privateName name => some name
  | .propertyAccess _ name _ _ => if name.isPrivate then some name.ident.text else none
  | _ => none

/-- The private name that a class member declares. -/
def Form.declaredPrivate? : Form → Option String
  | .classMember _ _ member => member.memberKey?.bind fun key =>
      match key.form with
      | .privateKey name => some name
      | _ => none
  | _ => none

/-- The private names that the members of a class declare. -/
def ClassLike.privateNames (c : ClassLike) : List String :=
  c.members.filterMap fun m => m.form.declaredPrivate?

/-- A node that uses one of the private names of a class around it. The members of a class inside
see its own private names first; its decorators and its base do not see them. -/
inductive Node.UsesPrivate : List String → Node → Prop
  | here {names : List String} {n : Node} {name : String} :
      n.form.usedPrivate? = some name → name ∈ names → UsesPrivate names n
  | inside {names : List String} {n inner : Node} :
      (∀ c, n.form ≠ .classLike c) → inner ∈ n.form.children → UsesPrivate names inner →
        UsesPrivate names n
  | around {names : List String} {n inner : Node} {c : ClassLike} :
      n.form = .classLike c → inner ∈ c.decorators ++ c.base.toList →
        UsesPrivate names inner → UsesPrivate names n
  | member {names : List String} {n inner : Node} {c : ClassLike} :
      n.form = .classLike c → inner ∈ c.members →
        UsesPrivate (names.filter fun name => !c.privateNames.contains name) inner →
          UsesPrivate names n

namespace ClassMember

/-- The initializer of a static field, or the statements of a static block. -/
def staticCode? (m : ClassMember) : Option Node :=
  match m.form with
  | .staticBlock body => some body
  | .propertyMember _ _ _ _ initial? => if m.isStatic && !m.isErased then initial? else none
  | _ => none

/-- A static member whose code means something else outside of its class. -/
def DependsOn (c : ClassLike) (m : ClassMember) : Prop :=
  ∃ code ∈ m.staticCode?, code.ReadsReceiver ∨ code.UsesPrivate c.privateNames

end ClassMember

/-- The members that run when the class is defined, in source order. -/
def ClassLike.staticSteps (c : ClassLike) : List ClassMember :=
  (c.members.filterMap ClassMember.ofNode?).filter fun m => m.staticCode?.isSome

/-- Where a member runs: `this` and private names are those of the class, or those around it. -/
inductive Receiver where
  | theClass
  | around

namespace FieldPlan

/-- Whether a member becomes an assignment behind the class. -/
def movesBehind (plan : FieldPlan) (m : ClassMember) : Bool :=
  !plan.usesDefine && plan.hoistsStatics && m.staticAssignment?.isSome

/-- The order in which the printed class and the assignments behind it run, each with its place. -/
def printedRuns (plan : FieldPlan) (c : ClassLike) : List (ClassMember × Receiver) :=
  ((c.staticSteps.filter fun m => !plan.movesBehind m).map fun m => (m, .theClass)) ++
    (c.staticSteps.filter plan.movesBehind).map fun m => (m, .around)

end FieldPlan

/-- The order in which the members of the source run, each with its place. -/
def ClassLike.sourceRuns (c : ClassLike) : List (ClassMember × Receiver) :=
  c.staticSteps.map fun m => (m, .theClass)

/-- A meaning of the static members of a class: what each does to a state of the program. One that
does not depend on the class does the same in any place. -/
structure StaticMeaning (c : ClassLike) (σ : Type) where
  run : ClassMember → Receiver → σ → σ
  run_eq : ∀ m, ¬ m.DependsOn c → ∀ r r', run m r = run m r'

namespace StaticMeaning
variable {c : ClassLike} {σ : Type} (M : StaticMeaning c σ)

def runAll (steps : List (ClassMember × Receiver)) (s : σ) : σ :=
  steps.foldl (fun s step => M.run step.1 step.2 s) s

theorem runAll_append (first second : List (ClassMember × Receiver)) (s : σ) :
    M.runAll (first ++ second) s = M.runAll second (M.runAll first s) :=
  List.foldl_append

/-- Members that do not depend on the class run the same in any place. -/
theorem runAll_map {ms : List ClassMember} (h : ∀ m ∈ ms, ¬ m.DependsOn c) (r r' : Receiver)
    (s : σ) : M.runAll (ms.map fun m => (m, r)) s = M.runAll (ms.map fun m => (m, r')) s := by
  induction ms generalizing s with
  | nil => rfl
  | cons m ms ih =>
      have hm := M.run_eq m (h m List.mem_cons_self) r r'
      have hms := ih fun m hm => h m (List.mem_cons_of_mem _ hm)
      change M.runAll _ (M.run m r s) = M.runAll _ (M.run m r' s)
      rw [hm, hms]

open Classical in
/-- What is written down about a member that runs: the place only if the member depends on it. -/
noncomputable def logged (c : ClassLike) (step : ClassMember × Receiver) :
    ClassMember × Option Receiver :=
  (step.1, if step.1.DependsOn c then some step.2 else none)

theorem logged_of_dependsOn {m : ClassMember} (h : m.DependsOn c) (r : Receiver) :
    logged c (m, r) = (m, some r) := by
  simp [logged, h]

/-- The meaning that writes down what runs. -/
noncomputable def log (c : ClassLike) : StaticMeaning c (List (ClassMember × Option Receiver)) where
  run m r s := s ++ [logged c (m, r)]
  run_eq m h r r' := by simp [logged, h]

theorem runAll_log (steps : List (ClassMember × Receiver))
    (s : List (ClassMember × Option Receiver)) :
    (log c).runAll steps s = s ++ steps.map (logged c) := by
  induction steps generalizing s with
  | nil => exact (List.append_nil s).symm
  | cons step steps ih =>
      change (log c).runAll steps (s ++ [logged c step]) = _
      rw [ih, List.append_assoc]
      rfl

end StaticMeaning

/-- Taking the elements with a property to the end leaves a list as it is exactly if they stand at
its end. -/
theorem filter_not_append_filter_eq_iff {α : Type} (p : α → Bool) (as : List α) :
    (as.filter fun a => !p a) ++ as.filter p = as ↔ as.Pairwise fun a b => p a → p b := by
  induction as with
  | nil => simp
  | cons a as ih =>
      rw [List.pairwise_cons, ← ih]
      cases ha : p a with
      | false => simp [ha]
      | true =>
          simp only [List.filter_cons, ha, Bool.not_true, Bool.false_eq_true, if_false, if_true,
            forall_const]
          constructor
          · intro h
            -- What is not moved would have to start with `a`, which is moved.
            have hnone : (as.filter fun a => !p a) = [] := by
              cases hkept : as.filter fun a => !p a with
              | nil => rfl
              | cons b bs =>
                  have hb := (List.mem_filter.mp (hkept ▸ List.mem_cons_self : b ∈ _)).2
                  rw [hkept] at h
                  obtain rfl : b = a := (List.cons.inj h).1
                  simp [ha] at hb
            have hall : ∀ b ∈ as, p b = true := by simpa using hnone
            exact ⟨hall, by simp [hnone, List.filter_eq_self.mpr hall]⟩
          · rintro ⟨hall, -⟩
            have hnone : (as.filter fun a => !p a) = [] := by simpa using hall
            simp [hnone, List.filter_eq_self.mpr hall]

namespace FieldPlan
variable (plan : FieldPlan) (c : ClassLike)

/-- The printed class runs what the source runs, each member once. -/
theorem perm_printedRuns :
    ((plan.printedRuns c).map Prod.fst).Perm (c.sourceRuns.map Prod.fst) := by
  have hprinted : (plan.printedRuns c).map Prod.fst =
      (c.staticSteps.filter fun m => !plan.movesBehind m) ++
        c.staticSteps.filter plan.movesBehind := by
    simp [printedRuns, Function.comp_def]
  have hsource : c.sourceRuns.map Prod.fst = c.staticSteps := by
    simp [ClassLike.sourceRuns, Function.comp_def]
  rw [hprinted, hsource]
  exact List.perm_append_comm.trans (List.filter_append_perm _ _)

/-- The output does what the source does exactly if nothing that stays in the class follows what
moves behind it, and nothing that moves depends on the class. -/
theorem runAll_printedRuns_iff :
    (∀ (σ : Type) (M : StaticMeaning c σ) (s : σ),
      M.runAll (plan.printedRuns c) s = M.runAll c.sourceRuns s) ↔
      (c.staticSteps.Pairwise fun m m' => plan.movesBehind m → plan.movesBehind m') ∧
        ∀ m ∈ c.staticSteps, plan.movesBehind m → ¬ m.DependsOn c := by
  rw [← filter_not_append_filter_eq_iff]
  constructor
  · intro h
    have hlog : (plan.printedRuns c).map (StaticMeaning.logged c) =
        c.sourceRuns.map (StaticMeaning.logged c) := by
      simpa only [StaticMeaning.runAll_log, List.nil_append] using h _ (StaticMeaning.log c) []
    have horder : (c.staticSteps.filter fun m => !plan.movesBehind m) ++
        c.staticSteps.filter plan.movesBehind = c.staticSteps := by
      simpa [printedRuns, ClassLike.sourceRuns, StaticMeaning.logged, Function.comp_def] using
        congrArg (List.map Prod.fst) hlog
    refine ⟨horder, fun m hm hmoves hdepends => ?_⟩
    -- The output runs `m` outside of the class, and the source runs nothing there.
    have hprinted : (m, Receiver.around) ∈ plan.printedRuns c :=
      List.mem_append_right _ (List.mem_map.mpr ⟨m, List.mem_filter.mpr ⟨hm, hmoves⟩, rfl⟩)
    have hlogged : (m, some Receiver.around) ∈ c.sourceRuns.map (StaticMeaning.logged c) := by
      rw [← hlog, ← StaticMeaning.logged_of_dependsOn hdepends]
      exact List.mem_map.mpr ⟨_, hprinted, rfl⟩
    obtain ⟨step, hstep, heq⟩ := List.mem_map.mp hlogged
    obtain ⟨m', -, rfl⟩ := List.mem_map.mp hstep
    obtain rfl : m' = m := congrArg Prod.fst heq
    rw [StaticMeaning.logged_of_dependsOn hdepends] at heq
    simp at heq
  · rintro ⟨horder, hdepends⟩ σ M s
    have hmoved : ∀ m ∈ c.staticSteps.filter plan.movesBehind, ¬ m.DependsOn c := fun m hm =>
      hdepends m (List.mem_filter.mp hm).1 (List.mem_filter.mp hm).2
    calc M.runAll (plan.printedRuns c) s
      _ = M.runAll (((c.staticSteps.filter fun m => !plan.movesBehind m) ++
            c.staticSteps.filter plan.movesBehind).map fun m => (m, .theClass)) s := by
          rw [printedRuns, List.map_append, StaticMeaning.runAll_append,
            StaticMeaning.runAll_append, M.runAll_map hmoved .around .theClass]
      _ = M.runAll c.sourceRuns s := by rw [horder, ClassLike.sourceRuns]

end FieldPlan

namespace Print

theorem declaredName?_some (name : Identifier) (isExported : Bool) (p : PrintPlace) :
    declaredName? (some name) isExported p = pure (some (p.job.file.identifierText name)) := rfl

variable (print : Slot → Node → Print Bool)

/-- A static field or a static block as it stands in the source. -/
def staticMember (m : ClassMember) : Print Unit :=
  match m.form with
  | .propertyMember key _ _ _ initial? => do
      memberHead print m
      if m.isAccessorField then write "accessor "
      propertyKey print key
      initializer print initial?
      write ";"
  | .staticBlock body => do
      write "static "
      block print body
  | _ => pure ()

/-- The assignment behind a class that a static field becomes. -/
def staticAssignment (name : String) (m : ClassMember) : Print Unit :=
  m.staticAssignment?.forM fun field => do
    line
    memberAssignment print name field.1 field.2

end Print

section
variable {print : Slot → Node → Print Bool} {c : ClassLike} {plan : FieldPlan} {m : ClassMember}

theorem ClassMember.staticAssignment?_staticBlock {body : Node} (h : m.form = .staticBlock body) :
    m.staticAssignment? = none := by
  simp [staticAssignment?, assignedField?, h]

/-- The static members that run are the static blocks and the static fields with an initializer. -/
theorem ClassMember.staticCode?_isSome_iff :
    m.staticCode?.isSome = true ↔
      (∃ body, m.form = .staticBlock body) ∨
        m.isStatic = true ∧ m.isErased = false ∧ ∃ key isOptional isDefinite type? value,
          m.form = .propertyMember key isOptional isDefinite type? (some value) := by
  unfold staticCode?
  split
  · rename_i hform
    simp [hform]
  · rename_i initial? hform
    rw [hform]
    cases initial? <;> cases m.isStatic <;> cases m.isErased <;> simp
  · rename_i hblock hfield
    refine iff_of_false Bool.false_ne_true ?_
    rintro (⟨body, hform⟩ | ⟨-, -, key, o, d, t, value, hform⟩)
    · exact hblock body hform
    · exact hfield key o d t _ hform

theorem ClassMember.staticCode?_of_staticAssignment? (h : m.staticAssignment?.isSome = true) :
    m.staticCode?.isSome = true := by
  obtain ⟨⟨key, value⟩, hfield⟩ := Option.isSome_iff_exists.mp h
  obtain ⟨hstatic, hfield⟩ := staticAssignment?_eq_some_iff.mp hfield
  obtain ⟨o, d, t, hform⟩ := hfield.form
  exact staticCode?_isSome_iff.mpr (.inr ⟨hstatic, hfield.isKept, key, o, d, t, value, hform⟩)

/-- In the class stands what does not move behind it. -/
theorem Print.classMember_of_staticCode? (hm : m.staticCode?.isSome = true) :
    classMember print c plan m = if plan.movesBehind m then pure () else staticMember print m := by
  obtain ⟨body, hform⟩ | ⟨hstatic, hkept, key, o, d, t, value, hform⟩ :=
    ClassMember.staticCode?_isSome_iff.mp hm
  · have herased : m.isErased = false := by rw [ClassMember.isErased, hform]; rfl
    have hmoves : plan.movesBehind m = false := by
      simp [FieldPlan.movesBehind, ClassMember.staticAssignment?_staticBlock hform]
    simp [classMember, staticMember, herased, hform, hmoves]
  · cases hmoves : plan.movesBehind m with
    | true =>
        simp only [FieldPlan.movesBehind, Bool.and_eq_true, Bool.not_eq_true'] at hmoves
        obtain ⟨⟨hdefine, hhoists⟩, hsome⟩ := hmoves
        obtain ⟨⟨key, value⟩, hassigned⟩ := Option.isSome_iff_exists.mp hsome
        have hfield := (ClassMember.staticAssignment?_eq_some_iff.mp hassigned).2
        refine (classMember_of_moved hfield ?_).trans (if_pos rfl).symm
        rw [FieldPlan.keeps_of_isField hfield, hdefine, hhoists, Bool.not_true, Bool.and_false]
        rfl
    | false =>
        cases hkeeps : plan.keeps m key with
        | true => simp [classMember, fieldMember, staticMember, hkept, hform, hkeeps]
        | false =>
            simp only [FieldPlan.keeps, hstatic, Bool.true_and, Bool.or_eq_false_iff,
              Bool.not_eq_false'] at hkeeps
            obtain ⟨⟨⟨hdefine, hpublic⟩, hplain⟩, hhoists⟩ := hkeeps
            have hassigned := ClassMember.staticAssignment?_eq_some_iff.mpr
              ⟨hstatic, ⟨o, d, t, hform⟩, hpublic, hplain, hkept⟩
            simp [FieldPlan.movesBehind, hassigned, hdefine, hhoists] at hmoves

theorem Print.staticAssignments_eq (plan : FieldPlan) (name : String)
    (hdefine : plan.usesDefine = false) (hhoists : plan.hoistsStatics = true) :
    staticAssignments print name c =
      (c.staticSteps.filter plan.movesBehind).forM (staticAssignment print name) := by
  have hmoves (m : ClassMember) : plan.movesBehind m = m.staticAssignment?.isSome := by
    simp [FieldPlan.movesBehind, hdefine, hhoists]
  have hsteps : c.staticSteps.filter plan.movesBehind =
      (c.members.filterMap ClassMember.ofNode?).filter fun m => m.staticAssignment?.isSome := by
    rw [ClassLike.staticSteps, List.filter_filter]
    refine List.filter_congr fun m _ => ?_
    rw [hmoves]
    cases hassigned : m.staticAssignment?.isSome with
    | false => rfl
    | true => rw [ClassMember.staticCode?_of_staticAssignment? hassigned]; rfl
  unfold staticAssignments
  rw [hsteps]
  induction c.members.filterMap ClassMember.ofNode? with
  | nil => rfl
  | cons m ms ih =>
      cases hassigned : m.staticAssignment? with
      | none => simpa [List.filterMap_cons, List.filter_cons, hassigned] using ih
      | some field =>
          have hhead : staticAssignment print name m =
              (do line; memberAssignment print name field.1 field.2) := by
            rw [staticAssignment, hassigned]
            rfl
          simp only [List.filterMap_cons, List.filter_cons, hassigned, Option.isSome_some, if_true]
          exact congr (congrArg (fun head rest => (do head; rest)) hhead.symm) ih

end

/-- The printed form of a class whose fields become assignments: the class, with the static members
that stay, and behind it the static fields that move. All of them run once. They run as in the
source, whatever they mean, exactly if no member that stays follows one that moves, and no field
that moves reads `this`, `super` or `new.target`, or uses a private name of the class. -/
theorem static_members_run_alike_iff (print : Slot → Node → Print Bool) {n : Node} {p : PrintPlace}
    {name? : Option String}
    (hambient : n.classLike.modifiers.isAmbient = false)
    (hdefine : p.job.options.useDefineForClassFields = false)
    (hname : Print.declaredName? n.classLike.name n.classLike.modifiers.isExport p = pure name?) :
    let c := n.classLike
    let plan := FieldPlan.ofClass false name?.isSome c
    Print.classDeclaration print n p = (do
        c.decorators.forM fun d => do
          Print.decorator print d
          Print.line
        Print.exportKeywords c.modifiers
        Print.classBody print n name? name?.isSome
        name?.forM fun name => do
          (c.staticSteps.filter plan.movesBehind).forM (Print.staticAssignment print name)
          (Print.classExport? (← Print.target) c.modifiers name).forM fun text => do
            Print.line
            Print.write text) p ∧
      (∀ m ∈ c.staticSteps, Print.classMember print c plan m =
        if plan.movesBehind m then pure () else Print.staticMember print m) ∧
      ((plan.printedRuns c).map Prod.fst).Perm (c.sourceRuns.map Prod.fst) ∧
      ((∀ (σ : Type) (M : StaticMeaning c σ) (s : σ),
          M.runAll (plan.printedRuns c) s = M.runAll c.sourceRuns s) ↔
        (c.staticSteps.Pairwise fun m m' => plan.movesBehind m → plan.movesBehind m') ∧
          ∀ m ∈ c.staticSteps, plan.movesBehind m → ¬ m.DependsOn c) := by
  dsimp only
  refine ⟨?_, fun m hm => ?_, FieldPlan.perm_printedRuns _ _, FieldPlan.runAll_printedRuns_iff _ _⟩
  · have hoptions : Print.options p = pure p.job.options := rfl
    unfold Print.classDeclaration
    simp only [hambient, Bool.false_eq_true, if_false, Print.bind_apply, hname, pure_bind]
    cases name? with
    | none => rfl
    | some name =>
        simp only [Print.bind_apply, hoptions, pure_bind, hdefine, Bool.not_false, if_true,
          Option.isSome_some]
        rw [Print.staticAssignments_eq (FieldPlan.ofClass false true n.classLike) name rfl rfl]
        rfl
  · exact Print.classMember_of_staticCode? (List.mem_filter.mp hm).2

/-- The class `class C \x7b static \x7b \x7d static x = 0; \x7d`. -/
def countingClass : Node :=
  .ofForm (.classLike
    { decorators := [], modifiers := {}, name := some ⟨0, ⟨6, 7⟩, "C"⟩, typeParameters := none
      base := none, interfaces := []
      members := [
        .ofForm (.classMember [] {} (.staticBlock (.ofForm (.block [] false true)))),
        .ofForm (.classMember [] { flags := [.isStatic] } (.propertyMember
          (.ofForm (.identifierKey "x")) false false none
          (some (.ofForm (.numericLiteral "0")))))] })

/-- The level of a file whose fields are not defined as such. -/
def countingPlace : PrintPlace :=
  (PrintJob.ofFile (parseSource "input.ts" "").1 {} assigningOptions).place

theorem Node.not_readsReceiver_of_leaf {n : Node} (hreceiver : n.form.isReceiver = false)
    (hleaf : n.form.sameReceiver = []) : ¬ n.ReadsReceiver := by
  intro h
  cases h with
  | here h => simp [hreceiver] at h
  | inside h => simp [hleaf] at h

theorem Node.not_usesPrivate_nil (n : Node) : ¬ n.UsesPrivate [] := by
  intro h
  generalize hnames : ([] : List String) = names at h
  induction h with
  | here _ hname => subst hnames; cases hname
  | inside _ _ _ ih | around _ _ _ ih => exact ih hnames
  | member _ _ _ ih => exact ih (by rw [← hnames]; rfl)

theorem countingClass_runs_alike :
    countingClass.classLike.staticSteps.length = 2 ∧
      ∀ (σ : Type) (M : StaticMeaning countingClass.classLike σ) (s : σ),
        M.runAll ((FieldPlan.ofClass false true countingClass.classLike).printedRuns
          countingClass.classLike) s = M.runAll countingClass.classLike.sourceRuns s := by
  have hname : Print.declaredName? countingClass.classLike.name
      countingClass.classLike.modifiers.isExport countingPlace =
        pure (some (countingPlace.job.file.identifierText ⟨0, ⟨6, 7⟩, "C"⟩)) :=
    Print.declaredName?_some _ _ _
  obtain ⟨-, -, -, halike⟩ :=
    static_members_run_alike_iff (Print.nodeWithin 0) (n := countingClass) rfl rfl hname
  have hleaf : ∀ m ∈ countingClass.classLike.staticSteps, ∀ code ∈ m.staticCode?,
      code.form.isReceiver = false ∧ code.form.sameReceiver.isEmpty = true := by
    decide
  refine ⟨rfl, halike.mpr ⟨by decide, ?_⟩⟩
  rintro m hm - ⟨code, hcode, hreads | hprivate⟩
  · obtain ⟨hreceiver, hempty⟩ := hleaf m hm code hcode
    exact Node.not_readsReceiver_of_leaf hreceiver (List.isEmpty_iff.mp hempty) hreads
  · exact code.not_usesPrivate_nil hprivate

/-- A class whose static field is the class itself. -/
def selfReference : String := "class C \x7b static x = this \x7d"

/-- Behind the class `this` is no longer the class. -/
theorem static_members_run_apart :
    (compileWith assigningOptions "input.ts" selfReference).diagnostics = [] ∧
      (compileWith assigningOptions "input.ts" selfReference).output? =
        some "class C \x7b\n\x7d\nC.x = this;\n" := by
  decide +kernel

end Erasure

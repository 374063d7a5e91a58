import Erasure.Proofs.Print.Composed.Weave

/-!
Operators, accesses, keys and patterns are printed by composed steps, given that the nodes below
them are.
-/

namespace Erasure.Print

/-- Printers of nodes by composed steps. -/
def ComposedNodes (print : Slot → Node → Print Bool) : Prop :=
  ∀ (slot : Slot) (n : Node), Composed (print slot n)

theorem signsMerge_uncommented (p : PrintPlace) (operator : TokenKind) (n : Node) :
    signsMerge p.uncommented operator n = signsMerge p operator n := by
  unfold signsMerge
  simp only [PrintPlace.constant?_uncommented]

namespace Composed

theorem constant (access : Node) (value : String) : Composed (constant access value) := by
  refine (write _).seq (.options fun _ => .ite ?_ unit)
  exact .file (fun _ => .write _) fun _ => rfl

theorem reference (name : String) (span : Span) : Composed (reference name span) :=
  .ask (fun _ => .file (fun _ => .write _) fun _ => rfl) fun _ => rfl

section
variable {print : Slot → Node → Print Bool} (hprint : ComposedNodes print)
include hprint

theorem operand (required : Precedence) (n : Node) : Composed (operand print required n) :=
  .discard (hprint _ n)

theorem expression (n : Node) : Composed (expression print n) := operand hprint _ n

theorem value (n : Node) : Composed (value print n) := operand hprint _ n

theorem initializer (n? : Option Node) : Composed (initializer print n?) :=
  .option n? fun n => (write _).seq (value hprint n)

theorem binary (left : Node) (operator : TokenKind) (right : Node)
    (breakBefore breakAfter : Bool) :
    Composed (binary print left operator right breakBefore breakAfter) := by
  refine .ite ?_ ?_
  · exact (operand hprint _ left).seq ((write ",").seq (.broken _ (operand hprint _ right)))
  · refine (discard (hprint _ left)).seq (.broken _ ((write _).seq (.broken _ ?_)))
    exact .discard (hprint _ right)

theorem conditional (condition whenTrue whenFalse : Node) (layout : ConditionalLayout) :
    Composed (conditional print condition whenTrue whenFalse layout) :=
  (operand hprint _ condition).seq
    ((broken _ ((write "?").seq (.broken _ (value hprint whenTrue)))).seq
      (.broken _ ((write ":").seq (.broken _ (value hprint whenFalse)))))

theorem prefixOperator (operator : TokenKind) (n : Node) :
    Composed (prefixOperator print operator n) := by
  refine (write _).seq (.ask (fun _ => .when space (operand hprint _ n)) fun p => ?_)
  simp only [signsMerge_uncommented]

theorem keywordOperator (keyword : String) (n : Node) :
    Composed (keywordOperator print keyword n) :=
  (write _).seq (space.seq (operand hprint _ n))

theorem propertyAccess (object : Node) (name : MemberName) (isOptional breakBeforeDot : Bool) :
    Composed (propertyAccess print object name isOptional breakBeforeDot) := by
  have hdot : Composed (do
      Print.write (if isOptional then "?." else ".")
      Print.identifier name.ident) := (write _).seq (identifier _)
  refine (operand hprint _ object).seq (.when (write ".") (.ite ?_ hdot))
  exact .indented (line.seq hdot)

theorem elementAccess (object index : Node) (isOptional : Bool) :
    Composed (elementAccess print object index isOptional) :=
  (operand hprint _ object).seq ((write _).seq ((expression hprint index).seq (write _)))

theorem arguments (ns : List Node) : Composed (arguments print ns) :=
  (write _).seq ((commaSeparated ns fun n => operand hprint _ n).seq (write _))

theorem callee (n : Node) : Composed (callee print n) := by
  refine .ask (fun p => ?_) fun _ => rfl
  split
  · exact write _
  · exact operand hprint _ n

theorem dynamicImport (ns : List Node) : Composed (dynamicImport print ns) := by
  unfold Print.dynamicImport
  split
  · exact write _
  · split
    · exact write _
    · exact write _
    · exact (write _).seq ((expression hprint _).seq (write _))

theorem call (n : Node) (ns : List Node) (isOptional : Bool) :
    Composed (call print n ns isOptional) := by
  refine .job (fun _ => .ite (dynamicImport hprint ns) ?_) fun _ => rfl
  exact (callee hprint n).seq (.when (write _) (arguments hprint ns))

theorem newCall (n : Node) (ns? : Option (List Node)) : Composed (newCall print n ns?) :=
  (write _).seq ((operand hprint _ n).seq (.option ns? fun ns => arguments hprint ns))

theorem taggedTemplate (tag quasi : Node) : Composed (taggedTemplate print tag quasi) :=
  (callee hprint tag).seq (operand hprint _ quasi)

theorem templateSpan (n : Node) : Composed (templateSpan print n) := by
  unfold Print.templateSpan
  split
  · exact (expression hprint _).seq (write _)
  · exact unit

theorem template (head : String) (spans : List Node) : Composed (template print head spans) :=
  (write _).seq (.forM spans fun n => templateSpan hprint n)

theorem yieldOperator (isDelegate : Bool) (n? : Option Node) :
    Composed (yieldOperator print isDelegate n?) :=
  (write _).seq (.option n? fun n => space.seq (value hprint n))

theorem spread (n : Node) : Composed (spread print n) := (write _).seq (value hprint n)

theorem propertyKey (n : Node) : Composed (propertyKey print n) := by
  refine .file (fun f => ?_) fun _ => rfl
  split
  · exact write _
  · exact write _
  · exact write _
  · exact write _
  · exact write _
  · exact (write _).seq ((value hprint _).seq (write _))
  · exact unit

theorem memberSuffix (n : Node) : Composed (memberSuffix print n) := by
  unfold Print.memberSuffix
  split
  · exact (write _).seq (propertyKey hprint n)
  · exact (write _).seq (propertyKey hprint n)
  · exact propertyKey hprint n
  · exact (write _).seq ((propertyKey hprint n).seq (write _))

theorem memberAssignment (object : String) (key initial : Node) :
    Composed (memberAssignment print object key initial) :=
  (write _).seq ((memberSuffix hprint key).seq
    ((write _).seq ((value hprint initial).seq (write _))))

theorem fieldAssignment (a : FieldAssignment) : Composed (fieldAssignment print a) := by
  cases a with
  | parameter name => exact .file (fun _ => .write _) fun _ => rfl
  | field key initial => exact memberAssignment hprint _ key initial

theorem binding (n : Node) : Composed (binding print n) := .discard (hprint _ n)

theorem bindingElement (container? : Option String) (n : Node) :
    Composed (bindingElement print container? n) := by
  unfold Print.bindingElement
  split
  · rename_i property? name initial? _
    have hrest : Composed (do
        Functor.discard (print (.binding container?) name)
        Print.initializer print initial?) :=
      (discard (hprint _ name)).seq (initializer hprint initial?)
    refine .when (write "...") ?_
    split
    · exact (propertyKey hprint _).seq ((write _).seq hrest)
    · refine .ite ?_ hrest
      split
      · exact (identifier _).seq ((write _).seq hrest)
      · exact hrest
  · exact unit

theorem objectPattern (container? : Option String) (elements : List Node) :
    Composed (objectPattern print container? elements) := by
  refine .ite (write _) ((write _).seq (.seq ?_ (write _)))
  exact .commaSeparated elements fun n => bindingElement hprint container? n

theorem arrayPattern (container? : Option String) (elements : List (Option Node)) :
    Composed (arrayPattern print container? elements) := by
  refine (write _).seq (.seq ?_ (.when (write _) (write _)))
  exact .commaSeparated elements fun n? => .option n? fun n => bindingElement hprint container? n

theorem bindingTarget (container? : Option String) (n : Node) :
    Composed (bindingTarget print container? n) := by
  unfold Print.bindingTarget
  split
  · exact .file (fun _ => .write _) fun _ => rfl
  · exact objectPattern hprint container? _
  · exact arrayPattern hprint container? _
  · exact unit

theorem variableDeclaration (n : Node) : Composed (variableDeclaration print n) := by
  unfold Print.variableDeclaration
  split
  · exact (binding hprint _).seq (initializer hprint _)
  · exact unit

theorem variableAssignment (container : String) (declared : Node × Node) :
    Composed (variableAssignment print container declared) := by
  obtain ⟨name, initial⟩ := declared
  unfold Print.variableAssignment
  refine when (write "(") ?_
  exact (discard (hprint _ name)).seq
    ((write " = ").seq ((value hprint initial).seq (.ite (write ")") unit)))

end
end Composed

section
variable {print : Slot → Node → Print Bool} (hprint : ComposedNodes print)
include hprint

theorem Voiced.variableList (kind : VariableKind) (declarations : List Node) :
    Voiced (variableList print kind declarations) :=
  .after (.write _) fun _ => space.seq
    (.commaSeparated declarations fun n => .variableDeclaration hprint n)

theorem Settled.variableAssignments (container : String) (declarations : List Node) :
    Settled (variableAssignments print container declarations) := by
  unfold Print.variableAssignments
  dsimp only
  cases declarations.filterMap initialized? with
  | nil => exact nothing
  | cons declared rest =>
      refine (Voiced.after ?_ fun _ => .write (by decide)).settled
      exact .commaSeparated _ fun declared => .variableAssignment hprint container declared

theorem Settled.exportedVariables (container : String) (kind : VariableKind)
    (declarations : List Node) : Settled (exportedVariables print container kind declarations) := by
  refine target fun t => ?_
  split
  · refine Voiced.settled ((Voiced.variableList hprint kind declarations).seq ?_)
    refine .seq (.write _) (.seq .line ?_)
    exact .file (fun _ => .write _) fun _ => rfl
  · exact variableAssignments hprint container declarations

theorem Settled.variableStatement (ms : Modifiers) (kind : VariableKind)
    (declarations : List Node) : Settled (variableStatement print ms kind declarations) := by
  refine target fun t => ite nothing ?_
  split
  · exact exportedVariables hprint _ kind declarations
  · refine Voiced.settled (.when (.write _) (Voiced.seq ?_ (.write _)))
    exact .variableList hprint kind declarations

end
end Erasure.Print

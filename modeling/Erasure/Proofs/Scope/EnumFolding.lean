import Erasure.Compile
import Erasure.Proofs.Scope.EnumTable
import Erasure.Proofs.Scope.Bindings

/-!
Names in the initializers of enum members whose value is known before the program runs. They are
looked up among enums only, and two of them are numbers by their spelling; when the program runs,
the nearest value with the name counts.
-/

namespace Erasure

/-- A name or a member of a named object in an initializer. -/
inductive EnumReference where
  | plain (name : String)
  | member (object name : String)

namespace EnumReference

/-- The name that is looked up. -/
def root : EnumReference → String
  | plain name => name
  | member object _ => object

end EnumReference

/-- What an initializer reads: names, and accesses whose object and member are named. -/
inductive Node.ReadsConstant : Node → EnumReference → Prop
  | plain {n : Node} {name : String} : n.form = .identifier name → ReadsConstant n (.plain name)
  | property {n target : Node} {name : MemberName} {isOptional breakBeforeDot : Bool}
      {object : String} : n.form = .propertyAccess target name isOptional breakBeforeDot →
      target.identifier? = some object → ReadsConstant n (.member object name.ident.text)
  | element {n target index : Node} {isOptional : Bool} {object name : String} :
      n.form = .elementAccess target index isOptional → target.identifier? = some object →
      (∃ raw, index.form = .stringLiteral raw name ∨ index.form = .templateLiteral raw name) →
      ReadsConstant n (.member object name)
  | parenthesized {n inner : Node} {r : EnumReference} : n.form = .parenthesized inner →
      ReadsConstant inner r → ReadsConstant n r
  | unary {n operand : Node} {operator : TokenKind} {r : EnumReference} :
      n.form = .prefixUnary operator operand → ReadsConstant operand r → ReadsConstant n r
  | left {n left right : Node} {operator : TokenKind} {breakBefore breakAfter : Bool}
      {r : EnumReference} : n.form = .binary left operator right breakBefore breakAfter →
      ReadsConstant left r → ReadsConstant n r
  | right {n left right : Node} {operator : TokenKind} {breakBefore breakAfter : Bool}
      {r : EnumReference} : n.form = .binary left operator right breakBefore breakAfter →
      ReadsConstant right r → ReadsConstant n r
  | template {n span expression : Node} {head literal : String} {spans : List Node}
      {r : EnumReference} : n.form = .template head spans → span ∈ spans →
      span.form = .templateSpan expression literal → ReadsConstant expression r →
      ReadsConstant n r

namespace EnumValues.Scope

/-- The names of numbers. -/
def isNumberName (name : String) : Bool := name = "Infinity" || name = "NaN"

/-- The symbol that is taken for the name that a reference starts with: a member of the enum, or
another enum. Names of numbers are taken for none. -/
def root? (s : Scope) : EnumReference → Option SymbolId
  | .plain name =>
      if isNumberName name then none
      else s.owner?.bind fun owner => (s.bindings.symbol owner).exports.find? name
  | .member object _ => s.enum? object

/-- The value of a reference. -/
def read? (s : Scope) : EnumReference → Option EnumValue
  | .plain name => s.named? name
  | .member object name =>
      (s.enum? object).bind fun owner => s.values.member? s.bindings owner name

variable {s : Scope} {n : Node} {r : EnumReference} {x : EnumValue}

theorem memberOf?_eq_read? {target : Node} {object : String} (h : target.identifier? = some object)
    (name : String) : s.memberOf? target name = s.read? (.member object name) := by
  unfold memberOf?
  rw [h]
  rfl

theorem exists_of_mapM_eq_some {α β : Type} {f : α → Option β} {as : List α} {bs : List β}
    (h : as.mapM f = some bs) {a : α} (ha : a ∈ as) : ∃ y, f a = some y := by
  induction as generalizing bs with
  | nil => cases ha
  | cons c as ih =>
      rw [List.mapM_cons] at h
      obtain ⟨y, hy, h⟩ := Option.bind_eq_some_iff.mp h
      obtain ⟨ys, hys, -⟩ := Option.bind_eq_some_iff.mp h
      rcases List.mem_cons.mp ha with rfl | ha
      · exact ⟨y, hy⟩
      · exact ih hys ha

theorem exists_fuel {fuel : Nat} (hx : evaluate? s fuel n = some x) : ∃ less, fuel = less + 1 := by
  cases fuel with
  | zero => cases hx
  | succ fuel => exact ⟨fuel, rfl⟩

/-- Everything that is read for a value has a value. -/
theorem exists_read? (hr : n.ReadsConstant r) {fuel : Nat} (hx : evaluate? s fuel n = some x) :
    ∃ y, s.read? r = some y := by
  induction hr generalizing fuel x with
  | plain hform =>
      obtain ⟨fuel, rfl⟩ := exists_fuel hx
      rw [evaluate?, hform] at hx
      exact ⟨x, hx⟩
  | property hform hobject =>
      obtain ⟨fuel, rfl⟩ := exists_fuel hx
      rw [evaluate?, hform] at hx
      dsimp only at hx
      split at hx
      · cases hx
      · exact ⟨x, memberOf?_eq_read? hobject _ ▸ hx⟩
  | element hform hobject hindex =>
      obtain ⟨fuel, rfl⟩ := exists_fuel hx
      obtain ⟨raw, hindex | hindex⟩ := hindex <;>
      · rw [evaluate?, hform] at hx
        dsimp only at hx
        rw [hindex] at hx
        exact ⟨x, memberOf?_eq_read? hobject _ ▸ hx⟩
  | parenthesized hform _ ih =>
      obtain ⟨fuel, rfl⟩ := exists_fuel hx
      rw [evaluate?, hform] at hx
      exact ih hx
  | unary hform _ ih =>
      obtain ⟨fuel, rfl⟩ := exists_fuel hx
      rw [evaluate?, hform] at hx
      obtain ⟨y, hy, -⟩ := Option.bind_eq_some_iff.mp hx
      exact ih hy
  | left hform _ ih =>
      obtain ⟨fuel, rfl⟩ := exists_fuel hx
      rw [evaluate?, hform] at hx
      obtain ⟨y, hy, -⟩ := Option.bind_eq_some_iff.mp hx
      exact ih hy
  | right hform _ ih =>
      obtain ⟨fuel, rfl⟩ := exists_fuel hx
      rw [evaluate?, hform] at hx
      obtain ⟨y, -, hx⟩ := Option.bind_eq_some_iff.mp hx
      obtain ⟨z, hz, -⟩ := Option.bind_eq_some_iff.mp hx
      exact ih hz
  | template hform hspan hinner _ ih =>
      obtain ⟨fuel, rfl⟩ := exists_fuel hx
      rw [evaluate?, hform] at hx
      obtain ⟨first, -, hx⟩ := Option.bind_eq_some_iff.mp hx
      obtain ⟨rest, hrest, -⟩ := Option.bind_eq_some_iff.mp hx
      obtain ⟨text, htext⟩ := exists_of_mapM_eq_some hrest hspan
      rw [templateSpan?, hinner] at htext
      obtain ⟨y, hy, -⟩ := Option.bind_eq_some_iff.mp htext
      exact ih hy

/-- The enum that is found for a name is the nearest symbol that may be one, from where its enum is
declared first. -/
theorem resolve?_of_enum? {owner id : SymbolId} {d : Declaration} {name : String}
    (howner : s.owner? = some owner) (hd : (s.bindings.symbol owner).declaration? = some d)
    (h : s.enum? name = some id) : s.bindings.resolve? d.scope name SymbolFlags.enum = some id := by
  unfold enum? at h
  rw [howner] at h
  simp only [Option.bind_some, hd, Option.map_some, Option.getD_some] at h
  obtain ⟨found, hfound, h⟩ := Option.bind_eq_some_iff.mp h
  split at h
  · cases h
    exact hfound
  · cases h

end EnumValues.Scope

namespace Bindings

/-- The symbols with a name around an initializer: what its enum has with the name, and then what
stands around the enum, of which the nearest comes first. -/
def namedAround (b : Bindings) (owner : SymbolId) (scope : ScopeId) (name : String) :
    List SymbolId :=
  ((b.symbol owner).exports.find? name).toList ++ b.named scope name

/-- What a name in an initializer is read as when the program runs. -/
def valueAround? (b : Bindings) (owner : SymbolId) (scope : ScopeId) (name : String) :
    Option SymbolId :=
  (((b.symbol owner).exports.find? name).filter (b.hasMeaning SymbolFlags.value)).or
    (b.resolve? scope name SymbolFlags.value)

variable {b : Bindings} {owner id : SymbolId} {scope : ScopeId} {name : String}

theorem valueAround?_eq_find? (b : Bindings) (owner : SymbolId) (scope : ScopeId) (name : String) :
    b.valueAround? owner scope name =
      (b.namedAround owner scope name).find? (b.hasMeaning SymbolFlags.value) := by
  unfold valueAround? namedAround
  rw [List.find?_append, resolve?_eq_find?]
  cases (b.symbol owner).exports.find? name with
  | none => rfl
  | some id =>
      cases hmeaning : b.hasMeaning SymbolFlags.value id <;> simp [Option.filter, hmeaning]

/-- A symbol is read exactly if it is a value and no nearer one is. -/
theorem valueAround?_eq_some_iff :
    b.valueAround? owner scope name = some id ↔
      b.hasMeaning SymbolFlags.value id = true ∧
        ∃ nearer farther, b.namedAround owner scope name = nearer ++ id :: farther ∧
          ∀ y ∈ nearer, b.hasMeaning SymbolFlags.value y = false := by
  rw [valueAround?_eq_find?, List.find?_eq_some_iff_append]
  simp

theorem valueAround?_eq_none_iff :
    b.valueAround? owner scope name = none ↔
      ∀ y ∈ b.namedAround owner scope name, b.hasMeaning SymbolFlags.value y = false := by
  rw [valueAround?_eq_find?, List.find?_eq_none]
  simp

theorem hasMeaning_value_of_enum (h : b.hasMeaning SymbolFlags.enum id = true) :
    b.hasMeaning SymbolFlags.value id = true := by
  have hflag : ∀ flag : SymbolFlag, SymbolFlags.enum.contains flag = true →
      SymbolFlags.value.contains flag = true := by
    intro flag
    cases flag <;> decide
  rw [hasMeaning, Bool.or_eq_true] at h ⊢
  refine h.imp_left fun h => ?_
  obtain ⟨flag, hmem, hcontains⟩ := List.any_eq_true.mp h
  exact List.any_eq_true.mpr ⟨flag, hmem, hflag flag hcontains⟩

end Bindings

/-- If the first element with one property is known, it is the first one with a weaker property
exactly if none of those that were passed over has that. -/
theorem find?_eq_some_iff_of_imp {α : Type} {p q : α → Bool} (himp : ∀ a, p a = true → q a = true)
    {as : List α} {a : α} (h : as.find? p = some a) :
    as.find? q = some a ↔ ∀ y ∈ as.takeWhile fun y => !p y, q y = false := by
  induction as with
  | nil => cases h
  | cons c as ih =>
      cases hc : p c with
      | true =>
          rw [List.find?_cons, hc] at h
          cases h
          simp [himp a hc, hc]
      | false =>
          rw [List.find?_cons, hc] at h
          cases hq : q c with
          | false => simp [hq, hc, ih h]
          | true =>
              have hne : c ≠ a := fun heq => by
                have ha := List.find?_some h
                rw [← heq, hc] at ha
                cases ha
              simp [hq, hc, hne]

/-- The members whose value is known before the program runs. In the table of values their
initializers evaluate to these values, and everything that is read there has a value. A declaration
of the enum stands in some scope. A name is taken for the symbol that it stands for there when the
program runs exactly if that symbol is a value and no nearer symbol with the name is one; the name
of a number is taken for no symbol, rightly so if no value has it. Where the enum is declared first,
this comes to whether a value is passed over on the way to the enum that is found. -/
theorem folded_names_resolved_iff {fileName source : String} {f : SourceFile}
    (hf : f = (parseSource fileName source).1) {n : Node} (hn : n ∈ f.nodes) {ms : Modifiers}
    {name : Identifier} {members : List Node} (hform : n.form = .enumStmt ms name members)
    {owner : SymbolId} (howner : f.bind.symbolOf? name.id = some owner) {member key e : Node}
    (hmember : member ∈ members) (hinitial : member.form = .enumMember key (some e)) {x : EnumValue}
    (hx : (EnumValues.ofFile f f.bind)[member.id]? = some x) :
    let b := f.bind
    let s : EnumValues.Scope := ⟨b, EnumValues.ofFile f b, some owner⟩
    EnumValues.evaluate? s (Limits.enumFold + 1) e = some x ∧
      ∀ r, e.ReadsConstant r →
        (∃ y, s.read? r = some y) ∧
        (∀ scope : ScopeId, b.valueAround? owner scope r.root = s.root? r ↔
          match s.root? r with
          | some id => b.hasMeaning SymbolFlags.value id = true ∧
              ∃ nearer farther, b.namedAround owner scope r.root = nearer ++ id :: farther ∧
                ∀ y ∈ nearer, b.hasMeaning SymbolFlags.value y = false
          | none => ∀ y ∈ b.namedAround owner scope r.root,
              b.hasMeaning SymbolFlags.value y = false) ∧
        ∀ (object property : String) (id : SymbolId) (d : Declaration),
          r = .member object property → s.enum? object = some id →
          (b.symbol owner).declaration? = some d → (b.symbol owner).exports.find? object = none →
          (b.valueAround? owner d.scope object = some id ↔
            ∀ y ∈ (b.named d.scope object).takeWhile (fun y => !b.hasMeaning SymbolFlags.enum y),
              b.hasMeaning SymbolFlags.value y = false) := by
  dsimp only
  have hnumbers : (numbers f.statements).Nodup := hf ▸ Parse.nodup_numbers_file fileName source
  have hvalue := EnumValues.evaluate?_of_getElem? hnumbers hn hform hmember hinitial hx
  rw [howner] at hvalue
  refine ⟨hvalue, fun r hr => ⟨EnumValues.Scope.exists_read? hr hvalue, fun scope => ?_, ?_⟩⟩
  · cases EnumValues.Scope.root? _ r with
    | some id => exact Bindings.valueAround?_eq_some_iff
    | none => exact Bindings.valueAround?_eq_none_iff
  · rintro object property id d rfl henum hfirst hown
    have hresolves := EnumValues.Scope.resolve?_of_enum? rfl hfirst henum
    rw [Bindings.resolve?_eq_find?] at hresolves
    have haround : f.bind.valueAround? owner d.scope object =
        (f.bind.named d.scope object).find? (f.bind.hasMeaning SymbolFlags.value) := by
      rw [Bindings.valueAround?_eq_find?, Bindings.namedAround, hown]
      rfl
    rw [haround]
    exact find?_eq_some_iff_of_imp (fun _ => Bindings.hasMeaning_value_of_enum) hresolves

/-- A file with an enum that uses a member of another one. -/
def sharedConstant : SourceFile × List Diagnostic :=
  parseSource "input.ts" "enum E \x7bA\x7d enum F \x7bB = E.A\x7d"

/-- An enum whose one member has a value and reads a member of `E`. -/
def Node.sharesConstant (b : Bindings) (values : EnumValues) (owner : SymbolId) (n : Node) : Bool :=
  match n.form with
  | .enumStmt _ name [member] =>
      match member.form with
      | .enumMember _ (some ⟨_, _, .propertyAccess ⟨_, _, .identifier "E"⟩ _ _ _⟩) =>
          b.symbolOf? name.id = some owner && values[member.id]?.isSome
      | _ => false
  | _ => false

theorem sharedConstant_resolved :
    sharedConstant.1.bind.valueAround? 2 Bindings.rootScope "E" = some 0 := by
  have hfile : (∃ n ∈ sharedConstant.1.nodes, n.sharesConstant sharedConstant.1.bind
        (EnumValues.ofFile sharedConstant.1 sharedConstant.1.bind) 2 = true) ∧
      (⟨sharedConstant.1.bind, EnumValues.ofFile sharedConstant.1 sharedConstant.1.bind, some 2⟩ :
        EnumValues.Scope).enum? "E" = some 0 ∧
      sharedConstant.1.bind.hasMeaning SymbolFlags.value 0 = true ∧
      sharedConstant.1.bind.namedAround 2 Bindings.rootScope "E" = [0] := by
    decide +kernel
  have hparsed : sharedConstant.1 =
      (parseSource "input.ts" "enum E \x7bA\x7d enum F \x7bB = E.A\x7d").1 := rfl
  -- From here on the file is any with these facts, so that nothing is computed twice.
  generalize sharedConstant.1 = f at hfile hparsed ⊢
  obtain ⟨⟨n, hn, hshares⟩, henum, hmeaning, hnamed⟩ := hfile
  unfold Node.sharesConstant at hshares
  split at hshares
  · rename_i ms name member hform
    split at hshares
    · rename_i key _ _ _ _ property isOptional breakBeforeDot hinitial
      rw [Bool.and_eq_true, decide_eq_true_eq] at hshares
      obtain ⟨howner, hvalue⟩ := hshares
      obtain ⟨x, hx⟩ := Option.isSome_iff_exists.mp hvalue
      obtain ⟨-, hreads⟩ :=
        folded_names_resolved_iff hparsed hn hform howner List.mem_cons_self hinitial hx
      obtain ⟨-, hresolves, -⟩ := hreads (.member "E" property.ident.text) (.property rfl rfl)
      have hroot : EnumValues.Scope.root? ⟨f.bind, EnumValues.ofFile f f.bind, some 2⟩
          (.member "E" property.ident.text) = some 0 := henum
      have hnearest := hresolves Bindings.rootScope
      rw [hroot] at hnearest
      exact hnearest.mpr ⟨hmeaning, [], [], hnamed, fun y hy => nomatch hy⟩
    · cases hshares
  · cases hshares

/-- An enum in a block that uses a member of an enum around the block, whose name the block gives to
a variable. -/
def hiddenEnum : String := "enum E \x7bA\x7d\n\x7blet E; enum F \x7bB = E.A\x7d\x7d"

/-- The member of the enum around the block is folded. -/
theorem hidden_enum_folded :
    (compile id "input.ts" hiddenEnum).diagnostics = [] ∧
      (compile id "input.ts" hiddenEnum).output? =
        some ("var E;\n(function (E) \x7b\n    E[E[\"A\"] = 0] = \"A\";\n" ++
          "\x7d)(E || (E = \x7b\x7d));\n\x7b\n    let E;\n    let F;\n" ++
          "    (function (F) \x7b\n        F[F[\"B\"] = 0] = \"B\";\n" ++
          "    \x7d)(F || (F = \x7b\x7d));\n\x7d\n") := by
  decide +kernel

end Erasure

import Erasure.Options
import Erasure.Text.Character

/-!
Directives: comments of the form `// @name: value` at the head of a file, which set options.
-/

namespace Erasure

structure Directive where
  name : String
  value : String
  /-- The whole line with its end. -/
  span : Span
  deriving DecidableEq

namespace Directive

/-- Read the name and the value of a line `// @name: value`. -/
def ofLine? (line : List Char) : Option (String × String) :=
  match line.dropWhile Text.isBlank with
  | '/' :: '/' :: afterSlashes =>
      match afterSlashes.dropWhile Text.isBlank with
      | '@' :: afterAt =>
          let name := afterAt.takeWhile Text.isWordPart
          let afterName := (afterAt.dropWhile Text.isWordPart).dropWhile Text.isBlank
          match name, afterName with
          | _ :: _, ':' :: afterColon =>
              let value := (afterColon.dropWhile Text.isBlank).takeWhile fun c =>
                !(c = '\r' || c = '\n')
              some (String.ofList name, String.ofList (Text.trimChars value))
          | _, _ => none
      | _ => none
  | _ => none

end Directive

/-- What the head of a file says about options. -/
structure DirectiveSet where
  options : Options := {}
  directives : List Directive := []
  /-- Names that are no options, in order. -/
  unrecognized : List String := []
  /-- Options with a value that cannot be read, in order. -/
  invalid : List (String × String) := []

namespace DirectiveSet

def covers (s : DirectiveSet) (offset : Nat) : Bool :=
  s.directives.any fun d => d.span.contains offset

/-- The value of the last directive with a name, compared without case. -/
def get? (s : DirectiveSet) (name : String) : Option String :=
  (s.directives.reverse.find? fun d => Text.lower d.name == Text.lower name).map Directive.value

/-- Add a directive at the end and apply it. -/
def add (s : DirectiveSet) (d : Directive) : DirectiveSet :=
  let s := { s with directives := s.directives ++ [d] }
  match s.options.apply d.name d.value with
  | (.applied, options) => { s with options }
  | (.invalid, _) => { s with invalid := s.invalid ++ [(d.name, d.value)] }
  | (.unknown, _) => { s with unrecognized := s.unrecognized ++ [d.name] }

/-- Read the lines from `offset` on. Blank lines and comments are passed over, and the first line
of code ends the head of the file. -/
def readLines (offset : Nat) (inComment : Bool) (s : DirectiveSet) :
    List (List Char) → DirectiveSet
  | [] => s
  | line :: rest =>
      let next := offset + Text.byteSize line
      let trimmed := Text.trimChars line
      if inComment then readLines next (!Text.hasInfix ['*', '/'] trimmed) s rest
      else if trimmed.isEmpty then readLines next false s rest
      else match Directive.ofLine? line with
        | some (name, value) => readLines next false (s.add ⟨name, value, ⟨offset, next⟩⟩) rest
        | none =>
            match trimmed with
            | '/' :: '/' :: _ => readLines next false s rest
            | '/' :: '*' :: body => readLines next (!Text.hasInfix ['*', '/'] body) s rest
            | _ => s

/-- The directives at the head of a text. -/
def ofString (text : String) : DirectiveSet :=
  readLines 0 false {} (Text.lines text.toList)

end DirectiveSet
end Erasure

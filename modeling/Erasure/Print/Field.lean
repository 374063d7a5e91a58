import Erasure.Print.Operand

/-!
Printing of property keys, and of assignments to the properties of an object.
-/

namespace Erasure

/-- An assignment that is added to a constructor. -/
inductive FieldAssignment where
  /-- A parameter that is also a property. -/
  | parameter (name : Identifier)
  /-- A field with an initializer. -/
  | field (key value : Node)

namespace Print
variable (print : Slot → Node → Print Bool)

def propertyKey (n : Node) : Print Unit := do
  let f ← file
  match n.form with
  | .identifierKey name | .privateKey name => write (f.written name n.span)
  | .stringKey raw value => write (f.literalText { id := n.id, span := n.span, raw, value })
  | .numericKey raw | .bigIntKey raw => write raw
  | .computedKey inner =>
      write "["
      value print inner
      write "]"
  | _ => pure ()

/-- The access to a property, after its object. -/
def memberSuffix (n : Node) : Print Unit := do
  match n.form with
  | .identifierKey _ | .privateKey _ =>
      write "."
      propertyKey print n
  | .computedKey _ => propertyKey print n
  | _ =>
      write "["
      propertyKey print n
      write "]"

/-- The assignment of a value to a property of an object. -/
def memberAssignment (object : String) (key initial : Node) : Print Unit := do
  write object
  memberSuffix print key
  write " = "
  value print initial
  write ";"

def fieldAssignment : FieldAssignment → Print Unit
  | .parameter name => do
      let text := (← file).identifierText name
      write ("this." ++ text ++ " = " ++ text ++ ";")
  | .field key initial => memberAssignment print "this" key initial

end Print
end Erasure

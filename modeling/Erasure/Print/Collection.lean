import Erasure.Print.Callable

/-!
Printing of array and object literals. Line breaks between elements are kept, but not their
indentation.
-/

namespace Erasure.Print

/-- Elements of a list, each on a new line or after a gap. The first line break indents the rest of
the list. The step is told which element is the last. Tells if a line was broken. -/
def elements (step : Node → Bool → Print Unit) : String → Bool → List Bool → List Node → Print Bool
  | _, isBroken, _, [] => pure isBroken
  | gap, isBroken, breaks, n :: ns =>
      if breaks.headD false then
        if isBroken then do
          line
          step n ns.isEmpty
          elements step " " true breaks.tail ns
        else indented do
          line
          step n ns.isEmpty
          elements step " " true breaks.tail ns
      else do
        write gap
        step n ns.isEmpty
        elements step " " isBroken breaks.tail ns

/-- Elements between brackets; the gap stands inside of the brackets if no line is broken there. -/
def bracketed (opening closing gap : String) (layout : ListLayout) (step : Node → Bool → Print Unit)
    (ns : List Node) : Print Unit := do
  write opening
  let isBroken ← elements step gap false layout.breaksBefore ns
  if isBroken || layout.breakBeforeClose then line else write gap
  write closing

def isHole : Form → Bool
  | .omitted => true
  | _ => false

section
variable (print : Slot → Node → Print Bool)

/-- An array. A hole at its end needs a comma. -/
def arrayLiteral (layout : ListLayout) (ns : List Node) : Print Unit :=
  if ns.isEmpty then write "[]"
  else bracketed "[" "]" "" layout (fun n isLast => do
    operand print .spread n
    if !isLast || layout.trailingComma || isHole n.form then write ",") ns

/-- The property of an object that has a name for its value only. -/
def shorthandProperty (name : Identifier) (initial? : Option Node) : Print Unit := do
  identifier name
  ((← read).replacement? name.text).forM fun text => write (": " ++ text)
  initializer print initial?

def objectElement (n : Node) : Print Unit :=
  match n.form with
  | .propertyAssignment key inner => do
      propertyKey print key
      write ": "
      value print inner
  | .shorthandProperty name initial? => shorthandProperty print name initial?
  | .spreadProperty inner => spread print inner
  | .methodProperty key func => method print none key func
  | .getterProperty key func => method print (some "get") key func
  | .setterProperty key func => method print (some "set") key func
  | _ => pure ()

def objectLiteral (layout : ListLayout) (ns : List Node) : Print Unit :=
  if ns.isEmpty then write "\x7b\x7d"
  else bracketed "\x7b" "\x7d" " " layout (fun n isLast => do
    leadingComments n.span.start
    objectElement print n
    if !isLast || layout.trailingComma then write ","
    skipComments n.span.stop
    trailingComments n.span.stop) ns

end
end Erasure.Print

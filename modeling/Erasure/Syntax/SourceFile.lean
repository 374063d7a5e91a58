import Erasure.Comment
import Erasure.Syntax.Query

/-!
A parsed file.
-/

namespace Erasure

/-- The nodes visited from a node, itself first, as deep as the fuel allows. -/
def Node.visitedWithin : Nat → Node → List Node
  | 0, _ => []
  | fuel + 1, n => n :: n.visited.flatMap (Node.visitedWithin fuel)

structure SourceFile where
  fileName : String
  text : String
  statements : List Node
  comments : List Comment
  /-- Lines that hold directives. -/
  directiveSpans : List Span := []
  /-- Where the end of the file was found. -/
  endOfFile : Nat
  /-- Greater than the number of every node. -/
  nodeCount : Nat

namespace SourceFile

def isDirectivePosition (f : SourceFile) (offset : Nat) : Bool :=
  f.directiveSpans.any fun s => s.contains offset

def isExternalModule (f : SourceFile) : Bool :=
  f.statements.any fun s => s.form.isModuleIndicator

def textAt (f : SourceFile) (s : Span) : String := Text.slice f.text s.start s.stop

/-- A name as it is written, with its escapes; a name that recovery made up stands for itself. -/
def written (f : SourceFile) (name : String) (s : Span) : String :=
  let raw := f.textAt s
  if raw.isEmpty || [ '/', ' ', '\t', '\n', '\r'].contains raw.front then name else raw

def identifierText (f : SourceFile) (i : Identifier) : String := f.written i.text i.span

/-- A string literal as it is written. -/
def literalText (f : SourceFile) (l : StringLiteral) : String :=
  let raw := f.textAt l.span
  if raw.isEmpty then l.raw else raw

def exportNameText (f : SourceFile) : ExportName → String
  | .identifier name => f.identifierText name
  | .string literal => f.literalText literal

/-- All nodes in the order of a visit. Nodes on a path have different numbers, so their count bounds
its length. -/
def nodes (f : SourceFile) : List Node := f.statements.flatMap (Node.visitedWithin f.nodeCount)

end SourceFile
end Erasure

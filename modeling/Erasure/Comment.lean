import Erasure.Text.Basic

/-!
Comments of a source text. They are kept beside the tree and found again by position.
-/

namespace Erasure

structure Comment where
  start : Nat
  stop : Nat
  /-- Written between `/*` and `*/`. -/
  isBlock : Bool
  /-- A line ends between the comment and what follows. -/
  endsLine : Bool
  /-- The comment is the first thing on its line. -/
  startsLine : Bool
  deriving DecidableEq, Inhabited

namespace Comment

def text (c : Comment) (source : String) : String := Text.slice source c.start c.stop

/-- Comments opened by `/*!` stay when comments are removed. -/
def isPinned (c : Comment) (source : String) : Bool :=
  c.isBlock && (c.text source).startsWith "/*!"

def isTripleSlash (c : Comment) (source : String) : Bool :=
  !c.isBlock && (c.text source).startsWith "///"

/-- A later line of a comment that stood at `column`, moved under `indent`. -/
def reindentLine (column : Nat) (indent : List Char) (line : List Char) : List Char :=
  let line := Text.dropEndWhile (· = '\r') line
  let isSpace (c : Char) : Bool := c = ' ' || c = '\t'
  let content := line.dropWhile isSpace
  if content.isEmpty then []
  else
    let leading := (line.takeWhile isSpace).length
    indent ++ List.replicate (leading - column) ' ' ++ content

/-- Move the later lines of a comment from its column in the source to an indentation, keeping
their offsets from the first line. -/
def reindent (text : String) (column : Nat) (indent : String) : String :=
  match Text.splitOn '\n' text.toList with
  | [] => ""
  | first :: rest =>
      let lines := Text.dropEndWhile (· = '\r') first ::
        rest.map (reindentLine column indent.toList)
      String.ofList (['\n'].intercalate lines)

end Comment
end Erasure

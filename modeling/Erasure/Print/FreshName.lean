import Erasure.Text.Character

/-!
Names made for the output. They differ from each other and from every name in the source.
-/

namespace Erasure.FreshName

/-- Whether a name stands in a text as a whole word. -/
def isMentionedFrom (name : List Char) : Bool → List Char → Bool
  | _, [] => false
  | isInWord, c :: cs =>
      (!isInWord && name.isPrefixOf (c :: cs) &&
        !((c :: cs).drop name.length).head?.any Text.isIdentifierPart) ||
      isMentionedFrom name (Text.isIdentifierPart c) cs

def isMentioned (name text : String) : Bool := isMentionedFrom name.toList false text.toList

/-- The numbered name on a base. -/
def numbered (base : String) (n : Nat) : String := base ++ "_" ++ toString n

/-- The first numbered name that is not taken, with `fuel` further numbers to try. -/
def chooseFrom (isTaken : String → Bool) (base : String) : Nat → Nat → String
  | 0, n => numbered base n
  | fuel + 1, n =>
      if isTaken (numbered base n) then chooseFrom isTaken base fuel (n + 1) else numbered base n

/-- A name on a base that is neither in a list nor in a text. A name of the text starts at one of
its characters, so that there are fewer taken names than characters and list entries. -/
def choose (used : List String) (text base : String) : String :=
  chooseFrom (fun name => used.contains name || isMentioned name text) base
    (used.length + text.length) 1

/-- The part of a module specifier that names the file, as an identifier. -/
def ofSpecifier (specifier : String) : String :=
  let isSeparator (c : Char) : Bool := c = '/' || c = '\\'
  let path := specifier.toList.reverse.dropWhile (· = '/')
  let file := (path.takeWhile fun c => !isSeparator c).reverse
  let name := file.map fun c => if c.isAlphanum || c = '_' then c else '_'
  match name with
  | [] => "module"
  | c :: _ => String.ofList (if c.isDigit then '_' :: name else name)

end Erasure.FreshName

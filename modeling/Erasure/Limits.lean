/-!
Bounds that keep every phase finite on hostile input.
-/

namespace Erasure.Limits

/-- Nesting depth of expressions, statements and types. -/
def nesting : Nat := 500

/-- Length of a chain of left-associative operations, which nest although they are parsed in a
loop. -/
def leftChain : Nat := 4000

/-- Number of diagnostics kept for a file. -/
def diagnostics : Nat := 10000

/-- Depth of constant folding in enum initializers. -/
def enumFold : Nat := 100

end Erasure.Limits

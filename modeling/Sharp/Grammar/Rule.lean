import Sharp.Grammar.Complaint
import Sharp.Tree.Basic

/-!
The rules of the grammar and what they yield. Trees are annotated with the tokens they stand on,
which is all that can be said where only the kinds of tokens are known. Three rules are guarded:
they count towards the depth of nesting, and every rule that comes round to itself passes one of
them.
-/
namespace Sharp.Grammar

/-- From the token at `first` to the token at `last`, both included. -/
structure Extent where
  first : Cursor
  last : Cursor
deriving DecidableEq

namespace Extent

def token (c : Cursor) : Extent := ⟨c, c⟩

/-- The tokens passed since `start`, and at least the one there. -/
def upTo (start after : Cursor) : Extent := ⟨start, after.prev.max start⟩

def join (a b : Extent) : Extent := ⟨a.first, b.last⟩

end Extent

abbrev Tree := Node Extent

inductive Rule
  | block | statement
  | expression | comparison | sum | product | signed | power | application | atom
  | listing | conditional | forLoop | whileLoop | function
  | body | closedBody
deriving DecidableEq

namespace Rule

abbrev Value : Rule → Type
  | .body | .closedBody => Body Tree
  | .block | .statement | .expression | .comparison | .sum | .product | .signed | .power
  | .application | .atom | .listing | .conditional | .forLoop | .whileLoop | .function => Tree

def guarded : Rule → Bool
  | .expression | .comparison | .signed => true
  | _ => false

end Rule

/-- What may be noted while a text is parsed. -/
inductive Event
  | rolledBack (start : Cursor) (consumed : Nat)
  | nestingLimit (start : Cursor) (depth : Nat)
deriving DecidableEq

end Sharp.Grammar

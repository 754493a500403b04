/-!
Cursors into a row of tokens. A rule is given the cursor it starts at and answers with the one it
stopped at, so whoever tried a rule in vain goes on from the cursor held before. An error found
without using up a token may be replaced by what the caller expected there; a deeper one stays.
-/
namespace Sharp.Grammar

structure Cursor where
  index : Nat
deriving DecidableEq

namespace Cursor

def start : Cursor := ⟨0⟩

def next (c : Cursor) : Cursor := ⟨c.index + 1⟩

/-- The first cursor has none before it and stays. -/
def prev (c : Cursor) : Cursor := ⟨c.index - 1⟩

/-- How many tokens lie between an earlier cursor and this one. -/
def passedSince (c earlier : Cursor) : Nat := c.index - earlier.index

def max (a b : Cursor) : Cursor := ⟨Nat.max a.index b.index⟩

end Cursor

structure Parsed (α : Type) where
  value : α
  cursor : Cursor

def Parsed.map {α β : Type} (f : α → β) (p : Parsed α) : Parsed β := ⟨f p.value, p.cursor⟩

structure Failure (ε : Type) where
  error : ε
  cursor : Cursor
deriving DecidableEq

namespace Failure

variable {ε : Type}

def isImmediate (f : Failure ε) (start : Cursor) : Bool := f.cursor.passedSince start == 0

def orExpected (f : Failure ε) (start : Cursor) (expected : Cursor → ε) : Failure ε :=
  if f.isImmediate start then ⟨expected f.cursor, f.cursor⟩ else f

end Failure

end Sharp.Grammar

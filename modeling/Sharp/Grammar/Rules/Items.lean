import Sharp.Grammar.Parser

/-!
What rules are put together from: tests for single tokens, names, runs of separators, and items with
commas between them. Loops are bounded by the number of tokens, which none of them can use up.
-/
namespace Sharp.Grammar.Parser

variable (bound : Nat)

def isSymbol (kind : TokenKind) (sign : Symbol) : Bool := (TokenClass.symbol sign).admits kind

def isKeyword (kind : TokenKind) (word : Keyword) : Bool := (TokenClass.keyword word).admits kind

def isIdentifier (kind : TokenKind) : Bool := TokenClass.identifier.admits kind

def isNewline (kind : TokenKind) : Bool := TokenClass.newline.admits kind

def identifier : Parser (Ident Extent) := do
  match ← peek with
  | .identifier name =>
    let place ← here
    step
    return ⟨name, .token place⟩
  | _ => fail (.expected [.identifier])

/-- The number of separators passed. -/
def newlines : Parser Nat :=
  iterate (fun n => do
    if isNewline (← peek) then
      step
      return some (n + 1)
    else return none) bound 0

/-- Items with commas between them. -/
def separated {α : Type} (first item : Parser α) : Parser (List α) := do
  let head ← first
  iterate (fun items => do
    if isSymbol (← peek) .comma then
      step
      let another ← item
      return some (items ++ [another])
    else return none) bound [head]

/-- Expressions with commas between them up to a closing bracket. -/
def enclosed (close : Symbol) : Parser (List Tree) := do
  if isSymbol (← peek) close then
    step
    return []
  else
    let first := expecting (Expected.itemOr close) (read .expression)
    let items ← separated bound first (read .expression)
    expect [.symbol .comma] (.symbol close)
    return items

end Sharp.Grammar.Parser

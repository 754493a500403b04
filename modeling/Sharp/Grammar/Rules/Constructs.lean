import Sharp.Grammar.Rules.Items

/-!
Expressions with bodies: choices, loops and functions.
-/
namespace Sharp.Grammar.Parser

variable (bound : Nat)

def clause (word : Keyword) : Parser (Clause Tree) := do
  expect [] (.keyword word)
  let condition ← read .expression
  expect [] (.keyword .then)
  let body ← read .body
  return ⟨condition, body⟩

def furtherClause (clauses : List (Clause Tree)) : Parser (Option (List (Clause Tree))) := do
  if isKeyword (← peek) .elif then
    let another ← clause .elif
    return some (clauses ++ [another])
  else return none

def endsInBlock (clauses : List (Clause Tree)) : Bool :=
  clauses.getLast?.any fun last => last.body.isBlock

/-- How a chain of clauses ends: a last block is closed or has an alternative, and a last
    statement may have one. -/
def otherwise (clauses : List (Clause Tree)) : Parser (Option (Body Tree)) := do
  let kind ← peek
  if endsInBlock clauses && isKeyword kind .end then
    step
    return none
  else if isKeyword kind .else then
    step
    let body ← read .closedBody
    return some body
  else if endsInBlock clauses then
    fail (.expected [.keyword .end, .keyword .elif, .keyword .else])
  else return none

def conditional : Parser Tree := do
  let start ← here
  let first ← clause .if
  let clauses ← iterate furtherClause bound [first]
  let last ← otherwise clauses
  spanning start fun extent => .ifElse extent clauses last

def stride : Parser (Option Tree) := do
  if isKeyword (← peek) .step then
    step
    let value ← read .expression
    return some value
  else return none

def forLoop : Parser Tree := do
  let start ← here
  expect [] (.keyword .for)
  let name ← identifier
  expect [] (.symbol .assign)
  let lower ← read .expression
  expect [] (.keyword .to)
  let upper ← read .expression
  let step ← stride
  expect [] (.keyword .then)
  let body ← read .closedBody
  spanning start fun extent => .forLoop extent name lower upper step body

def whileLoop : Parser Tree := do
  let start ← here
  expect [] (.keyword .while)
  let condition ← read .expression
  expect [] (.keyword .then)
  let body ← read .closedBody
  spanning start fun extent => .whileLoop extent condition body

def functionName : Parser (Option (Ident Extent)) := do
  if isIdentifier (← peek) then
    let name ← identifier
    expect [] (.symbol .openRound)
    return some name
  else
    expect [.identifier] (.symbol .openRound)
    return none

def params : Parser (List (Ident Extent)) := do
  if isIdentifier (← peek) then
    let names ← separated bound identifier identifier
    expect [.symbol .comma] (.symbol .closeRound)
    return names
  else
    expect [.identifier] (.symbol .closeRound)
    return []

/-- Behind an arrow one expression, else a block up to its end. -/
def functionBody : Parser (Body Tree) := do
  if isSymbol (← peek) .arrow then
    step
    let node ← read .expression
    return ⟨node, false⟩
  else
    expect [.symbol .arrow] .newline
    let node ← read .block
    expect [] (.keyword .end)
    return ⟨node, true⟩

def function : Parser Tree := do
  let start ← here
  expect [] (.keyword .fun)
  let name ← functionName
  let params ← params bound
  let body ← functionBody
  spanning start fun extent => .function extent name params body

end Sharp.Grammar.Parser

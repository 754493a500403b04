import Sharp.Grammar.Rules.Items

/-!
Statements, blocks of them and bodies. A block ends where no further statement can be read, and a
statement that fails behind a separator is taken back. The word that closes a block is not its own.
-/
namespace Sharp.Grammar.Parser

variable (bound : Nat)

def further (statements : List Tree) : Parser (Option (List Tree)) := do
  if (← newlines bound) = 0 then return none
  let start ← here
  .attempt .statement fun result =>
    match result with
    | .ok statement => return some (statements ++ [statement])
    | .error error => do
      noting (.rolledBack start (error.cursor.passedSince start))
      return none

def block : Parser Tree := do
  let _ ← newlines bound
  let first ← read .statement
  let statements ← iterate (further bound) bound [first]
  return .block ⟨(Node.place first).first, ← here⟩ statements

/-- A value is taken if there is one to be read. -/
def returned (start : Cursor) : Parser Tree := do
  step
  .attempt .expression fun result =>
    match result with
    | .ok value => spanning start fun extent => .returnWith extent (some value)
    | .error _ => spanning start fun extent => .returnWith extent none

def statement : Parser Tree := do
  let start ← here
  match ← peek with
  | .keyword .return => returned start
  | .keyword .continue =>
    step
    spanning start .continueLoop
  | .keyword .break =>
    step
    spanning start .breakLoop
  | _ => expecting Expected.statement (read .expression)

def body : Parser (Body Tree) := do
  if isNewline (← peek) then
    step
    let node ← read .block
    return ⟨node, true⟩
  else
    let node ← read .statement
    return ⟨node, false⟩

def closedBody : Parser (Body Tree) := do
  let body ← read .body
  if body.isBlock then expect [] (.keyword .end)
  return body

/-- A program is a block that ends with the text. -/
def program : Parser Tree := do
  let tree ← read .block
  match ← peek with
  | .eof => return tree
  | _ => fail .trailingToken

end Sharp.Grammar.Parser

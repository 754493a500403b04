import Sharp.Grammar.Rules.Items

/-!
Expressions without inner statements. Binary operators of one level are read from left to right; a
power takes its right side from the level of signs, which lets it nest to the right.
-/
namespace Sharp.Grammar.Parser

variable (bound : Nat)

/-- One more operator of a level and its right side. -/
def operation (level : Level) (right : Parser Tree) (left : Tree) : Parser (Option Tree) := do
  match BinaryOp.atLevel? level (← peek) with
  | none => return none
  | some op =>
    step
    let operand ← right
    return some (.binary (left.place.join operand.place) op left operand)

def chain (level : Level) (left right : Parser Tree) : Parser Tree := do
  iterate (operation level right) bound (← left)

def assignment (start : Cursor) : Parser Tree := do
  step
  let name ← identifier
  expect [] (.symbol .assign)
  let value ← read .expression
  spanning start fun extent => .assign extent name value

def expression : Parser Tree := do
  let start ← here
  match ← peek with
  | .keyword .var => assignment start
  | _ => expecting Expected.expression (chain bound .logical (read .comparison) (read .comparison))

def comparison : Parser Tree := do
  let start ← here
  match ← peek with
  | .keyword .not =>
    step
    let operand ← read .comparison
    spanning start fun extent => .unary extent .not operand
  | _ => expecting Expected.comparison (chain bound .comparison (read .sum) (read .sum))

def signed : Parser Tree := do
  let start ← here
  match UnaryOp.sign? (← peek) with
  | some op =>
    step
    let operand ← read .signed
    spanning start fun extent => .unary extent op operand
  | none => read .power

def application : Parser Tree := do
  let start ← here
  let callee ← read .atom
  if isSymbol (← peek) .openRound then
    step
    let args ← enclosed bound .closeRound
    spanning start fun extent => .call extent callee args
  else return callee

/-- A literal or name, which is one token. -/
def leaf (build : Extent → Tree) : Parser Tree := do
  let start ← here
  step
  spanning start build

/-- Round brackets leave no trace in the tree. -/
def bracketed : Parser Tree := do
  step
  let inner ← read .expression
  expect [] (.symbol .closeRound)
  return inner

def atom : Parser Tree := do
  match ← peek with
  | .int value => leaf fun extent => .int extent value
  | .float value => leaf fun extent => .float extent value
  | .string value => leaf fun extent => .string extent value
  | .identifier name => leaf fun extent => .access extent name
  | .symbol .openRound => bracketed
  | .symbol .openSquare => read .listing
  | .keyword .if => read .conditional
  | .keyword .for => read .forLoop
  | .keyword .while => read .whileLoop
  | .keyword .fun => read .function
  | _ => fail (.expected Expected.atom)

def listing : Parser Tree := do
  let start ← here
  expect [] (.symbol .openSquare)
  let items ← enclosed bound .closeSquare
  spanning start fun extent => .list extent items

end Sharp.Grammar.Parser

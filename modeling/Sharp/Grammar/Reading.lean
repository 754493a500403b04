import Sharp.Grammar.Effect

/-!
The rules over tokens. Each begins at a cursor, goes on from where the rules it calls have stopped,
and puts the span of what it has read together from its tokens. Three of them read one level deeper.
-/
namespace Sharp.Grammar.TokenStream

open Effect
open Sharp.Grammar.Parser (isSymbol isKeyword isIdentifier isNewline)

variable (stream : TokenStream) (call : Callee)

/-! ### Names and items -/

def identifier (c : Cursor) : Effect (Parsed (Ident Span)) :=
  match stream.kindAt c with
  | .identifier name => return ⟨⟨name, (stream.tokenAt c).span⟩, c.next⟩
  | _ => stream.fail c (.expected [.identifier])

/-- The number of separators passed. -/
def newlines (c : Cursor) : Effect (Parsed Nat) :=
  iterate (fun n c =>
    if isNewline (stream.kindAt c) then return ⟨some (n + 1), c.next⟩
    else return ⟨none, c⟩) stream.size 0 c

/-- Items with commas between them. -/
def separated {α : Type} (first item : Cursor → Effect (Parsed α)) (c : Cursor) :
    Effect (Parsed (List α)) := do
  let head ← first c
  iterate (fun items c => do
    if isSymbol (stream.kindAt c) .comma then
      let another ← item c.next
      return ⟨some (items ++ [another.value]), another.cursor⟩
    else return ⟨none, c⟩) stream.size [head.value] head.cursor

/-- Expressions with commas between them up to a closing bracket. -/
def enclosed (close : Symbol) (c : Cursor) : Effect (Parsed (List (Node Span))) := do
  if isSymbol (stream.kindAt c) close then return ⟨[], c.next⟩
  else
    let first (c : Cursor) := stream.expecting c (Expected.itemOr close) (call .expression c)
    let items ← stream.separated first (call .expression) c
    let after ← stream.expect items.cursor [.symbol .comma] (.symbol close)
    return ⟨items.value, after⟩

/-! ### Operators -/

/-- One more operator of a level and its right side. -/
def operation (level : Level) (right : Cursor → Effect (Parsed (Node Span))) (left : Node Span)
    (c : Cursor) : Effect (Parsed (Option (Node Span))) := do
  match BinaryOp.atLevel? level (stream.kindAt c) with
  | none => return ⟨none, c⟩
  | some op =>
    let operand ← right c.next
    let span := Span.join left.place operand.value.place
    return ⟨some (.binary span op left operand.value), operand.cursor⟩

def chain (level : Level) (left right : Cursor → Effect (Parsed (Node Span))) (c : Cursor) :
    Effect (Parsed (Node Span)) := do
  let head ← left c
  iterate (stream.operation level right) stream.size head.value head.cursor

def assignment (c : Cursor) : Effect (Parsed (Node Span)) := do
  let name ← stream.identifier c.next
  let after ← stream.expect name.cursor [] (.symbol .assign)
  let value ← call .expression after
  return stream.node c value.cursor fun span => .assign span name.value value.value

def expression (c : Cursor) : Effect (Parsed (Node Span)) :=
  match stream.kindAt c with
  | .keyword .var => stream.assignment call c
  | _ => stream.expecting c Expected.expression
      (stream.chain .logical (call .comparison) (call .comparison) c)

def comparison (c : Cursor) : Effect (Parsed (Node Span)) :=
  match stream.kindAt c with
  | .keyword .not => do
    let operand ← call .comparison c.next
    return stream.node c operand.cursor fun span => .unary span .not operand.value
  | _ => stream.expecting c Expected.comparison
      (stream.chain .comparison (call .sum) (call .sum) c)

def signed (c : Cursor) : Effect (Parsed (Node Span)) :=
  match UnaryOp.sign? (stream.kindAt c) with
  | some op => do
    let operand ← call .signed c.next
    return stream.node c operand.cursor fun span => .unary span op operand.value
  | none => call .power c

def application (c : Cursor) : Effect (Parsed (Node Span)) := do
  let callee ← call .atom c
  if isSymbol (stream.kindAt callee.cursor) .openRound then
    let args ← stream.enclosed call .closeRound callee.cursor.next
    return stream.node c args.cursor fun span => .call span callee.value args.value
  else return callee

def leaf (c : Cursor) (build : Span → Node Span) : Effect (Parsed (Node Span)) :=
  return stream.node c c.next build

/-- Round brackets leave no trace in the tree. -/
def bracketed (c : Cursor) : Effect (Parsed (Node Span)) := do
  let inner ← call .expression c.next
  let after ← stream.expect inner.cursor [] (.symbol .closeRound)
  return ⟨inner.value, after⟩

def atom (c : Cursor) : Effect (Parsed (Node Span)) :=
  match stream.kindAt c with
  | .int value => stream.leaf c fun span => .int span value
  | .float value => stream.leaf c fun span => .float span value
  | .string value => stream.leaf c fun span => .string span value
  | .identifier name => stream.leaf c fun span => .access span name
  | .symbol .openRound => stream.bracketed call c
  | .symbol .openSquare => call .listing c
  | .keyword .if => call .conditional c
  | .keyword .for => call .forLoop c
  | .keyword .while => call .whileLoop c
  | .keyword .fun => call .function c
  | _ => stream.fail c (.expected Expected.atom)

def listing (c : Cursor) : Effect (Parsed (Node Span)) := do
  let inside ← stream.expect c [] (.symbol .openSquare)
  let items ← stream.enclosed call .closeSquare inside
  return stream.node c items.cursor fun span => .list span items.value

/-! ### Constructs -/

def clause (word : Keyword) (c : Cursor) : Effect (Parsed (Clause (Node Span))) := do
  let after ← stream.expect c [] (.keyword word)
  let condition ← call .expression after
  let after ← stream.expect condition.cursor [] (.keyword .then)
  let body ← call .body after
  return ⟨⟨condition.value, body.value⟩, body.cursor⟩

def furtherClause (clauses : List (Clause (Node Span))) (c : Cursor) :
    Effect (Parsed (Option (List (Clause (Node Span))))) := do
  if isKeyword (stream.kindAt c) .elif then
    let another ← stream.clause call .elif c
    return ⟨some (clauses ++ [another.value]), another.cursor⟩
  else return ⟨none, c⟩

/-- How a chain of clauses ends: a last block is closed or has an alternative, and a last
    statement may have one. -/
def otherwise (blockLast : Bool) (c : Cursor) : Effect (Parsed (Option (Body (Node Span)))) := do
  if blockLast && isKeyword (stream.kindAt c) .end then return ⟨none, c.next⟩
  else if isKeyword (stream.kindAt c) .else then
    let body ← call .closedBody c.next
    return ⟨some body.value, body.cursor⟩
  else if blockLast then
    stream.fail c (.expected [.keyword .end, .keyword .elif, .keyword .else])
  else return ⟨none, c⟩

def conditional (c : Cursor) : Effect (Parsed (Node Span)) := do
  let first ← stream.clause call .if c
  let clauses ← iterate (stream.furtherClause call) stream.size [first.value] first.cursor
  let blockLast := clauses.value.getLast?.any fun last => last.body.isBlock
  let last ← stream.otherwise call blockLast clauses.cursor
  return stream.node c last.cursor fun span => .ifElse span clauses.value last.value

def stride (c : Cursor) : Effect (Parsed (Option (Node Span))) := do
  if isKeyword (stream.kindAt c) .step then
    let value ← call .expression c.next
    return ⟨some value.value, value.cursor⟩
  else return ⟨none, c⟩

def forLoop (c : Cursor) : Effect (Parsed (Node Span)) := do
  let after ← stream.expect c [] (.keyword .for)
  let name ← stream.identifier after
  let after ← stream.expect name.cursor [] (.symbol .assign)
  let lower ← call .expression after
  let after ← stream.expect lower.cursor [] (.keyword .to)
  let upper ← call .expression after
  let step ← stream.stride call upper.cursor
  let after ← stream.expect step.cursor [] (.keyword .then)
  let body ← call .closedBody after
  return stream.node c body.cursor fun span =>
    .forLoop span name.value lower.value upper.value step.value body.value

def whileLoop (c : Cursor) : Effect (Parsed (Node Span)) := do
  let after ← stream.expect c [] (.keyword .while)
  let condition ← call .expression after
  let after ← stream.expect condition.cursor [] (.keyword .then)
  let body ← call .closedBody after
  return stream.node c body.cursor fun span => .whileLoop span condition.value body.value

def functionName (c : Cursor) : Effect (Parsed (Option (Ident Span))) := do
  if isIdentifier (stream.kindAt c) then
    let name ← stream.identifier c
    let after ← stream.expect name.cursor [] (.symbol .openRound)
    return ⟨some name.value, after⟩
  else
    let after ← stream.expect c [.identifier] (.symbol .openRound)
    return ⟨none, after⟩

def params (c : Cursor) : Effect (Parsed (List (Ident Span))) := do
  if isIdentifier (stream.kindAt c) then
    let names ← stream.separated stream.identifier stream.identifier c
    let after ← stream.expect names.cursor [.symbol .comma] (.symbol .closeRound)
    return ⟨names.value, after⟩
  else
    let after ← stream.expect c [.identifier] (.symbol .closeRound)
    return ⟨[], after⟩

/-- Behind an arrow one expression, else a block up to its end. -/
def functionBody (c : Cursor) : Effect (Parsed (Body (Node Span))) := do
  if isSymbol (stream.kindAt c) .arrow then
    let node ← call .expression c.next
    return ⟨⟨node.value, false⟩, node.cursor⟩
  else
    let after ← stream.expect c [.symbol .arrow] .newline
    let node ← call .block after
    let after ← stream.expect node.cursor [] (.keyword .end)
    return ⟨⟨node.value, true⟩, after⟩

def function (c : Cursor) : Effect (Parsed (Node Span)) := do
  let after ← stream.expect c [] (.keyword .fun)
  let name ← stream.functionName after
  let params ← stream.params name.cursor
  let body ← stream.functionBody call params.cursor
  return stream.node c body.cursor fun span => .function span name.value params.value body.value

/-! ### Statements -/

/-- One more statement behind separators. One that fails is taken back, and the separators are
    passed all the same. -/
def further (statements : List (Node Span)) (c : Cursor) :
    Effect (Parsed (Option (List (Node Span)))) := do
  let passed ← stream.newlines c
  if passed.value = 0 then return ⟨none, passed.cursor⟩
  match ← outcome (call .statement passed.cursor) with
  | .ok statement => return ⟨some (statements ++ [statement.value]), statement.cursor⟩
  | .error failure =>
    noting (.rolledBack passed.cursor (failure.cursor.passedSince passed.cursor))
    return ⟨none, passed.cursor⟩

def block (c : Cursor) : Effect (Parsed (Node Span)) := do
  let passed ← stream.newlines c
  let first ← call .statement passed.cursor
  let statements ← iterate (stream.further call) stream.size [first.value] first.cursor
  let span := Span.join first.value.place (stream.tokenAt statements.cursor).span
  return ⟨.block span statements.value, statements.cursor⟩

/-- A value is taken if there is one to be read. -/
def returned (c : Cursor) : Effect (Parsed (Node Span)) := do
  match ← outcome (call .expression c.next) with
  | .ok value => return stream.node c value.cursor fun span => .returnWith span (some value.value)
  | .error _ => return stream.node c c.next fun span => .returnWith span none

def statement (c : Cursor) : Effect (Parsed (Node Span)) :=
  match stream.kindAt c with
  | .keyword .return => stream.returned call c
  | .keyword .continue => return stream.node c c.next .continueLoop
  | .keyword .break => return stream.node c c.next .breakLoop
  | _ => stream.expecting c Expected.statement (call .expression c)

def body (c : Cursor) : Effect (Parsed (Body (Node Span))) := do
  if isNewline (stream.kindAt c) then
    let node ← call .block c.next
    return ⟨⟨node.value, true⟩, node.cursor⟩
  else
    let node ← call .statement c
    return ⟨⟨node.value, false⟩, node.cursor⟩

def closedBody (c : Cursor) : Effect (Parsed (Body (Node Span))) := do
  let body ← call .body c
  if body.value.isBlock then
    let after ← stream.expect body.cursor [] (.keyword .end)
    return ⟨body.value, after⟩
  else return body

/-- A program is a block that ends with the text. -/
def program : Effect (Parsed (Node Span)) := do
  let tree ← call .block .start
  match stream.kindAt tree.cursor with
  | .eof => return tree
  | _ => stream.fail tree.cursor .trailingToken

/-! ### The rules together -/

/-- What each rule does, given what the rules it calls do. -/
def reader : (rule : Rule) → Cursor → Effect (Parsed rule.Result)
  | .block => stream.block call
  | .statement => stream.statement call
  | .expression => stream.expression call
  | .comparison => stream.comparison call
  | .sum => stream.chain .additive (call .product) (call .product)
  | .product => stream.chain .multiplicative (call .signed) (call .signed)
  | .signed => stream.signed call
  | .power => stream.chain .power (call .application) (call .signed)
  | .application => stream.application call
  | .atom => stream.atom call
  | .listing => stream.listing call
  | .conditional => stream.conditional call
  | .forLoop => stream.forLoop call
  | .whileLoop => stream.whileLoop call
  | .function => stream.function call
  | .body => stream.body call
  | .closedBody => stream.closedBody call

/-- The rules with room for `calls` calls inside one another; three of them nest. -/
def readWithin (limit : Limit) : (calls : Nat) → Callee
  | 0, _, c => stream.refuse c
  | calls + 1, rule, c =>
    let reading := stream.reader (readWithin limit calls) rule c
    if rule.guarded then stream.nested limit c reading else reading

/-- Between two tokens fewer than sixteen rules call one another. -/
def read (limit : Limit) : Callee := stream.readWithin limit (16 * (stream.size + 2))

/-- Reads a whole program from the first token on. -/
def parse (limit : Limit) (s : Session) : Except Diagnostic (Node Span) × Session :=
  let (outcome, after) := (stream.program (stream.read limit)).run.run s
  (match outcome with
    | .ok parsed => .ok parsed.value
    | .error failure => .error failure.error, after)

end Sharp.Grammar.TokenStream

import Sharp.Grammar.TokenStream

/-!
Reading tokens. Whoever reads is given the cursor to begin at and says where it stopped, or fails with
a diagnostic and the cursor where that came up. Spans are put together and errors worded from the
tokens themselves. What is noted, and how deep the nesting is, is kept in a session either way.
-/
namespace Sharp.Grammar

abbrev Effect := ExceptT (Failure Diagnostic) (StateM Session)

namespace Effect

variable {α σ : Type}

def noting (event : Event) : Effect Unit := modify fun s => s.note event

/-- What becomes of an attempt; whoever made it goes on. -/
def outcome (attempt : Effect α) : Effect (Except (Failure Diagnostic) α) :=
  ExceptT.lift attempt.run

/-- Repeats a step while it finds something to do, at most `bound` times. -/
def iterate (advance : σ → Cursor → Effect (Parsed (Option σ))) :
    Nat → σ → Cursor → Effect (Parsed σ)
  | 0, state, c => return ⟨state, c⟩
  | bound + 1, state, c => do
    let found ← advance state c
    match found.value with
    | none => return ⟨state, found.cursor⟩
    | some changed => iterate advance bound changed found.cursor

end Effect

/-- What a rule yields when it reads tokens. -/
abbrev Rule.Result : Rule → Type
  | .body | .closedBody => Body (Node Span)
  | .block | .statement | .expression | .comparison | .sum | .product | .signed | .power
  | .application | .atom | .listing | .conditional | .forLoop | .whileLoop | .function => Node Span

/-- How the rules are carried out that a rule calls. -/
abbrev Callee := (rule : Rule) → Cursor → Effect (Parsed rule.Result)

namespace TokenStream

variable {α : Type} (stream : TokenStream)

def kindAt (c : Cursor) : TokenKind := (stream.tokenAt c).kind

/-- The number of tokens, the final one included. -/
def size : Nat := stream.front.size + 1

/-- A node over the tokens from `first` to the one before `after`, and at least over the first. -/
def node (first after : Cursor) (build : Span → Node Span) : Parsed (Node Span) :=
  let last := after.prev.max first
  ⟨build (.join (stream.tokenAt first).span (stream.tokenAt last).span), after⟩

def complain (c : Cursor) (complaint : Complaint) : Diagnostic :=
  ⟨.invalidSyntax, complaint.message, (stream.tokenAt c).span⟩

def fail (c : Cursor) (complaint : Complaint) : Effect α := throw ⟨stream.complain c complaint, c⟩

/-- What an error at the very start says gives way to the list of classes. -/
def expecting (start : Cursor) (classes : List TokenClass) (reading : Effect α) : Effect α :=
  reading.adapt fun failure =>
    failure.orExpected start fun c => stream.complain c (.expected classes)

/-- The cursor behind a token of a class; `others` are named as well where it is missing. -/
def expect (c : Cursor) (others : List TokenClass) (wanted : TokenClass) : Effect Cursor :=
  if wanted.admits (stream.kindAt c) then return c.next
  else stream.fail c (.expected (others ++ [wanted]))

/-- Nesting is as deep as it may be. -/
def refuse (c : Cursor) : Effect α := do
  Effect.noting (.nestingLimit c ((← get).depth + 1))
  stream.fail c .nestingTooDeep

/-- Reads one level deeper, and comes back up however that ends. -/
def nested (limit : Limit) (c : Cursor) (reading : Effect α) : Effect α := do
  if limit.allows ((← get).depth + 1) then
    modify Session.enter
    let result ← Effect.outcome reading
    modify Session.leave
    MonadExcept.ofExcept result
  else stream.refuse c

end TokenStream

end Sharp.Grammar

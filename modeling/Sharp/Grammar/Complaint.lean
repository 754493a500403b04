import Sharp.Grammar.Cursor
import Sharp.Token.Class

/-!
What a grammar says against a token. Mostly it lists what could have stood there instead; the lists
follow from one another by what may stand in front of an atom.
-/
namespace Sharp.Grammar

inductive Complaint
  | expected (classes : List TokenClass)
  | nestingTooDeep
  | trailingToken
deriving DecidableEq

def Complaint.message : Complaint → String
  | .expected classes => expectation classes
  | .nestingTooDeep => "Expression nesting is too deep"
  | .trailingToken => "Token cannot appear after previous tokens"

/-- A syntax error concerns the token at its cursor. -/
abbrev SyntaxError := Failure Complaint

namespace Expected

def constructs : List TokenClass :=
  [.keyword .if, .keyword .for, .keyword .while, .keyword .fun]

def operands : List TokenClass :=
  [.int, .float, .string, .identifier, .symbol .plus, .symbol .minus, .symbol .openRound,
    .symbol .openSquare]

def atom : List TokenClass := operands ++ constructs

def comparison : List TokenClass := atom ++ [.keyword .not]

def expression : List TokenClass :=
  .keyword .var :: constructs ++ operands ++ [.keyword .not]

def statement : List TokenClass :=
  [.keyword .return, .keyword .continue, .keyword .break] ++ expression

/-- The first of some items, or the bracket that closes them at once. -/
def itemOr (close : Symbol) : List TokenClass := .symbol close :: expression

end Expected

end Sharp.Grammar

import Sharp.Token.Basic

/-!
Token classes: what a grammar can ask for at a place. A class names a kind of token without what
the token carries. An expectation lists classes in the order in which they are told to the reader.
-/
namespace Sharp

inductive TokenClass
  | int | float | string | identifier
  | keyword (word : Keyword)
  | symbol (sign : Symbol)
  | newline
deriving DecidableEq

namespace TokenClass

def admits : TokenClass → TokenKind → Bool
  | .int, .int _ | .float, .float _ | .string, .string _ | .identifier, .identifier _
  | .newline, .newline => true
  | .keyword j, .keyword k => decide (j = k)
  | .symbol s, .symbol t => decide (s = t)
  | _, _ => false

def text : TokenClass → String
  | .int => "int"
  | .float => "float"
  | .string => "string"
  | .identifier => "identifier"
  | .keyword word => "'" ++ word.word ++ "'"
  | .symbol sign => "'" ++ sign.spelling ++ "'"
  | .newline => "NEWLINE"

end TokenClass

/-- Commas between the items, and a word before the last one. -/
def alternatives : List String → String
  | [] => ""
  | [only] => only
  | [one, other] => one ++ " or " ++ other
  | one :: rest => one ++ ", " ++ alternatives rest

def expectation (classes : List TokenClass) : String :=
  "Expected " ++ alternatives (classes.map TokenClass.text)

end Sharp

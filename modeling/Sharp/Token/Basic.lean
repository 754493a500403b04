import Sharp.Decimal.Layout
import Sharp.Source.Span
import Sharp.Token.Keyword
import Sharp.Token.Symbol

/-!
Tokens: what was read and where. A separator token stands for a semicolon or a line break, and the
final token marks the end of the text. Equality `=` tells floats apart by their bits; the test `==`
compares them as numbers, so NaN differs from itself.
-/
namespace Sharp

inductive TokenKind
  | int (value : Int)
  | float (value : Float)
  | string (value : String)
  | identifier (name : String)
  | keyword (word : Keyword)
  | symbol (sign : Symbol)
  | newline
  | eof
deriving DecidableEq, BEq

namespace TokenKind

def name : TokenKind → String
  | .int _ => "INT"
  | .float _ => "FLOAT"
  | .string _ => "STRING"
  | .identifier _ => "IDENTIFIER"
  | .keyword _ => "KEYWORD"
  | .symbol sign => sign.name
  | .newline => "NEWLINE"
  | .eof => "EOF"

/-- The text of what a token carries beside its name. -/
def payload : TokenKind → Option String
  | .int value => some (toString value)
  | .float value => some (Decimal.floatText value)
  | .string value => some value
  | .identifier name => some name
  | .keyword word => some word.word
  | .symbol _ | .newline | .eof => none

def text (kind : TokenKind) : String :=
  match kind.payload with
  | some carried => kind.name ++ ":" ++ carried
  | none => kind.name

def isKeyword (kind : TokenKind) (word : Keyword) : Bool := decide (kind = .keyword word)

end TokenKind

structure Token where
  kind : TokenKind
  span : Span
deriving DecidableEq, BEq

namespace Token

def text (t : Token) : String := t.kind.text

/-- The end of a text, which takes no room. -/
def finish (p : Position) : Token := ⟨.eof, .empty p⟩

end Token

end Sharp

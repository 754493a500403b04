/-!
Operators and punctuation. Each has one spelling; some spellings begin others, and the longer one
is read where both fit.
-/
namespace Sharp

inductive Symbol
  | plus | minus | times | divide | power
  | assign | equal | notEqual | less | greater | atMost | atLeast | arrow
  | openRound | closeRound | openSquare | closeSquare | comma
deriving DecidableEq

namespace Symbol

def all : List Symbol :=
  [.plus, .minus, .times, .divide, .power, .assign, .equal, .notEqual, .less, .greater, .atMost,
    .atLeast, .arrow, .openRound, .closeRound, .openSquare, .closeSquare, .comma]

def spelling : Symbol → String
  | .plus => "+"
  | .minus => "-"
  | .times => "*"
  | .divide => "/"
  | .power => "^"
  | .assign => "="
  | .equal => "=="
  | .notEqual => "!="
  | .less => "<"
  | .greater => ">"
  | .atMost => "<="
  | .atLeast => ">="
  | .arrow => "->"
  | .openRound => "("
  | .closeRound => ")"
  | .openSquare => "["
  | .closeSquare => "]"
  | .comma => ","

def name : Symbol → String
  | .plus => "PLUS"
  | .minus => "MINUS"
  | .times => "MUL"
  | .divide => "DIV"
  | .power => "POW"
  | .assign => "EQ"
  | .equal => "EE"
  | .notEqual => "NE"
  | .less => "LT"
  | .greater => "GT"
  | .atMost => "LTE"
  | .atLeast => "GTE"
  | .arrow => "ARROW"
  | .openRound => "LPAREN"
  | .closeRound => "RPAREN"
  | .openSquare => "LSQUARE"
  | .closeSquare => "RSQUARE"
  | .comma => "COMMA"

def ofName? (s : String) : Option Symbol := all.find? fun sign => sign.name == s

theorem mem_all (sign : Symbol) : sign ∈ all := by cases sign <;> decide

theorem ofName?_name (sign : Symbol) : ofName? sign.name = some sign := by
  cases sign <;> decide

end Symbol

end Sharp

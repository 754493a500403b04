import Sharp.Token.Basic

/-!
Operators of the tree and the tokens that write them. The level of a binary operator says how
tightly it binds; the logical level binds least.
-/
namespace Sharp

inductive Level
  | logical | comparison | additive | multiplicative | power
deriving DecidableEq

inductive BinaryOp
  | add | subtract | multiply | divide | power
  | equal | notEqual | less | greater | atMost | atLeast
  | and | or
deriving DecidableEq

inductive UnaryOp
  | plus | negate | not
deriving DecidableEq

namespace BinaryOp

def level : BinaryOp → Level
  | .and | .or => .logical
  | .equal | .notEqual | .less | .greater | .atMost | .atLeast => .comparison
  | .add | .subtract => .additive
  | .multiply | .divide => .multiplicative
  | .power => .power

def token : BinaryOp → TokenKind
  | .add => .symbol .plus
  | .subtract => .symbol .minus
  | .multiply => .symbol .times
  | .divide => .symbol .divide
  | .power => .symbol .power
  | .equal => .symbol .equal
  | .notEqual => .symbol .notEqual
  | .less => .symbol .less
  | .greater => .symbol .greater
  | .atMost => .symbol .atMost
  | .atLeast => .symbol .atLeast
  | .and => .keyword .and
  | .or => .keyword .or

def ofToken? : TokenKind → Option BinaryOp
  | .symbol .plus => some .add
  | .symbol .minus => some .subtract
  | .symbol .times => some .multiply
  | .symbol .divide => some .divide
  | .symbol .power => some .power
  | .symbol .equal => some .equal
  | .symbol .notEqual => some .notEqual
  | .symbol .less => some .less
  | .symbol .greater => some .greater
  | .symbol .atMost => some .atMost
  | .symbol .atLeast => some .atLeast
  | .keyword .and => some .and
  | .keyword .or => some .or
  | _ => none

/-- The operator of a token, if it is one of the given level. -/
def atLevel? (level : Level) (kind : TokenKind) : Option BinaryOp :=
  (ofToken? kind).filter fun op => decide (op.level = level)

def text : BinaryOp → String
  | .add => "+"
  | .subtract => "-"
  | .multiply => "*"
  | .divide => "/"
  | .power => "^"
  | .equal => "=="
  | .notEqual => "!="
  | .less => "<"
  | .greater => ">"
  | .atMost => "<="
  | .atLeast => ">="
  | .and => "AND"
  | .or => "OR"

theorem ofToken?_token (op : BinaryOp) : ofToken? op.token = some op := by cases op <;> rfl

theorem ofToken?_eq_some_iff {kind : TokenKind} {op : BinaryOp} :
    ofToken? kind = some op ↔ kind = op.token := by
  constructor
  · intro found
    unfold ofToken? at found
    split at found <;> simp at found <;> subst found <;> rfl
  · rintro rfl
    exact ofToken?_token op

theorem atLevel?_eq_some_iff {level : Level} {kind : TokenKind} {op : BinaryOp} :
    atLevel? level kind = some op ↔ kind = op.token ∧ op.level = level := by
  simp [atLevel?, Option.filter_eq_some_iff, ofToken?_eq_some_iff]

end BinaryOp

namespace UnaryOp

def token : UnaryOp → TokenKind
  | .plus => .symbol .plus
  | .negate => .symbol .minus
  | .not => .keyword .not

/-- The signs; negation of truth stands on a level of its own. -/
def sign? : TokenKind → Option UnaryOp
  | .symbol .plus => some .plus
  | .symbol .minus => some .negate
  | _ => none

def text : UnaryOp → String
  | .plus => "+"
  | .negate => "-"
  | .not => "NOT"

end UnaryOp

end Sharp

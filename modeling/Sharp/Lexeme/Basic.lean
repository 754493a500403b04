import Sharp.Decimal.Reading
import Sharp.Lexeme.Fault
import Sharp.Text.Alphabetic
import Sharp.Token.Basic

/-!
Lexemes: the pieces a text falls into, each as long as it can be. A lexeme is read from its first
character and those after it, and only the number of characters it takes further is kept. Blanks
and comments are lexemes that stand for no token.
-/
namespace Sharp

structure Lexeme where
  chars : List Char
  kind : Option TokenKind
deriving DecidableEq

namespace Lexeme

/-- A token kind, or none for skipped characters, and how many characters it takes after its
    first one. -/
abbrev Scan := Except Fault (Option TokenKind × Nat)

def token (kind : TokenKind) (further : Nat) : Scan := .ok (some kind, further)

def skip (further : Nat) : Scan := .ok (none, further)

def sign (s : Symbol) (further : Nat) : Scan := token (.symbol s) further

def isBlank (c : Char) : Bool := c == ' ' || c == '\t'

def isSeparator (c : Char) : Bool := c == ';' || c == '\n'

def greatestInt : Nat := Nat.pow 2 63 - 1

/-- Digits with at most one point; without a point they must fit in an integer. -/
def number (c : Char) (cs : List Char) : Scan :=
  let whole := c :: cs.takeWhile Char.isDigit
  match cs.dropWhile Char.isDigit with
  | '.' :: rest =>
    let fraction := rest.takeWhile Char.isDigit
    token (.float (Decimal.decimalValue whole fraction)) (whole.length + fraction.length)
  | _ =>
    let value := Decimal.digitsValue whole
    if value ≤ greatestInt then token (.int value) (whole.length - 1)
    else .error (.oversizedInt whole)

def wordKind (chars : List Char) : TokenKind :=
  let text := String.ofList chars
  match Keyword.ofWord? text with
  | some word => .keyword word
  | none => .identifier text

def word (c : Char) (cs : List Char) : Scan :=
  let more := cs.takeWhile Text.isWordPart
  token (wordKind (c :: more)) more.length

/-- How many characters stand before the closing quote. A backslash protects the next one. -/
def bodyLength : List Char → Option Nat
  | [] => none
  | '"' :: _ => some 0
  | ['\\'] => none
  | '\\' :: _ :: cs => (bodyLength cs).map (· + 2)
  | _ :: cs => (bodyLength cs).map (· + 1)

def protectedChar (c : Char) : Char :=
  if c = 'n' then '\n' else if c = 't' then '\t' else c

def unescape : List Char → List Char
  | [] => []
  | '\\' :: c :: cs => protectedChar c :: unescape cs
  | c :: cs => c :: unescape cs

def string (cs : List Char) : Scan :=
  match bodyLength cs with
  | some n => token (.string (String.ofList (unescape (cs.take n)))) (n + 1)
  | none => .error (.unclosedString cs)

/-- Up to the end of the line; the line break belongs to the comment. -/
def comment (cs : List Char) : Scan := skip ((cs.takeWhile (· != '\n')).length + 1)

def mark : Char → List Char → Scan
  | '+', _ => sign .plus 0
  | '-', '>' :: _ => sign .arrow 1
  | '-', _ => sign .minus 0
  | '*', _ => sign .times 0
  | '/', _ => sign .divide 0
  | '^', _ => sign .power 0
  | '(', _ => sign .openRound 0
  | ')', _ => sign .closeRound 0
  | '[', _ => sign .openSquare 0
  | ']', _ => sign .closeSquare 0
  | ',', _ => sign .comma 0
  | '!', '=' :: _ => sign .notEqual 1
  | '!', cs => .error (.missingEquals cs.head?)
  | '=', '=' :: _ => sign .equal 1
  | '=', _ => sign .assign 0
  | '<', '=' :: _ => sign .atMost 1
  | '<', _ => sign .less 0
  | '>', '=' :: _ => sign .atLeast 1
  | '>', _ => sign .greater 0
  | c, _ => .error (.illegalCharacter c)

def scan (c : Char) (cs : List Char) : Scan :=
  if isBlank c then skip 0
  else if c = '#' then comment cs
  else if isSeparator c then token .newline 0
  else if c.isDigit then number c cs
  else if Text.isAlphabetic c then word c cs
  else if c = '"' then string cs
  else mark c cs

/-- The lexemes up to the end of the text or to the first fault. -/
structure Split where
  lexemes : List Lexeme
  fault : Option Fault
deriving DecidableEq

/-- Passes over characters that belong to the lexeme read last, then reads the next one. -/
def splitFrom : Nat → List Char → Split
  | _, [] => ⟨[], none⟩
  | further + 1, _ :: cs => splitFrom further cs
  | 0, c :: cs =>
    match scan c cs with
    | .error fault => ⟨[], some fault⟩
    | .ok (kind, further) =>
      let rest := splitFrom further cs
      ⟨⟨c :: cs.take further, kind⟩ :: rest.lexemes, rest.fault⟩

def split (cs : List Char) : Split := splitFrom 0 cs

theorem splitFrom_drop (n : Nat) (cs : List Char) : splitFrom n cs = split (cs.drop n) := by
  induction cs generalizing n with
  | nil => cases n <;> rfl
  | cons c cs ih =>
    cases n with
    | zero => rfl
    | succ n => exact ih n

end Lexeme

end Sharp

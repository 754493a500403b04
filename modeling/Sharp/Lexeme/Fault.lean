import Sharp.Diagnostic.Basic

/-!
What can be wrong with the characters of a text. A fault knows the characters it concerns: an
exclamation mark takes the character after it along, an unclosed string the rest of the text.
-/
namespace Sharp

inductive Fault
  | illegalCharacter (c : Char)
  | missingEquals (next : Option Char)
  | unclosedString (body : List Char)
  | oversizedInt (digits : List Char)
deriving DecidableEq

namespace Fault

def chars : Fault → List Char
  | .illegalCharacter c => [c]
  | .missingEquals next => '!' :: next.toList
  | .unclosedString body => '"' :: body
  | .oversizedInt digits => digits

def cause : Fault → Cause
  | .illegalCharacter _ => .illegalCharacter
  | .missingEquals _ | .unclosedString _ => .expectedCharacter
  | .oversizedInt _ => .invalidNumber

def details : Fault → String
  | .illegalCharacter c => "'" ++ String.singleton c ++ "'"
  | .missingEquals _ => "'=' (after '!')"
  | .unclosedString _ => "'\"' (to close string literal)"
  | .oversizedInt digits => "'" ++ String.ofList digits ++ "' does not fit in an integer"

/-- The fault as met at a position. -/
def diagnostic (f : Fault) (start : Position) : Diagnostic :=
  ⟨f.cause, f.details, ⟨start, start.past f.chars⟩⟩

end Fault

end Sharp

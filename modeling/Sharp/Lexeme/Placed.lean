import Sharp.Lexeme.Basic

/-!
Tokens from lexemes. Lexemes are laid end to end from the start of the text, and each one that
stands for a token becomes one at its place. A text that was read to its end gets a final token.
-/
namespace Sharp

/-- A separator stays on the line it ends. -/
def tokenEnd (kind : TokenKind) (start : Position) (chars : List Char) : Position :=
  if kind = .newline then start.oneRight else start.past chars

namespace Lexeme

def place (start : Position) : List Lexeme → List Token
  | [] => []
  | l :: rest =>
    let after := place (start.past l.chars) rest
    match l.kind with
    | some kind => ⟨kind, ⟨start, tokenEnd kind start l.chars⟩⟩ :: after
    | none => after

def chained (lexemes : List Lexeme) : List Char := lexemes.flatMap Lexeme.chars

end Lexeme

/-- All tokens of a text and a final one, or the first fault. -/
def tokenize (source : Source) : Except Diagnostic (List Token) :=
  let found := Lexeme.split source.text.toList
  let start := Position.start source
  let stop := start.past (Lexeme.chained found.lexemes)
  match found.fault with
  | some fault => .error (fault.diagnostic stop)
  | none => .ok (Lexeme.place start found.lexemes ++ [Token.finish stop])

end Sharp

import Sharp.Source.Position

/-!
Spans run from a start to an end that lies just behind their last character. Shown to people they
count lines from one and columns from zero.
-/
namespace Sharp

structure Span where
  start : Position
  stop : Position
deriving DecidableEq

namespace Span

def empty (p : Position) : Span := ⟨p, p⟩

def join (first last : Span) : Span := ⟨first.start, last.stop⟩

def text (s : Span) : String :=
  s!"{s.start.line + 1}:{s.start.column}-{s.stop.line + 1}:{s.stop.column}"

end Span

end Sharp

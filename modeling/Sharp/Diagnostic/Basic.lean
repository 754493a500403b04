import Sharp.Diagnostic.Arrows
import Sharp.Diagnostic.Context
import Sharp.Source.Span

/-!
Diagnostics: what is wrong, in words, and the span it concerns. The full text shows the lines of
the span with arrows. Only an error raised while a program runs has a context.
-/
namespace Sharp

inductive Cause
  | illegalCharacter
  | expectedCharacter
  | invalidNumber
  | invalidSyntax
  | runtime (context : Context)
deriving DecidableEq

def Cause.title : Cause → String
  | .illegalCharacter => "Illegal Character"
  | .expectedCharacter => "Expected Character"
  | .invalidNumber => "Invalid Number"
  | .invalidSyntax => "Invalid Syntax"
  | .runtime _ => "Runtime Error"

structure Diagnostic where
  cause : Cause
  details : String
  span : Span
deriving DecidableEq

namespace Diagnostic

def position (d : Diagnostic) : Position := d.span.start

def traceback (d : Diagnostic) : String :=
  match d.cause with
  | .runtime context => context.traceback d.position
  | _ => ""

def headline (d : Diagnostic) : String := d.cause.title ++ ": " ++ d.details

/-- An error of a running program opens with its calls, any other ends with its file and line. -/
def summary (d : Diagnostic) : String :=
  match d.cause with
  | .runtime _ => d.traceback ++ d.headline
  | _ => s!"{d.headline}\nFile {d.position.file}, line {d.position.line + 1}"

def message (d : Diagnostic) : String :=
  d.summary ++ "\n\n" ++ Arrows.render d.span.start d.span.stop

end Diagnostic

end Sharp

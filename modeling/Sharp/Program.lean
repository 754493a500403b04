import Sharp.Grammar.Reading
import Sharp.Lexeme.Placed
import Sharp.Tree.Outline
import Sharp.Tree.Sexp

/-!
From text to tree. A report holds the outcome and what happened on the way: how many tokens were
found, what the grammar noted, and how parsing ended. A text that does not fall into tokens has a
diagnostic and nothing to report.
-/
namespace Sharp

abbrev Outcome := Except Diagnostic (Node Span)

inductive Notice
  | tokenized (file : String) (count : Nat)
  | parsing (event : Grammar.Event)
  | parsed (statements : Nat)
  | parseFailed (title : String) (line : Nat)
deriving DecidableEq

structure Report where
  notices : List Notice
  outcome : Outcome

/-- The last notice; lines are counted from one. -/
def conclusion : Outcome → Notice
  | .ok tree => .parsed tree.statementCount
  | .error d => .parseFailed d.cause.title (d.position.line + 1)

def parse (tokens : List Token) : Report :=
  let (outcome, session) :=
    (Grammar.TokenStream.ofList tokens).parse Grammar.standardLimit .start
  ⟨session.events.toList.map .parsing ++ [conclusion outcome], outcome⟩

def run (source : Source) : Report :=
  match tokenize source with
  | .error d => ⟨[], .error d⟩
  | .ok tokens =>
    let report := parse tokens
    ⟨.tokenized source.name tokens.length :: report.notices, report.outcome⟩

/-- Errors are compared as they are, values by a test. -/
def agree {α : Type} (same : α → α → Bool) : Except Diagnostic α → Except Diagnostic α → Bool
  | .ok a, .ok b => same a b
  | .error d, .error e => decide (d = e)
  | _, _ => false

end Sharp

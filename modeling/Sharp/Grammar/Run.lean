import Sharp.Grammar.Rules

/-!
Running descriptions on a row of token kinds. A session keeps the depth of nesting and what was
noted. A guarded rule that would pass the limit is refused without using up a token, and whoever
called it gets to say what it expected instead. Past the end of the row stands the final token.
-/
namespace Sharp.Grammar

structure Session where
  depth : Nat
  deepest : Nat
  events : Array Event

namespace Session

def start : Session := ⟨0, 0, #[]⟩

def note (s : Session) (event : Event) : Session := { s with events := s.events.push event }

def enter (s : Session) : Session :=
  { s with depth := s.depth + 1, deepest := max s.deepest (s.depth + 1) }

def leave (s : Session) : Session := { s with depth := s.depth - 1 }

end Session

abbrev Outcome (α : Type) := Except SyntaxError (Parsed α)

abbrev Runner := (rule : Rule) → Cursor → Session → Outcome rule.Value × Session

/-- The kinds of a row of tokens. -/
abbrev Kinds := Array TokenKind

def Kinds.kindAt (kinds : Kinds) (c : Cursor) : TokenKind := kinds.getD c.index .eof

namespace Parser

def exec {α : Type} (kinds : Kinds) (runner : Runner) :
    Parser α → Cursor → Session → Outcome α × Session
  | .done value, c, s => (.ok ⟨value, c⟩, s)
  | .raise error, _, s => (.error error, s)
  | .look next, c, s => (next c (kinds.kindAt c)).exec kinds runner c s
  | .advance next, c, s => next.exec kinds runner c.next s
  | .attempt rule next, c, s =>
    match runner rule c s with
    | (.ok parsed, after) => (next (.ok parsed.value)).exec kinds runner parsed.cursor after
    | (.error error, after) => (next (.error error)).exec kinds runner c after
  | .note event next, c, s => next.exec kinds runner c (s.note event)

theorem exec_bind {α β : Type} (kinds : Kinds) (runner : Runner) (p : Parser α)
    (f : α → Parser β) (c : Cursor) (s : Session) :
    (p.bind f).exec kinds runner c s =
      match p.exec kinds runner c s with
      | (.ok parsed, after) => (f parsed.value).exec kinds runner parsed.cursor after
      | (.error error, after) => (.error error, after) := by
  induction p generalizing c s with
  | done => rfl
  | raise => rfl
  | look next ih => exact ih c (kinds.kindAt c) c s
  | advance next ih => exact ih c.next s
  | attempt rule next ih =>
    simp only [bind, exec]
    split
    · exact ih _ _ _
    · exact ih _ _ _
  | note event next ih => exact ih c (s.note event)

theorem exec_mapError {α : Type} (kinds : Kinds) (runner : Runner) (p : Parser α)
    (g : SyntaxError → SyntaxError) (c : Cursor) (s : Session) :
    (p.mapError g).exec kinds runner c s =
      ((p.exec kinds runner c s).1.mapError g, (p.exec kinds runner c s).2) := by
  induction p generalizing c s with
  | done => rfl
  | raise => rfl
  | look next ih => exact ih c (kinds.kindAt c) c s
  | advance next ih => exact ih c.next s
  | attempt rule next ih =>
    simp only [mapError, exec]
    split
    · exact ih _ _ _
    · exact ih _ _ _
  | note event next ih => exact ih c (s.note event)

theorem exec_depth {α : Type} (kinds : Kinds) (runner : Runner)
    (keeps : ∀ rule c s, (runner rule c s).2.depth = s.depth) (p : Parser α) (c : Cursor)
    (s : Session) : (p.exec kinds runner c s).2.depth = s.depth := by
  induction p generalizing c s with
  | done => rfl
  | raise => rfl
  | look next ih => exact ih c (kinds.kindAt c) c s
  | advance next ih => exact ih c.next s
  | attempt rule next ih =>
    have kept := keeps rule c s
    simp only [exec]
    split <;> rename_i answered <;> rw [answered] at kept <;> exact (ih _ _ _).trans kept
  | note event next ih => exact ih c (s.note event)

end Parser

/-- The greatest depth of nesting, or none to leave rules unguarded. -/
abbrev Limit := Option Nat

def Limit.allows (limit : Limit) (depth : Nat) : Bool := limit.all fun most => decide (depth ≤ most)

def standardLimit : Limit := some 600

namespace Rule

def refuse : Runner := fun _ c s =>
  (.error ⟨.nestingTooDeep, c⟩, s.note (.nestingLimit c (s.depth + 1)))

/-- The rules with room for `calls` calls inside one another. -/
def run (kinds : Kinds) (limit : Limit) : (calls : Nat) → Runner
  | 0, rule, c, s => refuse rule c s
  | calls + 1, rule, c, s =>
    let body := (rule.parser kinds.size).exec kinds (run kinds limit calls)
    if rule.guarded then
      if limit.allows (s.depth + 1) then
        let (outcome, after) := body c s.enter
        (outcome, after.leave)
      else refuse rule c s
    else body c s

theorem run_depth (kinds : Kinds) (limit : Limit) (calls : Nat) (rule : Rule) (c : Cursor)
    (s : Session) : (run kinds limit calls rule c s).2.depth = s.depth := by
  induction calls generalizing rule c s with
  | zero => rfl
  | succ calls ih =>
    have body := Parser.exec_depth kinds (run kinds limit calls) ih (rule.parser kinds.size) c
    rw [run]
    split
    · split
      · exact congrArg (· - 1) (body s.enter)
      · rfl
    · exact body s

/-- Between two tokens fewer than sixteen rules call one another. -/
def enoughCalls (kinds : Kinds) : Nat := 16 * (kinds.size + 2)

end Rule

/-- Reads a whole program from the first token on. -/
def parseKinds (kinds : Kinds) (limit : Limit) (s : Session) : Except SyntaxError Tree × Session :=
  let (outcome, after) :=
    Parser.program.exec kinds (Rule.run kinds limit (Rule.enoughCalls kinds)) .start s
  (outcome.map Parsed.value, after)

end Sharp.Grammar

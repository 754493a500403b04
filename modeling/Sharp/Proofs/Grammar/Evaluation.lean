import Sharp.Grammar.Run

/-!
Outcomes apart from sessions. What a description yields depends on the row of tokens and on what its
calls yield, not on the events noted so far; of a session only the depth of nesting counts. So a
rule has one answer for each limit, depth and cursor.
-/
namespace Sharp.Grammar

/-- What every rule yields at every cursor. -/
abbrev Answers := (rule : Rule) → Cursor → Outcome rule.Value

namespace Parser

variable {α β : Type}

def eval (kinds : Kinds) (answers : Answers) : Parser α → Cursor → Outcome α
  | .done value, c => .ok ⟨value, c⟩
  | .raise error, _ => .error error
  | .look next, c => (next c (kinds.kindAt c)).eval kinds answers c
  | .advance next, c => next.eval kinds answers c.next
  | .attempt rule next, c =>
    match answers rule c with
    | .ok parsed => (next (.ok parsed.value)).eval kinds answers parsed.cursor
    | .error error => (next (.error error)).eval kinds answers c
  | .note _ next, c => next.eval kinds answers c

theorem eval_bind (kinds : Kinds) (answers : Answers) (p : Parser α) (f : α → Parser β)
    (c : Cursor) :
    (p.bind f).eval kinds answers c =
      match p.eval kinds answers c with
      | .ok parsed => (f parsed.value).eval kinds answers parsed.cursor
      | .error error => .error error := by
  induction p generalizing c with
  | done => rfl
  | raise => rfl
  | look next ih => exact ih c (kinds.kindAt c) c
  | advance next ih => exact ih c.next
  | attempt rule next ih =>
    simp only [bind, eval]
    split
    · exact ih _ _
    · exact ih _ _
  | note event next ih => exact ih c

theorem eval_mapError (kinds : Kinds) (answers : Answers) (p : Parser α)
    (g : SyntaxError → SyntaxError) (c : Cursor) :
    (p.mapError g).eval kinds answers c = (p.eval kinds answers c).mapError g := by
  induction p generalizing c with
  | done => rfl
  | raise => rfl
  | look next ih => exact ih c (kinds.kindAt c) c
  | advance next ih => exact ih c.next
  | attempt rule next ih =>
    simp only [mapError, eval]
    split
    · exact ih _ _
    · exact ih _ _
  | note event next ih => exact ih c

/-- Where a description gets to that calls no rule, notes nothing and succeeds. -/
def walk (kinds : Kinds) : Parser α → Cursor → Option (Parsed α)
  | .done value, c => some ⟨value, c⟩
  | .look next, c => (next c (kinds.kindAt c)).walk kinds c
  | .advance next, c => next.walk kinds c.next
  | .raise _, _ => none
  | .attempt _ _, _ => none
  | .note _ _, _ => none

theorem walk_bind (kinds : Kinds) (p : Parser α) (f : α → Parser β) (c : Cursor) :
    (p.bind f).walk kinds c =
      (p.walk kinds c).bind fun parsed => (f parsed.value).walk kinds parsed.cursor := by
  induction p generalizing c with
  | done => rfl
  | raise => rfl
  | look next ih => exact ih c (kinds.kindAt c) c
  | advance next ih => exact ih c.next
  | attempt rule next => rfl
  | note event next => rfl

/-- On a walk neither the calls nor the session are of account. -/
theorem exec_of_walk {kinds : Kinds} {runner : Runner} {p : Parser α} {c : Cursor}
    {parsed : Parsed α} (walked : p.walk kinds c = some parsed) (s : Session) :
    p.exec kinds runner c s = (.ok parsed, s) := by
  induction p generalizing c with
  | done =>
    cases walked
    rfl
  | raise => cases walked
  | look next ih => exact ih c (kinds.kindAt c) walked
  | advance next ih => exact ih walked
  | attempt rule next => cases walked
  | note event next => cases walked

theorem exec_outcome {kinds : Kinds} {runner : Runner} {answers : Answers} {depth : Nat}
    (keeps : ∀ rule c s, (runner rule c s).2.depth = s.depth)
    (same : ∀ rule c s, s.depth = depth → (runner rule c s).1 = answers rule c)
    (p : Parser α) (c : Cursor) (s : Session) (atDepth : s.depth = depth) :
    (p.exec kinds runner c s).1 = p.eval kinds answers c := by
  induction p generalizing c s with
  | done => rfl
  | raise => rfl
  | look next ih => exact ih c (kinds.kindAt c) c s atDepth
  | advance next ih => exact ih c.next s atDepth
  | attempt rule next ih =>
    have kept := keeps rule c s
    have answered := same rule c s atDepth
    simp only [exec, eval]
    rw [← answered]
    split <;> rename_i ran <;> rw [ran] at kept <;> simp only [ran]
    · exact ih _ _ _ (kept.trans atDepth)
    · exact ih _ _ _ (kept.trans atDepth)
  | note event next ih => exact ih c (s.note event) atDepth

end Parser

namespace Rule

/-- A guarded rule makes its calls one level deeper. -/
def depthInside (rule : Rule) (depth : Nat) : Nat := if rule.guarded then depth + 1 else depth

/-- Only a guarded rule can be refused. -/
def admitted (limit : Limit) (rule : Rule) (depth : Nat) : Bool :=
  !rule.guarded || limit.allows (depth + 1)

/-- What rules yield with room for `calls` calls inside one another. -/
def answerWithin (kinds : Kinds) (limit : Limit) : (calls depth : Nat) → Answers
  | 0, _, _, c => .error ⟨.nestingTooDeep, c⟩
  | calls + 1, depth, rule, c =>
    if rule.admitted limit depth then
      (rule.parser kinds.size).eval kinds
        (answerWithin kinds limit calls (rule.depthInside depth)) c
    else .error ⟨.nestingTooDeep, c⟩

theorem run_outcome (kinds : Kinds) (limit : Limit) (calls : Nat) (rule : Rule) (c : Cursor)
    (s : Session) :
    (run kinds limit calls rule c s).1 = answerWithin kinds limit calls s.depth rule c := by
  induction calls generalizing rule c s with
  | zero => rfl
  | succ calls ih =>
    have inside (t : Session) (depth : Nat) (atDepth : t.depth = depth) :
        ((rule.parser kinds.size).exec kinds (run kinds limit calls) c t).1 =
          (rule.parser kinds.size).eval kinds (answerWithin kinds limit calls depth) c :=
      Parser.exec_outcome (run_depth kinds limit calls)
        (fun rule c s same => same ▸ ih rule c s) _ c t atDepth
    cases guarded : rule.guarded with
    | false => simp [run, answerWithin, admitted, depthInside, guarded, inside s s.depth rfl]
    | true =>
      cases allowed : limit.allows (s.depth + 1) with
      | false => simp [run, answerWithin, admitted, guarded, allowed, refuse]
      | true =>
        simp [run, answerWithin, admitted, depthInside, guarded, allowed,
          inside s.enter (s.depth + 1) rfl]

end Rule

end Sharp.Grammar

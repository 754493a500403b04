import Sharp.Proofs.Grammar.Contract

/-!
Runs with a record. A record tells in order what was noted and which rules were called, each with
the record of what happened inside it, so it can be said of an event in which attempt it was noted.
What is noted in a record is what a session has more at the end of a run.
-/
namespace Sharp.Grammar

inductive Record
  | nil
  | noted (event : Event) (rest : Record)
  | called (rule : Rule) (start : Cursor) (failed : Bool) (inside rest : Record)

namespace Record

def append : Record → Record → Record
  | .nil, other => other
  | .noted event rest, other => .noted event (rest.append other)
  | .called rule start failed inside rest, other =>
    .called rule start failed inside (rest.append other)

instance : Append Record := ⟨append⟩

/-- All that was noted, inside the calls as well. -/
def events : Record → List Event
  | .nil => []
  | .noted event rest => event :: rest.events
  | .called _ _ _ inside rest => inside.events ++ rest.events

variable {first rest : Record}

@[simp] theorem nil_append : Record.nil ++ rest = rest := rfl

@[simp] theorem noted_append (event : Event) :
    Record.noted event first ++ rest = .noted event (first ++ rest) := rfl

@[simp] theorem called_append (rule : Rule) (start : Cursor) (failed : Bool) (inside : Record) :
    Record.called rule start failed inside first ++ rest =
      .called rule start failed inside (first ++ rest) := rfl

@[simp] theorem append_nil (record : Record) : record ++ .nil = record := by
  induction record with
  | nil => rfl
  | noted event rest ih => exact congrArg (noted event) ih
  | called rule start failed inside rest _ ih => exact congrArg (called rule start failed inside) ih

@[simp] theorem events_append (first rest : Record) :
    (first ++ rest).events = first.events ++ rest.events := by
  induction first with
  | nil => rfl
  | noted event first ih => exact congrArg (event :: ·) ih
  | called rule start failed inside first _ ih =>
    rw [called_append, events, ih, events, List.append_assoc]

end Record

/-- An outcome with the record of how it came about. -/
abbrev Recorded (α : Type) := Outcome α × Record

/-- What every rule does at every cursor. -/
abbrev Recorder := (rule : Rule) → Cursor → Recorded rule.Value

/-- What was recorded first stands in front. -/
def Record.before {α : Type} (first : Record) (ran : Recorded α) : Recorded α :=
  (ran.1, first ++ ran.2)

@[simp] theorem Record.nil_before {α : Type} (ran : Recorded α) : Record.nil.before ran = ran := rfl

theorem Record.append_assoc (first second third : Record) :
    first ++ second ++ third = first ++ (second ++ third) := by
  induction first with
  | nil => rfl
  | noted event first ih => exact congrArg (noted event) ih
  | called rule start failed inside first _ ih => exact congrArg (called rule start failed inside) ih

/-- A call is recorded where it is made. -/
def Recorded.called {α : Type} (rule : Rule) (c : Cursor) : Recorded α → Recorded α
  | (.ok parsed, inside) => (.ok parsed, .called rule c false inside .nil)
  | (.error error, inside) => (.error error, .called rule c true inside .nil)

def Recorder.call (recorder : Recorder) (rule : Rule) (c : Cursor) : Recorded rule.Value :=
  (recorder rule c).called rule c

namespace Parser

variable {α β : Type} {kinds : Kinds} {recorder : Recorder}

def record (kinds : Kinds) (recorder : Recorder) : Parser α → Cursor → Recorded α
  | .done value, c => (.ok ⟨value, c⟩, .nil)
  | .raise error, _ => (.error error, .nil)
  | .look next, c => (next c (kinds.kindAt c)).record kinds recorder c
  | .advance next, c => next.record kinds recorder c.next
  | .attempt rule next, c =>
    match recorder.call rule c with
    | (.ok parsed, call) =>
      call.before ((next (.ok parsed.value)).record kinds recorder parsed.cursor)
    | (.error error, call) => call.before ((next (.error error)).record kinds recorder c)
  | .note event next, c => (Record.noted event .nil).before (next.record kinds recorder c)

/-- Nothing is recorded of a walk. -/
theorem record_of_walk {p : Parser α} {c : Cursor} {parsed : Parsed α}
    (walked : p.walk kinds c = some parsed) : p.record kinds recorder c = (.ok parsed, .nil) := by
  induction p generalizing c with
  | done =>
    cases walked
    rfl
  | raise => cases walked
  | look next ih => exact ih c (kinds.kindAt c) walked
  | advance next ih => exact ih walked
  | attempt rule next => cases walked
  | note event next => cases walked

/-- What comes next goes on from what there is, or an error stays. -/
def goOn (ran : Recorded α) (next : Parsed α → Recorded β) : Recorded β :=
  match ran with
  | (.ok parsed, first) => first.before (next parsed)
  | (.error error, first) => (.error error, first)

theorem goOn_before (first : Record) (ran : Recorded α) (next : Parsed α → Recorded β) :
    goOn (first.before ran) next = first.before (goOn ran next) := by
  obtain ⟨error | parsed, record⟩ := ran
  · rfl
  · exact Prod.ext rfl (Record.append_assoc first record (next parsed).2)

theorem record_bind (p : Parser α) (f : α → Parser β) (c : Cursor) :
    (p >>= f).record kinds recorder c =
      goOn (p.record kinds recorder c) fun parsed =>
        (f parsed.value).record kinds recorder parsed.cursor := by
  rw [bind_eq]
  induction p generalizing c with
  | done => rfl
  | raise => rfl
  | look next ih => exact ih c (kinds.kindAt c) c
  | advance next ih => exact ih c.next
  | attempt rule next ih =>
    simp only [bind, record]
    split
    · rw [ih, goOn_before]
    · rw [ih, goOn_before]
  | note event next ih =>
    simp only [bind, record]
    rw [ih, goOn_before]

theorem record_mapError (p : Parser α) (g : SyntaxError → SyntaxError) (c : Cursor) :
    (p.mapError g).record kinds recorder c =
      ((p.record kinds recorder c).1.mapError g, (p.record kinds recorder c).2) := by
  induction p generalizing c with
  | done => rfl
  | raise => rfl
  | look next ih => exact ih c (kinds.kindAt c) c
  | advance next ih => exact ih c.next
  | attempt rule next ih =>
    simp only [mapError, record]
    split
    · rw [ih]
      rfl
    · rw [ih]
      rfl
  | note event next ih =>
    simp only [mapError, record]
    rw [ih]
    rfl

end Parser

/-- A session at the end of a run yields the same and has noted besides what the record tells. -/
def Recorded.Tells {α : Type} (recorded : Recorded α) (s : Session)
    (ran : Outcome α × Session) : Prop :=
  ran.1 = recorded.1 ∧ ran.2.depth = s.depth ∧
    ran.2.events.toList = s.events.toList ++ recorded.2.events

theorem Recorded.Tells.before {α : Type} {first : Record} {recorded : Recorded α} {s t : Session}
    {ran : Outcome α × Session} (depth : t.depth = s.depth)
    (events : t.events.toList = s.events.toList ++ first.events) (tells : recorded.Tells t ran) :
    Recorded.Tells (first.before recorded) s ran := by
  obtain ⟨outcome, kept, noted⟩ := tells
  refine ⟨outcome, kept.trans depth, ?_⟩
  rw [noted, events, List.append_assoc, Record.before, Record.events_append]

theorem Parser.record_tells {α : Type} {kinds : Kinds} {runner : Runner} {recorder : Recorder}
    {depth : Nat} (calls : ∀ rule c s, s.depth = depth →
      Recorded.Tells (recorder rule c) s (runner rule c s)) (p : Parser α) (c : Cursor)
    (s : Session) (atDepth : s.depth = depth) :
    Recorded.Tells (p.record kinds recorder c) s (p.exec kinds runner c s) := by
  induction p generalizing c s with
  | done => exact ⟨rfl, rfl, (List.append_nil _).symm⟩
  | raise => exact ⟨rfl, rfl, (List.append_nil _).symm⟩
  | look next ih => exact ih c (kinds.kindAt c) c s atDepth
  | advance next ih => exact ih c.next s atDepth
  | attempt rule next ih =>
    obtain ⟨outcome, kept, noted⟩ := calls rule c s atDepth
    rcases told : recorder rule c with ⟨error | parsed, inside⟩ <;>
      rcases ran : runner rule c s with ⟨failed | reached, after⟩ <;>
      rw [told, ran] at outcome <;> rw [ran] at kept <;> rw [told, ran] at noted <;> cases outcome
    · simp only [exec, record, ran, Recorder.call, told, Recorded.called]
      refine (ih _ _ after (kept.trans atDepth)).before kept ?_
      simpa [Record.events] using noted
    · simp only [exec, record, ran, Recorder.call, told, Recorded.called]
      refine (ih _ _ after (kept.trans atDepth)).before kept ?_
      simpa [Record.events] using noted
  | note event next ih =>
    refine Recorded.Tells.before (t := s.note event) rfl ?_ (ih c (s.note event) atDepth)
    exact Array.toList_push

def Record.refusal (depth : Nat) (c : Cursor) : Record := .noted (.nestingLimit c (depth + 1)) .nil

namespace Rule

/-- What the rules do at some depth with room for `calls` calls inside one another. -/
def record (kinds : Kinds) (limit : Limit) : (calls depth : Nat) → Recorder
  | 0, depth, _, c => (.error ⟨.nestingTooDeep, c⟩, .refusal depth c)
  | calls + 1, depth, rule, c =>
    if rule.admitted limit depth then
      (rule.parser kinds.size).record kinds (record kinds limit calls (rule.depthInside depth)) c
    else (.error ⟨.nestingTooDeep, c⟩, .refusal depth c)

theorem refuse_tells (rule : Rule) (c : Cursor) (s : Session) :
    Recorded.Tells (α := rule.Value) (.error ⟨.nestingTooDeep, c⟩, .refusal s.depth c) s
      (refuse rule c s) :=
  ⟨rfl, rfl, Array.toList_push⟩

theorem record_tells (kinds : Kinds) (limit : Limit) (calls : Nat) (rule : Rule) (c : Cursor)
    (s : Session) :
    Recorded.Tells (record kinds limit calls s.depth rule c) s (run kinds limit calls rule c s) := by
  induction calls generalizing rule c s with
  | zero => exact refuse_tells rule c s
  | succ calls ih =>
    have body (t : Session) (depth : Nat) (atDepth : t.depth = depth) :
        Recorded.Tells ((rule.parser kinds.size).record kinds (record kinds limit calls depth) c) t
          ((rule.parser kinds.size).exec kinds (run kinds limit calls) c t) :=
      Parser.record_tells (fun inner d u same => same ▸ ih inner d u) _ c t atDepth
    rw [run, record, admitted, depthInside]
    cases rule.guarded with
    | false => exact body s s.depth rfl
    | true =>
      cases limit.allows (s.depth + 1) with
      | false => exact refuse_tells rule c s
      | true =>
        obtain ⟨outcome, kept, noted⟩ := body s.enter (s.depth + 1) rfl
        exact ⟨outcome, congrArg (· - 1) kept, noted⟩

end Rule

/-- A whole program, read from the first token on. -/
def recordKinds (kinds : Kinds) (limit : Limit) : Recorded Tree :=
  Parser.program.record kinds (Rule.record kinds limit (Rule.enoughCalls kinds) 0) .start

theorem parseKinds_recorded (kinds : Kinds) (limit : Limit) :
    (parseKinds kinds limit .start).1 = (recordKinds kinds limit).1.map Parsed.value ∧
      (parseKinds kinds limit .start).2.events.toList = (recordKinds kinds limit).2.events := by
  obtain ⟨outcome, _, noted⟩ := Parser.record_tells
    (fun rule c s same => same ▸ Rule.record_tells kinds limit (Rule.enoughCalls kinds) rule c s)
    Parser.program .start .start rfl
  exact ⟨congrArg (Except.map Parsed.value) outcome, noted⟩

end Sharp.Grammar

import Sharp.Grammar.Reading
import Sharp.Proofs.Grammar.Contract
import Sharp.Proofs.Tree.Nodes

/-!
Tokens and their kinds. What a rule does with tokens it does with their kinds alone, where it answers
in extents instead of spans and with a complaint instead of a diagnostic. The session is the same,
and each extent stands for the span of its tokens.
-/
namespace Sharp.Grammar

theorem Effect.run_outcome_bind {α β : Type} (attempt : Effect α)
    (next : Except (Failure Diagnostic) α → Effect β) (s : Session) :
    (Effect.outcome attempt >>= next).run.run s =
      (next (attempt.run.run s).1).run.run (attempt.run.run s).2 := by
  rw [Effect.outcome, ExceptT.run_bind, ExceptT.run_lift, StateT.run_bind]
  rfl

/-- Spans in place of extents. -/
def Rule.spanned (f : Extent → Span) : (rule : Rule) → rule.Value → rule.Result
  | .body, inner | .closedBody, inner => inner.map (Node.map f)
  | .block, tree | .statement, tree | .expression, tree | .comparison, tree | .sum, tree
  | .product, tree | .signed, tree | .power, tree | .application, tree | .atom, tree
  | .listing, tree | .conditional, tree | .forLoop, tree | .whileLoop, tree | .function, tree =>
    tree.map f

namespace TokenStream

variable {α β : Type} (stream : TokenStream)

theorem size_kinds : stream.kinds.size = stream.size := by simp [kinds, size]

/-- An error gives way among tokens if it does so among kinds. -/
theorem orExpected_diagnose {error : SyntaxError} (start : Cursor) (complaint : Complaint) :
    (⟨stream.diagnose error, error.cursor⟩ : Failure Diagnostic).orExpected start
        (fun c => stream.complain c complaint) =
      let later := error.orExpected start fun _ => complaint
      ⟨stream.diagnose later, later.cursor⟩ := by
  unfold Failure.orExpected Failure.isImmediate
  dsimp only
  split <;> rfl

/-- An outcome among kinds, carried over to the tokens. -/
def carry (g : α → β) (ran : Outcome α × Session) :
    Except (Failure Diagnostic) (Parsed β) × Session :=
  (match ran.1 with
    | .ok parsed => .ok (parsed.map g)
    | .error error => .error ⟨stream.diagnose error, error.cursor⟩, ran.2)

/-- Reading from a cursor on is what the description does there, carried over. -/
def Projects (runner : Runner) (g : α → β) (p : Parser α) (c : Cursor)
    (reading : Effect (Parsed β)) : Prop :=
  ∀ s, reading.run.run s = stream.carry g (p.exec stream.kinds runner c s)

end TokenStream

/-- A row with what calls do on its tokens and on their kinds. -/
structure Twofold where
  stream : TokenStream
  call : Callee
  runner : Runner
  alike : ∀ rule c s, (call rule c).run.run s =
    stream.carry (rule.spanned stream.spanOf) (runner rule c s)

namespace Twofold

open TokenStream (carry)

variable {α β γ δ σ τ : Type} {w : Twofold} {c : Cursor}

abbrev Projects (w : Twofold) (g : α → β) (p : Parser α) (c : Cursor)
    (reading : Effect (Parsed β)) : Prop :=
  w.stream.Projects w.runner g p c reading

namespace Projects

variable {g : α → β} {h : γ → δ} {p : Parser α} {reading : Effect (Parsed β)}

theorem done {value : α} {image : β} (same : image = g value) :
    w.Projects g (.done value) c (pure ⟨image, c⟩) := by
  subst same
  exact fun _ => rfl

theorem fail (complaint : Complaint) :
    w.Projects g (Parser.fail complaint) c (w.stream.fail c complaint) :=
  fun _ => rfl

theorem bind {q : α → Parser γ} {next : Parsed β → Effect (Parsed δ)}
    (first : w.Projects g p c reading)
    (rest : ∀ value d, w.Projects h (q value) d (next ⟨g value, d⟩)) :
    w.Projects h (p >>= q) c (reading >>= next) := by
  intro s
  rw [ExceptT.run_bind, StateT.run_bind, first s]
  simp only [Parser.bind_eq, Parser.exec_bind]
  rcases p.exec w.stream.kinds w.runner c s with ⟨error | ⟨value, d⟩, after⟩
  · rfl
  · exact rest value d after

theorem here {q : Cursor → Parser γ} {reading : Effect (Parsed δ)}
    (rest : w.Projects h (q c) c reading) : w.Projects h (Parser.here >>= q) c reading :=
  rest

theorem peek {q : TokenKind → Parser γ} {reading : Effect (Parsed δ)}
    (rest : w.Projects h (q (w.stream.kindAt c)) c reading) :
    w.Projects h (Parser.peek >>= q) c reading := by
  rw [TokenStream.kindAt, ← w.stream.kindAt_kinds] at rest
  exact rest

theorem step {q : Unit → Parser γ} {reading : Effect (Parsed δ)}
    (rest : w.Projects h (q ()) c.next reading) : w.Projects h (Parser.step >>= q) c reading :=
  rest

theorem noting {event : Event} {q : Unit → Parser γ} {reading : Effect (Parsed δ)}
    (rest : w.Projects h (q ()) c reading) :
    w.Projects h (Parser.noting event >>= q) c (Effect.noting event >>= fun _ => reading) :=
  fun s => rest (s.note event)

theorem spanning {start : Cursor} {build : Extent → Tree} {spell : Span → Node Span}
    (same : ∀ extent, (build extent).map w.stream.spanOf = spell (w.stream.spanOf extent)) :
    w.Projects (Node.map w.stream.spanOf) (Parser.spanning start build) c
      (pure (w.stream.node start c spell)) := by
  intro s
  simp only [TokenStream.node, Parser.spanning, Parser.exec, carry, Parsed.map, same]
  rfl

theorem expect {others : List TokenClass} {wanted : TokenClass} {q : Unit → Parser γ}
    {next : Cursor → Effect (Parsed δ)} (rest : w.Projects h (q ()) c.next (next c.next)) :
    w.Projects h (Parser.expect others wanted >>= q) c
      (w.stream.expect c others wanted >>= next) := by
  simp only [Parser.expect, Parser.bind_eq, Parser.bind_bind]
  refine peek ?_
  unfold TokenStream.expect
  split
  · exact rest
  · exact fun _ => rfl

theorem read (rule : Rule) : w.Projects (rule.spanned w.stream.spanOf) (Parser.read rule) c
    (w.call rule c) := by
  intro s
  rw [w.alike]
  simp only [Parser.read, Parser.exec]
  rcases w.runner rule c s with ⟨error | parsed, after⟩ <;> rfl

theorem expecting (classes : List TokenClass) (projects : w.Projects g p c reading) :
    w.Projects g (Parser.expecting classes p) c (w.stream.expecting c classes reading) := by
  intro s
  simp only [Parser.expecting, Parser.exec, Parser.exec_mapError]
  change (Except.mapError _ <$> reading.run).run s = _
  rw [StateT.run_map, projects s]
  rcases p.exec w.stream.kinds w.runner c s with ⟨error | parsed, after⟩
  · exact congrArg (fun failure => (Except.error failure, after)) (w.stream.orExpected_diagnose c _)
  · rfl

/-- Whoever makes an attempt goes on behind it, or from where it was made. -/
theorem attempt {rule : Rule} {q : Except SyntaxError rule.Value → Parser γ}
    {next : Except (Failure Diagnostic) (Parsed rule.Result) → Effect (Parsed δ)}
    (success : ∀ value d, w.Projects h (q (.ok value)) d
      (next (.ok ⟨rule.spanned w.stream.spanOf value, d⟩)))
    (failure : ∀ error, w.Projects h (q (.error error)) c
      (next (.error ⟨w.stream.diagnose error, error.cursor⟩))) :
    w.Projects h (.attempt rule q) c (Effect.outcome (w.call rule c) >>= next) := by
  intro s
  rw [Effect.run_outcome_bind, w.alike]
  simp only [Parser.exec]
  rcases w.runner rule c s with ⟨error | ⟨value, d⟩, after⟩
  · exact failure error after
  · exact success value d after

theorem iterate {f : σ → τ} {turn : σ → Parser (Option σ)}
    {advance : τ → Cursor → Effect (Parsed (Option τ))}
    (each : ∀ state d, w.Projects (Option.map f) (turn state) d (advance (f state) d))
    {bound : Nat} {state : σ} {image : τ} (same : image = f state) :
    w.Projects f (Parser.iterate turn bound state) c (Effect.iterate advance bound image c) := by
  subst same
  induction bound generalizing state c with
  | zero => exact done rfl
  | succ bound ih =>
    refine bind (each state c) fun result d => ?_
    cases result with
    | none => exact done rfl
    | some changed => exact ih

end Projects

section Rules

variable {α β : Type} {w : Twofold} {c : Cursor}

/-- Trees and all that has spans, with those of the row. -/
abbrev tree (w : Twofold) : Tree → Node Span := Node.map w.stream.spanOf

abbrev name (w : Twofold) : Ident Extent → Ident Span := Ident.map w.stream.spanOf

abbrev wing (w : Twofold) : Body Tree → Body (Node Span) := Body.map w.tree

abbrev branch (w : Twofold) : Clause Tree → Clause (Node Span) := Clause.map w.tree

theorem identifier_projects : w.Projects w.name Parser.identifier c (w.stream.identifier c) := by
  refine .peek ?_
  unfold TokenStream.identifier
  cases w.stream.kindAt c with
  | identifier name => exact .here (.step (.done rfl))
  | _ => exact .fail _

theorem newlines_projects : w.Projects id (Parser.newlines w.stream.size) c
    (w.stream.newlines c) := by
  refine .iterate (fun n d => .peek ?_) rfl
  split
  · exact .step (.done rfl)
  · exact .done rfl

theorem separated_projects {f : α → β} {first item : Parser α}
    {head each : Cursor → Effect (Parsed β)} (heads : w.Projects f first c (head c))
    (items : ∀ d, w.Projects f item d (each d)) :
    w.Projects (List.map f) (Parser.separated w.stream.size first item) c
      (w.stream.separated head each c) := by
  refine .bind heads fun value d => .iterate (fun values d => .peek ?_) rfl
  split
  · exact .step (.bind (items _) fun another e => .done (by simp))
  · exact .done rfl

theorem enclosed_projects {close : Symbol} :
    w.Projects (List.map w.tree) (Parser.enclosed w.stream.size close) c
      (w.stream.enclosed w.call close c) := by
  refine .peek ?_
  unfold TokenStream.enclosed
  split
  · exact .step (.done rfl)
  · refine .bind (separated_projects (.expecting _ (.read .expression))
      fun d => .read .expression) fun items d => .expect (.done rfl)

theorem chain_projects (level : Level) {left right : Parser Tree}
    {first other : Cursor → Effect (Parsed (Node Span))}
    (head : w.Projects w.tree left c (first c))
    (operand : ∀ d, w.Projects w.tree right d (other d)) :
    w.Projects w.tree (Parser.chain w.stream.size level left right) c
      (w.stream.chain level first other c) := by
  refine .bind head fun value d => .iterate (fun value d => .peek ?_) rfl
  unfold TokenStream.operation
  cases BinaryOp.atLevel? level (w.stream.kindAt d) with
  | none => exact .done rfl
  | some op =>
    refine .step (.bind (operand _) fun another e => .done ?_)
    simp [tree, Node.map, Node.place_map, TokenStream.spanOf, Extent.join, Span.join]

theorem assignment_projects : w.Projects w.tree (Parser.assignment c) c
    (w.stream.assignment w.call c) := by
  refine .step (.bind identifier_projects fun name d => .expect ?_)
  exact .bind (.read .expression) fun value e => .spanning fun _ => rfl

theorem application_projects : w.Projects w.tree (Parser.application w.stream.size) c
    (w.stream.application w.call c) := by
  refine .here (.bind (.read .atom) fun callee d => .peek ?_)
  dsimp only
  split
  · exact .step (.bind enclosed_projects fun args e => .spanning fun _ => Node.map_call ..)
  · exact .done rfl

theorem leaf_projects {build : Extent → Tree} {spell : Span → Node Span}
    (same : ∀ extent, (build extent).map w.stream.spanOf = spell (w.stream.spanOf extent)) :
    w.Projects w.tree (Parser.leaf build) c (w.stream.leaf c spell) :=
  .here (.step (.spanning same))

theorem bracketed_projects : w.Projects w.tree Parser.bracketed c
    (w.stream.bracketed w.call c) :=
  .step (.bind (.read .expression) fun _ _ => .expect (.done rfl))

theorem atom_projects : w.Projects w.tree Parser.atom c (w.stream.atom w.call c) := by
  refine .peek ?_
  unfold TokenStream.atom
  cases w.stream.kindAt c with
  | int | float | string | identifier => exact leaf_projects fun _ => rfl
  | symbol sign =>
    cases sign with
    | openRound => exact bracketed_projects
    | openSquare => exact .read .listing
    | _ => exact .fail _
  | keyword word =>
    cases word with
    | «if» => exact .read .conditional
    | «for» => exact .read .forLoop
    | «while» => exact .read .whileLoop
    | «fun» => exact .read .function
    | _ => exact .fail _
  | newline | eof => exact .fail _

theorem listing_projects : w.Projects w.tree (Parser.listing w.stream.size) c
    (w.stream.listing w.call c) :=
  .here (.expect (.bind enclosed_projects fun _ _ => .spanning fun _ => Node.map_list ..))

theorem clause_projects {word : Keyword} : w.Projects w.branch (Parser.clause word) c
    (w.stream.clause w.call word c) := by
  refine .expect (.bind (.read .expression) fun condition d => .expect ?_)
  exact .bind (.read .body) fun body e => .done rfl

theorem otherwise_projects {clauses : List (Clause Tree)} {blockLast : Bool}
    (same : blockLast = Parser.endsInBlock clauses) :
    w.Projects (Option.map w.wing) (Parser.otherwise clauses) c
      (w.stream.otherwise w.call blockLast c) := by
  subst same
  refine .peek ?_
  unfold TokenStream.otherwise
  split
  · exact .step (.done rfl)
  split
  · exact .step (.bind (.read .closedBody) fun body d => .done rfl)
  split
  · exact .fail _
  · exact .done rfl

theorem conditional_projects : w.Projects w.tree (Parser.conditional w.stream.size) c
    (w.stream.conditional w.call c) := by
  refine .here (.bind clause_projects fun first d =>
    .bind (.iterate (f := List.map w.branch) (fun clauses e => .peek ?_) rfl) fun clauses e => ?_)
  · unfold TokenStream.furtherClause
    split
    · exact .bind clause_projects fun another f => .done (by simp)
    · exact .done rfl
  · refine .bind (otherwise_projects ?_) fun last f => .spanning fun _ => Node.map_ifElse ..
    rw [List.getLast?_map, Option.any_map]
    rfl

theorem stride_projects : w.Projects (Option.map w.tree) Parser.stride c
    (w.stream.stride w.call c) := by
  refine .peek ?_
  unfold TokenStream.stride
  split
  · exact .step (.bind (.read .expression) fun value d => .done rfl)
  · exact .done rfl

theorem forLoop_projects : w.Projects w.tree Parser.forLoop c (w.stream.forLoop w.call c) := by
  refine .here (.expect (.bind identifier_projects fun name d => .expect ?_))
  refine .bind (.read .expression) fun lower d => .expect (.bind (.read .expression) ?_)
  refine fun upper d => .bind stride_projects fun step d => .expect ?_
  exact .bind (.read .closedBody) fun body d => .spanning fun _ => Node.map_forLoop ..

theorem whileLoop_projects : w.Projects w.tree Parser.whileLoop c
    (w.stream.whileLoop w.call c) := by
  refine .here (.expect (.bind (.read .expression) fun condition d => .expect ?_))
  exact .bind (.read .closedBody) fun body e => .spanning fun _ => rfl

theorem functionName_projects : w.Projects (Option.map w.name) Parser.functionName c
    (w.stream.functionName c) := by
  refine .peek ?_
  unfold TokenStream.functionName
  split
  · exact .bind identifier_projects fun name d => .expect (.done rfl)
  · exact .expect (.done rfl)

theorem params_projects : w.Projects (List.map w.name) (Parser.params w.stream.size) c
    (w.stream.params c) := by
  refine .peek ?_
  unfold TokenStream.params
  split
  · exact .bind (separated_projects identifier_projects fun _ => identifier_projects)
      fun names d => .expect (.done rfl)
  · exact .expect (.done rfl)

theorem functionBody_projects : w.Projects w.wing Parser.functionBody c
    (w.stream.functionBody w.call c) := by
  refine .peek ?_
  unfold TokenStream.functionBody
  split
  · exact .step (.bind (.read .expression) fun node d => .done rfl)
  · exact .expect (.bind (.read .block) fun node d => .expect (.done rfl))

theorem function_projects : w.Projects w.tree (Parser.function w.stream.size) c
    (w.stream.function w.call c) := by
  refine .here (.expect (.bind functionName_projects fun name d => ?_))
  refine .bind params_projects fun params e => .bind functionBody_projects fun body f => ?_
  exact .spanning fun _ => rfl

theorem further_projects {statements : List Tree} :
    w.Projects (Option.map (List.map w.tree)) (Parser.further w.stream.size statements) c
      (w.stream.further w.call (statements.map w.tree) c) := by
  refine .bind newlines_projects fun passed d => ?_
  unfold id
  split
  · exact .done rfl
  · refine .here (.attempt (fun statement e => .done (by simp [Rule.spanned])) fun _ => ?_)
    exact .noting (.done rfl)

theorem block_projects : w.Projects w.tree (Parser.block w.stream.size) c
    (w.stream.block w.call c) := by
  refine .bind newlines_projects fun _ d => .bind (.read .statement) fun first e => ?_
  refine .bind (.iterate (f := List.map w.tree) (fun _ _ => further_projects) rfl)
    fun statements f => .here (.done ?_)
  simp [Node.map_block, Rule.spanned, Node.place_map, TokenStream.spanOf, Span.join]

theorem returned_projects : w.Projects w.tree (Parser.returned c) c
    (w.stream.returned w.call c) := by
  refine .step (.attempt (fun value d => .spanning fun _ => rfl) fun error => ?_)
  exact .spanning fun _ => rfl

theorem statement_projects : w.Projects w.tree Parser.statement c
    (w.stream.statement w.call c) := by
  refine .here (.peek ?_)
  unfold TokenStream.statement
  have other : w.Projects w.tree (Parser.expecting Expected.statement (Parser.read .expression)) c
      (w.stream.expecting c Expected.statement (w.call .expression c)) :=
    .expecting _ (.read .expression)
  cases w.stream.kindAt c with
  | keyword word =>
    cases word with
    | «return» => exact returned_projects
    | «continue» => exact .step (.spanning fun _ => rfl)
    | «break» => exact .step (.spanning fun _ => rfl)
    | _ => exact other
  | _ => exact other

theorem body_projects : w.Projects w.wing Parser.body c (w.stream.body w.call c) := by
  refine .peek ?_
  unfold TokenStream.body
  split
  · exact .step (.bind (.read .block) fun node d => .done rfl)
  · exact .bind (.read .statement) fun node d => .done rfl

theorem closedBody_projects : w.Projects w.wing Parser.closedBody c
    (w.stream.closedBody w.call c) := by
  refine .bind (.read .body) fun body d => ?_
  unfold Rule.spanned Body.map
  dsimp only
  split
  · exact .expect (.done rfl)
  · exact .done rfl

theorem program_projects : w.Projects w.tree Parser.program .start
    (w.stream.program w.call) := by
  refine .bind (.read .block) fun tree d => .peek ?_
  dsimp only
  cases w.stream.kindAt d with
  | eof => exact .done rfl
  | _ => exact .fail _

theorem expression_projects : w.Projects w.tree (Parser.expression w.stream.size) c
    (w.stream.expression w.call c) := by
  refine .here (.peek ?_)
  unfold TokenStream.expression
  have other : w.Projects w.tree _ c (w.stream.expecting c Expected.expression _) :=
    .expecting _ (chain_projects .logical (.read .comparison) fun _ => .read .comparison)
  cases w.stream.kindAt c with
  | keyword word =>
    cases word with
    | «var» => exact assignment_projects
    | _ => exact other
  | _ => exact other

theorem comparison_projects : w.Projects w.tree (Parser.comparison w.stream.size) c
    (w.stream.comparison w.call c) := by
  refine .here (.peek ?_)
  unfold TokenStream.comparison
  have other : w.Projects w.tree _ c (w.stream.expecting c Expected.comparison _) :=
    .expecting _ (chain_projects .comparison (.read .sum) fun _ => .read .sum)
  cases w.stream.kindAt c with
  | keyword word =>
    cases word with
    | «not» => exact .step (.bind (.read .comparison) fun operand d => .spanning fun _ => rfl)
    | _ => exact other
  | _ => exact other

theorem signed_projects : w.Projects w.tree Parser.signed c (w.stream.signed w.call c) := by
  refine .here (.peek ?_)
  unfold TokenStream.signed
  cases UnaryOp.sign? (w.stream.kindAt c) with
  | some op => exact .step (.bind (.read .signed) fun operand d => .spanning fun _ => rfl)
  | none => exact .read .power

/-- Every rule does with tokens what it does with their kinds, if those it calls do. -/
theorem reader_projects (rule : Rule) : w.Projects (rule.spanned w.stream.spanOf)
    (rule.parser w.stream.size) c (w.stream.reader w.call rule c) := by
  cases rule with
  | block => exact block_projects
  | statement => exact statement_projects
  | expression => exact expression_projects
  | comparison => exact comparison_projects
  | sum => exact chain_projects _ (.read .product) fun _ => .read .product
  | product => exact chain_projects _ (.read .signed) fun _ => .read .signed
  | signed => exact signed_projects
  | power => exact chain_projects _ (.read .application) fun _ => .read .signed
  | application => exact application_projects
  | atom => exact atom_projects
  | listing => exact listing_projects
  | conditional => exact conditional_projects
  | forLoop => exact forLoop_projects
  | whileLoop => exact whileLoop_projects
  | function => exact function_projects
  | body => exact body_projects
  | closedBody => exact closedBody_projects

end Rules

end Twofold

namespace TokenStream

variable {stream : TokenStream} {limit : Limit}

theorem run_nested {α : Type} (c : Cursor) (reading : Effect α) (s : Session) :
    (stream.nested limit c reading).run.run s =
      if limit.allows (s.depth + 1) then
        ((reading.run.run s.enter).1, (reading.run.run s.enter).2.leave)
      else (stream.refuse c).run.run s := by
  let up (result : Except (Failure Diagnostic) α) : Effect α := do
    modify Session.leave
    MonadExcept.ofExcept result
  change (if limit.allows (s.depth + 1) = true then modify Session.enter >>= fun _ =>
    Effect.outcome reading >>= up else stream.refuse c : Effect α).run.run s = _
  split
  · change (Effect.outcome reading >>= up).run.run s.enter = _
    rw [Effect.run_outcome_bind]
    rcases reading.run.run s.enter with ⟨error | value, after⟩ <;> rfl
  · rfl

/-- Under any limit and with any room, rules do with tokens what they do with their kinds. -/
theorem readWithin_eq (calls : Nat) (rule : Rule) (c : Cursor) (s : Session) :
    (stream.readWithin limit calls rule c).run.run s =
      stream.carry (rule.spanned stream.spanOf) (Rule.run stream.kinds limit calls rule c s) := by
  induction calls generalizing rule c s with
  | zero => rfl
  | succ calls ih =>
    let w : Twofold := ⟨stream, stream.readWithin limit calls, Rule.run stream.kinds limit calls, ih⟩
    have body := w.reader_projects (c := c) rule
    rw [readWithin, Rule.run, size_kinds]
    cases rule.guarded with
    | false => exact body s
    | true =>
      simp only [if_true]
      rw [run_nested, body s.enter]
      split <;> rfl

theorem read_eq (rule : Rule) (c : Cursor) (s : Session) :
    (stream.read limit rule c).run.run s = stream.carry (rule.spanned stream.spanOf)
      (Rule.run stream.kinds limit (Rule.enoughCalls stream.kinds) rule c s) := by
  rw [read, readWithin_eq, Rule.enoughCalls, size_kinds]

section Outcomes

variable {rule : Rule} {c d : Cursor} {s : Session}

theorem read_session : ((stream.read limit rule c).run.run s).2 =
    (Rule.run stream.kinds limit (Rule.enoughCalls stream.kinds) rule c s).2 := by
  rw [read_eq]
  rfl

theorem read_eq_ok {value : rule.Result} :
    ((stream.read limit rule c).run.run s).1 = .ok ⟨value, d⟩ ↔
      ∃ inner, (Rule.run stream.kinds limit (Rule.enoughCalls stream.kinds) rule c s).1 =
        .ok ⟨inner, d⟩ ∧ value = rule.spanned stream.spanOf inner := by
  rw [read_eq, carry]
  rcases (Rule.run stream.kinds limit _ rule c s).1 with error | ⟨inner, e⟩
  · simp
  · simp [Parsed.map, and_comm, eq_comm]

theorem read_eq_error {failure : Failure Diagnostic} :
    ((stream.read limit rule c).run.run s).1 = .error failure ↔
      ∃ error, (Rule.run stream.kinds limit (Rule.enoughCalls stream.kinds) rule c s).1 =
        .error error ∧ failure = ⟨stream.diagnose error, error.cursor⟩ := by
  rw [read_eq, carry]
  rcases (Rule.run stream.kinds limit _ rule c s).1 with error | ⟨inner, e⟩
  · simp [eq_comm]
  · simp

end Outcomes

/-- A program is read from tokens as it is read from their kinds. -/
theorem parse_eq (limit : Limit) (s : Session) :
    stream.parse limit s =
      let (outcome, after) := parseKinds stream.kinds limit s
      (match outcome with
        | .ok tree => .ok (tree.map stream.spanOf)
        | .error error => .error (stream.diagnose error), after) := by
  let w : Twofold := ⟨stream, stream.read limit, Rule.run stream.kinds limit _, read_eq⟩
  have whole : (stream.program (stream.read limit)).run.run s = _ := w.program_projects s
  rw [parse, whole, parseKinds]
  rcases Parser.program.exec _ _ .start s with ⟨error | parsed, after⟩ <;> rfl

theorem parse_outcome (stream : TokenStream) (limit : Limit) (s : Session) :
    (stream.parse limit s).1 =
      match (parseKinds stream.kinds limit s).1 with
      | .ok tree => .ok (tree.map stream.spanOf)
      | .error error => .error (stream.diagnose error) := by
  rw [parse_eq]

theorem parse_session (s : Session) :
    (stream.parse limit s).2 = (parseKinds stream.kinds limit s).2 := by
  rw [parse_eq]

end TokenStream

end Sharp.Grammar

import Sharp.Proofs.Grammar.Following
import Sharp.Proofs.Grammar.Quietness
import Sharp.Proofs.Grammar.Settling
import Mathlib.Data.List.Nodup

/-!
Values that were tried in vain, each with the record of its own attempt. What a chain of operators
takes behind a return is laid beside the attempt of that return to read it as a value with a sign:
where nothing was refused in the attempt it would have gone through. So only a refusal in its own
attempt leaves a sign behind a return without a value.
-/
namespace Sharp.Grammar

open Sharp.Grammar.Parser

/-- A return at a cursor that was kept had tried in vain to read its value. -/
def Record.Tried (record : Record) (c : Cursor) (tried : Record) : Prop :=
  (.statement, c, .called .expression c.next true tried .nil) ∈ record.kept

theorem Record.Tried.events {record tried : Record} {c : Cursor} (isTried : record.Tried c tried) :
    tried.events <:+: record.events := by
  simpa [Record.events] using events_of_kept isTried

/-! ### Signs behind returns -/

theorem ne_keyword_of_sign {kind : TokenKind} (sign : isSign kind = true) (word : Keyword) :
    kind ≠ .keyword word := by
  rintro rfl
  cases sign

namespace Smooth

variable {kinds : Kinds} {limit : Limit} {calls depth : Nat} {m : Cursor}
  (sign : isSign (kinds.kindAt m) = true)

include sign

theorem of_expression (smooth : Smooth kinds limit calls depth (expression kinds.size) m) :
    Smooth kinds limit calls depth
      (chain kinds.size .logical (read .comparison) (read .comparison)) m := by
  have smooth := of_peek (of_here smooth)
  split at smooth
  · exact absurd ‹_› (ne_keyword_of_sign sign _)
  · exact of_expecting smooth

theorem of_comparison (smooth : Smooth kinds limit calls depth (comparison kinds.size) m) :
    Smooth kinds limit calls depth (chain kinds.size .comparison (read .sum) (read .sum)) m := by
  have smooth := of_peek (of_here smooth)
  split at smooth
  · exact absurd ‹_› (ne_keyword_of_sign sign _)
  · exact of_expecting smooth

theorem of_signed (smooth : Smooth kinds limit calls depth signed m) :
    Smooth kinds limit calls depth (read .signed) m.next := by
  have smooth := of_peek (of_here smooth)
  obtain ⟨op, found⟩ := Option.isSome_iff_exists.1 sign
  rw [found] at smooth
  exact of_bind (of_step smooth)

/-- On the way down to its sign a value is begun as a comparison, a sum and a product. -/
theorem opened (smooth : Smooth kinds limit calls depth (expression kinds.size) m) :
    Smooth kinds limit calls depth (comparison kinds.size) m ∧
      Smooth kinds limit calls depth (Rule.sum.parser kinds.size) m ∧
      Smooth kinds limit calls depth (Rule.product.parser kinds.size) m := by
  have compared : Smooth kinds limit calls depth (comparison kinds.size) m :=
    called (of_bind (of_expression sign smooth))
  have added : Smooth kinds limit calls depth (Rule.sum.parser kinds.size) m :=
    called (of_bind (of_comparison sign compared))
  exact ⟨compared, added, called (of_bind added)⟩

end Smooth

section Leads

variable {kinds : Kinds} {limit : Limit} {calls depth : Nat} {m d e : Cursor} {x : Tree}
  {rest : List (BinaryOp × Tree)}

/-- A sign where, without a limit, a sum or a comparison up to some cursor can be read. -/
def Leads (kinds : Kinds) : Level → Cursor → Cursor → Prop
  | .additive, m, d =>
    isSign (kinds.kindAt m) = true ∧ ∃ x, Rule.unguarded kinds .sum m = .ok ⟨x, d⟩
  | .comparison, m, d =>
    isSign (kinds.kindAt m) = true ∧ ∃ x, Rule.unguarded kinds .comparison m = .ok ⟨x, d⟩
  | _, _, _ => False

theorem series_lift {level : Level} {right other : Cursor → Outcome Tree}
    (truthful : ∀ c x e, right c = .ok ⟨x, e⟩ → other c = .ok ⟨x, e⟩)
    (series : Series (nextOperand kinds level right) e rest d) :
    Series (nextOperand kinds level other) e rest d := by
  have all : ∀ operand ∈ rest, (fun _ => True) operand := fun _ _ => trivial
  refine series.transfers (fun _ => True) (fun c _ ends => ?_) (fun c operand e _ found _ => ?_)
    trivial all
  · exact nextOperand_eq_none.2 (nextOperand_eq_none.1 ends)
  · obtain ⟨here, same, answered⟩ := nextOperand_eq_some.1 found
    exact ⟨trivial, nextOperand_eq_some.2 ⟨here, same, truthful _ _ _ answered⟩⟩

variable (enough : calls ≤ Rule.enoughCalls kinds)

include enough

/-- With the sign before it the product goes as far as without. -/
theorem product_of_sign (sign : isSign (kinds.kindAt m) = true)
    (smooth : Smooth kinds limit calls depth (Rule.product.parser kinds.size) m)
    (succeeds : (Rule.product.parser kinds.size).eval kinds
      (Rule.answerWithin kinds limit calls depth) m.next = .ok ⟨x, e⟩) :
    ∃ y, Rule.unguarded kinds .product m = .ok ⟨y, e⟩ := by
  obtain ⟨head, b, others, begun, series, _⟩ :=
    (product_eq_ok (Rule.answerWithin_moves limit calls depth)).1 succeeds
  have inner : Smooth kinds limit calls depth (read .signed) m.next :=
    .of_signed sign (.called (.of_bind smooth))
  have same := inner.eval_eq enough
  rw [eval_read, eval_read, begun] at same
  obtain ⟨op, found⟩ := Option.isSome_iff_exists.1 sign
  have first : Rule.unguarded kinds .signed m = .ok ⟨.unary (.upTo m b) op head, b⟩ := by
    rw [Rule.unguarded_eq]
    exact signed_eq_ok.2 (.inl ⟨op, head, found, same, rfl⟩)
  obtain ⟨y, chained⟩ := smooth.chained enough (· .signed) (fun _ => eval_read_eq .signed)
    (fun _ moves _ _ _ => index_lt_of_ok moves) first series
  exact ⟨y, (Rule.unguarded_eq _ _).trans ((product_eq_ok Rule.unguarded_moves).2 chained)⟩

variable (smooth : Smooth kinds limit calls depth (read .expression) m)

include smooth

theorem leads_of_sign (sign : isSign (kinds.kindAt m) = true)
    (answered : Rule.answerWithin kinds limit calls depth .product m.next = .ok ⟨x, e⟩)
    (series : Series (nextOperand kinds .additive
      (Rule.answerWithin kinds limit calls depth .product)) e rest d) :
    Leads kinds .additive m d := by
  obtain ⟨_, added, _⟩ := Smooth.opened sign smooth.called
  have first : ∃ y, Rule.unguarded kinds .product m = .ok ⟨y, e⟩ := by
    cases calls with
    | zero => cases answered
    | succ calls =>
      obtain ⟨_, _, multiplied⟩ := Smooth.opened sign smooth.of_read
      exact product_of_sign (Nat.le_of_succ_le enough) sign multiplied answered
  obtain ⟨y, first⟩ := first
  obtain ⟨z, chained⟩ := added.chained enough (· .product) (fun _ => eval_read_eq .product)
    (fun _ moves _ _ _ => index_lt_of_ok moves) first series
  exact ⟨sign, z, (Rule.unguarded_eq _ _).trans ((sum_eq_ok Rule.unguarded_moves).2 chained)⟩

theorem leads_of_sum (leads : Leads kinds .additive m e)
    (series : Series (nextOperand kinds .comparison
      (Rule.answerWithin kinds limit calls depth .sum)) e rest d) :
    Leads kinds .comparison m d := by
  obtain ⟨sign, y, first⟩ := leads
  obtain ⟨compared, _, _⟩ := Smooth.opened sign smooth.called
  obtain ⟨z, chained⟩ := (compared.of_comparison sign).chained enough (· .sum)
    (fun _ => eval_read_eq .sum) (fun _ moves _ _ _ => index_lt_of_ok moves) first series
  exact ⟨sign, z, (Rule.unguarded_eq _ _).trans ((comparison_eq_ok Rule.unguarded_moves).2
    (.inr ⟨ne_keyword_of_sign sign _, chained⟩))⟩

theorem value_of_leads (leads : Leads kinds .comparison m e)
    (series : Series (nextOperand kinds .logical
      (Rule.answerWithin kinds limit calls depth .comparison)) e rest d) :
    ∃ value, Rule.unguarded kinds .expression m = .ok value := by
  obtain ⟨sign, y, first⟩ := leads
  have smooth : Smooth kinds limit calls depth (expression kinds.size) m := smooth.called
  obtain ⟨z, chained⟩ := (smooth.of_expression sign).chained enough (· .comparison)
    (fun _ => eval_read_eq .comparison) (fun _ moves _ _ _ => index_lt_of_ok moves) first series
  exact ⟨⟨z, d⟩, (Rule.unguarded_eq _ _).trans ((expression_eq_ok Rule.unguarded_moves).2
    (.inr ⟨ne_keyword_of_sign sign _, chained⟩))⟩

end Leads

/-! ### Attempts -/

/-- A value that was tried in vain in front of what goes on with so many calls to go and so deep. -/
structure Attempt (kinds : Kinds) (limit : Limit) (calls depth : Nat)
    (kept : List (Rule × Cursor × Record)) (m : Cursor) (tried : Record) : Prop where
  among : (.statement, m.prev, .called .expression m true tried .nil) ∈ kept
  smooth : tried.Quiet → Smooth kinds limit calls depth (read .expression) m
  fails : tried.Quiet → ∃ error, Rule.unguarded kinds .expression m = .error error

/-- Some value was tried in vain at a cursor, and if nothing was refused then more is known. -/
def Attempted (kinds : Kinds) (limit : Limit) (calls depth : Nat)
    (kept : List (Rule × Cursor × Record)) (goal : Prop) (m : Cursor) : Prop :=
  ∃ tried, Attempt kinds limit calls depth kept m tried ∧ (tried.Quiet → goal)

section Attempts

variable {kinds : Kinds} {limit : Limit} {calls more depth less : Nat} {c m : Cursor}
  {kept wider : List (Rule × Cursor × Record)} {goal other : Prop}

theorem Attempted.imp (attempted : Attempted kinds limit calls depth kept goal m)
    (fewer : calls ≤ more) (deeper : less ≤ depth) (below : kept ⊆ wider) (weaken : goal → other) :
    Attempted kinds limit more less wider other m := by
  obtain ⟨tried, ⟨among, smooth, fails⟩, known⟩ := attempted
  exact ⟨tried, ⟨below among, fun quiet => (smooth quiet).mono fewer deeper, fails⟩,
    fun quiet => weaken (known quiet)⟩

theorem record_returned (recorder : Recorder) (found : kinds.kindAt c = .keyword .return) :
    (.expression, c.next) ∈ (statement.record kinds recorder c).2.starts ∧
      ∀ error, (recorder .expression c.next).1 = .error error →
        (statement.record kinds recorder c).2 =
          .called .expression c.next true (recorder .expression c.next).2 .nil := by
  have tries : statement.record kinds recorder c = (returned c).record kinds recorder c := by
    simp only [statement, bind_eq, here, peek, Parser.bind, Parser.record, found]
  rw [tries]
  simp only [returned, bind_eq, step, Parser.bind, Parser.record, Recorder.call]
  rcases recorder .expression c.next with ⟨error | parsed, inside⟩
  · exact ⟨List.mem_cons_self, fun _ _ => rfl⟩
  · refine ⟨List.mem_cons_self, fun error failed => ?_⟩
    cases failed

/-- A return that goes without a value tried to read it. -/
theorem attempted_of_return (enough : calls ≤ Rule.enoughCalls kinds)
    (found : kinds.kindAt c = .keyword .return)
    (among : (.statement, c, (statement.record kinds (Rule.record kinds limit calls depth) c).2) ∈
      kept)
    {error : SyntaxError}
    (fails : (Rule.record kinds limit calls depth .expression c.next).1 = .error error) :
    Attempted kinds limit calls depth kept True c.next := by
  rw [(record_returned _ found).2 error fails] at among
  have agrees : (Rule.record kinds limit calls depth).Agrees (Rule.unguarded kinds) :=
    Rule.record_agrees enough fun _ _ => rfl
  exact ⟨_, ⟨among,
    fun quiet => ⟨calls, depth, Nat.le_refl _, Nat.le_refl _, quiet_read.2 quiet⟩,
    fun quiet => ⟨error, (agrees _ _ quiet).symm.trans fails⟩⟩, fun _ => trivial⟩

namespace Rule

variable {rule : Rule} {parsed : Parsed rule.Value}

theorem waits_imp {taken done : Cursor → Prop} {carries brings : Level → Cursor → Cursor → Prop}
    {d : Cursor} (takes : ∀ m, taken m → done m)
    (carried : ∀ level m, carries level m d → brings level m d)
    (waits : rule.waits taken carries d m) : rule.waits done brings d m := by
  cases rule with
  | sum => exact waits.imp (takes m) (carried .additive m)
  | comparison => exact waits.imp (takes m) (carried .comparison m)
  | _ => exact takes m waits

/-- What a rule yields has each of its returns without a value traced to an attempt, and the signs
    that were taken behind them to attempts in which something was refused. -/
structure Traced (kinds : Kinds) (limit : Limit) (calls depth : Nat)
    (kept : List (Rule × Cursor × Record)) (rule : Rule) (c : Cursor)
    (parsed : Parsed rule.Value) : Prop where
  laid : Laid kinds c (rule.node parsed.value) (rule.reach parsed)
  owned : ReturnsBefore (Attempted kinds limit calls depth kept True) (rule.node parsed.value)
  trails : Trails kinds (rule.waits (Attempted kinds limit calls depth kept False)
    (fun level m d => Attempted kinds limit calls depth kept (Leads kinds level m d) m)
    parsed.cursor) (rule.node parsed.value) parsed.cursor

theorem Traced.mono (traced : Traced kinds limit calls depth kept rule c parsed)
    (fewer : calls ≤ more) (deeper : less ≤ depth) (below : kept ⊆ wider) :
    Traced kinds limit more less wider rule c parsed where
  laid := traced.laid
  owned place bare := (traced.owned place bare).imp fewer deeper below id
  trails place bare := (traced.trails place bare).imp_right fun clear =>
    clear.up (fun _ => waits_imp (fun _ waits => waits.imp fewer deeper below id)
      fun _ _ waits => waits.imp fewer deeper below id) fun _ among => among

theorem parser_traced (enough : calls ≤ enoughCalls kinds) {answers : Answers}
    (moves : ∀ rule c, Moved kinds c (answers rule c))
    (truthful : ∀ rule c parsed, answers rule c = .ok parsed →
      answerWithin kinds limit calls depth rule c = .ok parsed)
    (inside : ∀ rule c parsed, answers rule c = .ok parsed →
      Traced kinds limit calls depth kept rule c parsed)
    (tried : rule = .statement → kinds.kindAt c = .keyword .return →
      ∀ error, answers .expression c.next = .error error →
        Attempted kinds limit calls depth kept True c.next)
    (succeeds : (rule.parser kinds.size).eval kinds answers c = .ok parsed) :
    Traced kinds limit calls depth kept rule c parsed where
  laid := parser_laid (fun rule c parsed answered => (inside rule c parsed answered).laid) moves
    succeeds
  owned := parser_settles (fun rule c parsed answered => (inside rule c parsed answered).owned)
    moves tried succeeds
  trails := by
    refine parser_trails (fun rule c parsed answered => (inside rule c parsed answered).trails)
      moves (fun rule c parsed answered => (inside rule c parsed answered).owned) ?_ ?_ ?_
      (fun c callee m answered => (inside .atom c ⟨callee, m⟩ answered).laid) succeeds
    · rintro m x e rest d ⟨tried, attempt, _⟩ sign answered series
      exact ⟨tried, attempt, fun quiet => leads_of_sign enough (attempt.smooth quiet) sign
        (truthful .product _ _ answered)
        (series_lift (fun c x e => truthful .product c ⟨x, e⟩) series)⟩
    · rintro m e rest d ⟨tried, attempt, leads⟩ series
      exact ⟨tried, attempt, fun quiet => leads_of_sum enough (attempt.smooth quiet) (leads quiet)
        (series_lift (fun c x e => truthful .sum c ⟨x, e⟩) series)⟩
    · rintro m e rest d ⟨tried, attempt, leads⟩ series
      refine ⟨tried, attempt, fun quiet => ?_⟩
      obtain ⟨error, fails⟩ := attempt.fails quiet
      obtain ⟨value, taken⟩ := value_of_leads enough (attempt.smooth quiet) (leads quiet)
        (series_lift (fun c x e => truthful .comparison c ⟨x, e⟩) series)
      cases fails.symm.trans taken

theorem record_traced (enough : calls ≤ enoughCalls kinds)
    (succeeds : (record kinds limit calls depth rule c).1 = .ok parsed) :
    Traced kinds limit calls depth ((rule, c, (record kinds limit calls depth rule c).2) ::
      (record kinds limit calls depth rule c).2.kept) rule c parsed := by
  induction calls generalizing depth rule c with
  | zero => cases succeeds
  | succ calls ih =>
    have few : calls ≤ enoughCalls kinds := Nat.le_of_succ_le enough
    let recorder := record kinds limit calls (rule.depthInside depth)
    have opens := record_of_ok succeeds
    rw [opens] at succeeds ⊢
    let inside := ((rule.parser kinds.size).record kinds recorder c).2
    -- Only what was called is answered, so what is found in an answer is found in the record.
    have evaluated : (rule.parser kinds.size).eval kinds (recorder.made inside.starts) c =
        .ok parsed := (eval_of_starts fun inner d made => if_pos made).trans succeeds
    have nested : Traced kinds limit calls (rule.depthInside depth)
        ((rule, c, inside) :: inside.kept) rule c parsed := by
      refine parser_traced few (fun inner d => ?_) (fun inner d found answered => ?_)
        (fun inner d found answered => ?_) ?_ evaluated
      · unfold Recorder.made
        split
        · rw [record_outcome]
          exact answerWithin_moves limit calls _ inner d
        · exact .refl d
      · exact (record_outcome ..).symm.trans (Recorder.made_eq_ok.1 answered).2
      · obtain ⟨made, answered⟩ := Recorder.made_eq_ok.1 answered
        exact (ih few answered).mono (Nat.le_refl _) (Nat.le_refl _)
          (List.subset_cons_of_subset _ (kept_of_starts made answered))
      · rintro rfl found error fails
        have made := (record_returned recorder found).1
        exact attempted_of_return few found List.mem_cons_self ((if_pos made).symm.trans fails)
    refine nested.mono (Nat.le_succ calls) ?_ fun _ among => among
    unfold depthInside
    split <;> omega

end Rule

end Attempts

/-- Every return without a value that was accepted is one that tried to read it, and where nothing
    was refused in the attempt no value was missed: there is no sign behind the return. -/
theorem recordKinds_tried {kinds : Kinds} {limit : Limit} {tree : Tree}
    (accepted : (parseKinds kinds limit .start).1 = .ok tree) :
    ∀ place ∈ Node.bareReturns tree, ∃ tried,
      (recordKinds kinds limit).2.Tried place.first tried ∧ (tried.Quiet →
        (∃ error, Rule.answer kinds none 0 .expression place.first.next = .error error) ∧
        (startsExpression (kinds.kindAt place.first.next) = true →
          EndsCallee kinds tree place.first)) := by
  obtain ⟨d, answered, finished⟩ := parseKinds_eq_ok.1 accepted
  have succeeds := (Rule.record_outcome kinds limit _ 0 .block .start).trans answered
  have made : (.block, .start) ∈ (recordKinds kinds limit).2.starts := mem_starts_read _
  have traced : Rule.Traced kinds limit _ 0 (recordKinds kinds limit).2.kept .block .start _ :=
    (Rule.record_traced (Nat.le_refl _) succeeds).mono (Nat.le_refl _) (Nat.le_refl _)
      (kept_of_starts made succeeds)
  have cleared := traced.trails.cleared (by rw [finished]; rfl)
  intro place bare
  rcases cleared place bare with other | ends | ⟨tried, attempt, refused⟩
  · obtain ⟨tried, attempt, _⟩ := traced.owned place bare
    exact ⟨tried, attempt.among, fun quiet => ⟨attempt.fails quiet, fun starts =>
      absurd (starts.symm.trans other) (by decide)⟩⟩
  · obtain ⟨tried, attempt, _⟩ := traced.owned place bare
    exact ⟨tried, attempt.among, fun quiet => ⟨attempt.fails quiet, fun _ => ends⟩⟩
  · exact ⟨tried, attempt.among, fun quiet => (refused quiet).elim⟩

/-- A program that is accepted has kept no return twice. -/
theorem recordKinds_tried_once {kinds : Kinds} {limit : Limit} {tree : Tree}
    (accepted : (parseKinds kinds limit .start).1 = .ok tree) {c : Cursor} {tried other : Record}
    (isTried : (recordKinds kinds limit).2.Tried c tried)
    (also : (recordKinds kinds limit).2.Tried c other) : other = tried := by
  rw [(parseKinds_recorded kinds limit).1] at accepted
  rcases succeeds : (recordKinds kinds limit).1 with error | parsed
  · rw [succeeds] at accepted
    cases accepted
  · have same := List.inj_on_of_nodup_map (recordKinds_kept succeeds) also isTried rfl
    cases same
    rfl

end Sharp.Grammar

namespace Sharp

open Grammar

/-- A bare return of an accepted row has behind it no token that starts an expression, unless that
    token is a sign or opens the brackets of a call of what the return ends. Each such return tried
    to read its value once, and if nothing was refused in that attempt only such a call is left, and
    no expression can be read there. -/
theorem parse_behind_return (tokens : List Token) (limit : Limit) (result : Node Span)
    (accepted : ((TokenStream.ofList tokens).parse limit .start).1 = .ok result) :
    let stream := TokenStream.ofList tokens
    ∃ tree : Tree, (parseKinds stream.kinds limit .start).1 = .ok tree ∧
      result = tree.map stream.spanOf ∧
      ∀ place ∈ tree.bareReturns, stream.kinds.kindAt place.first = .keyword .return ∧
        (startsExpression (stream.kinds.kindAt place.first.next) = true →
          isSign (stream.kinds.kindAt place.first.next) = true ∨
            EndsCallee stream.kinds tree place.first) ∧
        ∃ tried, (recordKinds stream.kinds limit).2.Tried place.first tried ∧
          (∀ other, (recordKinds stream.kinds limit).2.Tried place.first other → other = tried) ∧
          tried.events <:+: (stream.parse limit .start).2.events.toList ∧
          (tried.Quiet →
            (∃ error, Rule.answer stream.kinds none 0 .expression place.first.next = .error error) ∧
            (startsExpression (stream.kinds.kindAt place.first.next) = true →
              EndsCallee stream.kinds tree place.first)) := by
  intro stream
  obtain ⟨tree, parsed, rfl⟩ := TokenStream.parse_eq_ok.1 accepted
  refine ⟨tree, parsed, rfl, fun place bare => ⟨parseKinds_bareReturn parsed place bare, ?_, ?_⟩⟩
  · intro starts
    rcases parseKinds_cleared parsed place bare with other | ends | sign
    · exact absurd (starts.symm.trans other) (by decide)
    · exact .inr ends
    · exact .inl sign
  · obtain ⟨tried, isTried, unrefused⟩ := recordKinds_tried parsed place bare
    refine ⟨tried, isTried, fun other => recordKinds_tried_once parsed isTried, ?_, unrefused⟩
    rw [TokenStream.parse_session, (parseKinds_recorded stream.kinds limit).2]
    exact isTried.events

/-- The brackets behind the return are those of a call of the whole choice. -/
theorem parse_behind_return_call :
    let place : Span := .empty (.start ⟨"", ""⟩)
    let tokens : List Token := [.keyword .if, .int 1, .keyword .then, .keyword .return,
      .symbol .openRound, .symbol .closeRound].map fun kind => ⟨kind, place⟩
    let choice : Node Span := .ifElse place [⟨.int place 1, ⟨.returnWith place none, false⟩⟩] none
    let result : Node Span := .block place [.call place choice []]
    let stream := TokenStream.ofList tokens
    (stream.parse standardLimit .start).1 = .ok result ∧
      ∃ tree : Tree, result = tree.map stream.spanOf ∧ Extent.token ⟨3⟩ ∈ tree.bareReturns ∧
        startsExpression (stream.kinds.kindAt ⟨4⟩) = true ∧ EndsCallee stream.kinds tree ⟨3⟩ ∧
        (∃ error, Rule.answer stream.kinds none 0 .expression ⟨4⟩ = .error error) ∧
        ∃ tried, (recordKinds stream.kinds standardLimit).2.Tried ⟨3⟩ tried ∧ tried.Quiet := by
  intro place tokens choice result stream
  have exact : (parseKinds stream.kinds standardLimit .start).1 =
    .ok (.block ⟨⟨0⟩, ⟨6⟩⟩ [.call ⟨⟨0⟩, ⟨5⟩⟩ (.ifElse ⟨⟨0⟩, ⟨3⟩⟩
      [⟨.int (.token ⟨1⟩) 1, ⟨.returnWith (.token ⟨3⟩) none, false⟩⟩] none) []]) := by cbv
  have starts : startsExpression (stream.kinds.kindAt ⟨4⟩) = true := by cbv
  have accepted : (stream.parse standardLimit .start).1 = .ok result :=
    (TokenStream.parse_outcome _ _ _).trans (by cbv)
  have silent : ((TokenStream.ofList tokens).parse standardLimit .start).2.events = #[] := by
    decide +kernel
  obtain ⟨tree, parsed, same, behind⟩ := parse_behind_return tokens standardLimit result accepted
  have bare : Extent.token ⟨3⟩ ∈ tree.bareReturns := by
    cases exact.symm.trans parsed
    decide
  obtain ⟨_, _, tried, isTried, _, noted, unrefused⟩ := behind _ bare
  have quiet : tried.Quiet := by
    intro event among
    rw [silent] at noted
    exact absurd (noted.subset among) List.not_mem_nil
  obtain ⟨fails, ends⟩ := unrefused quiet
  exact ⟨accepted, tree, same, bare, starts, ends starts, fails, tried, isTried, quiet⟩

/-- A return may go without a value although an expression can start with what stands behind it. -/
theorem parse_return_before_bracket :
    let place : Span := .empty (.start ⟨"", ""⟩)
    let tokens : List Token := [.keyword .if, .int 1, .keyword .then, .keyword .return,
      .symbol .openRound, .symbol .closeRound].map fun kind => ⟨kind, place⟩
    let stream := TokenStream.ofList tokens
    ∃ tree : Tree, (parse tokens).outcome = .ok (tree.map stream.spanOf) ∧
      ∃ place ∈ tree.bareReturns, stream.kinds.kindAt place.first = .keyword .return ∧
        startsExpression (stream.kinds.kindAt place.first.next) = true := by
  intro place tokens stream
  refine ⟨.block ⟨⟨0⟩, ⟨6⟩⟩ [.call ⟨⟨0⟩, ⟨5⟩⟩ (.ifElse ⟨⟨0⟩, ⟨3⟩⟩
    [⟨.int (.token ⟨1⟩) 1, ⟨.returnWith (.token ⟨3⟩) none, false⟩⟩] none) []], ?_, .token ⟨3⟩, ?_⟩
  · exact (parse_outcome _).trans (by cbv)
  · exact ⟨by decide, by cbv, by cbv⟩

end Sharp

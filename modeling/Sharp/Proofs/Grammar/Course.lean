import Sharp.Proofs.Grammar.Acceptance
import Sharp.Proofs.Grammar.Layout

/-!
The course of a run: every cursor it passes and every session on the way, inside the calls as well.
Cursors go over tokens that do not end the text and back to where they were before, so a run that
starts on a token of the row never looks behind the last one. What was tried in vain is noted with
the number of tokens between two cursors in order.
-/
namespace Sharp.Grammar

namespace Parser

variable {α : Type} {kinds : Kinds} {given : Given} {runner : Runner} {rule : Rule}
  {start : Cursor} {good : Cursor → Session → Prop}
  {inside : (rule : Rule) → Cursor → Session → Prop}

/-- Every state of a run is good, and every call goes as it should inside. -/
def Throughout (kinds : Kinds) (runner : Runner) (good : Cursor → Session → Prop)
    (inside : (rule : Rule) → Cursor → Session → Prop) : Parser α → Cursor → Session → Prop
  | .done _, c, s => good c s
  | .raise _, c, s => good c s
  | .look next, c, s => good c s ∧ (next c (kinds.kindAt c)).Throughout kinds runner good inside c s
  | .advance next, c, s => good c s ∧ next.Throughout kinds runner good inside c.next s
  | .attempt rule next, c, s =>
    good c s ∧ inside rule c s ∧
      match runner rule c s with
      | (.ok parsed, after) =>
        (next (.ok parsed.value)).Throughout kinds runner good inside parsed.cursor after
      | (.error error, after) => (next (.error error)).Throughout kinds runner good inside c after
  | .note event next, c, s => good c s ∧ next.Throughout kinds runner good inside c (s.note event)

/-- What holds further on as well, whatever is noted, holds throughout if it holds at first. -/
theorem throughout_of_meets {p : Parser α} {c : Cursor} {s : Session} {want : Outcome α → Prop}
    (onward : ∀ c d s t, kinds.Reaches c d → t.depth = s.depth → good c s → good d t)
    (keeps : ∀ rule c s, (runner rule c s).2.depth = s.depth)
    (moves : ∀ rule c s, Moved kinds c (runner rule c s).1)
    (calls : ∀ rule c s, good c s → inside rule c s)
    (meets : p.Meets kinds (headway kinds (fun _ _ _ => True) rule start) c want)
    (holds : good c s) : p.Throughout kinds runner good inside c s := by
  induction p generalizing c s with
  | done => exact holds
  | raise => exact holds
  | look next ih => exact ⟨holds, ih c (kinds.kindAt c) meets holds⟩
  | advance next ih =>
    have reaches : kinds.Reaches c c.next := (Kinds.passes_next meets.1).reaches
    exact ⟨holds, ih meets.2 (onward c c.next s s reaches rfl holds)⟩
  | attempt inner next ih =>
    obtain ⟨_, success, failure⟩ := meets
    have moved := moves inner c s
    have kept := keeps inner c s
    rw [Throughout]
    refine ⟨holds, calls inner c s holds, ?_⟩
    split <;> rename_i answered <;> rw [answered] at moved kept
    · exact ih _ (success _ ⟨moved, trivial⟩) (onward _ _ _ _ moved.reaches kept holds)
    · exact ih _ (failure _ ⟨moved, trivial⟩) (onward _ _ _ _ (.refl c) kept holds)
  | note event next ih =>
    exact ⟨holds, ih meets.2 (onward c c s (s.note event) (.refl c) rfl holds)⟩

/-- Only what the calls note and what the contract lets through is new. -/
theorem exec_accounted {p : Parser α} {c : Cursor} {s : Session} {want : Outcome α → Prop}
    {k : Contract} (kept : ∀ rule c s, k.allowed rule c → k.promised rule c (runner rule c s).1)
    (calls : ∀ rule c s, k.allowed rule c →
      ∀ event ∈ (runner rule c s).2.events, event ∈ s.events ∨ k.noted event)
    (meets : p.Meets kinds k c want) :
    ∀ event ∈ (p.exec kinds runner c s).2.events, event ∈ s.events ∨ k.noted event := by
  induction p generalizing c s with
  | done => exact fun _ => .inl
  | raise => exact fun _ => .inl
  | look next ih => exact ih c (kinds.kindAt c) meets
  | advance next ih => exact ih meets.2
  | attempt inner next ih =>
    obtain ⟨may, success, failure⟩ := meets
    have promised := kept inner c s may
    have before := calls inner c s may
    simp only [exec]
    split <;> rename_i answered <;> rw [answered] at promised before
    · exact fun event noted => (ih _ (success _ promised) event noted).elim (before event) .inr
    · exact fun event noted => (ih _ (failure _ promised) event noted).elim (before event) .inr
  | note event next ih =>
    intro other noted
    refine (ih meets.2 other noted).elim (fun earlier => ?_) .inr
    rcases Array.mem_push.1 earlier with already | rfl
    · exact .inl already
    · exact .inr meets.1

end Parser

namespace Rule

variable {kinds : Kinds} {limit : Limit} {good : Cursor → Session → Prop} {c : Cursor}
  {s : Session}

/-- Every state of a run is good, those inside its calls included. -/
def Throughout (kinds : Kinds) (limit : Limit) (good : Cursor → Session → Prop) :
    (calls : Nat) → Rule → Cursor → Session → Prop
  | 0, _, c, s => good c s
  | calls + 1, rule, c, s =>
    let body := (rule.parser kinds.size).Throughout kinds (run kinds limit calls) good
      (Throughout kinds limit good calls) c
    good c s ∧
      if rule.guarded then limit.allows (s.depth + 1) = true → body s.enter
      else body s

theorem throughout_of_onward
    (onward : ∀ c d s t, kinds.Reaches c d → t.depth = s.depth → good c s → good d t)
    (enters : ∀ c s, limit.allows (s.depth + 1) = true → good c s → good c s.enter)
    (calls : Nat) (rule : Rule) (holds : good c s) :
    rule.Throughout kinds limit good calls c s := by
  induction calls generalizing rule c s with
  | zero => exact holds
  | succ calls ih =>
    have body (t : Session) (holds : good c t) :=
      Parser.throughout_of_meets onward (run_depth kinds limit calls) (run_moves calls)
        (fun inner _ _ => ih inner) (parser_moves (fun _ _ _ => True) rule kinds.size c) holds
    refine ⟨holds, ?_⟩
    split
    · exact fun allowed => body s.enter (enters c s allowed holds)
    · exact body s holds

/-- A statement that is taken back has failed at its start or so many tokens behind it. -/
theorem run_accounted {calls : Nat} {rule : Rule} (enough : rule.weight kinds c < calls) :
    ∀ event ∈ (run kinds limit calls rule c s).2.events, event ∈ s.events ∨
      event.Accounted fun rule c outcome => ∃ depth, answer kinds limit depth rule c = outcome := by
  induction calls generalizing rule c s with
  | zero => omega
  | succ calls ih =>
    have lighter {inner : Rule} {d : Cursor} {given : Given}
        (allowed : (headway kinds given rule c).allowed inner d) : inner.weight kinds d < calls :=
      Nat.lt_of_lt_of_le (weight_lt_of_allowed allowed) (Nat.le_of_lt_succ enough)
    have meets := @parser_moves kinds
      (fun rule c outcome => ∃ depth, answer kinds limit depth rule c = outcome) rule kinds.size c
    have body (t : Session) := by
      refine Parser.exec_accounted (s := t) (fun inner d u allowed => ?_)
        (fun inner d u allowed => ih (lighter allowed)) meets
      exact ⟨run_moves calls inner d u, u.depth, (run_eq_answer (lighter allowed)).symm⟩
    rw [run]
    split
    · split
      · exact body s.enter
      · intro event noted
        rcases Array.mem_push.1 noted with already | rfl
        · exact .inl already
        · exact .inr trivial
    · exact body s

/-- All of a tree lies from where its rule began on, in front of the cursor it reaches to. -/
theorem answer_within {depth : Nat} {rule : Rule} {parsed : Parsed rule.Value}
    (succeeds : answer kinds limit depth rule c = .ok parsed) :
    ∀ node ∈ Node.nodes (rule.node parsed.value),
      ∀ extent ∈ Node.place node :: (Node.names node).map Ident.place,
        c.index ≤ extent.first.index ∧ extent.first.index ≤ extent.last.index ∧
          extent.last.index < (rule.reach parsed).index := by
  have laid := answer_laid succeeds
  intro node among
  have tidy := laid.tidy node among
  have within := within_of_tidy laid.tidy node among
  have first := laid.starts
  have last := laid.stops
  have inOrder := tidy.inOrder
  refine List.forall_mem_cons.2 ⟨by omega, fun extent isName => ?_⟩
  have inner := tidy.parts.within extent (List.mem_append_left _ isName)
  simp only [Cursor.next_index] at inner
  omega

theorem reach_le (rule : Rule) (parsed : Parsed rule.Value) :
    (rule.reach parsed).index ≤ parsed.cursor.next.index := by
  cases rule <;> first | exact reach_le_next _ _ | exact Nat.le_succ _ | exact Nat.le_refl _

end Rule

/-- A program calls a block only, as a body may. -/
theorem Parser.program_moves {kinds : Kinds} :
    program.Meets kinds (headway kinds (fun _ _ _ => True) .body .start) .start
      (Moved kinds .start) := by
  simp only [program, bind_eq, pure_eq, meets_bind, meets_peek, andThen_ok]
  refine meets_read (.inr ⟨rfl, by decide⟩) fun tree d passes => ?_
  split
  · exact passes
  · exact passes.reaches

open Grammar.Parser in
/-- A program fails at a token that is reached from the first one. -/
theorem parseKinds_error_reaches {kinds : Kinds} {limit : Limit} {s : Session} {error : SyntaxError}
    (fails : (parseKinds kinds limit s).1 = .error error) : kinds.Reaches .start error.cursor := by
  have moved :
      Moved kinds .start (program.eval kinds (Rule.answer kinds limit s.depth) .start) := by
    refine eval_of_meets (fun rule c _ => ?_) program_moves
    exact ⟨Rule.answer_moves limit s.depth rule c, trivial⟩
  rw [parseKinds_outcome] at fails
  cases ran : program.eval kinds (Rule.answer kinds limit s.depth) .start with
  | ok parsed => simp [ran, Except.map] at fails
  | error other =>
    rw [ran] at moved fails
    cases fails
    exact moved

namespace TokenStream

variable {stream : TokenStream} {c d : Cursor}

/-- All tokens of a row, the final one included. -/
def row (stream : TokenStream) : List Token := stream.front.toList ++ [stream.final]

/-- A row that has a final token at its end is taken as it is. -/
theorem row_ofList {front : List Token} {final : Token} (ends : final.kind = .eof) :
    (ofList (front ++ [final])).row = front ++ [final] := by
  simp [row, ofList, ends]

theorem index_lt_row : c.index < stream.row.length ↔ c.index ≤ stream.front.size := by
  rw [row, List.length_append, List.length_singleton, Array.length_toList]
  exact Nat.lt_succ_iff

theorem getElem?_row (inside : c.index < stream.row.length) :
    stream.row[c.index]? = some (stream.tokenAt c) := by
  rw [index_lt_row] at inside
  rcases Nat.eq_or_lt_of_le inside with last | before
  · simp [row, tokenAt, last]
  · simp [row, tokenAt, before, List.getElem?_append_left]

/-- The final token is never passed. -/
theorem row_of_reaches (inside : c.index < stream.row.length) (reaches : stream.kinds.Reaches c d) :
    d.index < stream.row.length := by
  have finished : stream.kinds.kindAt ⟨stream.front.size⟩ = .eof := by
    simp [kindAt_kinds, tokenAt, stream.ends]
  exact index_lt_row.2 (reaches.index_le_of_eof (index_lt_row.1 inside) finished)

end TokenStream

end Grammar

open Grammar

/-- From any token of a row and at any depth, a rule that succeeds has passed at least one token and
    none that ends the text, and stops at a token of the row, on which its tree lies as well. One
    that fails does so at its own token or behind, and its error has the span of the token there. On
    the way no cursor leaves the row, and a statement that is taken back has its tokens counted
    right. So whatever is wrong with a program is wrong with one of its tokens. -/
theorem rules_stay_in_row (tokens : List Token) (limit : Limit) (rule : Rule) (c : Cursor)
    (s : Session) (inside : c.index < (TokenStream.ofList tokens).row.length) :
    let stream := TokenStream.ofList tokens
    let run (rule : Rule) (c : Cursor) (s : Session) := (stream.read limit rule c).run.run s
    ((∃ front final, tokens = front ++ [final] ∧ final.kind = .eof) → stream.row = tokens) ∧
    (∀ value d, (run rule c s).1 = .ok ⟨value, d⟩ →
      c.index < d.index ∧ d.index < stream.row.length ∧
      (∀ i, c.index ≤ i → i < d.index → ∀ token ∈ stream.row[i]?, token.kind ≠ .eof) ∧
      ∃ inner, value = rule.spanned stream.spanOf inner ∧
        ∀ node ∈ Node.nodes (rule.node inner),
          ∀ extent ∈ Node.place node :: (Node.names node).map Ident.place,
            c.index ≤ extent.first.index ∧ extent.first.index ≤ extent.last.index ∧
              extent.last.index < stream.row.length) ∧
    (∀ failure, (run rule c s).1 = .error failure → c.index ≤ failure.cursor.index ∧
      ∃ token, stream.row[failure.cursor.index]? = some token ∧
        failure.error = ⟨.invalidSyntax, failure.error.details, token.span⟩) ∧
    rule.Throughout stream.kinds limit
      (fun d _ => c.index ≤ d.index ∧ d.index < stream.row.length)
      (Rule.enoughCalls stream.kinds) c s ∧
    (∀ start consumed, .rolledBack start consumed ∈ (run rule c s).2.events →
      .rolledBack start consumed ∈ s.events ∨ ∃ t failure,
        (run .statement start t).1 = .error failure ∧
          start.index + consumed = failure.cursor.index) ∧
    ∀ d, (parse tokens).outcome = .error d →
      ∃ token ∈ stream.row, d = ⟨.invalidSyntax, d.details, token.span⟩ := by
  intro stream run
  have enough := Rule.weight_lt_enoughCalls stream.kinds rule c
  have moved : Moved stream.kinds c (Rule.run stream.kinds limit _ rule c s).1 :=
    Rule.run_moves (Rule.enoughCalls stream.kinds) rule c s
  refine ⟨?_, fun value d succeeds => ?_, fun failure fails => ?_, ?_,
    fun start consumed noted => ?_, fun d fails => ?_⟩
  · rintro ⟨front, final, rfl, ends⟩
    exact TokenStream.row_ofList ends
  · obtain ⟨inner, yields, rfl⟩ := TokenStream.read_eq_ok.1 succeeds
    have passes : stream.kinds.Passes c d := by
      rw [yields] at moved
      exact moved
    have stops := TokenStream.row_of_reaches inside passes.reaches
    refine ⟨passes.index_lt, stops, fun i behind before token found => ?_, inner, rfl,
      fun node among extent lies => ?_⟩
    · have other := passes.reaches.kindAt_ne (m := ⟨i⟩) behind before
      rw [TokenStream.kindAt_kinds] at other
      rw [TokenStream.getElem?_row (c := ⟨i⟩) (Nat.lt_trans before stops)] at found
      exact Option.some.inj found ▸ other
    · rw [Rule.run_eq_answer enough] at yields
      obtain ⟨starts, inOrder, ends⟩ := Rule.answer_within yields node among extent lies
      have before := Nat.lt_of_lt_of_le ends (rule.reach_le _)
      exact ⟨starts, inOrder, Nat.lt_of_le_of_lt (Nat.le_of_lt_succ before) stops⟩
  · obtain ⟨error, refused, rfl⟩ := TokenStream.read_eq_error.1 fails
    have reaches : stream.kinds.Reaches c error.cursor := by
      rw [refused] at moved
      exact moved
    have reached := TokenStream.row_of_reaches inside reaches
    exact ⟨reaches.index_le, _, TokenStream.getElem?_row reached, rfl⟩
  · refine Rule.throughout_of_onward (fun d e t u reaches _ within => ?_)
      (fun _ _ _ within => within) _ rule ⟨Nat.le_refl _, inside⟩
    exact ⟨Nat.le_trans within.1 reaches.index_le, TokenStream.row_of_reaches within.2 reaches⟩
  · rw [TokenStream.read_session] at noted
    refine (Rule.run_accounted enough _ noted).imp_right fun accounted => ?_
    obtain ⟨error, ⟨depth, fails⟩, counted⟩ := accounted
    refine ⟨⟨depth, 0, #[]⟩, _, TokenStream.read_eq_error.2 ⟨error, ?_, rfl⟩, counted⟩
    exact (Rule.run_eq_answer (Rule.weight_lt_enoughCalls _ _ _)).trans fails
  · obtain ⟨error, parsed, rfl⟩ := TokenStream.parse_eq_error.1 fails
    have first : Cursor.start.index < stream.row.length := by simp [TokenStream.row, Cursor.start]
    have reached := TokenStream.row_of_reaches first (parseKinds_error_reaches parsed)
    exact ⟨_, List.mem_of_getElem? (TokenStream.getElem?_row reached), rfl⟩

/-- In `1; VAR` with two final tokens the statement that begins with `VAR` is taken back, and the
    program fails there. -/
theorem rules_stay_in_row_rolled_back :
    let place (i : Nat) : Span := .empty ⟨i, 0, i, ⟨"", ""⟩⟩
    let tokens : List Token := [⟨.int 1, place 0⟩, ⟨.newline, place 1⟩, ⟨.keyword .var, place 2⟩,
      ⟨.eof, place 3⟩, ⟨.eof, place 3⟩]
    let stream := TokenStream.ofList tokens
    let run (rule : Rule) (c : Cursor) (s : Session) := (stream.read standardLimit rule c).run.run s
    Cursor.start.index < stream.row.length ∧
      (run .block .start .start).2.events = #[.rolledBack ⟨2⟩ 1] ∧
      (∃ t failure, (run .statement ⟨2⟩ t).1 = .error failure ∧ 2 + 1 = failure.cursor.index) ∧
      ∃ d, (parse tokens).outcome = .error d ∧
        ∃ token ∈ stream.row, d = ⟨.invalidSyntax, d.details, token.span⟩ := by
  intro place tokens stream run
  have inside : Cursor.start.index < stream.row.length := by decide
  have events : (run .block .start .start).2.events = #[.rolledBack ⟨2⟩ 1] := by decide +kernel
  have fails : (parse tokens).outcome =
      .error ⟨.invalidSyntax, "Token cannot appear after previous tokens", place 2⟩ :=
    (parse_outcome _).trans (by cbv)
  obtain ⟨_, _, _, _, accounted, concerns⟩ :=
    rules_stay_in_row tokens standardLimit .block .start .start inside
  have noted : Event.rolledBack ⟨2⟩ 1 ∈ (run .block .start .start).2.events :=
    events ▸ Array.mem_singleton.2 rfl
  refine ⟨inside, events, ?_, _, fails, concerns _ fails⟩
  exact (accounted _ _ noted).resolve_left (Array.not_mem_empty _)

end Sharp

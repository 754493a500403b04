import Sharp.Proofs.Grammar.BlankLines
import Sharp.Proofs.Grammar.Course

/-!
The end of a row. Rules never step over a final token, so they cannot tell rows apart that have the
same tokens up to the first one. Behind it a row may go on or not, and what goes on may be longer
and make for longer loops, and for more room for calls; none of that is ever used.
-/
namespace Sharp

open Grammar

namespace Grammar

/-- Wherever one gets to from a cursor on, the other row has the same token. -/
def Kinds.Agrees (kinds other : Kinds) (c : Cursor) : Prop :=
  ∀ d, kinds.Reaches c d → other.kindAt d = kinds.kindAt d

theorem Kinds.Agrees.onward {kinds other : Kinds} {c d : Cursor} (agrees : kinds.Agrees other c)
    (reaches : kinds.Reaches c d) : kinds.Agrees other d :=
  fun e further => agrees e (reaches.trans further)

/-- A description reads a row only as far as it gets. -/
theorem Parser.exec_of_agrees {α : Type} {kinds other : Kinds} {runner rerun : Runner}
    {rule : Rule} {start c : Cursor} {p : Parser α} {want : Outcome α → Prop}
    (moves : ∀ rule c s, Moved kinds c (runner rule c s).1)
    (calls : ∀ inner d s, (headway kinds (fun _ _ _ => True) rule start).allowed inner d →
      kinds.Agrees other d → rerun inner d s = runner inner d s)
    (meets : p.Meets kinds (headway kinds (fun _ _ _ => True) rule start) c want)
    (agrees : kinds.Agrees other c) (s : Session) :
    p.exec other rerun c s = p.exec kinds runner c s := by
  induction p generalizing c s with
  | done => rfl
  | raise => rfl
  | look next ih =>
    simp only [exec, agrees c (.refl c)]
    exact ih c (kinds.kindAt c) meets agrees s
  | advance next ih => exact ih meets.2 (agrees.onward (Kinds.passes_next meets.1).reaches) s
  | attempt inner next ih =>
    obtain ⟨allowed, success, failure⟩ := meets
    have moved := moves inner c s
    simp only [exec, calls inner c s allowed agrees]
    split <;> rename_i answered <;> rw [answered] at moved
    · exact ih _ (success _ ⟨moved, trivial⟩) (agrees.onward moved.reaches) _
    · exact ih _ (failure _ ⟨moved, trivial⟩) agrees _
  | note event next ih => exact ih meets.2 agrees _

namespace Rule

variable {kinds other : Kinds} {limit : Limit}

/-- Rows of one length that agree are run alike, with room for the same calls or for more. -/
theorem run_of_agrees (size : other.size = kinds.size) {calls more : Nat} {rule : Rule} {c : Cursor}
    (enough : rule.weight kinds c < calls) (also : rule.weight kinds c < more)
    (agrees : kinds.Agrees other c) (s : Session) :
    run other limit more rule c s = run kinds limit calls rule c s := by
  induction calls generalizing more rule c s with
  | zero => omega
  | succ calls ih =>
    cases more with
    | zero => omega
    | succ more =>
      have body (t : Session) :
          (rule.parser kinds.size).exec other (run other limit more) c t =
            (rule.parser kinds.size).exec kinds (run kinds limit calls) c t := by
        refine Parser.exec_of_agrees (run_moves calls) (fun inner d u allowed agrees => ?_)
          (parser_moves (fun _ _ _ => True) rule kinds.size c) agrees t
        have lighter := weight_lt_of_allowed allowed
        exact ih (by omega) (by omega) agrees u
      simp only [run, size, body]

end Rule

section Programs

variable {kinds other : Kinds} {limit : Limit}

/-- More room for calls than there is need of makes no difference to a program. -/
theorem exec_program_of_agrees (size : other.size = kinds.size) (agrees : kinds.Agrees other .start)
    {more : Nat} (enough : Rule.enoughCalls kinds ≤ more) (s : Session) :
    Parser.program.exec other (Rule.run other limit more) .start s =
      Parser.program.exec kinds (Rule.run kinds limit (Rule.enoughCalls kinds)) .start s := by
  refine Parser.exec_of_agrees (Rule.run_moves _) (fun inner d t _ agrees => ?_)
    Parser.program_moves agrees s
  have lighter := Rule.weight_lt_enoughCalls kinds inner d
  exact Rule.run_of_agrees size lighter (Nat.lt_of_lt_of_le lighter enough) agrees t

theorem Parser.program_shifts {w : Copy} :
    Shifts w (Tree.later w.shift) program program .start := by
  refine .bind (.read .block) fun tree d => .peek ?_
  split
  · exact .done rfl
  · exact .fail _

theorem Session.later_zero (s : Session) : s.later 0 = s := by
  have same : Event.later 0 = id := funext fun event => by cases event <;> rfl
  simp [Session.later, same]

/-- A row filled up with final tokens is read like the row itself. -/
theorem exec_program_padded {size : Nat} (shorter : kinds.size ≤ size) (s : Session) :
    Parser.program.exec (kinds.padded size) (Rule.run (kinds.padded size) limit
        (Rule.enoughCalls (kinds.padded size))) .start s =
      carry 0 (Tree.later 0)
        (Parser.program.exec kinds (Rule.run kinds limit (Rule.enoughCalls kinds)) .start s) := by
  have length := Kinds.size_padded shorter
  have room : Rule.enoughCalls kinds ≤ Rule.enoughCalls (kinds.padded size) := by
    simp only [Rule.enoughCalls, length]
    omega
  let w : Copy := ⟨kinds, Rule.run kinds limit (Rule.enoughCalls (kinds.padded size)), 0,
    kinds.padded size, _, Kinds.kindAt_padded,
    Rule.run_later Kinds.kindAt_padded (length ▸ shorter) _, Rule.run_moves _⟩
  have shifts := @Parser.program_shifts w s
  rw [Session.later_zero] at shifts
  rw [← exec_program_of_agrees rfl (fun _ _ => rfl) room]
  exact shifts

/-- What lies behind the first final token of a longer row is of no account. -/
theorem parseKinds_of_agrees (shorter : kinds.size ≤ other.size)
    (agrees : other.Agrees kinds .start) (s : Session) :
    parseKinds other limit s =
      ((parseKinds kinds limit s).1.map (Tree.later 0), (parseKinds kinds limit s).2) := by
  have size : (kinds.padded other.size).size = other.size := Kinds.size_padded shorter
  have room : Rule.enoughCalls other = Rule.enoughCalls (kinds.padded other.size) := by
    simp only [Rule.enoughCalls, size]
  have filled : other.Agrees (kinds.padded other.size) .start :=
    fun d reaches => (Kinds.kindAt_padded d).trans (agrees d reaches)
  rw [parseKinds, ← exec_program_of_agrees size filled (Nat.le_of_eq room),
    exec_program_padded shorter, parseKinds]
  rcases Parser.program.exec kinds (Rule.run kinds limit (Rule.enoughCalls kinds)) .start s with
    ⟨error | parsed, after⟩ <;> simp only [carry, Session.later_zero] <;> rfl

end Programs

namespace TokenStream

/-- A row begins with the tokens it is made of. -/
theorem tokenAt_of_lt {tokens : List Token} {c : Cursor} (inside : c.index < tokens.length) :
    (ofList tokens).tokenAt c = tokens[c.index] := by
  obtain ⟨front, last, rfl⟩ := List.eq_nil_or_concat' tokens |>.resolve_left
    (List.ne_nil_of_length_pos (Nat.zero_lt_of_lt inside))
  by_cases ends : last.kind = .eof
  · have split : front ++ [last] = (front ++ [last]).take c.index ++
        (front ++ [last])[c.index] :: (front ++ [last]).drop (c.index + 1) := by simp
    have found := tokenAt_of_split ends split
    rwa [List.length_take_of_le (Nat.le_of_lt inside)] at found
  · simp [tokenAt, ofList, ends, List.getElem?_eq_getElem inside]

theorem size_kinds_le (front rest : List Token) {final : Token} (ends : final.kind = .eof) :
    (ofList (front ++ [final])).kinds.size ≤ (ofList (front ++ final :: rest)).kinds.size := by
  rw [kinds_of_ends ends, kinds_ofList, closed]
  split <;> simp

section Ended

variable {front : List Token} (rest : List Token) {final : Token} (ends : final.kind = .eof)
  {c : Cursor}

theorem tokenAt_up_to_final (within : c.index ≤ front.length) :
    (ofList (front ++ final :: rest)).tokenAt c = (ofList (front ++ [final])).tokenAt c := by
  have inside : c.index < (front ++ [final]).length := by
    simpa using Nat.lt_succ_of_le within
  have whole : front ++ final :: rest = (front ++ [final]) ++ rest := by simp
  rw [tokenAt_of_lt inside, tokenAt_of_lt (by simp; omega)]
  simp only [whole, List.getElem_append_left inside]

include ends

/-- Nothing gets past the first final token. -/
theorem within_of_reaches (reaches : (ofList (front ++ final :: rest)).kinds.Reaches .start c) :
    c.index ≤ front.length := by
  refine reaches.index_le_of_eof (e := ⟨front.length⟩) (Nat.zero_le _) ?_
  rw [kindAt_kinds, tokenAt_of_lt (by simp)]
  simpa using ends

theorem agrees_up_to_final :
    (ofList (front ++ final :: rest)).kinds.Agrees (ofList (front ++ [final])).kinds .start := by
  intro d reaches
  have within := within_of_reaches rest ends reaches
  rw [kindAt_kinds, kindAt_kinds, ← tokenAt_up_to_final rest within]

theorem parse_up_to_final (limit : Limit) :
    (ofList (front ++ final :: rest)).parse limit .start =
      (ofList (front ++ [final])).parse limit .start := by
  have same := @parseKinds_of_agrees _ _ limit (size_kinds_le front rest ends)
    (agrees_up_to_final rest ends) .start
  simp only [parse_eq, same]
  cases outcome : (parseKinds (ofList (front ++ [final])).kinds limit .start).1 with
  | error error =>
    have within := within_of_reaches [] ends (parseKinds_error_reaches outcome)
    simp only [Except.map, diagnose, tokenAt_up_to_final rest within]
  | ok tree =>
    obtain ⟨d, answered, _⟩ := parseKinds_eq_ok.1 outcome
    have moved : Moved (ofList (front ++ [final])).kinds .start _ :=
      Rule.answer_moves limit 0 .block .start
    rw [answered] at moved
    have within : d.index ≤ front.length := within_of_reaches [] ends moved.reaches
    have spans : ∀ inner ∈ Node.nodes tree,
        ∀ extent ∈ Node.place inner :: (Node.names inner).map Ident.place,
          ((ofList (front ++ final :: rest)).spanOf ∘ Extent.later 0) extent =
            (ofList (front ++ [final])).spanOf extent := by
      intro inner among extent lies
      obtain ⟨_, inOrder, last⟩ := Rule.answer_within answered inner among extent lies
      have reach : _ ≤ d.index + 1 := Rule.reach_le .block ⟨tree, d⟩
      have stops : extent.last.index ≤ front.length := by omega
      exact congrArg₂ (fun first last : Token => first.span.join last.span)
        (tokenAt_up_to_final rest (Nat.le_trans inOrder stops)) (tokenAt_up_to_final rest stops)
    simp only [Except.map, Tree.later, Node.map_map, Node.map_congr spans]

end Ended

end TokenStream

end Grammar

/-- Whatever follows the first final token of a row, more final tokens included, the same comes out
    and the same is noted as if nothing followed it. -/
theorem parse_behind_final (front rest others : List Token) (final : Token)
    (ends : final.kind = .eof) :
    parse (front ++ final :: rest) = parse (front ++ [final]) ∧
      parse (front ++ final :: rest) = parse (front ++ final :: others) := by
  have same (rest : List Token) :
      parse (front ++ final :: rest) = parse (front ++ [final]) := by
    unfold parse
    rw [TokenStream.parse_up_to_final rest ends]
  exact ⟨same rest, (same rest).trans (same others).symm⟩

/-- Behind the final token stands what would make the statement begun with `VAR` a whole one, and
    no final token at the end of the row. -/
theorem parse_behind_final_assignment :
    let place (i : Nat) : Span := .empty ⟨i, 0, i, ⟨"", ""⟩⟩
    let front : List Token := [⟨.int 1, place 0⟩, ⟨.newline, place 1⟩, ⟨.keyword .var, place 2⟩]
    let final : Token := ⟨.eof, place 3⟩
    let rest : List Token := [⟨.identifier "x", place 4⟩, ⟨.symbol .assign, place 5⟩,
      ⟨.int 2, place 6⟩, ⟨.eof, place 7⟩, ⟨.symbol .comma, place 8⟩]
    final.kind = .eof ∧
      (parse (front ++ final :: rest)).notices =
        [.parsing (.rolledBack ⟨2⟩ 1), .parseFailed "Invalid Syntax" 1] ∧
      (parse (front ++ final :: rest)).outcome =
        .error ⟨.invalidSyntax, "Token cannot appear after previous tokens", place 2⟩ ∧
      (parse (front ++ rest)).outcome.isOk = true := by
  intro place front final rest
  have ends : final.kind = .eof := rfl
  have noted : (parse (front ++ [final])).notices =
      [.parsing (.rolledBack ⟨2⟩ 1), .parseFailed "Invalid Syntax" 1] := by decide +kernel
  have fails : (parse (front ++ [final])).outcome =
      .error ⟨.invalidSyntax, "Token cannot appear after previous tokens", place 2⟩ :=
    (parse_outcome _).trans (by cbv)
  obtain ⟨same, _⟩ := parse_behind_final front rest [] final ends
  refine ⟨ends, ?_, ?_, ?_⟩
  · rw [same, noted]
  · rw [same, fails]
  · decide +kernel

end Sharp

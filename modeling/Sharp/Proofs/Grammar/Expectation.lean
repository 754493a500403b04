import Sharp.Proofs.Grammar.Acceptance
import Sharp.Proofs.Grammar.Announcing
import Sharp.Proofs.Grammar.Unguarded
import Sharp.Proofs.Grammar.Unhindered

/-!
What is expected. As long as nothing is refused, every error lists classes of tokens, and the token
it is about is in none of them. An error at the first token of a rule lists just what the rule may
start with, and there is such an error whenever the token does not belong there.
-/
namespace Sharp.Grammar

open Sharp.Grammar.Parser

namespace Rule

variable {kinds : Kinds}

/-- Some value or other. -/
def filler : (rule : Rule) → rule.Value
  | .body | .closedBody => ⟨.breakLoop (.token .start), false⟩
  | .block | .statement | .expression | .comparison | .sum | .product | .signed | .power
  | .application | .atom | .listing | .conditional | .forLoop | .whileLoop | .function =>
    .breakLoop (.token .start)

/-- Answers for calls nested too deeply: each passes one token as long as there is one. -/
def pass (kinds : Kinds) : Answers := fun rule c =>
  if kinds.kindAt c = .eof then .error ⟨.expected rule.opening, c⟩ else .ok ⟨rule.filler, c.next⟩

theorem pass_moves (rule : Rule) (c : Cursor) : Moved kinds c (pass kinds rule c) := by
  unfold pass
  split
  · exact Kinds.Reaches.refl c
  · rename_i more
    exact Kinds.passes_next more

theorem pass_announced (rule : Rule) (c : Cursor) (error : SyntaxError)
    (fails : pass kinds rule c = .error error) : Announced kinds rule.opening c error := by
  unfold pass at fails
  split at fails
  · rename_i finished
    cases fails
    refine ⟨⟨Nat.le_refl _, rule.opening, rfl, fun wanted _ => ?_⟩, fun _ => rfl⟩
    refine Bool.eq_false_iff.2 fun admits => ?_
    exact ne_eof_of_admits admits finished
  · cases fails

/-- Where nothing is refused, every error is honest, and one at the first token of a rule lists what
    the rule may start with. -/
theorem unguarded_announced {rule : Rule} {c : Cursor} {error : SyntaxError}
    (ready : rule.Ready (kinds.kindAt c)) (fails : unguarded kinds rule c = .error error) :
    Announced kinds rule.opening c error := by
  have within (calls depth : Nat) :
      (∀ rule c, Moved kinds c (answerFrom (pass kinds) kinds none calls depth rule c)) ∧
      ∀ rule c error, Ready rule (kinds.kindAt c) →
        answerFrom (pass kinds) kinds none calls depth rule c = .error error →
        Announced kinds rule.opening c error := by
    induction calls generalizing depth with
    | zero => exact ⟨pass_moves, fun rule c error _ => pass_announced rule c error⟩
    | succ calls ih =>
      have admitted (rule : Rule) : rule.admitted none depth = true := by
        simp [Rule.admitted, Limit.allows]
      constructor
      · intro rule c
        rw [answerFrom, if_pos (admitted rule)]
        exact eval_moves (ih (rule.depthInside depth)).1 rule _ c
      · intro rule c error ready fails
        let w : Candid := ⟨kinds, answerFrom (pass kinds) kinds none calls (rule.depthInside depth),
          (ih (rule.depthInside depth)).1, (ih (rule.depthInside depth)).2⟩
        rw [answerFrom, if_pos (admitted rule)] at fails
        exact parser_announces w rule c ready error fails
  rw [unguarded, ← answerFrom_eq (weight_lt_enoughCalls kinds rule c)] at fails
  exact (within _ 0).2 rule c error ready fails

end Rule

namespace Parser

variable {α β : Type} {kinds : Kinds} {answers : Answers} {c : Cursor}

/-- Something is wrong with the very first token. -/
def Balks (kinds : Kinds) (answers : Answers) (p : Parser α) (c : Cursor) : Prop :=
  ∃ complaint, p.eval kinds answers c = .error ⟨complaint, c⟩

theorem Balks.bind {p : Parser α} (balks : Balks kinds answers p c) (f : α → Parser β) :
    Balks kinds answers (p >>= f) c := by
  obtain ⟨complaint, fails⟩ := balks
  refine ⟨complaint, ?_⟩
  rw [bind_eq, eval_bind, fails]

theorem Balks.expecting {p : Parser α} (balks : Balks kinds answers p c)
    (classes : List TokenClass) : Balks kinds answers (expecting classes p) c := by
  obtain ⟨complaint, fails⟩ := balks
  refine ⟨.expected classes, ?_⟩
  change (p.mapError _).eval kinds answers c = _
  rw [eval_mapError, fails]
  simp [Except.mapError, Failure.orExpected, Failure.isImmediate, Cursor.passedSince]

end Parser

namespace Rule

variable {kinds : Kinds} {c : Cursor}

/-- A rule fails on account of the token it is called at. -/
def Balks (kinds : Kinds) (rule : Rule) (c : Cursor) : Prop :=
  ∃ complaint, unguarded kinds rule c = .error ⟨complaint, c⟩

theorem balks_of_parsing {rule : Rule}
    (balks : Parser.Balks kinds (unguarded kinds) (rule.parser kinds.size) c) :
    rule.Balks kinds c := by
  obtain ⟨complaint, fails⟩ := balks
  exact ⟨complaint, (unguarded_eq rule c).trans fails⟩

theorem Balks.read {rule : Rule} (balks : rule.Balks kinds c) :
    Parser.Balks kinds (unguarded kinds) (.read rule) c := by
  obtain ⟨complaint, fails⟩ := balks
  exact ⟨complaint, (eval_read rule).trans fails⟩

theorem atom_balks (outside : Outside Expected.atom (kinds.kindAt c)) :
    Rule.atom.Balks kinds c := by
  have other : Outside [.int, .float, .string, .identifier, .symbol .plus, .symbol .minus,
      .symbol .openRound, .symbol .openSquare, .keyword .if, .keyword .for, .keyword .while,
      .keyword .fun] (kinds.kindAt c) := outside
  simp only [outside_cons, admits_int, admits_float, admits_string, admits_identifier,
    admits_symbol, admits_keyword] at other
  obtain ⟨notInt, notFloat, notString, notName, -, -, notRound, notSquare, notIf, notFor, notWhile,
    notFun, -⟩ := other
  refine balks_of_parsing ⟨.expected Expected.atom, ?_⟩
  simp only [parser, Parser.atom, bind_eq, eval_peek]
  split
  · exact absurd ⟨_, ‹_›⟩ notInt
  · exact absurd ⟨_, ‹_›⟩ notFloat
  · exact absurd ⟨_, ‹_›⟩ notString
  · exact absurd ⟨_, ‹_›⟩ notName
  · exact absurd ‹_› notRound
  · exact absurd ‹_› notSquare
  · exact absurd ‹_› notIf
  · exact absurd ‹_› notFor
  · exact absurd ‹_› notWhile
  · exact absurd ‹_› notFun
  · rfl

theorem signed_balks (outside : Outside Expected.atom (kinds.kindAt c)) :
    Rule.signed.Balks kinds c := by
  have application : Rule.application.Balks kinds c :=
    balks_of_parsing ((atom_balks outside).read.bind _)
  have power : Rule.power.Balks kinds c := balks_of_parsing (application.read.bind _)
  obtain ⟨complaint, fails⟩ := power.read
  refine balks_of_parsing ⟨complaint, ?_⟩
  simp only [parser, Parser.signed, bind_eq, eval_here, eval_peek]
  split
  · rename_i op found
    have notPlus := outside (.symbol .plus) (by decide)
    have notMinus := outside (.symbol .minus) (by decide)
    unfold UnaryOp.sign? at found
    split at found <;> simp_all [TokenClass.admits]
  · exact fails

theorem comparison_balks (outside : Outside Expected.comparison (kinds.kindAt c)) :
    Rule.comparison.Balks kinds c := by
  obtain ⟨others, notNot⟩ := outside_append.1 outside
  have product : Rule.product.Balks kinds c :=
    balks_of_parsing ((signed_balks others).read.bind _)
  have sum : Rule.sum.Balks kinds c := balks_of_parsing (product.read.bind _)
  obtain ⟨complaint, fails⟩ := (sum.read.bind _).expecting Expected.comparison
  refine balks_of_parsing ⟨complaint, ?_⟩
  simp only [parser, Parser.comparison, bind_eq, eval_here, eval_peek]
  split
  · exact absurd (admits_keyword.2 ‹_›) (outside_singleton.1 notNot)
  · exact fails

theorem expression_balks (outside : Outside Expected.expression (kinds.kindAt c)) :
    Rule.expression.Balks kinds c := by
  obtain ⟨notVar, others⟩ := outside_cons.1 outside
  obtain ⟨front, notNot⟩ := outside_append.1 others
  obtain ⟨constructs, operands⟩ := outside_append.1 front
  have below : Outside Expected.comparison (kinds.kindAt c) :=
    outside_append.2 ⟨outside_append.2 ⟨operands, constructs⟩, notNot⟩
  obtain ⟨complaint, fails⟩ := ((comparison_balks below).read.bind _).expecting Expected.expression
  refine balks_of_parsing ⟨complaint, ?_⟩
  simp only [parser, Parser.expression, bind_eq, eval_here, eval_peek]
  split
  · exact absurd (admits_keyword.2 ‹_›) notVar
  · exact fails

theorem statement_balks (outside : Outside Expected.statement (kinds.kindAt c)) :
    Rule.statement.Balks kinds c := by
  obtain ⟨own, others⟩ := outside_append.1 outside
  simp only [outside_cons, admits_keyword] at own
  obtain ⟨notReturn, notContinue, notBreak, -⟩ := own
  obtain ⟨complaint, fails⟩ := (expression_balks others).read.expecting Expected.statement
  refine balks_of_parsing ⟨complaint, ?_⟩
  -- None of the three words stands here, so an expression is tried.
  simp only [parser, Parser.statement, bind_eq, eval_here, eval_peek]
  exact fails

/-- Where nothing is refused, a rule fails at once just if the token is none it may start with, and
    then it lists all of those. -/
theorem unguarded_error_iff (rule : Rule) (ready : rule.Ready (kinds.kindAt c))
    (balks : Outside rule.opening (kinds.kindAt c) → rule.Balks kinds c) {complaint : Complaint} :
    unguarded kinds rule c = .error ⟨complaint, c⟩ ↔
      Outside rule.opening (kinds.kindAt c) ∧ complaint = .expected rule.opening := by
  constructor
  · intro fails
    obtain ⟨same, outside⟩ := (unguarded_announced ready fails).outside
    exact ⟨outside, same⟩
  · intro given
    obtain ⟨outside, rfl⟩ := given
    obtain ⟨other, fails⟩ := balks outside
    obtain ⟨same, _⟩ := (unguarded_announced ready fails).outside
    rw [fails, same]

/-- A run that refuses nothing yields what there would be without a limit. -/
theorem run_of_quiet {limit : Limit} {rule : Rule} {s : Session}
    (quiet : (run kinds limit (enoughCalls kinds) rule c s).2.Unhindered) :
    (run kinds limit (enoughCalls kinds) rule c s).1 = unguarded kinds rule c := by
  have free : run kinds none (enoughCalls kinds) rule c s = _ :=
    run_of_unhindered (fun _ _ => rfl) _ rule c s quiet
  rw [← free, run_eq_answer (weight_lt_enoughCalls kinds rule c)]
  exact answerWithin_none _ s.depth rule c

end Rule

open Grammar.Parser in
/-- A program that is turned down without a refusal has a statement that announces it, or something
    behind its last statement. -/
theorem parseKinds_honest {kinds : Kinds} {limit : Limit} {s : Session} {error : SyntaxError}
    (quiet : (parseKinds kinds limit s).2.Unhindered)
    (fails : (parseKinds kinds limit s).1 = .error error) :
    Honest kinds .start error ∨ error.error = .trailingToken := by
  have free (depth : Nat) : Rule.answer kinds none depth = Rule.unguarded kinds :=
    funext fun rule => funext fun c => Rule.answerWithin_none _ depth rule c
  rw [← parseKinds_none_of_unhindered quiet, parseKinds_outcome, free] at fails
  rcases read : Rule.unguarded kinds .block .start with found | ⟨tree, d⟩
  · have announced := Rule.unguarded_announced (Rule.ready _ (by decide) _) read
    simp only [program, bind_eq, eval_bind, eval_read .block, read, Except.map] at fails
    cases fails
    exact .inl announced.1
  · by_cases finished : kinds.kindAt d = .eof
    · rw [program_eq_ok.2 ⟨read, finished⟩] at fails
      cases fails
    · rw [program_of_trailing read finished] at fails
      cases fails
      exact .inr rfl

end Grammar

open Grammar

/-- As long as nothing is refused, statements, expressions, comparisons and signed operands fail at
    their first token just if it is in none of the classes they list, and their error lists these
    and lies on that token. Whenever the error of a program lists classes, its token is in none of
    them. -/
theorem expectations_exact (tokens : List Token) (limit : Limit) :
    let stream := TokenStream.ofList tokens
    (∀ rule classes, (rule, classes) ∈ [(Rule.statement, Expected.statement),
        (Rule.expression, Expected.expression), (Rule.comparison, Expected.comparison),
        (Rule.signed, Expected.atom)] →
      ∀ (c : Cursor) (s : Session),
        let ran := (stream.read limit rule c).run.run s
        ran.2.Unhindered →
          ((∃ d, ran.1 = .error ⟨d, c⟩) ↔
            ∀ wanted ∈ classes, wanted.admits (stream.tokenAt c).kind = false) ∧
          ∀ d, ran.1 = .error ⟨d, c⟩ →
            d = ⟨.invalidSyntax, expectation classes, (stream.tokenAt c).span⟩) ∧
    ∀ d, (stream.parse limit .start).1 = .error d →
      (stream.parse limit .start).2.Unhindered → "Expected".toList <+: d.details.toList →
        ∃ c classes, (parseKinds stream.kinds limit .start).1 = .error ⟨.expected classes, c⟩ ∧
          d.span = (stream.tokenAt c).span ∧ d.details = expectation classes ∧
          ∀ wanted ∈ classes, wanted.admits (stream.tokenAt c).kind = false := by
  intro stream
  constructor
  · intro rule classes listed c s ran quiet
    rw [TokenStream.read_session] at quiet
    have exact (complaint : Complaint) :
        (Rule.run stream.kinds limit (Rule.enoughCalls stream.kinds) rule c s).1 =
            .error ⟨complaint, c⟩ ↔
          Outside classes (stream.kinds.kindAt c) ∧ complaint = .expected classes := by
      rw [Rule.run_of_quiet quiet]
      have high {rule : Rule} (high : Rule.signed.rank ≤ rule.rank) :
          rule.Ready (stream.kinds.kindAt c) := rule.ready high _
      simp only [List.mem_cons, Prod.mk.injEq, List.not_mem_nil, or_false] at listed
      rcases listed with ⟨rfl, rfl⟩ | ⟨rfl, rfl⟩ | ⟨rfl, rfl⟩ | ⟨rfl, rfl⟩
      · exact Rule.unguarded_error_iff .statement (high (by decide)) Rule.statement_balks
      · exact Rule.unguarded_error_iff .expression (high (by decide)) Rule.expression_balks
      · exact Rule.unguarded_error_iff .comparison (high (by decide)) Rule.comparison_balks
      · exact Rule.unguarded_error_iff .signed (high (by decide)) Rule.signed_balks
    have told (d : Diagnostic) : ran.1 = .error ⟨d, c⟩ ↔
        Outside classes (stream.kinds.kindAt c) ∧
          d = ⟨.invalidSyntax, expectation classes, (stream.tokenAt c).span⟩ := by
      refine TokenStream.read_eq_error.trans ⟨?_, ?_⟩
      · rintro ⟨⟨complaint, _⟩, fails, ⟨⟩⟩
        obtain ⟨outside, rfl⟩ := (exact complaint).1 fails
        exact ⟨outside, rfl⟩
      · rintro ⟨outside, rfl⟩
        exact ⟨⟨.expected classes, c⟩, (exact _).2 ⟨outside, rfl⟩, rfl⟩
    rw [← stream.kindAt_kinds]
    refine ⟨⟨fun fails => ?_, fun outside => ?_⟩, fun d fails => ((told d).1 fails).2⟩
    · obtain ⟨d, fails⟩ := fails
      exact ((told d).1 fails).1
    · exact ⟨_, (told _).2 ⟨outside, rfl⟩⟩
  · intro d fails quiet begins
    obtain ⟨⟨complaint, c⟩, turnedDown, rfl⟩ := TokenStream.parse_eq_error.1 fails
    rw [TokenStream.parse_session] at quiet
    rcases parseKinds_honest quiet turnedDown with honest | trailing
    · obtain ⟨_, classes, lists, outside⟩ := honest
      obtain rfl : complaint = .expected classes := lists
      rw [stream.kindAt_kinds] at outside
      exact ⟨c, classes, turnedDown, rfl, rfl, outside⟩
    · obtain rfl : complaint = .trailingToken := trailing
      have other : ¬"Expected".toList <+: "Token cannot appear after previous tokens".toList := by
        decide
      exact absurd begins other

/-- `VAR x = )`: the value is missing, which a signed operand tried in the same place would say in
    its own words, at any depth. -/
theorem expectations_exact_missing_value :
    let place : Span := .empty (.start ⟨"", ""⟩)
    let tokens : List Token := [⟨.keyword .var, place⟩, ⟨.identifier "x", place⟩,
      ⟨.symbol .assign, place⟩, ⟨.symbol .closeRound, place⟩]
    let stream := TokenStream.ofList tokens
    let result := stream.parse standardLimit .start
    let ran := (stream.read standardLimit .signed ⟨3⟩).run.run ⟨7, 7, #[]⟩
    result.1 = .error ⟨.invalidSyntax, expectation Expected.expression, place⟩ ∧
      result.2.events = #[] ∧
      ran.1 = .error ⟨⟨.invalidSyntax, expectation Expected.atom, place⟩, ⟨3⟩⟩ ∧
      ran.2.events = #[] ∧
      (∀ wanted ∈ Expected.atom, wanted.admits (.symbol .closeRound) = false) ∧
      ∃ c classes, expectation classes = expectation Expected.expression ∧
        ∀ wanted ∈ classes, wanted.admits (stream.tokenAt c).kind = false := by
  intro place tokens stream result ran
  obtain ⟨rules, programs⟩ := expectations_exact tokens standardLimit
  have rejected : result.1 = .error ⟨.invalidSyntax, expectation Expected.expression, place⟩ :=
    (TokenStream.parse_outcome _ _ _).trans (by cbv)
  have events : result.2.events = #[] := by decide +kernel
  have fails : ran.1 = .error ⟨⟨.invalidSyntax, expectation Expected.atom, place⟩, ⟨3⟩⟩ :=
    TokenStream.read_eq_error.2 ⟨⟨.expected Expected.atom, ⟨3⟩⟩, by cbv, rfl⟩
  have nothing : ran.2.events = #[] := by decide +kernel
  have quiet (s : Session) (none : s.events = #[]) : s.Unhindered := by
    intro event noted
    rw [none] at noted
    simp at noted
  have atoms := (rules .signed Expected.atom (by simp) ⟨3⟩ _ (quiet _ nothing)).1.1 ⟨_, fails⟩
  obtain ⟨c, classes, _, _, same, outside⟩ := programs _ rejected (quiet _ events) (by decide)
  exact ⟨rejected, events, fails, nothing, atoms, c, classes, same.symm, outside⟩

end Sharp

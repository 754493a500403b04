import Mathlib.Logic.Function.Iterate
import Sharp.Proofs.Grammar.Acceptance
import Sharp.Proofs.Grammar.CallSites

/-!
How deep brackets and signs nest. A pair of round brackets takes three levels and a sign takes one,
on top of the three that the innermost operand takes. The level that is one too many is refused at
its first token. Every rule on the way out has passed a token by then, so none of them has anything
else to say, and the refusal is what the program fails with.
-/
namespace Sharp

namespace Grammar

open Sharp.Grammar.Parser

/-- What a rule calls first, in front of a token that it does not use itself. -/
inductive Rule.Enters (kind : TokenKind) : Rule → Rule → Prop
  | block : kind ≠ .newline → Enters kind .block .statement
  | statement : (∀ word ∈ [Keyword.return, .continue, .break], kind ≠ .keyword word) →
      Enters kind .statement .expression
  | expression : kind ≠ .keyword .var → Enters kind .expression .comparison
  | comparison : kind ≠ .keyword .not → Enters kind .comparison .sum
  | sum : Enters kind .sum .product
  | product : Enters kind .product .signed
  | signed : UnaryOp.sign? kind = none → Enters kind .signed .power
  | power : Enters kind .power .application
  | application : Enters kind .application .atom

namespace Parser

variable {α β : Type} {kinds : Kinds} {answers : Answers} {c : Cursor} {error : SyntaxError}

theorem eval_bind_eq_error {p : Parser α} (fails : p.eval kinds answers c = .error error)
    (f : α → Parser β) : (p.bind f).eval kinds answers c = .error error := by
  rw [eval_bind, fails]

theorem eval_read_bind_eq_error {rule : Rule} (fails : answers rule c = .error error)
    (f : rule.Value → Parser β) : ((read rule).bind f).eval kinds answers c = .error error :=
  eval_bind_eq_error ((eval_read rule).trans fails) f

/-- Only an error at the first token gives way to what was expected there. -/
theorem eval_expecting_eq_error {p : Parser α} (fails : p.eval kinds answers c = .error error)
    (later : c.index < error.cursor.index) (classes : List TokenClass) :
    (expecting classes p).eval kinds answers c = .error error := by
  have other : error.cursor ≠ c := fun same => Nat.lt_irrefl _ (same ▸ later)
  change (p.mapError _).eval kinds answers c = _
  rw [eval_mapError, fails]
  exact congrArg Except.error ((orExpected_eq (Nat.le_of_lt later) classes).trans (if_neg other))

/-- An error behind the first token of the rule that is called first is passed on. -/
theorem parser_eq_error {outer inner : Rule} (enters : outer.Enters (kinds.kindAt c) inner)
    (fails : answers inner c = .error error) (later : c.index < error.cursor.index) :
    (outer.parser kinds.size).eval kinds answers c = .error error := by
  cases enters with
  | block other =>
    have none : Skips kinds c 0 c := ⟨rfl, other⟩
    simp only [Rule.parser, block, bind_eq]
    rw [eval_bind, eval_newlines_eq_ok.2 none]
    exact eval_read_bind_eq_error fails _
  | statement others =>
    simp only [List.forall_mem_cons] at others
    obtain ⟨notReturn, notContinue, notBreak, -⟩ := others
    simp only [Rule.parser, statement, bind_eq, eval_here, eval_peek]
    exact eval_expecting_eq_error ((eval_read .expression).trans fails) later _
  | expression other =>
    simp only [Rule.parser, expression, bind_eq, eval_here, eval_peek]
    exact eval_expecting_eq_error (eval_read_bind_eq_error fails _) later _
  | comparison other =>
    simp only [Rule.parser, comparison, bind_eq, eval_here, eval_peek]
    exact eval_expecting_eq_error (eval_read_bind_eq_error fails _) later _
  | sum | product | power => exact eval_read_bind_eq_error fails _
  | signed unsigned =>
    simp only [Rule.parser, signed, bind_eq, eval_here, eval_peek, unsigned]
    exact (eval_read .power).trans fails
  | application =>
    simp only [Rule.parser, application, bind_eq, eval_here]
    exact eval_read_bind_eq_error fails _

theorem atom_eq_error (opened : kinds.kindAt c = .symbol .openRound)
    (fails : answers .expression c.next = .error error) :
    atom.eval kinds answers c = .error error := by
  simp only [atom, bind_eq, eval_peek, opened, bracketed, eval_step]
  exact eval_read_bind_eq_error fails _

theorem signed_eq_error {op : UnaryOp} (sign : UnaryOp.sign? (kinds.kindAt c) = some op)
    (fails : answers .signed c.next = .error error) :
    signed.eval kinds answers c = .error error := by
  simp only [signed, bind_eq, eval_here, eval_peek, sign, eval_step]
  exact eval_read_bind_eq_error fails _

end Parser

namespace Rule

variable {kinds : Kinds} {limit : Limit} {most depth k n : Nat} {c d : Cursor} {error : SyntaxError}

theorem answer_of_refused {rule : Rule} (refused : rule.admitted limit depth = false) :
    answer kinds limit depth rule c = .error ⟨.nestingTooDeep, c⟩ := by
  rw [answer_eq, refused]
  rfl

theorem answer_eq_error {outer inner : Rule} (enters : outer.Enters (kinds.kindAt c) inner)
    (admitted : outer.admitted limit depth = true)
    (fails : answer kinds limit (outer.depthInside depth) inner c = .error error)
    (later : c.index < error.cursor.index) : answer kinds limit depth outer c = .error error := by
  rw [answer_eq, if_pos admitted]
  exact parser_eq_error enters fails later

section Failures

variable (later : c.index < error.cursor.index)

include later

theorem expression_eq_error_of_signed
    (fails : answer kinds limit (depth + 2) .signed c = .error error)
    (allowed : limit.allows (depth + 2) = true) (unnegated : kinds.kindAt c ≠ .keyword .not)
    (noAssignment : kinds.kindAt c ≠ .keyword .var) :
    answer kinds limit depth .expression c = .error error := by
  have product : answer kinds limit (depth + 2) .product c = .error error :=
    answer_eq_error .product rfl fails later
  have sum : answer kinds limit (depth + 2) .sum c = .error error :=
    answer_eq_error .sum rfl product later
  have comparison : answer kinds limit (depth + 1) .comparison c = .error error :=
    answer_eq_error (.comparison unnegated) allowed sum later
  exact answer_eq_error (.expression noAssignment) (Limit.allows_of_allows allowed) comparison later

theorem signed_eq_error_of_atom (fails : answer kinds limit (depth + 1) .atom c = .error error)
    (allowed : limit.allows (depth + 1) = true) (unsigned : UnaryOp.sign? (kinds.kindAt c) = none) :
    answer kinds limit depth .signed c = .error error := by
  have application : answer kinds limit (depth + 1) .application c = .error error :=
    answer_eq_error .application rfl fails later
  have power : answer kinds limit (depth + 1) .power c = .error error :=
    answer_eq_error .power rfl application later
  exact answer_eq_error (.signed unsigned) allowed power later

theorem block_eq_error_of_expression
    (fails : answer kinds limit depth .expression c = .error error)
    (other : kinds.kindAt c ≠ .newline)
    (others : ∀ word ∈ [Keyword.return, .continue, .break], kinds.kindAt c ≠ .keyword word) :
    answer kinds limit depth .block c = .error error := by
  have statement : answer kinds limit depth .statement c = .error error :=
    answer_eq_error (.statement others) rfl fails later
  exact answer_eq_error (.block other) rfl statement later

end Failures

section Brackets

/-- Behind brackets that use up all levels the next expression is refused. -/
theorem expression_refused_in_brackets (reads : kinds.Reads c (List.replicate k (.symbol .openRound)) d)
    (full : depth + 3 * k = most) :
    answer kinds (some most) depth .expression c = .error ⟨.nestingTooDeep, d⟩ := by
  induction k generalizing c depth with
  | zero =>
    obtain rfl : d = c := reads
    exact answer_of_refused (by simp [admitted, guarded, Limit.allows]; omega)
  | succ k ih =>
    obtain ⟨opened, _, rest⟩ := reads
    have later : c.index < d.index := by
      have index := rest.index
      simp only [Cursor.next_index] at index
      omega
    have inside : answer kinds (some most) (depth + 3) .expression c.next =
        .error ⟨.nestingTooDeep, d⟩ := ih rest (by omega)
    have atom : answer kinds (some most) (depth + 3) .atom c = .error ⟨.nestingTooDeep, d⟩ := by
      rw [answer_of_free rfl]
      exact atom_eq_error opened inside
    have signed : answer kinds (some most) (depth + 2) .signed c = .error ⟨.nestingTooDeep, d⟩ :=
      signed_eq_error_of_atom later atom (allows_some (by omega)) (by rw [opened]; rfl)
    exact expression_eq_error_of_signed later signed (allows_some (by omega)) (by simp [opened])
      (by simp [opened])

theorem iterate_inBrackets (n : Nat) (word : List TokenKind) : inBrackets^[n] word =
    List.replicate n (.symbol .openRound) ++ (word ++ List.replicate n (.symbol .closeRound)) := by
  induction n with
  | zero => simp
  | succ n ih =>
    rw [Function.iterate_succ_apply', ih, inBrackets, List.replicate_succ,
      List.replicate_succ' (n := n)]
    simp

theorem atom_of_int {value : Int} (reads : kinds.Reads c [.int value] d) :
    Gives (answer kinds limit depth .atom c) (.int () value) d := by
  obtain ⟨found, _, rfl⟩ := reads
  rw [answer_of_free rfl]
  refine ⟨.int (.token c) value, atom_eq_ok.2 ?_, rfl⟩
  rw [found]
  exact ⟨rfl, rfl⟩

/-- Brackets around an atom are an atom again as long as there are levels for them. -/
theorem atom_of_brackets {value : Int} (reads : kinds.Reads c (inBrackets^[n] [.int value]) d)
    (low : depth + 3 * n ≤ most) :
    Gives (answer kinds (some most) depth .atom c) (.int () value) d := by
  induction n generalizing c d depth with
  | zero => exact atom_of_int reads
  | succ n ih =>
    rw [Function.iterate_succ_apply'] at reads
    exact Recovered.bracketedAtom reads (by omega) fun m inside _ => ih inside (by omega)

theorem expression_of_brackets {value : Int} (closes : (kinds.kindAt d).closes = true)
    (reads : kinds.Reads c (inBrackets^[n] [.int value]) d) (low : depth + 3 * (n + 1) ≤ most) :
    Gives (answer kinds (some most) depth .expression c) (.int () value) d :=
  expression_of_atom closes (atom_of_brackets reads (by omega)) (allows_some (by omega))

end Brackets

section Signs

/-- Behind signs that use up all levels the next operand is refused. -/
theorem signed_refused (reads : kinds.Reads c (List.replicate k (.symbol .minus)) d)
    (full : depth + k = most) :
    answer kinds (some most) depth .signed c = .error ⟨.nestingTooDeep, d⟩ := by
  induction k generalizing c depth with
  | zero =>
    obtain rfl : d = c := reads
    exact answer_of_refused (by simp [admitted, guarded, Limit.allows]; omega)
  | succ k ih =>
    obtain ⟨sign, _, rest⟩ := reads
    have isSign : UnaryOp.sign? (kinds.kindAt c) = some .negate := by
      rw [sign]
      rfl
    rw [answer_of_guarded rfl (allows_some (by omega))]
    exact signed_eq_error isSign (ih rest (by omega))

/-- Signs in front of an operand are an operand again as long as there are levels for them. -/
theorem signed_of_signs {value : Int} (closes : (kinds.kindAt d).closes = true)
    (reads : kinds.Reads c (List.replicate n (.symbol .minus) ++ [.int value]) d)
    (low : depth + n < most) :
    Gives (answer kinds (some most) depth .signed c) ((Node.unary () .negate)^[n] (.int () value))
      d := by
  induction n generalizing c depth with
  | zero =>
    exact signed_of_atom (ne_openRound_of_closes closes) (atom_of_int reads)
      (allows_some (by omega)) (atLevel_of_closes closes _)
  | succ n ih =>
    obtain ⟨sign, _, rest⟩ := reads
    have isSign : UnaryOp.sign? (kinds.kindAt c) = some .negate := by
      rw [sign]
      rfl
    obtain ⟨tree, answered, same⟩ := @ih (depth + 1) _ rest (by omega)
    rw [answer_of_guarded rfl (allows_some (by omega)), Function.iterate_succ_apply']
    refine ⟨.unary (.upTo c d) .negate tree, signed_eq_ok.2 ?_, ?_⟩
    · exact .inl ⟨.negate, tree, isSign, answered, rfl⟩
    · rw [Node.erase_unary, same]

theorem expression_of_signs {value : Int} (closes : (kinds.kindAt d).closes = true)
    (reads : kinds.Reads c (List.replicate n (.symbol .minus) ++ [.int value]) d)
    (low : depth + n + 3 ≤ most) :
    Gives (answer kinds (some most) depth .expression c)
      ((Node.unary () .negate)^[n] (.int () value)) d := by
  have noWord (word : Keyword) : kinds.kindAt c ≠ .keyword word := by
    cases n with
    | zero => simp [reads.1]
    | succ n => simp [reads.1]
  exact expression_of_signed closes (signed_of_signs closes reads (by omega))
    (allows_some (by omega)) (noWord .not) (noWord .var)

theorem expression_refused_behind_signs (more : 0 < k)
    (reads : kinds.Reads c (List.replicate k (.symbol .minus)) d) (full : depth + k + 2 = most) :
    answer kinds (some most) depth .expression c = .error ⟨.nestingTooDeep, d⟩ := by
  have later : c.index < d.index := by
    have index := reads.index
    rw [List.length_replicate] at index
    omega
  have signed := @signed_refused kinds most (depth + 2) k c d reads (by omega)
  have sign : kinds.kindAt c = .symbol .minus := by
    obtain ⟨k, rfl⟩ := Nat.exists_eq_succ_of_ne_zero (Nat.ne_of_gt more)
    exact reads.1
  exact expression_eq_error_of_signed later signed (allows_some (by omega)) (by simp [sign])
    (by simp [sign])

end Signs

end Rule

section Programs

open Sharp.Grammar.Rule

variable {kinds : Kinds} {limit : Limit} {d : Cursor} {shape : Shape}

theorem ne_keyword_of_startsExpression {kind : TokenKind} (starts : startsExpression kind = true) :
    ∀ word ∈ [Keyword.return, .continue, .break], kind ≠ .keyword word := by
  rintro word among rfl
  simp only [List.mem_cons, List.not_mem_nil, or_false] at among
  rcases among with rfl | rfl | rfl <;> cases starts

/-- A text that is one expression makes a program of one statement. -/
theorem parseKinds_of_expression
    (expression : Gives (answer kinds limit 0 .expression .start) shape d)
    (finished : kinds.kindAt d = .eof) :
    ∃ extent tree, (parseKinds kinds limit .start).1 = .ok (.block extent [tree]) ∧
      tree.erase = shape := by
  have spells := answer_spells expression.choose_spec.1
  have starts : startsExpression (kinds.kindAt .start) = true := spells.kindAt_starts (by simp)
  have opens := spells.kindAt_opens (by simp)
  have none : Skips kinds .start 0 .start :=
    ⟨rfl, fun separator => by simp [separator, TokenKind.closes] at opens⟩
  obtain ⟨tree, statement, same⟩ :=
    statement_of_expression expression (ne_keyword_of_startsExpression starts)
  have single : Series (nextStatement kinds (answer kinds limit 0)) d [] d :=
    nextStatement_eq_none.2 ⟨0, ⟨rfl, by simp [finished]⟩, .inl rfl⟩
  refine ⟨⟨(Node.place tree).first, d⟩, tree, parseKinds_eq_ok.2 ⟨d, ?_, finished⟩, same⟩
  rw [answer_of_free rfl]
  exact (block_eq_ok (answer_moves _ _)).2 ⟨0, .start, tree, d, [], none, statement, single, rfl⟩

/-- An error behind the first token of an expression is what the program fails with. -/
theorem parseKinds_eq_error {error : SyntaxError}
    (fails : answer kinds limit 0 .expression .start = .error error)
    (later : 0 < error.cursor.index) (starts : startsExpression (kinds.kindAt .start) = true) :
    (parseKinds kinds limit .start).1 = .error error := by
  have other : kinds.kindAt .start ≠ .newline := by
    intro separator
    rw [separator] at starts
    cases starts
  have block : answer kinds limit 0 .block .start = .error error :=
    block_eq_error_of_expression later fails other (ne_keyword_of_startsExpression starts)
  rw [parseKinds_outcome]
  change (program.eval kinds (answer kinds limit 0) .start).map Parsed.value = _
  rw [program, bind_eq, eval_read_bind_eq_error block]
  rfl

end Programs

end Grammar

open Grammar

section Outcomes

variable {tokens : List Token} {word : List TokenKind}

/-- A row that is one expression and a final token makes a program of one statement. -/
theorem parse_of_expression {shape : Shape} (spelled : tokens.map Token.kind = word ++ [.eof])
    (proper : .eof ∉ word)
    (expression : let kinds := (TokenStream.ofList tokens).kinds
      kinds.Reads .start word ⟨word.length⟩ → (kinds.kindAt ⟨word.length⟩).closes = true →
      Gives (Rule.answer kinds standardLimit 0 .expression .start) shape ⟨word.length⟩) :
    ∃ result, (parse tokens).outcome = .ok result ∧ result.erase = .block () [shape] := by
  obtain ⟨reads, finished⟩ := TokenStream.reads_of_ended spelled proper
  obtain ⟨extent, tree, parsed, rfl⟩ :=
    parseKinds_of_expression (expression reads (by rw [finished]; rfl)) finished
  refine ⟨_, TokenStream.parse_eq_ok.2 ⟨_, parsed, rfl⟩, ?_⟩
  rw [Node.erase_map, Node.erase_block, List.map_singleton]

/-- A row that starts with so many tokens of one kind fails behind them if its expression does. -/
theorem parse_refused_behind {rest : List TokenKind} {kind : TokenKind} {k n : Nat}
    (spelled : tokens.map Token.kind = (List.replicate n kind ++ rest) ++ [.eof])
    (proper : .eof ∉ List.replicate n kind ++ rest) (starts : startsExpression kind = true)
    (positive : 0 < k) (within : k ≤ n)
    (fails : let kinds := (TokenStream.ofList tokens).kinds
      kinds.Reads .start (List.replicate k kind) ⟨k⟩ →
      Rule.answer kinds standardLimit 0 .expression .start = .error ⟨.nestingTooDeep, ⟨k⟩⟩) :
    ∃ t, tokens[k]? = some t ∧ (parse tokens).outcome =
      .error ⟨.invalidSyntax, "Expression nesting is too deep", t.span⟩ := by
  have reads : (TokenStream.ofList tokens).kinds.Reads .start (List.replicate k kind) ⟨k⟩ := by
    have front := (TokenStream.reads_of_ended spelled proper).1.replicate within
    rwa [Cursor.start, Nat.zero_add] at front
  have first : (TokenStream.ofList tokens).kinds.kindAt .start = kind := by
    obtain ⟨k, rfl⟩ := Nat.exists_eq_succ_of_ne_zero (Nat.ne_of_gt positive)
    exact reads.1
  have parsed := parseKinds_eq_error (fails reads) positive (first ▸ starts)
  have inside : k < tokens.length := by
    have length := congrArg List.length spelled
    simp only [List.length_map, List.length_append, List.length_replicate,
      List.length_singleton] at length
    omega
  refine ⟨tokens[k], List.getElem?_eq_getElem inside, ?_⟩
  rw [← TokenStream.tokenAt_of_ended spelled inside]
  exact TokenStream.parse_eq_error.2 ⟨_, parsed, rfl⟩

end Outcomes

/-- Round brackets around a number nest 199 times and no further, signs in front of it 597 times.
    Beyond that the program fails at the first token for which no level is left, behind 200 brackets
    or 598 signs. -/
theorem nesting_exact (n : Nat) (value : Int) (tokens : List Token) :
    let brackets : List TokenKind := List.replicate n (.symbol .openRound) ++
      ([.int value] ++ List.replicate n (.symbol .closeRound))
    let signs : List TokenKind := List.replicate n (.symbol .minus) ++ [.int value]
    let isProgram (shape : Shape) : Prop :=
      ∃ result, (parse tokens).outcome = .ok result ∧ result.erase = .block () [shape]
    let isRefusedAt (i : Nat) : Prop :=
      ∃ t, tokens[i]? = some t ∧ (parse tokens).outcome =
        .error ⟨.invalidSyntax, "Expression nesting is too deep", t.span⟩
    (tokens.map Token.kind = brackets ++ [.eof] →
      (isProgram (.int () value) ↔ n ≤ 199) ∧ (200 ≤ n → isRefusedAt 200)) ∧
    (tokens.map Token.kind = signs ++ [.eof] →
      (isProgram ((Node.unary () .negate)^[n] (.int () value)) ↔ n ≤ 597) ∧
        (598 ≤ n → isRefusedAt 598)) := by
  intro brackets signs isProgram isRefusedAt
  -- A program is not refused, so each half needs only what holds on its own side of the boundary.
  have exact_of {shape : Shape} {most : Nat} (accepted : n ≤ most → isProgram shape)
      (refused : most < n → isRefusedAt (most + 1)) :
      (isProgram shape ↔ n ≤ most) ∧ (most + 1 ≤ n → isRefusedAt (most + 1)) := by
    refine ⟨⟨fun given => Nat.le_of_not_lt fun beyond => ?_, accepted⟩, refused⟩
    obtain ⟨result, outcome, _⟩ := given
    obtain ⟨t, _, fails⟩ := refused beyond
    cases outcome.symm.trans fails
  constructor
  · intro spelled
    have proper : .eof ∉ brackets := by simp [brackets]
    refine exact_of (fun low => ?_) fun beyond => ?_
    · refine parse_of_expression spelled proper fun reads closes => ?_
      rw [show brackets = inBrackets^[n] [.int value] from (Rule.iterate_inBrackets n _).symm]
        at reads closes ⊢
      exact Rule.expression_of_brackets closes reads (by omega)
    · exact parse_refused_behind spelled proper rfl (by omega) beyond fun reads =>
        Rule.expression_refused_in_brackets reads rfl
  · intro spelled
    have proper : .eof ∉ signs := by simp [signs]
    refine exact_of (fun low => ?_) fun beyond => ?_
    · refine parse_of_expression spelled proper fun reads closes => ?_
      exact Rule.expression_of_signs closes reads (by omega)
    · exact parse_refused_behind spelled proper rfl (by omega) beyond fun reads =>
        Rule.expression_refused_behind_signs (by omega) reads rfl

/-- On either side of both boundaries, in rows whose tokens all stand at places of their own. -/
theorem nesting_exact_at_boundaries :
    let place (i : Nat) : Span := .empty ⟨i, 0, i, ⟨"", ""⟩⟩
    let row (word : List TokenKind) : List Token :=
      (word ++ [TokenKind.eof]).zipIdx.map fun (kind, i) => ⟨kind, place i⟩
    let brackets (n : Nat) : List TokenKind := List.replicate n (.symbol .openRound) ++
      ([.int 7] ++ List.replicate n (.symbol .closeRound))
    let signs (n : Nat) : List TokenKind := List.replicate n (.symbol .minus) ++ [.int 7]
    let refusal (i : Nat) : Diagnostic :=
      ⟨.invalidSyntax, "Expression nesting is too deep", place i⟩
    (∀ word, (row word).map Token.kind = word ++ [.eof]) ∧
      (∃ result, (parse (row (brackets 199))).outcome = .ok result ∧
        result.erase = .block () [.int () 7]) ∧
      (parse (row (brackets 200))).outcome = .error (refusal 200) ∧
      (∃ result, (parse (row (signs 597))).outcome = .ok result ∧
        result.erase = .block () [(Node.unary () .negate)^[597] (.int () 7)]) ∧
      (parse (row (signs 598))).outcome = .error (refusal 598) := by
  intro place row brackets signs refusal
  have spelled (word : List TokenKind) : (row word).map Token.kind = word ++ [.eof] := by
    simp [row, Function.comp_def]
  have standing {word : List TokenKind} {i : Nat} {t : Token} (found : (row word)[i]? = some t) :
      t.span = place i := by
    simp only [row, List.getElem?_map, List.getElem?_zipIdx, Option.map_map] at found
    obtain ⟨kind, -, rfl⟩ := Option.map_eq_some_iff.1 found
    simp
  have bracketed (n : Nat) := (nesting_exact n 7 (row (brackets n))).1 (spelled (brackets n))
  have negated (n : Nat) := (nesting_exact n 7 (row (signs n))).2 (spelled (signs n))
  obtain ⟨t, first, deep⟩ := (bracketed 200).2 (by decide)
  obtain ⟨u, second, deeper⟩ := (negated 598).2 (by decide)
  rw [standing first] at deep
  rw [standing second] at deeper
  exact ⟨spelled, (bracketed 199).1.2 (by decide), deep, (negated 597).1.2 (by decide), deeper⟩

end Sharp

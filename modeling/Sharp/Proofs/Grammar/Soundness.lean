import Sharp.Proofs.Grammar.Derivation
import Sharp.Proofs.Grammar.Success

/-!
Soundness. Whatever a rule succeeds on is a word that the grammar derives for the tree it yields; no
attempt that failed leaves a trace in either. So a program that is accepted is derived from all its
tokens, and the grammar tells what its tree can look like.
-/
namespace Sharp.Grammar

/-- What a rule's value is a phrase of. -/
def Rule.phrase : (rule : Rule) → rule.Value → Phrase
  | .block, tree => .tree .block (Node.erase tree)
  | .statement, tree => .tree .statement (Node.erase tree)
  | .expression, tree => .tree .expression (Node.erase tree)
  | .comparison, tree => .tree .comparison (Node.erase tree)
  | .sum, tree => .tree .sum (Node.erase tree)
  | .product, tree => .tree .product (Node.erase tree)
  | .signed, tree => .tree .signed (Node.erase tree)
  | .power, tree => .tree .power (Node.erase tree)
  | .application, tree => .tree .application (Node.erase tree)
  | .atom, tree => .tree .atom (Node.erase tree)
  | .listing, tree => .tree .listing (Node.erase tree)
  | .conditional, tree => .tree .conditional (Node.erase tree)
  | .forLoop, tree => .tree .forLoop (Node.erase tree)
  | .whileLoop, tree => .tree .whileLoop (Node.erase tree)
  | .function, tree => .tree .function (Node.erase tree)
  | .body, inner => .body (Body.map Node.erase inner)
  | .closedBody, inner => .closedBody (Body.map Node.erase inner)

/-- Between two cursors stands a word that the grammar derives for a phrase. -/
def Spells (kinds : Kinds) (c : Cursor) (phrase : Phrase) (d : Cursor) : Prop :=
  ∃ word, kinds.Reads c word d ∧ Derives word phrase

theorem Spells.lift {kinds : Kinds} {c d : Cursor} {phrase other : Phrase}
    (spells : Spells kinds c phrase d)
    (step : ∀ {word}, Derives word phrase → Derives word other) : Spells kinds c other d := by
  obtain ⟨word, reads, derived⟩ := spells
  exact ⟨word, reads, step derived⟩

namespace Parser

variable {kinds : Kinds} {answers : Answers} {c d e : Cursor} {tree : Tree}

theorem ne_eof_token (op : BinaryOp) : op.token ≠ .eof := by cases op <;> simp [BinaryOp.token]

theorem chained_spells {level : Level} {left right : Cursor → Outcome Tree}
    (first : ∀ c x d, left c = .ok ⟨x, d⟩ →
      Spells kinds c (.tree (operandRules level).1 x.erase) d)
    (later : ∀ c x d, right c = .ok ⟨x, d⟩ →
      Spells kinds c (.tree (operandRules level).2 x.erase) d)
    (chained : Chained kinds level left right c tree d) :
    Spells kinds c (.chain level tree.erase) d := by
  obtain ⟨head, m, rest, answered, series, rfl⟩ := chained
  have begun : Spells kinds c (.chain level head.erase) m := (first c head m answered).lift .operand
  clear answered
  induction rest generalizing head m with
  | nil =>
    obtain ⟨_, rfl⟩ := nextOperand_eq_none.1 series
    exact begun
  | cons operand rest ih =>
    obtain ⟨op, operand⟩ := operand
    obtain ⟨e, found, series⟩ := series
    obtain ⟨sign, rfl, answered⟩ := nextOperand_eq_some.1 found
    obtain ⟨front, reads, derived⟩ := begun
    obtain ⟨word, readsMore, operandDerived⟩ := later _ _ _ answered
    refine ih _ e series ⟨front ++ op.token :: word, ?_, .operation derived operandDerived⟩
    exact reads.append (.cons sign (ne_eof_token op) readsMore)

/-- A run that every turn makes longer by what it finds is longer by all that is found. -/
theorem turnIf_spells {ε σ : Type} {test : TokenKind → Bool} {element : Cursor → Outcome ε}
    {run : List σ → Phrase} {shape : ε → σ}
    (longer : ∀ shapes m x e, Spells kinds c (run shapes) m → test (kinds.kindAt m) = true →
      element m = .ok ⟨x, e⟩ → Spells kinds c (run (shapes ++ [shape x])) e)
    {shapes : List σ} {m : Cursor} (begun : Spells kinds c (run shapes) m) {rest : List ε}
    (series : Series (turnIf kinds test element) m rest d) :
    Spells kinds c (run (shapes ++ rest.map shape)) d := by
  induction rest generalizing shapes m with
  | nil =>
    obtain ⟨_, rfl⟩ := series_nil.1 series
    rwa [List.map_nil, List.append_nil]
  | cons next rest ih =>
    obtain ⟨passes, e, answered, series⟩ := series_cons.1 series
    have grown := ih (longer shapes m next e begun passes answered) series
    rwa [List.append_assoc] at grown

section Rules

variable (spells : ∀ rule c parsed, answers rule c = .ok parsed →
  Spells kinds c (rule.phrase parsed.value) parsed.cursor)

include spells

theorem block_spells (moves : ∀ rule c, Moved kinds c (answers rule c))
    (succeeds : (block kinds.size).eval kinds answers c = .ok ⟨tree, d⟩) :
    Spells kinds c (.tree .block tree.erase) d := by
  have statement {c d : Cursor} {tree : Tree} (answered : answers .statement c = .ok ⟨tree, d⟩) :
      Spells kinds c (.tree .statement tree.erase) d := spells .statement c ⟨tree, d⟩ answered
  obtain ⟨lead, m, first, e, rest, skips, answered, series, rfl⟩ := (block_eq_ok moves).1 succeeds
  -- The statements so far and what they were read from; the last separators join when it ends.
  have grown (rest : List Tree) (shapes : List Shape) (e : Cursor)
      (begun : Spells kinds m (.statements shapes) e)
      (series : Series (nextStatement kinds answers) e rest d) :
      ∃ word n, kinds.Reads m (word ++ separators n) d ∧
        Derives word (.statements (shapes ++ rest.map Node.erase)) := by
    induction rest generalizing shapes e with
    | nil =>
      obtain ⟨n, skips, _⟩ := nextStatement_eq_none.1 series
      obtain ⟨word, reads, derived⟩ := begun
      exact ⟨word, n, reads.append skips.1, by simpa using derived⟩
    | cons next rest ih =>
      obtain ⟨g, found, series⟩ := series
      obtain ⟨n, s, skips, answered⟩ := nextStatement_eq_some.1 found
      obtain ⟨front, reads, derived⟩ := begun
      obtain ⟨word, readsMore, statementDerived⟩ := statement answered
      have longer : Spells kinds m (.statements (shapes ++ [next.erase])) g :=
        ⟨front ++ separators (n + 1) ++ word, (reads.append skips.1).append readsMore,
          .anotherStatement derived statementDerived⟩
      obtain ⟨word, n, reads, derived⟩ := ih _ g longer series
      exact ⟨word, n, reads, by simpa using derived⟩
  obtain ⟨word, trail, reads, derived⟩ :=
    grown rest [first.erase] e ((statement answered).lift .firstStatement) series
  refine ⟨separators lead ++ word ++ separators trail, ?_, ?_⟩
  · rw [List.append_assoc]
    exact skips.1.append reads
  · simpa using Derives.block derived

theorem statement_spells (succeeds : statement.eval kinds answers c = .ok ⟨tree, d⟩) :
    Spells kinds c (.tree .statement tree.erase) d := by
  have succeeds := statement_eq_ok.1 succeeds
  split at succeeds
  · rename_i found
    rcases succeeds with ⟨value, answered, rfl⟩ | ⟨_, rfl, rfl⟩
    · obtain ⟨word, reads, derived⟩ := spells .expression _ _ answered
      exact ⟨_, .cons found (by simp) reads, .returnValue derived⟩
    · exact ⟨_, .single found (by simp), .returnNothing⟩
  · rename_i found
    obtain ⟨rfl, rfl⟩ := succeeds
    exact ⟨_, .single found (by simp), .continueLoop⟩
  · rename_i found
    obtain ⟨rfl, rfl⟩ := succeeds
    exact ⟨_, .single found (by simp), .breakLoop⟩
  · exact Spells.lift (spells .expression _ _ succeeds) .bareExpression

theorem body_spells {inner : Body Tree} (succeeds : body.eval kinds answers c = .ok ⟨inner, d⟩) :
    Spells kinds c (.body (inner.map Node.erase)) d := by
  have succeeds := body_eq_ok.1 succeeds
  split at succeeds
  · rename_i found
    obtain ⟨node, answered, rfl⟩ := succeeds
    obtain ⟨word, reads, derived⟩ := spells .block _ _ answered
    exact ⟨_, .cons found (by simp) reads, .blockBody derived⟩
  · obtain ⟨node, answered, rfl⟩ := succeeds
    exact Spells.lift (spells .statement _ _ answered) .inlineBody

theorem closedBody_spells {inner : Body Tree}
    (succeeds : closedBody.eval kinds answers c = .ok ⟨inner, d⟩) :
    Spells kinds c (.closedBody (inner.map Node.erase)) d := by
  obtain ⟨m, answered, rest⟩ := closedBody_eq_ok.1 succeeds
  obtain ⟨word, reads, derived⟩ := spells .body _ _ answered
  obtain ⟨node, isBlock⟩ := inner
  cases isBlock with
  | true =>
    obtain ⟨closed, rfl⟩ := rest
    exact ⟨_, reads.append (.single closed (by simp)), .closedBlock derived⟩
  | false =>
    obtain rfl : d = m := rest
    exact ⟨word, reads, .closedInline derived⟩

theorem expression_spells (moves : ∀ rule c, Moved kinds c (answers rule c))
    (succeeds : (expression kinds.size).eval kinds answers c = .ok ⟨tree, d⟩) :
    Spells kinds c (.tree .expression tree.erase) d := by
  rcases (expression_eq_ok moves).1 succeeds with
    ⟨found, name, value, named, assigned, answered, rfl⟩ | ⟨_, chained⟩
  · obtain ⟨word, reads, derived⟩ := spells .expression _ _ answered
    exact ⟨_, .cons found (by simp) (.cons named (by simp) (.cons assigned (by simp) reads)),
      .assign derived⟩
  · exact (chained_spells (fun c x d answered => spells .comparison c _ answered)
      (fun c x d answered => spells .comparison c _ answered) chained).lift .logical

theorem comparison_spells (moves : ∀ rule c, Moved kinds c (answers rule c))
    (succeeds : (comparison kinds.size).eval kinds answers c = .ok ⟨tree, d⟩) :
    Spells kinds c (.tree .comparison tree.erase) d := by
  rcases (comparison_eq_ok moves).1 succeeds with ⟨found, operand, answered, rfl⟩ | ⟨_, chained⟩
  · obtain ⟨word, reads, derived⟩ := spells .comparison _ _ answered
    exact ⟨_, .cons found (by simp) reads, .negation derived⟩
  · exact (chained_spells (fun c x d answered => spells .sum c _ answered)
      (fun c x d answered => spells .sum c _ answered) chained).lift .comparison

theorem signed_spells (succeeds : signed.eval kinds answers c = .ok ⟨tree, d⟩) :
    Spells kinds c (.tree .signed tree.erase) d := by
  rcases signed_eq_ok.1 succeeds with ⟨op, operand, found, answered, rfl⟩ | ⟨_, answered⟩
  · obtain ⟨word, reads, derived⟩ := spells .signed _ _ answered
    obtain ⟨sign, isSign⟩ : kinds.kindAt c = op.token ∧ op ≠ .not := by
      unfold UnaryOp.sign? at found
      split at found <;> cases found <;> rename_i sign <;> exact ⟨sign, by simp⟩
    refine ⟨_, .cons sign ?_ reads, .sign isSign derived⟩
    cases op <;> simp [UnaryOp.token]
  · exact Spells.lift (spells .power _ _ answered) .unsigned

theorem enclosed_spells (moves : ∀ rule c, Moved kinds c (answers rule c)) {close : Symbol}
    {items : List Tree}
    (succeeds : (enclosed kinds.size close).eval kinds answers c = .ok ⟨items, d⟩) :
    items = [] ∧ kinds.Reads c [.symbol close] d ∨
      ∃ word, kinds.Reads c (word ++ [.symbol close]) d ∧
        Derives word (.items (items.map Node.erase)) := by
  rcases (enclosed_eq_ok moves).1 succeeds with
    ⟨closed, rfl, rfl⟩ | ⟨_, first, m, rest, e, answered, series, closed, rfl, rfl⟩
  · exact .inl ⟨rfl, .single closed (by simp)⟩
  have longer (shapes : List Shape) (m : Cursor) (x : Tree) (e : Cursor)
      (begun : Spells kinds c (.items shapes) m) (comma : isComma (kinds.kindAt m) = true)
      (answered : answers .expression m.next = .ok ⟨x, e⟩) :
      Spells kinds c (.items (shapes ++ [x.erase])) e := by
    obtain ⟨front, reads, derived⟩ := begun
    obtain ⟨word, readsMore, itemDerived⟩ := spells .expression _ _ answered
    exact ⟨_, reads.append (.cons (isSymbol_iff.1 comma) (by simp) readsMore),
      .anotherItem derived itemDerived⟩
  have begun : Spells kinds c (.items [first.erase]) m :=
    Spells.lift (spells .expression _ _ answered) .firstItem
  obtain ⟨word, reads, derived⟩ := turnIf_spells longer begun series
  exact .inr ⟨word, reads.append (.single closed (by simp)), derived⟩

theorem application_spells (moves : ∀ rule c, Moved kinds c (answers rule c))
    (succeeds : (application kinds.size).eval kinds answers c = .ok ⟨tree, d⟩) :
    Spells kinds c (.tree .application tree.erase) d := by
  obtain ⟨callee, m, answered, rest⟩ := application_eq_ok.1 succeeds
  obtain ⟨front, reads, derived⟩ := spells .atom _ _ answered
  rcases rest with ⟨opened, args, enclosed, rfl⟩ | ⟨_, rfl, rfl⟩
  · rcases enclosed_spells spells moves enclosed with ⟨rfl, closes⟩ | ⟨word, closes, itemsDerived⟩
    · exact ⟨_, reads.append (.cons opened (by simp) closes), .emptyCall derived⟩
    · refine ⟨_, ?_, by simpa using Derives.call derived itemsDerived⟩
      simpa using reads.append (.cons opened (by simp) closes)
  · exact ⟨front, reads, .bareAtom derived⟩

theorem listing_spells (moves : ∀ rule c, Moved kinds c (answers rule c))
    (succeeds : (listing kinds.size).eval kinds answers c = .ok ⟨tree, d⟩) :
    Spells kinds c (.tree .listing tree.erase) d := by
  obtain ⟨opened, items, enclosed, rfl⟩ := listing_eq_ok.1 succeeds
  rcases enclosed_spells spells moves enclosed with ⟨rfl, closes⟩ | ⟨word, closes, itemsDerived⟩
  · exact ⟨_, .cons opened (by simp) closes, .emptyList⟩
  · exact ⟨_, .cons opened (by simp) closes, by simpa using Derives.list itemsDerived⟩

theorem atom_spells (succeeds : atom.eval kinds answers c = .ok ⟨tree, d⟩) :
    Spells kinds c (.tree .atom tree.erase) d := by
  have succeeds := atom_eq_ok.1 succeeds
  split at succeeds
  · rename_i opened
    obtain ⟨m, answered, closed, rfl⟩ := succeeds
    obtain ⟨word, reads, derived⟩ := spells .expression _ _ answered
    exact ⟨_, .cons opened (by simp) (reads.append (.single closed (by simp))), .bracketed derived⟩
  · exact (spells .listing _ _ succeeds).lift (.construct (by simp))
  · exact (spells .conditional _ _ succeeds).lift (.construct (by simp))
  · exact (spells .forLoop _ _ succeeds).lift (.construct (by simp))
  · exact (spells .whileLoop _ _ succeeds).lift (.construct (by simp))
  · exact (spells .function _ _ succeeds).lift (.construct (by simp))
  · obtain ⟨leaf, rfl⟩ := succeeds
    generalize found : kinds.kindAt c = kind at leaf
    unfold leafAt at leaf
    split at leaf <;> cases leaf
    · exact ⟨_, .single found (by simp), .int⟩
    · exact ⟨_, .single found (by simp), .float⟩
    · exact ⟨_, .single found (by simp), .string⟩
    · exact ⟨_, .single found (by simp), .access⟩

theorem clause_spells {keyword : Keyword} {found : Clause Tree}
    (succeeds : (clause keyword).eval kinds answers c = .ok ⟨found, d⟩) :
    Spells kinds c (.clause keyword (found.map Node.erase)) d := by
  obtain ⟨first, m, condition, thens, body⟩ := clause_eq_ok.1 succeeds
  obtain ⟨front, reads, derived⟩ := spells .expression _ _ condition
  obtain ⟨word, readsMore, bodyDerived⟩ := spells .body _ _ body
  exact ⟨_, .append (.cons first (by simp) reads) (.cons thens (by simp) readsMore),
    .clause derived bodyDerived⟩

theorem conditional_spells (moves : ∀ rule c, Moved kinds c (answers rule c))
    (succeeds : (conditional kinds.size).eval kinds answers c = .ok ⟨tree, d⟩) :
    Spells kinds c (.tree .conditional tree.erase) d := by
  obtain ⟨first, m, rest, e, last, opens, series, ends, rfl⟩ :=
    (conditional_eq_ok moves).1 succeeds
  have longer (clauses : List (Clause Shape)) (m : Cursor) (x : Clause Tree) (e : Cursor)
      (begun : Spells kinds c (.clauses clauses) m) (_ : isElif (kinds.kindAt m) = true)
      (answered : (clause .elif).eval kinds answers m = .ok ⟨x, e⟩) :
      Spells kinds c (.clauses (clauses ++ [x.map Node.erase])) e := by
    obtain ⟨front, reads, derived⟩ := begun
    obtain ⟨word, readsMore, clauseDerived⟩ := clause_spells spells answered
    exact ⟨_, reads.append readsMore, .anotherClause derived clauseDerived⟩
  have begun : Spells kinds c (.clauses [first.map Node.erase]) m :=
    (clause_spells spells opens).lift .firstClause
  obtain ⟨word, reads, derived⟩ := turnIf_spells longer begun series
  -- The last clause decides how the chain may end.
  obtain ⟨front, final, split⟩ : ∃ front final, first :: rest = front ++ [final] :=
    ⟨_, _, (List.dropLast_concat_getLast (List.cons_ne_nil first rest)).symm⟩
  have endsAs : endsInBlock (first :: rest) = final.body.isBlock := by
    simp [split, endsInBlock]
  have shapes : [first.map Node.erase] ++ rest.map (Clause.map Node.erase) =
      front.map (Clause.map Node.erase) ++ [final.map Node.erase] := by
    rw [List.singleton_append, ← List.map_cons, split]
    simp
  rcases otherwise_eq_ok.1 ends with
    ⟨isBlock, closed, rfl, rfl⟩ | ⟨other, body, answered, rfl⟩ | ⟨isInline, _, rfl, rfl⟩
  · refine ⟨_, reads.append (.single closed (by simp)), ?_⟩
    rw [shapes] at derived
    rw [endsAs] at isBlock
    simpa [split] using Derives.closedClauses isBlock derived
  · obtain ⟨back, readsMore, bodyDerived⟩ := spells .closedBody _ _ answered
    refine ⟨_, reads.append (.cons other (by simp) readsMore), ?_⟩
    simpa using Derives.otherwise derived bodyDerived
  · refine ⟨word, reads, ?_⟩
    rw [shapes] at derived
    rw [endsAs] at isInline
    simpa [split] using Derives.inlineClauses isInline derived

theorem whileLoop_spells (succeeds : whileLoop.eval kinds answers c = .ok ⟨tree, d⟩) :
    Spells kinds c (.tree .whileLoop tree.erase) d := by
  obtain ⟨first, condition, m, body, tested, thens, answered, rfl⟩ := whileLoop_eq_ok.1 succeeds
  obtain ⟨front, reads, derived⟩ := spells .expression _ _ tested
  obtain ⟨word, readsMore, bodyDerived⟩ := spells .closedBody _ _ answered
  exact ⟨_, .append (.cons first (by simp) reads) (.cons thens (by simp) readsMore),
    .whileLoop derived bodyDerived⟩

theorem stride_spells {step : Option Tree}
    (succeeds : stride.eval kinds answers c = .ok ⟨step, d⟩) :
    Spells kinds c (.stride (step.map Node.erase)) d := by
  rcases stride_eq_ok.1 succeeds with ⟨stepping, value, answered, rfl⟩ | ⟨_, rfl, rfl⟩
  · obtain ⟨word, reads, derived⟩ := spells .expression _ _ answered
    exact ⟨_, .cons stepping (by simp) reads, .stride derived⟩
  · exact ⟨[], rfl, .noStride⟩

theorem forLoop_spells (succeeds : forLoop.eval kinds answers c = .ok ⟨tree, d⟩) :
    Spells kinds c (.tree .forLoop tree.erase) d := by
  obtain ⟨first, name, lower, m, upper, e, step, g, body, named, assigned, starts, upTo, stops,
    strides, thens, answered, rfl⟩ := forLoop_eq_ok.1 succeeds
  obtain ⟨front, reads, derived⟩ := spells .expression _ _ starts
  obtain ⟨middle, readsOn, upperDerived⟩ := spells .expression _ _ stops
  obtain ⟨stepWord, readsStep, stepDerived⟩ := stride_spells spells strides
  obtain ⟨word, readsMore, bodyDerived⟩ := spells .closedBody _ _ answered
  rw [Node.erase_forLoop]
  refine ⟨_, ?_, .forLoop derived upperDerived stepDerived bodyDerived⟩
  exact .append (.append (.append
    (.cons first (by simp) (.cons named (by simp) (.cons assigned (by simp) reads)))
    (.cons upTo (by simp) readsOn)) readsStep) (.cons thens (by simp) readsMore)

theorem functionBody_spells {body : Body Tree}
    (succeeds : functionBody.eval kinds answers c = .ok ⟨body, d⟩) :
    Spells kinds c (.functionBody (body.map Node.erase)) d := by
  rcases functionBody_eq_ok.1 succeeds with
    ⟨arrow, node, answered, rfl⟩ | ⟨separator, node, m, answered, closed, rfl, rfl⟩
  · obtain ⟨word, reads, derived⟩ := spells .expression _ _ answered
    exact ⟨_, .cons arrow (by simp) reads, .arrowBody derived⟩
  · obtain ⟨word, reads, derived⟩ := spells .block _ _ answered
    exact ⟨_, .cons separator (by simp) (reads.append (.single closed (by simp))),
      .functionBlock derived⟩

omit spells in
theorem functionName_reads {name : Option (Ident Extent)}
    (succeeds : functionName.eval kinds answers c = .ok ⟨name, d⟩) :
    kinds.Reads c (nameList (name.map (Ident.map fun _ => ())).toList ++ [.symbol .openRound])
      d := by
  rcases functionName_eq_ok.1 succeeds with ⟨text, named, opened, rfl, rfl⟩ | ⟨opened, rfl, rfl⟩
  · exact .cons named (by simp) (.single opened (by simp))
  · exact .single opened (by simp)

omit spells in
theorem params_reads {params : List (Ident Extent)}
    (succeeds : (Parser.params kinds.size).eval kinds answers c = .ok ⟨params, d⟩) :
    kinds.Reads c (nameList (params.map (Ident.map fun _ => ())) ++ [.symbol .closeRound]) d := by
  rcases params_eq_ok.1 succeeds with
    ⟨first, m, rest, e, named, series, closed, rfl, rfl⟩ | ⟨closed, rfl, rfl⟩
  · refine .append ?_ (.single closed (by simp))
    clear succeeds
    induction rest generalizing c first m with
    | nil =>
      obtain ⟨found, _, rfl⟩ := identifier_eq_ok.1 named
      obtain ⟨_, rfl⟩ := series_nil.1 series
      exact .single found (by simp)
    | cons next rest ih =>
      obtain ⟨found, _, rfl⟩ := identifier_eq_ok.1 named
      obtain ⟨comma, m, other, series⟩ := series_cons.1 series
      exact .cons found (by simp) (.cons (isSymbol_iff.1 comma) (by simp) (ih _ _ other series))
  · exact .single closed (by simp)

theorem function_spells (succeeds : (function kinds.size).eval kinds answers c = .ok ⟨tree, d⟩) :
    Spells kinds c (.tree .function tree.erase) d := by
  obtain ⟨first, name, m, params, e, body, named, listed, answered, rfl⟩ :=
    function_eq_ok.1 succeeds
  obtain ⟨word, reads, derived⟩ := functionBody_spells spells answered
  rw [Node.erase_function]
  refine ⟨_, ?_, .function derived⟩
  have opens := functionName_reads named
  have closes := params_reads listed
  simpa using Kinds.Reads.cons first (by simp) ((opens.append closes).append reads)

end Rules

/-- Every rule spells its value as long as the rules it calls do. -/
theorem parser_spells {rule : Rule} {parsed : Parsed rule.Value}
    (moves : ∀ rule c, Moved kinds c (answers rule c))
    (spells : ∀ rule c parsed, answers rule c = .ok parsed →
      Spells kinds c (rule.phrase parsed.value) parsed.cursor)
    (succeeds : (rule.parser kinds.size).eval kinds answers c = .ok parsed) :
    Spells kinds c (rule.phrase parsed.value) parsed.cursor := by
  cases rule with
  | block => exact block_spells spells moves succeeds
  | statement => exact statement_spells spells succeeds
  | expression => exact expression_spells spells moves succeeds
  | comparison => exact comparison_spells spells moves succeeds
  | sum =>
    exact (chained_spells (fun c _ _ answered => spells .product c _ answered)
      (fun c _ _ answered => spells .product c _ answered) ((sum_eq_ok moves).1 succeeds)).lift .sum
  | product =>
    exact (chained_spells (fun c _ _ answered => spells .signed c _ answered)
      (fun c _ _ answered => spells .signed c _ answered)
      ((product_eq_ok moves).1 succeeds)).lift .product
  | signed => exact signed_spells spells succeeds
  | power =>
    exact (chained_spells (fun c _ _ answered => spells .application c _ answered)
      (fun c _ _ answered => spells .signed c _ answered)
      ((power_eq_ok moves).1 succeeds)).lift .power
  | application => exact application_spells spells moves succeeds
  | atom => exact atom_spells spells succeeds
  | listing => exact listing_spells spells moves succeeds
  | conditional => exact conditional_spells spells moves succeeds
  | forLoop => exact forLoop_spells spells succeeds
  | whileLoop => exact whileLoop_spells spells succeeds
  | function => exact function_spells spells succeeds
  | body => exact body_spells spells succeeds
  | closedBody => exact closedBody_spells spells succeeds

end Parser

theorem Rule.answer_spells {kinds : Kinds} {limit : Limit} {depth : Nat} {rule : Rule} {c : Cursor}
    {parsed : Parsed rule.Value} (succeeds : Rule.answer kinds limit depth rule c = .ok parsed) :
    Spells kinds c (rule.phrase parsed.value) parsed.cursor :=
  Rule.answer_induction (fun _ _ _ _ => Parser.parser_spells) succeeds

theorem parseKinds_spells {kinds : Kinds} {limit : Limit} {tree : Tree}
    (accepted : (parseKinds kinds limit .start).1 = .ok tree) :
    ∃ d, Spells kinds .start (.tree .block tree.erase) d ∧ kinds.kindAt d = .eof := by
  obtain ⟨d, answered, finished⟩ := parseKinds_eq_ok.1 accepted
  exact ⟨d, Rule.answer_spells answered, finished⟩

end Sharp.Grammar

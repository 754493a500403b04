import Sharp.Proofs.Grammar.Settling
import Sharp.Proofs.Grammar.Soundness

/-!
Where returns stand. The returns of a tree are, from left to right, the `RETURN` tokens of the
stretch it was read from, whether they got a value or not. So two trees of one shape that were read
from the same tokens have their returns in the same places.
-/
namespace Sharp.Grammar

variable {kinds : Kinds} {c d m : Cursor}

/-- The places of the `RETURN` tokens between two cursors. -/
inductive Returns (kinds : Kinds) : Cursor → List Cursor → Cursor → Prop
  | done {c : Cursor} : Returns kinds c [] c
  | other {c d : Cursor} {later : List Cursor} :
      kinds.kindAt c ≠ .keyword .return → Returns kinds c.next later d → Returns kinds c later d
  | found {c d : Cursor} {later : List Cursor} :
      kinds.kindAt c = .keyword .return → Returns kinds c.next later d →
      Returns kinds c (c :: later) d

namespace Returns

variable {front back found others : List Cursor} {word : List TokenKind} {kind : TokenKind}

theorem append (first : Returns kinds c front m) (second : Returns kinds m back d) :
    Returns kinds c (front ++ back) d := by
  induction first with
  | done => exact second
  | other free _ ih => exact .other free (ih second)
  | found here _ ih => exact .found here (ih second)

theorem of_reads (reads : kinds.Reads c word d) (free : .keyword .return ∉ word) :
    Returns kinds c [] d := by
  induction word generalizing c with
  | nil => exact reads ▸ .done
  | cons kind word ih =>
    obtain ⟨here, _, rest⟩ := reads
    rw [List.mem_cons, not_or] at free
    exact .other (fun same => free.1 (same.symm.trans here)) (ih rest free.2)

theorem before (here : kinds.kindAt c = kind) (free : kind ≠ .keyword .return)
    (rest : Returns kinds c.next found d) : Returns kinds c found d :=
  .other (here ▸ free) rest

theorem behind (first : Returns kinds c found m) (here : kinds.kindAt m = kind)
    (free : kind ≠ .keyword .return) : Returns kinds c found m.next := by
  have whole := first.append (.before here free .done)
  rwa [List.append_nil] at whole

theorem index_le (returns : Returns kinds c found d) : c.index ≤ d.index := by
  induction returns with
  | done => exact Nat.le_refl _
  | other _ _ ih | found _ _ ih => exact Nat.le_of_succ_le ih

theorem unique (one : Returns kinds c found d) (two : Returns kinds c others d) :
    found = others := by
  induction one generalizing others with
  | done =>
    cases two with
    | done => rfl
    | other _ rest | found _ rest => exact absurd rest.index_le (Nat.not_succ_le_self _)
  | other free rest ih =>
    cases two with
    | done => exact absurd rest.index_le (Nat.not_succ_le_self _)
    | other _ rest => exact ih rest
    | found here _ => exact absurd here free
  | found here rest ih =>
    cases two with
    | done => exact absurd rest.index_le (Nat.not_succ_le_self _)
    | other free _ => exact absurd here free
    | found _ rest => rw [ih rest]

end Returns

/-- The tokens that the returns of a tree start with. -/
def Tree.marks (tree : Tree) : List Cursor := (Node.returns tree).map fun mark => mark.1.first

theorem Tree.marks_eq (tree : Tree) :
    tree.marks = (Node.ownReturns tree).map (fun mark => mark.1.first) ++
      (Node.children tree).flatMap Tree.marks := by
  rw [Tree.marks, Node.returns_eq, List.map_append, List.map_flatMap]
  rfl

namespace Returns

variable {tree : Tree} {trees : List Tree}

theorem cons (first : Returns kinds c tree.marks m)
    (rest : Returns kinds m (trees.flatMap Tree.marks) d) :
    Returns kinds c ((tree :: trees).flatMap Tree.marks) d := by
  rw [List.flatMap_cons]
  exact first.append rest

theorem last (only : Returns kinds c tree.marks d) :
    Returns kinds c ([tree].flatMap Tree.marks) d := by
  rwa [List.flatMap_singleton]

/-- A node that is no return has the returns of its children. -/
theorem inside (own : Node.ownReturns tree = [])
    (inner : Returns kinds c ((Node.children tree).flatMap Tree.marks) d) :
    Returns kinds c tree.marks d := by
  rw [Tree.marks_eq, own]
  exact inner

end Returns

namespace Parser

variable {answers : Answers} {tree : Tree}

theorem series_returns {ε : Type} {turn : Cursor → Outcome (Option ε)} {marks : ε → List Cursor}
    (finish : ∀ c d, turn c = .ok ⟨none, d⟩ → Returns kinds c [] d)
    (step : ∀ c x d, turn c = .ok ⟨some x, d⟩ → Returns kinds c (marks x) d) {found : List ε}
    (series : Series turn c found d) : Returns kinds c (found.flatMap marks) d := by
  induction found generalizing c with
  | nil => exact finish c d series
  | cons x xs ih =>
    obtain ⟨m, answered, series⟩ := series
    exact (step c x m answered).append (ih series)

theorem turnIf_returns {ε : Type} {test : TokenKind → Bool} {element : Cursor → Outcome ε}
    {marks : ε → List Cursor}
    (step : ∀ c x d, test (kinds.kindAt c) = true → element c = .ok ⟨x, d⟩ →
      Returns kinds c (marks x) d) {found : List ε}
    (series : Series (turnIf kinds test element) c found d) :
    Returns kinds c (found.flatMap marks) d := by
  refine series_returns (fun c d finished => ?_) (fun c x d answered => ?_) series
  · obtain ⟨_, rfl⟩ := turnIf_eq_none.1 finished
    exact .done
  · obtain ⟨passes, answered⟩ := turnIf_eq_some.1 answered
    exact step c x d passes answered

theorem chained_returns {level : Level} {left right : Cursor → Outcome Tree}
    (first : ∀ c x d, left c = .ok ⟨x, d⟩ → Returns kinds c x.marks d)
    (later : ∀ c x d, right c = .ok ⟨x, d⟩ → Returns kinds c x.marks d)
    (chained : Chained kinds level left right c tree d) : Returns kinds c tree.marks d := by
  obtain ⟨head, m, rest, answered, series, rfl⟩ := chained
  have begun := first c head m answered
  clear answered
  induction rest generalizing head m with
  | nil =>
    obtain ⟨_, rfl⟩ := nextOperand_eq_none.1 series
    exact begun
  | cons operand rest ih =>
    obtain ⟨op, operand⟩ := operand
    obtain ⟨e, found, series⟩ := series
    obtain ⟨sign, _, answered⟩ := nextOperand_eq_some.1 found
    have free : op.token ≠ .keyword .return := by cases op <;> simp [BinaryOp.token]
    have right : Returns kinds m operand.marks e := .before sign free (later _ _ _ answered)
    exact ih _ e series (.inside rfl (begun.cons right.last))

section Rules

variable (places : ∀ rule c parsed, answers rule c = .ok parsed →
  Returns kinds c (rule.node parsed.value).marks parsed.cursor)

include places

theorem block_returns (moves : ∀ rule c, Moved kinds c (answers rule c))
    (succeeds : (block kinds.size).eval kinds answers c = .ok ⟨tree, d⟩) :
    Returns kinds c tree.marks d := by
  have skipped {c d : Cursor} {n : Nat} (skips : Skips kinds c n d) : Returns kinds c [] d :=
    .of_reads skips.1 (by simp)
  obtain ⟨n, m, first, e, rest, skips, answered, series, rfl⟩ := (block_eq_ok moves).1 succeeds
  have later : Returns kinds e (rest.flatMap Tree.marks) d := by
    refine series_returns (fun c d finished => ?_) (fun c x d answered => ?_) series
    · obtain ⟨_, skips, _⟩ := nextStatement_eq_none.1 finished
      exact skipped skips
    · obtain ⟨_, m, skips, answered⟩ := nextStatement_eq_some.1 answered
      exact (skipped skips).append (places .statement _ _ answered)
  exact .inside rfl ((skipped skips).append (.cons (places .statement _ _ answered) later))

theorem statement_returns (succeeds : statement.eval kinds answers c = .ok ⟨tree, d⟩) :
    Returns kinds c tree.marks d := by
  have succeeds := statement_eq_ok.1 succeeds
  split at succeeds
  · rename_i found
    rcases succeeds with ⟨value, answered, rfl⟩ | ⟨_, rfl, rfl⟩
    · rw [Tree.marks_eq]
      exact .found found (.last (places .expression _ _ answered))
    · exact .found found .done
  · rename_i found
    obtain ⟨rfl, rfl⟩ := succeeds
    exact .before found (by simp) .done
  · rename_i found
    obtain ⟨rfl, rfl⟩ := succeeds
    exact .before found (by simp) .done
  · exact places .expression _ _ succeeds

theorem body_returns {inner : Body Tree} (succeeds : body.eval kinds answers c = .ok ⟨inner, d⟩) :
    Returns kinds c (Tree.marks inner.node) d := by
  have succeeds := body_eq_ok.1 succeeds
  split at succeeds
  · rename_i found
    obtain ⟨node, answered, rfl⟩ := succeeds
    exact .before found (by simp) (places .block _ _ answered)
  · obtain ⟨node, answered, rfl⟩ := succeeds
    exact places .statement _ _ answered

theorem closedBody_returns {inner : Body Tree}
    (succeeds : closedBody.eval kinds answers c = .ok ⟨inner, d⟩) :
    Returns kinds c (Tree.marks inner.node) d := by
  obtain ⟨m, answered, rest⟩ := closedBody_eq_ok.1 succeeds
  have front : Returns kinds c (Tree.marks inner.node) m := places .body _ _ answered
  obtain ⟨node, isBlock⟩ := inner
  cases isBlock with
  | true =>
    obtain ⟨closed, rfl⟩ := rest
    exact front.behind closed (by simp)
  | false =>
    obtain rfl : d = m := rest
    exact front

theorem expression_returns (moves : ∀ rule c, Moved kinds c (answers rule c))
    (succeeds : (expression kinds.size).eval kinds answers c = .ok ⟨tree, d⟩) :
    Returns kinds c tree.marks d := by
  rcases (expression_eq_ok moves).1 succeeds with
    ⟨found, name, value, named, assigned, answered, rfl⟩ | ⟨_, chained⟩
  · exact .inside rfl (.before found (by simp) (.before named (by simp)
      (.before assigned (by simp) (.last (places .expression _ _ answered)))))
  · exact chained_returns (fun c _ _ answered => places .comparison c _ answered)
      (fun c _ _ answered => places .comparison c _ answered) chained

theorem comparison_returns (moves : ∀ rule c, Moved kinds c (answers rule c))
    (succeeds : (comparison kinds.size).eval kinds answers c = .ok ⟨tree, d⟩) :
    Returns kinds c tree.marks d := by
  rcases (comparison_eq_ok moves).1 succeeds with ⟨found, operand, answered, rfl⟩ | ⟨_, chained⟩
  · exact .inside rfl (.before found (by simp) (.last (places .comparison _ _ answered)))
  · exact chained_returns (fun c _ _ answered => places .sum c _ answered)
      (fun c _ _ answered => places .sum c _ answered) chained

theorem signed_returns (succeeds : signed.eval kinds answers c = .ok ⟨tree, d⟩) :
    Returns kinds c tree.marks d := by
  rcases signed_eq_ok.1 succeeds with ⟨op, operand, found, answered, rfl⟩ | ⟨_, answered⟩
  · have free : kinds.kindAt c ≠ .keyword .return := by
      intro here
      rw [here] at found
      cases found
    exact .inside rfl (.other free (.last (places .signed _ _ answered)))
  · exact places .power _ _ answered

theorem enclosed_returns (moves : ∀ rule c, Moved kinds c (answers rule c)) {close : Symbol}
    {items : List Tree}
    (succeeds : (enclosed kinds.size close).eval kinds answers c = .ok ⟨items, d⟩) :
    Returns kinds c (items.flatMap Tree.marks) d := by
  rcases (enclosed_eq_ok moves).1 succeeds with
    ⟨closed, rfl, rfl⟩ | ⟨_, first, m, rest, e, answered, series, closed, rfl, rfl⟩
  · exact .before closed (by simp) .done
  · have later : Returns kinds m (rest.flatMap Tree.marks) e :=
      turnIf_returns (fun c x d comma answered =>
        .before (isSymbol_iff.1 comma) (by simp) (places .expression _ _ answered)) series
    exact (Returns.cons (places .expression _ _ answered) later).behind closed (by simp)

theorem application_returns (moves : ∀ rule c, Moved kinds c (answers rule c))
    (succeeds : (application kinds.size).eval kinds answers c = .ok ⟨tree, d⟩) :
    Returns kinds c tree.marks d := by
  obtain ⟨callee, m, answered, rest⟩ := application_eq_ok.1 succeeds
  have front : Returns kinds c callee.marks m := places .atom _ _ answered
  rcases rest with ⟨opened, args, enclosed, rfl⟩ | ⟨_, rfl, rfl⟩
  · have inside := enclosed_returns places moves enclosed
    exact .inside rfl (front.cons (.before opened (by simp) inside))
  · exact front

theorem listing_returns (moves : ∀ rule c, Moved kinds c (answers rule c))
    (succeeds : (listing kinds.size).eval kinds answers c = .ok ⟨tree, d⟩) :
    Returns kinds c tree.marks d := by
  obtain ⟨opened, items, enclosed, rfl⟩ := listing_eq_ok.1 succeeds
  exact .inside rfl (.before opened (by simp) (enclosed_returns places moves enclosed))

theorem atom_returns (succeeds : atom.eval kinds answers c = .ok ⟨tree, d⟩) :
    Returns kinds c tree.marks d := by
  have succeeds := atom_eq_ok.1 succeeds
  split at succeeds
  · rename_i opened
    obtain ⟨m, answered, closed, rfl⟩ := succeeds
    exact .before opened (by simp)
      (Returns.behind (places .expression _ _ answered) closed (by simp))
  · exact places .listing _ _ succeeds
  · exact places .conditional _ _ succeeds
  · exact places .forLoop _ _ succeeds
  · exact places .whileLoop _ _ succeeds
  · exact places .function _ _ succeeds
  · obtain ⟨leaf, rfl⟩ := succeeds
    generalize found : kinds.kindAt c = kind at leaf
    unfold leafAt at leaf
    split at leaf <;> cases leaf <;> exact .before found (by simp) .done

theorem clause_returns {word : Keyword} {found : Clause Tree} (other : word ≠ .return)
    (succeeds : (clause word).eval kinds answers c = .ok ⟨found, d⟩) :
    Returns kinds c ([found.condition, found.body.node].flatMap Tree.marks) d := by
  obtain ⟨opens, m, tested, thens, answered⟩ := clause_eq_ok.1 succeeds
  have condition : Returns kinds c (Tree.marks found.condition) m :=
    .before opens (by simpa using other) (places .expression _ _ tested)
  exact condition.cons (.before thens (by simp) (.last (places .body _ _ answered)))

theorem conditional_returns (moves : ∀ rule c, Moved kinds c (answers rule c))
    (succeeds : (conditional kinds.size).eval kinds answers c = .ok ⟨tree, d⟩) :
    Returns kinds c tree.marks d := by
  obtain ⟨first, m, rest, e, last, opens, series, ends, rfl⟩ := (conditional_eq_ok moves).1 succeeds
  let marks (found : Clause Tree) : List Cursor :=
    [found.condition, found.body.node].flatMap Tree.marks
  have later : Returns kinds m (rest.flatMap marks) e :=
    turnIf_returns (fun c x d _ answered => clause_returns places (by simp) answered) series
  have clauses := (clause_returns places (by simp) opens).append later
  have final : Returns kinds e ((last.map Body.node).toList.flatMap Tree.marks) d := by
    rcases otherwise_eq_ok.1 ends with
      ⟨_, closed, rfl, rfl⟩ | ⟨other, body, answered, rfl⟩ | ⟨_, _, rfl, rfl⟩
    · exact .before closed (by simp) .done
    · exact .before other (by simp) (.last (places .closedBody _ _ answered))
    · exact .done
  refine .inside rfl ?_
  rw [Node.children, List.flatMap_append, List.flatMap_assoc]
  exact clauses.append final

theorem whileLoop_returns (succeeds : whileLoop.eval kinds answers c = .ok ⟨tree, d⟩) :
    Returns kinds c tree.marks d := by
  obtain ⟨opens, condition, m, body, tested, thens, answered, rfl⟩ := whileLoop_eq_ok.1 succeeds
  have front : Returns kinds c condition.marks m :=
    .before opens (by simp) (places .expression _ _ tested)
  exact .inside rfl (front.cons (.before thens (by simp) (.last (places .closedBody _ _ answered))))

theorem stride_returns {step : Option Tree}
    (succeeds : stride.eval kinds answers c = .ok ⟨step, d⟩) :
    Returns kinds c (step.toList.flatMap Tree.marks) d := by
  rcases stride_eq_ok.1 succeeds with ⟨stepping, value, answered, rfl⟩ | ⟨_, rfl, rfl⟩
  · exact .before stepping (by simp) (.last (places .expression _ _ answered))
  · exact .done

theorem forLoop_returns (succeeds : forLoop.eval kinds answers c = .ok ⟨tree, d⟩) :
    Returns kinds c tree.marks d := by
  obtain ⟨opens, name, lower, m, upper, e, step, g, body, named, assigned, starts, upTo, stops,
    strides, thens, answered, rfl⟩ := forLoop_eq_ok.1 succeeds
  have front : Returns kinds c lower.marks m := .before opens (by simp) (.before named (by simp)
    (.before assigned (by simp) (places .expression _ _ starts)))
  have middle : Returns kinds m upper.marks e :=
    .before upTo (by simp) (places .expression _ _ stops)
  have back : Returns kinds g ([body.node].flatMap Tree.marks) d :=
    .before thens (by simp) (.last (places .closedBody _ _ answered))
  have rest := (stride_returns places strides).append back
  rw [← List.flatMap_append] at rest
  exact .inside rfl (front.cons (middle.cons rest))

theorem function_returns (succeeds : (function kinds.size).eval kinds answers c = .ok ⟨tree, d⟩) :
    Returns kinds c tree.marks d := by
  obtain ⟨opens, name, m, params, e, body, named, listed, answered, rfl⟩ :=
    function_eq_ok.1 succeeds
  have names (list : List (Ident Unit)) : .keyword .return ∉ nameList list := by
    intro among
    rcases mem_nameList among with ⟨name, same⟩ | same <;> cases same
  have head : Returns kinds c [] m := .before opens (by simp)
    (.of_reads (functionName_reads named) (by simp [names]))
  have head := head.append (.of_reads (params_reads listed) (by simp [names]))
  refine .inside rfl (head.append (.last ?_))
  rcases functionBody_eq_ok.1 answered with
    ⟨arrow, node, inside, rfl⟩ | ⟨separator, node, g, inside, closed, rfl, rfl⟩
  · exact .before arrow (by simp) (places .expression _ _ inside)
  · exact .before separator (by simp)
      (Returns.behind (places .block _ _ inside) closed (by simp))

theorem parser_returns (moves : ∀ rule c, Moved kinds c (answers rule c)) {rule : Rule}
    {parsed : Parsed rule.Value}
    (succeeds : (rule.parser kinds.size).eval kinds answers c = .ok parsed) :
    Returns kinds c (rule.node parsed.value).marks parsed.cursor := by
  cases rule with
  | block => exact block_returns places moves succeeds
  | statement => exact statement_returns places succeeds
  | expression => exact expression_returns places moves succeeds
  | comparison => exact comparison_returns places moves succeeds
  | sum =>
    exact chained_returns (fun c _ _ answered => places .product c _ answered)
      (fun c _ _ answered => places .product c _ answered) ((sum_eq_ok moves).1 succeeds)
  | product =>
    exact chained_returns (fun c _ _ answered => places .signed c _ answered)
      (fun c _ _ answered => places .signed c _ answered) ((product_eq_ok moves).1 succeeds)
  | signed => exact signed_returns places succeeds
  | power =>
    exact chained_returns (fun c _ _ answered => places .application c _ answered)
      (fun c _ _ answered => places .signed c _ answered) ((power_eq_ok moves).1 succeeds)
  | application => exact application_returns places moves succeeds
  | atom => exact atom_returns places succeeds
  | listing => exact listing_returns places moves succeeds
  | conditional => exact conditional_returns places moves succeeds
  | forLoop => exact forLoop_returns places succeeds
  | whileLoop => exact whileLoop_returns places succeeds
  | function => exact function_returns places succeeds
  | body => exact body_returns places succeeds
  | closedBody => exact closedBody_returns places succeeds

end Rules

end Parser

theorem Rule.answer_returns {limit : Limit} {depth : Nat} {rule : Rule}
    {parsed : Parsed rule.Value} (succeeds : Rule.answer kinds limit depth rule c = .ok parsed) :
    Returns kinds c (rule.node parsed.value).marks parsed.cursor :=
  Rule.answer_induction (fun _ _ _ _ moves places => Parser.parser_returns places moves) succeeds

theorem parseKinds_marks {limit looser : Limit} {tree other : Tree}
    (one : (parseKinds kinds limit .start).1 = .ok tree)
    (two : (parseKinds kinds looser .start).1 = .ok other) : tree.marks = other.marks := by
  obtain ⟨d, answered, finished⟩ := parseKinds_eq_ok.1 one
  obtain ⟨e, answeredToo, finishedToo⟩ := parseKinds_eq_ok.1 two
  obtain ⟨word, reads, _⟩ := Rule.answer_spells answered
  obtain ⟨others, readsToo, _⟩ := Rule.answer_spells answeredToo
  have sameWord : word = others :=
    (reads.eq_takeWhile finished).trans (readsToo.eq_takeWhile finishedToo).symm
  have sameEnd : d = e := by
    have here := reads.index
    have there := readsToo.index
    rw [sameWord, ← there] at here
    exact congrArg Cursor.mk here
  subst sameEnd
  exact (Rule.answer_returns answered).unique (Rule.answer_returns answeredToo)

/-- Trees of one shape have the same returns go without a value. -/
theorem exists_bareReturn {tree other : Tree} (marks : tree.marks = other.marks)
    (shapes : Node.erase tree = Node.erase other) {place : Extent}
    (bare : place ∈ Node.bareReturns tree) :
    ∃ twin ∈ Node.bareReturns other, twin.first = place.first := by
  have flags : (Node.returns tree).map Prod.snd = (Node.returns other).map Prod.snd := by
    have erased := congrArg (fun shape => (Node.returns shape).map Prod.snd) shapes
    simp only [Node.erase, Node.returns_map, List.map_map] at erased
    exact erased
  have both : (Node.returns tree).map (fun mark => (mark.1.first, mark.2)) =
      (Node.returns other).map fun mark => (mark.1.first, mark.2) := by
    rw [← List.zip_map', ← List.zip_map']
    exact congrArg₂ List.zip marks flags
  have among : (place.first, true) ∈ (Node.returns tree).map fun mark => (mark.1.first, mark.2) :=
    List.mem_map.2 ⟨_, Node.mem_bareReturns.1 bare, rfl⟩
  rw [both] at among
  obtain ⟨⟨twin, flag⟩, isReturn, same⟩ := List.mem_map.1 among
  obtain ⟨there, rfl⟩ : twin.first = place.first ∧ flag = true := Prod.mk.inj same
  exact ⟨twin, Node.mem_bareReturns.2 isReturn, there⟩

end Sharp.Grammar

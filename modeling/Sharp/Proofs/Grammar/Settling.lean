import Sharp.Proofs.Grammar.Unguarded

/-!
Where bare returns come from. Without a limit, a return goes without a value only because none can
be read behind it. So every tree that comes out then has nothing but such returns in it.
-/
namespace Sharp.Grammar

open Sharp.Grammar.Parser

variable {kinds : Kinds}

namespace Rule

/-- What holds of every success whose calls obey it holds of every success without a limit. Calls
    further on in the row may be taken for what they yield, and any call for what it succeeds
    with. -/
theorem unguarded_induction {inv : (rule : Rule) → Cursor → Parsed rule.Value → Prop}
    (keeps : ∀ (answers : Answers) (rule : Rule) (c : Cursor) (parsed : Parsed rule.Value),
      (∀ rule c, Moved kinds c (answers rule c)) →
      (∀ rule d, kinds.Passes c d → answers rule d = unguarded kinds rule d) →
      (∀ rule c parsed, answers rule c = .ok parsed → unguarded kinds rule c = .ok parsed) →
      (∀ rule c parsed, answers rule c = .ok parsed → inv rule c parsed) →
      (rule.parser kinds.size).eval kinds answers c = .ok parsed → inv rule c parsed)
    {rule : Rule} {c : Cursor} {parsed : Parsed rule.Value}
    (succeeds : unguarded kinds rule c = .ok parsed) : inv rule c parsed := by
  induction heavy : rule.weight kinds c using Nat.strongRecOn generalizing rule c with
  | ind weight ih =>
    -- The calls that are made from here on are lighter; no other answers are needed.
    let answers : Answers := fun inner d =>
      if inner.weight kinds d < weight then unguarded kinds inner d
      else .error ⟨.nestingTooDeep, d⟩
    have lighter {inner : Rule} {d : Cursor} (low : inner.weight kinds d < weight) :
        answers inner d = unguarded kinds inner d := if_pos low
    have moves (inner : Rule) (d : Cursor) : Moved kinds d (answers inner d) := by
      by_cases low : inner.weight kinds d < weight
      · exact lighter low ▸ unguarded_moves inner d
      · simp only [answers, if_neg low]
        exact .refl d
    refine keeps answers rule c parsed moves (fun inner d passes => ?_)
      (fun inner d parsed succeeds => ?_) (fun inner d parsed succeeds => ?_) ?_
    · exact lighter (heavy ▸ weight_lt_of_passes passes)
    · by_cases low : inner.weight kinds d < weight
      · exact lighter low ▸ succeeds
      · simp [answers, if_neg low] at succeeds
    · by_cases low : inner.weight kinds d < weight
      · exact ih _ low (lighter low ▸ succeeds) rfl
      · simp [answers, if_neg low] at succeeds
    · rw [unguarded_eq] at succeeds
      rw [← succeeds]
      exact eval_congr moves (fun inner d low => lighter (heavy ▸ low)) _

end Rule

namespace Parser

variable {answers : Answers} {c d : Cursor} {tree : Tree} {holds : Cursor → Prop}

theorem chained_settles {level : Level} {left right : Cursor → Outcome Tree}
    (first : ∀ c x d, left c = .ok ⟨x, d⟩ → ReturnsBefore holds x)
    (later : ∀ c x d, right c = .ok ⟨x, d⟩ → ReturnsBefore holds x)
    (chained : Chained kinds level left right c tree d) : ReturnsBefore holds tree := by
  obtain ⟨head, m, rest, answered, series, rfl⟩ := chained
  refine ReturnsBefore.chain.2 ⟨first c head m answered, ?_⟩
  refine Series.forall_mem (fun c x d found => ?_) series
  obtain ⟨_, _, answered⟩ := nextOperand_eq_some.1 found
  exact later _ _ _ answered

section Settles

variable (settles : ∀ rule c parsed, answers rule c = .ok parsed →
  ReturnsBefore holds (rule.node parsed.value))

include settles

theorem block_settles (moves : ∀ rule c, Moved kinds c (answers rule c))
    (succeeds : (block kinds.size).eval kinds answers c = .ok ⟨tree, d⟩) :
    ReturnsBefore holds tree := by
  obtain ⟨n, m, first, e, rest, skips, answered, series, rfl⟩ := (block_eq_ok moves).1 succeeds
  refine ReturnsBefore.block.2 (List.forall_mem_cons.2 ⟨settles .statement _ _ answered, ?_⟩)
  refine Series.forall_mem (fun c x d found => ?_) series
  obtain ⟨_, _, _, answered⟩ := nextStatement_eq_some.1 found
  exact settles .statement _ _ answered

/-- Only here can a return go without a value, namely if none can be read. -/
theorem statement_settles
    (without : kinds.kindAt c = .keyword .return →
      ∀ error, answers .expression c.next = .error error → holds c.next)
    (succeeds : statement.eval kinds answers c = .ok ⟨tree, d⟩) : ReturnsBefore holds tree := by
  have succeeds := statement_eq_ok.1 succeeds
  split at succeeds
  · rename_i found
    rcases succeeds with ⟨value, answered, rfl⟩ | ⟨⟨error, fails⟩, rfl, rfl⟩
    · exact ReturnsBefore.returnWith.2 (settles .expression _ _ answered)
    · exact ReturnsBefore.bareReturn.2 (without found error fails)
  · obtain ⟨rfl, rfl⟩ := succeeds
    exact (ReturnsBefore.iff_children rfl).2 (by simp [Node.children])
  · obtain ⟨rfl, rfl⟩ := succeeds
    exact (ReturnsBefore.iff_children rfl).2 (by simp [Node.children])
  · exact settles .expression _ _ succeeds

theorem body_settles {inner : Body Tree}
    (succeeds : body.eval kinds answers c = .ok ⟨inner, d⟩) : ReturnsBefore holds inner.node := by
  have succeeds := body_eq_ok.1 succeeds
  split at succeeds
  · obtain ⟨node, answered, rfl⟩ := succeeds
    exact settles .block _ _ answered
  · obtain ⟨node, answered, rfl⟩ := succeeds
    exact settles .statement _ _ answered

theorem closedBody_settles {inner : Body Tree}
    (succeeds : closedBody.eval kinds answers c = .ok ⟨inner, d⟩) :
    ReturnsBefore holds inner.node := by
  obtain ⟨m, answered, _⟩ := closedBody_eq_ok.1 succeeds
  exact settles .body _ _ answered

theorem expression_settles (moves : ∀ rule c, Moved kinds c (answers rule c))
    (succeeds : (expression kinds.size).eval kinds answers c = .ok ⟨tree, d⟩) :
    ReturnsBefore holds tree := by
  rcases (expression_eq_ok moves).1 succeeds with ⟨_, _, _, _, _, answered, rfl⟩ | ⟨_, chained⟩
  · exact ReturnsBefore.assign.2 (settles .expression _ _ answered)
  · have operand (c : Cursor) (x : Tree) (d : Cursor)
        (answered : answers .comparison c = .ok ⟨x, d⟩) : ReturnsBefore holds x :=
      settles .comparison _ _ answered
    exact chained_settles operand operand chained

theorem comparison_settles (moves : ∀ rule c, Moved kinds c (answers rule c))
    (succeeds : (comparison kinds.size).eval kinds answers c = .ok ⟨tree, d⟩) :
    ReturnsBefore holds tree := by
  rcases (comparison_eq_ok moves).1 succeeds with ⟨_, _, answered, rfl⟩ | ⟨_, chained⟩
  · exact ReturnsBefore.unary.2 (settles .comparison _ _ answered)
  · have operand (c : Cursor) (x : Tree) (d : Cursor) (answered : answers .sum c = .ok ⟨x, d⟩) :
        ReturnsBefore holds x := settles .sum _ _ answered
    exact chained_settles operand operand chained

theorem signed_settles (succeeds : signed.eval kinds answers c = .ok ⟨tree, d⟩) :
    ReturnsBefore holds tree := by
  rcases signed_eq_ok.1 succeeds with ⟨_, _, _, answered, rfl⟩ | ⟨_, answered⟩
  · exact ReturnsBefore.unary.2 (settles .signed _ _ answered)
  · exact settles .power _ _ answered

theorem enclosed_settles (moves : ∀ rule c, Moved kinds c (answers rule c)) {close : Symbol}
    {items : List Tree}
    (succeeds : (enclosed kinds.size close).eval kinds answers c = .ok ⟨items, d⟩) :
    ∀ item ∈ items, ReturnsBefore holds item := by
  rcases (enclosed_eq_ok moves).1 succeeds with
    ⟨_, rfl, _⟩ | ⟨_, first, m, rest, e, answered, series, _, _, rfl⟩
  · simp
  · refine List.forall_mem_cons.2 ⟨settles .expression _ _ answered, ?_⟩
    refine Series.forall_mem (fun c x d found => ?_) series
    obtain ⟨_, answered⟩ := turnIf_eq_some.1 found
    exact settles .expression _ _ answered

theorem application_settles (moves : ∀ rule c, Moved kinds c (answers rule c))
    (succeeds : (application kinds.size).eval kinds answers c = .ok ⟨tree, d⟩) :
    ReturnsBefore holds tree := by
  obtain ⟨callee, m, answered, rest⟩ := application_eq_ok.1 succeeds
  have front : ReturnsBefore holds callee := settles .atom _ _ answered
  rcases rest with ⟨_, args, enclosed, rfl⟩ | ⟨_, rfl, _⟩
  · exact ReturnsBefore.call.2
      (List.forall_mem_cons.2 ⟨front, enclosed_settles settles moves enclosed⟩)
  · exact front

theorem listing_settles (moves : ∀ rule c, Moved kinds c (answers rule c))
    (succeeds : (listing kinds.size).eval kinds answers c = .ok ⟨tree, d⟩) :
    ReturnsBefore holds tree := by
  obtain ⟨_, items, enclosed, rfl⟩ := listing_eq_ok.1 succeeds
  exact ReturnsBefore.list.2 (enclosed_settles settles moves enclosed)

theorem atom_settles (succeeds : atom.eval kinds answers c = .ok ⟨tree, d⟩) :
    ReturnsBefore holds tree := by
  have succeeds := atom_eq_ok.1 succeeds
  split at succeeds
  · obtain ⟨_, answered, _⟩ := succeeds
    exact settles .expression _ _ answered
  · exact settles .listing _ _ succeeds
  · exact settles .conditional _ _ succeeds
  · exact settles .forLoop _ _ succeeds
  · exact settles .whileLoop _ _ succeeds
  · exact settles .function _ _ succeeds
  · obtain ⟨leaf, _⟩ := succeeds
    generalize kinds.kindAt c = kind at leaf
    unfold leafAt at leaf
    split at leaf <;> cases leaf <;>
      exact (ReturnsBefore.iff_children rfl).2 (by simp [Node.children])

theorem clause_settles {word : Keyword} {found : Clause Tree}
    (succeeds : (clause word).eval kinds answers c = .ok ⟨found, d⟩) :
    ReturnsBefore holds found.condition ∧ ReturnsBefore holds found.body.node := by
  obtain ⟨_, m, tested, _, answered⟩ := clause_eq_ok.1 succeeds
  exact ⟨settles .expression _ _ tested, settles .body _ _ answered⟩

theorem conditional_settles (moves : ∀ rule c, Moved kinds c (answers rule c))
    (succeeds : (conditional kinds.size).eval kinds answers c = .ok ⟨tree, d⟩) :
    ReturnsBefore holds tree := by
  obtain ⟨first, m, rest, e, last, opens, series, ends, rfl⟩ := (conditional_eq_ok moves).1 succeeds
  have later : ∀ found ∈ rest,
      ReturnsBefore holds found.condition ∧ ReturnsBefore holds found.body.node := by
    refine Series.forall_mem (fun c x d found => ?_) series
    obtain ⟨_, answered⟩ := turnIf_eq_some.1 found
    exact clause_settles settles answered
  refine ReturnsBefore.ifElse.2 ⟨List.forall_mem_cons.2 ⟨clause_settles settles opens, later⟩, ?_⟩
  rcases otherwise_eq_ok.1 ends with ⟨_, _, rfl, _⟩ | ⟨_, body, answered, rfl⟩ | ⟨_, _, rfl, _⟩
  · simp
  · rintro _ ⟨⟩
    exact settles .closedBody _ _ answered
  · simp

theorem whileLoop_settles (succeeds : whileLoop.eval kinds answers c = .ok ⟨tree, d⟩) :
    ReturnsBefore holds tree := by
  obtain ⟨_, _, _, _, tested, _, answered, rfl⟩ := whileLoop_eq_ok.1 succeeds
  exact ReturnsBefore.whileLoop.2 ⟨settles .expression _ _ tested, settles .closedBody _ _ answered⟩

theorem forLoop_settles (succeeds : forLoop.eval kinds answers c = .ok ⟨tree, d⟩) :
    ReturnsBefore holds tree := by
  obtain ⟨_, _, _, _, _, _, step, _, _, _, _, starts, _, stops, strides, _, answered, rfl⟩ :=
    forLoop_eq_ok.1 succeeds
  have stride : ∀ value ∈ step, ReturnsBefore holds value := by
    rcases stride_eq_ok.1 strides with ⟨_, value, answered, rfl⟩ | ⟨_, rfl, _⟩
    · rintro _ ⟨⟩
      exact settles .expression _ _ answered
    · simp
  exact ReturnsBefore.forLoop.2 ⟨settles .expression _ _ starts, settles .expression _ _ stops,
    stride, settles .closedBody _ _ answered⟩

theorem function_settles (succeeds : (function kinds.size).eval kinds answers c = .ok ⟨tree, d⟩) :
    ReturnsBefore holds tree := by
  obtain ⟨_, _, _, _, _, body, _, _, answered, rfl⟩ := function_eq_ok.1 succeeds
  refine ReturnsBefore.function.2 ?_
  rcases functionBody_eq_ok.1 answered with
    ⟨_, node, inside, rfl⟩ | ⟨_, node, _, inside, _, rfl, _⟩
  · exact settles .expression _ _ inside
  · exact settles .block _ _ inside

theorem parser_settles (moves : ∀ rule c, Moved kinds c (answers rule c)) {rule : Rule}
    (without : rule = .statement → kinds.kindAt c = .keyword .return →
      ∀ error, answers .expression c.next = .error error → holds c.next)
    {parsed : Parsed rule.Value}
    (succeeds : (rule.parser kinds.size).eval kinds answers c = .ok parsed) :
    ReturnsBefore holds (rule.node parsed.value) := by
  cases rule with
  | block => exact block_settles settles moves succeeds
  | statement => exact statement_settles settles (without rfl) succeeds
  | expression => exact expression_settles settles moves succeeds
  | comparison => exact comparison_settles settles moves succeeds
  | sum =>
    have operand (c : Cursor) (x : Tree) (d : Cursor) (answered : answers .product c = .ok ⟨x, d⟩) :
        ReturnsBefore holds x := settles .product _ _ answered
    exact chained_settles operand operand ((sum_eq_ok moves).1 succeeds)
  | product =>
    have operand (c : Cursor) (x : Tree) (d : Cursor) (answered : answers .signed c = .ok ⟨x, d⟩) :
        ReturnsBefore holds x := settles .signed _ _ answered
    exact chained_settles operand operand ((product_eq_ok moves).1 succeeds)
  | signed => exact signed_settles settles succeeds
  | power =>
    have first (c : Cursor) (x : Tree) (d : Cursor)
        (answered : answers .application c = .ok ⟨x, d⟩) : ReturnsBefore holds x :=
      settles .application _ _ answered
    have later (c : Cursor) (x : Tree) (d : Cursor) (answered : answers .signed c = .ok ⟨x, d⟩) :
        ReturnsBefore holds x := settles .signed _ _ answered
    exact chained_settles first later ((power_eq_ok moves).1 succeeds)
  | application => exact application_settles settles moves succeeds
  | atom => exact atom_settles settles succeeds
  | listing => exact listing_settles settles moves succeeds
  | conditional => exact conditional_settles settles moves succeeds
  | forLoop => exact forLoop_settles settles succeeds
  | whileLoop => exact whileLoop_settles settles succeeds
  | function => exact function_settles settles succeeds
  | body => exact body_settles settles succeeds
  | closedBody => exact closedBody_settles settles succeeds

end Settles

end Parser

theorem Rule.settled_of_unguarded {rule : Rule} {c : Cursor} {parsed : Parsed rule.Value}
    (succeeds : unguarded kinds rule c = .ok parsed) : Settled kinds (rule.node parsed.value) := by
  have step := @unguarded_induction kinds fun rule _ parsed =>
    Settled kinds (rule.node parsed.value)
  refine step (fun answers rule c parsed moves faithful _ settles succeeds =>
    parser_settles settles moves (fun _ found error fails => ⟨error, ?_⟩) succeeds) succeeds
  rw [← fails]
  exact (faithful .expression c.next (Kinds.passes_next (by simp [found]))).symm

/-- The guard changes an accepted program exactly where it refuses the value of a return: without
    it the same tree comes out just if none of the bare returns in it could have had a value. -/
theorem parseKinds_unguarded_iff (kinds : Kinds) (limit : Limit) (tree : Tree)
    (accepted : (parseKinds kinds limit .start).1 = .ok tree) :
    (parseKinds kinds none .start).1 = .ok tree ↔
      ∀ place ∈ tree.bareReturns, ∃ error,
        Rule.answer kinds none 0 .expression place.first.next = .error error := by
  constructor
  · intro same
    obtain ⟨_, answered, _⟩ := parseKinds_eq_ok.1 same
    exact Rule.settled_of_unguarded answered
  · intro settled
    obtain ⟨d, answered, finished⟩ := parseKinds_eq_ok.1 accepted
    exact parseKinds_eq_ok.2 ⟨d, Rule.unguarded_of_answer answered settled
      fun _ => finished ▸ rfl, finished⟩

end Sharp.Grammar

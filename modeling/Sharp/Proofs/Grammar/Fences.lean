import Sharp.Proofs.Grammar.Brackets
import Sharp.Proofs.Grammar.Layout
import Sharp.Proofs.Grammar.Soundness
import Sharp.Proofs.Grammar.Yield

/-!
The brackets around a node. Most nodes lie on all the tokens they were read from, and those have
their brackets in pairs. Brackets around an expression leave no trace in its tree, so an operation
lies between its operands only: brackets around the first operand open before it, and brackets
around the second one close behind it.
-/
namespace Sharp

namespace Node

variable {α β : Type}

/-- Whether a node is an operator between two operands. -/
def isOperation : Node α → Bool
  | .binary _ _ _ _ => true
  | _ => false

/-- An operation goes from its first operand to its second one. -/
def SpansOperands (join : α → α → α) : Node α → Prop
  | .binary place _ left right => place = join left.place right.place
  | _ => True

theorem isOperation_map {f : α → β} {node : Node α} :
    (map f node).isOperation = node.isOperation := by
  cases node with
  | ifElse _ _ otherwise => rcases otherwise with _ | ⟨_, _⟩ <;> rfl
  | forLoop _ _ _ _ step _ => cases step <;> rfl
  | returnWith _ value => cases value <;> rfl
  | _ => rfl

theorem spansOperands_of_other {join : α → α → α} {node : Node α}
    (other : node.isOperation = false) : node.SpansOperands join := by
  cases node with
  | binary => cases other
  | _ => trivial

theorem SpansOperands.map {join : α → α → α} {joinToo : β → β → β} {f : α → β} {node : Node α}
    (spans : node.SpansOperands join) (carries : ∀ x y, f (join x y) = joinToo (f x) (f y)) :
    (Node.map f node).SpansOperands joinToo := by
  cases node with
  | binary place op left right =>
    obtain rfl : place = join left.place right.place := spans
    change f _ = joinToo (Node.map f left).place (Node.map f right).place
    rw [carries, place_map, place_map]
  | _ => exact spansOperands_of_other (by rw [isOperation_map]; rfl)

end Node

namespace Grammar

variable {kinds : Kinds} {b c d e m : Cursor} {tree : Tree}

/-- Between two cursors lie a tree, the round brackets its word lacks, and `around` more pairs. Only
    an operation lacks any. -/
structure Fence (kinds : Kinds) (c : Cursor) (tree : Tree) (d : Cursor) (lead trail around : Nat)
    (word : List TokenKind) : Prop where
  before : kinds.Reads c (openRounds (lead + around)) (Node.place tree).first
  inside : kinds.Reads (Node.place tree).first word (Node.place tree).last.next
  behind : kinds.Reads (Node.place tree).last.next (closeRounds (trail + around)) d
  lacks : Lacks lead trail word
  whole : Node.isOperation tree = false → lead = 0 ∧ trail = 0
  spans : Node.SpansOperands Extent.join tree

def Fenced (kinds : Kinds) (c : Cursor) (tree : Tree) (d : Cursor) : Prop :=
  ∃ lead trail around word, Fence kinds c tree d lead trail around word

/-- All nodes of a tree are fenced but for the blocks, which go on to the token behind them. -/
def AllFenced (kinds : Kinds) (tree : Tree) : Prop :=
  ∀ node ∈ Node.nodes tree, ¬ Node.IsBlock node → ∃ b e, Fenced kinds b node e

/-- The tree of an expression between two cursors. -/
structure Hedged (kinds : Kinds) (c : Cursor) (tree : Tree) (d : Cursor) : Prop where
  fenced : Fenced kinds c tree d
  allFenced : AllFenced kinds tree

theorem allFenced_of_children (self : ¬ Node.IsBlock tree → ∃ b e, Fenced kinds b tree e)
    (below : ∀ child ∈ Node.children tree, AllFenced kinds child) : AllFenced kinds tree := by
  rw [AllFenced, Node.nodes_eq]
  exact List.forall_mem_cons.2 ⟨self, List.forall_mem_flatMap.2 below⟩

theorem Fenced.hedged (fenced : Fenced kinds c tree d)
    (below : ∀ child ∈ Node.children tree, AllFenced kinds child) : Hedged kinds c tree d :=
  ⟨fenced, allFenced_of_children (fun _ => ⟨c, d, fenced⟩) below⟩

theorem upTo_next (c : Cursor) : Extent.upTo c c.next = .token c :=
  upTo_of_lt (Nat.lt_succ_self c.index)

/-- A node on all tokens that were read for it. -/
theorem Hedged.spanning {phrase : Phrase} (other : Node.isOperation tree = false)
    (place : Node.place tree = .upTo c d) (passes : kinds.Passes c d)
    (spells : Spells kinds c phrase d)
    (below : ∀ child ∈ Node.children tree, AllFenced kinds child) : Hedged kinds c tree d := by
  obtain ⟨word, reads, derived⟩ := spells
  have ahead := passes.index_lt
  have last : d.prev.next = d := congrArg Cursor.mk (Nat.sub_add_cancel (Nat.zero_lt_of_lt ahead))
  rw [upTo_of_lt ahead] at place
  refine Fenced.hedged ⟨0, 0, 0, word, ?_⟩ below
  constructor
  · rw [place]
    rfl
  · rwa [place, last]
  · rw [place, last]
    rfl
  · exact derived.neutral.lacks
  · exact fun _ => ⟨rfl, rfl⟩
  · exact Node.spansOperands_of_other other

/-- A pair of brackets around an expression. -/
theorem Hedged.bracketed (inner : Hedged kinds c.next tree d)
    (opened : kinds.kindAt c = .symbol .openRound) (closed : kinds.kindAt d = .symbol .closeRound) :
    Hedged kinds c tree d.next := by
  obtain ⟨⟨lead, trail, around, word, fence⟩, below⟩ := inner
  refine ⟨⟨lead, trail, around + 1, word, { fence with before := ?_, behind := ?_ }⟩, below⟩
  · exact .cons opened (by simp) fence.before
  · rw [← Nat.add_assoc, closeRounds, List.replicate_succ']
    exact fence.behind.append (.single closed (by simp))

/-- Operands with an operator in between. -/
theorem Hedged.attach {op : BinaryOp} {left right : Tree} (first : Hedged kinds c left m)
    (sign : kinds.kindAt m = op.token) (second : Hedged kinds m.next right d) :
    Hedged kinds c (Parser.attach left (op, right)) d := by
  obtain ⟨⟨leadLeft, trailLeft, aroundLeft, front, one⟩, belowLeft⟩ := first
  obtain ⟨⟨leadRight, trailRight, aroundRight, back, other⟩, belowRight⟩ := second
  have inside := (one.inside.append one.behind).append
    (.cons sign (Parser.ne_eof_token op) (other.before.append other.inside))
  have lacks := one.lacks.operation other.lacks op aroundLeft aroundRight
  refine Fenced.hedged ⟨_, _, 0, _, one.before, inside, other.behind, lacks, nofun, rfl⟩ ?_
  simp only [Parser.attach, Node.children, List.forall_mem_cons]
  exact ⟨belowLeft, belowRight, by simp⟩

/-- Rules whose trees are expressions or statements; the others may yield blocks. -/
def Rule.yieldsBlocks : Rule → Bool
  | .block | .body | .closedBody => true
  | _ => false

/-- The tree of a rule is fenced, and so are the nodes in it. That the brackets come in pairs where
    a node lies on all its tokens is due to the grammar. -/
structure Rule.Hedges (kinds : Kinds) (rule : Rule) (c : Cursor) (parsed : Parsed rule.Value) :
    Prop where
  spells : Spells kinds c (rule.phrase parsed.value) parsed.cursor
  allFenced : AllFenced kinds (rule.node parsed.value)
  fenced : rule.yieldsBlocks = false → Fenced kinds c (rule.node parsed.value) parsed.cursor

theorem Rule.Hedges.hedged {rule : Rule} {parsed : Parsed rule.Value}
    (hedges : Rule.Hedges kinds rule c parsed) (noBlock : rule.yieldsBlocks = false) :
    Hedged kinds c (rule.node parsed.value) parsed.cursor :=
  ⟨hedges.fenced noBlock, hedges.allFenced⟩

namespace Parser

variable {answers : Answers}

theorem chained_hedged {level : Level} {left right : Cursor → Outcome Tree}
    (first : ∀ c x d, left c = .ok ⟨x, d⟩ → Hedged kinds c x d)
    (later : ∀ c x d, right c = .ok ⟨x, d⟩ → Hedged kinds c x d)
    (chained : Chained kinds level left right c tree d) : Hedged kinds c tree d := by
  obtain ⟨head, m, rest, answered, series, rfl⟩ := chained
  have begun := first c head m answered
  clear answered
  induction rest generalizing head m with
  | nil =>
    obtain ⟨_, rfl⟩ := nextOperand_eq_none.1 series
    exact begun
  | cons operand rest ih =>
    obtain ⟨op, operand⟩ := operand
    obtain ⟨e, found, series⟩ := series
    obtain ⟨sign, _, answered⟩ := nextOperand_eq_some.1 found
    exact ih _ e series (begun.attach sign (later _ _ _ answered))

section Rules

variable (hedges : ∀ rule c parsed, answers rule c = .ok parsed → Rule.Hedges kinds rule c parsed)

include hedges

theorem block_allFenced (moves : ∀ rule c, Moved kinds c (answers rule c))
    (succeeds : (block kinds.size).eval kinds answers c = .ok ⟨tree, d⟩) :
    AllFenced kinds tree := by
  obtain ⟨_, m, first, e, rest, _, answered, series, rfl⟩ := (block_eq_ok moves).1 succeeds
  have head : AllFenced kinds first := (hedges .statement _ _ answered).allFenced
  refine allFenced_of_children (fun other => absurd ⟨_, first, rest, rfl⟩ other) ?_
  refine List.forall_mem_cons.2 ⟨head, ?_⟩
  refine series.forall_mem fun c next d found => ?_
  obtain ⟨_, s, _, answered⟩ := nextStatement_eq_some.1 found
  exact (hedges .statement _ _ answered).allFenced

theorem statement_hedged {phrase : Phrase} (passes : kinds.Passes c d)
    (spells : Spells kinds c phrase d)
    (succeeds : statement.eval kinds answers c = .ok ⟨tree, d⟩) : Hedged kinds c tree d := by
  have succeeds := statement_eq_ok.1 succeeds
  split at succeeds
  · rcases succeeds with ⟨value, answered, rfl⟩ | ⟨_, rfl, rfl⟩
    · have inner : AllFenced kinds value := (hedges .expression _ _ answered).allFenced
      exact .spanning rfl rfl passes spells (by simpa [Node.children] using inner)
    · exact .spanning rfl (upTo_next c).symm passes spells (by simp [Node.children])
  · obtain ⟨rfl, rfl⟩ := succeeds
    exact .spanning rfl (upTo_next c).symm passes spells (by simp [Node.children])
  · obtain ⟨rfl, rfl⟩ := succeeds
    exact .spanning rfl (upTo_next c).symm passes spells (by simp [Node.children])
  · exact (hedges .expression _ _ succeeds).hedged rfl

theorem body_allFenced {inner : Body Tree}
    (succeeds : body.eval kinds answers c = .ok ⟨inner, d⟩) : AllFenced kinds inner.node := by
  have succeeds := body_eq_ok.1 succeeds
  split at succeeds <;> obtain ⟨node, answered, rfl⟩ := succeeds
  · exact (hedges .block _ _ answered).allFenced
  · exact (hedges .statement _ _ answered).allFenced

theorem closedBody_allFenced {inner : Body Tree}
    (succeeds : closedBody.eval kinds answers c = .ok ⟨inner, d⟩) : AllFenced kinds inner.node := by
  obtain ⟨m, answered, _⟩ := closedBody_eq_ok.1 succeeds
  exact (hedges .body _ _ answered).allFenced

theorem expression_hedged (moves : ∀ rule c, Moved kinds c (answers rule c)) {phrase : Phrase}
    (passes : kinds.Passes c d) (spells : Spells kinds c phrase d)
    (succeeds : (expression kinds.size).eval kinds answers c = .ok ⟨tree, d⟩) :
    Hedged kinds c tree d := by
  rcases (expression_eq_ok moves).1 succeeds with
    ⟨_, name, value, _, _, answered, rfl⟩ | ⟨_, chained⟩
  · have inner : AllFenced kinds value := (hedges .expression _ _ answered).allFenced
    exact .spanning rfl rfl passes spells (by simpa [Node.children] using inner)
  · exact chained_hedged (fun c _ _ answered => (hedges .comparison c _ answered).hedged rfl)
      (fun c _ _ answered => (hedges .comparison c _ answered).hedged rfl) chained

theorem comparison_hedged (moves : ∀ rule c, Moved kinds c (answers rule c)) {phrase : Phrase}
    (passes : kinds.Passes c d) (spells : Spells kinds c phrase d)
    (succeeds : (comparison kinds.size).eval kinds answers c = .ok ⟨tree, d⟩) :
    Hedged kinds c tree d := by
  rcases (comparison_eq_ok moves).1 succeeds with ⟨_, operand, answered, rfl⟩ | ⟨_, chained⟩
  · have inner : AllFenced kinds operand := (hedges .comparison _ _ answered).allFenced
    exact .spanning rfl rfl passes spells (by simpa [Node.children] using inner)
  · exact chained_hedged (fun c _ _ answered => (hedges .sum c _ answered).hedged rfl)
      (fun c _ _ answered => (hedges .sum c _ answered).hedged rfl) chained

theorem signed_hedged {phrase : Phrase} (passes : kinds.Passes c d)
    (spells : Spells kinds c phrase d)
    (succeeds : signed.eval kinds answers c = .ok ⟨tree, d⟩) : Hedged kinds c tree d := by
  rcases signed_eq_ok.1 succeeds with ⟨op, operand, _, answered, rfl⟩ | ⟨_, answered⟩
  · have inner : AllFenced kinds operand := (hedges .signed _ _ answered).allFenced
    exact .spanning rfl rfl passes spells (by simpa [Node.children] using inner)
  · exact (hedges .power _ _ answered).hedged rfl

theorem enclosed_allFenced (moves : ∀ rule c, Moved kinds c (answers rule c)) {close : Symbol}
    {items : List Tree}
    (succeeds : (enclosed kinds.size close).eval kinds answers c = .ok ⟨items, d⟩) :
    ∀ item ∈ items, AllFenced kinds item := by
  rcases (enclosed_eq_ok moves).1 succeeds with
    ⟨_, rfl, _⟩ | ⟨_, first, m, rest, e, answered, series, _, _, rfl⟩
  · simp
  · have head : AllFenced kinds first := (hedges .expression _ _ answered).allFenced
    refine List.forall_mem_cons.2 ⟨head, series.forall_mem fun c item d found => ?_⟩
    exact (hedges .expression _ _ (turnIf_eq_some.1 found).2).allFenced

theorem application_hedged (moves : ∀ rule c, Moved kinds c (answers rule c)) {phrase : Phrase}
    (passes : kinds.Passes c d) (spells : Spells kinds c phrase d)
    (succeeds : (application kinds.size).eval kinds answers c = .ok ⟨tree, d⟩) :
    Hedged kinds c tree d := by
  obtain ⟨callee, m, answered, rest⟩ := application_eq_ok.1 succeeds
  have front := hedges .atom _ _ answered
  rcases rest with ⟨_, args, enclosed, rfl⟩ | ⟨_, rfl, rfl⟩
  · exact .spanning rfl rfl passes spells
      (List.forall_mem_cons.2 ⟨front.allFenced, enclosed_allFenced hedges moves enclosed⟩)
  · exact front.hedged rfl

theorem listing_hedged (moves : ∀ rule c, Moved kinds c (answers rule c)) {phrase : Phrase}
    (passes : kinds.Passes c d) (spells : Spells kinds c phrase d)
    (succeeds : (listing kinds.size).eval kinds answers c = .ok ⟨tree, d⟩) :
    Hedged kinds c tree d := by
  obtain ⟨_, items, enclosed, rfl⟩ := listing_eq_ok.1 succeeds
  exact .spanning rfl rfl passes spells (enclosed_allFenced hedges moves enclosed)

theorem atom_hedged {phrase : Phrase} (passes : kinds.Passes c d)
    (spells : Spells kinds c phrase d) (succeeds : atom.eval kinds answers c = .ok ⟨tree, d⟩) :
    Hedged kinds c tree d := by
  have succeeds := atom_eq_ok.1 succeeds
  split at succeeds
  · rename_i opened
    obtain ⟨m, answered, closed, rfl⟩ := succeeds
    have inner : Hedged kinds c.next tree m := (hedges .expression _ _ answered).hedged rfl
    exact inner.bracketed opened closed
  · exact (hedges .listing _ _ succeeds).hedged rfl
  · exact (hedges .conditional _ _ succeeds).hedged rfl
  · exact (hedges .forLoop _ _ succeeds).hedged rfl
  · exact (hedges .whileLoop _ _ succeeds).hedged rfl
  · exact (hedges .function _ _ succeeds).hedged rfl
  · obtain ⟨leaf, rfl⟩ := succeeds
    generalize kinds.kindAt c = kind at leaf
    unfold leafAt at leaf
    split at leaf <;> cases leaf <;>
      exact .spanning rfl (upTo_next c).symm passes spells (by simp [Node.children])

theorem clause_allFenced {word : Keyword} {found : Clause Tree}
    (succeeds : (clause word).eval kinds answers c = .ok ⟨found, d⟩) :
    ∀ child ∈ [found.condition, found.body.node], AllFenced kinds child := by
  obtain ⟨_, m, tested, _, answered⟩ := clause_eq_ok.1 succeeds
  have front : AllFenced kinds found.condition := (hedges .expression _ _ tested).allFenced
  have back : AllFenced kinds found.body.node := (hedges .body _ _ answered).allFenced
  simpa using ⟨front, back⟩

theorem conditional_hedged (moves : ∀ rule c, Moved kinds c (answers rule c)) {phrase : Phrase}
    (passes : kinds.Passes c d) (spells : Spells kinds c phrase d)
    (succeeds : (conditional kinds.size).eval kinds answers c = .ok ⟨tree, d⟩) :
    Hedged kinds c tree d := by
  obtain ⟨first, m, rest, e, last, opens, series, ends, rfl⟩ := (conditional_eq_ok moves).1 succeeds
  have further : ∀ found ∈ rest, ∀ child ∈ [found.condition, found.body.node],
      AllFenced kinds child :=
    series.forall_mem fun c found d answered =>
      clause_allFenced hedges (turnIf_eq_some.1 answered).2
  have clauses := List.forall_mem_cons.2 ⟨clause_allFenced hedges opens, further⟩
  refine .spanning rfl rfl passes spells ?_
  rw [Node.children, List.forall_mem_append, List.forall_mem_flatMap]
  refine ⟨clauses, ?_⟩
  rcases otherwise_eq_ok.1 ends with ⟨_, _, rfl, _⟩ | ⟨_, body, answered, rfl⟩ | ⟨_, _, rfl, _⟩
  · simp
  · have final : AllFenced kinds body.node := (hedges .closedBody _ _ answered).allFenced
    simpa using final
  · simp

theorem whileLoop_hedged {phrase : Phrase} (passes : kinds.Passes c d)
    (spells : Spells kinds c phrase d)
    (succeeds : whileLoop.eval kinds answers c = .ok ⟨tree, d⟩) : Hedged kinds c tree d := by
  obtain ⟨_, condition, m, body, tested, _, answered, rfl⟩ := whileLoop_eq_ok.1 succeeds
  have front : AllFenced kinds condition := (hedges .expression _ _ tested).allFenced
  have back : AllFenced kinds body.node := (hedges .closedBody _ _ answered).allFenced
  exact .spanning rfl rfl passes spells (by simpa [Node.children] using ⟨front, back⟩)

theorem forLoop_hedged {phrase : Phrase} (passes : kinds.Passes c d)
    (spells : Spells kinds c phrase d)
    (succeeds : forLoop.eval kinds answers c = .ok ⟨tree, d⟩) : Hedged kinds c tree d := by
  obtain ⟨_, name, lower, m, upper, e, step, g, body, _, _, starts, _, stops, strides, _,
    answered, rfl⟩ := forLoop_eq_ok.1 succeeds
  have low : AllFenced kinds lower := (hedges .expression _ _ starts).allFenced
  have high : AllFenced kinds upper := (hedges .expression _ _ stops).allFenced
  have inner : AllFenced kinds body.node := (hedges .closedBody _ _ answered).allFenced
  have stride : ∀ child ∈ step.toList, AllFenced kinds child := by
    rcases stride_eq_ok.1 strides with ⟨_, value, answered, rfl⟩ | ⟨_, rfl, _⟩
    · have value : AllFenced kinds value := (hedges .expression _ _ answered).allFenced
      simpa using value
    · simp
  refine .spanning rfl rfl passes spells ?_
  simp only [Node.children, List.forall_mem_cons, List.forall_mem_append]
  exact ⟨low, high, stride, inner, by simp⟩

theorem function_hedged {phrase : Phrase} (passes : kinds.Passes c d)
    (spells : Spells kinds c phrase d)
    (succeeds : (function kinds.size).eval kinds answers c = .ok ⟨tree, d⟩) :
    Hedged kinds c tree d := by
  obtain ⟨_, title, m, params, e, body, _, _, answered, rfl⟩ := function_eq_ok.1 succeeds
  have inner : AllFenced kinds body.node := by
    rcases functionBody_eq_ok.1 answered with
      ⟨_, node, inside, rfl⟩ | ⟨_, node, g, inside, _, rfl, rfl⟩
    · exact (hedges .expression _ _ inside).allFenced
    · exact (hedges .block _ _ inside).allFenced
  exact .spanning rfl rfl passes spells (by simpa [Node.children] using inner)

theorem parser_hedges (moves : ∀ rule c, Moved kinds c (answers rule c)) {rule : Rule}
    {parsed : Parsed rule.Value}
    (succeeds : (rule.parser kinds.size).eval kinds answers c = .ok parsed) :
    Rule.Hedges kinds rule c parsed := by
  have passes : kinds.Passes c parsed.cursor := by
    have moved := rule.eval_moves moves kinds.size c
    rwa [succeeds] at moved
  have spells := parser_spells moves (fun rule c parsed ok => (hedges rule c parsed ok).spells)
    succeeds
  have hedged (hedged : Hedged kinds c (rule.node parsed.value) parsed.cursor) :
      Rule.Hedges kinds rule c parsed := ⟨spells, hedged.allFenced, fun _ => hedged.fenced⟩
  cases rule with
  | block => exact ⟨spells, block_allFenced hedges moves succeeds, nofun⟩
  | statement => exact hedged (statement_hedged hedges passes spells succeeds)
  | expression => exact hedged (expression_hedged hedges moves passes spells succeeds)
  | comparison => exact hedged (comparison_hedged hedges moves passes spells succeeds)
  | sum =>
    exact hedged (chained_hedged (fun c _ _ answered => (hedges .product c _ answered).hedged rfl)
      (fun c _ _ answered => (hedges .product c _ answered).hedged rfl)
      ((sum_eq_ok moves).1 succeeds))
  | product =>
    exact hedged (chained_hedged (fun c _ _ answered => (hedges .signed c _ answered).hedged rfl)
      (fun c _ _ answered => (hedges .signed c _ answered).hedged rfl)
      ((product_eq_ok moves).1 succeeds))
  | signed => exact hedged (signed_hedged hedges passes spells succeeds)
  | power =>
    exact hedged (chained_hedged
      (fun c _ _ answered => (hedges .application c _ answered).hedged rfl)
      (fun c _ _ answered => (hedges .signed c _ answered).hedged rfl)
      ((power_eq_ok moves).1 succeeds))
  | application => exact hedged (application_hedged hedges moves passes spells succeeds)
  | atom => exact hedged (atom_hedged hedges passes spells succeeds)
  | listing => exact hedged (listing_hedged hedges moves passes spells succeeds)
  | conditional => exact hedged (conditional_hedged hedges moves passes spells succeeds)
  | forLoop => exact hedged (forLoop_hedged hedges passes spells succeeds)
  | whileLoop => exact hedged (whileLoop_hedged hedges passes spells succeeds)
  | function => exact hedged (function_hedged hedges passes spells succeeds)
  | body => exact ⟨spells, body_allFenced hedges succeeds, nofun⟩
  | closedBody => exact ⟨spells, closedBody_allFenced hedges succeeds, nofun⟩

end Rules

end Parser

theorem Rule.answer_hedges {limit : Limit} {depth : Nat} {rule : Rule} {parsed : Parsed rule.Value}
    (succeeds : Rule.answer kinds limit depth rule c = .ok parsed) :
    Rule.Hedges kinds rule c parsed :=
  Rule.answer_induction (fun _ _ _ _ moves hedges => Parser.parser_hedges hedges moves) succeeds

/-- All nodes of a program that are no blocks are fenced. -/
theorem parseKinds_allFenced {limit : Limit} {tree : Tree}
    (accepted : (parseKinds kinds limit .start).1 = .ok tree) : AllFenced kinds tree := by
  obtain ⟨d, answered, _⟩ := parseKinds_eq_ok.1 accepted
  exact (Rule.answer_hedges answered).allFenced

end Grammar

end Sharp

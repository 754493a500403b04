import Sharp.Proofs.Grammar.Acceptance
import Sharp.Proofs.Grammar.Layout

/-!
What stands behind a return without a value. Whoever goes on from there may take an expression's
first token only as an operator or for the brackets of a call, and of the operators only the signs
start an expression. What is known of the value that was tried there is handed on with the return,
up to where a sign behind it is taken.
-/
namespace Sharp.Grammar

variable {kinds : Kinds} {c d e m : Cursor}

def isSign (kind : TokenKind) : Bool := (UnaryOp.sign? kind).isSome

/-- Of all operators only the signs can start an expression. -/
theorem level_of_startsExpression {op : BinaryOp} (starts : startsExpression op.token = true) :
    op.level = .additive ∧ isSign op.token = true := by
  cases op <;> first | exact ⟨rfl, rfl⟩ | cases starts

/-- What is called ends with the token at a cursor, and behind it stand the brackets. -/
def EndsCallee (kinds : Kinds) (tree : Tree) (c : Cursor) : Prop :=
  kinds.kindAt c.next = .symbol .openRound ∧ ∃ extent callee args,
    Node.call extent callee args ∈ Node.nodes tree ∧ (Node.place callee).last = c

/-- Behind a return at a cursor no expression starts, or the token there serves otherwise. -/
def Clear (kinds : Kinds) (pending : Cursor → Prop) (tree : Tree) (c : Cursor) : Prop :=
  startsExpression (kinds.kindAt c.next) = false ∨ EndsCallee kinds tree c ∨ pending c.next

def Cleared (kinds : Kinds) (pending : Cursor → Prop) (tree : Tree) : Prop :=
  ∀ place ∈ Node.bareReturns tree, Clear kinds pending tree place.first

/-- A return that ends the tree has yet to meet what stands behind it. -/
def Trails (kinds : Kinds) (pending : Cursor → Prop) (tree : Tree) (d : Cursor) : Prop :=
  ∀ place ∈ Node.bareReturns tree, place.first.next = d ∨ Clear kinds pending tree place.first

theorem ReturnsBefore.always (tree : Tree) : ReturnsBefore (fun _ => True) tree :=
  fun _ _ => trivial

section Trees

variable {pending weaker : Cursor → Prop} {tree child : Tree} {trees : List Tree}

theorem Clear.up (clear : Clear kinds pending child c) (weaken : ∀ m, pending m → weaker m)
    (below : Node.nodes child ⊆ Node.nodes tree) : Clear kinds weaker tree c := by
  rcases clear with other | ⟨opening, extent, callee, args, among, last⟩ | waits
  · exact .inl other
  · exact .inr (.inl ⟨opening, extent, callee, args, below among, last⟩)
  · exact .inr (.inr (weaken _ waits))

theorem nodes_subset (isChild : child ∈ Node.children tree) :
    Node.nodes child ⊆ Node.nodes tree := by
  intro node among
  rw [Node.nodes_eq tree]
  exact List.mem_cons_of_mem _ (List.mem_flatMap.2 ⟨child, isChild, among⟩)

theorem exists_child (own : Node.ownBareReturns tree = []) {place : Extent}
    (bare : place ∈ Node.bareReturns tree) :
    ∃ child ∈ Node.children tree, place ∈ Node.bareReturns child := by
  rw [Node.bareReturns_eq, own, List.nil_append] at bare
  exact List.mem_flatMap.1 bare

theorem mem_nodes_of_bareReturn {place : Extent} (bare : place ∈ Node.bareReturns tree) :
    Node.returnWith place none ∈ Node.nodes tree := by
  obtain ⟨node, among, own⟩ := List.mem_flatMap.1 bare
  unfold Node.ownBareReturns at own
  split at own
  · exact List.mem_singleton.1 own ▸ among
  · simp at own

/-- Nothing of a tree lies behind a return that ends it. -/
theorem Laid.last_of_bareReturn (laid : Laid kinds c tree d) {place : Extent}
    (bare : place ∈ Node.bareReturns tree) (ends : place.first.next = d) :
    (Node.place tree).last = place.first := by
  have among := mem_nodes_of_bareReturn bare
  have order : place.first.index ≤ place.last.index := (laid.tidy _ among).inOrder
  have below : place.last.index ≤ (Node.place tree).last.index :=
    (within_of_tidy laid.tidy _ among).2
  have stops := laid.stops
  rw [← ends, Cursor.next_index] at stops
  have same : (Node.place tree).last.index = place.first.index := by omega
  exact congrArg Cursor.mk same

theorem Cleared.trails (cleared : Cleared kinds pending tree) (d : Cursor) :
    Trails kinds pending tree d :=
  fun place bare => .inr (cleared place bare)

/-- No expression starts with the token the tree stops at. -/
theorem Trails.cleared (trails : Trails kinds pending tree d)
    (other : startsExpression (kinds.kindAt d) = false) : Cleared kinds pending tree := by
  intro place bare
  rcases trails place bare with rfl | clear
  · exact .inl other
  · exact clear

theorem Trails.carry (trails : Trails kinds pending tree e)
    (next : d = e ∨ startsExpression (kinds.kindAt e) = false) : Trails kinds pending tree d := by
  rcases next with rfl | other
  · exact trails
  · exact (trails.cleared other).trails d

theorem Trails.of_children (own : Node.ownBareReturns tree = [])
    (below : ∀ child ∈ Node.children tree, Trails kinds pending child d) :
    Trails kinds pending tree d := by
  intro place bare
  obtain ⟨child, isChild, bare⟩ := exists_child own bare
  rcases below child isChild place bare with same | clear
  · exact .inl same
  · exact .inr (clear.up (fun _ waits => waits) (nodes_subset isChild))

theorem Cleared.of_children (own : Node.ownBareReturns tree = [])
    (below : ∀ child ∈ Node.children tree, Cleared kinds pending child) :
    Cleared kinds pending tree := by
  intro place bare
  obtain ⟨child, isChild, bare⟩ := exists_child own bare
  exact (below child isChild place bare).up (fun _ waits => waits) (nodes_subset isChild)

end Trees

namespace Parser

variable {answers : Answers} {tree : Tree}

section Chains

variable {level : Level} {left right : Cursor → Outcome Tree} {rest : List (BinaryOp × Tree)}
  {head : Tree} {place : Extent}

theorem children_attach (left : Tree) (operand : BinaryOp × Tree) :
    Node.children (attach left operand) = [left, operand.2] := rfl

theorem nodes_chain (head : Tree) (rest : List (BinaryOp × Tree)) :
    Node.nodes head ⊆ Node.nodes (rest.foldl attach head) := by
  induction rest generalizing head with
  | nil => exact List.Subset.refl _
  | cons operand rest ih =>
    exact List.Subset.trans (nodes_subset (by simp [children_attach])) (ih _)

/-- A return in a chain stands in one of its operands, and the chain goes on behind that one. -/
theorem series_bareReturn (series : Series (nextOperand kinds level right) m rest d)
    (bare : place ∈ Node.bareReturns (rest.foldl attach head)) :
    place ∈ Node.bareReturns head ∨ ∃ b x e later, right b = .ok ⟨x, e⟩ ∧
      place ∈ Node.bareReturns x ∧ Node.nodes x ⊆ Node.nodes (rest.foldl attach head) ∧
      Series (nextOperand kinds level right) e later d := by
  induction rest generalizing head m with
  | nil => exact .inl bare
  | cons operand rest ih =>
    obtain ⟨op, x⟩ := operand
    obtain ⟨e, found, series⟩ := series
    obtain ⟨_, _, answered⟩ := nextOperand_eq_some.1 found
    rcases ih series bare with inside | deeper
    · obtain ⟨child, isChild, within⟩ := exists_child rfl inside
      rw [children_attach, List.mem_pair] at isChild
      rcases isChild with rfl | rfl
      · exact .inl within
      · have below : Node.nodes child ⊆ Node.nodes (attach head (op, child)) :=
          nodes_subset (by simp [children_attach])
        exact .inr ⟨_, child, e, rest, answered, within,
          List.Subset.trans below (nodes_chain _ rest), series⟩
    · exact .inr deeper

/-- Whichever operand a return stands in, the chain behind it decides what becomes of it. -/
theorem operand_trails (own : Cursor → Prop) (before after : Cursor → Cursor → Prop)
    {operand whole : Tree} (trails : Trails kinds (before · e) operand e)
    (owned : ReturnsBefore own operand) (bare : place ∈ Node.bareReturns operand)
    (series : Series (nextOperand kinds level right) e rest d)
    (below : Node.nodes operand ⊆ Node.nodes whole) (passes : ∀ m, before m e → after m d)
    (turns : level = .additive → ∀ m x e rest, own m → isSign (kinds.kindAt m) = true →
      right m.next = .ok ⟨x, e⟩ → Series (nextOperand kinds level right) e rest d → after m d) :
    place.first.next = d ∨ Clear kinds (after · d) whole place.first := by
  rcases trails place bare with rfl | clear
  · cases rest with
    | nil => exact .inl (nextOperand_eq_none.1 series).2.symm
    | cons following rest =>
      obtain ⟨op, x⟩ := following
      obtain ⟨e, found, series⟩ := series
      obtain ⟨here, same, answered⟩ := nextOperand_eq_some.1 found
      cases starts : startsExpression op.token with
      | false => exact .inr (.inl (here ▸ starts))
      | true =>
        obtain ⟨additive, sign⟩ := level_of_startsExpression starts
        have turned := turns (same ▸ additive) _ x e rest (owned place bare) (here ▸ sign) answered
          series
        exact .inr (.inr (.inr turned))
  · exact .inr (clear.up passes below)

theorem chained_trails (own : Cursor → Prop) (before after : Cursor → Cursor → Prop)
    (chained : Chained kinds level left right c tree d)
    (first : ∀ c x e, left c = .ok ⟨x, e⟩ → Trails kinds (before · e) x e ∧ ReturnsBefore own x)
    (later : ∀ c x e, right c = .ok ⟨x, e⟩ → Trails kinds (before · e) x e ∧ ReturnsBefore own x)
    (passes : ∀ m e rest, before m e → Series (nextOperand kinds level right) e rest d → after m d)
    (turns : level = .additive → ∀ m x e rest, own m → isSign (kinds.kindAt m) = true →
      right m.next = .ok ⟨x, e⟩ → Series (nextOperand kinds level right) e rest d → after m d) :
    Trails kinds (after · d) tree d := by
  obtain ⟨head, m, rest, answered, series, rfl⟩ := chained
  intro place bare
  rcases series_bareReturn series bare with inside | ⟨b, x, e, _, found, bare, below, series⟩
  · obtain ⟨trails, owned⟩ := first c head m answered
    exact operand_trails own before after trails owned inside series (nodes_chain _ _)
      (fun b waits => passes b m rest waits series) turns
  · obtain ⟨trails, owned⟩ := later b x e found
    exact operand_trails own before after trails owned bare series below
      (fun b waits => passes b e _ waits series) turns

end Chains

end Parser

/-- What may become of a sign behind a return once a rule has gone on to a cursor: it was taken, or
    it leads up to that cursor and waits for the operators of the rules further out. -/
def Rule.waits (taken : Cursor → Prop) (carries : Level → Cursor → Cursor → Prop) :
    Rule → Cursor → Cursor → Prop
  | .sum, d, m => taken m ∨ carries .additive m d
  | .comparison, d, m => taken m ∨ carries .comparison m d
  | _, _, m => taken m

namespace Parser

variable {answers : Answers} {tree : Tree}

section Rules

variable {taken : Cursor → Prop} {carries : Level → Cursor → Cursor → Prop}
  (trails : ∀ rule c parsed, answers rule c = .ok parsed →
    Trails kinds (rule.waits taken carries parsed.cursor) (rule.node parsed.value) parsed.cursor)

include trails

theorem statements_trail {trees : List Tree}
    (series : Series (nextStatement kinds answers) c trees d) :
    (d = c ∨ startsExpression (kinds.kindAt c) = false) ∧
      ∀ tree ∈ trees, Trails kinds taken tree d := by
  have separator {c m : Cursor} {n : Nat} (skips : Skips kinds c (n + 1) m) :
      startsExpression (kinds.kindAt c) = false := by
    have reads := skips.1
    rw [List.replicate_succ] at reads
    rw [reads.1]
    rfl
  induction trees generalizing c with
  | nil =>
    refine ⟨?_, by simp⟩
    obtain ⟨_ | n, skips, _⟩ := nextStatement_eq_none.1 series
    · exact .inl skips.1
    · exact .inr (separator skips)
  | cons tree trees ih =>
    obtain ⟨e, found, series⟩ := series
    obtain ⟨n, m, skips, answered⟩ := nextStatement_eq_some.1 found
    obtain ⟨next, later⟩ := ih series
    have first : Trails kinds taken tree e := trails .statement _ _ answered
    exact ⟨.inr (separator skips), List.forall_mem_cons.2 ⟨first.carry next, later⟩⟩

theorem block_trails (moves : ∀ rule c, Moved kinds c (answers rule c))
    (succeeds : (block kinds.size).eval kinds answers c = .ok ⟨tree, d⟩) :
    Trails kinds taken tree d := by
  obtain ⟨n, m, first, e, rest, skips, answered, series, rfl⟩ := (block_eq_ok moves).1 succeeds
  obtain ⟨next, later⟩ := statements_trail trails series
  have head : Trails kinds taken first e := trails .statement _ _ answered
  exact .of_children rfl (List.forall_mem_cons.2 ⟨head.carry next, later⟩)

theorem statement_trails (succeeds : statement.eval kinds answers c = .ok ⟨tree, d⟩) :
    Trails kinds taken tree d := by
  have succeeds := statement_eq_ok.1 succeeds
  split at succeeds
  · rcases succeeds with ⟨value, answered, rfl⟩ | ⟨_, rfl, rfl⟩
    · exact .of_children rfl (List.forall_mem_singleton.2 (trails .expression _ _ answered))
    · intro place bare
      obtain rfl : place = .token c := by
        simpa [Node.bareReturns_eq, Node.ownBareReturns, Node.children] using bare
      exact .inl rfl
  · obtain ⟨rfl, rfl⟩ := succeeds
    exact .of_children rfl (by simp [Node.children])
  · obtain ⟨rfl, rfl⟩ := succeeds
    exact .of_children rfl (by simp [Node.children])
  · exact trails .expression _ _ succeeds

theorem body_trails {inner : Body Tree} (succeeds : body.eval kinds answers c = .ok ⟨inner, d⟩) :
    Trails kinds taken inner.node d := by
  have succeeds := body_eq_ok.1 succeeds
  split at succeeds
  · obtain ⟨node, answered, rfl⟩ := succeeds
    exact trails .block _ _ answered
  · obtain ⟨node, answered, rfl⟩ := succeeds
    exact trails .statement _ _ answered

theorem closedBody_trails {inner : Body Tree}
    (succeeds : closedBody.eval kinds answers c = .ok ⟨inner, d⟩) :
    Trails kinds taken inner.node d := by
  obtain ⟨m, answered, rest⟩ := closedBody_eq_ok.1 succeeds
  have front : Trails kinds taken inner.node m := trails .body _ _ answered
  split at rest
  · obtain ⟨closed, rfl⟩ := rest
    exact front.carry (.inr (by rw [closed]; rfl))
  · exact front.carry (.inl rest)

theorem signed_trails (succeeds : signed.eval kinds answers c = .ok ⟨tree, d⟩) :
    Trails kinds taken tree d := by
  rcases signed_eq_ok.1 succeeds with ⟨op, operand, _, answered, rfl⟩ | ⟨_, answered⟩
  · exact .of_children rfl (List.forall_mem_singleton.2 (trails .signed _ _ answered))
  · exact trails .power _ _ answered

theorem furtherItems_cleared {items : List Tree}
    (series : Series (turnIf kinds isComma fun c => answers .expression c.next) c items d)
    (closes : startsExpression (kinds.kindAt d) = false) :
    startsExpression (kinds.kindAt c) = false ∧ ∀ item ∈ items, Cleared kinds taken item := by
  induction items generalizing c with
  | nil =>
    obtain ⟨_, rfl⟩ := series_nil.1 series
    exact ⟨closes, by simp⟩
  | cons item items ih =>
    obtain ⟨comma, m, answered, series⟩ := series_cons.1 series
    obtain ⟨next, later⟩ := ih series
    have first : Trails kinds taken item m := trails .expression _ _ answered
    refine ⟨?_, List.forall_mem_cons.2 ⟨first.cleared next, later⟩⟩
    rw [isSymbol_iff.1 comma]
    rfl

theorem enclosed_cleared (moves : ∀ rule c, Moved kinds c (answers rule c)) {close : Symbol}
    (closes : startsExpression (.symbol close) = false) {items : List Tree}
    (succeeds : (enclosed kinds.size close).eval kinds answers c = .ok ⟨items, d⟩) :
    ∀ item ∈ items, Cleared kinds taken item := by
  rcases (enclosed_eq_ok moves).1 succeeds with
    ⟨_, rfl, _⟩ | ⟨_, first, m, rest, e, answered, series, closing, _, rfl⟩
  · simp
  · obtain ⟨next, later⟩ := furtherItems_cleared trails series (closing ▸ closes)
    have head : Trails kinds taken first m := trails .expression _ _ answered
    exact List.forall_mem_cons.2 ⟨head.cleared next, later⟩

/-- The brackets behind a return at the end of what is called belong to the call. -/
theorem application_trails (moves : ∀ rule c, Moved kinds c (answers rule c))
    (lies : ∀ c callee m, answers .atom c = .ok ⟨callee, m⟩ → Laid kinds c callee m)
    (succeeds : (application kinds.size).eval kinds answers c = .ok ⟨tree, d⟩) :
    Trails kinds taken tree d := by
  obtain ⟨callee, m, answered, rest⟩ := application_eq_ok.1 succeeds
  have front : Trails kinds taken callee m := trails .atom _ _ answered
  rcases rest with ⟨opening, args, enclosed, rfl⟩ | ⟨_, rfl, rfl⟩
  · have inside := enclosed_cleared trails moves rfl enclosed
    intro place bare
    obtain ⟨child, isChild, within⟩ := exists_child rfl bare
    rcases List.mem_cons.1 isChild with rfl | isArg
    · rcases front place within with ends | clear
      · have last := (lies c child m answered).last_of_bareReturn within ends
        refine .inr (.inr (.inl ⟨ends ▸ opening, .upTo c d, child, args, ?_, last⟩))
        rw [Node.nodes_eq]
        exact List.mem_cons_self
      · exact .inr (clear.up (fun _ waits => waits) (nodes_subset isChild))
    · exact .inr ((inside child isArg place within).up (fun _ waits => waits)
        (nodes_subset isChild))
  · exact front

theorem listing_trails (moves : ∀ rule c, Moved kinds c (answers rule c))
    (succeeds : (listing kinds.size).eval kinds answers c = .ok ⟨tree, d⟩) :
    Trails kinds taken tree d := by
  obtain ⟨_, items, enclosed, rfl⟩ := listing_eq_ok.1 succeeds
  exact (Cleared.of_children rfl (enclosed_cleared trails moves rfl enclosed)).trails d

theorem atom_trails (succeeds : atom.eval kinds answers c = .ok ⟨tree, d⟩) :
    Trails kinds taken tree d := by
  have succeeds := atom_eq_ok.1 succeeds
  split at succeeds
  · obtain ⟨m, answered, closing, rfl⟩ := succeeds
    have inner : Trails kinds taken tree m := trails .expression _ _ answered
    exact inner.carry (.inr (by rw [closing]; rfl))
  · exact trails .listing _ _ succeeds
  · exact trails .conditional _ _ succeeds
  · exact trails .forLoop _ _ succeeds
  · exact trails .whileLoop _ _ succeeds
  · exact trails .function _ _ succeeds
  · obtain ⟨leaf, rfl⟩ := succeeds
    generalize kinds.kindAt c = kind at leaf
    unfold leafAt at leaf
    split at leaf <;> cases leaf <;> exact .of_children rfl (by simp [Node.children])

theorem clauses_trail {word : Keyword} {first : Clause Tree} {rest : List (Clause Tree)}
    (opens : (clause word).eval kinds answers c = .ok ⟨first, m⟩)
    (series : Series (turnIf kinds isElif ((clause .elif).eval kinds answers)) m rest d) :
    ∀ child ∈ (first :: rest).flatMap fun found => [found.condition, found.body.node],
      Trails kinds taken child d := by
  induction rest generalizing word c first m with
  | nil =>
    obtain ⟨_, rfl⟩ := series_nil.1 series
    obtain ⟨_, e, tested, thens, answered⟩ := clause_eq_ok.1 opens
    have condition : Trails kinds taken first.condition e := trails .expression _ _ tested
    have body : Trails kinds taken first.body.node d := trails .body _ _ answered
    simpa using ⟨condition.carry (.inr (by rw [thens]; rfl)), body⟩
  | cons another rest ih =>
    obtain ⟨further, e, found, series⟩ := series_cons.1 series
    obtain ⟨_, b, tested, thens, answered⟩ := clause_eq_ok.1 opens
    have condition : Trails kinds taken first.condition b := trails .expression _ _ tested
    have body : Trails kinds taken first.body.node m := trails .body _ _ answered
    rw [List.flatMap_cons]
    refine List.forall_mem_append.2 ⟨?_, ih found series⟩
    simpa using ⟨condition.carry (.inr (by rw [thens]; rfl)),
      body.carry (.inr (by rw [isKeyword_iff.1 further]; rfl))⟩

theorem conditional_trails (moves : ∀ rule c, Moved kinds c (answers rule c))
    (succeeds : (conditional kinds.size).eval kinds answers c = .ok ⟨tree, d⟩) :
    Trails kinds taken tree d := by
  obtain ⟨first, m, rest, e, last, opens, series, ends, rfl⟩ := (conditional_eq_ok moves).1 succeeds
  have clauses := clauses_trail trails opens series
  refine .of_children rfl (List.forall_mem_append.2 ?_)
  rcases otherwise_eq_ok.1 ends with
    ⟨_, closing, rfl, rfl⟩ | ⟨other, body, answered, rfl⟩ | ⟨_, _, rfl, rfl⟩
  · refine ⟨fun child among => (clauses child among).carry (.inr ?_), by simp⟩
    rw [closing]
    rfl
  · refine ⟨fun child among => (clauses child among).carry (.inr ?_),
      List.forall_mem_singleton.2 (trails .closedBody _ _ answered)⟩
    rw [other]
    rfl
  · exact ⟨clauses, by simp⟩

theorem whileLoop_trails (succeeds : whileLoop.eval kinds answers c = .ok ⟨tree, d⟩) :
    Trails kinds taken tree d := by
  obtain ⟨_, condition, m, body, tested, thens, answered, rfl⟩ := whileLoop_eq_ok.1 succeeds
  have front : Trails kinds taken condition m := trails .expression _ _ tested
  have inner : Trails kinds taken body.node d := trails .closedBody _ _ answered
  exact .of_children rfl (List.forall_mem_cons.2
    ⟨front.carry (.inr (by rw [thens]; rfl)), List.forall_mem_singleton.2 inner⟩)

theorem forLoop_trails (succeeds : forLoop.eval kinds answers c = .ok ⟨tree, d⟩) :
    Trails kinds taken tree d := by
  obtain ⟨_, name, lower, m, upper, e, step, g, body, _, _, starts, upTo, stops, strides, thens,
    answered, rfl⟩ := forLoop_eq_ok.1 succeeds
  have low : Trails kinds taken lower m := trails .expression _ _ starts
  have high : Trails kinds taken upper e := trails .expression _ _ stops
  have inner : Trails kinds taken body.node d := trails .closedBody _ _ answered
  have stride : startsExpression (kinds.kindAt e) = false ∧
      ∀ value ∈ step.toList, Trails kinds taken value d := by
    rcases stride_eq_ok.1 strides with ⟨stepping, value, answered, rfl⟩ | ⟨_, rfl, rfl⟩
    · have value : Trails kinds taken value g := trails .expression _ _ answered
      refine ⟨by rw [stepping]; rfl, ?_⟩
      exact List.forall_mem_singleton.2 (value.carry (.inr (by rw [thens]; rfl)))
    · exact ⟨by rw [thens]; rfl, by simp⟩
  exact .of_children rfl (List.forall_mem_cons.2 ⟨low.carry (.inr (by rw [upTo]; rfl)),
    List.forall_mem_cons.2 ⟨high.carry (.inr stride.1),
      List.forall_mem_append.2 ⟨stride.2, List.forall_mem_singleton.2 inner⟩⟩⟩)

theorem function_trails (succeeds : (function kinds.size).eval kinds answers c = .ok ⟨tree, d⟩) :
    Trails kinds taken tree d := by
  obtain ⟨_, _, _, _, _, body, _, _, answered, rfl⟩ := function_eq_ok.1 succeeds
  refine .of_children rfl (List.forall_mem_singleton.2 ?_)
  rcases functionBody_eq_ok.1 answered with
    ⟨_, node, inside, rfl⟩ | ⟨_, node, g, inside, closed, rfl, rfl⟩
  · exact trails .expression _ _ inside
  · have inner : Trails kinds taken node g := trails .block _ _ inside
    exact inner.carry (.inr (by rw [closed]; rfl))

section Operators

variable {own : Cursor → Prop} (moves : ∀ rule c, Moved kinds c (answers rule c))
  (owned : ∀ rule c parsed, answers rule c = .ok parsed →
    ReturnsBefore own (rule.node parsed.value))
  (adds : ∀ m x e rest d, own m → isSign (kinds.kindAt m) = true →
    answers .product m.next = .ok ⟨x, e⟩ →
    Series (nextOperand kinds .additive (answers .product)) e rest d → carries .additive m d)
  (compares : ∀ m e rest d, carries .additive m e →
    Series (nextOperand kinds .comparison (answers .sum)) e rest d → carries .comparison m d)
  (joins : ∀ m e rest d, carries .comparison m e →
    Series (nextOperand kinds .logical (answers .comparison)) e rest d → taken m)

include moves owned

include joins in
theorem expression_trails
    (succeeds : (expression kinds.size).eval kinds answers c = .ok ⟨tree, d⟩) :
    Trails kinds taken tree d := by
  rcases (expression_eq_ok moves).1 succeeds with ⟨_, _, _, _, _, answered, rfl⟩ | ⟨_, chained⟩
  · exact .of_children rfl (List.forall_mem_singleton.2 (trails .expression _ _ answered))
  · have operand (c : Cursor) (x : Tree) (e : Cursor) (found : answers .comparison c = .ok ⟨x, e⟩) :
        Trails kinds (fun m => taken m ∨ carries .comparison m e) x e ∧ ReturnsBefore own x :=
      ⟨trails .comparison c ⟨x, e⟩ found, owned .comparison c ⟨x, e⟩ found⟩
    refine chained_trails own _ (fun m _ => taken m) chained operand operand ?_ nofun
    rintro m e rest (done | carried) series
    · exact done
    · exact joins m e rest d carried series

include compares in
theorem comparison_trails
    (succeeds : (comparison kinds.size).eval kinds answers c = .ok ⟨tree, d⟩) :
    Trails kinds (fun m => taken m ∨ carries .comparison m d) tree d := by
  rcases (comparison_eq_ok moves).1 succeeds with ⟨_, _, answered, rfl⟩ | ⟨_, chained⟩
  · exact .of_children rfl (List.forall_mem_singleton.2 (trails .comparison _ _ answered))
  · have operand (c : Cursor) (x : Tree) (e : Cursor) (found : answers .sum c = .ok ⟨x, e⟩) :
        Trails kinds (fun m => taken m ∨ carries .additive m e) x e ∧ ReturnsBefore own x :=
      ⟨trails .sum c ⟨x, e⟩ found, owned .sum c ⟨x, e⟩ found⟩
    refine chained_trails own _ (fun m e => taken m ∨ carries .comparison m e) chained operand
      operand ?_ nofun
    rintro m e rest (done | carried) series
    · exact .inl done
    · exact .inr (compares m e rest d carried series)

include adds in
theorem sum_trails
    (succeeds : (Rule.sum.parser kinds.size).eval kinds answers c = .ok ⟨tree, d⟩) :
    Trails kinds (fun m => taken m ∨ carries .additive m d) tree d := by
  have operand (c : Cursor) (x : Tree) (e : Cursor) (found : answers .product c = .ok ⟨x, e⟩) :
      Trails kinds taken x e ∧ ReturnsBefore own x :=
    ⟨trails .product c ⟨x, e⟩ found, owned .product c ⟨x, e⟩ found⟩
  refine chained_trails own (fun m _ => taken m) (fun m e => taken m ∨ carries .additive m e)
    ((sum_eq_ok moves).1 succeeds) operand operand (fun m e rest done _ => .inl done) ?_
  exact fun _ m x e rest tried sign answered series =>
    .inr (adds m x e rest d tried sign answered series)

theorem product_trails
    (succeeds : (Rule.product.parser kinds.size).eval kinds answers c = .ok ⟨tree, d⟩) :
    Trails kinds taken tree d := by
  have operand (c : Cursor) (x : Tree) (e : Cursor) (found : answers .signed c = .ok ⟨x, e⟩) :
      Trails kinds taken x e ∧ ReturnsBefore own x :=
    ⟨trails .signed c ⟨x, e⟩ found, owned .signed c ⟨x, e⟩ found⟩
  exact chained_trails own (fun m _ => taken m) (fun m _ => taken m)
    ((product_eq_ok moves).1 succeeds) operand operand (fun _ _ _ done _ => done) nofun

theorem power_trails
    (succeeds : (Rule.power.parser kinds.size).eval kinds answers c = .ok ⟨tree, d⟩) :
    Trails kinds taken tree d := by
  have first (c : Cursor) (x : Tree) (e : Cursor) (found : answers .application c = .ok ⟨x, e⟩) :
      Trails kinds taken x e ∧ ReturnsBefore own x :=
    ⟨trails .application c ⟨x, e⟩ found, owned .application c ⟨x, e⟩ found⟩
  have later (c : Cursor) (x : Tree) (e : Cursor) (found : answers .signed c = .ok ⟨x, e⟩) :
      Trails kinds taken x e ∧ ReturnsBefore own x :=
    ⟨trails .signed c ⟨x, e⟩ found, owned .signed c ⟨x, e⟩ found⟩
  exact chained_trails own (fun m _ => taken m) (fun m _ => taken m)
    ((power_eq_ok moves).1 succeeds) first later (fun _ _ _ done _ => done) nofun

include adds compares joins in
theorem parser_trails
    (lies : ∀ c callee m, answers .atom c = .ok ⟨callee, m⟩ → Laid kinds c callee m) {rule : Rule}
    {parsed : Parsed rule.Value}
    (succeeds : (rule.parser kinds.size).eval kinds answers c = .ok parsed) :
    Trails kinds (rule.waits taken carries parsed.cursor) (rule.node parsed.value)
      parsed.cursor := by
  cases rule with
  | block => exact block_trails trails moves succeeds
  | statement => exact statement_trails trails succeeds
  | expression => exact expression_trails trails moves owned joins succeeds
  | comparison => exact comparison_trails trails moves owned compares succeeds
  | sum => exact sum_trails trails moves owned adds succeeds
  | product => exact product_trails trails moves owned succeeds
  | signed => exact signed_trails trails succeeds
  | power => exact power_trails trails moves owned succeeds
  | application => exact application_trails trails moves lies succeeds
  | atom => exact atom_trails trails succeeds
  | listing => exact listing_trails trails moves succeeds
  | conditional => exact conditional_trails trails moves succeeds
  | forLoop => exact forLoop_trails trails succeeds
  | whileLoop => exact whileLoop_trails trails succeeds
  | function => exact function_trails trails succeeds
  | body => exact body_trails trails succeeds
  | closedBody => exact closedBody_trails trails succeeds

end Operators

end Rules

end Parser

/-- Under any limit, an expression's first token behind a return is a sign or opens a call. -/
theorem Rule.answer_trails {limit : Limit} {depth : Nat} {rule : Rule} {parsed : Parsed rule.Value}
    (succeeds : answer kinds limit depth rule c = .ok parsed) :
    Trails kinds (fun m => isSign (kinds.kindAt m) = true) (rule.node parsed.value)
      parsed.cursor := by
  have step := @answer_induction kinds limit fun rule c parsed =>
    Laid kinds c (rule.node parsed.value) (rule.reach parsed) ∧
      Trails kinds (rule.waits (fun m => isSign (kinds.kindAt m) = true)
        (fun _ m _ => isSign (kinds.kindAt m) = true) parsed.cursor) (rule.node parsed.value)
        parsed.cursor
  have both := step (fun answers rule c parsed moves inside succeeds =>
    ⟨Parser.parser_laid (fun rule c parsed answered => (inside rule c parsed answered).1) moves
        succeeds,
      Parser.parser_trails (fun rule c parsed answered => (inside rule c parsed answered).2) moves
        (fun _ _ _ _ => .always _) (fun _ _ _ _ _ _ sign _ _ => sign)
        (fun _ _ _ _ sign _ => sign) (fun _ _ _ _ sign _ => sign)
        (fun c callee m answered => (inside .atom c ⟨callee, m⟩ answered).1) succeeds⟩) succeeds
  intro place bare
  refine (both.2 place bare).imp_right fun clear =>
    clear.up (fun m waits => ?_) fun _ among => among
  cases rule <;> first | exact waits | exact waits.elim id id

/-! ### Programs -/

section Programs

variable {limit : Limit} {tree : Tree}

theorem Returns.kindAt_eq {found : List Cursor} (returns : Returns kinds c found d) :
    ∀ mark ∈ found, kinds.kindAt mark = .keyword .return := by
  induction returns with
  | done => simp
  | other _ _ ih => exact ih
  | found here _ ih => exact List.forall_mem_cons.2 ⟨here, ih⟩

theorem parseKinds_bareReturn (accepted : (parseKinds kinds limit .start).1 = .ok tree) :
    ∀ place ∈ Node.bareReturns tree, kinds.kindAt place.first = .keyword .return := by
  obtain ⟨d, answered, _⟩ := parseKinds_eq_ok.1 accepted
  intro place bare
  have mark : place.first ∈ Tree.marks tree :=
    List.mem_map.2 ⟨_, Node.mem_bareReturns.1 bare, rfl⟩
  exact (Rule.answer_returns answered).kindAt_eq _ mark

/-- The end of the text starts no expression, so nothing is left open there. -/
theorem parseKinds_cleared (accepted : (parseKinds kinds limit .start).1 = .ok tree) :
    Cleared kinds (fun m => isSign (kinds.kindAt m) = true) tree := by
  obtain ⟨d, answered, finished⟩ := parseKinds_eq_ok.1 accepted
  exact (Rule.answer_trails answered).cleared (by rw [finished]; rfl)

end Programs

end Sharp.Grammar

import Sharp.Proofs.Grammar.Unguarded
import Sharp.Proofs.Tree.Places

/-!
How trees lie on their tokens. The names and children of a node lie one behind the other inside it.
Most nodes lie on the tokens they were read from; a block goes on to the token behind it, which is
no separator, so no node ends in one. Brackets around an expression lie outside of it.
-/
namespace Sharp.Grammar

variable {kinds : Kinds} {b c d e m : Cursor}

/-- Stretches one behind the other between two cursors. -/
def Ascending : Cursor → List Extent → Cursor → Prop
  | c, [], d => c.index ≤ d.index
  | c, x :: xs, d =>
    c.index ≤ x.first.index ∧ x.first.index ≤ x.last.index ∧ Ascending x.last.next xs d

namespace Ascending

variable {xs ys : List Extent}

theorem index_le (ascends : Ascending c xs d) : c.index ≤ d.index := by
  induction xs generalizing c with
  | nil => exact ascends
  | cons x xs ih =>
    obtain ⟨starts, inOrder, rest⟩ := ascends
    have further := ih rest
    simp only [Cursor.next_index] at further
    omega

theorem widen (ascends : Ascending c xs d) (earlier : b.index ≤ c.index)
    (later : d.index ≤ e.index) : Ascending b xs e := by
  induction xs generalizing b c with
  | nil => exact Nat.le_trans earlier (Nat.le_trans ascends later)
  | cons x xs ih =>
    obtain ⟨starts, inOrder, rest⟩ := ascends
    exact ⟨Nat.le_trans earlier starts, inOrder, ih rest (Nat.le_refl _)⟩

theorem append (first : Ascending c xs m) (second : Ascending m ys d) :
    Ascending c (xs ++ ys) d := by
  induction xs generalizing c with
  | nil => exact second.widen first (Nat.le_refl _)
  | cons x xs ih =>
    obtain ⟨starts, inOrder, rest⟩ := first
    exact ⟨starts, inOrder, ih rest⟩

theorem within (ascends : Ascending c xs d) : ∀ x ∈ xs,
    c.index ≤ x.first.index ∧ x.first.index ≤ x.last.index ∧ x.last.index < d.index := by
  induction xs generalizing c with
  | nil => simp
  | cons x xs ih =>
    obtain ⟨starts, inOrder, rest⟩ := ascends
    have further := rest.index_le
    simp only [Cursor.next_index] at further
    refine List.forall_mem_cons.2 ⟨⟨starts, inOrder, further⟩, fun y later => ?_⟩
    have inside := ih rest y later
    simp only [Cursor.next_index] at inside
    omega

theorem pairwise (ascends : Ascending c xs d) :
    xs.Pairwise fun x y => x.last.index < y.first.index := by
  induction xs generalizing c with
  | nil => exact .nil
  | cons x xs ih =>
    obtain ⟨_, _, rest⟩ := ascends
    exact List.pairwise_cons.2 ⟨fun y later => (rest.within y later).1, ih rest⟩

end Ascending

/-- A name lies on the token it was read from. -/
def Named (kinds : Kinds) (name : Ident Extent) : Prop :=
  kinds.kindAt name.place.last = .identifier name.name

/-- A node by itself lies on its tokens as it should. -/
structure Tidy (kinds : Kinds) (node : Tree) : Prop where
  starts : kinds.kindAt (Node.place node).first ≠ .eof
  ends : kinds.kindAt (Node.place node).last ≠ .newline
  inOrder : (Node.place node).first.index ≤ (Node.place node).last.index
  parts : Ascending (Node.place node).first (Node.parts node) (Node.place node).last.next
  named : ∀ name ∈ Node.names node, Named kinds name

/-- A tree lies between two cursors, the second of which is not right behind a separator. -/
structure Laid (kinds : Kinds) (c : Cursor) (tree : Tree) (d : Cursor) : Prop where
  tidy : ∀ node ∈ Node.nodes tree, Tidy kinds node
  starts : c.index ≤ (Node.place tree).first.index
  stops : (Node.place tree).last.index < d.index
  closed : kinds.kindAt d.prev ≠ .newline

/-- Trees one behind the other between two cursors. -/
structure Row (kinds : Kinds) (c : Cursor) (trees : List Tree) (d : Cursor) : Prop where
  tidy : ∀ tree ∈ trees, ∀ node ∈ Node.nodes tree, Tidy kinds node
  ascends : Ascending c (trees.map Node.place) d

section Rows

variable {tree : Tree} {trees front back : List Tree}

theorem Laid.self (laid : Laid kinds c tree d) : Tidy kinds tree := by
  refine laid.tidy tree ?_
  rw [Node.nodes_eq]
  exact List.mem_cons_self

theorem Laid.from (laid : Laid kinds c tree d) (earlier : b.index ≤ c.index) :
    Laid kinds b tree d :=
  { laid with starts := Nat.le_trans earlier laid.starts }

theorem Row.widen (row : Row kinds c trees d) (earlier : b.index ≤ c.index)
    (later : d.index ≤ e.index) : Row kinds b trees e :=
  ⟨row.tidy, row.ascends.widen earlier later⟩

theorem Row.nil (ahead : c.index ≤ d.index) : Row kinds c [] d := ⟨by simp, ahead⟩

theorem Laid.cons (laid : Laid kinds c tree m) (rest : Row kinds m trees d) :
    Row kinds c (tree :: trees) d :=
  ⟨List.forall_mem_cons.2 ⟨laid.tidy, rest.tidy⟩, laid.starts, laid.self.inOrder,
    rest.ascends.widen laid.stops (Nat.le_refl _)⟩

theorem Laid.row (laid : Laid kinds c tree d) : Row kinds c [tree] d :=
  laid.cons (.nil (Nat.le_refl _))

theorem Row.append (first : Row kinds c front m) (second : Row kinds m back d) :
    Row kinds c (front ++ back) d := by
  refine ⟨List.forall_mem_append.2 ⟨first.tidy, second.tidy⟩, ?_⟩
  rw [List.map_append]
  exact first.ascends.append second.ascends

theorem upTo_of_lt (ahead : c.index < d.index) : Extent.upTo c d = ⟨c, d.prev⟩ := by
  simp only [Extent.upTo, Cursor.max, Cursor.prev, Nat.max_def]
  split <;> rename_i order
  · exact congrArg (Extent.mk c) (congrArg Cursor.mk (by omega))
  · rfl

theorem tidy_of_children (self : Tidy kinds tree)
    (below : ∀ child ∈ Node.children tree, ∀ node ∈ Node.nodes child, Tidy kinds node) :
    ∀ node ∈ Node.nodes tree, Tidy kinds node := by
  rw [Node.nodes_eq]
  exact List.forall_mem_cons.2 ⟨self, List.forall_mem_flatMap.2 below⟩

/-- A tree of tidy nodes takes in all of them. -/
theorem within_of_tidy (tidy : ∀ node ∈ Node.nodes tree, Tidy kinds node) :
    ∀ node ∈ Node.nodes tree, (Node.place tree).first.index ≤ (Node.place node).first.index ∧
      (Node.place node).last.index ≤ (Node.place tree).last.index := by
  induction tree using Node.induction_on_children with
  | inherits tree ih =>
    rw [Node.nodes_eq, List.forall_mem_cons, List.forall_mem_flatMap] at tidy ⊢
    refine ⟨⟨Nat.le_refl _, Nat.le_refl _⟩, fun child isChild node below => ?_⟩
    have inner := ih child isChild (tidy.2 child isChild) node below
    have outer := tidy.1.parts.within (Node.place child)
      (List.mem_append_right _ (List.mem_map_of_mem isChild))
    simp only [Cursor.next_index] at outer
    omega

/-- A node on all tokens between two cursors, with its names in front of its children. -/
theorem Laid.node (place : Node.place tree = .upTo c d) (passes : kinds.Passes c d)
    (closed : kinds.kindAt d.prev ≠ .newline)
    (names : Ascending c ((Node.names tree).map Ident.place) m)
    (named : ∀ name ∈ Node.names tree, Named kinds name)
    (children : Row kinds m (Node.children tree) d) : Laid kinds c tree d := by
  have ahead := passes.index_lt
  have last : d.prev.next.index = d.index := by
    simp only [Cursor.next_index, Cursor.prev]
    omega
  rw [upTo_of_lt ahead] at place
  have self : Tidy kinds tree := by
    constructor
    · rw [place]
      exact passes.kindAt_ne
    · rw [place]
      exact closed
    · rw [place]
      exact Nat.le_pred_of_lt ahead
    · rw [place]
      exact (names.append children.ascends).widen (Nat.le_refl _) (Nat.le_of_eq last.symm)
    · exact named
  refine ⟨tidy_of_children self children.tidy, ?_, ?_, closed⟩
  · exact place ▸ Nat.le_refl c.index
  · rw [place]
    exact Nat.lt_of_succ_le (Nat.le_of_eq last)

/-- The same for a node without names. -/
theorem Laid.nameless (place : Node.place tree = .upTo c d) (names : Node.names tree = [])
    (passes : kinds.Passes c d) (closed : kinds.kindAt d.prev ≠ .newline)
    (children : Row kinds c (Node.children tree) d) : Laid kinds c tree d := by
  refine .node (m := c) place passes closed ?_ ?_ children
  · rw [names]
    exact Nat.le_refl _
  · simp [names]

/-- A node on a single token. -/
theorem Laid.single (place : Node.place tree = .token c) (names : Node.names tree = [])
    (children : Node.children tree = []) (more : kinds.kindAt c ≠ .eof)
    (other : kinds.kindAt c ≠ .newline) : Laid kinds c tree c.next := by
  have passes := Kinds.passes_next more
  refine .nameless ?_ names passes other ?_
  · rw [place, upTo_of_lt passes.index_lt]
    rfl
  · rw [children]
    exact .nil (Nat.le_of_lt passes.index_lt)

theorem place_attach (op : BinaryOp) (left right : Tree) :
    Node.place (Parser.attach left (op, right)) = left.place.join right.place := rfl

/-- A closing token behind a tree lies outside of it. -/
theorem Laid.close {kind : TokenKind} (laid : Laid kinds c tree d) (closing : kinds.kindAt d = kind)
    (other : kind ≠ .newline) : Laid kinds c tree d.next :=
  { laid with stops := Nat.lt_succ_of_lt laid.stops, closed := closing ▸ other }

/-- Operands span what is between them. -/
theorem Laid.attach {op : BinaryOp} {left right : Tree} (first : Laid kinds c left m)
    (second : Laid kinds m.next right d) :
    Laid kinds c (Parser.attach left (op, right)) d := by
  have before := first.stops
  have behind := second.starts
  have inOrder := first.self.inOrder
  have further := second.self.inOrder
  simp only [Cursor.next_index] at behind
  have self : Tidy kinds (Parser.attach left (op, right)) := by
    constructor
    · exact first.self.starts
    · exact second.self.ends
    · rw [place_attach]
      simp only [Extent.join]
      omega
    · refine ⟨Nat.le_refl _, inOrder, ?_, further, Nat.le_refl _⟩
      simp only [Cursor.next_index]
      omega
    · simp [Parser.attach, Node.names]
  refine ⟨tidy_of_children self ?_, first.starts, second.stops, second.closed⟩
  simp only [Parser.attach, Node.children, List.forall_mem_cons]
  exact ⟨first.tidy, second.tidy, by simp⟩

end Rows

/-- What lies before this cursor is a body; a block takes in the token it stops at. -/
def reach (isBlock : Bool) (d : Cursor) : Cursor := if isBlock then d.next else d

theorem reach_le_next (isBlock : Bool) (d : Cursor) : (reach isBlock d).index ≤ d.next.index := by
  cases isBlock
  · exact Nat.le_succ _
  · exact Nat.le_refl _

/-- The cursor before which the tree of a rule lies. -/
def Rule.reach : (rule : Rule) → Parsed rule.Value → Cursor
  | .block, parsed => parsed.cursor.next
  | .body, parsed => Grammar.reach parsed.value.isBlock parsed.cursor
  | .closedBody, parsed | .statement, parsed | .expression, parsed | .comparison, parsed
  | .sum, parsed | .product, parsed | .signed, parsed | .power, parsed | .application, parsed
  | .atom, parsed | .listing, parsed | .conditional, parsed | .forLoop, parsed
  | .whileLoop, parsed | .function, parsed => parsed.cursor

namespace Parser

variable {answers : Answers} {tree : Tree}

theorem chained_laid {level : Level} {left right : Cursor → Outcome Tree}
    (first : ∀ c x d, left c = .ok ⟨x, d⟩ → Laid kinds c x d)
    (later : ∀ c x d, right c = .ok ⟨x, d⟩ → Laid kinds c x d)
    (chained : Chained kinds level left right c tree d) : Laid kinds c tree d := by
  obtain ⟨head, m, rest, answered, series, rfl⟩ := chained
  have begun := first c head m answered
  clear answered
  induction rest generalizing head m with
  | nil =>
    obtain ⟨_, rfl⟩ := nextOperand_eq_none.1 series
    exact begun
  | cons operand rest ih =>
    obtain ⟨op, operand⟩ := operand
    obtain ⟨e, found, series⟩ := series
    obtain ⟨_, _, answered⟩ := nextOperand_eq_some.1 found
    exact ih _ e series (begun.attach (later _ _ _ answered))

section Names

variable {name : Ident Extent} {names : List (Ident Extent)}

theorem identifier_laid (found : identifier.eval kinds answers c = .ok ⟨name, d⟩) :
    Ascending c [name.place] d ∧ Named kinds name := by
  obtain ⟨named, place, rfl⟩ := identifier_eq_ok.1 found
  rw [place, Named, place]
  exact ⟨⟨Nat.le_refl _, Nat.le_refl _, Nat.le_refl _⟩, named⟩

theorem furtherNames_laid
    (series : Series (turnIf kinds isComma fun c => identifier.eval kinds answers c.next) c names
      d) :
    Ascending c (names.map Ident.place) d ∧ ∀ name ∈ names, Named kinds name := by
  induction names generalizing c with
  | nil =>
    obtain ⟨_, rfl⟩ := series_nil.1 series
    exact ⟨Nat.le_refl _, by simp⟩
  | cons name names ih =>
    obtain ⟨_, m, found, series⟩ := series_cons.1 series
    obtain ⟨here, named⟩ := identifier_laid found
    obtain ⟨later, allNamed⟩ := ih series
    exact ⟨(here.widen (Nat.le_succ _) (Nat.le_refl _)).append later,
      List.forall_mem_cons.2 ⟨named, allNamed⟩⟩

theorem params_laid (found : (Parser.params kinds.size).eval kinds answers c = .ok ⟨names, d⟩) :
    Ascending c (names.map Ident.place) d ∧ ∀ name ∈ names, Named kinds name := by
  rcases params_eq_ok.1 found with ⟨first, m, rest, e, head, series, _, rfl, rfl⟩ | ⟨_, rfl, rfl⟩
  · obtain ⟨here, named⟩ := identifier_laid head
    obtain ⟨later, allNamed⟩ := furtherNames_laid series
    exact ⟨here.append (later.widen (Nat.le_refl _) (Nat.le_succ _)),
      List.forall_mem_cons.2 ⟨named, allNamed⟩⟩
  · exact ⟨Nat.le_succ _, by simp⟩

theorem functionName_laid {title : Option (Ident Extent)}
    (found : functionName.eval kinds answers c = .ok ⟨title, d⟩) :
    Ascending c (title.toList.map Ident.place) d ∧ ∀ name ∈ title.toList, Named kinds name := by
  rcases functionName_eq_ok.1 found with ⟨text, named, _, rfl, rfl⟩ | ⟨_, rfl, rfl⟩
  · exact ⟨⟨Nat.le_refl _, Nat.le_refl _, Nat.le_succ _⟩,
      by simpa [Named, Extent.token] using named⟩
  · exact ⟨Nat.le_succ _, by simp⟩

end Names

section Rules

variable (lies : ∀ rule c parsed, answers rule c = .ok parsed →
  Laid kinds c (rule.node parsed.value) (rule.reach parsed))

include lies

theorem statements_laid {trees : List Tree}
    (series : Series (nextStatement kinds answers) c trees d) :
    Row kinds c trees d ∧ kinds.kindAt d ≠ .newline := by
  induction trees generalizing c with
  | nil =>
    obtain ⟨n, skips, _⟩ := nextStatement_eq_none.1 series
    exact ⟨.nil (skips.1.index ▸ Nat.le_add_right _ _), skips.2⟩
  | cons tree trees ih =>
    obtain ⟨e, found, series⟩ := series
    obtain ⟨n, m, skips, answered⟩ := nextStatement_eq_some.1 found
    have first : Laid kinds m tree e := lies .statement _ _ answered
    obtain ⟨rest, other⟩ := ih series
    exact ⟨(first.from (skips.1.index ▸ Nat.le_add_right _ _)).cons rest, other⟩

/-- The only node that takes in the token behind those it was read from. -/
theorem block_laid (moves : ∀ rule c, Moved kinds c (answers rule c))
    (succeeds : (block kinds.size).eval kinds answers c = .ok ⟨tree, d⟩) :
    Laid kinds c tree d.next := by
  obtain ⟨n, m, first, e, rest, skips, answered, series, rfl⟩ := (block_eq_ok moves).1 succeeds
  have head : Laid kinds m first e := lies .statement _ _ answered
  obtain ⟨later, other⟩ := statements_laid lies series
  have row : Row kinds (Node.place first).first (first :: rest) d :=
    { head with starts := Nat.le_refl _ : Laid kinds _ first e }.cons later
  have skipped := skips.1.index
  have inOrder := head.self.inOrder
  have stops := head.stops
  have further := later.ascends.index_le
  have starts := head.starts
  have self : Tidy kinds (.block ⟨(Node.place first).first, d⟩ (first :: rest)) := by
    constructor
    · exact head.self.starts
    · exact other
    · change (Node.place first).first.index ≤ d.index
      omega
    · exact row.ascends.widen (Nat.le_refl _) (Nat.le_succ _)
    · simp [Node.names]
  refine ⟨tidy_of_children self row.tidy, ?_, Nat.lt_succ_self _, other⟩
  change c.index ≤ (Node.place first).first.index
  omega

theorem statement_laid (passes : kinds.Passes c d)
    (succeeds : statement.eval kinds answers c = .ok ⟨tree, d⟩) : Laid kinds c tree d := by
  have succeeds := statement_eq_ok.1 succeeds
  split at succeeds
  · rename_i found
    rcases succeeds with ⟨value, answered, rfl⟩ | ⟨_, rfl, rfl⟩
    · have inner : Laid kinds c.next value d := lies .expression _ _ answered
      exact .nameless rfl rfl passes inner.closed (inner.from (Nat.le_succ _)).row
    · exact .single rfl rfl rfl (by simp [found]) (by simp [found])
  · rename_i found
    obtain ⟨rfl, rfl⟩ := succeeds
    exact .single rfl rfl rfl (by simp [found]) (by simp [found])
  · rename_i found
    obtain ⟨rfl, rfl⟩ := succeeds
    exact .single rfl rfl rfl (by simp [found]) (by simp [found])
  · exact lies .expression _ _ succeeds

theorem body_laid {inner : Body Tree} (succeeds : body.eval kinds answers c = .ok ⟨inner, d⟩) :
    Laid kinds c inner.node (reach inner.isBlock d) := by
  have succeeds := body_eq_ok.1 succeeds
  split at succeeds
  · obtain ⟨node, answered, rfl⟩ := succeeds
    have laid : Laid kinds c.next node d.next := lies .block _ _ answered
    exact laid.from (Nat.le_succ _)
  · obtain ⟨node, answered, rfl⟩ := succeeds
    exact lies .statement _ _ answered

theorem closedBody_laid {inner : Body Tree}
    (succeeds : closedBody.eval kinds answers c = .ok ⟨inner, d⟩) :
    Laid kinds c inner.node d := by
  obtain ⟨m, answered, rest⟩ := closedBody_eq_ok.1 succeeds
  have laid : Laid kinds c inner.node (reach inner.isBlock m) := lies .body _ _ answered
  split at rest <;> rename_i isBlock <;> simp only [isBlock] at laid
  · obtain ⟨_, rfl⟩ := rest
    exact laid
  · exact rest ▸ laid

theorem expression_laid (moves : ∀ rule c, Moved kinds c (answers rule c))
    (passes : kinds.Passes c d)
    (succeeds : (expression kinds.size).eval kinds answers c = .ok ⟨tree, d⟩) :
    Laid kinds c tree d := by
  rcases (expression_eq_ok moves).1 succeeds with
    ⟨_, name, value, named, _, answered, rfl⟩ | ⟨_, chained⟩
  · have inner : Laid kinds c.next.next.next value d := lies .expression _ _ answered
    refine .node (m := c.next.next) rfl passes inner.closed ?_ (by simpa [Node.names, Named])
      (inner.from (Nat.le_succ _)).row
    exact ⟨Nat.le_succ _, Nat.le_refl _, Nat.le_refl _⟩
  · exact chained_laid (fun c _ _ answered => lies .comparison c _ answered)
      (fun c _ _ answered => lies .comparison c _ answered) chained

theorem comparison_laid (moves : ∀ rule c, Moved kinds c (answers rule c))
    (passes : kinds.Passes c d)
    (succeeds : (comparison kinds.size).eval kinds answers c = .ok ⟨tree, d⟩) :
    Laid kinds c tree d := by
  rcases (comparison_eq_ok moves).1 succeeds with ⟨_, operand, answered, rfl⟩ | ⟨_, chained⟩
  · have inner : Laid kinds c.next operand d := lies .comparison _ _ answered
    exact .nameless rfl rfl passes inner.closed (inner.from (Nat.le_succ _)).row
  · exact chained_laid (fun c _ _ answered => lies .sum c _ answered)
      (fun c _ _ answered => lies .sum c _ answered) chained

theorem signed_laid (passes : kinds.Passes c d)
    (succeeds : signed.eval kinds answers c = .ok ⟨tree, d⟩) : Laid kinds c tree d := by
  rcases signed_eq_ok.1 succeeds with ⟨op, operand, _, answered, rfl⟩ | ⟨_, answered⟩
  · have inner : Laid kinds c.next operand d := lies .signed _ _ answered
    exact .nameless rfl rfl passes inner.closed (inner.from (Nat.le_succ _)).row
  · exact lies .power _ _ answered

theorem furtherItems_laid {items : List Tree}
    (series : Series (turnIf kinds isComma fun c => answers .expression c.next) c items d) :
    Row kinds c items d := by
  induction items generalizing c with
  | nil =>
    obtain ⟨_, rfl⟩ := series_nil.1 series
    exact .nil (Nat.le_refl _)
  | cons item items ih =>
    obtain ⟨_, m, answered, series⟩ := series_cons.1 series
    have first : Laid kinds c.next item m := lies .expression _ _ answered
    exact (first.from (Nat.le_succ _)).cons (ih series)

theorem enclosed_laid (moves : ∀ rule c, Moved kinds c (answers rule c)) {close : Symbol}
    {items : List Tree}
    (succeeds : (enclosed kinds.size close).eval kinds answers c = .ok ⟨items, d⟩) :
    Row kinds c items d ∧ kinds.kindAt d.prev ≠ .newline := by
  rcases (enclosed_eq_ok moves).1 succeeds with
    ⟨closing, rfl, rfl⟩ | ⟨_, first, m, rest, e, answered, series, closing, rfl, rfl⟩
  · exact ⟨.nil (Nat.le_succ _), by simp [closing]⟩
  · have head : Laid kinds c first m := lies .expression _ _ answered
    have row := head.cons (furtherItems_laid lies series)
    exact ⟨row.widen (Nat.le_refl _) (Nat.le_succ _), by simp [closing]⟩

theorem application_laid (moves : ∀ rule c, Moved kinds c (answers rule c))
    (passes : kinds.Passes c d)
    (succeeds : (application kinds.size).eval kinds answers c = .ok ⟨tree, d⟩) :
    Laid kinds c tree d := by
  obtain ⟨callee, m, answered, rest⟩ := application_eq_ok.1 succeeds
  have front : Laid kinds c callee m := lies .atom _ _ answered
  rcases rest with ⟨_, args, enclosed, rfl⟩ | ⟨_, rfl, rfl⟩
  · obtain ⟨row, closed⟩ := enclosed_laid lies moves enclosed
    exact .nameless rfl rfl passes closed (front.cons (row.widen (Nat.le_succ _) (Nat.le_refl _)))
  · exact front

theorem listing_laid (moves : ∀ rule c, Moved kinds c (answers rule c))
    (passes : kinds.Passes c d)
    (succeeds : (listing kinds.size).eval kinds answers c = .ok ⟨tree, d⟩) :
    Laid kinds c tree d := by
  obtain ⟨_, items, enclosed, rfl⟩ := listing_eq_ok.1 succeeds
  obtain ⟨row, closed⟩ := enclosed_laid lies moves enclosed
  exact .nameless rfl rfl passes closed (row.widen (Nat.le_succ _) (Nat.le_refl _))

theorem atom_laid (succeeds : atom.eval kinds answers c = .ok ⟨tree, d⟩) :
    Laid kinds c tree d := by
  have succeeds := atom_eq_ok.1 succeeds
  split at succeeds
  · obtain ⟨m, answered, closing, rfl⟩ := succeeds
    have inner : Laid kinds c.next tree m := lies .expression _ _ answered
    exact (inner.from (Nat.le_succ _)).close closing (by simp)
  · exact lies .listing _ _ succeeds
  · exact lies .conditional _ _ succeeds
  · exact lies .forLoop _ _ succeeds
  · exact lies .whileLoop _ _ succeeds
  · exact lies .function _ _ succeeds
  · obtain ⟨leaf, rfl⟩ := succeeds
    generalize here : kinds.kindAt c = kind at leaf
    unfold leafAt at leaf
    split at leaf <;> cases leaf <;>
      exact .single rfl rfl rfl (by simp [here]) (by simp [here])

theorem clause_laid {word : Keyword} {found : Clause Tree}
    (succeeds : (clause word).eval kinds answers c = .ok ⟨found, d⟩) :
    Row kinds c.next [found.condition, found.body.node] (reach found.body.isBlock d) ∧
      kinds.kindAt (reach found.body.isBlock d).prev ≠ .newline := by
  obtain ⟨_, m, tested, _, answered⟩ := clause_eq_ok.1 succeeds
  have front : Laid kinds c.next found.condition m := lies .expression _ _ tested
  have back : Laid kinds m.next found.body.node (reach found.body.isBlock d) :=
    lies .body _ _ answered
  exact ⟨front.cons (back.from (Nat.le_succ _)).row, back.closed⟩

theorem clauses_laid {word : Keyword} {first : Clause Tree} {rest : List (Clause Tree)}
    (opens : (clause word).eval kinds answers c = .ok ⟨first, m⟩)
    (series : Series (turnIf kinds isElif ((clause .elif).eval kinds answers)) m rest d) :
    Row kinds c.next
      ((first :: rest).flatMap fun found => [found.condition, found.body.node])
      (reach (endsInBlock (first :: rest)) d) ∧
      kinds.kindAt (reach (endsInBlock (first :: rest)) d).prev ≠ .newline := by
  induction rest generalizing word c first m with
  | nil =>
    obtain ⟨_, rfl⟩ := series_nil.1 series
    exact clause_laid lies opens
  | cons another rest ih =>
    obtain ⟨_, e, found, series⟩ := series_cons.1 series
    obtain ⟨front, _⟩ := clause_laid lies opens
    obtain ⟨back, closed⟩ := ih found series
    have row := (front.widen (Nat.le_refl _) (reach_le_next _ _)).append back
    rw [endsInBlock, List.getLast?_cons_cons, List.flatMap_cons]
    exact ⟨row, closed⟩

theorem conditional_laid (moves : ∀ rule c, Moved kinds c (answers rule c))
    (passes : kinds.Passes c d)
    (succeeds : (conditional kinds.size).eval kinds answers c = .ok ⟨tree, d⟩) :
    Laid kinds c tree d := by
  obtain ⟨first, m, rest, e, last, opens, series, ends, rfl⟩ := (conditional_eq_ok moves).1 succeeds
  obtain ⟨clauses, closed⟩ := clauses_laid lies opens series
  have clauses := clauses.widen (Nat.le_succ _) (Nat.le_refl _)
  rcases otherwise_eq_ok.1 ends with
    ⟨isBlock, closing, rfl, rfl⟩ | ⟨_, body, answered, rfl⟩ | ⟨isInline, _, rfl, rfl⟩
  · rw [isBlock] at clauses
    exact .nameless rfl rfl passes (by simp [closing]) (clauses.append (.nil (Nat.le_refl _)))
  · have final : Laid kinds e.next body.node d := lies .closedBody _ _ answered
    have clauses := clauses.widen (Nat.le_refl _) (reach_le_next _ _)
    exact .nameless rfl rfl passes final.closed (clauses.append final.row)
  · rw [isInline] at clauses closed
    exact .nameless rfl rfl passes closed (clauses.append (.nil (Nat.le_refl _)))

theorem whileLoop_laid (passes : kinds.Passes c d)
    (succeeds : whileLoop.eval kinds answers c = .ok ⟨tree, d⟩) : Laid kinds c tree d := by
  obtain ⟨_, condition, m, body, tested, _, answered, rfl⟩ := whileLoop_eq_ok.1 succeeds
  have front : Laid kinds c.next condition m := lies .expression _ _ tested
  have back : Laid kinds m.next body.node d := lies .closedBody _ _ answered
  exact .nameless rfl rfl passes back.closed
    ((front.from (Nat.le_succ _)).cons (back.from (Nat.le_succ _)).row)

theorem stride_laid {step : Option Tree} (succeeds : stride.eval kinds answers c = .ok ⟨step, d⟩) :
    Row kinds c step.toList d := by
  rcases stride_eq_ok.1 succeeds with ⟨_, value, answered, rfl⟩ | ⟨_, rfl, rfl⟩
  · have inner : Laid kinds c.next value d := lies .expression _ _ answered
    exact (inner.from (Nat.le_succ _)).row
  · exact .nil (Nat.le_refl _)

theorem forLoop_laid (passes : kinds.Passes c d)
    (succeeds : forLoop.eval kinds answers c = .ok ⟨tree, d⟩) : Laid kinds c tree d := by
  obtain ⟨_, name, lower, m, upper, e, step, g, body, named, _, starts, _, stops, strides, _,
    answered, rfl⟩ := forLoop_eq_ok.1 succeeds
  have low : Laid kinds c.next.next.next lower m := lies .expression _ _ starts
  have high : Laid kinds m.next upper e := lies .expression _ _ stops
  have inner : Laid kinds g.next body.node d := lies .closedBody _ _ answered
  have back := (stride_laid lies strides).append (inner.from (Nat.le_succ _)).row
  have row := (low.from (Nat.le_succ _)).cons ((high.from (Nat.le_succ _)).cons back)
  refine .node (m := c.next.next) rfl passes inner.closed ?_ (by simpa [Node.names, Named]) row
  exact ⟨Nat.le_succ _, Nat.le_refl _, Nat.le_refl _⟩

theorem function_laid (passes : kinds.Passes c d)
    (succeeds : (function kinds.size).eval kinds answers c = .ok ⟨tree, d⟩) :
    Laid kinds c tree d := by
  obtain ⟨_, title, m, params, e, body, titled, listed, answered, rfl⟩ := function_eq_ok.1 succeeds
  obtain ⟨front, named⟩ := functionName_laid titled
  obtain ⟨back, allNamed⟩ := params_laid listed
  have names := (front.append back).widen (Nat.le_succ _) (Nat.le_refl _)
  rw [← List.map_append] at names
  have inner : Laid kinds e.next body.node d := by
    rcases functionBody_eq_ok.1 answered with
      ⟨_, node, inside, rfl⟩ | ⟨_, node, g, inside, _, rfl, rfl⟩
    · exact lies .expression _ _ inside
    · exact lies .block _ _ inside
  exact .node rfl passes inner.closed names (List.forall_mem_append.2 ⟨named, allNamed⟩)
    (inner.from (Nat.le_succ _)).row

theorem parser_laid (moves : ∀ rule c, Moved kinds c (answers rule c)) {rule : Rule}
    {parsed : Parsed rule.Value}
    (succeeds : (rule.parser kinds.size).eval kinds answers c = .ok parsed) :
    Laid kinds c (rule.node parsed.value) (rule.reach parsed) := by
  have passes : kinds.Passes c parsed.cursor := by
    have moved := rule.eval_moves moves kinds.size c
    rwa [succeeds] at moved
  cases rule with
  | block => exact block_laid lies moves succeeds
  | statement => exact statement_laid lies passes succeeds
  | expression => exact expression_laid lies moves passes succeeds
  | comparison => exact comparison_laid lies moves passes succeeds
  | sum =>
    exact chained_laid (fun c _ _ answered => lies .product c _ answered)
      (fun c _ _ answered => lies .product c _ answered) ((sum_eq_ok moves).1 succeeds)
  | product =>
    exact chained_laid (fun c _ _ answered => lies .signed c _ answered)
      (fun c _ _ answered => lies .signed c _ answered) ((product_eq_ok moves).1 succeeds)
  | signed => exact signed_laid lies passes succeeds
  | power =>
    exact chained_laid (fun c _ _ answered => lies .application c _ answered)
      (fun c _ _ answered => lies .signed c _ answered) ((power_eq_ok moves).1 succeeds)
  | application => exact application_laid lies moves passes succeeds
  | atom => exact atom_laid lies succeeds
  | listing => exact listing_laid lies moves passes succeeds
  | conditional => exact conditional_laid lies moves passes succeeds
  | forLoop => exact forLoop_laid lies passes succeeds
  | whileLoop => exact whileLoop_laid lies passes succeeds
  | function => exact function_laid lies passes succeeds
  | body => exact body_laid lies succeeds
  | closedBody => exact closedBody_laid lies succeeds

end Rules

end Parser

theorem Rule.answer_laid {limit : Limit} {depth : Nat} {rule : Rule} {parsed : Parsed rule.Value}
    (succeeds : Rule.answer kinds limit depth rule c = .ok parsed) :
    Laid kinds c (rule.node parsed.value) (rule.reach parsed) :=
  Rule.answer_induction (fun _ _ _ _ moves lies => Parser.parser_laid lies moves) succeeds

/-- All nodes of a program lie on its tokens as they should. -/
theorem parseKinds_tidy {limit : Limit} {tree : Tree}
    (accepted : (parseKinds kinds limit .start).1 = .ok tree) :
    ∀ node ∈ Node.nodes tree, Tidy kinds node := by
  obtain ⟨d, answered, _⟩ := parseKinds_eq_ok.1 accepted
  exact (Rule.answer_laid answered).tidy

end Sharp.Grammar

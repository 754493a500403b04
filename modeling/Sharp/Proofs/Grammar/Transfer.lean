import Sharp.Proofs.Grammar.Climbing

/-!
Successes carried over to another row. The other row has the same tokens as far as the first one
goes and may go on behind a separator where that one ends; the rules may be given other answers as
well. What succeeds on the first row does so on the other one, on three conditions: what the calls
succeed with is carried over, what was tried in vain behind a bare return fails there too, and a
block that has yet to be closed is followed by a closer, where no further statement can be read.
-/
namespace Sharp.Grammar

open Sharp.Grammar.Parser

namespace Rule

/-- The tree in a value. -/
def node : (rule : Rule) → rule.Value → Tree
  | .body, inner | .closedBody, inner => inner.node
  | .block, tree | .statement, tree | .expression, tree | .comparison, tree | .sum, tree
  | .product, tree | .signed, tree | .power, tree | .application, tree | .atom, tree
  | .listing, tree | .conditional, tree | .forLoop, tree | .whileLoop, tree
  | .function, tree => tree

/-- Values that end in a block that has yet to be closed. -/
def isOpen : (rule : Rule) → rule.Value → Prop
  | .body, inner => inner.isBlock = true
  | .block, _ => True
  | _, _ => False

end Rule

/-- All bare returns of a tree stand in front of such cursors. -/
def ReturnsBefore (holds : Cursor → Prop) (tree : Tree) : Prop :=
  ∀ place ∈ tree.bareReturns, holds place.first.next

namespace ReturnsBefore

variable {holds : Cursor → Prop} {place : Extent} {name : Ident Extent} {tree left right : Tree}
  {trees : List Tree} {inner : Body Tree}

theorem iff_children {tree : Tree} (own : Node.ownBareReturns tree = []) :
    ReturnsBefore holds tree ↔ ∀ child ∈ Node.children tree, ReturnsBefore holds child := by
  unfold ReturnsBefore
  rw [Node.bareReturns_eq, own]
  simp only [List.nil_append, List.mem_flatMap, forall_exists_index, and_imp]
  grind

theorem block :
    ReturnsBefore holds (.block place trees) ↔ ∀ child ∈ trees, ReturnsBefore holds child :=
  iff_children rfl

theorem list :
    ReturnsBefore holds (.list place trees) ↔ ∀ child ∈ trees, ReturnsBefore holds child :=
  iff_children rfl

theorem call : ReturnsBefore holds (.call place tree trees) ↔
    ∀ child ∈ tree :: trees, ReturnsBefore holds child :=
  iff_children rfl

theorem assign : ReturnsBefore holds (.assign place name tree) ↔ ReturnsBefore holds tree :=
  (iff_children rfl).trans (by simp [Node.children])

theorem unary {op : UnaryOp} :
    ReturnsBefore holds (.unary place op tree) ↔ ReturnsBefore holds tree :=
  (iff_children rfl).trans (by simp [Node.children])

theorem binary {op : BinaryOp} : ReturnsBefore holds (.binary place op left right) ↔
    ReturnsBefore holds left ∧ ReturnsBefore holds right :=
  (iff_children rfl).trans (by simp [Node.children])

theorem returnWith :
    ReturnsBefore holds (.returnWith place (some tree)) ↔ ReturnsBefore holds tree :=
  (iff_children rfl).trans (by simp [Node.children])

theorem bareReturn :
    ReturnsBefore holds (.returnWith place none) ↔ holds place.first.next := by
  rw [ReturnsBefore, Node.bareReturns_eq]
  simp [Node.ownBareReturns, Node.children]

theorem ifElse {clauses : List (Clause Tree)} {last : Option (Body Tree)} :
    ReturnsBefore holds (.ifElse place clauses last) ↔
      (∀ clause ∈ clauses,
        ReturnsBefore holds clause.condition ∧ ReturnsBefore holds clause.body.node) ∧
      ∀ body ∈ last, ReturnsBefore holds body.node := by
  apply (iff_children rfl).trans
  simp only [Node.children, List.mem_append, List.mem_flatMap, List.mem_cons, List.not_mem_nil]
  cases last <;> grind

theorem whileLoop : ReturnsBefore holds (.whileLoop place tree inner) ↔
    ReturnsBefore holds tree ∧ ReturnsBefore holds inner.node :=
  (iff_children rfl).trans (by simp [Node.children])

theorem forLoop {step : Option Tree} :
    ReturnsBefore holds (.forLoop place name left right step inner) ↔
      ReturnsBefore holds left ∧ ReturnsBefore holds right ∧
        (∀ value ∈ step, ReturnsBefore holds value) ∧ ReturnsBefore holds inner.node := by
  apply (iff_children rfl).trans
  cases step <;> simp [Node.children]

theorem function {title : Option (Ident Extent)} {params : List (Ident Extent)} :
    ReturnsBefore holds (.function place title params inner) ↔ ReturnsBefore holds inner.node :=
  (iff_children rfl).trans (by simp [Node.children])

theorem chain {operands : List (BinaryOp × Tree)} {first : Tree} :
    ReturnsBefore holds (operands.foldl attach first) ↔
      ReturnsBefore holds first ∧ ∀ operand ∈ operands, ReturnsBefore holds operand.2 := by
  induction operands generalizing first with
  | nil => simp
  | cons operand rest ih =>
    rw [List.foldl_cons, ih, attach, binary, List.forall_mem_cons, and_assoc]

end ReturnsBefore

/-- One kind for both, or the end of the text for one and a separator for the other. -/
def Alike (kind other : TokenKind) : Prop := other = kind ∨ kind = .eof ∧ other = .newline

namespace Alike

variable {kind other : TokenKind}

/-- Nobody can tell them apart but by asking for separators or for the end. -/
theorem congr {γ : Type} (alike : Alike kind other) (test : TokenKind → γ)
    (blind : test .newline = test .eof) : test other = test kind := by
  rcases alike with rfl | ⟨rfl, rfl⟩
  · rfl
  · exact blind

theorem ne {wanted : TokenKind} (alike : Alike kind other) (different : kind ≠ wanted)
    (plain : wanted ≠ .newline) : other ≠ wanted := by
  rcases alike with rfl | ⟨rfl, rfl⟩
  · exact different
  · exact plain.symm

end Alike

/-- Another row, and other answers on it, to which successes are carried over. -/
structure Carries (kinds other : Kinds) (holds : Cursor → Prop) (answers others : Answers) :
    Prop where
  same : ∀ c, kinds.kindAt c ≠ .eof → other.kindAt c = kinds.kindAt c
  alike : ∀ c d, kinds.Passes c d → Alike (kinds.kindAt d) (other.kindAt d)
  moves : ∀ rule c, Moved kinds c (answers rule c)
  moved : ∀ rule c, Moved other c (others rule c)
  spares : ∀ c, holds c → ∃ error, others .expression c = .error error
  refuses : ∀ c, (other.kindAt c).closes = true → ∃ error, others .statement c = .error error
  transfers : ∀ rule c parsed, answers rule c = .ok parsed →
    ReturnsBefore holds (rule.node parsed.value) →
    (rule.isOpen parsed.value → (kinds.kindAt parsed.cursor).closes = true ∧
      other.kindAt parsed.cursor = kinds.kindAt parsed.cursor) →
    others rule c = .ok parsed

namespace Carries

variable {kinds other : Kinds} {holds : Cursor → Prop} {answers others : Answers}
  {b c d m : Cursor} {tree : Tree}

section Tokens

variable (t : Carries kinds other holds answers others)

include t

theorem found {kind : TokenKind} (here : kinds.kindAt c = kind) (more : kind ≠ .eof) :
    other.kindAt c = kind :=
  (t.same c (here ▸ more)).trans here

theorem reads {word : List TokenKind} (reads : kinds.Reads c word d) : other.Reads c word d := by
  induction word generalizing c with
  | nil => exact reads
  | cons kind word ih =>
    obtain ⟨here, more, rest⟩ := reads
    exact ⟨t.found here more, more, ih rest⟩

theorem passes {rule : Rule} {parsed : Parsed rule.Value} (answered : answers rule c = .ok parsed) :
    kinds.Passes c parsed.cursor := by
  have moved := t.moves rule c
  rwa [answered] at moved

/-- A call succeeds on a token that both rows have. -/
theorem here {rule : Rule} {parsed : Parsed rule.Value} (answered : answers rule c = .ok parsed) :
    other.kindAt c = kinds.kindAt c :=
  t.same c (t.passes answered).kindAt_ne

theorem behind {rule : Rule} {parsed : Parsed rule.Value} (answered : answers rule c = .ok parsed) :
    Alike (kinds.kindAt parsed.cursor) (other.kindAt parsed.cursor) :=
  t.alike c _ (t.passes answered)

theorem skips {n : Nat} (skips : Skips kinds c n d) (same : other.kindAt d = kinds.kindAt d) :
    Skips other c n d :=
  ⟨t.reads skips.1, same ▸ skips.2⟩

end Tokens

end Carries

namespace Parser

variable {kinds other : Kinds} {holds : Cursor → Prop} {answers others : Answers} {c d : Cursor}
  {tree : Tree} (t : Carries kinds other holds answers others)

include t

theorem chained_transfers {level : Level} {left right left' right' : Cursor → Outcome Tree}
    (first : ∀ x d, left c = .ok ⟨x, d⟩ → ReturnsBefore holds x →
      kinds.Passes c d ∧ left' c = .ok ⟨x, d⟩)
    (later : ∀ b x d, right b = .ok ⟨x, d⟩ → ReturnsBefore holds x →
      kinds.Passes b d ∧ right' b = .ok ⟨x, d⟩)
    (spared : ReturnsBefore holds tree) (chained : Chained kinds level left right c tree d) :
    Chained other level left' right' c tree d := by
  obtain ⟨head, m, rest, answered, series, rfl⟩ := chained
  obtain ⟨front, operands⟩ := ReturnsBefore.chain.1 spared
  obtain ⟨passes, also⟩ := first head m answered front
  refine ⟨head, m, rest, also, ?_, rfl⟩
  refine series.transfers (kinds.Passes c) (fun e passes finished => ?_)
    (fun e x g passes found spared => ?_) passes operands
  · obtain ⟨ends, rfl⟩ := nextOperand_eq_none.1 finished
    exact nextOperand_eq_none.2 ⟨((t.alike c _ passes).congr _ rfl).trans ends, rfl⟩
  · obtain ⟨op, operand⟩ := x
    obtain ⟨sign, bound, answered⟩ := nextOperand_eq_some.1 found
    obtain ⟨further, also⟩ := later _ _ _ answered spared
    have more : op.token ≠ .eof := by cases op <;> simp [BinaryOp.token]
    exact ⟨(passes.reaches.passes_next (sign ▸ more)).trans further,
      nextOperand_eq_some.2 ⟨t.found sign more, bound, also⟩⟩

/-- A block that stops on the first row goes on with what the other one has in store there. -/
theorem block_prolong {place : Extent} {trees back : List Tree} {e : Cursor}
    (succeeds : (block kinds.size).eval kinds answers c = .ok ⟨.block place trees, d⟩)
    (spared : ReturnsBefore holds (.block place trees))
    (finish : ∀ c n, Skips kinds c n d → Series (nextStatement other others) c back e) :
    (block other.size).eval other others c = .ok ⟨.block ⟨place.first, e⟩ (trees ++ back), e⟩ := by
  obtain ⟨n, m, first, g, rest, skips, answered, series, rfl, rfl⟩ :=
    found_of_block t.moves succeeds
  obtain ⟨front, statements⟩ := List.forall_mem_cons.1 (ReturnsBefore.block.1 spared)
  have statement (c : Cursor) (value : Tree) (d : Cursor)
      (answered : answers .statement c = .ok ⟨value, d⟩) (spared : ReturnsBefore holds value) :
      others .statement c = .ok ⟨value, d⟩ :=
    t.transfers .statement c ⟨value, d⟩ answered spared nofun
  refine (block_eq_ok t.moved).2 ⟨n, m, first, g, rest ++ back, t.skips skips (t.here answered),
    statement m first g answered front, ?_, rfl⟩
  refine series.prolong (fun _ => True) (fun c _ finished => ?_)
    (fun c x e _ found spared => ⟨trivial, ?_⟩) trivial statements
  · obtain ⟨n, skips, _⟩ := nextStatement_eq_none.1 finished
    exact finish c n skips
  · obtain ⟨n, s, skips, answered⟩ := nextStatement_eq_some.1 found
    exact nextStatement_eq_some.2
      ⟨n, s, t.skips skips (t.here answered), statement s x e answered spared⟩

theorem block_transfers (succeeds : (block kinds.size).eval kinds answers c = .ok ⟨tree, d⟩)
    (spared : ReturnsBefore holds tree)
    (closes : (kinds.kindAt d).closes = true ∧ other.kindAt d = kinds.kindAt d) :
    (block other.size).eval other others c = .ok ⟨tree, d⟩ := by
  obtain ⟨_, _, first, _, rest, _, _, _, rfl⟩ := (block_eq_ok t.moves).1 succeeds
  have stops (c : Cursor) (n : Nat) (skips : Skips kinds c n d) :
      Series (nextStatement other others) c [] d :=
    nextStatement_eq_none.2 ⟨n, t.skips skips closes.2, .inr (t.refuses d (closes.2 ▸ closes.1))⟩
  simpa using block_prolong t succeeds spared stops

theorem statement_transfers (here : other.kindAt c = kinds.kindAt c)
    (succeeds : statement.eval kinds answers c = .ok ⟨tree, d⟩)
    (spared : ReturnsBefore holds tree) : statement.eval other others c = .ok ⟨tree, d⟩ := by
  have succeeds := statement_eq_ok.1 succeeds
  apply statement_eq_ok.2
  rw [here]
  split at succeeds
  · rcases succeeds with ⟨value, answered, rfl⟩ | ⟨_, rfl, rfl⟩
    · exact .inl ⟨value, t.transfers .expression _ _ answered (ReturnsBefore.returnWith.1 spared)
        nofun, rfl⟩
    · exact .inr ⟨t.spares _ (ReturnsBefore.bareReturn.1 spared), rfl, rfl⟩
  · exact succeeds
  · exact succeeds
  · exact t.transfers .expression _ _ succeeds spared nofun

theorem body_transfers {inner : Body Tree} (here : other.kindAt c = kinds.kindAt c)
    (succeeds : body.eval kinds answers c = .ok ⟨inner, d⟩)
    (spared : ReturnsBefore holds inner.node)
    (closes : inner.isBlock = true →
      (kinds.kindAt d).closes = true ∧ other.kindAt d = kinds.kindAt d) :
    body.eval other others c = .ok ⟨inner, d⟩ := by
  have succeeds := body_eq_ok.1 succeeds
  apply body_eq_ok.2
  rw [here]
  split at succeeds
  · rename_i separator
    obtain ⟨node, answered, rfl⟩ := succeeds
    rw [if_pos separator]
    exact ⟨node, t.transfers .block _ _ answered spared fun _ => closes rfl, rfl⟩
  · rename_i different
    obtain ⟨node, answered, rfl⟩ := succeeds
    rw [if_neg different]
    exact ⟨node, t.transfers .statement _ _ answered spared nofun, rfl⟩

theorem closedBody_transfers {inner : Body Tree}
    (succeeds : closedBody.eval kinds answers c = .ok ⟨inner, d⟩)
    (spared : ReturnsBefore holds inner.node) :
    closedBody.eval other others c = .ok ⟨inner, d⟩ := by
  obtain ⟨m, answered, ends⟩ := closedBody_eq_ok.1 succeeds
  cases isBlock : inner.isBlock with
  | true =>
    obtain ⟨closed, rfl⟩ := (if_pos isBlock).mp ends
    have also := t.found closed (by simp)
    refine closedBody_eq_ok.2 ⟨m, t.transfers .body _ _ answered spared fun _ => ?_, ?_⟩
    · exact ⟨closed ▸ rfl, also.trans closed.symm⟩
    · rw [if_pos isBlock]
      exact ⟨also, rfl⟩
  | false =>
    have isInline : ¬ inner.isBlock = true := by simp [isBlock]
    refine closedBody_eq_ok.2 ⟨m, t.transfers .body _ _ answered spared (absurd · isInline), ?_⟩
    rw [if_neg isInline] at ends ⊢
    exact ends

theorem expression_transfers (here : other.kindAt c = kinds.kindAt c)
    (succeeds : (expression kinds.size).eval kinds answers c = .ok ⟨tree, d⟩)
    (spared : ReturnsBefore holds tree) :
    (expression other.size).eval other others c = .ok ⟨tree, d⟩ := by
  apply (expression_eq_ok t.moved).2
  rw [here]
  rcases (expression_eq_ok t.moves).1 succeeds with
    ⟨found, name, value, named, assigned, answered, rfl⟩ | ⟨different, chained⟩
  · exact .inl ⟨found, name, value, t.found named (by simp), t.found assigned (by simp),
      t.transfers .expression _ _ answered (ReturnsBefore.assign.1 spared) nofun, rfl⟩
  · have operand (c : Cursor) (x : Tree) (d : Cursor)
        (answered : answers .comparison c = .ok ⟨x, d⟩) (spared : ReturnsBefore holds x) :=
      And.intro (t.passes answered) (t.transfers .comparison c ⟨x, d⟩ answered spared nofun)
    exact .inr ⟨different, chained_transfers t (operand c) operand spared chained⟩

theorem comparison_transfers (here : other.kindAt c = kinds.kindAt c)
    (succeeds : (comparison kinds.size).eval kinds answers c = .ok ⟨tree, d⟩)
    (spared : ReturnsBefore holds tree) :
    (comparison other.size).eval other others c = .ok ⟨tree, d⟩ := by
  apply (comparison_eq_ok t.moved).2
  rw [here]
  rcases (comparison_eq_ok t.moves).1 succeeds with
    ⟨found, operand, answered, rfl⟩ | ⟨different, chained⟩
  · exact .inl ⟨found, operand, t.transfers .comparison _ _ answered
      (ReturnsBefore.unary.1 spared) nofun, rfl⟩
  · have operand (c : Cursor) (x : Tree) (d : Cursor)
        (answered : answers .sum c = .ok ⟨x, d⟩) (spared : ReturnsBefore holds x) :=
      And.intro (t.passes answered) (t.transfers .sum c ⟨x, d⟩ answered spared nofun)
    exact .inr ⟨different, chained_transfers t (operand c) operand spared chained⟩

theorem signed_transfers (here : other.kindAt c = kinds.kindAt c)
    (succeeds : signed.eval kinds answers c = .ok ⟨tree, d⟩) (spared : ReturnsBefore holds tree) :
    signed.eval other others c = .ok ⟨tree, d⟩ := by
  apply signed_eq_ok.2
  rw [here]
  rcases signed_eq_ok.1 succeeds with ⟨op, operand, sign, answered, rfl⟩ | ⟨different, answered⟩
  · exact .inl ⟨op, operand, sign, t.transfers .signed _ _ answered
      (ReturnsBefore.unary.1 spared) nofun, rfl⟩
  · exact .inr ⟨different, t.transfers .power _ _ answered spared nofun⟩

/-- Items with commas in front of them. -/
theorem items_transfer {ε : Type} {item also : Cursor → Outcome ε} {good : ε → Prop}
    {items : List ε} {m : Cursor}
    (each : ∀ b x e, item b = .ok ⟨x, e⟩ → good x → kinds.Passes b e ∧ also b = .ok ⟨x, e⟩)
    (passes : kinds.Passes c m)
    (series : Series (turnIf kinds isComma fun c => item c.next) m items d)
    (all : ∀ x ∈ items, good x) : Series (turnIf other isComma fun c => also c.next) m items d := by
  refine series.transfers (kinds.Passes c) (fun b passes finished => ?_)
    (fun b x e passes found fine => ?_) passes all
  · obtain ⟨ends, rfl⟩ := turnIf_eq_none.1 finished
    exact turnIf_eq_none.2 ⟨((t.alike c _ passes).congr isComma rfl).trans ends, rfl⟩
  · obtain ⟨comma, answered⟩ := turnIf_eq_some.1 found
    obtain ⟨further, found⟩ := each _ x e answered fine
    have sign := isSymbol_iff.1 comma
    have begun : kinds.Passes c b.next := passes.reaches.passes_next (by simp [sign])
    exact ⟨begun.trans further,
      turnIf_eq_some.2 ⟨isSymbol_iff.2 (t.found sign (by simp)), found⟩⟩

theorem enclosed_transfers {close : Symbol} {items : List Tree}
    (succeeds : (enclosed kinds.size close).eval kinds answers c = .ok ⟨items, d⟩)
    (spared : ∀ item ∈ items, ReturnsBefore holds item) :
    (enclosed other.size close).eval other others c = .ok ⟨items, d⟩ := by
  apply (enclosed_eq_ok t.moved).2
  rcases (enclosed_eq_ok t.moves).1 succeeds with
    ⟨closed, rfl, rfl⟩ | ⟨different, first, m, rest, e, answered, series, closed, rfl, rfl⟩
  · exact .inl ⟨t.found closed (by simp), rfl, rfl⟩
  have item (c : Cursor) (x : Tree) (d : Cursor) (answered : answers .expression c = .ok ⟨x, d⟩)
      (spared : ReturnsBefore holds x) :=
    And.intro (t.passes answered) (t.transfers .expression c ⟨x, d⟩ answered spared nofun)
  obtain ⟨front, back⟩ := List.forall_mem_cons.1 spared
  obtain ⟨passes, also⟩ := item c first m answered front
  exact .inr ⟨t.here answered ▸ different, first, m, rest, e, also,
    items_transfer t item passes series back, t.found closed (by simp), rfl, rfl⟩

theorem application_transfers
    (succeeds : (application kinds.size).eval kinds answers c = .ok ⟨tree, d⟩)
    (spared : ReturnsBefore holds tree) :
    (application other.size).eval other others c = .ok ⟨tree, d⟩ := by
  obtain ⟨callee, m, answered, rest⟩ := application_eq_ok.1 succeeds
  rcases rest with ⟨opened, args, enclosed, rfl⟩ | ⟨different, rfl, rfl⟩
  · obtain ⟨front, others⟩ := List.forall_mem_cons.1 (ReturnsBefore.call.1 spared)
    have arguments := enclosed_transfers t enclosed others
    exact application_eq_ok.2 ⟨callee, m, t.transfers .atom _ _ answered front nofun,
      .inl ⟨t.found opened (by simp), args, arguments, rfl⟩⟩
  · exact application_eq_ok.2 ⟨tree, d, t.transfers .atom _ _ answered spared nofun,
      .inr ⟨(t.behind answered).ne different (by simp), rfl, rfl⟩⟩

theorem listing_transfers (succeeds : (listing kinds.size).eval kinds answers c = .ok ⟨tree, d⟩)
    (spared : ReturnsBefore holds tree) :
    (listing other.size).eval other others c = .ok ⟨tree, d⟩ := by
  obtain ⟨opened, items, enclosed, rfl⟩ := listing_eq_ok.1 succeeds
  exact listing_eq_ok.2 ⟨t.found opened (by simp), items,
    enclosed_transfers t enclosed (ReturnsBefore.list.1 spared), rfl⟩

theorem atom_transfers (here : other.kindAt c = kinds.kindAt c)
    (succeeds : atom.eval kinds answers c = .ok ⟨tree, d⟩) (spared : ReturnsBefore holds tree) :
    atom.eval other others c = .ok ⟨tree, d⟩ := by
  have succeeds := atom_eq_ok.1 succeeds
  apply atom_eq_ok.2
  rw [here]
  split at succeeds
  · obtain ⟨m, answered, closed, rfl⟩ := succeeds
    exact ⟨m, t.transfers .expression _ _ answered spared nofun, t.found closed (by simp), rfl⟩
  · exact t.transfers .listing _ _ succeeds spared nofun
  · exact t.transfers .conditional _ _ succeeds spared nofun
  · exact t.transfers .forLoop _ _ succeeds spared nofun
  · exact t.transfers .whileLoop _ _ succeeds spared nofun
  · exact t.transfers .function _ _ succeeds spared nofun
  · exact succeeds

theorem clause_transfers {word : Keyword} {found : Clause Tree}
    (succeeds : (clause word).eval kinds answers c = .ok ⟨found, d⟩)
    (condition : ReturnsBefore holds found.condition) (body : ReturnsBefore holds found.body.node)
    (closes : found.body.isBlock = true →
      (kinds.kindAt d).closes = true ∧ other.kindAt d = kinds.kindAt d) :
    (clause word).eval other others c = .ok ⟨found, d⟩ := by
  obtain ⟨first, m, tested, thens, answered⟩ := clause_eq_ok.1 succeeds
  exact clause_eq_ok.2 ⟨t.found first (by simp), m,
    t.transfers .expression _ _ tested condition nofun, t.found thens (by simp),
    t.transfers .body _ _ answered body closes⟩

theorem whileLoop_transfers (succeeds : whileLoop.eval kinds answers c = .ok ⟨tree, d⟩)
    (spared : ReturnsBefore holds tree) : whileLoop.eval other others c = .ok ⟨tree, d⟩ := by
  obtain ⟨first, condition, m, body, tested, thens, answered, rfl⟩ := whileLoop_eq_ok.1 succeeds
  obtain ⟨test, inner⟩ := ReturnsBefore.whileLoop.1 spared
  exact whileLoop_eq_ok.2 ⟨t.found first (by simp), condition, m, body,
    t.transfers .expression _ _ tested test nofun, t.found thens (by simp),
    t.transfers .closedBody _ _ answered inner nofun, rfl⟩

theorem stride_transfers {step : Option Tree} (alike : Alike (kinds.kindAt c) (other.kindAt c))
    (succeeds : stride.eval kinds answers c = .ok ⟨step, d⟩)
    (spared : ∀ value ∈ step, ReturnsBefore holds value) :
    stride.eval other others c = .ok ⟨step, d⟩ := by
  apply stride_eq_ok.2
  rcases stride_eq_ok.1 succeeds with
    ⟨stepping, value, answered, rfl⟩ | ⟨different, rfl, rfl⟩
  · exact .inl ⟨t.found stepping (by simp), value,
      t.transfers .expression _ _ answered (spared value rfl) nofun, rfl⟩
  · exact .inr ⟨alike.ne different (by simp), rfl, rfl⟩

theorem forLoop_transfers (succeeds : forLoop.eval kinds answers c = .ok ⟨tree, d⟩)
    (spared : ReturnsBefore holds tree) : forLoop.eval other others c = .ok ⟨tree, d⟩ := by
  obtain ⟨first, name, lower, m, upper, e, step, g, body, named, assigned, starts, upTo, stops,
    strides, thens, answered, rfl⟩ := forLoop_eq_ok.1 succeeds
  obtain ⟨start, stop, value, inner⟩ := ReturnsBefore.forLoop.1 spared
  exact forLoop_eq_ok.2 ⟨t.found first (by simp), name, lower, m, upper, e, step, g, body,
    t.found named (by simp), t.found assigned (by simp),
    t.transfers .expression _ _ starts start nofun, t.found upTo (by simp),
    t.transfers .expression _ _ stops stop nofun,
    stride_transfers t (t.behind stops) strides value, t.found thens (by simp),
    t.transfers .closedBody _ _ answered inner nofun, rfl⟩

theorem otherwise_transfers {clauses : List (Clause Tree)} {last : Option (Body Tree)}
    (alike : Alike (kinds.kindAt c) (other.kindAt c))
    (succeeds : (otherwise clauses).eval kinds answers c = .ok ⟨last, d⟩)
    (spared : ∀ body ∈ last, ReturnsBefore holds body.node) :
    (otherwise clauses).eval other others c = .ok ⟨last, d⟩ := by
  apply otherwise_eq_ok.2
  rcases otherwise_eq_ok.1 succeeds with
    ⟨isBlock, closed, rest⟩ | ⟨word, body, answered, rfl⟩ | ⟨isInline, different, rest⟩
  · exact .inl ⟨isBlock, t.found closed (by simp), rest⟩
  · have also := t.transfers .closedBody _ _ answered (spared body rfl) nofun
    exact .inr (.inl ⟨t.found word (by simp), body, also, rfl⟩)
  · exact .inr (.inr ⟨isInline, alike.ne different (by simp), rest⟩)

/-- Only a word that both rows have closes a block or stands in front of another clause. -/
theorem closes_of_otherwise {clauses : List (Clause Tree)} {last : Option (Body Tree)}
    (succeeds : (otherwise clauses).eval kinds answers c = .ok ⟨last, d⟩)
    (isBlock : endsInBlock clauses = true) :
    (kinds.kindAt c).closes = true ∧ other.kindAt c = kinds.kindAt c := by
  rcases otherwise_eq_ok.1 succeeds with ⟨_, closed, _⟩ | ⟨word, _⟩ | ⟨isInline, _⟩
  · exact ⟨closed ▸ rfl, (t.found closed (by simp)).trans closed.symm⟩
  · exact ⟨word ▸ rfl, (t.found word (by simp)).trans word.symm⟩
  · simp [isBlock] at isInline

theorem conditional_transfers
    (succeeds : (conditional kinds.size).eval kinds answers c = .ok ⟨tree, d⟩)
    (spared : ReturnsBefore holds tree) :
    (conditional other.size).eval other others c = .ok ⟨tree, d⟩ := by
  obtain ⟨first, m, rest, e, last, opens, series, ends, rfl⟩ :=
    (conditional_eq_ok t.moves).1 succeeds
  obtain ⟨clauses, ending⟩ := ReturnsBefore.ifElse.1 spared
  obtain ⟨front, further⟩ := List.forall_mem_cons.1 clauses
  have alike {word : Keyword} {found : Clause Tree} {c d : Cursor}
      (answered : (clause word).eval kinds answers c = .ok ⟨found, d⟩) :
      Alike (kinds.kindAt d) (other.kindAt d) := by
    obtain ⟨_, _, _, _, body⟩ := clause_eq_ok.1 answered
    exact t.behind body
  -- A block in front of a further clause is followed by its word, the last one by what closes it.
  have goesOn (rest : List (Clause Tree)) (first : Clause Tree) (m : Cursor)
      (begins : Alike (kinds.kindAt m) (other.kindAt m))
      (series : Series (turnIf kinds isElif ((clause .elif).eval kinds answers)) m rest e)
      (shut : endsInBlock (first :: rest) = true →
        (kinds.kindAt e).closes = true ∧ other.kindAt e = kinds.kindAt e)
      (spared : ∀ clause ∈ rest,
        ReturnsBefore holds clause.condition ∧ ReturnsBefore holds clause.body.node) :
      (first.body.isBlock = true →
        (kinds.kindAt m).closes = true ∧ other.kindAt m = kinds.kindAt m) ∧
        Alike (kinds.kindAt e) (other.kindAt e) ∧
        Series (turnIf other isElif ((clause .elif).eval other others)) m rest e := by
    induction rest generalizing first m with
    | nil =>
      obtain ⟨different, rfl⟩ := series_nil.1 series
      exact ⟨fun isBlock => shut (by simpa [endsInBlock] using isBlock), begins,
        series_nil.2 ⟨(begins.congr isElif rfl).trans different, rfl⟩⟩
    | cons next rest ih =>
      obtain ⟨more, g, answered, series⟩ := series_cons.1 series
      obtain ⟨front, later⟩ := List.forall_mem_cons.1 spared
      obtain ⟨closes, also, series⟩ := ih next g (alike answered) series
        (by simpa [endsInBlock] using shut) later
      have same := clause_transfers t answered front.1 front.2 closes
      have word := isKeyword_iff.1 more
      have twin := t.found word (by simp)
      exact ⟨fun _ => ⟨word ▸ rfl, twin.trans word.symm⟩, also,
        series_cons.2 ⟨isKeyword_iff.2 twin, g, same, series⟩⟩
  obtain ⟨closes, also, series⟩ := goesOn rest first m (alike opens) series
    (closes_of_otherwise t ends) further
  exact (conditional_eq_ok t.moved).2 ⟨first, m, rest, e, last,
    clause_transfers t opens front.1 front.2 closes, series,
    otherwise_transfers t also ends ending, rfl⟩

theorem functionBody_transfers {inner : Body Tree}
    (succeeds : functionBody.eval kinds answers c = .ok ⟨inner, d⟩)
    (spared : ReturnsBefore holds inner.node) :
    functionBody.eval other others c = .ok ⟨inner, d⟩ := by
  apply functionBody_eq_ok.2
  rcases functionBody_eq_ok.1 succeeds with
    ⟨arrow, node, answered, rfl⟩ | ⟨separator, node, m, answered, closed, rfl, rfl⟩
  · exact .inl ⟨t.found arrow (by simp), node,
      t.transfers .expression _ _ answered spared nofun, rfl⟩
  · have also := t.found closed (by simp)
    exact .inr ⟨t.found separator (by simp), node, m, t.transfers .block _ _ answered spared
      fun _ => ⟨closed ▸ rfl, also.trans closed.symm⟩, also, rfl, rfl⟩

theorem identifier_transfers {name : Ident Extent}
    (succeeds : identifier.eval kinds answers c = .ok ⟨name, d⟩) :
    kinds.Passes c d ∧ identifier.eval other others c = .ok ⟨name, d⟩ := by
  obtain ⟨named, place, rfl⟩ := identifier_eq_ok.1 succeeds
  exact ⟨Kinds.passes_next (by simp [named]),
    identifier_eq_ok.2 ⟨t.found named (by simp), place, rfl⟩⟩

theorem functionName_transfers {name : Option (Ident Extent)}
    (succeeds : functionName.eval kinds answers c = .ok ⟨name, d⟩) :
    functionName.eval other others c = .ok ⟨name, d⟩ := by
  apply functionName_eq_ok.2
  rcases functionName_eq_ok.1 succeeds with ⟨text, named, opened, rest⟩ | ⟨opened, rest⟩
  · exact .inl ⟨text, t.found named (by simp), t.found opened (by simp), rest⟩
  · exact .inr ⟨t.found opened (by simp), rest⟩

theorem params_transfers {names : List (Ident Extent)}
    (succeeds : (params kinds.size).eval kinds answers c = .ok ⟨names, d⟩) :
    (params other.size).eval other others c = .ok ⟨names, d⟩ := by
  apply params_eq_ok.2
  rcases params_eq_ok.1 succeeds with
    ⟨first, m, rest, e, head, series, closed, ends⟩ | ⟨closed, rest⟩
  · obtain ⟨passes, also⟩ := identifier_transfers t head
    refine .inl ⟨first, m, rest, e, also, ?_, t.found closed (by simp), ends⟩
    exact items_transfer t (fun _ _ _ named (_ : True) => identifier_transfers t named) passes
      series fun _ _ => trivial
  · exact .inr ⟨t.found closed (by simp), rest⟩

theorem function_transfers (succeeds : (function kinds.size).eval kinds answers c = .ok ⟨tree, d⟩)
    (spared : ReturnsBefore holds tree) :
    (function other.size).eval other others c = .ok ⟨tree, d⟩ := by
  obtain ⟨first, name, m, params, e, body, named, listed, answered, rfl⟩ :=
    function_eq_ok.1 succeeds
  exact function_eq_ok.2 ⟨t.found first (by simp), name, m, params, e, body,
    functionName_transfers t named, params_transfers t listed,
    functionBody_transfers t answered (ReturnsBefore.function.1 spared), rfl⟩

/-- What a rule succeeds with is carried over if that of the rules it calls is. -/
theorem parser_transfers {rule : Rule} {parsed : Parsed rule.Value}
    (succeeds : (rule.parser kinds.size).eval kinds answers c = .ok parsed)
    (spared : ReturnsBefore holds (rule.node parsed.value))
    (closes : rule.isOpen parsed.value →
      (kinds.kindAt parsed.cursor).closes = true ∧
        other.kindAt parsed.cursor = kinds.kindAt parsed.cursor) :
    (rule.parser other.size).eval other others c = .ok parsed := by
  have here : other.kindAt c = kinds.kindAt c := by
    have moved := Rule.eval_moves t.moves rule kinds.size c
    rw [succeeds] at moved
    exact t.same c moved.kindAt_ne
  cases rule with
  | block => exact block_transfers t succeeds spared (closes trivial)
  | statement => exact statement_transfers t here succeeds spared
  | expression => exact expression_transfers t here succeeds spared
  | comparison => exact comparison_transfers t here succeeds spared
  | sum =>
    have operand (c : Cursor) (x : Tree) (d : Cursor)
        (answered : answers .product c = .ok ⟨x, d⟩) (spared : ReturnsBefore holds x) :=
      And.intro (t.passes answered) (t.transfers .product c ⟨x, d⟩ answered spared nofun)
    exact (sum_eq_ok t.moved).2
      (chained_transfers t (operand c) operand spared ((sum_eq_ok t.moves).1 succeeds))
  | product =>
    have operand (c : Cursor) (x : Tree) (d : Cursor)
        (answered : answers .signed c = .ok ⟨x, d⟩) (spared : ReturnsBefore holds x) :=
      And.intro (t.passes answered) (t.transfers .signed c ⟨x, d⟩ answered spared nofun)
    exact (product_eq_ok t.moved).2
      (chained_transfers t (operand c) operand spared ((product_eq_ok t.moves).1 succeeds))
  | signed => exact signed_transfers t here succeeds spared
  | power =>
    have first (x : Tree) (d : Cursor)
        (answered : answers .application c = .ok ⟨x, d⟩) (spared : ReturnsBefore holds x) :=
      And.intro (t.passes answered) (t.transfers .application c ⟨x, d⟩ answered spared nofun)
    have later (c : Cursor) (x : Tree) (d : Cursor)
        (answered : answers .signed c = .ok ⟨x, d⟩) (spared : ReturnsBefore holds x) :=
      And.intro (t.passes answered) (t.transfers .signed c ⟨x, d⟩ answered spared nofun)
    exact (power_eq_ok t.moved).2
      (chained_transfers t first later spared ((power_eq_ok t.moves).1 succeeds))
  | application => exact application_transfers t succeeds spared
  | atom => exact atom_transfers t here succeeds spared
  | listing => exact listing_transfers t succeeds spared
  | conditional => exact conditional_transfers t succeeds spared
  | forLoop => exact forLoop_transfers t succeeds spared
  | whileLoop => exact whileLoop_transfers t succeeds spared
  | function => exact function_transfers t succeeds spared
  | body => exact body_transfers t here succeeds spared closes
  | closedBody => exact closedBody_transfers t succeeds spared

end Parser

/-- What a rule succeeds with on one row it succeeds with on the other one, under a limit that is no
    stricter. -/
theorem Rule.answer_transfers {kinds other : Kinds} {limit looser : Limit}
    {holds : Cursor → Prop} (same : ∀ c, kinds.kindAt c ≠ .eof → other.kindAt c = kinds.kindAt c)
    (alike : ∀ c d, kinds.Passes c d → Alike (kinds.kindAt d) (other.kindAt d))
    (allows : ∀ depth, limit.allows depth = true → looser.allows depth = true)
    (spares : ∀ depth c, holds c →
      ∃ error, answer other looser depth .expression c = .error error)
    {depth : Nat} {rule : Rule} {c : Cursor} {parsed : Parsed rule.Value}
    (succeeds : answer kinds limit depth rule c = .ok parsed)
    (spared : ReturnsBefore holds (rule.node parsed.value))
    (closes : rule.isOpen parsed.value → (kinds.kindAt parsed.cursor).closes = true ∧
      other.kindAt parsed.cursor = kinds.kindAt parsed.cursor) :
    answer other looser depth rule c = .ok parsed := by
  have step := @answer_induction_at kinds limit
    (fun depth rule c parsed => ReturnsBefore holds (rule.node parsed.value) →
      (rule.isOpen parsed.value → (kinds.kindAt parsed.cursor).closes = true ∧
        other.kindAt parsed.cursor = kinds.kindAt parsed.cursor) →
      answer other looser depth rule c = .ok parsed)
  refine step (fun answers depth rule c parsed admits moves transfers succeeds spared closes => ?_)
    succeeds spared closes
  have carries :
      Carries kinds other holds answers (answer other looser (rule.depthInside depth)) := {
    same := same
    alike := alike
    moves := moves
    moved := answer_moves looser _
    spares := spares _
    refuses := fun _ => statement_fails
    transfers := transfers }
  have stillAdmitted : rule.admitted looser depth = true := by
    rw [admitted, Bool.or_eq_true] at admits ⊢
    exact admits.imp_right (allows _)
  rw [answer_eq, if_pos stillAdmitted]
  exact Parser.parser_transfers carries succeeds spared closes

end Sharp.Grammar

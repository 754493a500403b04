import Sharp.Proofs.Grammar.Guard
import Sharp.Proofs.Tree.Precedence

/-!
How operators are grouped. Without a limit, a grouped tree is what comes out of its own yield: each
level of the grammar reads the trees of that level and of tighter ones, and the left side of an
operator is the chain read so far. So no two grouped trees have the same yield, and an operator
expression comes out as the grouped tree that writes it.
-/
namespace Sharp

namespace Level

/-- The level of the operands; powers and signs are operands themselves. -/
def tighter : Level → Level
  | .logical => .comparison
  | .comparison => .additive
  | .additive => .multiplicative
  | .multiplicative | .power => .power

variable {level other : Level}

theorem rank_tighter (chain : level ≠ .power) : level.tighter.rank = level.rank + 1 := by
  cases level <;> first | rfl | exact absurd rfl chain

theorem rank_injective (same : level.rank = other.rank) : level = other := by
  cases level <;> cases other <;> first | rfl | cases same

theorem rank_lt_four (chain : level ≠ .power) : level.rank < 4 := by
  cases level <;> first | decide | exact absurd rfl chain

end Level

namespace Grammar

open Sharp.Grammar.Parser Rule

variable {kinds : Kinds} {c d m : Cursor} {level other : Level} {kind : TokenKind} {shape : Shape}

/-- What the rule of a level yields without a limit. -/
def reading (kinds : Kinds) : Level → Cursor → Outcome Tree
  | .logical => unguarded kinds .expression
  | .comparison => unguarded kinds .comparison
  | .additive => unguarded kinds .sum
  | .multiplicative => unguarded kinds .product
  | .power => unguarded kinds .signed

/-- The end of the text, or an operator that binds less tightly than a level. -/
def Stops (level : Level) (kind : TokenKind) : Prop :=
  kind = .eof ∨ ∃ op : BinaryOp, kind = op.token ∧ op.level.rank < level.rank

/-- The word that makes the rule of a level go another way does not stand here. -/
def Plain (level : Level) (kind : TokenKind) : Prop :=
  (level = .logical → kind ≠ .keyword .var) ∧ (level = .comparison → kind ≠ .keyword .not)

namespace Stops

theorem mono (stops : Stops level kind) (above : level.rank ≤ other.rank) : Stops other kind :=
  stops.imp_right fun ⟨op, same, low⟩ => ⟨op, same, Nat.lt_of_lt_of_le low above⟩

theorem atLevel_eq (stops : Stops level kind) (above : level.rank ≤ other.rank) :
    BinaryOp.atLevel? other kind = none := by
  rcases stops with rfl | ⟨op, rfl, low⟩
  · rfl
  · exact atLevel_token (by rintro rfl; omega)

theorem ne_openRound (stops : Stops level kind) : kind ≠ .symbol .openRound := by
  rcases stops with rfl | ⟨op, rfl, _⟩
  · nofun
  · exact token_ne_openRound op

end Stops

/-- A chain of operators of a level, as far as it has been read. -/
inductive Heads (kinds : Kinds) (level : Level) : Cursor → Tree → Cursor → Prop
  | first {c d : Cursor} {tree : Tree} : reading kinds level.tighter c = .ok ⟨tree, d⟩ →
      Heads kinds level c tree d
  | attach {c m d : Cursor} {left right : Tree} {op : BinaryOp} : Heads kinds level c left m →
      kinds.kindAt m = op.token → op.level = level →
      reading kinds level.tighter m.next = .ok ⟨right, d⟩ →
      Heads kinds level c (attach left (op, right)) d

theorem Heads.chained {tree : Tree} (heads : Heads kinds level c tree m)
    (rest : List (BinaryOp × Tree))
    (series : Series (nextOperand kinds level (reading kinds level.tighter)) m rest d) :
    Chained kinds level (reading kinds level.tighter) (reading kinds level.tighter) c
      (rest.foldl Parser.attach tree) d := by
  induction heads generalizing rest with
  | first answered => exact ⟨_, _, rest, answered, series, rfl⟩
  | @attach _ e _ right op _ here bound answered ih =>
    exact ih ((op, right) :: rest) ⟨e, nextOperand_eq_some.2 ⟨here, bound, answered⟩, series⟩

theorem reading_of_heads {tree : Tree} (chain : level ≠ .power) (heads : Heads kinds level c tree d)
    (plain : Plain level (kinds.kindAt c)) (stops : Stops level (kinds.kindAt d)) :
    reading kinds level c = .ok ⟨tree, d⟩ := by
  have chained := heads.chained []
    (nextOperand_eq_none.2 ⟨stops.atLevel_eq (Nat.le_refl _), rfl⟩)
  cases level with
  | logical =>
    rw [reading, unguarded_eq]
    exact (expression_eq_ok unguarded_moves).2 (.inr ⟨plain.1 rfl, chained⟩)
  | comparison =>
    rw [reading, unguarded_eq]
    exact (comparison_eq_ok unguarded_moves).2 (.inr ⟨plain.2 rfl, chained⟩)
  | additive =>
    rw [reading, unguarded_eq]
    exact (sum_eq_ok unguarded_moves).2 chained
  | multiplicative =>
    rw [reading, unguarded_eq]
    exact (product_eq_ok unguarded_moves).2 chained
  | power => exact absurd rfl chain

/-- The rule of a level reads a tree off its yield. -/
def ReadAt (kinds : Kinds) (level : Level) (shape : Shape) : Prop :=
  ∀ c d, kinds.Reads c shape.inOrder d → Stops level (kinds.kindAt d) →
    Gives (reading kinds level c) shape d

/-- A chain of a level may start with a tree. -/
def HeadAt (kinds : Kinds) (level : Level) (shape : Shape) : Prop :=
  ∀ c d, kinds.Reads c shape.inOrder d → Stops level.tighter (kinds.kindAt d) →
    ∃ tree, Heads kinds level c tree d ∧ tree.erase = shape

section Levels

theorem ReadAt.headAt (reads : ReadAt kinds level.tighter shape) : HeadAt kinds level shape := by
  intro c d word stops
  obtain ⟨tree, answered, same⟩ := reads c d word stops
  exact ⟨tree, .first answered, same⟩

theorem starts_of_grouped (grouped : Grouped shape) (word : kinds.Reads c shape.inOrder d) :
    (kinds.kindAt c).isLeaf = true ∨ ∃ op : UnaryOp, kinds.kindAt c = op.token ∧
      (op = .not → shape.isNegation = true ∨ shape.grade = .logical) := by
  obtain ⟨kind, rest, yields, starts⟩ := grouped.head_eq
  rw [yields] at word
  rwa [word.1]

theorem plain_of_grouped (grouped : Grouped shape) (word : kinds.Reads c shape.inOrder d)
    (low : level.rank ≤ shape.grade.rank) (negates : shape.isNegation = true → level = .logical) :
    Plain level (kinds.kindAt c) := by
  have starts := starts_of_grouped grouped word
  generalize kinds.kindAt c = kind at starts ⊢
  constructor
  · rintro - rfl
    rcases starts with leaf | ⟨op, same, _⟩
    · cases leaf
    · cases op <;> cases same
  · rintro rfl rfl
    rcases starts with leaf | ⟨op, same, isNot⟩
    · cases leaf
    · rcases isNot (by cases op <;> first | rfl | cases same) with negation | logical
      · cases negates negation
      · simp [logical, Level.rank] at low

theorem HeadAt.readAt (heads : HeadAt kinds level shape) (grouped : Grouped shape)
    (chain : level ≠ .power) (low : level.rank ≤ shape.grade.rank)
    (negates : shape.isNegation = true → level = .logical) : ReadAt kinds level shape := by
  intro c d word stops
  have above : level.rank ≤ level.tighter.rank := by
    rw [Level.rank_tighter chain]
    exact Nat.le_succ _
  obtain ⟨tree, found, same⟩ := heads c d word (stops.mono above)
  exact ⟨tree, reading_of_heads chain found (plain_of_grouped grouped word low negates) stops, same⟩

/-- What is read on its own level is read on every lower one. -/
theorem ReadAt.lower (own : ReadAt kinds shape.grade shape) (grouped : Grouped shape)
    (low : level.rank ≤ shape.grade.rank) : ReadAt kinds level shape := by
  induction gap : shape.grade.rank - level.rank generalizing level with
  | zero =>
    obtain rfl : level = shape.grade := Level.rank_injective (by omega)
    exact own
  | succ gap ih =>
    have chain : level ≠ .power := by
      rintro rfl
      have most := Node.rank_grade_le shape
      have top : Level.power.rank = 4 := rfl
      omega
    have above := Level.rank_tighter chain
    refine (@ih level.tighter (by omega) (by omega)).headAt.readAt grouped chain low ?_
    intro negation
    rw [Node.grade_of_isNegation negation] at gap
    cases level <;> simp [Level.rank] at gap ⊢

theorem ReadAt.below (own : ReadAt kinds shape.grade shape) (grouped : Grouped shape)
    (chain : level ≠ .power) (low : level.rank < shape.grade.rank) : HeadAt kinds level shape :=
  (own.lower grouped (by rw [Level.rank_tighter chain]; exact low)).headAt

end Levels

section Constructors

variable {left right operand : Shape}

theorem atom_of_leaf {depth : Nat} (leaf : shape.isLeaf = true)
    (word : kinds.Reads c shape.inOrder d) : Gives (answer kinds none depth .atom c) shape d := by
  have single {kind : TokenKind} {tree : Tree} (here : kinds.kindAt c = kind)
      (found : leafAt (.token c) kind = some tree) (same : tree.erase = shape) :
      Gives (answer kinds none depth .atom c) shape c.next := by
    rw [answer_of_free rfl]
    refine ⟨tree, atom_eq_ok.2 ?_, same⟩
    rw [here]
    split <;> simp_all [leafAt]
  cases shape with
  | int | float | string | access =>
    obtain ⟨here, _, rfl⟩ := word
    exact single here rfl rfl
  | _ => cases leaf

theorem readAt_leaf (leaf : shape.isLeaf = true) : ReadAt kinds .power shape := by
  intro c d word stops
  exact signed_of_atom stops.ne_openRound (atom_of_leaf leaf word) rfl
    (stops.atLevel_eq (Nat.le_refl _))

theorem readAt_power (leaf : left.isLeaf = true) (second : ReadAt kinds .power right) :
    ReadAt kinds .power (.binary () .power left right) := by
  intro c d word stops
  obtain ⟨m, front, here, _, back⟩ := Kinds.reads_append.1 word
  have atom : Gives (unguarded kinds .atom c) left m := atom_of_leaf leaf front
  have first : Gives (unguarded kinds .application c) left m :=
    application_of_atom atom (here ▸ token_ne_openRound .power)
  obtain ⟨tree, chained, same⟩ := chained_pair first here rfl (second _ _ back stops)
    (stops.atLevel_eq (Nat.le_refl _))
  have power : unguarded kinds .power c = .ok ⟨tree, d⟩ := by
    rw [unguarded_eq]
    exact (power_eq_ok unguarded_moves).2 chained
  refine ⟨tree, ?_, same⟩
  rw [reading, unguarded_eq]
  exact signed_eq_ok.2 (.inr ⟨(atom_starts atom).1, power⟩)

theorem readAt_sign {op : UnaryOp} (sign : op ≠ .not) (inner : ReadAt kinds .power operand) :
    ReadAt kinds .power (.unary () op operand) := by
  intro c d word stops
  obtain ⟨here, _, rest⟩ := word
  obtain ⟨tree, answered, rfl⟩ := inner _ _ rest stops
  have isSign : UnaryOp.sign? (kinds.kindAt c) = some op := by
    rw [here]
    cases op <;> first | rfl | exact absurd rfl sign
  refine ⟨.unary (.upTo c d) op tree, ?_, rfl⟩
  rw [reading, unguarded_eq]
  exact signed_eq_ok.2 (.inl ⟨op, tree, isSign, answered, rfl⟩)

theorem readAt_negation (inner : ReadAt kinds .comparison operand) :
    ReadAt kinds .comparison (.unary () .not operand) := by
  intro c d word stops
  obtain ⟨here, _, rest⟩ := word
  obtain ⟨tree, answered, rfl⟩ := inner _ _ rest stops
  refine ⟨.unary (.upTo c d) .not tree, ?_, rfl⟩
  rw [reading, unguarded_eq]
  exact (comparison_eq_ok unguarded_moves).2 (.inl ⟨here, tree, answered, rfl⟩)

/-- The left side is the chain so far; what stands on the right is one more operand of it. -/
theorem headAt_binary {op : BinaryOp} (chain : op.level ≠ .power)
    (first : HeadAt kinds op.level left)
    (second : ReadAt kinds op.level.tighter right) :
    HeadAt kinds op.level (.binary () op left right) := by
  intro c d word stops
  obtain ⟨m, front, here, _, back⟩ := Kinds.reads_append.1 word
  have between : Stops op.level.tighter (kinds.kindAt m) := by
    refine .inr ⟨op, here, ?_⟩
    rw [Level.rank_tighter chain]
    exact Nat.lt_succ_self _
  obtain ⟨one, heads, rfl⟩ := first c m front between
  obtain ⟨other, answered, rfl⟩ := second _ _ back stops
  exact ⟨Parser.attach one (op, other), .attach heads here rfl answered, rfl⟩

end Constructors

/-- A grouped tree is read on its own level, and a chain of any looser level may start with it. -/
theorem readAt_of_grouped (grouped : Grouped shape) :
    ReadAt kinds shape.grade shape ∧ ∀ level : Level, level ≠ .power →
      level.rank ≤ shape.grade.rank → (shape.isNegation = true → level = .logical) →
      HeadAt kinds level shape := by
  -- Only a binary operation may continue a chain of its own level.
  have tight {shape : Shape} (grouped : Grouped shape) (top : shape.grade = .power)
      (own : ReadAt kinds .power shape) : ReadAt kinds shape.grade shape ∧ ∀ level : Level,
      level ≠ .power → level.rank ≤ shape.grade.rank →
      (shape.isNegation = true → level = .logical) → HeadAt kinds level shape := by
    rw [← top] at own
    refine ⟨own, fun level chain _ _ => own.below grouped chain ?_⟩
    rw [top]
    exact Level.rank_lt_four chain
  induction grouped with
  | leaf leaf => exact tight (.leaf leaf) (Node.grade_of_isLeaf leaf) (readAt_leaf leaf)
  | power leaf right top ih =>
    exact tight (.power leaf right top) rfl (readAt_power leaf (top ▸ ih.1))
  | sign sign inner top ih =>
    exact tight (.sign sign inner top) (Node.grade_of_sign sign _) (readAt_sign sign (top ▸ ih.1))
  | negation inner above ih =>
    have own := readAt_negation (ih.1.lower inner above)
    refine ⟨own, fun level chain _ negates => ReadAt.below own (.negation inner above) chain ?_⟩
    rw [negates rfl]
    exact Nat.zero_lt_one
  | @binary op left right chain first second low high negatable ihLeft ihRight =>
    have whole := Grouped.binary chain first second low high negatable
    have operand : ReadAt kinds op.level.tighter right := by
      refine ihRight.1.lower second ?_
      rw [Level.rank_tighter chain]
      exact high
    have heads := headAt_binary chain (ihLeft.2 op.level chain low negatable) operand
    have own := heads.readAt whole chain (Nat.le_refl _) nofun
    refine ⟨own, fun level chain reaches _ => ?_⟩
    rcases Nat.eq_or_lt_of_le reaches with same | lower
    · exact Level.rank_injective same ▸ heads
    · exact ReadAt.below own whole chain lower

theorem expression_of_grouped (grouped : Grouped shape) (word : kinds.Reads c shape.inOrder d)
    (finished : kinds.kindAt d = .eof) : Gives (unguarded kinds .expression c) shape d := by
  have reads : ReadAt kinds .logical shape :=
    (readAt_of_grouped grouped).1.lower grouped (Nat.zero_le _)
  exact reads c d word (.inl finished)

/-- A text that is one grouped tree makes a program of one statement. -/
theorem parseKinds_of_grouped (grouped : Grouped shape) (word : kinds.Reads .start shape.inOrder d)
    (finished : kinds.kindAt d = .eof) :
    ∃ extent tree, (parseKinds kinds none .start).1 = .ok (.block extent [tree]) ∧
      tree.erase = shape := by
  have expression := expression_of_grouped grouped word finished
  have starts : kinds.kindAt .start ≠ .newline ∧
      ∀ word ∈ [Keyword.return, .continue, .break], kinds.kindAt .start ≠ .keyword word := by
    have starts := starts_of_grouped grouped word
    generalize kinds.kindAt .start = kind at starts ⊢
    rcases starts with leaf | ⟨op, rfl, _⟩
    · constructor
      · rintro rfl
        cases leaf
      · rintro word - rfl
        cases leaf
    · cases op <;> simp [UnaryOp.token]
  obtain ⟨tree, statement, same⟩ := statement_of_expression expression starts.2
  have single : Series (nextStatement kinds (unguarded kinds)) d [] d :=
    nextStatement_eq_none.2 ⟨0, ⟨rfl, by simp [finished]⟩, .inl rfl⟩
  refine ⟨⟨(Node.place tree).first, d⟩, tree, parseKinds_eq_ok.2 ⟨d, ?_, finished⟩, same⟩
  rw [← unguarded, unguarded_eq]
  exact (block_eq_ok unguarded_moves).2
    ⟨0, .start, tree, d, [], ⟨rfl, starts.1⟩, statement, single, rfl⟩

theorem eof_not_mem_inOrder (grouped : Grouped shape) : .eof ∉ shape.inOrder := by
  have free {shape : Shape} (leaf : shape.isLeaf = true) : .eof ∉ shape.inOrder := by
    obtain ⟨kind, isLeaf, yields⟩ := Node.inOrder_of_isLeaf leaf
    rw [yields, List.mem_singleton]
    rintro rfl
    cases isLeaf
  induction grouped with
  | leaf leaf => exact free leaf
  | @binary op _ _ _ _ _ _ _ _ ihLeft ihRight =>
    cases op <;> simp [Node.inOrder, BinaryOp.token, ihLeft, ihRight]
  | power leaf _ _ ih => simp [Node.inOrder, BinaryOp.token, free leaf, ih]
  | @sign op _ _ _ _ ih => cases op <;> simp [Node.inOrder, UnaryOp.token, ih]
  | negation _ _ ih => simp [Node.inOrder, UnaryOp.token, ih]

end Grammar

open Grammar

/-- An operator expression on which nothing is refused comes out as a single statement, which is the
    one grouped tree that writes it. -/
theorem parse_precedence (tokens : List Token) (word : List TokenKind)
    (operation : Operation true word) (spelled : tokens.map Token.kind = word ++ [.eof])
    (quiet : ∀ c depth, Notice.parsing (.nestingLimit c depth) ∉ (parse tokens).notices) :
    ∃ place tree, (parse tokens).outcome = .ok (.block place [tree]) ∧
      tree.erase.inOrder = word ∧ Grouped tree.erase ∧
      ∀ other, Grouped other → other.inOrder = word → other = tree.erase := by
  let stream := TokenStream.ofList tokens
  let d : Cursor := ⟨word.length⟩
  have ahead : stream.kinds.ahead .start = word ++ [.eof] := TokenStream.ahead_of_ended spelled
  have behind : stream.kinds.ahead d = [.eof] := by
    have dropped : stream.kinds.ahead d = (stream.kinds.ahead .start).drop word.length := by
      simp [Kinds.ahead, d, Cursor.start]
    rw [dropped, ahead, List.drop_left]
  have finished : stream.kinds.kindAt d = .eof := by
    rw [Kinds.kindAt_eq_headD, behind, List.headD_cons]
  have reads {shape : Shape} (grouped : Grouped shape) (yields : shape.inOrder = word) :
      stream.kinds.Reads .start shape.inOrder d :=
    Kinds.reads_iff_ahead.2 ⟨eof_not_mem_inOrder grouped, by rw [ahead, behind, yields],
      by rw [yields, Cursor.start, Nat.zero_add]⟩
  obtain ⟨shape, grouped, yields⟩ := operation.exists_grouped
  obtain ⟨extent, tree, parsed, rfl⟩ :=
    parseKinds_of_grouped grouped (reads grouped yields) finished
  have accepted : (parse tokens).outcome =
      .ok (.block (stream.spanOf extent) [tree.map stream.spanOf]) := by
    rw [parseKinds_none_of_unhindered (unhindered_of_notices quiet)] at parsed
    exact TokenStream.parse_eq_ok.2 ⟨_, parsed, rfl⟩
  refine ⟨_, _, accepted, ?_, ?_, fun other grouped yields => ?_⟩
  · rwa [Node.erase_map]
  · rwa [Node.erase_map]
  · obtain ⟨extent', twin, parsedToo, rfl⟩ :=
      parseKinds_of_grouped grouped (reads grouped yields) finished
    rw [parsed] at parsedToo
    cases parsedToo
    rw [Node.erase_map]

/-- `NOT -a ^ -2 * 3 == 1 AND x - y - 1` -/
theorem parse_precedence_mixed :
    let place : Span := .empty (.start ⟨"", ""⟩)
    let word : List TokenKind := [UnaryOp.not.token, UnaryOp.negate.token, .identifier "a",
      BinaryOp.power.token, UnaryOp.negate.token, .int 2, BinaryOp.multiply.token, .int 3,
      BinaryOp.equal.token, .int 1, BinaryOp.and.token, .identifier "x", BinaryOp.subtract.token,
      .identifier "y", BinaryOp.subtract.token, .int 1]
    let tokens : List Token := (word ++ [TokenKind.eof]).map fun kind => ⟨kind, place⟩
    let power : Shape := .binary () .power (.access () "a") (.unary () .negate (.int () 2))
    let product : Shape := .binary () .multiply (.unary () .negate power) (.int () 3)
    let negated : Shape := .unary () .not (.binary () .equal product (.int () 1))
    let difference : Shape := .binary () .subtract
      (.binary () .subtract (.access () "x") (.access () "y")) (.int () 1)
    Operation true word ∧ (parse tokens).notices = [.parsed 1] ∧
      ∃ place tree, (parse tokens).outcome = .ok (.block place [tree]) ∧
        tree.erase = .binary () .and negated difference := by
  intro place word tokens power product negated difference
  have operation : Operation true word := .negation (.sign (by decide) (.joined rfl
    (.sign (by decide) (.joined rfl (.joined rfl (.joined rfl (.joined rfl (.joined rfl
      (.operand rfl)))))))))
  have silent : (parse tokens).notices = [.parsed 1] := by decide +kernel
  have grouped : Grouped (.binary () .and negated difference) := by
    have raised : Grouped power := .power rfl (.sign (by decide) (.leaf rfl) rfl) rfl
    have multiplied : Grouped product := .binary (by decide) (.sign (by decide) raised rfl)
      (.leaf rfl) (by decide) (by decide) (by decide)
    have equated : Grouped negated := .negation (.binary (by decide) multiplied (.leaf rfl)
      (by decide) (by decide) (by decide)) (by decide)
    have first : Grouped (.binary () .subtract (.access () "x") (.access () "y")) :=
      .binary (by decide) (.leaf rfl) (.leaf rfl) (by decide) (by decide) (by decide)
    have subtracted : Grouped difference :=
      .binary (by decide) first (.leaf rfl) (by decide) (by decide) (by decide)
    exact .binary (by decide) equated subtracted (by decide) (by decide) fun _ => rfl
  obtain ⟨extent, tree, accepted, _, _, unique⟩ :=
    parse_precedence tokens word operation rfl (by simp [silent])
  exact ⟨operation, silent, extent, tree, accepted, (unique _ grouped rfl).symm⟩

end Sharp

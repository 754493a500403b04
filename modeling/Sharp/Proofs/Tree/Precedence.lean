import Sharp.Proofs.Grammar.Yield

/-!
Operator expressions without brackets. Their trees are grouped by how tightly operators bind: to the
left as tightly or tighter, to the right tighter, and the other way round for powers. Signs take
powers, and negation takes comparisons. Every word of operands and operators is the yield of such a
tree: what stands in front of a tree goes down its left side until it meets what binds tighter.
-/
namespace Sharp

def Level.rank : Level → Nat
  | .logical => 0
  | .comparison => 1
  | .additive => 2
  | .multiplicative => 3
  | .power => 4

namespace Node

variable {α : Type}

/-- The level a tree stands on; what is no operation binds tightest. -/
def grade : Node α → Level
  | .binary _ op _ _ => op.level
  | .unary _ .not _ => .comparison
  | _ => .power

def isLeaf : Node α → Bool
  | .int _ _ | .float _ _ | .string _ _ | .access _ _ => true
  | _ => false

def isNegation : Node α → Bool
  | .unary _ .not _ => true
  | _ => false

/-- The tokens of an operator expression from left to right. -/
def inOrder : Node α → List TokenKind
  | .int _ value => [.int value]
  | .float _ value => [.float value]
  | .string _ value => [.string value]
  | .access _ name => [.identifier name]
  | .binary _ op left right => left.inOrder ++ op.token :: right.inOrder
  | .unary _ op operand => op.token :: operand.inOrder
  | _ => []
termination_by structural node => node

end Node

/-- Trees of operators that group as their levels say. -/
inductive Grouped : Shape → Prop
  | leaf {shape : Shape} : shape.isLeaf = true → Grouped shape
  | binary {op : BinaryOp} {left right : Shape} : op.level ≠ .power → Grouped left →
      Grouped right → op.level.rank ≤ left.grade.rank → op.level.rank < right.grade.rank →
      (left.isNegation = true → op.level = .logical) → Grouped (.binary () op left right)
  | power {left right : Shape} : left.isLeaf = true → Grouped right → right.grade = .power →
      Grouped (.binary () .power left right)
  | sign {op : UnaryOp} {operand : Shape} : op ≠ .not → Grouped operand →
      operand.grade = .power → Grouped (.unary () op operand)
  | negation {operand : Shape} : Grouped operand →
      Level.comparison.rank ≤ operand.grade.rank → Grouped (.unary () .not operand)

/-- Operands with signs before them and operators between them. Negation stands only where it is
    allowed to: at the start of a logical operand. -/
inductive Operation : Bool → List TokenKind → Prop
  | operand {negatable : Bool} {kind : TokenKind} : kind.isLeaf = true →
      Operation negatable [kind]
  | joined {negatable : Bool} {kind : TokenKind} {op : BinaryOp} {word : List TokenKind} :
      kind.isLeaf = true → Operation (decide (op.level = .logical)) word →
      Operation negatable (kind :: op.token :: word)
  | sign {negatable : Bool} {op : UnaryOp} {word : List TokenKind} : op ≠ .not →
      Operation false word → Operation negatable (op.token :: word)
  | negation {word : List TokenKind} : Operation true word →
      Operation true (UnaryOp.not.token :: word)

namespace Node

section Grades

variable {shape : Shape}

theorem rank_grade_le (shape : Shape) : shape.grade.rank ≤ 4 := by
  cases shape.grade <;> decide

theorem grade_of_isLeaf (leaf : shape.isLeaf = true) : shape.grade = .power := by
  cases shape <;> first | rfl | cases leaf

theorem grade_of_isNegation (negation : shape.isNegation = true) : shape.grade = .comparison := by
  unfold isNegation at negation
  split at negation
  · rfl
  · cases negation

theorem grade_of_sign {op : UnaryOp} (sign : op ≠ .not) (operand : Shape) :
    (unary () op operand).grade = .power := by
  cases op <;> first | rfl | exact absurd rfl sign

theorem isNegation_of_grade (tight : shape.grade = .power) : shape.isNegation = false := by
  cases negation : shape.isNegation with
  | false => rfl
  | true => simp [grade_of_isNegation negation] at tight

theorem level_of_rank {level : Level} (tight : 4 ≤ level.rank) : level = .power := by
  cases level <;> simp [Level.rank] at tight ⊢

theorem inOrder_of_isLeaf (leaf : shape.isLeaf = true) :
    ∃ kind, kind.isLeaf = true ∧ shape.inOrder = [kind] := by
  cases shape with
  | int | float | string | access => exact ⟨_, rfl, rfl⟩
  | _ => cases leaf

/-- A leaf as a tree of its own. -/
theorem exists_leaf {kind : TokenKind} (leaf : kind.isLeaf = true) :
    ∃ shape : Shape, shape.isLeaf = true ∧ shape.inOrder = [kind] := by
  cases kind with
  | int value => exact ⟨.int () value, rfl, rfl⟩
  | float value => exact ⟨.float () value, rfl, rfl⟩
  | string value => exact ⟨.string () value, rfl, rfl⟩
  | identifier name => exact ⟨.access () name, rfl, rfl⟩
  | _ => cases leaf

end Grades

/-- Puts what takes an operand on its right in front of a tree: below the operators on its left side
    that bind less tightly than the rank says. -/
def graft (rank : Nat) (wrap : Shape → Shape) : Shape → Shape
  | .binary place op left right =>
    if op.level.rank < rank then .binary place op (graft rank wrap left) right
    else wrap (.binary place op left right)
  | shape => wrap shape
termination_by structural shape => shape

section Grafting

variable {rank : Nat} {wrap : Shape → Shape} {front : List TokenKind} {shape : Shape}

theorem graft_of_tight (tight : rank ≤ shape.grade.rank) : graft rank wrap shape = wrap shape := by
  unfold graft
  split
  · rename_i op _ _
    exact if_neg (Nat.not_lt_of_le tight)
  · rfl

theorem graft_cases (rank : Nat) (wrap : Shape → Shape) (shape : Shape) :
    graft rank wrap shape = wrap shape ∨
      (graft rank wrap shape).grade = shape.grade ∧ (graft rank wrap shape).isNegation = false := by
  fun_cases graft rank wrap shape with
  | case1 => exact .inr ⟨rfl, rfl⟩
  | case2 => exact .inl rfl
  | case3 => exact .inl rfl

theorem inOrder_graft (writes : ∀ operand, (wrap operand).inOrder = front ++ operand.inOrder)
    (shape : Shape) : (graft rank wrap shape).inOrder = front ++ shape.inOrder := by
  fun_induction graft rank wrap shape with
  | case1 place op left right low ih => rw [inOrder, ih, List.append_assoc, inOrder]
  | case2 place op left right high => exact writes _
  | case3 shape other => exact writes _

end Grafting

end Node

namespace Grouped

open Node

variable {shape : Shape} {rank : Nat} {wrap : Shape → Shape}

/-- A tree starts with a negation only if it is one or joins one with something else. -/
theorem head_eq (grouped : Grouped shape) : ∃ kind word, shape.inOrder = kind :: word ∧
    (kind.isLeaf = true ∨ ∃ op : UnaryOp, kind = op.token ∧
      (op = .not → shape.isNegation = true ∨ shape.grade = .logical)) := by
  induction grouped with
  | leaf leaf =>
    obtain ⟨kind, isLeaf, yields⟩ := inOrder_of_isLeaf leaf
    exact ⟨kind, [], yields, .inl isLeaf⟩
  | @binary op left right _ _ _ low _ negatable ih _ =>
    obtain ⟨kind, word, yields, starts⟩ := ih
    refine ⟨kind, word ++ op.token :: right.inOrder, by rw [inOrder, yields]; rfl, ?_⟩
    refine starts.imp_right fun sign => ?_
    obtain ⟨unary, same, negates⟩ := sign
    refine ⟨unary, same, fun isNot => .inr ?_⟩
    rcases negates isNot with negation | logical
    · exact negatable negation
    · rw [logical] at low
      change op.level = .logical
      cases level : op.level <;> simp [level, Level.rank] at low ⊢
  | power leaf _ _ _ =>
    obtain ⟨kind, isLeaf, yields⟩ := inOrder_of_isLeaf leaf
    exact ⟨kind, _, by rw [inOrder, yields]; rfl, .inl isLeaf⟩
  | @sign op operand other _ _ _ => exact ⟨_, _, rfl, .inr ⟨op, rfl, fun same => absurd same other⟩⟩
  | negation => exact ⟨_, _, rfl, .inr ⟨.not, rfl, fun _ => .inl rfl⟩⟩

/-- Grafting keeps a tree grouped if what is put in front of an operand makes a grouped tree about
    as tight as the operand has to be. -/
theorem graft (grouped : Grouped shape)
    (keeps : ∀ operand, Grouped operand → rank ≤ operand.grade.rank → Grouped (wrap operand))
    (tight : ∀ operand, rank ≤ (wrap operand).grade.rank + 1)
    (negates : ∀ operand, (wrap operand).isNegation = true → rank ≤ 1) (most : rank ≤ 4)
    (starts : rank ≤ 1 ∨ shape.inOrder.head? ≠ some (.keyword .not)) :
    Grouped (Node.graft rank wrap shape) := by
  have whole {shape : Shape} (grouped : Grouped shape) (reaches : rank ≤ shape.grade.rank) :
      Grouped (Node.graft rank wrap shape) := by
    rw [graft_of_tight reaches]
    exact keeps shape grouped reaches
  induction grouped with
  | leaf leaf => exact whole (.leaf leaf) (grade_of_isLeaf leaf ▸ most)
  | power leaf right same => exact whole (.power leaf right same) most
  | @sign op operand other inner same =>
    exact whole (.sign other inner same) (grade_of_sign other operand ▸ most)
  | negation inner above =>
    rcases starts with low | other
    · exact whole (.negation inner above) low
    · exact absurd rfl other
  | @binary op left right notPower grouped later low high negatable ih _ =>
    by_cases goesDown : op.level.rank < rank
    · have begins : rank ≤ 1 ∨ left.inOrder.head? ≠ some (.keyword .not) := by
        refine starts.imp_right fun other same => other ?_
        obtain ⟨kind, word, yields, _⟩ := head_eq grouped
        rw [yields] at same
        rw [inOrder, yields]
        exact same
      have loose (bound : rank ≤ 1) : op.level = .logical := by
        cases level : op.level <;> simp [level, Level.rank] at goesDown ⊢ <;> omega
      rw [Node.graft, if_pos goesDown]
      refine .binary notPower (ih begins) later ?_ high ?_
      · rcases graft_cases rank wrap left with same | ⟨grade, _⟩
        · have reaches := tight left
          rw [same]
          omega
        · rwa [grade]
      · intro negation
        rcases graft_cases rank wrap left with same | ⟨_, other⟩
        · exact loose (negates left (same ▸ negation))
        · rw [other] at negation
          cases negation
    · exact whole (.binary notPower grouped later low high negatable) (Nat.le_of_not_lt goesDown)

end Grouped

section Existence

open Node

variable {word : List TokenKind}

theorem Operation.head_ne {negatable : Bool} (operation : Operation negatable word)
    (plain : negatable = false) : word.head? ≠ some (.keyword .not) := by
  cases operation with
  | operand leaf | joined leaf =>
    rintro ⟨⟩
    cases leaf
  | @sign _ op _ other _ => cases op <;> simp [UnaryOp.token] at other ⊢
  | negation => cases plain

/-- An operand and an operator in front of a tree: what binds tighter becomes the right side. -/
theorem exists_joined {op : BinaryOp} {kind : TokenKind} {shape : Shape} (leaf : kind.isLeaf = true)
    (grouped : Grouped shape)
    (starts : op.level = .logical ∨ shape.inOrder.head? ≠ some (.keyword .not)) :
    ∃ joined, Grouped joined ∧ joined.inOrder = kind :: op.token :: shape.inOrder := by
  obtain ⟨operand, isLeaf, yields⟩ := exists_leaf leaf
  have writes (right : Shape) :
      (Node.binary () op operand right).inOrder = [kind, op.token] ++ right.inOrder := by
    rw [inOrder, yields]
    rfl
  by_cases power : op.level = .power
  · obtain rfl : op = .power := by cases op <;> simp [BinaryOp.level] at power ⊢
    refine ⟨Node.graft 4 (.binary () .power operand) shape, ?_, inOrder_graft writes shape⟩
    refine grouped.graft (fun right inner tight => .power isLeaf inner (level_of_rank tight))
      (fun _ => Nat.le_succ 4) (fun _ => nofun) (Nat.le_refl 4) (.inr (starts.resolve_left ?_))
    simp [BinaryOp.level]
  · refine ⟨Node.graft (op.level.rank + 1) (.binary () op operand) shape, ?_,
      inOrder_graft writes shape⟩
    refine grouped.graft (fun right inner tight => ?_) (fun _ => Nat.le_refl _) (fun _ => nofun) ?_
      (starts.imp_left fun logical => by rw [logical]; exact Nat.le_refl 1)
    · refine .binary power (.leaf isLeaf) inner ?_ tight ?_
      · rw [grade_of_isLeaf isLeaf]
        exact rank_grade_le (.binary () op operand right)
      · rw [isNegation_of_grade (grade_of_isLeaf isLeaf)]
        nofun
    · cases level : op.level <;> simp [level, Level.rank] at power ⊢

theorem exists_signed {op : UnaryOp} {shape : Shape} (sign : op ≠ .not) (grouped : Grouped shape)
    (starts : shape.inOrder.head? ≠ some (.keyword .not)) :
    ∃ signed, Grouped signed ∧ signed.inOrder = op.token :: shape.inOrder := by
  have writes (operand : Shape) :
      (Node.unary () op operand).inOrder = [op.token] ++ operand.inOrder := by
    rw [inOrder]
    rfl
  refine ⟨Node.graft 4 (.unary () op) shape, ?_, inOrder_graft writes shape⟩
  refine grouped.graft (fun operand inner tight => .sign sign inner (level_of_rank tight))
    (fun operand => ?_) (fun operand negation => ?_) (Nat.le_refl 4) (.inr starts)
  · rw [grade_of_sign sign]
    exact Nat.le_succ 4
  · rw [isNegation_of_grade (grade_of_sign sign operand)] at negation
    cases negation

theorem exists_negated {shape : Shape} (grouped : Grouped shape) :
    ∃ negated, Grouped negated ∧ negated.inOrder = UnaryOp.not.token :: shape.inOrder := by
  have writes (operand : Shape) :
      (Node.unary () .not operand).inOrder = [UnaryOp.not.token] ++ operand.inOrder := by
    rw [inOrder]
    rfl
  refine ⟨Node.graft 1 (.unary () .not) shape, ?_, inOrder_graft writes shape⟩
  exact grouped.graft (fun operand inner tight => .negation inner tight) (fun _ => Nat.le_succ 1)
    (fun _ _ => Nat.le_refl 1) (by decide) (.inl (Nat.le_refl 1))

/-- Every word of operands and operators is written by a grouped tree. -/
theorem Operation.exists_grouped {negatable : Bool} (operation : Operation negatable word) :
    ∃ shape, Grouped shape ∧ shape.inOrder = word := by
  induction operation with
  | operand leaf =>
    obtain ⟨shape, isLeaf, yields⟩ := exists_leaf leaf
    exact ⟨shape, .leaf isLeaf, yields⟩
  | @joined negatable kind op word leaf rest ih =>
    obtain ⟨shape, grouped, rfl⟩ := ih
    refine exists_joined leaf grouped ?_
    by_cases logical : op.level = .logical
    · exact .inl logical
    · exact .inr (rest.head_ne (decide_eq_false logical))
  | sign sign rest ih =>
    obtain ⟨shape, grouped, rfl⟩ := ih
    exact exists_signed sign grouped (rest.head_ne rfl)
  | negation _ ih =>
    obtain ⟨shape, grouped, rfl⟩ := ih
    exact exists_negated grouped

end Existence

end Sharp

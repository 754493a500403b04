import Sharp.Proofs.Grammar.Soundness

/-!
From an atom up to an expression. Each rule of the tower takes over what the next lower one yields,
unless the token behind it is an operator of the rule's own level or opens a call. A rule starts
with one of the tokens its complaint names. No closer is among them, and none carries an expression
on, so in front of one every rule of the tower agrees with the atom.
-/
namespace Sharp

/-- Tokens that end whatever stands before them. -/
def TokenKind.closes : TokenKind → Bool
  | .newline | .eof => true
  | .symbol .closeRound | .symbol .closeSquare | .symbol .comma => true
  | .keyword .then | .keyword .to | .keyword .step => true
  | .keyword .elif | .keyword .else | .keyword .end => true
  | _ => false

namespace Grammar

section Closers

variable {kind : TokenKind}

theorem atLevel_of_closes (closes : kind.closes = true) (level : Level) :
    BinaryOp.atLevel? level kind = none := by
  unfold TokenKind.closes at closes
  split at closes <;> first | rfl | simp at closes

theorem ne_openRound_of_closes (closes : kind.closes = true) : kind ≠ .symbol .openRound := by
  rintro rfl
  simp [TokenKind.closes] at closes

theorem atLevel_token {level : Level} {op : BinaryOp} (other : op.level ≠ level) :
    BinaryOp.atLevel? level op.token = none := by
  simp [BinaryOp.atLevel?, BinaryOp.ofToken?_token, other]

theorem token_ne_openRound (op : BinaryOp) : op.token ≠ .symbol .openRound := by
  cases op <;> simp [BinaryOp.token]

end Closers

section Starters

/-- An expression can start with such a token. -/
def startsExpression (kind : TokenKind) : Bool :=
  Expected.expression.any fun wanted => wanted.admits kind

def startsStatement (kind : TokenKind) : Bool :=
  Expected.statement.any fun wanted => wanted.admits kind

/-- Tokens that a rule can start with, separators in front of a block apart. -/
def Rule.starts : Rule → TokenKind → Bool
  | .statement => startsStatement
  | _ => startsExpression

theorem startsStatement_of_startsExpression {kind : TokenKind}
    (starts : startsExpression kind = true) : startsStatement kind = true := by
  rw [startsStatement, Expected.statement, List.any_append]
  exact Bool.or_eq_true_iff.2 (.inr starts)

/-- Nothing starts with a closer. -/
theorem starts_of_closes {rule : Rule} {kind : TokenKind} (closes : kind.closes = true) :
    rule.starts kind = false := by
  unfold TokenKind.closes at closes
  cases rule <;> split at closes <;> first | rfl | cases closes

end Starters

/-- Words that begin with a token of some kind. -/
def Opens (starts : TokenKind → Bool) (word : List TokenKind) : Prop :=
  ∃ kind rest, word = kind :: rest ∧ starts kind = true

section Openings

variable {starts : TokenKind → Bool}

theorem Opens.append {front : List TokenKind} (opens : Opens starts front)
    (back : List TokenKind) : Opens starts (front ++ back) := by
  obtain ⟨kind, rest, rfl, first⟩ := opens
  exact ⟨kind, rest ++ back, rfl, first⟩

theorem Opens.mono {word : List TokenKind} {weaker : TokenKind → Bool} (opens : Opens starts word)
    (weaken : ∀ kind, starts kind = true → weaker kind = true) : Opens weaker word := by
  obtain ⟨kind, rest, rfl, first⟩ := opens
  exact ⟨kind, rest, rfl, weaken kind first⟩

end Openings

/-- Only blocks may start with separators, and only further clauses with a closer. -/
def Phrase.Opened (word : List TokenKind) : Phrase → Prop
  | .tree rule _ => rule ≠ .block → Opens rule.starts word
  | .chain _ _ | .clauses _ => Opens startsExpression word
  | .clause keyword _ => ∃ rest, word = .keyword keyword :: rest
  | _ => True

theorem Derives.opened {word : List TokenKind} {phrase : Phrase} (derived : Derives word phrase) :
    phrase.Opened word := by
  induction derived with
  | block => exact fun other => absurd rfl other
  | firstStatement | anotherStatement | firstItem | anotherItem | blockBody | inlineBody
  | closedBlock | closedInline | noStride | stride | arrowBody | functionBlock => trivial
  | logical _ ih | comparison _ ih | sum _ ih | product _ ih | power _ ih => exact fun _ => ih
  | bareExpression _ ih =>
    exact fun _ => (ih (by simp)).mono fun _ => startsStatement_of_startsExpression
  | unsigned _ ih | bareAtom _ ih => exact fun _ => ih (by simp)
  | construct isConstruct _ ih =>
    simp only [List.mem_cons, List.not_mem_nil, or_false] at isConstruct
    rcases isConstruct with rfl | rfl | rfl | rfl | rfl <;> exact fun _ => ih (by simp)
  | @sign op => exact fun _ => ⟨_, _, rfl, by cases op <;> rfl⟩
  | @operand level _ _ _ ih => cases level <;> exact ih (by simp [operandRules])
  | operation _ _ front => exact front.append _
  | emptyCall _ ih => exact fun _ => (ih (by simp)).append _
  | call _ _ callee =>
    intro _
    rw [List.append_assoc]
    exact (callee (by simp)).append _
  | clause => exact ⟨_, rfl⟩
  | firstClause _ ih =>
    obtain ⟨rest, rfl⟩ := ih
    exact ⟨_, _, rfl, rfl⟩
  | anotherClause _ _ front => exact front.append _
  | closedClauses _ _ ih | otherwise _ _ ih => exact fun _ => ih.append _
  | inlineClauses _ _ ih => exact fun _ => ih
  | _ => exact fun _ => ⟨_, _, rfl, rfl⟩

theorem Spells.kindAt_starts {kinds : Kinds} {c d : Cursor} {rule : Rule} {shape : Shape}
    (spells : Spells kinds c (.tree rule shape) d) (other : rule ≠ .block) :
    rule.starts (kinds.kindAt c) = true := by
  obtain ⟨word, reads, derived⟩ := spells
  obtain ⟨kind, rest, rfl, starts⟩ := derived.opened other
  exact reads.1 ▸ starts

theorem Spells.kindAt_opens {kinds : Kinds} {c d : Cursor} {rule : Rule} {shape : Shape}
    (spells : Spells kinds c (.tree rule shape) d) (other : rule ≠ .block) :
    (kinds.kindAt c).closes = false := by
  cases closes : (kinds.kindAt c).closes with
  | false => rfl
  | true => exact absurd ((starts_of_closes closes).symm.trans (spells.kindAt_starts other)) nofun

theorem Limit.allows_of_allows {limit : Limit} {depth : Nat}
    (allowed : limit.allows (depth + 1) = true) : limit.allows depth = true := by
  cases limit with
  | none => rfl
  | some most =>
    simp only [Limit.allows, Option.all_some, decide_eq_true_eq] at allowed ⊢
    omega

namespace Rule

variable {kinds : Kinds} {limit : Limit} {depth : Nat} {c d : Cursor}

theorem expression_fails (other : startsExpression (kinds.kindAt c) = false) :
    ∃ error, answer kinds limit depth .expression c = .error error := by
  cases answered : answer kinds limit depth .expression c with
  | error error => exact ⟨error, rfl⟩
  | ok parsed =>
    have starts : startsExpression (kinds.kindAt c) = true :=
      Spells.kindAt_starts (answer_spells answered) (by simp)
    simp [starts] at other

/-- Nothing can be read in front of a closer. -/
theorem statement_fails (closes : (kinds.kindAt c).closes = true) :
    ∃ error, answer kinds limit depth .statement c = .error error := by
  cases answered : answer kinds limit depth .statement c with
  | error error => exact ⟨error, rfl⟩
  | ok parsed =>
    have opens := Spells.kindAt_opens (answer_spells answered) (by simp)
    simp [opens] at closes

theorem answer_of_free {rule : Rule} (free : rule.guarded = false) :
    answer kinds limit depth rule c =
      (rule.parser kinds.size).eval kinds (answer kinds limit depth) c := by
  rw [answer_eq]
  simp [admitted, depthInside, free]

theorem answer_of_guarded {rule : Rule} (guarded : rule.guarded = true)
    (allowed : limit.allows (depth + 1) = true) :
    answer kinds limit depth rule c =
      (rule.parser kinds.size).eval kinds (answer kinds limit (depth + 1)) c := by
  rw [answer_eq]
  simp [admitted, depthInside, guarded, allowed]

end Rule

/-- A tree of a given shape comes out, read up to a given cursor. -/
def Gives (outcome : Outcome Tree) (shape : Shape) (d : Cursor) : Prop :=
  ∃ tree, outcome = .ok ⟨tree, d⟩ ∧ tree.erase = shape

namespace Rule

open Sharp.Grammar.Parser

variable {kinds : Kinds} {limit : Limit} {depth : Nat} {c d : Cursor} {shape : Shape}

section Chains

variable {level : Level} {left right : Cursor → Outcome Tree}

theorem chained_single {tree : Tree} (first : left c = .ok ⟨tree, d⟩)
    (stops : BinaryOp.atLevel? level (kinds.kindAt d) = none) :
    Chained kinds level left right c tree d :=
  ⟨tree, d, [], first, nextOperand_eq_none.2 ⟨stops, rfl⟩, rfl⟩

theorem chained_pair {m : Cursor} {op : BinaryOp} {one other : Shape}
    (first : Gives (left c) one m) (sign : kinds.kindAt m = op.token) (bound : op.level = level)
    (second : Gives (right m.next) other d)
    (stops : BinaryOp.atLevel? level (kinds.kindAt d) = none) :
    ∃ tree, Chained kinds level left right c tree d ∧ tree.erase = .binary () op one other := by
  obtain ⟨one, first, rfl⟩ := first
  obtain ⟨other, second, rfl⟩ := second
  refine ⟨attach one (op, other), ⟨one, m, [(op, other)], first, ?_, rfl⟩, rfl⟩
  exact ⟨d, nextOperand_eq_some.2 ⟨sign, bound, second⟩, nextOperand_eq_none.2 ⟨stops, rfl⟩⟩

end Chains

section Steps

/-- Neither a sign nor a keyword that other rules look for starts an atom. -/
theorem atom_starts (atom : Gives (answer kinds limit depth .atom c) shape d) :
    UnaryOp.sign? (kinds.kindAt c) = none ∧
      ∀ word ∈ [Keyword.not, .var, .return, .continue, .break],
        kinds.kindAt c ≠ .keyword word := by
  obtain ⟨tree, answered, _⟩ := atom
  rw [answer_of_free rfl] at answered
  have succeeds := atom_eq_ok.1 answered
  cases found : kinds.kindAt c with
  | symbol sign => cases sign <;> simp_all [UnaryOp.sign?, leafAt]
  | keyword word => cases word <;> simp_all [UnaryOp.sign?, leafAt]
  | _ => simp [UnaryOp.sign?]

theorem application_of_atom (atom : Gives (answer kinds limit depth .atom c) shape d)
    (follower : kinds.kindAt d ≠ .symbol .openRound) :
    Gives (answer kinds limit depth .application c) shape d := by
  obtain ⟨tree, answered, same⟩ := atom
  rw [answer_of_free rfl]
  exact ⟨tree, application_eq_ok.2 ⟨tree, d, answered, .inr ⟨follower, rfl, rfl⟩⟩, same⟩

theorem power_of_application (operand : Gives (answer kinds limit depth .application c) shape d)
    (stops : BinaryOp.atLevel? .power (kinds.kindAt d) = none) :
    Gives (answer kinds limit depth .power c) shape d := by
  obtain ⟨tree, answered, same⟩ := operand
  rw [answer_of_free rfl]
  exact ⟨tree, (power_eq_ok (answer_moves _ _)).2 (chained_single answered stops), same⟩

theorem signed_of_power (operand : Gives (answer kinds limit (depth + 1) .power c) shape d)
    (allowed : limit.allows (depth + 1) = true) (unsigned : UnaryOp.sign? (kinds.kindAt c) = none) :
    Gives (answer kinds limit depth .signed c) shape d := by
  obtain ⟨tree, answered, same⟩ := operand
  rw [answer_of_guarded rfl allowed]
  exact ⟨tree, signed_eq_ok.2 (.inr ⟨unsigned, answered⟩), same⟩

theorem product_of_signed (operand : Gives (answer kinds limit depth .signed c) shape d)
    (stops : BinaryOp.atLevel? .multiplicative (kinds.kindAt d) = none) :
    Gives (answer kinds limit depth .product c) shape d := by
  obtain ⟨tree, answered, same⟩ := operand
  rw [answer_of_free rfl]
  exact ⟨tree, (product_eq_ok (answer_moves _ _)).2 (chained_single answered stops), same⟩

theorem sum_of_product (operand : Gives (answer kinds limit depth .product c) shape d)
    (stops : BinaryOp.atLevel? .additive (kinds.kindAt d) = none) :
    Gives (answer kinds limit depth .sum c) shape d := by
  obtain ⟨tree, answered, same⟩ := operand
  rw [answer_of_free rfl]
  exact ⟨tree, (sum_eq_ok (answer_moves _ _)).2 (chained_single answered stops), same⟩

theorem comparison_of_sum (operand : Gives (answer kinds limit (depth + 1) .sum c) shape d)
    (allowed : limit.allows (depth + 1) = true) (unnegated : kinds.kindAt c ≠ .keyword .not)
    (stops : BinaryOp.atLevel? .comparison (kinds.kindAt d) = none) :
    Gives (answer kinds limit depth .comparison c) shape d := by
  obtain ⟨tree, answered, same⟩ := operand
  rw [answer_of_guarded rfl allowed]
  exact ⟨tree, (comparison_eq_ok (answer_moves _ _)).2
    (.inr ⟨unnegated, chained_single answered stops⟩), same⟩

theorem expression_of_comparison
    (operand : Gives (answer kinds limit (depth + 1) .comparison c) shape d)
    (allowed : limit.allows (depth + 1) = true) (noAssignment : kinds.kindAt c ≠ .keyword .var)
    (stops : BinaryOp.atLevel? .logical (kinds.kindAt d) = none) :
    Gives (answer kinds limit depth .expression c) shape d := by
  obtain ⟨tree, answered, same⟩ := operand
  rw [answer_of_guarded rfl allowed]
  exact ⟨tree, (expression_eq_ok (answer_moves _ _)).2
    (.inr ⟨noAssignment, chained_single answered stops⟩), same⟩

theorem statement_of_expression
    (operand : Gives (answer kinds limit depth .expression c) shape d)
    (others : ∀ word ∈ [Keyword.return, .continue, .break], kinds.kindAt c ≠ .keyword word) :
    Gives (answer kinds limit depth .statement c) shape d := by
  obtain ⟨tree, answered, same⟩ := operand
  refine ⟨tree, ?_, same⟩
  rw [answer_of_free rfl]
  apply statement_eq_ok.2
  split
  · rename_i found
    exact absurd found (others _ (by simp))
  · rename_i found
    exact absurd found (others _ (by simp))
  · rename_i found
    exact absurd found (others _ (by simp))
  · exact answered

end Steps

section Operands

variable (quiet : kinds.kindAt d ≠ .symbol .openRound)

include quiet

theorem signed_of_atom (atom : Gives (answer kinds limit (depth + 1) .atom c) shape d)
    (allowed : limit.allows (depth + 1) = true)
    (stops : BinaryOp.atLevel? .power (kinds.kindAt d) = none) :
    Gives (answer kinds limit depth .signed c) shape d :=
  signed_of_power (power_of_application (application_of_atom atom quiet) stops) allowed
    (atom_starts atom).1

theorem product_of_atom (atom : Gives (answer kinds limit (depth + 1) .atom c) shape d)
    (allowed : limit.allows (depth + 1) = true)
    (stops : ∀ level ∈ [Level.power, .multiplicative],
      BinaryOp.atLevel? level (kinds.kindAt d) = none) :
    Gives (answer kinds limit depth .product c) shape d :=
  product_of_signed (signed_of_atom quiet atom allowed (stops _ (by simp))) (stops _ (by simp))

theorem sum_of_atom (atom : Gives (answer kinds limit (depth + 1) .atom c) shape d)
    (allowed : limit.allows (depth + 1) = true)
    (stops : ∀ level ∈ [Level.power, .multiplicative, .additive],
      BinaryOp.atLevel? level (kinds.kindAt d) = none) :
    Gives (answer kinds limit depth .sum c) shape d := by
  simp only [List.forall_mem_cons] at stops
  exact sum_of_product
    (product_of_signed (signed_of_atom quiet atom allowed stops.1) stops.2.1) stops.2.2.1

theorem comparison_of_atom (atom : Gives (answer kinds limit (depth + 2) .atom c) shape d)
    (allowed : limit.allows (depth + 2) = true)
    (stops : ∀ level ∈ [Level.power, .multiplicative, .additive, .comparison],
      BinaryOp.atLevel? level (kinds.kindAt d) = none) :
    Gives (answer kinds limit depth .comparison c) shape d := by
  simp only [List.forall_mem_cons] at stops
  have sum := sum_of_product (product_of_signed (signed_of_atom quiet atom allowed stops.1)
    stops.2.1) stops.2.2.1
  exact comparison_of_sum sum (Limit.allows_of_allows allowed)
    ((atom_starts atom).2 _ (by simp)) stops.2.2.2.1

end Operands

section Closed

variable (closes : (kinds.kindAt d).closes = true)

include closes

theorem expression_of_sum (operand : Gives (answer kinds limit (depth + 2) .sum c) shape d)
    (allowed : limit.allows (depth + 2) = true) (unnegated : kinds.kindAt c ≠ .keyword .not)
    (noAssignment : kinds.kindAt c ≠ .keyword .var) :
    Gives (answer kinds limit depth .expression c) shape d :=
  expression_of_comparison
    (comparison_of_sum operand allowed unnegated (atLevel_of_closes closes _))
    (Limit.allows_of_allows allowed) noAssignment (atLevel_of_closes closes _)

theorem expression_of_signed (operand : Gives (answer kinds limit (depth + 2) .signed c) shape d)
    (allowed : limit.allows (depth + 2) = true) (unnegated : kinds.kindAt c ≠ .keyword .not)
    (noAssignment : kinds.kindAt c ≠ .keyword .var) :
    Gives (answer kinds limit depth .expression c) shape d :=
  expression_of_sum closes
    (sum_of_product (product_of_signed operand (atLevel_of_closes closes _))
      (atLevel_of_closes closes _)) allowed unnegated noAssignment

theorem expression_of_power (operand : Gives (answer kinds limit (depth + 3) .power c) shape d)
    (allowed : limit.allows (depth + 3) = true) (unsigned : UnaryOp.sign? (kinds.kindAt c) = none)
    (unnegated : kinds.kindAt c ≠ .keyword .not) (noAssignment : kinds.kindAt c ≠ .keyword .var) :
    Gives (answer kinds limit depth .expression c) shape d :=
  expression_of_signed closes (signed_of_power operand allowed unsigned)
    (Limit.allows_of_allows allowed) unnegated noAssignment

/-- Atoms and their calls are carried up to expressions alike. -/
theorem expression_of_application
    (operand : Gives (answer kinds limit (depth + 3) .application c) shape d)
    (allowed : limit.allows (depth + 3) = true) (unsigned : UnaryOp.sign? (kinds.kindAt c) = none)
    (unnegated : kinds.kindAt c ≠ .keyword .not) (noAssignment : kinds.kindAt c ≠ .keyword .var) :
    Gives (answer kinds limit depth .expression c) shape d :=
  expression_of_power closes (power_of_application operand (atLevel_of_closes closes _)) allowed
    unsigned unnegated noAssignment

theorem expression_of_atom (atom : Gives (answer kinds limit (depth + 3) .atom c) shape d)
    (allowed : limit.allows (depth + 3) = true) :
    Gives (answer kinds limit depth .expression c) shape d := by
  obtain ⟨unsigned, others⟩ := atom_starts atom
  exact expression_of_application closes
    (application_of_atom atom (ne_openRound_of_closes closes)) allowed unsigned
    (others _ (by simp)) (others _ (by simp))

/-- One operator between two atoms; on the right of `^` stands a sign level of its own. -/
theorem expression_of_operands {op : BinaryOp} {one other : Shape} {m : Cursor}
    (left : Gives (answer kinds limit (depth + 3) .atom c) one m)
    (sign : kinds.kindAt m = op.token)
    (right : Gives (answer kinds limit (depth + 3) .atom m.next) other d)
    (deeper : Gives (answer kinds limit (depth + 4) .atom m.next) other d)
    (allowed : limit.allows (depth + 4) = true) :
    Gives (answer kinds limit depth .expression c) (.binary () op one other) d := by
  have three := Limit.allows_of_allows allowed
  have two := Limit.allows_of_allows three
  have quiet : kinds.kindAt m ≠ .symbol .openRound := sign ▸ token_ne_openRound op
  have also := ne_openRound_of_closes closes
  have stops (level : Level) : BinaryOp.atLevel? level (kinds.kindAt d) = none :=
    atLevel_of_closes closes level
  have passes (level : Level) (other : op.level ≠ level) :
      BinaryOp.atLevel? level (kinds.kindAt m) = none := sign ▸ atLevel_token other
  obtain ⟨unsigned, others⟩ := atom_starts left
  have unnegated := others .not (by simp)
  have noAssignment := others .var (by simp)
  cases bound : op.level with
  | logical =>
    have first := comparison_of_atom quiet left three (by simp [passes, bound])
    have second := comparison_of_atom also right three (by simp [stops])
    obtain ⟨tree, chained, same⟩ := chained_pair first sign bound second (stops _)
    rw [answer_of_guarded rfl (Limit.allows_of_allows two)]
    exact ⟨tree, (expression_eq_ok (answer_moves _ _)).2 (.inr ⟨noAssignment, chained⟩), same⟩
  | comparison =>
    have first := sum_of_atom quiet left three (by simp [passes, bound])
    have second := sum_of_atom also right three (by simp [stops])
    obtain ⟨tree, chained, same⟩ := chained_pair first sign bound second (stops _)
    refine expression_of_comparison ?_ (Limit.allows_of_allows two) noAssignment (stops _)
    rw [answer_of_guarded rfl two]
    exact ⟨tree, (comparison_eq_ok (answer_moves _ _)).2 (.inr ⟨unnegated, chained⟩), same⟩
  | additive =>
    have first := product_of_atom quiet left three (by simp [passes, bound])
    have second := product_of_atom also right three (by simp [stops])
    obtain ⟨tree, chained, same⟩ := chained_pair first sign bound second (stops _)
    refine expression_of_sum closes ?_ two unnegated noAssignment
    rw [answer_of_free rfl]
    exact ⟨tree, (sum_eq_ok (answer_moves _ _)).2 chained, same⟩
  | multiplicative =>
    have first := signed_of_atom quiet left three (passes _ (by simp [bound]))
    have second := signed_of_atom also right three (stops _)
    obtain ⟨tree, chained, same⟩ := chained_pair first sign bound second (stops _)
    refine expression_of_sum closes (sum_of_product ?_ (stops _)) two unnegated noAssignment
    rw [answer_of_free rfl]
    exact ⟨tree, (product_eq_ok (answer_moves _ _)).2 chained, same⟩
  | power =>
    have first := application_of_atom left quiet
    have second := signed_of_atom also deeper allowed (stops _)
    obtain ⟨tree, chained, same⟩ := chained_pair first sign bound second (stops _)
    refine expression_of_power closes ?_ three unsigned unnegated noAssignment
    rw [answer_of_free rfl]
    exact ⟨tree, (power_eq_ok (answer_moves _ _)).2 chained, same⟩

/-- Signs and negation take their operand one level further in. -/
theorem expression_of_operand {op : UnaryOp} (sign : kinds.kindAt c = op.token)
    (operand : Gives (answer kinds limit (depth + 4) .atom c.next) shape d)
    (allowed : limit.allows (depth + 4) = true) :
    Gives (answer kinds limit depth .expression c) (.unary () op shape) d := by
  have three := Limit.allows_of_allows allowed
  have two := Limit.allows_of_allows three
  have quiet := ne_openRound_of_closes closes
  have stops (level : Level) : BinaryOp.atLevel? level (kinds.kindAt d) = none :=
    atLevel_of_closes closes level
  have signed (isSign : UnaryOp.sign? (kinds.kindAt c) = some op) :
      Gives (answer kinds limit (depth + 2) .signed c) (.unary () op shape) d := by
    obtain ⟨inner, answered, rfl⟩ := signed_of_atom quiet operand allowed (stops _)
    rw [answer_of_guarded rfl three]
    exact ⟨_, signed_eq_ok.2 (.inl ⟨op, inner, isSign, answered, rfl⟩), rfl⟩
  cases op with
  | plus | negate =>
    exact expression_of_signed closes (signed (by rw [sign]; rfl)) two
      (by simp [sign, UnaryOp.token]) (by simp [sign, UnaryOp.token])
  | not =>
    obtain ⟨inner, answered, rfl⟩ := comparison_of_atom quiet operand allowed (by simp [stops])
    refine expression_of_comparison ?_ (Limit.allows_of_allows two) (by simp [sign, UnaryOp.token])
      (stops _)
    rw [answer_of_guarded rfl two]
    exact ⟨_, (comparison_eq_ok (answer_moves _ _)).2 (.inl ⟨sign, inner, answered, rfl⟩), rfl⟩

end Closed

end Rule

end Grammar

end Sharp

import Sharp.Proofs.Grammar.Progress

/-!
Successes of the rules. For each rule one statement says what it takes to succeed: which tokens
stand where, which calls succeed and what tree is put together. A loop is read as the series of
things its turns found.
-/
namespace Sharp.Grammar

namespace Parser

variable {α β σ ε : Type} {kinds : Kinds} {answers : Answers} {c d : Cursor}

section Steps

variable {parsed : Parsed β}

theorem eval_bind_eq_ok (p : Parser α) (f : α → Parser β) :
    (p.bind f).eval kinds answers c = .ok parsed ↔
      ∃ value d, p.eval kinds answers c = .ok ⟨value, d⟩ ∧
        (f value).eval kinds answers d = .ok parsed := by
  rw [eval_bind]
  cases p.eval kinds answers c with
  | error error => simp
  | ok first => exact ⟨fun rest => ⟨_, _, rfl, rest⟩, by rintro ⟨_, _, ⟨⟩, rest⟩; exact rest⟩

theorem eval_done (value : α) : (done value).eval kinds answers c = .ok ⟨value, c⟩ := rfl

theorem eval_here (f : Cursor → Parser β) :
    (here.bind f).eval kinds answers c = (f c).eval kinds answers c := rfl

theorem eval_peek (f : TokenKind → Parser β) :
    (peek.bind f).eval kinds answers c = (f (kinds.kindAt c)).eval kinds answers c := rfl

theorem eval_step (f : Unit → Parser β) :
    (step.bind f).eval kinds answers c = (f ()).eval kinds answers c.next := rfl

theorem eval_fail (complaint : Complaint) :
    (fail complaint : Parser α).eval kinds answers c = .error ⟨complaint, c⟩ := rfl

theorem eval_spanning (start : Cursor) (build : Extent → α) :
    (spanning start build).eval kinds answers c = .ok ⟨build (.upTo start c), c⟩ := rfl

theorem eval_read (rule : Rule) : (read rule).eval kinds answers c = answers rule c := by
  unfold read
  rw [eval]
  split <;> rename_i answered <;> rw [answered] <;> rfl

theorem eval_read_eq (rule : Rule) : (read rule).eval kinds answers = answers rule :=
  funext fun _ => eval_read rule

theorem eval_read_eq_ok (rule : Rule) {f : rule.Value → Parser β} :
    ((read rule).bind f).eval kinds answers c = .ok parsed ↔
      ∃ value d, answers rule c = .ok ⟨value, d⟩ ∧
        (f value).eval kinds answers d = .ok parsed := by
  rw [eval_bind_eq_ok, eval_read]

theorem eval_expecting_eq_ok {classes : List TokenClass} {p : Parser β} :
    (expecting classes p).eval kinds answers c = .ok parsed ↔
      p.eval kinds answers c = .ok parsed := by
  show (p.mapError _).eval kinds answers c = .ok parsed ↔ _
  rw [eval_mapError]
  cases p.eval kinds answers c with
  | error error => exact ⟨nofun, nofun⟩
  | ok value => exact Iff.rfl

theorem eval_expect_eq_ok {others : List TokenClass} {wanted : TokenClass} {f : Unit → Parser β} :
    ((expect others wanted).bind f).eval kinds answers c = .ok parsed ↔
      wanted.admits (kinds.kindAt c) = true ∧ (f ()).eval kinds answers c.next = .ok parsed := by
  simp only [expect, bind_eq, bind_bind, eval_peek]
  split
  · rename_i admits
    simp only [admits, true_and]
    rfl
  · rename_i refused
    simp [refused, eval_bind, eval_fail]

end Steps

section Classes

variable {kind : TokenKind}

@[simp] theorem admits_keyword {word : Keyword} :
    (TokenClass.keyword word).admits kind = true ↔ kind = .keyword word := by
  cases kind <;> simp [TokenClass.admits, eq_comm]

@[simp] theorem admits_symbol {sign : Symbol} :
    (TokenClass.symbol sign).admits kind = true ↔ kind = .symbol sign := by
  cases kind <;> simp [TokenClass.admits, eq_comm]

@[simp] theorem admits_newline : TokenClass.newline.admits kind = true ↔ kind = .newline := by
  cases kind <;> simp [TokenClass.admits]

@[simp] theorem isSymbol_iff {sign : Symbol} : isSymbol kind sign = true ↔ kind = .symbol sign :=
  admits_symbol

@[simp] theorem isKeyword_iff {word : Keyword} :
    isKeyword kind word = true ↔ kind = .keyword word :=
  admits_keyword

@[simp] theorem isNewline_iff : isNewline kind = true ↔ kind = .newline := admits_newline

@[simp] theorem isIdentifier_iff : isIdentifier kind = true ↔ ∃ name, kind = .identifier name := by
  cases kind <;> simp [isIdentifier, TokenClass.admits]

end Classes

/-- What the turns of a loop find one after the other until one finds nothing. -/
def Series (turn : Cursor → Outcome (Option ε)) : Cursor → List ε → Cursor → Prop
  | c, [], d => turn c = .ok ⟨none, d⟩
  | c, x :: xs, d => ∃ m, turn c = .ok ⟨some x, m⟩ ∧ Series turn m xs d

namespace Series

variable {turn other : Cursor → Outcome (Option ε)} {holds : ε → Prop} {found : List ε}

theorem forall_mem (yields : ∀ c x d, turn c = .ok ⟨some x, d⟩ → holds x)
    (series : Series turn c found d) : ∀ x ∈ found, holds x := by
  induction found generalizing c with
  | nil => simp
  | cons x xs ih =>
    obtain ⟨m, answered, series⟩ := series
    exact List.forall_mem_cons.2 ⟨yields c x m answered, ih series⟩

/-- Turns that find the same, as far as it is such as was found, find all of it, and then what they
    go on to find where the first series ends. -/
theorem prolong {back : List ε} {e : Cursor} (reached : Cursor → Prop)
    (finish : ∀ c, reached c → turn c = .ok ⟨none, d⟩ → Series other c back e)
    (step : ∀ c x m, reached c → turn c = .ok ⟨some x, m⟩ → holds x →
      reached m ∧ other c = .ok ⟨some x, m⟩)
    (begins : reached c) (series : Series turn c found d) (all : ∀ x ∈ found, holds x) :
    Series other c (found ++ back) e := by
  induction found generalizing c with
  | nil => exact finish c begins series
  | cons x xs ih =>
    obtain ⟨m, answered, series⟩ := series
    obtain ⟨first, later⟩ := List.forall_mem_cons.1 all
    obtain ⟨goesOn, found⟩ := step c x m begins answered first
    exact ⟨m, found, ih goesOn series later⟩

/-- The same where both end alike. -/
theorem transfers (reached : Cursor → Prop)
    (finish : ∀ c, reached c → turn c = .ok ⟨none, d⟩ → other c = .ok ⟨none, d⟩)
    (step : ∀ c x e, reached c → turn c = .ok ⟨some x, e⟩ → holds x →
      reached e ∧ other c = .ok ⟨some x, e⟩)
    (begins : reached c) (series : Series turn c found d) (all : ∀ x ∈ found, holds x) :
    Series other c found d :=
  found.append_nil ▸ series.prolong reached finish step begins all

end Series

/-- A loop whose turns pass tokens and stop at the end of the text runs as long as they find
    something. -/
theorem eval_iterate_eq_ok {turn : σ → Parser (Option σ)} (element : Cursor → Outcome (Option ε))
    (push : σ → ε → σ) {bound : Nat} {state last : σ}
    (turns : ∀ state c, (turn state).eval kinds answers c =
      (element c).map (Parsed.map (Option.map (push state))))
    (moves : ∀ c x d, element c = .ok ⟨some x, d⟩ → c.index < d.index)
    (stops : ∀ c, kinds.kindAt c = .eof → element c = .ok ⟨none, c⟩)
    (enough : kinds.size ≤ c.index + bound) :
    (iterate turn bound state).eval kinds answers c = .ok ⟨last, d⟩ ↔
      ∃ found, Series element c found d ∧ last = found.foldl push state := by
  induction bound generalizing state c with
  | zero =>
    have finished := stops c (Kinds.eof_of_size_le enough)
    simp only [iterate, eval, Except.ok.injEq, Parsed.mk.injEq]
    constructor
    · intro given
      obtain ⟨rfl, rfl⟩ := given
      exact ⟨[], finished, rfl⟩
    · intro given
      obtain ⟨_ | ⟨x, xs⟩, series, rfl⟩ := given
      · simpa [Series, finished, eq_comm] using series
      · obtain ⟨m, found, _⟩ := series
        simp [finished] at found
  | succ bound ih =>
    rw [iterate, eval_bind_eq_ok]
    simp only [turns]
    cases outcome : element c with
    | error error =>
      simp only [Except.map, reduceCtorEq, false_and, exists_false, false_iff]
      intro given
      obtain ⟨_ | ⟨x, xs⟩, series, rfl⟩ := given
      · simp [Series, outcome] at series
      · simp [Series, outcome] at series
    | ok parsed =>
      obtain ⟨_ | x, m⟩ := parsed
      · constructor
        · intro given
          obtain ⟨value, e, ⟨⟩, ⟨⟩⟩ := given
          exact ⟨[], outcome, rfl⟩
        · intro given
          obtain ⟨_ | ⟨x, xs⟩, series, rfl⟩ := given
          · simp only [Series, outcome, Except.ok.injEq, Parsed.mk.injEq] at series
            exact ⟨none, m, rfl, by simp [eval, series.2]⟩
          · obtain ⟨m, found, _⟩ := series
            simp [outcome] at found
      · have moved := moves c x m outcome
        have rest := @ih m (push state x) (by omega)
        constructor
        · intro given
          obtain ⟨value, e, ⟨⟩, tail⟩ := given
          obtain ⟨xs, series, same⟩ := rest.1 tail
          exact ⟨x :: xs, ⟨m, outcome, series⟩, same⟩
        · intro given
          obtain ⟨_ | ⟨y, ys⟩, series, rfl⟩ := given
          · simp [Series, outcome] at series
          · obtain ⟨e, found, series⟩ := series
            rw [outcome] at found
            cases found
            exact ⟨_, _, rfl, rest.2 ⟨ys, series, rfl⟩⟩

section Turns

/-- Finds something only in front of tokens that pass a test. -/
def turnIf (kinds : Kinds) (test : TokenKind → Bool) (element : Cursor → Outcome ε) (c : Cursor) :
    Outcome (Option ε) :=
  if test (kinds.kindAt c) then (element c).map (Parsed.map some) else .ok ⟨none, c⟩

variable {test : TokenKind → Bool} {element : Cursor → Outcome ε} {x : ε} {xs : List ε}

theorem turnIf_eq_none : turnIf kinds test element c = .ok ⟨none, d⟩ ↔
    test (kinds.kindAt c) = false ∧ d = c := by
  unfold turnIf
  cases test (kinds.kindAt c) with
  | false => simp [eq_comm]
  | true => cases element c <;> simp [Except.map, Parsed.map]

theorem turnIf_eq_some : turnIf kinds test element c = .ok ⟨some x, d⟩ ↔
    test (kinds.kindAt c) = true ∧ element c = .ok ⟨x, d⟩ := by
  unfold turnIf
  cases test (kinds.kindAt c) with
  | false => simp
  | true =>
    rcases element c with error | ⟨value, e⟩
    · simp [Except.map]
    · simp [Except.map, Parsed.map]

theorem series_nil : Series (turnIf kinds test element) c [] d ↔
    test (kinds.kindAt c) = false ∧ d = c :=
  turnIf_eq_none

theorem series_cons : Series (turnIf kinds test element) c (x :: xs) d ↔
    test (kinds.kindAt c) = true ∧ ∃ m, element c = .ok ⟨x, m⟩ ∧
      Series (turnIf kinds test element) m xs d := by
  simp only [Series, turnIf_eq_some, and_assoc, exists_and_left]

theorem eval_iterate_turnIf (test : TokenKind → Bool) (element : Cursor → Outcome ε)
    {turn : σ → Parser (Option σ)} (push : σ → ε → σ) {state last : σ}
    (turns : ∀ state c, (turn state).eval kinds answers c =
      if test (kinds.kindAt c) then (element c).map (Parsed.map fun x => some (push state x))
      else .ok ⟨none, c⟩)
    (moves : ∀ c x d, test (kinds.kindAt c) = true → element c = .ok ⟨x, d⟩ → c.index < d.index)
    (stops : test .eof = false) :
    (iterate turn kinds.size state).eval kinds answers c = .ok ⟨last, d⟩ ↔
      ∃ found, Series (turnIf kinds test element) c found d ∧ last = found.foldl push state := by
  refine eval_iterate_eq_ok _ push (fun state c => ?_) (fun c x d found => ?_)
    (fun c finished => ?_) (Nat.le_add_left _ _)
  · rw [turns, turnIf]
    split
    · cases element c <;> rfl
    · rfl
  · obtain ⟨passes, found⟩ := turnIf_eq_some.1 found
    exact moves c x d passes found
  · exact turnIf_eq_none.2 ⟨finished ▸ stops, rfl⟩

theorem foldl_snoc (items : List α) (first : List α) :
    items.foldl (fun front x => front ++ [x]) first = first ++ items := by
  induction items generalizing first with
  | nil => simp
  | cons x xs ih => simp [ih]

end Turns

section Newlines

variable {n : Nat}

theorem newlines_succeeds (kinds : Kinds) (answers : Answers) (bound : Nat) (c : Cursor) :
    ∃ n d, (newlines bound).eval kinds answers c = .ok ⟨n, d⟩ := by
  have meets : (newlines bound).Meets kinds ⟨fun _ _ => True, fun _ _ _ => True, fun _ => True⟩ c
      fun outcome => ∃ n d, outcome = .ok ⟨n, d⟩ :=
    newlines_moves fun n d _ => ⟨n, d, rfl⟩
  exact eval_of_meets (fun _ _ _ => trivial) meets

/-- Exactly `n` separators stand between two cursors, and none at the second one. -/
def Skips (kinds : Kinds) (c : Cursor) (n : Nat) (d : Cursor) : Prop :=
  kinds.Reads c (List.replicate n .newline) d ∧ kinds.kindAt d ≠ .newline

theorem series_newlines {found : List Unit} :
    Series (turnIf kinds isNewline fun c => .ok ⟨(), c.next⟩) c found d ↔
      Skips kinds c found.length d := by
  unfold Skips
  induction found generalizing c with
  | nil =>
    simp only [series_nil, List.length_nil, List.replicate_zero, Kinds.reads_nil]
    rw [Bool.eq_false_iff, ne_eq, isNewline_iff]
    constructor
    · intro given
      obtain ⟨other, rfl⟩ := given
      exact ⟨rfl, other⟩
    · intro given
      obtain ⟨rfl, other⟩ := given
      exact ⟨other, rfl⟩
  | cons x xs ih =>
    simp only [series_cons, isNewline_iff, ih, List.length_cons, List.replicate_succ,
      Kinds.reads_cons]
    constructor
    · intro given
      obtain ⟨separator, m, ⟨⟩, reads, other⟩ := given
      exact ⟨⟨separator, by simp, reads⟩, other⟩
    · intro given
      obtain ⟨⟨separator, _, reads⟩, other⟩ := given
      exact ⟨separator, _, rfl, reads, other⟩

theorem eval_newlines_eq_ok :
    (newlines kinds.size).eval kinds answers c = .ok ⟨n, d⟩ ↔ Skips kinds c n d := by
  have counts (found : List Unit) (n : Nat) :
      found.foldl (fun n _ => n + 1) n = n + found.length := by
    induction found generalizing n with
    | nil => rfl
    | cons x xs ih => simp [ih]; omega
  rw [newlines, eval_iterate_turnIf isNewline (fun c => .ok ⟨(), c.next⟩) fun n _ => n + 1]
  · simp only [series_newlines, counts, Nat.zero_add]
    constructor
    · intro given
      obtain ⟨found, skips, rfl⟩ := given
      exact skips
    · exact fun skips => ⟨List.replicate n (), by simpa using skips, by simp⟩
  · intro state c
    simp only [bind_eq, pure_eq, eval_peek]
    split <;> rfl
  · rintro c x d _ ⟨⟩
    simp
  · rfl

theorem exists_skips (kinds : Kinds) (c : Cursor) : ∃ n d, Skips kinds c n d := by
  obtain ⟨n, d, passed⟩ := newlines_succeeds kinds (fun _ c => .error ⟨.trailingToken, c⟩)
    kinds.size c
  exact ⟨n, d, eval_newlines_eq_ok.1 passed⟩

end Newlines

section Items

theorem identifier_eq_ok {name : Ident Extent} :
    identifier.eval kinds answers c = .ok ⟨name, d⟩ ↔
      kinds.kindAt c = .identifier name.name ∧ name.place = .token c ∧ d = c.next := by
  obtain ⟨text, place⟩ := name
  simp only [identifier, bind_eq, pure_eq, eval_peek]
  split
  · rename_i found
    simp only [eval_here, eval_step, eval_done, Except.ok.injEq, Parsed.mk.injEq, Ident.mk.injEq,
      found, TokenKind.identifier.injEq]
    grind
  · rename_i other
    simp only [eval_fail, reduceCtorEq, false_iff]
    exact fun found => other text found.1

def isComma (kind : TokenKind) : Bool := isSymbol kind .comma

theorem separated_eq_ok {first item : Parser α} {items : List α}
    (moves : ∀ c x d, item.eval kinds answers c = .ok ⟨x, d⟩ → c.index < d.index) :
    (separated kinds.size first item).eval kinds answers c = .ok ⟨items, d⟩ ↔
      ∃ head m rest, first.eval kinds answers c = .ok ⟨head, m⟩ ∧
        Series (turnIf kinds isComma fun c => item.eval kinds answers c.next) m rest d ∧
        items = head :: rest := by
  simp only [separated, bind_eq, pure_eq, eval_bind_eq_ok]
  refine exists_congr fun head => exists_congr fun m => ?_
  rw [eval_iterate_turnIf isComma (fun c => item.eval kinds answers c.next)
    fun front x => front ++ [x]]
  · simp only [foldl_snoc, List.singleton_append, exists_and_left]
  · intro state c
    simp only [eval_peek]
    split <;> rename_i comma
    · simp only [isComma, comma, if_true, eval_step]
      rw [eval_bind]
      cases item.eval kinds answers c.next <;> rfl
    · simp only [isComma, comma, eval_done]
      rfl
  · intro c x d _ found
    have moved := moves c.next x d found
    simp only [Cursor.next_index] at moved
    omega
  · rfl

variable (moves : ∀ rule c, Moved kinds c (answers rule c))

include moves

theorem index_lt_of_ok {rule : Rule} {value : rule.Value}
    (succeeds : answers rule c = .ok ⟨value, d⟩) : c.index < d.index := by
  have moved := moves rule c
  rw [succeeds] at moved
  exact moved.index_lt

theorem enclosed_eq_ok {close : Symbol} {items : List Tree} :
    (enclosed kinds.size close).eval kinds answers c = .ok ⟨items, d⟩ ↔
      kinds.kindAt c = .symbol close ∧ items = [] ∧ d = c.next ∨
      kinds.kindAt c ≠ .symbol close ∧ ∃ first m rest e,
        answers .expression c = .ok ⟨first, m⟩ ∧
        Series (turnIf kinds isComma fun c => answers .expression c.next) m rest e ∧
        kinds.kindAt e = .symbol close ∧ d = e.next ∧ items = first :: rest := by
  simp only [enclosed, bind_eq, pure_eq, eval_peek]
  split <;> rename_i closing
  · simp only [isSymbol_iff] at closing
    simp only [closing, eval_step, eval_done, Except.ok.injEq, Parsed.mk.injEq]
    grind
  · simp only [isSymbol_iff] at closing
    have item (c : Cursor) (x : Tree) (d : Cursor)
        (found : (read .expression).eval kinds answers c = .ok ⟨x, d⟩) : c.index < d.index :=
      index_lt_of_ok moves ((eval_read .expression).symm.trans found)
    rw [eval_bind_eq_ok]
    simp only [separated_eq_ok item, eval_expecting_eq_ok, eval_read .expression,
      eval_expect_eq_ok, eval_done, admits_symbol, closing, Except.ok.injEq, Parsed.mk.injEq]
    grind

end Items

section Operators

variable {tree : Tree}

/-- One more operator of a level and what stands on its right. -/
def nextOperand (kinds : Kinds) (level : Level) (right : Cursor → Outcome Tree) (c : Cursor) :
    Outcome (Option (BinaryOp × Tree)) :=
  match BinaryOp.atLevel? level (kinds.kindAt c) with
  | none => .ok ⟨none, c⟩
  | some op => (right c.next).map (Parsed.map fun operand => some (op, operand))

def attach (left : Tree) (operand : BinaryOp × Tree) : Tree :=
  .binary (left.place.join operand.2.place) operand.1 left operand.2

theorem nextOperand_eq_none {level : Level} {right : Cursor → Outcome Tree} :
    nextOperand kinds level right c = .ok ⟨none, d⟩ ↔
      BinaryOp.atLevel? level (kinds.kindAt c) = none ∧ d = c := by
  unfold nextOperand
  cases BinaryOp.atLevel? level (kinds.kindAt c) with
  | none => simp [eq_comm]
  | some op => cases right c.next <;> simp [Except.map, Parsed.map]

theorem nextOperand_eq_some {level : Level} {right : Cursor → Outcome Tree} {op : BinaryOp} :
    nextOperand kinds level right c = .ok ⟨some (op, tree), d⟩ ↔
      kinds.kindAt c = op.token ∧ op.level = level ∧ right c.next = .ok ⟨tree, d⟩ := by
  rw [← and_assoc, ← BinaryOp.atLevel?_eq_some_iff]
  unfold nextOperand
  cases BinaryOp.atLevel? level (kinds.kindAt c) with
  | none => simp
  | some found =>
    rcases right c.next with error | ⟨value, e⟩
    · simp [Except.map]
    · simp [Except.map, Parsed.map, and_assoc]

/-- A first operand, then operators of a level with what stands on their right. -/
def Chained (kinds : Kinds) (level : Level) (left right : Cursor → Outcome Tree) (c : Cursor)
    (tree : Tree) (d : Cursor) : Prop :=
  ∃ first m rest, left c = .ok ⟨first, m⟩ ∧ Series (nextOperand kinds level right) m rest d ∧
    tree = rest.foldl attach first

theorem chain_eq_ok {level : Level} {left right : Parser Tree}
    (moves : ∀ c x d, right.eval kinds answers c = .ok ⟨x, d⟩ → c.index < d.index) :
    (chain kinds.size level left right).eval kinds answers c = .ok ⟨tree, d⟩ ↔
      Chained kinds level (left.eval kinds answers) (right.eval kinds answers) c tree d := by
  rw [chain, bind_eq, eval_bind_eq_ok]
  refine exists_congr fun first => exists_congr fun m => ?_
  rw [eval_iterate_eq_ok (nextOperand kinds level (right.eval kinds answers)) attach _ _ _
    (Nat.le_add_left _ _)]
  · simp only [exists_and_left]
  · intro left c
    simp only [operation, bind_eq, pure_eq, eval_peek, nextOperand]
    cases BinaryOp.atLevel? level (kinds.kindAt c) with
    | none => rfl
    | some op =>
      simp only [eval_step]
      rw [eval_bind]
      cases right.eval kinds answers c.next <;> rfl
  · rintro c ⟨op, operand⟩ d found
    have moved := moves _ _ _ (nextOperand_eq_some.1 found).2.2
    simp only [Cursor.next_index] at moved
    omega
  · intro c finished
    exact nextOperand_eq_none.2 ⟨by simp [finished, BinaryOp.atLevel?, BinaryOp.ofToken?], rfl⟩

variable (moves : ∀ rule c, Moved kinds c (answers rule c))

include moves

theorem sum_eq_ok :
    (Rule.sum.parser kinds.size).eval kinds answers c = .ok ⟨tree, d⟩ ↔
      Chained kinds .additive (answers .product) (answers .product) c tree d := by
  have chained := @chain_eq_ok kinds answers c d tree .additive (read .product) (read .product)
    fun c x d answered => index_lt_of_ok moves ((eval_read .product).symm.trans answered)
  rwa [eval_read_eq .product] at chained

theorem product_eq_ok :
    (Rule.product.parser kinds.size).eval kinds answers c = .ok ⟨tree, d⟩ ↔
      Chained kinds .multiplicative (answers .signed) (answers .signed) c tree d := by
  have chained := @chain_eq_ok kinds answers c d tree .multiplicative (read .signed) (read .signed)
    fun c x d answered => index_lt_of_ok moves ((eval_read .signed).symm.trans answered)
  rwa [eval_read_eq .signed] at chained

theorem power_eq_ok :
    (Rule.power.parser kinds.size).eval kinds answers c = .ok ⟨tree, d⟩ ↔
      Chained kinds .power (answers .application) (answers .signed) c tree d := by
  have chained := @chain_eq_ok kinds answers c d tree .power (read .application) (read .signed)
    fun c x d answered => index_lt_of_ok moves ((eval_read .signed).symm.trans answered)
  rwa [eval_read_eq .application, eval_read_eq .signed] at chained

theorem expression_eq_ok :
    (expression kinds.size).eval kinds answers c = .ok ⟨tree, d⟩ ↔
      (kinds.kindAt c = .keyword .var ∧ ∃ name value,
        kinds.kindAt c.next = .identifier name ∧
        kinds.kindAt c.next.next = .symbol .assign ∧
        answers .expression c.next.next.next = .ok ⟨value, d⟩ ∧
        tree = .assign (.upTo c d) ⟨name, .token c.next⟩ value) ∨
      kinds.kindAt c ≠ .keyword .var ∧
        Chained kinds .logical (answers .comparison) (answers .comparison) c tree d := by
  simp only [expression, bind_eq, eval_here, eval_peek]
  split <;> rename_i found
  · simp only [assignment, bind_eq, eval_step]
    rw [eval_bind_eq_ok]
    simp only [identifier_eq_ok, eval_expect_eq_ok, eval_read_eq_ok .expression, eval_spanning,
      admits_symbol, found, Except.ok.injEq, Parsed.mk.injEq]
    constructor
    · intro given
      obtain ⟨⟨name, place⟩, m, ⟨named, rfl, rfl⟩, assigned, value, e, answered, rfl, rfl⟩ := given
      exact .inl ⟨trivial, name, value, named, assigned, answered, rfl⟩
    · intro given
      rcases given with ⟨_, name, value, named, assigned, answered, rfl⟩ | ⟨other, _⟩
      · exact ⟨⟨name, .token c.next⟩, _, ⟨named, rfl, rfl⟩, assigned, value, d, answered, rfl, rfl⟩
      · exact absurd rfl other
  · rw [eval_expecting_eq_ok, chain_eq_ok]
    · simp only [eval_read_eq .comparison]
      grind
    · exact fun c x d answered =>
        index_lt_of_ok moves ((eval_read .comparison).symm.trans answered)

theorem comparison_eq_ok :
    (comparison kinds.size).eval kinds answers c = .ok ⟨tree, d⟩ ↔
      (kinds.kindAt c = .keyword .not ∧ ∃ operand,
        answers .comparison c.next = .ok ⟨operand, d⟩ ∧
        tree = .unary (.upTo c d) .not operand) ∨
      kinds.kindAt c ≠ .keyword .not ∧
        Chained kinds .comparison (answers .sum) (answers .sum) c tree d := by
  simp only [comparison, bind_eq, eval_here, eval_peek]
  split <;> rename_i found
  · simp only [eval_step, eval_read_eq_ok .comparison, eval_spanning, found, Except.ok.injEq,
      Parsed.mk.injEq]
    grind
  · rw [eval_expecting_eq_ok, chain_eq_ok]
    · simp only [eval_read_eq .sum]
      grind
    · exact fun c x d answered =>
        index_lt_of_ok moves ((eval_read .sum).symm.trans answered)

omit moves in
theorem signed_eq_ok :
    signed.eval kinds answers c = .ok ⟨tree, d⟩ ↔
      (∃ op operand, UnaryOp.sign? (kinds.kindAt c) = some op ∧
        answers .signed c.next = .ok ⟨operand, d⟩ ∧ tree = .unary (.upTo c d) op operand) ∨
      UnaryOp.sign? (kinds.kindAt c) = none ∧ answers .power c = .ok ⟨tree, d⟩ := by
  simp only [signed, bind_eq, eval_here, eval_peek]
  cases UnaryOp.sign? (kinds.kindAt c) with
  | some op =>
    simp only [eval_step, eval_read_eq_ok .signed, eval_spanning, Except.ok.injEq, Parsed.mk.injEq]
    grind
  | none => simp [eval_read .power]

omit moves in
theorem application_eq_ok :
    (application kinds.size).eval kinds answers c = .ok ⟨tree, d⟩ ↔
      ∃ callee m, answers .atom c = .ok ⟨callee, m⟩ ∧
        ((kinds.kindAt m = .symbol .openRound ∧ ∃ args,
          (enclosed kinds.size .closeRound).eval kinds answers m.next = .ok ⟨args, d⟩ ∧
          tree = .call (.upTo c d) callee args) ∨
        kinds.kindAt m ≠ .symbol .openRound ∧ tree = callee ∧ d = m) := by
  simp only [application, bind_eq, pure_eq, eval_here, eval_read_eq_ok .atom, eval_peek]
  refine exists_congr fun callee => exists_congr fun m => and_congr_right fun _ => ?_
  split <;> rename_i opening <;> rw [isSymbol_iff] at opening
  · rw [eval_step, eval_bind_eq_ok]
    simp only [eval_spanning, opening, Except.ok.injEq, Parsed.mk.injEq]
    grind
  · simp only [eval_done, opening, Except.ok.injEq, Parsed.mk.injEq]
    grind

omit moves in
theorem leaf_eq_ok {build : Extent → Tree} :
    (leaf build).eval kinds answers c = .ok ⟨tree, d⟩ ↔
      d = c.next ∧ tree = build (.upTo c d) := by
  simp only [leaf, bind_eq, eval_here, eval_step, eval_spanning, Except.ok.injEq, Parsed.mk.injEq]
  grind

omit moves in
theorem bracketed_eq_ok :
    bracketed.eval kinds answers c = .ok ⟨tree, d⟩ ↔
      ∃ m, answers .expression c.next = .ok ⟨tree, m⟩ ∧
        kinds.kindAt m = .symbol .closeRound ∧ d = m.next := by
  simp only [bracketed, bind_eq, pure_eq, eval_step, eval_read_eq_ok .expression,
    eval_expect_eq_ok, eval_done, admits_symbol, Except.ok.injEq, Parsed.mk.injEq]
  grind

/-- The tree of a token that is an atom by itself. -/
def leafAt (extent : Extent) : TokenKind → Option Tree
  | .int value => some (.int extent value)
  | .float value => some (.float extent value)
  | .string value => some (.string extent value)
  | .identifier name => some (.access extent name)
  | _ => none

omit moves in
theorem atom_eq_ok :
    atom.eval kinds answers c = .ok ⟨tree, d⟩ ↔
      match kinds.kindAt c with
      | .symbol .openRound => ∃ m, answers .expression c.next = .ok ⟨tree, m⟩ ∧
          kinds.kindAt m = .symbol .closeRound ∧ d = m.next
      | .symbol .openSquare => answers .listing c = .ok ⟨tree, d⟩
      | .keyword .if => answers .conditional c = .ok ⟨tree, d⟩
      | .keyword .for => answers .forLoop c = .ok ⟨tree, d⟩
      | .keyword .while => answers .whileLoop c = .ok ⟨tree, d⟩
      | .keyword .fun => answers .function c = .ok ⟨tree, d⟩
      | kind => leafAt (.token c) kind = some tree ∧ d = c.next := by
  simp only [atom, bind_eq, eval_peek]
  have place : Extent.upTo c c.next = .token c := by
    simp [Extent.upTo, Extent.token, Cursor.max]
  have single (build : Extent → Tree) : (leaf build).eval kinds answers c = .ok ⟨tree, d⟩ ↔
      build (.token c) = tree ∧ d = c.next := by
    rw [leaf_eq_ok]
    constructor <;> rintro ⟨rfl, rfl⟩ <;> simp [place]
  cases kinds.kindAt c with
  | symbol sign =>
    cases sign <;> simp [leafAt, bracketed_eq_ok, eval_read .listing, eval_fail]
  | keyword word =>
    cases word <;> simp [leafAt, eval_read .conditional, eval_read .forLoop, eval_read .whileLoop,
      eval_read .function, eval_fail]
  | _ => simp [leafAt, single, eval_fail]

omit moves in
theorem listing_eq_ok :
    (listing kinds.size).eval kinds answers c = .ok ⟨tree, d⟩ ↔
      kinds.kindAt c = .symbol .openSquare ∧ ∃ items,
        (enclosed kinds.size .closeSquare).eval kinds answers c.next = .ok ⟨items, d⟩ ∧
        tree = .list (.upTo c d) items := by
  simp only [listing, bind_eq, eval_here, eval_expect_eq_ok, admits_symbol]
  rw [eval_bind_eq_ok]
  simp only [eval_spanning, Except.ok.injEq, Parsed.mk.injEq]
  grind

end Operators

section Blocks

variable {tree : Tree} {body : Body Tree}

/-- One more statement behind separators, if one can be read there. -/
def nextStatement (kinds : Kinds) (answers : Answers) (c : Cursor) : Outcome (Option Tree) :=
  match (newlines kinds.size).eval kinds answers c with
  | .ok ⟨0, m⟩ => .ok ⟨none, m⟩
  | .ok ⟨_ + 1, m⟩ =>
    match answers .statement m with
    | .ok parsed => .ok (parsed.map some)
    | .error _ => .ok ⟨none, m⟩
  | .error error => .error error

theorem nextStatement_of_none {m : Cursor} (skips : Skips kinds c 0 m) :
    nextStatement kinds answers c = .ok ⟨none, m⟩ := by
  rw [nextStatement, eval_newlines_eq_ok.2 skips]

theorem nextStatement_of_some {n : Nat} {m : Cursor} (skips : Skips kinds c (n + 1) m) :
    nextStatement kinds answers c =
      match answers .statement m with
      | .ok parsed => .ok (parsed.map some)
      | .error _ => .ok ⟨none, m⟩ := by
  rw [nextStatement, eval_newlines_eq_ok.2 skips]

theorem nextStatement_eq_some :
    nextStatement kinds answers c = .ok ⟨some tree, d⟩ ↔
      ∃ n m, Skips kinds c (n + 1) m ∧ answers .statement m = .ok ⟨tree, d⟩ := by
  constructor
  · intro found
    obtain ⟨_ | n, m, skips⟩ := exists_skips kinds c
    · simp [nextStatement_of_none skips] at found
    · rw [nextStatement_of_some skips] at found
      refine ⟨n, m, skips, ?_⟩
      rcases answered : answers .statement m with error | ⟨value, e⟩ <;> rw [answered] at found
      · simp at found
      · simpa [Parsed.map] using found
  · intro given
    obtain ⟨n, m, skips, answered⟩ := given
    rw [nextStatement_of_some skips, answered]
    rfl

theorem nextStatement_eq_none :
    nextStatement kinds answers c = .ok ⟨none, d⟩ ↔
      ∃ n, Skips kinds c n d ∧ (n = 0 ∨ ∃ error, answers .statement d = .error error) := by
  constructor
  · intro found
    obtain ⟨_ | n, m, skips⟩ := exists_skips kinds c
    · rw [nextStatement_of_none skips] at found
      cases found
      exact ⟨0, skips, .inl rfl⟩
    · rw [nextStatement_of_some skips] at found
      rcases answered : answers .statement m with error | ⟨value, e⟩ <;> rw [answered] at found
      · cases found
        exact ⟨n + 1, skips, .inr ⟨error, answered⟩⟩
      · simp [Parsed.map] at found
  · intro given
    obtain ⟨_ | n, skips, fails⟩ := given
    · exact nextStatement_of_none skips
    · obtain ⟨error, answered⟩ := fails.resolve_left (Nat.succ_ne_zero n)
      rw [nextStatement_of_some skips, answered]

theorem block_eq_ok (moves : ∀ rule c, Moved kinds c (answers rule c)) :
    (block kinds.size).eval kinds answers c = .ok ⟨tree, d⟩ ↔
      ∃ n m first e rest, Skips kinds c n m ∧ answers .statement m = .ok ⟨first, e⟩ ∧
        Series (nextStatement kinds answers) e rest d ∧
        tree = .block ⟨(Node.place first).first, d⟩ (first :: rest) := by
  have loop {first : Tree} {e : Cursor} {statements : List Tree} :
      (iterate (further kinds.size) kinds.size [first]).eval kinds answers e =
        .ok ⟨statements, d⟩ ↔ ∃ rest, Series (nextStatement kinds answers) e rest d ∧
          statements = first :: rest := by
    rw [eval_iterate_eq_ok (nextStatement kinds answers) (fun front x => front ++ [x]) _ _ _
      (Nat.le_add_left _ _)]
    · simp only [foldl_snoc, List.singleton_append]
    · intro statements c
      obtain ⟨n, m, skips⟩ := exists_skips kinds c
      simp only [further, bind_eq, pure_eq]
      rw [eval_bind, eval_newlines_eq_ok.2 skips]
      cases n with
      | zero =>
        rw [nextStatement_of_none skips]
        rfl
      | succ n =>
        rw [nextStatement_of_some skips]
        simp only [Nat.succ_ne_zero, if_false, eval_here, eval]
        cases answers .statement m <;> rfl
    · intro c x d found
      obtain ⟨n, m, skips, answered⟩ := nextStatement_eq_some.1 found
      have passed := skips.1.index
      have moved := index_lt_of_ok moves answered
      simp only [List.length_replicate] at passed
      omega
    · intro c finished
      exact nextStatement_eq_none.2 ⟨0, ⟨rfl, by simp [finished]⟩, .inl rfl⟩
  simp only [block, bind_eq, pure_eq]
  rw [eval_bind_eq_ok]
  simp only [eval_newlines_eq_ok, eval_read_eq_ok .statement]
  constructor
  · intro given
    obtain ⟨n, m, skips, first, e, answered, goesOn⟩ := given
    rw [eval_bind_eq_ok] at goesOn
    obtain ⟨statements, e', series, ends⟩ := goesOn
    obtain ⟨rfl, rfl⟩ : Node.block ⟨(Node.place first).first, e'⟩ statements = tree ∧ e' = d := by
      simpa [eval_here, eval_done] using ends
    obtain ⟨rest, found, rfl⟩ := loop.1 series
    exact ⟨n, m, first, e, rest, skips, answered, found, rfl⟩
  · intro given
    obtain ⟨n, m, first, e, rest, skips, answered, series, rfl⟩ := given
    refine ⟨n, m, skips, first, e, answered, ?_⟩
    rw [eval_bind_eq_ok]
    exact ⟨_, d, loop.2 ⟨rest, series, rfl⟩, rfl⟩

/-- How the statements of a block were found. -/
theorem found_of_block (moves : ∀ rule c, Moved kinds c (answers rule c)) {place : Extent}
    {trees : List Tree}
    (succeeds : (block kinds.size).eval kinds answers c = .ok ⟨.block place trees, d⟩) :
    ∃ n m first e rest, Skips kinds c n m ∧ answers .statement m = .ok ⟨first, e⟩ ∧
      Series (nextStatement kinds answers) e rest d ∧ place = ⟨(Node.place first).first, d⟩ ∧
      trees = first :: rest := by
  simpa using (block_eq_ok moves).1 succeeds

theorem statement_eq_ok :
    statement.eval kinds answers c = .ok ⟨tree, d⟩ ↔
      match kinds.kindAt c with
      | .keyword .return =>
        (∃ value, answers .expression c.next = .ok ⟨value, d⟩ ∧
          tree = .returnWith (.upTo c d) (some value)) ∨
        (∃ error, answers .expression c.next = .error error) ∧ d = c.next ∧
          tree = .returnWith (.token c) none
      | .keyword .continue => tree = .continueLoop (.token c) ∧ d = c.next
      | .keyword .break => tree = .breakLoop (.token c) ∧ d = c.next
      | _ => answers .expression c = .ok ⟨tree, d⟩ := by
  have place : Extent.upTo c c.next = .token c := by
    simp [Extent.upTo, Extent.token, Cursor.max]
  simp only [statement, bind_eq, eval_here, eval_peek]
  split
  · simp only [returned, bind_eq, eval_step, eval]
    rcases answers .expression c.next with error | ⟨value, e⟩
    · simp [eval_spanning, place]
      grind
    · simp [eval_spanning]
      grind
  · simp only [eval_step, eval_spanning, place, Except.ok.injEq, Parsed.mk.injEq]
    grind
  · simp only [eval_step, eval_spanning, place, Except.ok.injEq, Parsed.mk.injEq]
    grind
  · simp only [eval_expecting_eq_ok, eval_read .expression]

theorem body_eq_ok :
    Parser.body.eval kinds answers c = .ok ⟨body, d⟩ ↔
      if kinds.kindAt c = .newline then
        ∃ node, answers .block c.next = .ok ⟨node, d⟩ ∧ body = ⟨node, true⟩
      else ∃ node, answers .statement c = .ok ⟨node, d⟩ ∧ body = ⟨node, false⟩ := by
  simp only [Parser.body, bind_eq, pure_eq, eval_peek]
  by_cases separator : kinds.kindAt c = .newline
  · simp only [separator, isNewline_iff.2 rfl, if_true, eval_step, eval_read_eq_ok .block,
      eval_done, Except.ok.injEq, Parsed.mk.injEq]
    grind
  · simp only [isNewline_iff, separator, if_false, eval_read_eq_ok .statement, eval_done,
      Except.ok.injEq, Parsed.mk.injEq]
    grind

theorem closedBody_eq_ok :
    closedBody.eval kinds answers c = .ok ⟨body, d⟩ ↔
      ∃ m, answers .body c = .ok ⟨body, m⟩ ∧
        if body.isBlock then kinds.kindAt m = .keyword .end ∧ d = m.next else d = m := by
  simp only [closedBody, bind_eq, pure_eq, eval_read_eq_ok .body]
  constructor
  · intro given
    obtain ⟨body', m, answered, rest⟩ := given
    split at rest
    · rename_i isBlock
      simp only [eval_expect_eq_ok, admits_keyword, eval_done, Except.ok.injEq,
        Parsed.mk.injEq] at rest
      obtain ⟨closed, rfl, rfl⟩ := rest
      exact ⟨m, answered, by simp [isBlock, closed]⟩
    · rename_i isInline
      simp only [eval_done, Except.ok.injEq, Parsed.mk.injEq] at rest
      obtain ⟨rfl, rfl⟩ := rest
      exact ⟨m, answered, by simp [isInline]⟩
  · intro given
    obtain ⟨m, answered, rest⟩ := given
    refine ⟨body, m, answered, ?_⟩
    split at rest <;> rename_i isBlock <;> simp only [isBlock, if_true]
    · simp [eval_expect_eq_ok, rest, eval_done]
    · simp [rest, eval_done]

end Blocks

section Constructs

variable {tree : Tree} {body : Body Tree}

theorem clause_eq_ok {word : Keyword} {found : Clause Tree} :
    (clause word).eval kinds answers c = .ok ⟨found, d⟩ ↔
      kinds.kindAt c = .keyword word ∧ ∃ m,
        answers .expression c.next = .ok ⟨found.condition, m⟩ ∧
        kinds.kindAt m = .keyword .then ∧ answers .body m.next = .ok ⟨found.body, d⟩ := by
  obtain ⟨condition, body⟩ := found
  simp only [clause, bind_eq, pure_eq, eval_expect_eq_ok, eval_read_eq_ok .expression,
    eval_read_eq_ok .body, admits_keyword, eval_done, Except.ok.injEq, Parsed.mk.injEq,
    Clause.mk.injEq]
  grind

theorem otherwise_eq_ok {clauses : List (Clause Tree)} {last : Option (Body Tree)} :
    (otherwise clauses).eval kinds answers c = .ok ⟨last, d⟩ ↔
      (endsInBlock clauses = true ∧ kinds.kindAt c = .keyword .end ∧ last = none ∧ d = c.next) ∨
      (kinds.kindAt c = .keyword .else ∧ ∃ body, answers .closedBody c.next = .ok ⟨body, d⟩ ∧
        last = some body) ∨
      endsInBlock clauses = false ∧ kinds.kindAt c ≠ .keyword .else ∧ last = none ∧ d = c := by
  simp only [otherwise, bind_eq, pure_eq, eval_peek, Bool.and_eq_true, isKeyword_iff]
  cases endsInBlock clauses
  all_goals
    by_cases closes : kinds.kindAt c = .keyword .end
    · simp [closes, eval_step, eval_done]
      try grind
    · by_cases other : kinds.kindAt c = .keyword .else
      · simp [other, eval_step, eval_read_eq_ok .closedBody, eval_done]
        grind
      · simp [closes, other, eval_done, eval_fail]
        try grind

def isElif (kind : TokenKind) : Bool := isKeyword kind .elif

theorem conditional_eq_ok (moves : ∀ rule c, Moved kinds c (answers rule c)) :
    (conditional kinds.size).eval kinds answers c = .ok ⟨tree, d⟩ ↔
      ∃ first m rest e last, (clause .if).eval kinds answers c = .ok ⟨first, m⟩ ∧
        Series (turnIf kinds isElif ((clause .elif).eval kinds answers)) m rest e ∧
        (otherwise (first :: rest)).eval kinds answers e = .ok ⟨last, d⟩ ∧
        tree = .ifElse (.upTo c d) (first :: rest) last := by
  have loop {first : Clause Tree} {m e : Cursor} {clauses : List (Clause Tree)} :
      (iterate furtherClause kinds.size [first]).eval kinds answers m = .ok ⟨clauses, e⟩ ↔
        ∃ rest, Series (turnIf kinds isElif ((clause .elif).eval kinds answers)) m rest e ∧
          clauses = first :: rest := by
    rw [eval_iterate_turnIf isElif ((clause .elif).eval kinds answers)
      fun front x => front ++ [x]]
    · simp only [foldl_snoc, List.singleton_append]
    · intro clauses c
      simp only [furtherClause, bind_eq, pure_eq, eval_peek]
      split <;> rename_i more
      · simp only [isElif, more, if_true]
        rw [eval_bind]
        cases (clause .elif).eval kinds answers c <;> rfl
      · simp only [isElif, more, eval_done]
        rfl
    · intro c x d _ found
      obtain ⟨_, m, condition, _, body⟩ := clause_eq_ok.1 found
      have first := index_lt_of_ok moves condition
      have second := index_lt_of_ok moves body
      simp only [Cursor.next_index] at first second
      omega
    · rfl
  simp only [conditional, bind_eq, eval_here]
  rw [eval_bind_eq_ok]
  refine exists_congr fun first => exists_congr fun m => ?_
  simp only [eval_bind_eq_ok, loop, eval_spanning, Except.ok.injEq, Parsed.mk.injEq]
  grind

theorem whileLoop_eq_ok :
    whileLoop.eval kinds answers c = .ok ⟨tree, d⟩ ↔
      kinds.kindAt c = .keyword .while ∧ ∃ condition m body,
        answers .expression c.next = .ok ⟨condition, m⟩ ∧ kinds.kindAt m = .keyword .then ∧
        answers .closedBody m.next = .ok ⟨body, d⟩ ∧
        tree = .whileLoop (.upTo c d) condition body := by
  simp only [whileLoop, bind_eq, eval_here, eval_expect_eq_ok, eval_read_eq_ok .expression,
    eval_read_eq_ok .closedBody, admits_keyword, eval_spanning, Except.ok.injEq, Parsed.mk.injEq]
  grind

theorem stride_eq_ok {step : Option Tree} :
    stride.eval kinds answers c = .ok ⟨step, d⟩ ↔
      (kinds.kindAt c = .keyword .step ∧ ∃ value, answers .expression c.next = .ok ⟨value, d⟩ ∧
        step = some value) ∨
      kinds.kindAt c ≠ .keyword .step ∧ step = none ∧ d = c := by
  simp only [stride, bind_eq, pure_eq, eval_peek]
  split <;> rename_i stepping <;> rw [isKeyword_iff] at stepping
  · simp only [stepping, eval_step, eval_read_eq_ok .expression, eval_done, Except.ok.injEq,
      Parsed.mk.injEq]
    grind
  · simp only [stepping, eval_done, Except.ok.injEq, Parsed.mk.injEq]
    grind

theorem forLoop_eq_ok :
    forLoop.eval kinds answers c = .ok ⟨tree, d⟩ ↔
      kinds.kindAt c = .keyword .for ∧ ∃ name lower m upper e step g body,
        kinds.kindAt c.next = .identifier name ∧
        kinds.kindAt c.next.next = .symbol .assign ∧
        answers .expression c.next.next.next = .ok ⟨lower, m⟩ ∧
        kinds.kindAt m = .keyword .to ∧ answers .expression m.next = .ok ⟨upper, e⟩ ∧
        stride.eval kinds answers e = .ok ⟨step, g⟩ ∧ kinds.kindAt g = .keyword .then ∧
        answers .closedBody g.next = .ok ⟨body, d⟩ ∧
        tree = .forLoop (.upTo c d) ⟨name, .token c.next⟩ lower upper step body := by
  simp only [forLoop, bind_eq, eval_here, eval_expect_eq_ok, admits_keyword]
  refine and_congr_right fun _ => ?_
  rw [eval_bind_eq_ok]
  simp only [identifier_eq_ok, eval_expect_eq_ok, eval_read_eq_ok .expression,
    eval_read_eq_ok .closedBody, admits_keyword, admits_symbol, eval_bind_eq_ok stride,
    eval_spanning, Except.ok.injEq, Parsed.mk.injEq]
  constructor
  · intro given
    obtain ⟨⟨name, place⟩, _, ⟨named, rfl, rfl⟩, rest⟩ := given
    grind
  · intro given
    obtain ⟨name, rest⟩ := given
    refine ⟨⟨name, .token c.next⟩, _, ⟨by grind, rfl, rfl⟩, by grind⟩

theorem functionName_eq_ok {name : Option (Ident Extent)} :
    functionName.eval kinds answers c = .ok ⟨name, d⟩ ↔
      (∃ text, kinds.kindAt c = .identifier text ∧ kinds.kindAt c.next = .symbol .openRound ∧
        name = some ⟨text, .token c⟩ ∧ d = c.next.next) ∨
      kinds.kindAt c = .symbol .openRound ∧ name = none ∧ d = c.next := by
  simp only [functionName, bind_eq, pure_eq, eval_peek]
  split <;> rename_i named <;> rw [isIdentifier_iff] at named
  · obtain ⟨text, named⟩ := named
    rw [eval_bind_eq_ok]
    simp only [identifier_eq_ok, eval_expect_eq_ok, admits_symbol, eval_done, named,
      Except.ok.injEq, Parsed.mk.injEq]
    constructor
    · intro given
      obtain ⟨⟨name, place⟩, _, ⟨⟨⟩, rfl, rfl⟩, opened, rfl, rfl⟩ := given
      grind
    · intro given
      rcases given with ⟨_, ⟨⟩, opened, rfl, rfl⟩ | ⟨⟨⟩, _⟩
      exact ⟨⟨text, .token c⟩, _, ⟨rfl, rfl, rfl⟩, opened, rfl, rfl⟩
  · simp only [eval_expect_eq_ok, admits_symbol, eval_done, Except.ok.injEq, Parsed.mk.injEq]
    grind

theorem params_eq_ok {params : List (Ident Extent)} :
    (Parser.params kinds.size).eval kinds answers c = .ok ⟨params, d⟩ ↔
      (∃ first m rest e, identifier.eval kinds answers c = .ok ⟨first, m⟩ ∧
        Series (turnIf kinds isComma fun c => identifier.eval kinds answers c.next) m rest e ∧
        kinds.kindAt e = .symbol .closeRound ∧ params = first :: rest ∧ d = e.next) ∨
      kinds.kindAt c = .symbol .closeRound ∧ params = [] ∧ d = c.next := by
  have moves (c : Cursor) (x : Ident Extent) (d : Cursor)
      (found : identifier.eval kinds answers c = .ok ⟨x, d⟩) : c.index < d.index := by
    simp [(identifier_eq_ok.1 found).2.2]
  simp only [Parser.params, bind_eq, pure_eq, eval_peek]
  split <;> rename_i named <;> rw [isIdentifier_iff] at named
  · obtain ⟨text, named⟩ := named
    rw [eval_bind_eq_ok]
    simp only [separated_eq_ok moves, eval_expect_eq_ok, admits_symbol, eval_done, named,
      Except.ok.injEq, Parsed.mk.injEq]
    grind
  · have other {first : Ident Extent} {m : Cursor} :
        identifier.eval kinds answers c ≠ .ok ⟨first, m⟩ :=
      fun found => named ⟨_, (identifier_eq_ok.1 found).1⟩
    simp only [eval_expect_eq_ok, admits_symbol, eval_done, Except.ok.injEq, Parsed.mk.injEq]
    grind

theorem functionBody_eq_ok :
    functionBody.eval kinds answers c = .ok ⟨body, d⟩ ↔
      (kinds.kindAt c = .symbol .arrow ∧ ∃ node, answers .expression c.next = .ok ⟨node, d⟩ ∧
        body = ⟨node, false⟩) ∨
      kinds.kindAt c = .newline ∧ ∃ node m, answers .block c.next = .ok ⟨node, m⟩ ∧
        kinds.kindAt m = .keyword .end ∧ body = ⟨node, true⟩ ∧ d = m.next := by
  simp only [functionBody, bind_eq, pure_eq, eval_peek]
  split <;> rename_i arrow <;> rw [isSymbol_iff] at arrow
  · simp only [arrow, eval_step, eval_read_eq_ok .expression, eval_done, Except.ok.injEq,
      Parsed.mk.injEq]
    grind
  · simp only [arrow, eval_expect_eq_ok, eval_read_eq_ok .block, admits_newline, admits_keyword,
      eval_done, Except.ok.injEq, Parsed.mk.injEq]
    grind

theorem function_eq_ok :
    (function kinds.size).eval kinds answers c = .ok ⟨tree, d⟩ ↔
      kinds.kindAt c = .keyword .fun ∧ ∃ name m params e body,
        functionName.eval kinds answers c.next = .ok ⟨name, m⟩ ∧
        (Parser.params kinds.size).eval kinds answers m = .ok ⟨params, e⟩ ∧
        functionBody.eval kinds answers e = .ok ⟨body, d⟩ ∧
        tree = .function (.upTo c d) name params body := by
  simp only [function, bind_eq, eval_here, eval_expect_eq_ok, admits_keyword]
  refine and_congr_right fun _ => ?_
  simp only [eval_bind_eq_ok, eval_spanning, Except.ok.injEq, Parsed.mk.injEq]
  grind

end Constructs

/-- A program is a block right up to the end of the text. -/
theorem program_eq_ok {tree : Tree} :
    program.eval kinds answers c = .ok ⟨tree, d⟩ ↔
      answers .block c = .ok ⟨tree, d⟩ ∧ kinds.kindAt d = .eof := by
  simp only [program, bind_eq, pure_eq, eval_read_eq_ok .block, eval_peek]
  constructor
  · intro given
    obtain ⟨value, m, answered, rest⟩ := given
    split at rest
    · rename_i finished
      cases rest
      exact ⟨answered, finished⟩
    · simp [eval_fail] at rest
  · intro given
    obtain ⟨answered, finished⟩ := given
    exact ⟨tree, d, answered, by simp [finished, eval_done]⟩

theorem program_of_trailing {tree : Tree} (answered : answers .block c = .ok ⟨tree, d⟩)
    (more : kinds.kindAt d ≠ .eof) :
    program.eval kinds answers c = .error ⟨.trailingToken, d⟩ := by
  simp only [program, bind_eq]
  rw [eval_bind, eval_read .block, answered]
  -- The kind behind the block is not that of a final token, so the other branch is taken.
  simp only [eval_peek]
  exact eval_fail _

end Parser

/-- A row of tokens is accepted if a block can be read up to a final token. -/
theorem parseKinds_eq_ok {kinds : Kinds} {limit : Limit} {tree : Tree} :
    (parseKinds kinds limit .start).1 = .ok tree ↔
      ∃ d, Rule.answer kinds limit 0 .block .start = .ok ⟨tree, d⟩ ∧ kinds.kindAt d = .eof := by
  rw [parseKinds_outcome]
  change (Parser.program.eval kinds (Rule.answer kinds limit 0) .start).map Parsed.value = _ ↔ _
  constructor
  · intro accepted
    rcases ran : Parser.program.eval kinds (Rule.answer kinds limit 0) .start with
      error | ⟨value, d⟩
    · simp [ran, Except.map] at accepted
    · obtain rfl : value = tree := by simpa [ran, Except.map] using accepted
      exact ⟨d, Parser.program_eq_ok.1 ran⟩
  · intro given
    obtain ⟨d, read⟩ := given
    rw [Parser.program_eq_ok.2 read]
    rfl

end Sharp.Grammar

import Sharp.Proofs.Grammar.CallSites

/-!
What rules announce. If the errors of the rules it calls list classes of tokens the offending token
is in none of, then so do the errors of a rule; and if it is the first token that offends, the rule
lists just what it may start with. Where a list is put in place of another one, it is longer by what
the rule looked for before it asked for the rest.
-/
namespace Sharp.Grammar

open Sharp.Grammar.Parser

/-- The classes of tokens a rule may start with. -/
def Rule.opening : Rule → List TokenClass
  | .block | .statement | .body | .closedBody => Expected.statement
  | .expression => Expected.expression
  | .comparison => Expected.comparison
  | .sum | .product | .signed | .power | .application | .atom => Expected.atom
  | .listing => [.symbol .openSquare]
  | .conditional => [.keyword .if]
  | .forLoop => [.keyword .for]
  | .whileLoop => [.keyword .while]
  | .function => [.keyword .fun]

/-- The rules below the one for signs are not asked where a sign stands. -/
def Rule.Ready (rule : Rule) (kind : TokenKind) : Prop :=
  rule.rank < Rule.signed.rank → UnaryOp.sign? kind = none

/-- The rules from signs upwards may be read at any token. -/
theorem Rule.ready (rule : Rule) (high : Rule.signed.rank ≤ rule.rank) (kind : TokenKind) :
    rule.Ready kind := by
  intro low
  omega

/-- A token that belongs to none of the classes. -/
def Outside (classes : List TokenClass) (kind : TokenKind) : Prop :=
  ∀ wanted ∈ classes, wanted.admits kind = false

theorem outside_cons {wanted : TokenClass} {classes : List TokenClass} {kind : TokenKind} :
    Outside (wanted :: classes) kind ↔ ¬wanted.admits kind = true ∧ Outside classes kind := by
  simp only [Outside, List.forall_mem_cons, Bool.not_eq_true]

theorem outside_append {front back : List TokenClass} {kind : TokenKind} :
    Outside (front ++ back) kind ↔ Outside front kind ∧ Outside back kind :=
  List.forall_mem_append

theorem outside_nil (kind : TokenKind) : Outside [] kind := by
  intro listed among
  cases among

theorem outside_singleton {wanted : TokenClass} {kind : TokenKind} :
    Outside [wanted] kind ↔ ¬wanted.admits kind = true := by
  rw [outside_cons, and_iff_left (outside_nil kind)]

section Atoms

variable {kind : TokenKind}

theorem admits_int : TokenClass.int.admits kind = true ↔ ∃ value, kind = .int value := by
  cases kind <;> simp [TokenClass.admits]

theorem admits_float : TokenClass.float.admits kind = true ↔ ∃ value, kind = .float value := by
  cases kind <;> simp [TokenClass.admits]

theorem admits_string : TokenClass.string.admits kind = true ↔ ∃ value, kind = .string value := by
  cases kind <;> simp [TokenClass.admits]

theorem admits_identifier :
    TokenClass.identifier.admits kind = true ↔ ∃ name, kind = .identifier name :=
  isIdentifier_iff

/-- What may start an atom, besides the signs that may stand before one. -/
theorem outside_atom (unsigned : UnaryOp.sign? kind = none)
    (leaves : Outside [.int, .float, .string, .identifier] kind)
    (others : Outside [.symbol .openRound, .symbol .openSquare, .keyword .if, .keyword .for,
      .keyword .while, .keyword .fun] kind) : Outside Expected.atom kind := by
  have notSign (sign : Symbol) (signs : UnaryOp.sign? (.symbol sign) ≠ none) :
      ¬(TokenClass.symbol sign).admits kind = true := by
    intro admits
    rw [admits_symbol.1 admits] at unsigned
    exact signs unsigned
  have signs : Outside [.symbol .plus, .symbol .minus] kind :=
    outside_cons.2 ⟨notSign .plus (by decide), outside_singleton.2 (notSign .minus (by decide))⟩
  have parts : Outside ([.int, .float, .string, .identifier] ++
      ([.symbol .plus, .symbol .minus] ++ [.symbol .openRound, .symbol .openSquare, .keyword .if,
        .keyword .for, .keyword .while, .keyword .fun])) kind :=
    outside_append.2 ⟨leaves, outside_append.2 ⟨signs, others⟩⟩
  exact parts

end Atoms

/-- An error from `start` on that lists classes its token is outside of. -/
def Honest (kinds : Kinds) (start : Cursor) (error : SyntaxError) : Prop :=
  start.index ≤ error.cursor.index ∧
    ∃ listed, error.error = .expected listed ∧ Outside listed (kinds.kindAt error.cursor)

/-- An honest error that lists just these classes if it is about the first token. -/
def Announced (kinds : Kinds) (classes : List TokenClass) (start : Cursor) (error : SyntaxError) :
    Prop :=
  Honest kinds start error ∧ (error.cursor = start → error.error = .expected classes)

theorem Announced.outside {kinds : Kinds} {classes : List TokenClass} {start : Cursor}
    {complaint : Complaint} (announced : Announced kinds classes start ⟨complaint, start⟩) :
    complaint = .expected classes ∧ Outside classes (kinds.kindAt start) := by
  obtain ⟨⟨_, listed, lists, outside⟩, first⟩ := announced
  have same : complaint = .expected classes := first rfl
  obtain rfl : listed = classes := Complaint.expected.inj (lists.symm.trans same)
  exact ⟨same, outside⟩

/-- A row with what calls yield on it if their errors are such as they should be. -/
structure Candid where
  kinds : Kinds
  answers : Answers
  moves : ∀ rule c, Moved kinds c (answers rule c)
  tells : ∀ rule c error, rule.Ready (kinds.kindAt c) → answers rule c = .error error →
    Announced kinds rule.opening c error

namespace Parser

variable {α β σ : Type} {w : Candid}

theorem eval_ahead {kinds : Kinds} {answers : Answers}
    (moves : ∀ rule c, Moved kinds c (answers rule c)) (p : Parser α) {c d : Cursor} {value : α}
    (ran : p.eval kinds answers c = .ok ⟨value, d⟩) : c.index ≤ d.index := by
  induction p generalizing c with
  | done =>
    cases ran
    exact Nat.le_refl _
  | raise => cases ran
  | look next ih => exact ih c (kinds.kindAt c) ran
  | advance next ih => exact Nat.le_of_succ_le (ih ran)
  | attempt rule next ih =>
    have moved := moves rule c
    simp only [eval] at ran
    split at ran <;> rename_i answered <;> rw [answered] at moved
    · exact Nat.le_trans (Nat.le_of_lt moved.index_lt) (ih _ ran)
    · exact ih _ ran
  | note event next ih => exact ih ran

/-- Whatever goes wrong from a cursor on is said honestly. -/
def Honestly (w : Candid) (p : Parser α) (c : Cursor) : Prop :=
  ∀ error, p.eval w.kinds w.answers c = .error error → Honest w.kinds c error

/-- And if it goes wrong at once, just these classes are listed. -/
def Announces (w : Candid) (classes : List TokenClass) (p : Parser α) (c : Cursor) : Prop :=
  ∀ error, p.eval w.kinds w.answers c = .error error → Announced w.kinds classes c error

theorem Announces.honestly {classes : List TokenClass} {p : Parser α} {c : Cursor}
    (announces : Announces w classes p c) : Honestly w p c :=
  fun error fails => (announces error fails).1

namespace Honestly

variable {p : Parser α} {c : Cursor}

theorem bind {f : α → Parser β} (first : Honestly w p c)
    (rest : ∀ value d, p.eval w.kinds w.answers c = .ok ⟨value, d⟩ → Honestly w (f value) d) :
    Honestly w (p >>= f) c := by
  intro error fails
  rw [bind_eq, eval_bind] at fails
  cases ran : p.eval w.kinds w.answers c with
  | error other =>
    rw [ran] at fails
    cases fails
    exact first error ran
  | ok parsed =>
    rw [ran] at fails
    obtain ⟨ahead, listed⟩ := rest parsed.value parsed.cursor ran error fails
    exact ⟨Nat.le_trans (eval_ahead w.moves p ran) ahead, listed⟩

theorem done (value : α) : Honestly w (.done value) c := by
  intro error fails
  cases fails

theorem spanning (start : Cursor) (build : Extent → α) :
    Honestly w (Parser.spanning start build) c := by
  intro error fails
  cases fails

theorem here {f : Cursor → Parser β} (rest : Honestly w (f c) c) :
    Honestly w (Parser.here >>= f) c :=
  rest

theorem peek {f : TokenKind → Parser β} (rest : Honestly w (f (w.kinds.kindAt c)) c) :
    Honestly w (Parser.peek >>= f) c :=
  rest

theorem step {f : Unit → Parser β} (rest : Honestly w (f ()) c.next) :
    Honestly w (Parser.step >>= f) c := by
  intro error fails
  obtain ⟨ahead, listed⟩ := rest error fails
  exact ⟨Nat.le_of_succ_le ahead, listed⟩

theorem noting {event : Event} {f : Unit → Parser β} (rest : Honestly w (f ()) c) :
    Honestly w (Parser.noting event >>= f) c :=
  rest

theorem attempt {rule : Rule} {next : Except SyntaxError rule.Value → Parser α}
    (success : ∀ value d, Honestly w (next (.ok value)) d)
    (failure : ∀ error, Honestly w (next (.error error)) c) :
    Honestly w (.attempt rule next) c := by
  intro error fails
  have moved := w.moves rule c
  simp only [eval] at fails
  split at fails <;> rename_i answered
  · rw [answered] at moved
    obtain ⟨ahead, listed⟩ := success _ _ error fails
    exact ⟨Nat.le_trans (Nat.le_of_lt moved.index_lt) ahead, listed⟩
  · exact failure _ error fails

theorem iterate {turn : σ → Parser (Option σ)} (each : ∀ state d, Honestly w (turn state) d)
    (bound : Nat) (state : σ) : Honestly w (Parser.iterate turn bound state) c := by
  induction bound generalizing state c with
  | zero => exact done state
  | succ bound ih =>
    refine bind (each state c) fun result d _ => ?_
    cases result with
    | none => exact done state
    | some changed => exact ih changed

end Honestly

namespace Announces

variable {classes : List TokenClass} {p : Parser α} {c : Cursor}

/-- Behind a first part that passes a token nothing is said about the first one any more. -/
theorem bind {f : α → Parser β} (first : Announces w classes p c)
    (rest : ∀ value d, p.eval w.kinds w.answers c = .ok ⟨value, d⟩ →
      c.index < d.index ∧ Honestly w (f value) d) :
    Announces w classes (p >>= f) c := by
  intro error fails
  rw [bind_eq, eval_bind] at fails
  cases ran : p.eval w.kinds w.answers c with
  | error other =>
    rw [ran] at fails
    cases fails
    exact first error ran
  | ok parsed =>
    rw [ran] at fails
    obtain ⟨passed, honestly⟩ := rest parsed.value parsed.cursor ran
    obtain ⟨ahead, listed⟩ := honestly error fails
    refine ⟨⟨by omega, listed⟩, fun same => ?_⟩
    rw [same] at ahead
    omega

theorem here {f : Cursor → Parser β} (rest : Announces w classes (f c) c) :
    Announces w classes (Parser.here >>= f) c :=
  rest

theorem peek {f : TokenKind → Parser β} (rest : Announces w classes (f (w.kinds.kindAt c)) c) :
    Announces w classes (Parser.peek >>= f) c :=
  rest

theorem step {f : Unit → Parser β} (rest : Honestly w (f ()) c.next) :
    Announces w classes (Parser.step >>= f) c := by
  intro error fails
  obtain ⟨ahead, listed⟩ := rest error fails
  refine ⟨⟨Nat.le_of_succ_le ahead, listed⟩, fun same => ?_⟩
  rw [same, Cursor.next_index] at ahead
  omega

theorem fail (outside : Outside classes (w.kinds.kindAt c)) :
    Announces w classes (Parser.fail (.expected classes) : Parser α) c := by
  intro error fails
  cases fails
  exact ⟨⟨Nat.le_refl _, classes, rfl, outside⟩, fun _ => rfl⟩

theorem read {rule : Rule} (ready : rule.Ready (w.kinds.kindAt c)) :
    Announces w rule.opening (.read rule) c := by
  intro error fails
  rw [eval_read] at fails
  exact w.tells rule c error ready fails

theorem expect {others : List TokenClass} {wanted : TokenClass} {f : Unit → Parser β}
    (outside : Outside others (w.kinds.kindAt c)) (rest : Honestly w (f ()) c.next) :
    Announces w (others ++ [wanted]) (Parser.expect others wanted >>= f) c := by
  simp only [Parser.expect, bind_eq, bind_bind]
  refine peek ?_
  by_cases admits : wanted.admits (w.kinds.kindAt c) = true
  · simp only [admits, if_true]
    exact step rest
  · simp only [admits]
    refine bind (fail (outside_append.2 ⟨outside, outside_singleton.2 admits⟩)) fun _ _ ran => ?_
    cases ran

/-- The list that is put in place of another one may be longer by what the token is not. -/
theorem expecting {inner : List TokenClass} (announces : Announces w inner p c)
    (covers : Outside inner (w.kinds.kindAt c) → Outside classes (w.kinds.kindAt c)) :
    Announces w classes (Parser.expecting classes p) c := by
  intro error fails
  change (p.mapError _).eval w.kinds w.answers c = _ at fails
  rw [eval_mapError] at fails
  cases ran : p.eval w.kinds w.answers c with
  | ok parsed =>
    rw [ran] at fails
    cases fails
  | error found =>
    rw [ran] at fails
    cases fails
    have announced := announces found ran
    obtain ⟨ahead, listed⟩ := announced.1
    change Announced w.kinds classes c (found.orExpected c fun _ => .expected classes)
    rw [orExpected_eq ahead]
    by_cases same : found.cursor = c
    · obtain ⟨complaint, there⟩ := found
      obtain rfl : there = c := same
      rw [if_pos rfl]
      exact ⟨⟨Nat.le_refl _, classes, rfl, covers announced.outside.2⟩, fun _ => rfl⟩
    · rw [if_neg same]
      exact ⟨⟨ahead, listed⟩, fun gone => absurd gone same⟩

end Announces

/-- A loop that goes on just where the tokens pass a test stops where one does not. -/
theorem stops_of_iterate {test : TokenKind → Bool} {turn : σ → Parser (Option σ)} {bound : Nat}
    {state last : σ} {c d : Cursor}
    (idle : ∀ state c d, (turn state).eval w.kinds w.answers c = .ok ⟨none, d⟩ →
      test (w.kinds.kindAt d) = false)
    (passes : ∀ state c next d, (turn state).eval w.kinds w.answers c = .ok ⟨some next, d⟩ →
      c.index < d.index)
    (finished : test .eof = false) (enough : w.kinds.size ≤ c.index + bound)
    (ran : (iterate turn bound state).eval w.kinds w.answers c = .ok ⟨last, d⟩) :
    test (w.kinds.kindAt d) = false := by
  induction bound generalizing state c with
  | zero =>
    cases ran
    rw [Kinds.eof_of_size_le (c := d) enough]
    exact finished
  | succ bound ih =>
    rw [iterate, eval_bind_eq_ok] at ran
    obtain ⟨result, m, turned, rest⟩ := ran
    cases result with
    | none =>
      cases rest
      exact idle _ c _ turned
    | some changed =>
      have passed := passes _ c changed m turned
      exact ih (by omega) rest

section Rules

variable {bound : Nat} {c d : Cursor} {rule : Rule} {f : rule.Value → Parser β}

theorem read_passes {value : rule.Value}
    (ran : (read rule).eval w.kinds w.answers c = .ok ⟨value, d⟩) : c.index < d.index :=
  index_lt_of_ok w.moves ((eval_read rule).symm.trans ran)

/-- What is read first passes a token. -/
theorem announces_read (ready : rule.Ready (w.kinds.kindAt c))
    (rest : ∀ value d, Honestly w (f value) d) :
    Announces w rule.opening (read rule >>= f) c :=
  .bind (.read ready) fun value d ran => ⟨read_passes ran, rest value d⟩

/-- The rules from signs upwards may be read anywhere. -/
theorem honest_read (high : Rule.signed.rank ≤ rule.rank) : Honestly w (read rule) c :=
  (Announces.read (rule.ready high _)).honestly

theorem honestly_read (high : Rule.signed.rank ≤ rule.rank)
    (rest : ∀ value d, Honestly w (f value) d) : Honestly w (read rule >>= f) c :=
  .bind (honest_read high) fun value d _ => rest value d

theorem honestly_expect {others : List TokenClass} {wanted : TokenClass} {f : Unit → Parser β}
    (outside : Outside others (w.kinds.kindAt c)) (rest : Honestly w (f ()) c.next) :
    Honestly w (expect others wanted >>= f) c :=
  (Announces.expect outside rest).honestly

theorem identifier_announces : Announces w [.identifier] identifier c := by
  refine .peek ?_
  split
  · exact .here (.step (.done _))
  · rename_i other
    refine .fail (outside_singleton.2 fun admits => ?_)
    obtain ⟨name, found⟩ := isIdentifier_iff.1 admits
    exact other name found

theorem newlines_honestly : Honestly w (newlines bound) c := by
  intro error fails
  obtain ⟨n, d, passed⟩ := newlines_succeeds w.kinds w.answers bound c
  rw [passed] at fails
  cases fails

/-- Items end where no comma follows. -/
theorem separated_stops {first item : Parser α} {items : List α}
    (passes : ∀ c x d, item.eval w.kinds w.answers c = .ok ⟨x, d⟩ → c.index < d.index)
    (ran : (separated w.kinds.size first item).eval w.kinds w.answers c = .ok ⟨items, d⟩) :
    isComma (w.kinds.kindAt d) = false := by
  rw [separated, bind_eq, eval_bind_eq_ok] at ran
  obtain ⟨head, m, _, loop⟩ := ran
  refine stops_of_iterate (fun items c d turned => ?_) (fun items c next d turned => ?_) rfl
    (Nat.le_add_left _ _) loop
  · simp only [bind_eq, pure_eq, eval_peek] at turned
    split at turned
    · rw [eval_step, eval_bind_eq_ok] at turned
      obtain ⟨_, _, _, rest⟩ := turned
      cases rest
    · rename_i other
      cases turned
      exact Bool.eq_false_iff.2 other
  · simp only [bind_eq, pure_eq, eval_peek] at turned
    split at turned
    · rw [eval_step, eval_bind_eq_ok] at turned
      obtain ⟨x, m, found, rest⟩ := turned
      have passed := passes _ x m found
      rw [Cursor.next_index] at passed
      cases rest
      omega
    · cases turned

theorem separated_honestly {first item : Parser α} (head : Honestly w first c)
    (each : ∀ d, Honestly w item d) : Honestly w (separated bound first item) c := by
  refine .bind head fun x d _ => .iterate (fun items d => .peek ?_) _ _
  split
  · exact .step (.bind (each _) fun _ _ _ => .done _)
  · exact .done _

/-- The bracket that closes the items is listed with what may start the first one, and with a comma
    behind the others. -/
theorem enclosed_honestly {close : Symbol} : Honestly w (enclosed w.kinds.size close) c := by
  have ready := Rule.ready .expression (by decide)
  refine .peek ?_
  split
  · exact .step (.done _)
  · rename_i other
    refine .bind (separated_honestly (Announces.expecting (.read (ready _)) ?_).honestly
      fun d => honest_read (by decide)) fun items d ran => ?_
    · exact fun outside => outside_cons.2 ⟨other, outside⟩
    · have stops : ¬TokenClass.admits (.symbol .comma) (w.kinds.kindAt d) = true :=
        Bool.eq_false_iff.1 (separated_stops (fun _ _ _ ran => read_passes ran) ran)
      exact honestly_expect (outside_singleton.2 stops) (.done _)

theorem chain_announces {level : Level} {classes : List TokenClass} {left right : Parser Tree}
    (head : Announces w classes left c)
    (passes : ∀ x d, left.eval w.kinds w.answers c = .ok ⟨x, d⟩ → c.index < d.index)
    (each : ∀ d, Honestly w right d) : Announces w classes (chain bound level left right) c := by
  refine .bind head fun x d ran => ⟨passes x d ran, .iterate (fun left d => .peek ?_) _ _⟩
  split
  · exact .done _
  · exact .step (.bind (each _) fun _ _ _ => .done _)

theorem further_honestly {statements : List Tree} :
    Honestly w (further bound statements) c := by
  refine .bind newlines_honestly fun n d _ => ?_
  split
  · exact .done _
  · exact .here (.attempt (fun _ _ => .done _) fun _ => .noting (.done _))

theorem block_announces : Announces w Expected.statement (block w.kinds.size) c := by
  have ready := Rule.ready .statement (by decide)
  intro error fails
  rw [block, bind_eq, eval_bind] at fails
  obtain ⟨n, d, passed⟩ := newlines_succeeds w.kinds w.answers w.kinds.size c
  rw [passed] at fails
  have announced : Announced w.kinds Expected.statement d error := by
    refine announces_read (ready _) (fun first e => ?_) error fails
    exact .bind (.iterate (fun _ _ => further_honestly) _ _) fun _ _ _ => .here (.done _)
  -- An error at the start of the block leaves no room for separators before it.
  have ahead := eval_ahead w.moves _ passed
  obtain ⟨⟨further, listed⟩, first⟩ := announced
  refine ⟨⟨Nat.le_trans ahead further, listed⟩, fun same => first ?_⟩
  rw [same] at further ⊢
  exact congrArg Cursor.mk (Nat.le_antisymm ahead further)

theorem statement_announces : Announces w Expected.statement statement c := by
  have ready := Rule.ready .expression (by decide)
  refine .here (.peek ?_)
  split
  · exact .step (.attempt (fun _ _ => .spanning _ _) fun _ => .spanning _ _)
  · exact .step (.spanning _ _)
  · exact .step (.spanning _ _)
  · rename_i notReturn notContinue notBreak
    refine .expecting (.read (ready _)) fun outside => outside_append.2 ⟨?_, outside⟩
    simp only [outside_cons, admits_keyword]
    exact ⟨notReturn, notContinue, notBreak, outside_nil _⟩

theorem body_announces : Announces w Expected.statement body c := by
  have ready := Rule.ready .statement (by decide)
  refine .peek ?_
  split
  · exact .step (honestly_read (by decide) fun _ _ => .done _)
  · exact announces_read (ready _) fun _ _ => .done _

theorem closedBody_announces : Announces w Expected.statement closedBody c := by
  have ready := Rule.ready .body (by decide)
  refine announces_read (ready _) fun body d => ?_
  change Honestly w (if body.isBlock then _ else _) d
  split
  · exact honestly_expect (outside_nil _) (.done _)
  · exact .done _

theorem expression_announces : Announces w Expected.expression (expression w.kinds.size) c := by
  have ready := Rule.ready .comparison (by decide)
  refine .here (.peek ?_)
  split
  · refine .step (.bind identifier_announces.honestly fun name d _ => ?_)
    refine honestly_expect (outside_nil _) (honestly_read (by decide) ?_)
    exact fun _ _ => .spanning _ _
  · rename_i notVar
    refine .expecting (chain_announces (.read (ready _)) (fun _ _ ran => read_passes ran)
      fun _ => honest_read (by decide)) fun outside => ?_
    have parts : Outside (Expected.operands ++ Expected.constructs ++ [.keyword .not])
        (w.kinds.kindAt c) := outside
    simp only [outside_append] at parts
    refine outside_cons.2 ⟨by rwa [admits_keyword], ?_⟩
    exact outside_append.2 ⟨outside_append.2 ⟨parts.1.2, parts.1.1⟩, parts.2⟩

theorem comparison_announces : Announces w Expected.comparison (comparison w.kinds.size) c := by
  have ready := Rule.ready .sum (by decide)
  refine .here (.peek ?_)
  split
  · exact .step (honestly_read (by decide) fun _ _ => .spanning _ _)
  · rename_i notNot
    refine .expecting (chain_announces (.read (ready _)) (fun _ _ ran => read_passes ran)
      fun _ => honest_read (by decide)) fun outside => outside_append.2 ⟨outside, ?_⟩
    exact outside_singleton.2 (by rwa [admits_keyword])

theorem signed_announces : Announces w Expected.atom signed c := by
  refine .here (.peek ?_)
  split
  · exact .step (honestly_read (by decide) fun _ _ => .spanning _ _)
  · rename_i unsigned
    exact .read fun _ => unsigned

theorem application_announces (unsigned : UnaryOp.sign? (w.kinds.kindAt c) = none) :
    Announces w Expected.atom (application w.kinds.size) c := by
  refine .here (announces_read (fun _ => unsigned) fun callee d => .peek ?_)
  split
  · exact .step (.bind enclosed_honestly fun _ _ _ => .spanning _ _)
  · exact .done _

theorem leaf_announces {build : Extent → Tree} : Announces w Expected.atom (leaf build) c :=
  .here (.step (.spanning _ _))

/-- Constructs start with the tokens they are chosen by, so they never fail at once. -/
theorem construct_announces {classes : List TokenClass} {wanted : TokenClass}
    (unsigned : UnaryOp.sign? (w.kinds.kindAt c) = none) (only : rule.opening = [wanted])
    (admits : wanted.admits (w.kinds.kindAt c) = true) : Announces w classes (read rule) c := by
  intro error fails
  have announced := Announces.read (fun _ => unsigned) error fails
  refine ⟨announced.1, fun same => ?_⟩
  obtain ⟨complaint, there⟩ := error
  obtain rfl : there = c := same
  have outside := announced.outside.2
  rw [only] at outside
  exact absurd admits (outside_singleton.1 outside)

theorem atom_announces (unsigned : UnaryOp.sign? (w.kinds.kindAt c) = none) :
    Announces w Expected.atom atom c := by
  refine .peek ?_
  split
  · exact leaf_announces
  · exact leaf_announces
  · exact leaf_announces
  · exact leaf_announces
  · refine .step (honestly_read (by decide) fun inner d => ?_)
    exact honestly_expect (outside_nil _) (.done _)
  · rename_i found
    exact construct_announces unsigned rfl (admits_symbol.2 found)
  · rename_i found
    exact construct_announces unsigned rfl (admits_keyword.2 found)
  · rename_i found
    exact construct_announces unsigned rfl (admits_keyword.2 found)
  · rename_i found
    exact construct_announces unsigned rfl (admits_keyword.2 found)
  · rename_i found
    exact construct_announces unsigned rfl (admits_keyword.2 found)
  · rename_i notInt notFloat notString notName notRound notSquare notIf notFor notWhile notFun
    refine .fail (outside_atom unsigned ?_ ?_)
    · simp only [outside_cons, admits_int, admits_float, admits_string, admits_identifier,
        not_exists]
      exact ⟨notInt, notFloat, notString, notName, outside_nil _⟩
    · simp only [outside_cons, admits_symbol, admits_keyword]
      exact ⟨notRound, notSquare, notIf, notFor, notWhile, notFun, outside_nil _⟩

theorem listing_announces : Announces w [.symbol .openSquare] (listing w.kinds.size) c := by
  refine .here (.expect (outside_nil _) ?_)
  exact .bind enclosed_honestly fun _ _ _ => .spanning _ _

theorem clause_announces {word : Keyword} : Announces w [.keyword word] (clause word) c := by
  refine .expect (outside_nil _) (honestly_read (by decide) fun condition d => ?_)
  refine honestly_expect (outside_nil _) (honestly_read (by decide) fun body d => ?_)
  exact .done _

/-- Without a further clause there is no `ELIF` at the end of the clauses. -/
theorem furtherClauses_stop {first : Clause Tree} {clauses : List (Clause Tree)}
    (ran : (iterate furtherClause w.kinds.size [first]).eval w.kinds w.answers c =
      .ok ⟨clauses, d⟩) : isElif (w.kinds.kindAt d) = false := by
  refine stops_of_iterate (fun clauses c d turned => ?_) (fun clauses c next d turned => ?_) rfl
    (Nat.le_add_left _ _) ran
  · simp only [furtherClause, bind_eq, pure_eq, eval_peek] at turned
    split at turned
    · rw [eval_bind_eq_ok] at turned
      obtain ⟨_, _, _, rest⟩ := turned
      cases rest
    · rename_i other
      cases turned
      exact Bool.eq_false_iff.2 other
  · simp only [furtherClause, bind_eq, pure_eq, eval_peek] at turned
    split at turned
    · rw [eval_bind_eq_ok] at turned
      obtain ⟨_, _, found, rest⟩ := turned
      obtain ⟨_, _, condition, _, body⟩ := clause_eq_ok.1 found
      have first := index_lt_of_ok w.moves condition
      have second := index_lt_of_ok w.moves body
      simp only [Cursor.next_index] at first second
      cases rest
      omega
    · cases turned

theorem otherwise_honestly {clauses : List (Clause Tree)}
    (stops : isElif (w.kinds.kindAt c) = false) : Honestly w (otherwise clauses) c := by
  refine .peek ?_
  split
  · exact .step (.done _)
  rename_i notEnd
  split
  · exact .step (honestly_read (by decide) fun _ _ => .done _)
  rename_i notElse
  split
  · rename_i block
    refine (Announces.fail ?_).honestly
    simp only [outside_cons]
    refine ⟨fun ends => notEnd ?_, Bool.eq_false_iff.1 stops, notElse, outside_nil _⟩
    exact Bool.and_eq_true_iff.2 ⟨block, ends⟩
  · exact .done _

theorem conditional_announces : Announces w [.keyword .if] (conditional w.kinds.size) c := by
  refine .here (.bind clause_announces fun first d ran => ⟨?_, ?_⟩)
  · obtain ⟨_, _, condition, _, body⟩ := clause_eq_ok.1 ran
    have begun := index_lt_of_ok w.moves condition
    have ended := index_lt_of_ok w.moves body
    simp only [Cursor.next_index] at begun ended
    omega
  · refine .bind (.iterate (fun clauses d => .peek ?_) _ _) fun clauses e ran => ?_
    · split
      · exact .bind clause_announces.honestly fun _ _ _ => .done _
      · exact .done _
    · exact .bind (otherwise_honestly (furtherClauses_stop ran)) fun _ _ _ => .spanning _ _

theorem stride_honestly : Honestly w stride c := by
  refine .peek ?_
  split
  · exact .step (honestly_read (by decide) fun _ _ => .done _)
  · exact .done _

theorem forLoop_announces : Announces w [.keyword .for] forLoop c := by
  refine .here (.expect (outside_nil _) ?_)
  refine .bind identifier_announces.honestly fun name d _ => ?_
  refine honestly_expect (outside_nil _) (honestly_read (by decide) fun lower d => ?_)
  refine honestly_expect (outside_nil _) (honestly_read (by decide) fun upper d => ?_)
  refine .bind stride_honestly fun step d _ => ?_
  refine honestly_expect (outside_nil _) (honestly_read (by decide) fun body d => ?_)
  exact .spanning _ _

theorem whileLoop_announces : Announces w [.keyword .while] whileLoop c := by
  refine .here (.expect (outside_nil _) ?_)
  refine honestly_read (by decide) fun condition d => ?_
  refine honestly_expect (outside_nil _) (honestly_read (by decide) fun body d => ?_)
  exact .spanning _ _

theorem functionName_honestly : Honestly w functionName c := by
  refine .peek ?_
  split
  · refine .bind identifier_announces.honestly fun name d _ => ?_
    exact honestly_expect (outside_nil _) (.done _)
  · rename_i other
    exact honestly_expect (outside_singleton.2 other) (.done _)

theorem params_honestly : Honestly w (params w.kinds.size) c := by
  refine .peek ?_
  split
  · refine .bind (separated_honestly identifier_announces.honestly fun _ =>
      identifier_announces.honestly) fun names d ran => ?_
    have passes (c : Cursor) (name : Ident Extent) (d : Cursor)
        (ran : identifier.eval w.kinds w.answers c = .ok ⟨name, d⟩) : c.index < d.index := by
      obtain ⟨_, _, rfl⟩ := identifier_eq_ok.1 ran
      exact Nat.lt_succ_self _
    have stops := Bool.eq_false_iff.1 (separated_stops passes ran)
    exact honestly_expect (outside_singleton.2 stops) (.done _)
  · rename_i other
    exact honestly_expect (outside_singleton.2 other) (.done _)

theorem functionBody_honestly : Honestly w functionBody c := by
  refine .peek ?_
  split
  · exact .step (honestly_read (by decide) fun _ _ => .done _)
  · rename_i other
    refine honestly_expect (outside_singleton.2 other) ?_
    refine honestly_read (by decide) fun node d => ?_
    exact honestly_expect (outside_nil _) (.done _)

theorem function_announces : Announces w [.keyword .fun] (function w.kinds.size) c := by
  refine .here (.expect (outside_nil _) (.bind functionName_honestly fun name d _ => ?_))
  refine .bind params_honestly fun params d _ => ?_
  exact .bind functionBody_honestly fun body d _ => .spanning _ _

end Rules

end Parser

open Grammar.Parser in
/-- Every rule fails as it should if the rules it calls do. -/
theorem Rule.parser_announces (w : Candid) (rule : Rule) (c : Cursor)
    (ready : rule.Ready (w.kinds.kindAt c)) :
    Announces w rule.opening (rule.parser w.kinds.size) c := by
  cases rule with
  | block => exact block_announces
  | statement => exact statement_announces
  | expression => exact expression_announces
  | comparison => exact comparison_announces
  | sum =>
    exact chain_announces (.read (Rule.ready _ (by decide) _)) (fun _ _ ran => read_passes ran)
      fun _ => honest_read (by decide)
  | product =>
    exact chain_announces (.read (Rule.ready _ (by decide) _)) (fun _ _ ran => read_passes ran)
      fun _ => honest_read (by decide)
  | signed => exact signed_announces
  | power =>
    have unsigned := ready (by decide)
    exact chain_announces (.read fun _ => unsigned) (fun _ _ ran => read_passes ran)
      fun _ => honest_read (by decide)
  | application => exact application_announces (ready (by decide))
  | atom => exact atom_announces (ready (by decide))
  | listing => exact listing_announces
  | conditional => exact conditional_announces
  | forLoop => exact forLoop_announces
  | whileLoop => exact whileLoop_announces
  | function => exact function_announces
  | body => exact body_announces
  | closedBody => exact closedBody_announces

end Sharp.Grammar

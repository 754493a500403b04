import Sharp.Proofs.Grammar.Contract
import Sharp.Proofs.Grammar.Reading

/-!
Progress. A rule that succeeds has passed at least one token and never the end of the text; one that
fails does so at or behind its start. Rules called before a token is passed have a lower rank, so
the calls inside one another are bounded and the bound of a run is never met: an answer is what the
description of its rule yields on the answers of the others.
-/
namespace Sharp.Grammar

/-- A rule calls only rules of lower rank at its own cursor. -/
def Rule.rank : Rule → Nat
  | .closedBody => 13
  | .body => 12
  | .block => 11
  | .statement => 10
  | .expression => 9
  | .comparison => 8
  | .sum => 7
  | .product => 6
  | .signed => 5
  | .power => 4
  | .application => 3
  | .atom => 2
  | .listing | .conditional | .forLoop | .whileLoop | .function => 1

def Moved {α : Type} (kinds : Kinds) (c : Cursor) : Outcome α → Prop
  | .ok parsed => kinds.Passes c parsed.cursor
  | .error error => kinds.Reaches c error.cursor

/-- What may come out of a call. -/
abbrev Given := (rule : Rule) → Cursor → Outcome rule.Value → Prop

/-- A statement that is taken back has failed just so many tokens behind its start. -/
def Event.Accounted (given : Given) : Event → Prop
  | .rolledBack start consumed => ∃ error : SyntaxError,
      given .statement start (.error error) ∧ start.index + consumed = error.cursor.index
  | .nestingLimit _ _ => True

/-- Calls of a rule that starts at `start`. -/
def headway (kinds : Kinds) (given : Given) (rule : Rule) (start : Cursor) : Contract where
  allowed inner c := kinds.Passes start c ∨ c = start ∧ inner.rank < rule.rank
  promised inner c outcome := Moved kinds c outcome ∧ given inner c outcome
  noted event := event.Accounted given

namespace Parser

variable {α β σ : Type} {kinds : Kinds} {given : Given} {k : Contract} {rule : Rule}
  {start c : Cursor}

theorem ne_eof_of_admits {wanted : TokenClass} {kind : TokenKind}
    (admits : wanted.admits kind = true) : kind ≠ .eof := by
  rintro rfl
  cases wanted <;> simp [TokenClass.admits] at admits

theorem orExpected_cursor (error : SyntaxError) (expected : Cursor → Complaint) :
    (error.orExpected start expected).cursor = error.cursor := by
  unfold Failure.orExpected
  split <;> rfl

theorem expecting_moves {classes : List TokenClass} {p : Parser α} {goOn : α → Cursor → Prop}
    (meets : p.Meets kinds k c (andThen (β := β) (Moved kinds start) goOn)) :
    (expecting classes p).Meets kinds k c (andThen (β := β) (Moved kinds start) goOn) := by
  refine (meets_mapError p _ c _).2 (meets.mono fun outcome wanted => ?_)
  cases outcome with
  | ok parsed => exact wanted
  | error error =>
    change andThen (Moved kinds start) goOn (.error (error.orExpected c fun _ => .expected classes))
    simpa [andThen, Moved, orExpected_cursor] using wanted

theorem meets_expect {others : List TokenClass} {wanted : TokenClass} {goOn : Unit → Cursor → Prop}
    (reaches : kinds.Reaches start c) (next : kinds.Passes start c.next → goOn () c.next) :
    (expect others wanted).Meets kinds k c (andThen (β := β) (Moved kinds start) goOn) := by
  simp only [expect, bind_eq, meets_bind, meets_peek, andThen_ok]
  split
  · rename_i admits
    have more := ne_eof_of_admits admits
    exact ⟨more, next (reaches.passes_next more)⟩
  · exact reaches

theorem meets_read {inner : Rule} {goOn : inner.Value → Cursor → Prop}
    (may : (headway kinds given rule start).allowed inner c)
    (next : ∀ value d, kinds.Passes start d → goOn value d) :
    (read inner).Meets kinds (headway kinds given rule start) c
      (andThen (β := β) (Moved kinds start) goOn) := by
  have reaches : kinds.Reaches start c :=
    Kinds.reaches_iff.2 (may.symm.imp And.left id)
  refine ⟨may, fun parsed promised => ?_, fun error promised => reaches.trans promised.1⟩
  rcases Kinds.reaches_iff.1 reaches with rfl | passes
  · exact next _ _ promised.1
  · exact next _ _ (passes.trans promised.1)

theorem meets_tail {p : Parser α} :
    p.Meets kinds k c (andThen (β := α) (Moved kinds start) fun _ d => kinds.Passes start d) ↔
      p.Meets kinds k c (Moved kinds start) := by
  constructor <;> refine fun meets => meets.mono fun outcome moved => ?_ <;>
    cases outcome <;> exact moved

theorem meets_loop {turn : σ → Parser (Option σ)} {bound : Nat} {state : σ}
    {goOn : σ → Cursor → Prop} (passes : kinds.Passes start c)
    (each : ∀ state d, kinds.Passes start d → (turn state).Meets kinds k d (Moved kinds start))
    (next : ∀ state d, kinds.Passes start d → goOn state d) :
    (iterate turn bound state).Meets kinds k c (andThen (β := β) (Moved kinds start) goOn) := by
  refine meets_iterate (fun _ d => kinds.Passes start d) next (fun state d before => ?_) bound
    state passes
  refine (each state d before).mono fun outcome moved => ?_
  rcases outcome with error | ⟨_ | changed, d⟩
  · exact moved
  · exact next state d moved
  · exact moved

section Rules

variable {bound : Nat}

theorem newlines_moves {want : Outcome Nat → Prop}
    (next : ∀ n d, kinds.Reaches c d → want (.ok ⟨n, d⟩)) :
    (newlines bound).Meets kinds k c want := by
  refine meets_iterate (fun _ d => kinds.Reaches c d) next (fun n d before => ?_) bound 0 (.refl c)
  simp only [bind_eq, pure_eq, meets_bind, meets_ite, meets_peek, meets_step, meets_done,
    andThen_ok]
  split
  · rename_i separator
    have more := ne_eof_of_admits separator
    exact ⟨more, (before.passes_next more).reaches⟩
  · exact next n d before

theorem identifier_moves {goOn : Ident Extent → Cursor → Prop} (passes : kinds.Passes start c)
    (next : ∀ name d, kinds.Passes start d → goOn name d) :
    identifier.Meets kinds k c (andThen (β := β) (Moved kinds start) goOn) := by
  simp only [identifier, bind_eq, pure_eq, meets_bind, meets_peek, andThen_ok]
  split
  · rename_i found
    have more : kinds.kindAt c ≠ .eof := by simp [found]
    exact ⟨more, next _ _ (passes.reaches.passes_next more)⟩
  · exact passes.reaches

theorem separated_moves {first item : Parser α} {goOn : List α → Cursor → Prop}
    (head : first.Meets kinds k c (andThen (β := β) (Moved kinds start) fun _ d =>
      kinds.Passes start d))
    (each : ∀ d, kinds.Passes start d →
      item.Meets kinds k d (andThen (β := Option (List α)) (Moved kinds start) fun _ e =>
        kinds.Passes start e))
    (next : ∀ items d, kinds.Passes start d → goOn items d) :
    (separated bound first item).Meets kinds k c (andThen (β := β) (Moved kinds start) goOn) := by
  simp only [separated, bind_eq, pure_eq, meets_bind]
  refine head.mono fun outcome moved => ?_
  rcases outcome with error | parsed
  · exact moved
  · refine meets_loop moved (fun items d passes => ?_) next
    simp only [meets_bind, meets_ite, meets_peek, meets_step, meets_done, andThen_ok]
    split
    · rename_i comma
      have more := ne_eof_of_admits comma
      refine ⟨more, (each d.next (passes.reaches.passes_next more)).mono fun outcome after => ?_⟩
      cases outcome <;> exact after
    · exact passes

theorem enclosed_moves {close : Symbol} {goOn : List Tree → Cursor → Prop}
    (passes : kinds.Passes start c) (next : ∀ items d, kinds.Passes start d → goOn items d) :
    (enclosed bound close).Meets kinds (headway kinds given rule start) c
      (andThen (β := β) (Moved kinds start) goOn) := by
  simp only [enclosed, bind_eq, pure_eq, meets_bind, meets_ite, meets_peek, meets_step,
    meets_done, andThen_ok, andThen_andThen]
  split
  · rename_i closing
    have more := ne_eof_of_admits closing
    exact ⟨more, next _ _ (passes.reaches.passes_next more)⟩
  · refine separated_moves (expecting_moves (meets_read (.inl passes) fun _ _ later => later))
      (fun d before => meets_read (.inl before) fun _ _ later => later) fun items d before => ?_
    exact meets_expect before.reaches fun after => next _ _ after

theorem chain_moves {level : Level} {left right : Parser Tree}
    (head : left.Meets kinds k start (Moved kinds start))
    (each : ∀ d, kinds.Passes start d →
      right.Meets kinds k d (andThen (β := Option Tree) (Moved kinds start) fun _ e =>
        kinds.Passes start e)) :
    (chain bound level left right).Meets kinds k start (Moved kinds start) := by
  simp only [chain, bind_eq, meets_bind]
  refine head.mono fun outcome moved => ?_
  rcases outcome with error | parsed
  · exact moved
  · refine meets_tail.1 (meets_loop moved (fun operand d passes => ?_) fun _ _ after => after)
    simp only [operation, bind_eq, pure_eq, meets_bind, meets_peek, andThen_ok]
    split
    · exact passes
    · rename_i op found
      have more : kinds.kindAt d ≠ .eof := fun finished => by
        simp [finished, BinaryOp.atLevel?, BinaryOp.ofToken?] at found
      simp only [meets_bind, meets_step, meets_done, andThen_ok]
      refine ⟨more, (each d.next (passes.reaches.passes_next more)).mono fun outcome after => ?_⟩
      cases outcome <;> exact after

theorem block_moves : (block bound).Meets kinds (headway kinds given .block start) start
    (Moved kinds start) := by
  simp only [block, bind_eq, pure_eq, meets_bind, meets_here, meets_done, andThen_ok]
  refine newlines_moves fun _ d reaches => ?_
  refine meets_read ((Kinds.reaches_iff.1 reaches).symm.imp id fun same => ⟨same, by decide⟩)
    fun first d passes => ?_
  refine meets_loop passes (fun statements d before => ?_) fun _ _ after => after
  simp only [further, bind_eq, pure_eq, meets_bind, meets_ite, meets_here, meets_done, andThen_ok]
  refine newlines_moves fun n e reaches => ?_
  have later : kinds.Passes start e := before.trans_reaches reaches
  simp only [andThen_ok]
  split
  · exact later
  · refine ⟨.inl later, fun parsed promised => later.trans promised.1, fun error promised => ?_⟩
    -- What is taken back lies between the two cursors, so their difference is exact.
    have ahead := promised.1.index_le
    exact ⟨⟨error, promised.2, Nat.add_sub_cancel' ahead⟩, later⟩

theorem statement_moves : statement.Meets kinds (headway kinds given .statement start) start
    (Moved kinds start) := by
  simp only [statement, bind_eq, meets_bind, meets_here, meets_peek, andThen_ok]
  split
  · rename_i found
    have more : kinds.kindAt start ≠ .eof := by simp [found]
    have passes := Kinds.passes_next more
    exact ⟨more, .inl passes, fun parsed promised => passes.trans promised.1, fun _ _ => passes⟩
  · rename_i found
    have more : kinds.kindAt start ≠ .eof := by simp [found]
    exact ⟨more, Kinds.passes_next more⟩
  · rename_i found
    have more : kinds.kindAt start ≠ .eof := by simp [found]
    exact ⟨more, Kinds.passes_next more⟩
  · exact meets_tail.1 (expecting_moves (meets_read (.inr ⟨rfl, by decide⟩) fun _ _ after => after))

theorem body_moves : body.Meets kinds (headway kinds given .body start) start
    (Moved kinds start) := by
  simp only [body, bind_eq, pure_eq, meets_bind, meets_ite, meets_peek, meets_step, meets_done,
    andThen_ok]
  split
  · rename_i separator
    have more := ne_eof_of_admits separator
    exact ⟨more, meets_read (.inl (Kinds.passes_next more)) fun _ _ after => after⟩
  · exact meets_read (.inr ⟨rfl, by decide⟩) fun _ _ after => after

theorem closedBody_moves : closedBody.Meets kinds (headway kinds given .closedBody start) start
    (Moved kinds start) := by
  simp only [closedBody, bind_eq, pure_eq, meets_bind]
  refine meets_read (.inr ⟨rfl, by decide⟩) fun body d passes => ?_
  split
  · simp only [meets_bind]
    exact meets_expect passes.reaches fun after => after
  · exact passes

theorem expression_moves : (expression bound).Meets kinds (headway kinds given .expression start)
    start (Moved kinds start) := by
  simp only [expression, bind_eq, meets_bind, meets_here, meets_peek, andThen_ok]
  split
  · rename_i found
    have more : kinds.kindAt start ≠ .eof := by simp [found]
    simp only [assignment, bind_eq, meets_bind, meets_step, meets_spanning, andThen_ok]
    refine ⟨more, identifier_moves (Kinds.passes_next more) fun name d before => ?_⟩
    refine meets_expect before.reaches fun before => ?_
    exact meets_read (.inl before) fun _ _ after => after
  · refine meets_tail.1 (expecting_moves (meets_tail.2 (chain_moves ?_ fun d before => ?_)))
    · exact meets_tail.1 (meets_read (.inr ⟨rfl, by decide⟩) fun _ _ after => after)
    · exact meets_read (.inl before) fun _ _ after => after

theorem comparison_moves : (comparison bound).Meets kinds (headway kinds given .comparison start)
    start (Moved kinds start) := by
  simp only [comparison, bind_eq, meets_bind, meets_here, meets_peek, andThen_ok]
  split
  · rename_i found
    have more : kinds.kindAt start ≠ .eof := by simp [found]
    simp only [meets_bind, meets_step, meets_spanning, andThen_ok]
    exact ⟨more, meets_read (.inl (Kinds.passes_next more)) fun _ _ after => after⟩
  · refine meets_tail.1 (expecting_moves (meets_tail.2 (chain_moves ?_ fun d before => ?_)))
    · exact meets_tail.1 (meets_read (.inr ⟨rfl, by decide⟩) fun _ _ after => after)
    · exact meets_read (.inl before) fun _ _ after => after

theorem signed_moves : signed.Meets kinds (headway kinds given .signed start) start
    (Moved kinds start) := by
  simp only [signed, bind_eq, meets_bind, meets_here, meets_peek, andThen_ok]
  split
  · rename_i op found
    have more : kinds.kindAt start ≠ .eof := fun finished => by
      simp [finished, UnaryOp.sign?] at found
    simp only [meets_bind, meets_step, meets_spanning, andThen_ok]
    exact ⟨more, meets_read (.inl (Kinds.passes_next more)) fun _ _ after => after⟩
  · exact meets_tail.1 (meets_read (.inr ⟨rfl, by decide⟩) fun _ _ after => after)

theorem application_moves : (application bound).Meets kinds (headway kinds given .application start)
    start (Moved kinds start) := by
  simp only [application, bind_eq, pure_eq, meets_bind, meets_here, meets_ite, meets_peek,
    meets_step, meets_spanning, meets_done, andThen_ok]
  refine meets_read (.inr ⟨rfl, by decide⟩) fun callee d passes => ?_
  split
  · rename_i opening
    have more := ne_eof_of_admits opening
    exact ⟨more, enclosed_moves (passes.reaches.passes_next more) fun _ _ after => after⟩
  · exact passes

theorem leaf_moves {build : Extent → Tree} (more : kinds.kindAt start ≠ .eof) :
    (leaf build).Meets kinds k start (Moved kinds start) :=
  ⟨more, Kinds.passes_next more⟩

theorem atom_moves : atom.Meets kinds (headway kinds given .atom start) start
    (Moved kinds start) := by
  have tail (inner : Rule) (lower : inner.rank < Rule.atom.rank) :
      (read inner).Meets kinds (headway kinds given .atom start) start (Moved kinds start) :=
    meets_tail.1 (meets_read (.inr ⟨rfl, lower⟩) fun _ _ after => after)
  simp only [atom, bind_eq, meets_bind, meets_peek, andThen_ok]
  split <;> rename_i found
  · exact leaf_moves (by simp [found])
  · exact leaf_moves (by simp [found])
  · exact leaf_moves (by simp [found])
  · exact leaf_moves (by simp [found])
  · have more : kinds.kindAt start ≠ .eof := by simp [found]
    simp only [bracketed, bind_eq, pure_eq, meets_bind, meets_step, meets_done, andThen_ok]
    refine ⟨more, meets_read (.inl (Kinds.passes_next more)) fun inner d before => ?_⟩
    exact meets_expect before.reaches fun after => after
  · exact tail .listing (by decide)
  · exact tail .conditional (by decide)
  · exact tail .forLoop (by decide)
  · exact tail .whileLoop (by decide)
  · exact tail .function (by decide)
  · exact .refl start

theorem listing_moves : (listing bound).Meets kinds (headway kinds given .listing start) start
    (Moved kinds start) := by
  simp only [listing, bind_eq, meets_bind, meets_here, meets_spanning, andThen_ok]
  refine meets_expect (.refl start) fun passes => ?_
  exact enclosed_moves passes fun _ _ after => after

theorem clause_moves {word : Keyword} {goOn : Clause Tree → Cursor → Prop}
    (reaches : kinds.Reaches start c) (next : ∀ clause d, kinds.Passes start d → goOn clause d) :
    (clause word).Meets kinds (headway kinds given rule start) c
      (andThen (β := β) (Moved kinds start) goOn) := by
  simp only [clause, bind_eq, pure_eq, meets_bind, meets_done, andThen_andThen]
  refine meets_expect reaches fun before => ?_
  refine meets_read (.inl before) fun condition d before => ?_
  refine meets_expect before.reaches fun before => ?_
  exact meets_read (.inl before) fun body d after => next _ _ after

theorem otherwise_moves {clauses : List (Clause Tree)}
    {goOn : Option (Body Tree) → Cursor → Prop} (passes : kinds.Passes start c)
    (next : ∀ last d, kinds.Passes start d → goOn last d) :
    (otherwise clauses).Meets kinds (headway kinds given rule start) c
      (andThen (β := β) (Moved kinds start) goOn) := by
  simp only [otherwise, bind_eq, pure_eq, meets_bind, meets_ite, meets_peek, meets_step,
    meets_fail, meets_done, andThen_ok, andThen_error, andThen_andThen]
  split
  · rename_i closing
    have more := ne_eof_of_admits (Bool.and_eq_true_iff.1 closing).2
    exact ⟨more, next _ _ (passes.reaches.passes_next more)⟩
  split
  · rename_i other
    have more := ne_eof_of_admits other
    have later := passes.reaches.passes_next more
    exact ⟨more, meets_read (.inl later) fun _ _ after => next _ _ after⟩
  split
  · exact passes.reaches
  · exact next _ _ passes

theorem conditional_moves : (conditional bound).Meets kinds (headway kinds given .conditional start)
    start (Moved kinds start) := by
  simp only [conditional, bind_eq, meets_bind, meets_here, meets_spanning, andThen_ok]
  refine clause_moves (.refl start) fun first d passes => ?_
  refine meets_loop passes (fun clauses d before => ?_) fun clauses d before => ?_
  · simp only [furtherClause, bind_eq, pure_eq, meets_bind, meets_ite, meets_peek, meets_done,
      andThen_ok]
    split
    · exact clause_moves before.reaches fun _ _ after => after
    · exact before
  · exact otherwise_moves before fun _ _ after => after

theorem stride_moves {goOn : Option Tree → Cursor → Prop} (passes : kinds.Passes start c)
    (next : ∀ step d, kinds.Passes start d → goOn step d) :
    stride.Meets kinds (headway kinds given rule start) c
      (andThen (β := β) (Moved kinds start) goOn) := by
  simp only [stride, bind_eq, pure_eq, meets_bind, meets_ite, meets_peek, meets_step, meets_done,
    andThen_ok, andThen_andThen]
  split
  · rename_i stepping
    have more := ne_eof_of_admits stepping
    have later := passes.reaches.passes_next more
    exact ⟨more, meets_read (.inl later) fun _ _ after => next _ _ after⟩
  · exact next _ _ passes

theorem forLoop_moves : forLoop.Meets kinds (headway kinds given .forLoop start) start
    (Moved kinds start) := by
  simp only [forLoop, bind_eq, meets_bind, meets_here, meets_spanning, andThen_ok]
  refine meets_expect (.refl start) fun before => ?_
  refine identifier_moves before fun name d before => ?_
  refine meets_expect before.reaches fun before => ?_
  refine meets_read (.inl before) fun lower d before => ?_
  refine meets_expect before.reaches fun before => ?_
  refine meets_read (.inl before) fun upper d before => ?_
  refine stride_moves before fun step d before => ?_
  refine meets_expect before.reaches fun before => ?_
  exact meets_read (.inl before) fun body d after => after

theorem whileLoop_moves : whileLoop.Meets kinds (headway kinds given .whileLoop start) start
    (Moved kinds start) := by
  simp only [whileLoop, bind_eq, meets_bind, meets_here, meets_spanning, andThen_ok]
  refine meets_expect (.refl start) fun before => ?_
  refine meets_read (.inl before) fun condition d before => ?_
  refine meets_expect before.reaches fun before => ?_
  exact meets_read (.inl before) fun body d after => after

theorem functionName_moves {goOn : Option (Ident Extent) → Cursor → Prop}
    (passes : kinds.Passes start c) (next : ∀ name d, kinds.Passes start d → goOn name d) :
    functionName.Meets kinds k c (andThen (β := β) (Moved kinds start) goOn) := by
  simp only [functionName, bind_eq, pure_eq, meets_bind, meets_ite, meets_peek, meets_done,
    andThen_ok, andThen_andThen]
  split
  · refine identifier_moves passes fun name d before => ?_
    exact meets_expect before.reaches fun after => next _ _ after
  · exact meets_expect passes.reaches fun after => next _ _ after

theorem params_moves {goOn : List (Ident Extent) → Cursor → Prop}
    (passes : kinds.Passes start c) (next : ∀ names d, kinds.Passes start d → goOn names d) :
    (params bound).Meets kinds k c (andThen (β := β) (Moved kinds start) goOn) := by
  simp only [params, bind_eq, pure_eq, meets_bind, meets_ite, meets_peek, meets_done,
    andThen_ok, andThen_andThen]
  split
  · refine separated_moves (identifier_moves passes fun _ _ after => after)
      (fun d before => identifier_moves before fun _ _ after => after) fun names d before => ?_
    exact meets_expect before.reaches fun after => next _ _ after
  · exact meets_expect passes.reaches fun after => next _ _ after

theorem functionBody_moves {goOn : Body Tree → Cursor → Prop} (passes : kinds.Passes start c)
    (next : ∀ body d, kinds.Passes start d → goOn body d) :
    functionBody.Meets kinds (headway kinds given rule start) c
      (andThen (β := β) (Moved kinds start) goOn) := by
  simp only [functionBody, bind_eq, pure_eq, meets_bind, meets_ite, meets_peek, meets_step,
    meets_done, andThen_ok, andThen_andThen]
  split
  · rename_i arrow
    have more := ne_eof_of_admits arrow
    have later := passes.reaches.passes_next more
    exact ⟨more, meets_read (.inl later) fun _ _ after => next _ _ after⟩
  · refine meets_expect passes.reaches fun before => ?_
    refine meets_read (.inl before) fun node d before => ?_
    exact meets_expect before.reaches fun after => next _ _ after

theorem function_moves : (function bound).Meets kinds (headway kinds given .function start) start
    (Moved kinds start) := by
  simp only [function, bind_eq, meets_bind, meets_here, meets_spanning, andThen_ok]
  refine meets_expect (.refl start) fun before => ?_
  refine functionName_moves before fun name d before => ?_
  refine params_moves before fun params d before => ?_
  exact functionBody_moves before fun body d after => after

end Rules

end Parser

namespace Rule

variable {kinds : Kinds}

open Grammar.Parser in
/-- Every rule makes headway. -/
theorem parser_moves (given : Given) (rule : Rule) (bound : Nat) (c : Cursor) :
    (rule.parser bound).Meets kinds (headway kinds given rule c) c (Moved kinds c) := by
  cases rule with
  | block => exact block_moves
  | statement => exact statement_moves
  | expression => exact expression_moves
  | comparison => exact comparison_moves
  | sum =>
    exact chain_moves (meets_tail.1 (meets_read (.inr ⟨rfl, by decide⟩) fun _ _ after => after))
      fun d before => meets_read (.inl before) fun _ _ after => after
  | product =>
    exact chain_moves (meets_tail.1 (meets_read (.inr ⟨rfl, by decide⟩) fun _ _ after => after))
      fun d before => meets_read (.inl before) fun _ _ after => after
  | signed => exact signed_moves
  | power =>
    exact chain_moves (meets_tail.1 (meets_read (.inr ⟨rfl, by decide⟩) fun _ _ after => after))
      fun d before => meets_read (.inl before) fun _ _ after => after
  | application => exact application_moves
  | atom => exact atom_moves
  | listing => exact listing_moves
  | conditional => exact conditional_moves
  | forLoop => exact forLoop_moves
  | whileLoop => exact whileLoop_moves
  | function => exact function_moves
  | body => exact body_moves
  | closedBody => exact closedBody_moves

theorem eval_moves {answers : Answers} (moves : ∀ rule c, Moved kinds c (answers rule c))
    (rule : Rule) (bound : Nat) (c : Cursor) :
    Moved kinds c ((rule.parser bound).eval kinds answers c) := by
  refine Parser.eval_of_meets ?_ (parser_moves (fun _ _ _ => True) rule bound c)
  exact fun inner d _ => ⟨moves inner d, trivial⟩

/-- Bounds the calls inside one another from here on. -/
def weight (kinds : Kinds) (rule : Rule) (c : Cursor) : Nat :=
  16 * (kinds.size - c.index) + rule.rank

theorem weight_lt_enoughCalls (kinds : Kinds) (rule : Rule) (c : Cursor) :
    rule.weight kinds c < enoughCalls kinds := by
  have low : rule.rank ≤ 13 := by cases rule <;> decide
  simp only [weight, enoughCalls]
  omega

theorem weight_lt_of_passes {rule inner : Rule} {start c : Cursor}
    (passes : kinds.Passes start c) : inner.weight kinds c < rule.weight kinds start := by
  have low : inner.rank ≤ 13 := by cases inner <;> decide
  have further := passes.index_lt
  have inside := passes.index_lt_size
  simp only [weight]
  omega

theorem weight_lt_of_allowed {given : Given} {rule inner : Rule} {start c : Cursor}
    (allowed : (headway kinds given rule start).allowed inner c) :
    inner.weight kinds c < rule.weight kinds start := by
  rcases allowed with passes | ⟨rfl, lower⟩
  · exact weight_lt_of_passes passes
  · exact Nat.add_lt_add_left lower _

/-- Only the answers of lighter calls count. -/
theorem eval_congr {answers others : Answers} {rule : Rule} {c : Cursor}
    (moves : ∀ rule c, Moved kinds c (answers rule c))
    (agree : ∀ inner d, inner.weight kinds d < rule.weight kinds c →
      answers inner d = others inner d) (bound : Nat) :
    (rule.parser bound).eval kinds answers c = (rule.parser bound).eval kinds others c := by
  refine Parser.eval_congr_of_meets ?_ ?_ (parser_moves (fun _ _ _ => True) rule bound c)
  · exact fun inner d _ => ⟨moves inner d, trivial⟩
  · exact fun inner d allowed => agree inner d (weight_lt_of_allowed allowed)

theorem answerWithin_moves (limit : Limit) (calls depth : Nat) (rule : Rule) (c : Cursor) :
    Moved kinds c (answerWithin kinds limit calls depth rule c) := by
  induction calls generalizing depth rule c with
  | zero => exact .refl c
  | succ calls ih =>
    rw [answerWithin]
    split
    · exact eval_moves (ih _) rule _ c
    · exact .refl c

/-- Room for more calls than the weight of a rule changes nothing. -/
theorem answerWithin_eq {limit : Limit} {some more depth : Nat} {rule : Rule} {c : Cursor}
    (enough : rule.weight kinds c < some) (also : rule.weight kinds c < more) :
    answerWithin kinds limit some depth rule c = answerWithin kinds limit more depth rule c := by
  induction some generalizing more depth rule c with
  | zero => omega
  | succ some ih =>
    cases more with
    | zero => omega
    | succ more =>
      rw [answerWithin, answerWithin]
      split
      · refine eval_congr (answerWithin_moves limit some _) (fun inner d lighter => ?_) _
        exact ih (by omega) (by omega)
      · rfl

/-- What a rule yields below `depth` guarded ones. -/
def answer (kinds : Kinds) (limit : Limit) (depth : Nat) : Answers :=
  answerWithin kinds limit (enoughCalls kinds) depth

/-- A rule yields what its description yields on the answers of the rules it calls. -/
theorem answer_eq (kinds : Kinds) (limit : Limit) (depth : Nat) (rule : Rule) (c : Cursor) :
    answer kinds limit depth rule c =
      if rule.admitted limit depth then
        (rule.parser kinds.size).eval kinds (answer kinds limit (rule.depthInside depth)) c
      else .error ⟨.nestingTooDeep, c⟩ := by
  have enough := weight_lt_enoughCalls kinds rule c
  rw [answer, answerWithin_eq enough (Nat.lt_succ_of_lt enough), answerWithin]
  rfl

theorem answer_moves (limit : Limit) (depth : Nat) (rule : Rule) (c : Cursor) :
    Moved kinds c (answer kinds limit depth rule c) :=
  answerWithin_moves limit _ depth rule c

/-- What rules yield if calls that are nested too deeply are answered in any way whatever. -/
def answerFrom (base : Answers) (kinds : Kinds) (limit : Limit) : (calls depth : Nat) → Answers
  | 0, _, rule, c => base rule c
  | calls + 1, depth, rule, c =>
    if rule.admitted limit depth then
      (rule.parser kinds.size).eval kinds
        (answerFrom base kinds limit calls (rule.depthInside depth)) c
    else .error ⟨.nestingTooDeep, c⟩

/-- With room for enough calls there is no such call. -/
theorem answerFrom_eq {base : Answers} {limit : Limit} {calls depth : Nat} {rule : Rule}
    {c : Cursor} (enough : rule.weight kinds c < calls) :
    answerFrom base kinds limit calls depth rule c = answer kinds limit depth rule c := by
  induction calls generalizing depth rule c with
  | zero => omega
  | succ calls ih =>
    rw [answerFrom, answer_eq]
    split
    · refine (eval_congr (answer_moves limit _) (fun inner d lighter => ?_) _).symm
      exact (ih (by omega)).symm
    · rfl

theorem run_moves {limit : Limit} (calls : Nat) (rule : Rule) (c : Cursor) (s : Session) :
    Moved kinds c (run kinds limit calls rule c s).1 :=
  run_outcome kinds limit calls rule c s ▸ answerWithin_moves limit calls s.depth rule c

/-- With room for enough calls a run yields what there is always room for. -/
theorem run_eq_answer {limit : Limit} {calls : Nat} {rule : Rule} {c : Cursor} {s : Session}
    (enough : rule.weight kinds c < calls) :
    (run kinds limit calls rule c s).1 = answer kinds limit s.depth rule c := by
  rw [run_outcome, answer, answerWithin_eq enough (weight_lt_enoughCalls kinds rule c)]

/-- What holds of every success whose calls obey it one level deeper holds of every success. -/
theorem answer_induction_at {limit : Limit}
    {inv : Nat → (rule : Rule) → Cursor → Parsed rule.Value → Prop}
    (keeps : ∀ (answers : Answers) (depth : Nat) (rule : Rule) (c : Cursor)
      (parsed : Parsed rule.Value), rule.admitted limit depth = true →
      (∀ rule c, Moved kinds c (answers rule c)) →
      (∀ inner c parsed, answers inner c = .ok parsed →
        inv (rule.depthInside depth) inner c parsed) →
      (rule.parser kinds.size).eval kinds answers c = .ok parsed → inv depth rule c parsed)
    {depth : Nat} {rule : Rule} {c : Cursor} {parsed : Parsed rule.Value}
    (succeeds : answer kinds limit depth rule c = .ok parsed) : inv depth rule c parsed := by
  have within (calls depth : Nat) (rule : Rule) (c : Cursor) (parsed : Parsed rule.Value) :
      answerWithin kinds limit calls depth rule c = .ok parsed → inv depth rule c parsed := by
    induction calls generalizing depth rule c parsed with
    | zero => simp [answerWithin]
    | succ calls ih =>
      rw [answerWithin]
      split
      · rename_i admitted
        exact keeps _ depth rule c parsed admitted (answerWithin_moves limit calls _) (ih _)
      · simp
  exact within _ depth rule c parsed succeeds

/-- The same where the depth does not matter. -/
theorem answer_induction {limit : Limit} {inv : (rule : Rule) → Cursor → Parsed rule.Value → Prop}
    (keeps : ∀ (answers : Answers) (rule : Rule) (c : Cursor) (parsed : Parsed rule.Value),
      (∀ rule c, Moved kinds c (answers rule c)) →
      (∀ rule c parsed, answers rule c = .ok parsed → inv rule c parsed) →
      (rule.parser kinds.size).eval kinds answers c = .ok parsed → inv rule c parsed)
    {depth : Nat} {rule : Rule} {c : Cursor} {parsed : Parsed rule.Value}
    (succeeds : answer kinds limit depth rule c = .ok parsed) : inv rule c parsed :=
  @answer_induction_at kinds limit (fun _ => inv)
    (fun answers _ rule c parsed _ => keeps answers rule c parsed) depth rule c parsed succeeds

end Rule

/-- Reading a program asks for one block and looks at the token behind it. -/
theorem parseKinds_outcome (kinds : Kinds) (limit : Limit) (s : Session) :
    (parseKinds kinds limit s).1 =
      (Parser.program.eval kinds (Rule.answer kinds limit s.depth) .start).map Parsed.value := by
  rw [Rule.answer, ← Parser.exec_outcome (Rule.run_depth kinds limit (Rule.enoughCalls kinds))
    (fun rule c t same => same ▸ Rule.run_outcome kinds limit _ rule c t) Parser.program .start s
    rfl]
  rfl

end Sharp.Grammar

import Sharp.Proofs.Grammar.Collapsing
import Sharp.Proofs.Tree.Nodes

/-!
A row and the collapsed row read side by side. While one cursor stands on a token that is kept, the
other one stands where it lands, so both meet the same tokens and say the same about them. Only a
block may start in the midst of a run of separators, behind the line break it is opened with, and it
passes the rest of the run before anything else. Both rows are taken to be of one length, which
bounds the loops.
-/
namespace Sharp.Grammar

/-- Values that look the same in one respect. -/
abbrev Same {α γ : Type} (view : α → γ) (a b : α) : Prop := view a = view b

/-- Values that differ in their extents only. -/
def Rule.Twins : (rule : Rule) → rule.Value → rule.Value → Prop
  | .body | .closedBody => Same (Body.map Node.erase)
  | .block | .statement | .expression | .comparison | .sum | .product | .signed | .power
  | .application | .atom | .listing | .conditional | .forLoop | .whileLoop | .function =>
    Same Node.erase

/-- Where a rule may be called: a block anywhere, another rule on a token that is kept. -/
def Kinds.Opens (kinds : Kinds) (rule : Rule) (c : Cursor) : Prop :=
  c.index < kinds.size ∧ (rule ≠ .block → kinds.Kept c)

theorem Kinds.Kept.opens {kinds : Kinds} {c : Cursor} (kept : kinds.Kept c) (rule : Rule) :
    kinds.Opens rule c :=
  ⟨kept.inside, fun _ => kept⟩

/-- Outcomes that agree, the second one in the collapsed row. -/
inductive Mirrors {α : Type} (kinds : Kinds) (alike : α → α → Prop) : Outcome α → Outcome α → Prop
  | ok {a b : α} {d : Cursor} (related : alike a b) (kept : kinds.Kept d) :
    Mirrors kinds alike (.ok ⟨a, d⟩) (.ok ⟨b, kinds.landing d⟩)
  | error {complaint : Complaint} {d : Cursor} (kept : kinds.Kept d) :
    Mirrors kinds alike (.error ⟨complaint, d⟩) (.error ⟨complaint, kinds.landing d⟩)

/-- A row with what calls yield on it, and the collapsed row with what they yield there. -/
structure Mirror where
  kinds : Kinds
  answers : Answers
  other : Kinds
  replies : Answers
  ends : kinds.kindAt ⟨kinds.size - 1⟩ = .eof
  size : other.size = kinds.size
  kindAt : ∀ c, kinds.Kept c → other.kindAt (kinds.landing c) = kinds.kindAt c
  calls : ∀ rule c, kinds.Opens rule c →
    Mirrors kinds rule.Twins (answers rule c) (replies rule (kinds.landing c))

/-- An error is replaced in both rows or in none. -/
theorem isImmediate_landing {kinds : Kinds} {start d : Cursor} {complaint : Complaint}
    (kept : kinds.Kept start) :
    Failure.isImmediate ⟨complaint, kinds.landing d⟩ (kinds.landing start) =
      Failure.isImmediate ⟨complaint, d⟩ start := by
  have ordered := @Kinds.Kept.landing_le_iff kinds start d kept
  rw [Bool.eq_iff_iff]
  simp only [Failure.isImmediate, Cursor.passedSince, beq_iff_eq]
  omega

namespace Parser

open Node

variable {α β σ : Type} {w : Mirror}

/-- A description does on the row what another one does on the collapsed row. -/
def Mirrored (w : Mirror) (alike : α → α → Prop) (p q : Parser α) (c : Cursor) : Prop :=
  Mirrors w.kinds alike (p.eval w.kinds w.answers c)
    (q.eval w.other w.replies (w.kinds.landing c))

namespace Mirrored

variable {alike : α → α → Prop} {next : β → β → Prop} {p q : Parser α} {c : Cursor}

theorem bind {f g : α → Parser β} (first : Mirrored w alike p q c)
    (rest : ∀ a b d, alike a b → w.kinds.Kept d → Mirrored w next (f a) (g b) d) :
    Mirrored w next (p >>= f) (q >>= g) c := by
  unfold Mirrored at first ⊢
  simp only [bind_eq, eval_bind]
  generalize p.eval w.kinds w.answers c = x at first ⊢
  generalize q.eval w.other w.replies (w.kinds.landing c) = y at first ⊢
  cases first with
  | ok related kept => exact rest _ _ _ related kept
  | error kept => exact .error kept

theorem done {a b : α} (kept : w.kinds.Kept c) (related : alike a b) :
    Mirrored w alike (.done a) (.done b) c :=
  .ok related kept

theorem here {f g : Cursor → Parser β}
    (rest : Mirrored w next (f c) (g (w.kinds.landing c)) c) :
    Mirrored w next (Parser.here >>= f) (Parser.here >>= g) c :=
  rest

theorem peek {f g : TokenKind → Parser β} (kept : w.kinds.Kept c)
    (rest : Mirrored w next (f (w.kinds.kindAt c)) (g (w.kinds.kindAt c)) c) :
    Mirrored w next (Parser.peek >>= f) (Parser.peek >>= g) c := by
  unfold Mirrored
  simp only [bind_eq, eval_peek, w.kindAt c kept]
  exact rest

/-- Behind a separator the next token need not be kept. -/
theorem step {f g : Unit → Parser β} (kept : w.kinds.Kept c) (more : w.kinds.kindAt c ≠ .eof)
    (rest : c.next.index < w.kinds.size →
      (w.kinds.kindAt c ≠ .newline → w.kinds.Kept c.next) → Mirrored w next (f ()) (g ()) c.next) :
    Mirrored w next (Parser.step >>= f) (Parser.step >>= g) c := by
  have followed := rest (Kinds.index_next_lt w.ends more) fun other => kept.next w.ends more other
  unfold Mirrored at followed
  rw [kept.landing_next] at followed
  exact followed

theorem spanning {start other : Cursor} {build built : Extent → α} (kept : w.kinds.Kept c)
    (related : ∀ place there, alike (build place) (built there)) :
    Mirrored w alike (Parser.spanning start build) (Parser.spanning other built) c :=
  .ok (related _ _) kept

theorem fail (kept : w.kinds.Kept c) (complaint : Complaint) :
    Mirrored w alike (Parser.fail complaint) (Parser.fail complaint) c :=
  .error kept

theorem read {rule : Rule} (opens : w.kinds.Opens rule c) :
    Mirrored w rule.Twins (.read rule) (.read rule) c := by
  unfold Mirrored
  rw [eval_read, eval_read]
  exact w.calls rule c opens

theorem attempt {rule : Rule} {after again : Except SyntaxError rule.Value → Parser α}
    (opens : w.kinds.Opens rule c)
    (success : ∀ a b d, rule.Twins a b → w.kinds.Kept d →
      Mirrored w alike (after (.ok a)) (again (.ok b)) d)
    (failure : ∀ a b, Mirrored w alike (after (.error a)) (again (.error b)) c) :
    Mirrored w alike (.attempt rule after) (.attempt rule again) c := by
  have called := w.calls rule c opens
  unfold Mirrored
  simp only [eval]
  generalize w.answers rule c = x at called ⊢
  generalize w.replies rule (w.kinds.landing c) = y at called ⊢
  cases called with
  | ok related kept => exact success _ _ _ related kept
  | error _ => exact failure _ _

theorem expecting (kept : w.kinds.Kept c) (classes : List TokenClass)
    (inner : Mirrored w alike p q c) :
    Mirrored w alike (Parser.expecting classes p) (Parser.expecting classes q) c := by
  unfold Mirrored at inner
  unfold Mirrored Parser.expecting
  simp only [eval, eval_mapError]
  generalize p.eval w.kinds w.answers c = x at inner ⊢
  generalize q.eval w.other w.replies (w.kinds.landing c) = y at inner ⊢
  cases inner with
  | ok related stands => exact .ok related stands
  | error stands =>
    simp only [Except.mapError, Failure.orExpected, isImmediate_landing kept]
    split
    · exact .error stands
    · exact .error stands

theorem expect {others : List TokenClass} {wanted : TokenClass} {f g : Unit → Parser β}
    (kept : w.kinds.Kept c)
    (rest : c.next.index < w.kinds.size → (wanted ≠ .newline → w.kinds.Kept c.next) →
      Mirrored w next (f ()) (g ()) c.next) :
    Mirrored w next (Parser.expect others wanted >>= f) (Parser.expect others wanted >>= g) c := by
  simp only [Parser.expect, bind_eq, bind_bind]
  refine peek kept ?_
  by_cases admits : wanted.admits (w.kinds.kindAt c) = true
  · simp only [admits, if_true]
    refine step kept (ne_eof_of_admits admits) fun inside solid => rest inside fun other => ?_
    refine solid fun separator => other ?_
    rw [separator] at admits
    cases wanted <;> simp_all [TokenClass.admits]
  · simp only [admits]
    exact fail kept _

theorem noting {event noted : Event} {f g : Unit → Parser β}
    (rest : Mirrored w next (f ()) (g ()) c) :
    Mirrored w next (Parser.noting event >>= f) (Parser.noting noted >>= g) c :=
  rest

theorem iterate {γ : Type} (view : σ → γ) {turn turned : σ → Parser (Option σ)} {a b : σ}
    (each : ∀ a b d, Same view a b → w.kinds.Kept d →
      Mirrored w (Same (Option.map view)) (turn a) (turned b) d)
    (bound : Nat) (related : Same view a b) (kept : w.kinds.Kept c) :
    Mirrored w (Same view) (Parser.iterate turn bound a) (Parser.iterate turned bound b) c := by
  induction bound generalizing a b c with
  | zero => exact done kept related
  | succ bound ih =>
    refine bind (each a b c related kept) fun x y d found stays => ?_
    rcases x with _ | changed <;> rcases y with _ | other
    · exact done stays related
    · simp [Same] at found
    · simp [Same] at found
    · exact ih (Option.some.inj found) stays

end Mirrored

section Rules

variable {bound : Nat} {c : Cursor}

theorem identifier_mirrored (kept : w.kinds.Kept c) :
    Mirrored w (Same Ident.name) identifier identifier c := by
  refine .peek kept ?_
  split
  · rename_i found
    refine .here (.step kept (by simp [found]) fun _ solid => ?_)
    exact .done (solid (by simp [found])) rfl
  · exact .fail kept _

/-- The runs of separators passed differ in length, but not in whether there is one. -/
theorem newlines_mirrored (inside : c.index < w.kinds.size) :
    Mirrored w (fun n m => w.kinds.Kept c → (m = 0 ↔ n = 0)) (newlines w.kinds.size)
      (newlines w.kinds.size) c := by
  obtain ⟨n, d, skips⟩ := exists_skips w.kinds c
  obtain ⟨kept, m, passed, both⟩ := skips_landing w.ends w.kindAt skips inside
  have first : (newlines w.kinds.size).eval w.kinds w.answers c = .ok ⟨n, d⟩ :=
    eval_newlines_eq_ok.2 skips
  have second : (newlines w.kinds.size).eval w.other w.replies (w.kinds.landing c) =
      .ok ⟨m, w.kinds.landing d⟩ := by
    rw [← w.size]
    exact eval_newlines_eq_ok.2 passed
  unfold Mirrored
  rw [first, second]
  exact .ok both kept

theorem separated_mirrored {α γ : Type} {view : α → γ} {first item : Parser α}
    (head : Mirrored w (Same view) first first c)
    (each : ∀ d, w.kinds.Kept d → Mirrored w (Same view) item item d) :
    Mirrored w (Same (List.map view)) (separated bound first item) (separated bound first item)
      c := by
  refine .bind head fun a b d same kept => .iterate (List.map view)
    (fun xs ys d alike kept => ?_) bound (by simp [Same, same]) kept
  refine .peek kept ?_
  split
  · rename_i comma
    have found := isSymbol_iff.1 comma
    refine .step kept (by simp [found]) fun _ solid => ?_
    refine .bind (each _ (solid (by simp [found]))) fun x y e same kept => .done kept ?_
    simp [Same, alike, same]
  · exact .done kept rfl

theorem enclosed_mirrored {close : Symbol} (kept : w.kinds.Kept c) :
    Mirrored w (Same (List.map Node.erase)) (enclosed bound close) (enclosed bound close) c := by
  refine .peek kept ?_
  split
  · rename_i closing
    have found := isSymbol_iff.1 closing
    refine .step kept (by simp [found]) fun _ solid => ?_
    exact .done (solid (by simp [found])) rfl
  · refine .bind (separated_mirrored (.expecting kept _ (.read (kept.opens .expression)))
      fun d kept => .read (kept.opens .expression)) fun xs ys d same kept => ?_
    exact .expect kept fun _ solid => .done (solid (by simp)) same

theorem chain_mirrored {level : Level} {left right : Parser Tree}
    (first : Mirrored w (Same Node.erase) left left c)
    (each : ∀ d, w.kinds.Kept d → Mirrored w (Same Node.erase) right right d) :
    Mirrored w (Same Node.erase) (chain bound level left right) (chain bound level left right)
      c := by
  refine .bind first fun a b d same kept => .iterate Node.erase
    (fun x y d alike kept => ?_) bound same kept
  refine .peek kept ?_
  split
  · exact .done kept rfl
  · rename_i op found
    have more : w.kinds.kindAt d ≠ .eof := fun finished => by
      simp [finished, BinaryOp.atLevel?, BinaryOp.ofToken?] at found
    have other : w.kinds.kindAt d ≠ .newline := fun separator => by
      simp [separator, BinaryOp.atLevel?, BinaryOp.ofToken?] at found
    refine .step kept more fun _ solid => ?_
    refine .bind (each _ (solid other)) fun u v e same kept => .done kept ?_
    simp [Same, alike, same]

theorem further_mirrored {a b : List Tree} (alike : Same (List.map Node.erase) a b)
    (kept : w.kinds.Kept c) :
    Mirrored w (Same (Option.map (List.map Node.erase))) (further w.kinds.size a)
      (further w.kinds.size b) c := by
  refine .bind (newlines_mirrored kept.inside) fun n m d both stays => ?_
  have both := both kept
  by_cases none : n = 0
  · rw [if_pos none, if_pos (both.2 none)]
    exact .done stays rfl
  · rw [if_neg none, if_neg (mt both.1 none)]
    refine .here (.attempt (stays.opens .statement) (fun x y e (same : Same Node.erase x y) kept =>
      .done kept ?_) fun _ _ => .noting (.done stays rfl))
    simp [Same, alike, same]

theorem block_mirrored (inside : c.index < w.kinds.size) :
    Mirrored w (Same Node.erase) (block w.kinds.size) (block w.kinds.size) c := by
  refine .bind (newlines_mirrored inside) fun _ _ d _ kept => ?_
  refine .bind (.read (kept.opens .statement)) fun a b e (same : Same Node.erase a b) kept => ?_
  refine .bind (.iterate (List.map Node.erase) (fun xs ys d alike kept =>
    further_mirrored alike kept) _ (by simp [Same, same]) kept)
    fun xs ys d alike kept => .here (.done kept ?_)
  simp [Same, alike]

theorem statement_mirrored (kept : w.kinds.Kept c) :
    Mirrored w (Same Node.erase) statement statement c := by
  refine .here (.peek kept ?_)
  split
  · rename_i found
    refine .step kept (by simp [found]) fun _ solid => ?_
    have later := solid (by simp [found])
    refine .attempt (later.opens .expression) (fun a b d (same : Same Node.erase a b) kept => ?_)
      fun _ _ => ?_
    · exact .spanning kept fun _ _ => by simp [Same, same]
    · exact .spanning later fun _ _ => rfl
  · rename_i found
    refine .step kept (by simp [found]) fun _ solid => ?_
    exact .spanning (solid (by simp [found])) fun _ _ => rfl
  · rename_i found
    refine .step kept (by simp [found]) fun _ solid => ?_
    exact .spanning (solid (by simp [found])) fun _ _ => rfl
  · exact .expecting kept _ (.read (kept.opens .expression))

/-- Behind a line break the block of a body may start on a separator that is dropped. -/
theorem body_mirrored (kept : w.kinds.Kept c) :
    Mirrored w (Same (Body.map Node.erase)) body body c := by
  refine .peek kept ?_
  split
  · rename_i separator
    refine .step kept (ne_eof_of_admits separator) fun inside _ => ?_
    refine .bind (.read ⟨inside, fun other => absurd rfl other⟩) fun a b d
      (same : Same Node.erase a b) kept => ?_
    exact .done kept (by simp [Same, Body.map, same])
  · refine .bind (.read (kept.opens .statement)) fun a b d (same : Same Node.erase a b) kept => ?_
    exact .done kept (by simp [Same, Body.map, same])

theorem closedBody_mirrored (kept : w.kinds.Kept c) :
    Mirrored w (Same (Body.map Node.erase)) closedBody closedBody c := by
  refine .bind (.read (kept.opens .body)) fun a b d same kept => ?_
  have blocks : b.isBlock = a.isBlock := (congrArg Body.isBlock same).symm
  change Mirrored w _ (if a.isBlock then _ else _) (if b.isBlock then _ else _) d
  rw [blocks]
  split
  · exact .expect kept fun _ solid => .done (solid (by simp)) same
  · exact .done kept same

theorem expression_mirrored (kept : w.kinds.Kept c) :
    Mirrored w (Same Node.erase) (expression bound) (expression bound) c := by
  refine .here (.peek kept ?_)
  split
  · rename_i found
    refine .step kept (by simp [found]) fun _ solid => ?_
    refine .bind (identifier_mirrored (solid (by simp [found]))) fun x y d named kept => ?_
    refine .expect kept fun _ solid => ?_
    have later := (solid (by simp)).opens .expression
    refine .bind (.read later) fun a b e (same : Same Node.erase a b) kept => ?_
    exact .spanning kept fun _ _ => by simp [Same, named, same]
  · refine .expecting kept _ (chain_mirrored (.read (kept.opens .comparison)) fun d kept => ?_)
    exact .read (kept.opens .comparison)

theorem comparison_mirrored (kept : w.kinds.Kept c) :
    Mirrored w (Same Node.erase) (comparison bound) (comparison bound) c := by
  refine .here (.peek kept ?_)
  split
  · rename_i found
    refine .step kept (by simp [found]) fun _ solid => ?_
    have later := (solid (by simp [found])).opens .comparison
    refine .bind (.read later) fun a b d (same : Same Node.erase a b) kept => ?_
    exact .spanning kept fun _ _ => by simp [Same, same]
  · refine .expecting kept _ (chain_mirrored (.read (kept.opens .sum)) fun d kept => ?_)
    exact .read (kept.opens .sum)

theorem signed_mirrored (kept : w.kinds.Kept c) :
    Mirrored w (Same Node.erase) signed signed c := by
  refine .here (.peek kept ?_)
  split
  · rename_i op found
    have more : w.kinds.kindAt c ≠ .eof := fun finished => by
      simp [finished, UnaryOp.sign?] at found
    have other : w.kinds.kindAt c ≠ .newline := fun separator => by
      simp [separator, UnaryOp.sign?] at found
    refine .step kept more fun _ solid => ?_
    refine .bind (.read ((solid other).opens .signed)) fun a b d (same : Same Node.erase a b)
      kept => ?_
    exact .spanning kept fun _ _ => by simp [Same, same]
  · exact .read (kept.opens .power)

theorem application_mirrored (kept : w.kinds.Kept c) :
    Mirrored w (Same Node.erase) (application bound) (application bound) c := by
  refine .here (.bind (.read (kept.opens .atom)) fun a b d (same : Same Node.erase a b) kept => ?_)
  refine .peek kept ?_
  split
  · rename_i opening
    have found := isSymbol_iff.1 opening
    refine .step kept (by simp [found]) fun _ solid => ?_
    refine .bind (enclosed_mirrored (solid (by simp [found]))) fun xs ys e alike kept => ?_
    exact .spanning kept fun _ _ => by simp [Same, same, alike]
  · exact .done kept same

theorem leaf_mirrored {build : Extent → Tree} (kept : w.kinds.Kept c)
    (more : w.kinds.kindAt c ≠ .eof) (other : w.kinds.kindAt c ≠ .newline)
    (same : ∀ place there, (build place).erase = (build there).erase) :
    Mirrored w (Same Node.erase) (leaf build) (leaf build) c :=
  .here (.step kept more fun _ solid => .spanning (solid other) same)

theorem atom_mirrored (kept : w.kinds.Kept c) :
    Mirrored w (Same Node.erase) atom atom c := by
  refine .peek kept ?_
  split <;> rename_i found
  · exact leaf_mirrored kept (by simp [found]) (by simp [found]) fun _ _ => rfl
  · exact leaf_mirrored kept (by simp [found]) (by simp [found]) fun _ _ => rfl
  · exact leaf_mirrored kept (by simp [found]) (by simp [found]) fun _ _ => rfl
  · exact leaf_mirrored kept (by simp [found]) (by simp [found]) fun _ _ => rfl
  · refine .step kept (by simp [found]) fun _ solid => ?_
    have later := (solid (by simp [found])).opens .expression
    refine .bind (.read later) fun a b d same kept => ?_
    exact .expect kept fun _ solid => .done (solid (by simp)) same
  · exact .read (kept.opens .listing)
  · exact .read (kept.opens .conditional)
  · exact .read (kept.opens .forLoop)
  · exact .read (kept.opens .whileLoop)
  · exact .read (kept.opens .function)
  · exact .fail kept _

theorem listing_mirrored (kept : w.kinds.Kept c) :
    Mirrored w (Same Node.erase) (listing bound) (listing bound) c := by
  refine .here (.expect kept fun _ solid => ?_)
  refine .bind (enclosed_mirrored (solid (by simp))) fun xs ys d alike kept => ?_
  exact .spanning kept fun _ _ => by simp [Same, alike]

theorem clause_mirrored {word : Keyword} (kept : w.kinds.Kept c) :
    Mirrored w (Same (Clause.map Node.erase)) (clause word) (clause word) c := by
  refine .expect kept fun _ solid => ?_
  have later := (solid (by simp)).opens .expression
  refine .bind (.read later) fun a b d (same : Same Node.erase a b) kept => ?_
  refine .expect kept fun _ solid => ?_
  have later := (solid (by simp)).opens .body
  refine .bind (.read later) fun x y e (alike : Same (Body.map Node.erase) x y) kept => ?_
  exact .done kept (by simp [Same, Clause.map, same, alike])

theorem otherwise_mirrored {xs ys : List (Clause Tree)}
    (alike : Same (List.map (Clause.map Node.erase)) xs ys) (kept : w.kinds.Kept c) :
    Mirrored w (Same (Option.map (Body.map Node.erase))) (otherwise xs) (otherwise ys) c := by
  have looks (clauses : List (Clause Tree)) :
      endsInBlock clauses = (clauses.map (Clause.map Node.erase)).getLast?.any
        fun last => last.body.isBlock := by
    rw [endsInBlock, List.getLast?_map]
    cases clauses.getLast? <;> rfl
  have ends : endsInBlock ys = endsInBlock xs := by rw [looks, looks, alike]
  refine .peek kept ?_
  rw [ends]
  split
  · rename_i closing
    have found := isKeyword_iff.1 (Bool.and_eq_true_iff.1 closing).2
    refine .step kept (by simp [found]) fun _ solid => ?_
    exact .done (solid (by simp [found])) rfl
  split
  · rename_i other
    have found := isKeyword_iff.1 other
    refine .step kept (by simp [found]) fun _ solid => ?_
    have later := (solid (by simp [found])).opens .closedBody
    refine .bind (.read later) fun a b d (same : Same (Body.map Node.erase) a b) kept => ?_
    exact .done kept (by simp [Same, same])
  split
  · exact .fail kept _
  · exact .done kept rfl

theorem conditional_mirrored (kept : w.kinds.Kept c) :
    Mirrored w (Same Node.erase) (conditional bound) (conditional bound) c := by
  refine .here (.bind (clause_mirrored kept) fun a b d same kept => ?_)
  refine .bind (.iterate (List.map (Clause.map Node.erase)) (fun xs ys d alike kept => ?_)
    bound (by simp [Same, same]) kept) fun xs ys d alike kept => ?_
  · refine .peek kept ?_
    split
    · refine .bind (clause_mirrored kept) fun x y e same kept => .done kept ?_
      simp [Same, alike, same]
    · exact .done kept rfl
  · refine .bind (otherwise_mirrored alike kept) fun x y e last kept => ?_
    exact .spanning kept fun _ _ => by simp [Same, alike, last]

theorem stride_mirrored (kept : w.kinds.Kept c) :
    Mirrored w (Same (Option.map Node.erase)) stride stride c := by
  refine .peek kept ?_
  split
  · rename_i stepping
    have found := isKeyword_iff.1 stepping
    refine .step kept (by simp [found]) fun _ solid => ?_
    have later := (solid (by simp [found])).opens .expression
    refine .bind (.read later) fun a b d (same : Same Node.erase a b) kept => ?_
    exact .done kept (by simp [Same, same])
  · exact .done kept rfl

theorem forLoop_mirrored (kept : w.kinds.Kept c) :
    Mirrored w (Same Node.erase) forLoop forLoop c := by
  refine .here (.expect kept fun _ solid => ?_)
  refine .bind (identifier_mirrored (solid (by simp))) fun x y d named kept => ?_
  refine .expect kept fun _ solid => ?_
  have later := (solid (by simp)).opens .expression
  refine .bind (.read later) fun a b d (lower : Same Node.erase a b) kept => ?_
  refine .expect kept fun _ solid => ?_
  have later := (solid (by simp)).opens .expression
  refine .bind (.read later) fun a b d (upper : Same Node.erase a b) kept => ?_
  refine .bind (stride_mirrored kept) fun a b d steps kept => ?_
  refine .expect kept fun _ solid => ?_
  have later := (solid (by simp)).opens .closedBody
  refine .bind (.read later) fun a b d (inner : Same (Body.map Node.erase) a b) kept => ?_
  exact .spanning kept fun _ _ => by simp [Same, named, lower, upper, steps, inner]

theorem whileLoop_mirrored (kept : w.kinds.Kept c) :
    Mirrored w (Same Node.erase) whileLoop whileLoop c := by
  refine .here (.expect kept fun _ solid => ?_)
  have later := (solid (by simp)).opens .expression
  refine .bind (.read later) fun a b d (same : Same Node.erase a b) kept => ?_
  refine .expect kept fun _ solid => ?_
  have later := (solid (by simp)).opens .closedBody
  refine .bind (.read later) fun a b d (inner : Same (Body.map Node.erase) a b) kept => ?_
  exact .spanning kept fun _ _ => by simp [Same, same, inner]

theorem functionName_mirrored (kept : w.kinds.Kept c) :
    Mirrored w (Same (Option.map Ident.name)) functionName functionName c := by
  refine .peek kept ?_
  split
  · refine .bind (identifier_mirrored kept) fun x y d named kept => ?_
    exact .expect kept fun _ solid => .done (solid (by simp)) (by simp [Same, named])
  · exact .expect kept fun _ solid => .done (solid (by simp)) rfl

theorem params_mirrored (kept : w.kinds.Kept c) :
    Mirrored w (Same (List.map Ident.name)) (params bound) (params bound) c := by
  refine .peek kept ?_
  split
  · refine .bind (separated_mirrored (identifier_mirrored kept) fun _ kept =>
      identifier_mirrored kept) fun xs ys d alike kept => ?_
    exact .expect kept fun _ solid => .done (solid (by simp)) alike
  · exact .expect kept fun _ solid => .done (solid (by simp)) rfl

/-- Behind a line break the block may start on a separator that is dropped. -/
theorem functionBody_mirrored (kept : w.kinds.Kept c) :
    Mirrored w (Same (Body.map Node.erase)) functionBody functionBody c := by
  refine .peek kept ?_
  split
  · rename_i arrow
    have found := isSymbol_iff.1 arrow
    refine .step kept (by simp [found]) fun _ solid => ?_
    have later := (solid (by simp [found])).opens .expression
    refine .bind (.read later) fun a b d (same : Same Node.erase a b) kept => ?_
    exact .done kept (by simp [Same, Body.map, same])
  · refine .expect kept fun inside _ => ?_
    refine .bind (.read ⟨inside, fun other => absurd rfl other⟩) fun a b d
      (same : Same Node.erase a b) kept => ?_
    refine .expect kept fun _ solid => ?_
    exact .done (solid (by simp)) (by simp [Same, Body.map, same])

theorem function_mirrored (kept : w.kinds.Kept c) :
    Mirrored w (Same Node.erase) (function bound) (function bound) c := by
  have bare : Ident.map (fun _ : Extent => ()) = (fun name => ⟨name, ()⟩) ∘ Ident.name := rfl
  refine .here (.expect kept fun _ solid => ?_)
  refine .bind (functionName_mirrored (solid (by simp))) fun x y d named kept => ?_
  refine .bind (params_mirrored kept) fun xs ys d listed kept => ?_
  refine .bind (functionBody_mirrored kept) fun a b d inner kept => ?_
  refine .spanning kept fun _ _ => ?_
  simp only [Same, erase_function, bare, ← Option.map_map, ← List.map_map, named, listed, inner]

end Rules

end Parser

namespace Rule

open Grammar.Parser in
/-- Every rule does on a row what it does on the collapsed row. -/
theorem parser_mirrored {w : Mirror} {rule : Rule} {c : Cursor} (opens : w.kinds.Opens rule c) :
    Mirrored w rule.Twins (rule.parser w.kinds.size) (rule.parser w.kinds.size) c := by
  obtain ⟨inside, kept⟩ := opens
  cases rule with
  | block => exact block_mirrored inside
  | statement => exact statement_mirrored (kept (by decide))
  | expression => exact expression_mirrored (kept (by decide))
  | comparison => exact comparison_mirrored (kept (by decide))
  | sum =>
    have first := kept (by decide)
    exact chain_mirrored (.read (first.opens .product)) fun _ later => .read (later.opens .product)
  | product =>
    have first := kept (by decide)
    exact chain_mirrored (.read (first.opens .signed)) fun _ later => .read (later.opens .signed)
  | signed => exact signed_mirrored (kept (by decide))
  | power =>
    have first := kept (by decide)
    exact chain_mirrored (.read (first.opens .application)) fun _ later =>
      .read (later.opens .signed)
  | application => exact application_mirrored (kept (by decide))
  | atom => exact atom_mirrored (kept (by decide))
  | listing => exact listing_mirrored (kept (by decide))
  | conditional => exact conditional_mirrored (kept (by decide))
  | forLoop => exact forLoop_mirrored (kept (by decide))
  | whileLoop => exact whileLoop_mirrored (kept (by decide))
  | function => exact function_mirrored (kept (by decide))
  | body => exact body_mirrored (kept (by decide))
  | closedBody => exact closedBody_mirrored (kept (by decide))

end Rule

end Sharp.Grammar

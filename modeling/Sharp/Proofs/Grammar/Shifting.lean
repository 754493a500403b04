import Sharp.Proofs.Grammar.Success
import Sharp.Proofs.Tree.Nodes

/-!
A row inside a longer one. Where the tokens of a row stand some way further on in another, rules
yield and note the same there, only so much further on. Loops are bounded by the lengths of the
rows, which differ; but a loop has nothing more to do at the end of the text and never gets to its
bound.
-/
namespace Sharp.Grammar

def Cursor.later (k : Nat) (c : Cursor) : Cursor := ⟨c.index + k⟩

def Extent.later (k : Nat) (extent : Extent) : Extent :=
  ⟨extent.first.later k, extent.last.later k⟩

def Tree.later (k : Nat) : Tree → Tree := Node.map (Extent.later k)

def SyntaxError.later (k : Nat) (error : SyntaxError) : SyntaxError :=
  ⟨error.error, error.cursor.later k⟩

def Event.later (k : Nat) : Event → Event
  | .rolledBack start consumed => .rolledBack (start.later k) consumed
  | .nestingLimit start depth => .nestingLimit (start.later k) depth

def Session.later (k : Nat) (s : Session) : Session :=
  { s with events := s.events.map (Event.later k) }

def Rule.later (k : Nat) : (rule : Rule) → rule.Value → rule.Value
  | .body, inner | .closedBody, inner => inner.map (Tree.later k)
  | .block, tree | .statement, tree | .expression, tree | .comparison, tree | .sum, tree
  | .product, tree | .signed, tree | .power, tree | .application, tree | .atom, tree
  | .listing, tree | .conditional, tree | .forLoop, tree | .whileLoop, tree
  | .function, tree => tree.later k

def Outcome.later {α : Type} (k : Nat) (move : α → α) : Outcome α → Outcome α
  | .ok parsed => .ok ⟨move parsed.value, parsed.cursor.later k⟩
  | .error error => .error (SyntaxError.later k error)

/-- An outcome and the session behind it, both `k` tokens further on. -/
def carry {α : Type} (k : Nat) (move : α → α) (ran : Outcome α × Session) : Outcome α × Session :=
  (ran.1.later k move, ran.2.later k)

section Places

variable {k : Nat} {c d : Cursor}

@[simp] theorem Cursor.later_next : c.next.later k = (c.later k).next :=
  congrArg Cursor.mk (Nat.add_right_comm _ _ _)

theorem Extent.later_join (a b : Extent) : (a.join b).later k = (a.later k).join (b.later k) := rfl

@[simp] theorem Extent.later_upTo : (upTo c d).later k = upTo (c.later k) (d.later k) := by
  simp only [upTo, later, Cursor.later, Cursor.max, Cursor.prev, Nat.max_def]
  congr 2
  split <;> split <;> omega

@[simp] theorem passedSince_later : (d.later k).passedSince (c.later k) = d.passedSince c :=
  Nat.add_sub_add_right _ _ _

theorem place_later (tree : Tree) : Node.place (tree.later k) = (Node.place tree).later k :=
  Node.place_map _ _

theorem later_block (place : Extent) (trees : List Tree) :
    Tree.later k (.block place trees) = .block (place.later k) (trees.map (Tree.later k)) :=
  Node.map_block _ _ _

theorem orExpected_later (error : SyntaxError) (expected : Complaint) :
    SyntaxError.later k (error.orExpected c fun _ => expected) =
      (SyntaxError.later k error).orExpected (c.later k) fun _ => expected := by
  simp only [Failure.orExpected, Failure.isImmediate, SyntaxError.later, passedSince_later]
  by_cases immediate : error.cursor.passedSince c == 0 <;> simp [immediate]

end Places

/-- A row with what calls do on it, and another one on which all that is found `shift` tokens
    further on. -/
structure Copy where
  kinds : Kinds
  runner : Runner
  shift : Nat
  copied : Kinds
  rerun : Runner
  kindAt : ∀ c, copied.kindAt (c.later shift) = kinds.kindAt c
  calls : ∀ rule c s, rerun rule (c.later shift) (s.later shift) =
    carry shift (rule.later shift) (runner rule c s)
  moves : ∀ rule c s, Moved kinds c (runner rule c s).1

namespace Parser

variable {α β σ : Type} {w : Copy}

/-- A description does on the first row what another one does on the copy. -/
def Shifts (w : Copy) (move : α → α) (p q : Parser α) (c : Cursor) : Prop :=
  ∀ s : Session, q.exec w.copied w.rerun (c.later w.shift) (s.later w.shift) =
    carry w.shift move (p.exec w.kinds w.runner c s)

namespace Shifts

variable {move : α → α} {moveNext : β → β} {p q : Parser α} {c : Cursor}

theorem bind {f g : α → Parser β} (first : Shifts w move p q c)
    (rest : ∀ value d, Shifts w moveNext (f value) (g (move value)) d) :
    Shifts w moveNext (p >>= f) (q >>= g) c := by
  intro s
  simp only [bind_eq, exec_bind, first s]
  rcases p.exec w.kinds w.runner c s with ⟨error | parsed, after⟩
  · rfl
  · exact rest parsed.value parsed.cursor after

theorem done {value moved : α} (same : move value = moved) :
    Shifts w move (.done value) (.done moved) c := by
  subst same
  exact fun _ => rfl

theorem here {f g : Cursor → Parser β} (rest : Shifts w moveNext (f c) (g (c.later w.shift)) c) :
    Shifts w moveNext (Parser.here >>= f) (Parser.here >>= g) c :=
  rest

theorem peek {f g : TokenKind → Parser β}
    (rest : Shifts w moveNext (f (w.kinds.kindAt c)) (g (w.kinds.kindAt c)) c) :
    Shifts w moveNext (Parser.peek >>= f) (Parser.peek >>= g) c := by
  intro s
  change (g (w.copied.kindAt (c.later w.shift))).exec _ _ _ _ = _
  rw [w.kindAt]
  exact rest s

theorem step {f g : Unit → Parser β} (rest : Shifts w moveNext (f ()) (g ()) c.next) :
    Shifts w moveNext (Parser.step >>= f) (Parser.step >>= g) c := by
  intro s
  have ran := rest s
  rw [Cursor.later_next] at ran
  exact ran

theorem spanning {start : Cursor} {build built : Extent → α}
    (same : ∀ extent, move (build extent) = built (extent.later w.shift)) :
    Shifts w move (Parser.spanning start build) (Parser.spanning (start.later w.shift) built)
      c := by
  intro s
  simp only [Parser.spanning, exec, carry, Outcome.later, same, Extent.later_upTo]

theorem fail (complaint : Complaint) :
    Shifts w move (Parser.fail complaint) (Parser.fail complaint) c :=
  fun _ => rfl

theorem read (rule : Rule) : Shifts w (rule.later w.shift) (.read rule) (.read rule) c := by
  intro s
  simp only [Parser.read, exec, w.calls]
  rcases w.runner rule c s with ⟨error | parsed, after⟩ <;> rfl

theorem attempt {rule : Rule} {next again : Except SyntaxError rule.Value → Parser α}
    (success : ∀ value d, Shifts w move (next (.ok value))
      (again (.ok (rule.later w.shift value))) d)
    (failure : ∀ error, Shifts w move (next (.error error))
      (again (.error (SyntaxError.later w.shift error))) c) :
    Shifts w move (.attempt rule next) (.attempt rule again) c := by
  intro s
  simp only [exec, w.calls]
  rcases w.runner rule c s with ⟨error | parsed, after⟩
  · exact failure error after
  · exact success parsed.value parsed.cursor after

theorem noting {event noted : Event} {f g : Unit → Parser β} (same : event.later w.shift = noted)
    (rest : Shifts w moveNext (f ()) (g ()) c) :
    Shifts w moveNext (Parser.noting event >>= f) (Parser.noting noted >>= g) c := by
  subst same
  intro s
  have ran := rest (s.note event)
  simp only [Session.later, Session.note, Array.map_push] at ran
  exact ran

theorem expecting (classes : List TokenClass) (inner : Shifts w move p q c) :
    Shifts w move (Parser.expecting classes p) (Parser.expecting classes q) c := by
  intro s
  simp only [Parser.expecting, exec, exec_mapError, inner s]
  rcases p.exec w.kinds w.runner c s with ⟨error | parsed, after⟩
  · simp only [carry, Outcome.later, Except.mapError, orExpected_later]
  · rfl

theorem expect (classes : List TokenClass) (wanted : TokenClass) :
    Shifts w id (Parser.expect classes wanted) (Parser.expect classes wanted) c := by
  refine peek ?_
  split
  · exact step (done rfl)
  · exact fail _

end Shifts

/-- A turn passes a token whenever it finds something, and finds nothing at the end of the text. -/
structure Turns (kinds : Kinds) (runner : Runner) (turn : σ → Parser (Option σ)) : Prop where
  passes : ∀ state c s next d after,
    (turn state).exec kinds runner c s = (.ok ⟨some next, d⟩, after) → c.index < d.index
  ends : ∀ state c s, kinds.kindAt c = .eof →
    (turn state).exec kinds runner c s = (.ok ⟨none, c⟩, s)

/-- No loop gets to its bound if that is long enough. -/
theorem Shifts.iterate {turn turned : σ → Parser (Option σ)} {move : σ → σ} {bound more : Nat}
    {state : σ} {c : Cursor} (turns : Turns w.kinds w.runner turn)
    (each : ∀ state d, Shifts w (Option.map move) (turn state) (turned (move state)) d)
    (enough : w.kinds.size ≤ c.index + bound) (also : w.kinds.size ≤ c.index + more) :
    Shifts w move (Parser.iterate turn bound state) (Parser.iterate turned more (move state))
      c := by
  have finished (ends : w.kinds.size ≤ c.index) (s : Session) :
      (turn state).exec w.kinds w.runner c s = (.ok ⟨none, c⟩, s) :=
    turns.ends state c s (Kinds.eof_of_size_le ends)
  intro s
  induction bound generalizing more state c s with
  | zero =>
    cases more with
    | zero => rfl
    | succ more =>
      simp only [Parser.iterate, exec_bind, each state c s, finished enough]
      rfl
  | succ bound ih =>
    cases more with
    | zero =>
      simp only [Parser.iterate, exec_bind, finished also]
      rfl
    | succ more =>
      simp only [Parser.iterate, exec_bind, each state c s]
      rcases ran : (turn state).exec w.kinds w.runner c s with ⟨error | ⟨_ | next, d⟩, after⟩
      · rfl
      · rfl
      · have passed := turns.passes state c s next d after ran
        exact ih (by omega) (by omega)
          (fun ends s => turns.ends next d s (Kinds.eof_of_size_le ends)) after

/-- No description goes back behind its start when it succeeds. -/
theorem exec_ahead {kinds : Kinds} {runner : Runner}
    (moves : ∀ rule c s, Moved kinds c (runner rule c s).1) (p : Parser α) {c d : Cursor}
    {s after : Session} {value : α} (ran : p.exec kinds runner c s = (.ok ⟨value, d⟩, after)) :
    c.index ≤ d.index := by
  induction p generalizing c s with
  | done =>
    cases ran
    exact Nat.le_refl _
  | raise => cases ran
  | look next ih => exact ih c (kinds.kindAt c) ran
  | advance next ih => exact Nat.le_of_succ_le (ih ran)
  | attempt rule next ih =>
    have moved := moves rule c s
    simp only [exec] at ran
    split at ran <;> rename_i answered <;> rw [answered] at moved
    · exact Nat.le_trans (Nat.le_of_lt moved.index_lt) (ih _ ran)
    · exact ih _ ran
  | note event next ih => exact ih ran

section Turns

variable {kinds : Kinds} {runner : Runner} {c d : Cursor} {s after : Session} {value : α}

theorem passes_step (moves : ∀ rule c s, Moved kinds c (runner rule c s).1) {f : Unit → Parser α}
    (ran : (step >>= f).exec kinds runner c s = (.ok ⟨value, d⟩, after)) : c.index < d.index :=
  exec_ahead moves (f ()) ran

theorem passes_bind (moves : ∀ rule c s, Moved kinds c (runner rule c s).1) {p : Parser α}
    {f : α → Parser β} {result : β}
    (first : ∀ value d after, p.exec kinds runner c s = (.ok ⟨value, d⟩, after) → c.index < d.index)
    (ran : (p >>= f).exec kinds runner c s = (.ok ⟨result, d⟩, after)) : c.index < d.index := by
  rw [bind_eq, exec_bind] at ran
  rcases begun : p.exec kinds runner c s with ⟨error | ⟨value, m⟩, between⟩ <;> rw [begun] at ran
  · cases ran
  · exact Nat.lt_of_lt_of_le (first value m between begun) (exec_ahead moves (f value) ran)

theorem passes_expect (moves : ∀ rule c s, Moved kinds c (runner rule c s).1)
    {classes : List TokenClass} {wanted : TokenClass} (value : Unit) (d : Cursor) (after : Session)
    (ran : (expect classes wanted).exec kinds runner c s = (.ok ⟨value, d⟩, after)) :
    c.index < d.index := by
  simp only [expect, bind_eq, peek, bind, exec] at ran
  split at ran
  · exact exec_ahead moves (.done ()) ran
  · cases ran

/-- Turns that decide by the token they stand on. -/
theorem Turns.of_peek {body : σ → TokenKind → Parser (Option σ)}
    (ends : ∀ state, body state .eof = .done none)
    (passes : ∀ state kind c s next d after,
      (body state kind).exec kinds runner c s = (.ok ⟨some next, d⟩, after) → c.index < d.index) :
    Turns kinds runner fun state => peek >>= body state := by
  constructor
  · exact fun state c s next d after ran => passes state _ c s next d after ran
  · intro state c s finished
    change (body state (kinds.kindAt c)).exec kinds runner c s = _
    rw [finished, ends]
    rfl

/-- Separators are passed one by one, and nothing else happens. -/
theorem newlines_walk (bound : Nat) (c : Cursor) :
    ∃ n, (newlines bound).walk kinds c = some ⟨n, ⟨c.index + n⟩⟩ ∧
      ∀ i < n, kinds.kindAt ⟨c.index + i⟩ = .newline := by
  let turn (n : Nat) : Parser (Option Nat) := do
    if isNewline (← peek) then
      step
      return some (n + 1)
    else return none
  have once (m : Nat) (c : Cursor) : (turn m).walk kinds c =
      if isNewline (kinds.kindAt c) then some ⟨some (m + 1), c.next⟩ else some ⟨none, c⟩ := by
    simp only [turn, bind_eq, peek, bind, walk]
    split <;> rfl
  have loop (bound m : Nat) (c : Cursor) :
      ∃ n, (iterate turn bound m).walk kinds c = some ⟨m + n, ⟨c.index + n⟩⟩ ∧
        ∀ i < n, kinds.kindAt ⟨c.index + i⟩ = .newline := by
    induction bound generalizing m c with
    | zero => exact ⟨0, rfl, fun i below => absurd below (Nat.not_lt_zero i)⟩
    | succ bound ih =>
      rw [iterate, walk_bind, once]
      cases separator : isNewline (kinds.kindAt c) with
      | false => exact ⟨0, rfl, fun i below => absurd below (Nat.not_lt_zero i)⟩
      | true =>
        obtain ⟨n, walked, passed⟩ := ih (m + 1) c.next
        refine ⟨n + 1, ?_, fun i before => ?_⟩
        · simpa [Nat.add_assoc, Nat.add_comm 1] using walked
        · cases i with
          | zero => exact isNewline_iff.1 separator
          | succ i =>
            have later := passed i (Nat.lt_of_succ_lt_succ before)
            rwa [Cursor.next_index, Nat.add_right_comm] at later
  obtain ⟨n, walked, passed⟩ := loop bound 0 c
  rw [Nat.zero_add] at walked
  exact ⟨n, walked, passed⟩

theorem newlines_exec (bound : Nat) (c : Cursor) (s : Session) :
    ∃ n, (newlines bound).exec kinds runner c s = (.ok ⟨n, ⟨c.index + n⟩⟩, s) ∧
      ∀ i < n, kinds.kindAt ⟨c.index + i⟩ = .newline := by
  obtain ⟨n, walked, passed⟩ := @newlines_walk kinds bound c
  exact ⟨n, exec_of_walk walked s, passed⟩

end Turns

section Rules

variable {bound more : Nat} {c start : Cursor} (enough : w.kinds.size ≤ bound)
  (also : w.kinds.size ≤ more)

theorem identifier_shifts :
    Shifts w (Ident.map (Extent.later w.shift)) identifier identifier c := by
  refine .peek ?_
  split
  · exact .here (.step (.done rfl))
  · exact .fail _

include enough also in
theorem newlines_shifts : Shifts w id (newlines bound) (newlines more) c := by
  refine .iterate (.of_peek (fun _ => rfl) fun n kind c s next d after ran => ?_)
    (fun n d => .peek ?_) (by omega) (by omega)
  · split at ran
    · exact passes_step w.moves ran
    · cases ran
  · split
    · exact .step (.done rfl)
    · exact .done rfl

include enough also in
theorem separated_shifts {move : α → α} {first item other another : Parser α}
    (head : Shifts w move first other c) (each : ∀ d, Shifts w move item another d) :
    Shifts w (List.map move) (separated bound first item) (separated more other another) c := by
  refine .bind head fun value d => .iterate (.of_peek (fun _ => rfl)
    fun items kind c s next d after ran => ?_) (fun items d => .peek ?_) (by omega) (by omega)
  · split at ran
    · exact passes_step w.moves ran
    · cases ran
  · split
    · exact .step (.bind (each _) fun value d => .done (by simp))
    · exact .done rfl

include enough also in
theorem enclosed_shifts {close : Symbol} :
    Shifts w (List.map (Tree.later w.shift)) (enclosed bound close) (enclosed more close) c := by
  refine .peek ?_
  split
  · exact .step (.done rfl)
  · refine .bind (separated_shifts enough also (.expecting _ (.read .expression))
      fun d => .read .expression) fun items d => ?_
    exact .bind (.expect _ _) fun _ _ => .done rfl

theorem operation_shifts {level : Level} {right other : Parser Tree} {left : Tree}
    (each : ∀ d, Shifts w (Tree.later w.shift) right other d) :
    Shifts w (Option.map (Tree.later w.shift)) (operation level right left)
      (operation level other (left.later w.shift)) c := by
  refine .peek ?_
  split
  · exact .done rfl
  · exact .step (.bind (each _) fun operand d => .done (by
      simp only [place_later, Option.map_some, ← Extent.later_join]; rfl))

include enough also in
theorem chain_shifts {level : Level} {left right head other : Parser Tree}
    (first : Shifts w (Tree.later w.shift) left head c)
    (each : ∀ d, Shifts w (Tree.later w.shift) right other d) :
    Shifts w (Tree.later w.shift) (chain bound level left right) (chain more level head other)
      c := by
  refine .bind first fun value d => .iterate (.of_peek (fun left => ?_)
    fun left kind c s next d after ran => ?_) (fun left d => operation_shifts each) (by omega)
    (by omega)
  · simp only [BinaryOp.atLevel?, BinaryOp.ofToken?]
    rfl
  · split at ran
    · cases ran
    · exact passes_step w.moves ran

/-- What is read behind separators lies behind them. -/
theorem further_turns : Turns w.kinds w.runner (further bound) := by
  constructor
  · intro statements c s next d after ran
    obtain ⟨n, passed, _⟩ := @newlines_exec w.kinds w.runner bound c s
    simp only [further, bind_eq, exec_bind, passed] at ran
    split at ran
    · cases ran
    · have ahead := exec_ahead w.moves _ ran
      simp only at ahead
      omega
  · intro statements c s finished
    obtain ⟨n, passed, separators⟩ := @newlines_exec w.kinds w.runner bound c s
    obtain rfl : n = 0 := Nat.eq_zero_of_not_pos fun some => by
      have separator := separators 0 some
      simp [finished] at separator
    simp only [further, bind_eq, exec_bind, passed]
    rfl

include enough also in
theorem further_shifts {statements : List Tree} :
    Shifts w (Option.map (List.map (Tree.later w.shift))) (further bound statements)
      (further more (statements.map (Tree.later w.shift))) c := by
  refine .bind (newlines_shifts enough also) fun n d => ?_
  rw [id]
  split
  · exact .done rfl
  · refine .here (.attempt (fun statement e => .done (by simp [Rule.later])) fun error => ?_)
    refine .noting ?_ (.done rfl)
    simp only [Event.later, SyntaxError.later, passedSince_later]

include enough also in
theorem block_shifts : Shifts w (Tree.later w.shift) (block bound) (block more) c := by
  refine .bind (newlines_shifts enough also) fun _ d => .bind (.read .statement) fun first e => ?_
  refine .bind (.iterate further_turns (fun _ _ => further_shifts enough also) (by omega)
    (by omega)) fun statements d => .here (.done ?_)
  have begins : Node.place (Tree.later w.shift first) = (Node.place first).later w.shift :=
    place_later first
  rw [Rule.later, begins]
  exact later_block _ statements

theorem statement_shifts : Shifts w (Tree.later w.shift) statement statement c := by
  refine .here (.peek ?_)
  split
  · exact .step (.attempt (fun value d => .spanning fun _ => rfl) fun _ => .spanning fun _ => rfl)
  · exact .step (.spanning fun _ => rfl)
  · exact .step (.spanning fun _ => rfl)
  · exact .expecting _ (.read .expression)

theorem body_shifts : Shifts w (Body.map (Tree.later w.shift)) body body c := by
  refine .peek ?_
  split
  · exact .step (.bind (.read .block) fun _ _ => .done rfl)
  · exact .bind (.read .statement) fun _ _ => .done rfl

theorem closedBody_shifts : Shifts w (Body.map (Tree.later w.shift)) closedBody closedBody c := by
  refine .bind (.read .body) fun inner d => ?_
  change Shifts w _ (if inner.isBlock then _ else _) (if inner.isBlock then _ else _) d
  split
  · exact .bind (.expect _ _) fun _ _ => .done rfl
  · exact .done rfl

include enough also in
theorem expression_shifts :
    Shifts w (Tree.later w.shift) (expression bound) (expression more) c := by
  refine .here (.peek ?_)
  split
  · refine .step (.bind identifier_shifts fun name d => .bind (.expect _ _) fun _ d => ?_)
    exact .bind (.read .expression) fun value e => .spanning fun _ => rfl
  · exact .expecting _ (chain_shifts enough also (.read .comparison) fun _ => .read .comparison)

include enough also in
theorem comparison_shifts :
    Shifts w (Tree.later w.shift) (comparison bound) (comparison more) c := by
  refine .here (.peek ?_)
  split
  · exact .step (.bind (.read .comparison) fun operand d => .spanning fun _ => rfl)
  · exact .expecting _ (chain_shifts enough also (.read .sum) fun _ => .read .sum)

theorem signed_shifts : Shifts w (Tree.later w.shift) signed signed c := by
  refine .here (.peek ?_)
  split
  · exact .step (.bind (.read .signed) fun operand d => .spanning fun _ => rfl)
  · exact .read .power

include enough also in
theorem application_shifts :
    Shifts w (Tree.later w.shift) (application bound) (application more) c := by
  refine .here (.bind (.read .atom) fun callee d => .peek ?_)
  split
  · refine .step (.bind (enclosed_shifts enough also) fun args e => ?_)
    exact .spanning fun extent => Node.map_call _ extent callee args
  · exact .done rfl

theorem leaf_shifts {build : Extent → Tree}
    (same : ∀ extent, (build extent).later w.shift = build (extent.later w.shift)) :
    Shifts w (Tree.later w.shift) (leaf build) (leaf build) c :=
  .here (.step (.spanning same))

theorem atom_shifts : Shifts w (Tree.later w.shift) atom atom c := by
  refine .peek ?_
  split
  · exact leaf_shifts fun _ => rfl
  · exact leaf_shifts fun _ => rfl
  · exact leaf_shifts fun _ => rfl
  · exact leaf_shifts fun _ => rfl
  · refine .step (.bind (.read .expression) fun inner d => ?_)
    exact .bind (.expect _ _) fun _ _ => .done rfl
  · exact .read .listing
  · exact .read .conditional
  · exact .read .forLoop
  · exact .read .whileLoop
  · exact .read .function
  · exact .fail _

include enough also in
theorem listing_shifts : Shifts w (Tree.later w.shift) (listing bound) (listing more) c := by
  refine .here (.bind (.expect _ _) fun _ d => ?_)
  refine .bind (enclosed_shifts enough also) fun items e => ?_
  exact .spanning fun extent => Node.map_list _ extent items

theorem clause_shifts {word : Keyword} :
    Shifts w (Clause.map (Tree.later w.shift)) (clause word) (clause word) c := by
  refine .bind (.expect _ _) fun _ d => .bind (.read .expression) fun condition d => ?_
  exact .bind (.expect _ _) fun _ d => .bind (.read .body) fun body d => .done rfl

theorem otherwise_shifts {clauses : List (Clause Tree)} :
    Shifts w (Option.map (Body.map (Tree.later w.shift))) (otherwise clauses)
      (otherwise (clauses.map (Clause.map (Tree.later w.shift)))) c := by
  have ends :
      endsInBlock (clauses.map (Clause.map (Tree.later w.shift))) = endsInBlock clauses := by
    simp only [endsInBlock, List.getLast?_map]
    cases clauses.getLast? <;> rfl
  refine .peek ?_
  rw [ends]
  split
  · exact .step (.done rfl)
  split
  · exact .step (.bind (.read .closedBody) fun _ _ => .done rfl)
  split
  · exact .fail _
  · exact .done rfl

include enough also in
theorem conditional_shifts :
    Shifts w (Tree.later w.shift) (conditional bound) (conditional more) c := by
  refine .here (.bind clause_shifts fun first d => .bind (.iterate (.of_peek (fun _ => rfl)
    fun clauses kind c s next d after ran => ?_) (fun clauses d => .peek ?_) (by omega) (by omega))
    fun clauses d => .bind otherwise_shifts fun last d => ?_)
  · split at ran
    · exact passes_bind w.moves (fun _ _ _ => passes_bind w.moves (passes_expect w.moves)) ran
    · cases ran
  · split
    · exact .bind clause_shifts fun another d => .done (by simp)
    · exact .done rfl
  · exact .spanning fun extent => Node.map_ifElse _ extent clauses last

theorem stride_shifts : Shifts w (Option.map (Tree.later w.shift)) stride stride c := by
  refine .peek ?_
  split
  · exact .step (.bind (.read .expression) fun _ _ => .done rfl)
  · exact .done rfl

theorem forLoop_shifts : Shifts w (Tree.later w.shift) forLoop forLoop c := by
  refine .here (.bind (.expect _ _) fun _ d => .bind identifier_shifts fun name d => ?_)
  refine .bind (.expect _ _) fun _ d => .bind (.read .expression) fun lower d => ?_
  refine .bind (.expect _ _) fun _ d => .bind (.read .expression) fun upper d => ?_
  refine .bind stride_shifts fun step d => .bind (.expect _ _) fun _ d => ?_
  refine .bind (.read .closedBody) fun body d => .spanning fun extent => ?_
  exact Node.map_forLoop _ extent name lower upper step body

theorem whileLoop_shifts : Shifts w (Tree.later w.shift) whileLoop whileLoop c := by
  refine .here (.bind (.expect _ _) fun _ d => .bind (.read .expression) fun condition d => ?_)
  refine .bind (.expect _ _) fun _ d => .bind (.read .closedBody) fun body d => ?_
  exact .spanning fun _ => rfl

theorem functionName_shifts :
    Shifts w (Option.map (Ident.map (Extent.later w.shift))) functionName functionName c := by
  refine .peek ?_
  split
  · exact .bind identifier_shifts fun _ _ => .bind (.expect _ _) fun _ _ => .done rfl
  · exact .bind (.expect _ _) fun _ _ => .done rfl

include enough also in
theorem params_shifts :
    Shifts w (List.map (Ident.map (Extent.later w.shift))) (params bound) (params more) c := by
  refine .peek ?_
  split
  · refine .bind (separated_shifts enough also identifier_shifts fun _ => identifier_shifts) ?_
    exact fun _ _ => .bind (.expect _ _) fun _ _ => .done rfl
  · exact .bind (.expect _ _) fun _ _ => .done rfl

theorem functionBody_shifts :
    Shifts w (Body.map (Tree.later w.shift)) functionBody functionBody c := by
  refine .peek ?_
  split
  · exact .step (.bind (.read .expression) fun _ _ => .done rfl)
  · refine .bind (.expect _ _) fun _ d => .bind (.read .block) fun node d => ?_
    exact .bind (.expect _ _) fun _ _ => .done rfl

include enough also in
theorem function_shifts : Shifts w (Tree.later w.shift) (function bound) (function more) c := by
  refine .here (.bind (.expect _ _) fun _ d => .bind functionName_shifts fun name d => ?_)
  refine .bind (params_shifts enough also) fun params d => ?_
  exact .bind functionBody_shifts fun body d => .spanning fun _ => rfl

end Rules

end Parser

open Grammar.Parser in
/-- Every rule does on a copy what it does on the row. -/
theorem Rule.parser_shifts {w : Copy} {bound more : Nat} (enough : w.kinds.size ≤ bound)
    (also : w.kinds.size ≤ more) (rule : Rule) (c : Cursor) :
    Shifts w (rule.later w.shift) (rule.parser bound) (rule.parser more) c := by
  cases rule with
  | block => exact block_shifts enough also
  | statement => exact statement_shifts
  | expression => exact expression_shifts enough also
  | comparison => exact comparison_shifts enough also
  | sum => exact chain_shifts enough also (.read .product) fun _ => .read .product
  | product => exact chain_shifts enough also (.read .signed) fun _ => .read .signed
  | signed => exact signed_shifts
  | power => exact chain_shifts enough also (.read .application) fun _ => .read .signed
  | application => exact application_shifts enough also
  | atom => exact atom_shifts
  | listing => exact listing_shifts enough also
  | conditional => exact conditional_shifts enough also
  | forLoop => exact forLoop_shifts
  | whileLoop => exact whileLoop_shifts
  | function => exact function_shifts enough also
  | body => exact body_shifts
  | closedBody => exact closedBody_shifts

section Runs

variable {kinds other : Kinds} {k : Nat} {limit : Limit}
  (same : ∀ c, other.kindAt (c.later k) = kinds.kindAt c) (longer : kinds.size ≤ other.size)

include same longer

theorem Rule.run_later (calls : Nat) (rule : Rule) (c : Cursor) (s : Session) :
    run other limit calls rule (c.later k) (s.later k) =
      carry k (rule.later k) (run kinds limit calls rule c s) := by
  have refused (rule : Rule) (c : Cursor) (s : Session) :
      refuse rule (c.later k) (s.later k) = carry k (rule.later k) (refuse rule c s) := by
    simp only [refuse, carry, Session.later, Session.note, Array.map_push]
    rfl
  induction calls generalizing rule c s with
  | zero => exact refused rule c s
  | succ calls ih =>
    let w : Copy := ⟨kinds, run kinds limit calls, k, other, run other limit calls, same, ih,
      run_moves calls⟩
    have body :
        Parser.Shifts w (rule.later k) (rule.parser kinds.size) (rule.parser other.size) c :=
      parser_shifts (Nat.le_refl _) longer rule c
    have level : (s.later k).depth = s.depth := rfl
    rw [run, run, level]
    split
    · split
      · have inside := body s.enter
        rw [show (s.enter).later k = (s.later k).enter from rfl] at inside
        simp only [w] at inside
        rw [inside]
        rfl
      · exact refused rule c s
    · exact body s

theorem Rule.answer_later (depth : Nat) (rule : Rule) (c : Cursor) :
    answer other limit depth rule (c.later k) =
      (answer kinds limit depth rule c).later k (rule.later k) := by
  have enough : rule.weight kinds c < enoughCalls other := by
    refine Nat.lt_of_lt_of_le (weight_lt_enoughCalls kinds rule c) ?_
    simp only [enoughCalls]
    omega
  have outcome := congrArg Prod.fst
    (@run_later _ _ k limit same longer (enoughCalls other) rule c ⟨depth, 0, #[]⟩)
  rw [run_outcome] at outcome
  rw [carry, run_eq_answer enough] at outcome
  exact outcome

end Runs

end Sharp.Grammar

import Sharp.Proofs.Grammar.Ledger
import Sharp.Proofs.Grammar.Shifting

/-!
Rules keep an account if those they call do. What a rule leaves unread behind a value it has given
up, or behind a block, nobody who called it can go on with: such a token is held back. Where none is
there is still room for whatever is met further on.
-/
namespace Sharp.Grammar

open Sharp.Grammar.Parser

/-- An expression begins so, and nothing that is already there can go on so. -/
def Barred (kind : TokenKind) : Prop := startsExpression kind = true ∧ resumes kind = false

section Tokens

variable {kind : TokenKind}

theorem Barred.starts (barred : Barred kind) : startsStatement kind = true :=
  startsStatement_of_startsExpression barred.1

theorem Barred.not_openRound (barred : Barred kind) : isSymbol kind .openRound = false :=
  (Bool.or_eq_false_iff.1 barred.2).1

theorem Barred.atLevel (barred : Barred kind) (level : Level) :
    BinaryOp.atLevel? level kind = none := by
  cases found : BinaryOp.atLevel? level kind with
  | none => rfl
  | some op =>
    obtain ⟨rfl, _⟩ := BinaryOp.atLevel?_eq_some_iff.1 found
    obtain ⟨_, sign⟩ := level_of_startsExpression barred.1
    have other := (Bool.or_eq_false_iff.1 barred.2).2
    simp [sign] at other

/-- No statement begins with a token of the class. -/
def Seals (wanted : TokenClass) : Prop :=
  ∀ kind, wanted.admits kind = true → startsStatement kind = false

theorem seals_keyword {word : Keyword} (other : startsStatement (.keyword word) = false) :
    Seals (.keyword word) := by
  intro kind admits
  rwa [admits_keyword.1 admits]

theorem seals_symbol {sign : Symbol} (other : startsStatement (.symbol sign) = false) :
    Seals (.symbol sign) := by
  intro kind admits
  rwa [admits_symbol.1 admits]

theorem seals_newline : Seals .newline := by
  intro kind admits
  rw [admits_newline.1 admits]
  rfl

theorem Seals.refuses {wanted : TokenClass} (seals : Seals wanted)
    (starts : startsStatement kind = true) : wanted.admits kind = false := by
  cases admits : wanted.admits kind with
  | false => rfl
  | true => exact absurd ((seals kind admits).symm.trans starts) nofun

end Tokens

/-- What is held back behind a body, which may be a block or one statement. -/
def heldBehind (body : Body Tree) (kind : TokenKind) : Prop :=
  if body.isBlock then startsStatement kind = true else Barred kind

/-- Tokens behind what a rule yields that nobody who called it can go on with. -/
def Rule.held : (rule : Rule) → rule.Value → TokenKind → Prop
  | .block, _, kind => startsStatement kind = true
  | .body, inner, kind => heldBehind inner kind
  | _, _, kind => Barred kind

/-- A row with what calls do on it if that can be accounted for. -/
structure Thrift extends Ledger where
  recorder : Recorder
  frugal : ∀ rule c, Frugal toLedger rule.held c (recorder.call rule c)
  mute : ∀ rule ∈ [Rule.statement, .expression], ∀ c, rule.starts (kinds.kindAt c) = false →
    Mute toLedger (recorder.call rule c)

namespace Parser

variable {α β σ : Type} {w : Thrift}

/-- Behind most rules a barred token is held back. -/
def barred (_ : α) (kind : TokenKind) : Prop := Barred kind

/-- Behind the statements of a block every token is that a statement begins with. -/
def fenced (_ : α) (kind : TokenKind) : Prop := startsStatement kind = true

/-- Nothing is held back. -/
def free (_ : α) (_ : TokenKind) : Prop := False

def Frugally (w : Thrift) (held : α → TokenKind → Prop) (p : Parser α) (c : Cursor) : Prop :=
  Frugal w.toLedger held c (p.record w.kinds w.recorder c)

/-- Nothing is done at the token: it is an error, or what is there already is handed on. -/
def Idles (w : Thrift) (held : α → TokenKind → Prop) (p : Parser α) (c : Cursor) : Prop :=
  (∃ error, p.record w.kinds w.recorder c = (.error error, .nil)) ∨
    ∃ value, p.record w.kinds w.recorder c = (.ok ⟨value, c⟩, .nil) ∧
      held value (w.kinds.kindAt c)

namespace Idles

variable {held : α → TokenKind → Prop} {heldNext : β → TokenKind → Prop} {p : Parser α}
  {c : Cursor}

theorem bind {f : α → Parser β} (first : Idles w held p c)
    (rest : ∀ value, held value (w.kinds.kindAt c) → Idles w heldNext (f value) c) :
    Idles w heldNext (p >>= f) c := by
  unfold Idles
  rw [record_bind]
  rcases first with ⟨error, fails⟩ | ⟨value, stays, still⟩
  · rw [fails]
    exact .inl ⟨error, rfl⟩
  · rw [stays]
    exact rest value still

theorem done {value : α} (still : held value (w.kinds.kindAt c)) : Idles w held (.done value) c :=
  .inr ⟨value, rfl, still⟩

theorem spanning {start : Cursor} {build : Extent → α}
    (still : ∀ value, held value (w.kinds.kindAt c)) :
    Idles w held (Parser.spanning start build) c :=
  .inr ⟨_, rfl, still _⟩

theorem fail (complaint : Complaint) : Idles w held (Parser.fail complaint) c :=
  .inl ⟨_, rfl⟩

theorem here {f : Cursor → Parser β} (rest : Idles w heldNext (f c) c) :
    Idles w heldNext (Parser.here >>= f) c :=
  rest

theorem peek {f : TokenKind → Parser β} (rest : Idles w heldNext (f (w.kinds.kindAt c)) c) :
    Idles w heldNext (Parser.peek >>= f) c :=
  rest

theorem expect {others : List TokenClass} {wanted : TokenClass} {f : Unit → Parser β}
    (refuses : wanted.admits (w.kinds.kindAt c) = false) :
    Idles w heldNext (Parser.expect others wanted >>= f) c := by
  refine .inl ⟨⟨.expected (others ++ [wanted]), c⟩, ?_⟩
  simp only [Parser.expect, bind_eq, Parser.peek, Parser.bind, record, refuses]
  rfl

theorem iterate {turn : σ → Parser (Option σ)} {held : σ → TokenKind → Prop} {bound : Nat}
    {state : σ} (each : Idles w (fun result _ => result = none) (turn state) c)
    (still : held state (w.kinds.kindAt c)) : Idles w held (Parser.iterate turn bound state) c := by
  cases bound with
  | zero => exact done still
  | succ bound =>
    refine each.bind fun result nothing => ?_
    rw [nothing]
    exact done still

end Idles

namespace Frugally

variable {held : α → TokenKind → Prop} {heldNext : β → TokenKind → Prop} {p : Parser α}
  {c : Cursor}

/-- A second part either has an account of its own to add or nothing left to do. -/
theorem bind {f : α → Parser β} (first : Frugally w held p c)
    (rest : ∀ value d, Frugally w heldNext (f value) d)
    (idle : ∀ value d, held value (w.kinds.kindAt d) → Idles w heldNext (f value) d) :
    Frugally w heldNext (p >>= f) c := by
  intro confined
  rw [record_bind] at confined ⊢
  have account := first
  unfold Frugally at account
  rcases ran : p.record w.kinds w.recorder c with ⟨error | ⟨value, d⟩, front⟩ <;>
    rw [ran] at confined account
  · exact (account confined).fail
  · obtain ⟨here, further⟩ := Ledger.confined_append.1 confined
    obtain ⟨separated, bounded, ahead, settles⟩ := account here
    rcases settles _ rfl with settled | barred
    · exact .goOn separated settled (ahead _ rfl) (rest value d further)
    · rcases idle value d barred with ⟨error, fails⟩ | ⟨result, stays, still⟩
      · simp only [goOn, fails, Record.before, Record.append_nil]
        exact (account here).fail
      · simp only [goOn, stays, Record.before, Record.append_nil]
        exact (account here).handOn fun _ => still

theorem mono {weaker : α → TokenKind → Prop} (frugal : Frugally w held p c)
    (weaken : ∀ value kind, held value kind → weaker value kind) : Frugally w weaker p c :=
  fun confined => (frugal confined).mono weaken

theorem done (value : α) : Frugally w held (.done value) c := fun _ => .stay (Nat.le_refl _)

theorem spanning (start : Cursor) (build : Extent → α) :
    Frugally w held (Parser.spanning start build) c :=
  done _

theorem wrap {start : Cursor} {build : α → Extent → β} (frugal : Frugally w barred p c) :
    Frugally w barred (p >>= fun value => Parser.spanning start (build value)) c :=
  frugal.bind (fun _ _ => done _) fun _ _ still => .spanning fun _ => still

theorem handOn {f : α → β} (frugal : Frugally w barred p c) :
    Frugally w barred (p >>= fun value => .done (f value)) c :=
  frugal.bind (fun _ _ => done _) fun _ _ still => .done still

theorem fail (complaint : Complaint) : Frugally w held (Parser.fail complaint) c :=
  fun _ => .fails

theorem here {f : Cursor → Parser β} (rest : Frugally w heldNext (f c) c) :
    Frugally w heldNext (Parser.here >>= f) c :=
  rest

theorem peek {f : TokenKind → Parser β} (rest : Frugally w heldNext (f (w.kinds.kindAt c)) c) :
    Frugally w heldNext (Parser.peek >>= f) c :=
  rest

theorem step {f : Unit → Parser β} (rest : Frugally w heldNext (f ()) c.next) :
    Frugally w heldNext (Parser.step >>= f) c :=
  fun confined => (rest confined).widen (Nat.le_succ _)

theorem expect {others : List TokenClass} {wanted : TokenClass} {f : Unit → Parser β}
    (rest : Frugally w heldNext (f ()) c.next) :
    Frugally w heldNext (Parser.expect others wanted >>= f) c := by
  simp only [Parser.expect, bind_eq, bind_bind]
  refine peek ?_
  split
  · exact step rest
  · exact fun _ => .fails

theorem read (rule : Rule) : Frugally w rule.held (.read rule) c := by
  have account := w.frugal rule c
  unfold Frugally
  simp only [Parser.read, record]
  rcases called : w.recorder.call rule c with ⟨error | parsed, call⟩ <;> rw [called] at account
  · simpa [Record.before, ofExcept, record] using account
  · simpa [Record.before, ofExcept, record] using account

theorem expecting (classes : List TokenClass) (frugal : Frugally w held p c) :
    Frugally w held (Parser.expecting classes p) c := by
  unfold Frugally at frugal ⊢
  simp only [Parser.expecting, record, record_mapError]
  rcases ran : p.record w.kinds w.recorder c with ⟨error | parsed, front⟩ <;> rw [ran] at frugal
  · exact fun confined => (frugal confined).fail
  · exact frugal

/-- An expression up to a token that no statement begins with. -/
theorem readUpTo {others : List TokenClass} {wanted : TokenClass} {f : Tree → Unit → Parser β}
    (seals : Seals wanted) (rest : ∀ value d, Frugally w heldNext (f value ()) d) :
    Frugally w heldNext (.read .expression >>= fun value => Parser.expect others wanted >>= f value)
      c :=
  .bind (.read .expression) (fun value _ => .expect (rest value _)) fun _ _ held =>
    .expect (seals.refuses (Barred.starts held))

/-- Turn by turn, until a turn has nothing to do where the one before it stopped. -/
theorem iterate {turn : σ → Parser (Option σ)} {held : σ → TokenKind → Prop}
    (each : ∀ state d,
      Frugally w (fun result kind => held (result.getD state) kind) (turn state) d)
    (idle : ∀ state d, held state (w.kinds.kindAt d) →
      Idles w (fun result _ => result = none) (turn state) d)
    (bound : Nat) (state : σ) : Frugally w held (Parser.iterate turn bound state) c := by
  induction bound generalizing state c with
  | zero => exact done state
  | succ bound ih =>
    refine bind (each state c) (fun result d => ?_) fun result d barred => ?_
    · cases result with
      | none => exact done state
      | some changed => exact ih changed
    · cases result with
      | none => exact .done barred
      | some changed => exact .iterate (idle changed d barred) barred

end Frugally

section Rules

variable {bound : Nat} {c : Cursor}

theorem identifier_frugal : Frugally w free identifier c := by
  refine .peek ?_
  split
  · exact .here (.step (.done _))
  · exact .fail _

theorem newlines_record (bound : Nat) (c : Cursor) :
    ∃ n, (newlines bound).record w.kinds w.recorder c = (.ok ⟨n, ⟨c.index + n⟩⟩, .nil) ∧
      ∀ i < n, w.kinds.kindAt ⟨c.index + i⟩ = .newline := by
  obtain ⟨n, walked, passed⟩ := @newlines_walk w.kinds bound c
  exact ⟨n, record_of_walk walked, passed⟩

theorem newlines_frugal : Frugally w free (newlines bound) c := by
  obtain ⟨n, passed, _⟩ := @newlines_record w bound c
  rw [Frugally, passed]
  exact fun _ => .stay (Nat.le_add_right _ _)

theorem separated_frugal {first item : Parser α} (head : Frugally w barred first c)
    (each : ∀ d, Frugally w barred item d) : Frugally w barred (separated bound first item) c := by
  have comma {kind : TokenKind} (held : Barred kind) : isSymbol kind .comma = false :=
    (seals_symbol rfl).refuses held.starts
  have idle (items : List α) (d : Cursor) (held : Barred (w.kinds.kindAt d)) :
      Idles w (fun result _ => result = none) (do
        if isSymbol (← peek) .comma then
          step
          let another ← item
          return some (items ++ [another])
        else return none) d := by
    refine .peek ?_
    rw [comma held]
    exact .done rfl
  refine .bind head (fun value d => .iterate (fun items d => .peek ?_) idle _ _)
    fun value d held => .iterate (idle _ d held) held
  split
  · exact .step (each _).handOn
  · exact .done _

theorem enclosed_frugal {close : Symbol} (seals : Seals (.symbol close)) :
    Frugally w free (enclosed bound close) c := by
  refine .peek ?_
  split
  · exact .step (.done _)
  · refine .bind (separated_frugal (.expecting _ (.read .expression)) fun _ => .read .expression)
      (fun _ _ => .expect (.done _)) fun _ _ held => ?_
    exact .expect (seals.refuses (Barred.starts held))

theorem chain_frugal {level : Level} {left right : Parser Tree} (head : Frugally w barred left c)
    (operand : ∀ d, Frugally w barred right d) :
    Frugally w barred (chain bound level left right) c := by
  have idle (value : Tree) (d : Cursor) (held : Barred (w.kinds.kindAt d)) :
      Idles w (fun result _ => result = none) (operation level right value) d := by
    refine .peek ?_
    rw [held.atLevel]
    exact .done rfl
  refine .bind head (fun value d => .iterate (fun value d => .peek ?_) idle _ _)
    fun value d held => .iterate (idle value d held) held
  split
  · exact .done _
  · exact .step (operand _).handOn

theorem further_frugal {statements : List Tree} :
    Frugally w fenced (further bound statements) c := by
  obtain ⟨n, passed, separators⟩ := @newlines_record w bound c
  unfold Frugally
  simp only [further, record_bind, passed, goOn, Record.nil_before]
  split
  · exact fun _ => .stay (Nat.le_add_right _ _)
  · rename_i some
    obtain ⟨before, rfl⟩ := Nat.exists_eq_succ_of_ne_zero some
    let start : Cursor := ⟨c.index + before.succ⟩
    have later : c.index < start.index := Nat.lt_add_of_pos_right (Nat.succ_pos before)
    have separator : w.kinds.kindAt start.prev = .newline := separators before (Nat.lt_succ_self _)
    have frugal := w.frugal .statement start
    have silent := w.mute .statement (by simp) start
    change Frugal _ _ _ ((Parser.attempt .statement _).record w.kinds w.recorder start)
    simp only [record]
    rcases called : w.recorder.call .statement start with ⟨error | ⟨statement, d⟩, call⟩ <;>
      rw [called] at frugal silent
    · change Frugal _ _ _ (.ok ⟨none, start⟩, call ++ .noted (.rolledBack start _) .nil)
      intro confined
      refine (frugal (Ledger.confined_append.1 confined).1).rollBack later separator ?_
      cases starts : startsStatement (w.kinds.kindAt start) with
      | true => exact .inl starts
      | false => exact .inr (silent starts).2
    · change Frugal _ _ _ (.ok ⟨_, d⟩, call ++ .nil)
      rw [Record.append_nil]
      exact fun confined => ((frugal confined).widen (Nat.le_of_lt later)).handOn Barred.starts

theorem further_idles {statements : List Tree}
    (starts : startsStatement (w.kinds.kindAt c) = true) :
    Idles w (fun result _ => result = none) (further bound statements) c := by
  have none : Idles w (fun n _ => n = 0) (newlines bound) c := by
    obtain ⟨n, passed, separators⟩ := @newlines_record w bound c
    cases n with
    | zero => exact .inr ⟨0, passed, rfl⟩
    | succ n =>
      have other := seals_newline.refuses starts
      rw [show w.kinds.kindAt c = .newline from separators 0 (Nat.succ_pos n)] at other
      cases other
  refine none.bind fun n passed => ?_
  rw [if_pos passed]
  exact .done rfl

theorem block_frugal : Frugally w fenced (block bound) c := by
  refine .bind newlines_frugal (fun _ d => ?_) nofun
  refine .bind (.read .statement) (fun first d => ?_) fun first d held => ?_
  · refine .bind (.iterate (fun _ _ => further_frugal) (fun _ _ => further_idles) _ _)
      (fun statements d => .here (.done _)) fun statements d starts => .here (.done starts)
  · have starts := Barred.starts held
    exact .bind (.iterate (further_idles starts) starts)
      fun statements starts => .here (.done starts)

/-- A value that is given up is taken out, or there is room to read it once more, or its first
    token is barred. -/
theorem returned_frugal {start : Cursor} (found : w.kinds.kindAt c = .keyword .return) :
    Frugal w.toLedger barred c
      (((returned start).record w.kinds w.recorder c).called .statement c) := by
  have ahead : c.index ≤ c.next.index := Nat.le_succ _
  have frugal := w.frugal .expression c.next
  have silent := w.mute .expression (by simp) c.next
  change Frugal _ _ _
    (Recorded.called _ _ ((Parser.attempt .expression _).record w.kinds w.recorder c.next))
  simp only [record, Recorder.call] at frugal silent ⊢
  rcases ran : w.recorder .expression c.next with ⟨error | ⟨value, d⟩, tried⟩ <;>
    rw [ran] at frugal silent
  · let call : Record := .called .expression c.next true tried .nil
    change Frugal _ _ _ (.ok ⟨_, c.next⟩, .called .statement c false call .nil)
    cases other : resumes (w.kinds.kindAt c.next) with
    | true =>
      have isVain : call.vain w.kinds .statement c = true :=
        Record.vain_eq_true.2 ⟨rfl, found, other, tried, rfl⟩
      cases isOut : w.out c.next with
      | true =>
        refine fun _ => .quiet (fun place => Ledger.tally_out isVain isOut) fun _ same => ?_
        cases same
        exact ahead
      | false =>
        intro confined
        obtain ⟨allowed, inside⟩ := (Ledger.confined_vain isVain isOut).1 confined
        exact (frugal inside).tried isVain isOut allowed
    | false =>
      have plain : call.vain w.kinds .statement c = false := by
        refine Bool.eq_false_iff.2 fun isVain => ?_
        obtain ⟨_, _, same, _⟩ := Record.vain_eq_true.1 isVain
        exact Bool.noConfusion (other.symm.trans same)
      change Frugal _ _ _ (Recorded.called .statement c (.ok ⟨_, c.next⟩, call))
      refine Frugal.called plain fun confined => Account.widen ?_ ahead
      cases starts : startsExpression (w.kinds.kindAt c.next) with
      | true => exact (frugal confined).giveUp ⟨starts, other⟩
      | false =>
        refine .quiet (silent starts).2 fun _ same => ?_
        cases same
        exact Nat.le_refl _
  · change Frugal _ _ _ (Recorded.called _ _
      (.ok ⟨_, d⟩, .called .expression c.next false tried .nil))
    exact Frugal.called rfl fun confined =>
      ((frugal confined).widen ahead).handOn fun held => held

theorem statement_frugal (other : w.kinds.kindAt c ≠ .keyword .return) :
    Frugally w barred statement c := by
  refine .here (.peek ?_)
  split
  · exact absurd ‹_› other
  · exact .step (.spanning _ _)
  · exact .step (.spanning _ _)
  · exact .expecting _ (.read .expression)

theorem body_frugal : Frugally w heldBehind body c := by
  refine .peek ?_
  split
  · exact .step (.bind (.read .block) (fun _ _ => .done _) fun _ _ starts => .done starts)
  · exact .bind (.read .statement) (fun _ _ => .done _) fun _ _ held => .done held

theorem closedBody_frugal : Frugally w barred closedBody c := by
  refine .bind (.read .body) (fun body d => ?_) fun body d held => ?_
  · split
    · exact .expect (.done _)
    · exact .done _
  · simp only [Rule.held, heldBehind] at held
    split
    · rename_i isBlock
      rw [if_pos isBlock] at held
      exact .expect ((seals_keyword rfl).refuses held)
    · rename_i inline
      rw [if_neg inline] at held
      exact .done held

theorem expression_frugal : Frugally w barred (expression bound) c := by
  refine .here (.peek ?_)
  split
  · refine .step (.bind identifier_frugal (fun name d => .expect ?_) nofun)
    exact .wrap (.read .expression)
  · exact .expecting _ (chain_frugal (.read .comparison) fun _ => .read .comparison)

theorem comparison_frugal : Frugally w barred (comparison bound) c := by
  refine .here (.peek ?_)
  split
  · exact .step (.wrap (.read .comparison))
  · exact .expecting _ (chain_frugal (.read .sum) fun _ => .read .sum)

theorem signed_frugal : Frugally w barred signed c := by
  refine .here (.peek ?_)
  split
  · exact .step (.wrap (.read .signed))
  · exact .read .power

theorem application_frugal : Frugally w barred (application bound) c := by
  refine .here (.bind (.read .atom) (fun callee d => .peek ?_) fun callee d held => .peek ?_)
  · split
    · exact .step (.bind (enclosed_frugal (seals_symbol rfl)) (fun _ _ => .spanning _ _) nofun)
    · exact .done _
  · rw [Barred.not_openRound held]
    exact .done held

theorem leaf_frugal {build : Extent → Tree} : Frugally w barred (leaf build) c :=
  .here (.step (.spanning _ _))

theorem atom_frugal : Frugally w barred atom c := by
  refine .peek ?_
  split
  · exact leaf_frugal
  · exact leaf_frugal
  · exact leaf_frugal
  · exact leaf_frugal
  · exact .step (.readUpTo (seals_symbol rfl) fun _ _ => .done _)
  · exact .read .listing
  · exact .read .conditional
  · exact .read .forLoop
  · exact .read .whileLoop
  · exact .read .function
  · exact .fail _

theorem listing_frugal : Frugally w barred (listing bound) c :=
  .here (.expect (.bind (enclosed_frugal (seals_symbol rfl)) (fun _ _ => .spanning _ _) nofun))

theorem clause_frugal {word : Keyword} :
    Frugally w (fun clause kind => heldBehind clause.body kind) (clause word) c := by
  refine .expect (.readUpTo (seals_keyword rfl) fun condition d => ?_)
  exact .bind (.read .body) (fun _ _ => .done _) fun _ _ held => .done held

/-- What is held back behind the last of several clauses. -/
def heldBehindLast (clauses : List (Clause Tree)) (kind : TokenKind) : Prop :=
  if endsInBlock clauses then startsStatement kind = true else Barred kind

theorem heldBehindLast.starts {clauses : List (Clause Tree)} {kind : TokenKind}
    (held : heldBehindLast clauses kind) : startsStatement kind = true := by
  unfold heldBehindLast at held
  split at held
  · exact held
  · exact Barred.starts held

theorem otherwise_frugal {clauses : List (Clause Tree)} :
    Frugally w barred (otherwise clauses) c := by
  refine .peek ?_
  split
  · exact .step (.done _)
  split
  · exact .step (.handOn (.read .closedBody))
  split
  · exact .fail _
  · exact .done _

theorem otherwise_idles {clauses : List (Clause Tree)}
    (held : heldBehindLast clauses (w.kinds.kindAt c)) :
    Idles w barred (otherwise clauses) c := by
  have noEnd : isKeyword (w.kinds.kindAt c) .end = false := (seals_keyword rfl).refuses held.starts
  have noElse : isKeyword (w.kinds.kindAt c) .else = false :=
    (seals_keyword rfl).refuses held.starts
  refine .peek ?_
  simp only [noEnd, noElse, Bool.and_false, Bool.false_eq_true, if_false]
  unfold heldBehindLast at held
  split
  · exact .fail _
  · rename_i inline
    rw [if_neg inline] at held
    exact .done held

theorem conditional_frugal : Frugally w barred (conditional bound) c := by
  have idle (clauses : List (Clause Tree)) (d : Cursor)
      (held : heldBehindLast clauses (w.kinds.kindAt d)) :
      Idles w (fun result _ => result = none) (furtherClause clauses) d := by
    have noElif : isKeyword (w.kinds.kindAt d) .elif = false :=
      (seals_keyword rfl).refuses held.starts
    refine .peek ?_
    rw [noElif]
    exact .done rfl
  have each (clauses : List (Clause Tree)) (d : Cursor) :
      Frugally w (fun result kind => heldBehindLast (result.getD clauses) kind)
        (furtherClause clauses) d := by
    refine .peek ?_
    split
    · refine .bind clause_frugal (fun _ _ => .done _) fun another d held => .done ?_
      simpa [heldBehindLast, endsInBlock, heldBehind] using held
    · exact .done _
  refine .here (.bind clause_frugal (fun first d => ?_) fun first d held => ?_)
  · refine .bind (.iterate each idle _ _) (fun clauses d => ?_) fun clauses d held => ?_
    · exact .wrap otherwise_frugal
    · exact (otherwise_idles held).bind fun _ held => .spanning fun _ => held
  · have last : heldBehindLast [first] (w.kinds.kindAt d) := held
    refine .bind (.iterate (idle [first] d last) last) fun clauses held => ?_
    exact (otherwise_idles held).bind fun _ held => .spanning fun _ => held

theorem stride_frugal : Frugally w barred stride c := by
  refine .peek ?_
  split
  · exact .step (.handOn (.read .expression))
  · exact .done _

theorem stride_idles (held : Barred (w.kinds.kindAt c)) : Idles w barred stride c := by
  have noStep : isKeyword (w.kinds.kindAt c) .step = false :=
    (seals_keyword rfl).refuses held.starts
  refine .peek ?_
  rw [noStep]
  exact .done held

theorem forLoop_frugal : Frugally w barred forLoop c := by
  refine .here (.expect (.bind identifier_frugal (fun name d => .expect ?_) nofun))
  refine .readUpTo (seals_keyword rfl) fun lower d => .bind (.read .expression) ?_ ?_
  · refine fun upper d => .bind stride_frugal (fun step d => .expect ?_) fun _ _ held => ?_
    · exact .wrap (.read .closedBody)
    · exact .expect ((seals_keyword rfl).refuses (Barred.starts held))
  · exact fun upper d held => (stride_idles held).bind fun _ held =>
      .expect ((seals_keyword rfl).refuses (Barred.starts held))

theorem whileLoop_frugal : Frugally w barred whileLoop c := by
  refine .here (.expect (.readUpTo (seals_keyword rfl) fun condition d => ?_))
  exact .wrap (.read .closedBody)

theorem functionName_frugal : Frugally w free functionName c := by
  refine .peek ?_
  split
  · exact .bind identifier_frugal (fun _ _ => .expect (.done _)) nofun
  · exact .expect (.done _)

theorem params_frugal : Frugally w free (params bound) c := by
  refine .peek ?_
  split
  · have name {d : Cursor} : Frugally w barred identifier d := identifier_frugal.mono nofun
    refine .bind (separated_frugal name fun _ => name) (fun _ _ => .expect (.done _)) ?_
    exact fun _ _ held => .expect ((seals_symbol rfl).refuses (Barred.starts held))
  · exact .expect (.done _)

theorem functionBody_frugal : Frugally w barred functionBody c := by
  refine .peek ?_
  split
  · exact .step (.handOn (.read .expression))
  · refine .expect (.bind (.read .block) (fun _ _ => .expect (.done _)) fun _ _ starts => ?_)
    exact .expect ((seals_keyword rfl).refuses starts)

theorem function_frugal : Frugally w barred (function bound) c := by
  refine .here (.expect (.bind functionName_frugal (fun name d => ?_) nofun))
  refine .bind params_frugal (fun params d => ?_) nofun
  exact .wrap functionBody_frugal

theorem program_frugal : Frugally w barred program c := by
  refine .bind (.read .block) (fun tree d => .peek ?_) fun tree d starts => .peek ?_
  · split
    · exact .done _
    · exact .fail _
  · split
    · rename_i finished
      rw [finished] at starts
      cases starts
    · exact .fail _

end Rules

end Parser

theorem Record.vain_of_ne {kinds : Kinds} {rule : Rule} {c : Cursor} {inside : Record}
    (other : rule ≠ .statement) : inside.vain kinds rule c = false :=
  Bool.eq_false_iff.2 fun isVain => other (vain_eq_true.1 isVain).1

theorem Parser.statement_call_frugal (w : Thrift) (c : Cursor) :
    Frugal w.toLedger barred c ((statement.record w.kinds w.recorder c).called .statement c) := by
  by_cases found : w.kinds.kindAt c = .keyword .return
  · have same : statement.record w.kinds w.recorder c =
        (returned c).record w.kinds w.recorder c := by
      simp only [statement, bind_eq, here, peek, Parser.bind, record, found]
    rw [same]
    exact returned_frugal found
  · refine Frugal.called (Bool.eq_false_iff.2 fun isVain => ?_) (statement_frugal found)
    exact found (Record.vain_eq_true.1 isVain).2.1

open Grammar.Parser in
/-- Every rule keeps an account if those it calls do. -/
theorem Rule.parser_frugal (w : Thrift) (rule : Rule) (bound : Nat) (c : Cursor) :
    Frugal w.toLedger rule.held c
      (((rule.parser bound).record w.kinds w.recorder c).called rule c) := by
  have plain {rule : Rule} (other : rule ≠ .statement)
      (frugal : Frugally w rule.held (rule.parser bound) c) : Frugal w.toLedger rule.held c
        (((rule.parser bound).record w.kinds w.recorder c).called rule c) :=
    Frugal.called (Record.vain_of_ne other) frugal
  cases rule with
  | block => exact plain (by decide) block_frugal
  | statement => exact statement_call_frugal w c
  | expression => exact plain (by decide) expression_frugal
  | comparison => exact plain (by decide) comparison_frugal
  | sum => exact plain (by decide) (chain_frugal (.read .product) fun _ => .read .product)
  | product => exact plain (by decide) (chain_frugal (.read .signed) fun _ => .read .signed)
  | signed => exact plain (by decide) signed_frugal
  | power => exact plain (by decide) (chain_frugal (.read .application) fun _ => .read .signed)
  | application => exact plain (by decide) application_frugal
  | atom => exact plain (by decide) atom_frugal
  | listing => exact plain (by decide) listing_frugal
  | conditional => exact plain (by decide) conditional_frugal
  | forLoop => exact plain (by decide) forLoop_frugal
  | whileLoop => exact plain (by decide) whileLoop_frugal
  | function => exact plain (by decide) function_frugal
  | body => exact plain (by decide) body_frugal
  | closedBody => exact plain (by decide) closedBody_frugal

end Sharp.Grammar

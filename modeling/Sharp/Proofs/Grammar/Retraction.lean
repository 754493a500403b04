import Sharp.Proofs.Grammar.Ending
import Sharp.Proofs.Grammar.Frugality

/-!
How often a statement is taken back. Where a rule may not start it fails without a statement being
tried, so behind a block nothing of the statement that ended it is left to be read again. Apart from
what happens while the value of a return is tried in vain, each statement is taken back once, and
every such attempt in front of it doubles that at most.
-/
namespace Sharp

open Grammar

namespace Grammar

open Sharp.Grammar.Parser

section Silence

variable {α β : Type} {w : Ledger} {kinds : Kinds} {recorder : Recorder} {p : Parser α} {c : Cursor}

theorem Parser.mute_bind (mute : Mute w (p.record kinds recorder c)) (f : α → Parser β) :
    Mute w ((p >>= f).record kinds recorder c) := by
  obtain ⟨⟨error, failed⟩, silent⟩ := mute
  rw [record_bind]
  rcases ran : p.record kinds recorder c with ⟨found | parsed, front⟩ <;> rw [ran] at failed silent
  · exact ⟨⟨found, rfl⟩, silent⟩
  · cases failed

theorem Parser.mute_expecting (mute : Mute w (p.record kinds recorder c))
    (classes : List TokenClass) : Mute w ((expecting classes p).record kinds recorder c) := by
  obtain ⟨⟨error, failed⟩, silent⟩ := mute
  simp only [expecting, record, record_mapError, failed]
  exact ⟨⟨_, rfl⟩, silent⟩

theorem Parser.mute_read {rule : Rule} (mute : Mute w (recorder.call rule c)) :
    Mute w ((read rule).record kinds recorder c) := by
  obtain ⟨⟨error, failed⟩, silent⟩ := mute
  simp only [read, record]
  rcases called : recorder.call rule c with ⟨found | parsed, call⟩ <;>
    rw [called] at failed silent
  · exact ⟨⟨found, rfl⟩, fun place => Ledger.tally_append.trans (silent place)⟩
  · cases failed

theorem Parser.mute_here {f : Cursor → Parser β} (rest : Mute w ((f c).record kinds recorder c)) :
    Mute w ((here >>= f).record kinds recorder c) :=
  rest

theorem Parser.mute_peek {f : TokenKind → Parser β}
    (rest : Mute w ((f (kinds.kindAt c)).record kinds recorder c)) :
    Mute w ((peek >>= f).record kinds recorder c) :=
  rest

/-- From statements down to atoms, a rule that may not start leaves it to the next one to say so. -/
theorem Rule.parser_mute {rule : Rule} (high : Rule.atom.rank ≤ rule.rank)
    (low : rule.rank ≤ Rule.statement.rank) (other : rule.starts (kinds.kindAt c) = false)
    (lower : ∀ inner : Rule, Rule.atom.rank ≤ inner.rank → inner.rank < rule.rank →
      startsExpression (kinds.kindAt c) = false → Mute w (recorder.call inner c)) (bound : Nat) :
    Mute w ((rule.parser bound).record kinds recorder c) := by
  have without : startsExpression (kinds.kindAt c) = false := by
    cases starts : startsExpression (kinds.kindAt c) with
    | false => rfl
    | true =>
      have also := startsStatement_of_startsExpression starts
      cases rule <;> simp_all [Rule.starts]
  have clash {kind : TokenKind} {goal : Prop} (found : kinds.kindAt c = kind)
      (starts : rule.starts kind = true) : goal := by
    rw [found, starts] at other
    cases other
  have passOn (inner : Rule) (atLeast : Rule.atom.rank ≤ inner.rank)
      (below : inner.rank < rule.rank) : Mute w ((read inner).record kinds recorder c) :=
    mute_read (lower inner atLeast below without)
  cases rule with
  | block => exact absurd low (by decide)
  | statement =>
    refine mute_here (mute_peek ?_)
    split
    · exact clash ‹_› rfl
    · exact clash ‹_› rfl
    · exact clash ‹_› rfl
    · exact mute_expecting (passOn .expression (by decide) (by decide)) _
  | expression =>
    refine mute_here (mute_peek ?_)
    split
    · exact clash ‹_› rfl
    · exact mute_expecting (mute_bind (passOn .comparison (by decide) (by decide)) _) _
  | comparison =>
    refine mute_here (mute_peek ?_)
    split
    · exact clash ‹_› rfl
    · exact mute_expecting (mute_bind (passOn .sum (by decide) (by decide)) _) _
  | sum => exact mute_bind (passOn .product (by decide) (by decide)) _
  | product => exact mute_bind (passOn .signed (by decide) (by decide)) _
  | signed =>
    refine mute_here (mute_peek ?_)
    split
    · rename_i op found
      unfold UnaryOp.sign? at found
      split at found
      · exact clash ‹_› rfl
      · exact clash ‹_› rfl
      · cases found
    · exact passOn .power (by decide) (by decide)
  | power => exact mute_bind (passOn .application (by decide) (by decide)) _
  | application => exact mute_bind (passOn .atom (by decide) (by decide)) _
  | atom =>
    refine mute_peek ?_
    split
    · exact clash ‹_› rfl
    · exact clash ‹_› rfl
    · exact clash ‹_› rfl
    · exact clash ‹_› rfl
    · exact clash ‹_› rfl
    · exact clash ‹_› rfl
    · exact clash ‹_› rfl
    · exact clash ‹_› rfl
    · exact clash ‹_› rfl
    · exact clash ‹_› rfl
    · exact ⟨⟨_, rfl⟩, fun _ => rfl⟩
  | listing => exact absurd high (by decide)
  | conditional => exact absurd high (by decide)
  | forLoop => exact absurd high (by decide)
  | whileLoop => exact absurd high (by decide)
  | function => exact absurd high (by decide)
  | body => exact absurd low (by decide)
  | closedBody => exact absurd low (by decide)

end Silence

namespace Rule

variable {w : Ledger} {limit : Limit} {c : Cursor}

theorem refusal_mute (rule : Rule) (depth : Nat) (c : Cursor) :
    Mute w (Recorded.called (α := rule.Value) rule c
      (.error ⟨.nestingTooDeep, c⟩, .refusal depth c)) :=
  ⟨⟨_, rfl⟩, fun _ => rfl⟩

/-- A rule that may not start fails without a statement being tried. -/
theorem record_mute {rule : Rule} (high : Rule.atom.rank ≤ rule.rank)
    (low : rule.rank ≤ Rule.statement.rank) (other : rule.starts (w.kinds.kindAt c) = false)
    (calls depth : Nat) : Mute w ((record w.kinds limit calls depth).call rule c) := by
  induction calls generalizing rule depth with
  | zero => exact refusal_mute rule depth c
  | succ calls ih =>
    rw [Recorder.call, record]
    split
    · refine Mute.called (Bool.eq_false_iff.2 fun isVain => ?_) ?_
      · obtain ⟨rfl, found, _⟩ := Record.vain_eq_true.1 isVain
        rw [found] at other
        cases other
      · refine parser_mute high low other (fun inner atLeast below without => ?_) _
        refine ih atLeast (Nat.le_of_lt (Nat.lt_of_lt_of_le below low)) ?_ _
        cases inner with
        | statement => exact absurd (Nat.lt_of_lt_of_le below low) (by decide)
        | _ => exact without
    · exact refusal_mute rule depth c

/-- The calls a rule makes, if they can be accounted for. -/
def thrift (w : Ledger) (limit : Limit) (calls depth : Nat)
    (frugal : ∀ rule c, Frugal w rule.held c ((record w.kinds limit calls depth).call rule c)) :
    Thrift where
  toLedger := w
  recorder := record w.kinds limit calls depth
  frugal := frugal
  mute rule among c other := by
    have between : Rule.atom.rank ≤ rule.rank ∧ rule.rank ≤ Rule.statement.rank := by
      simp only [List.mem_cons, List.not_mem_nil, or_false] at among
      rcases among with rfl | rfl <;> decide
    exact record_mute between.1 between.2 other calls depth

theorem record_frugal (w : Ledger) (limit : Limit) (calls depth : Nat) (rule : Rule) (c : Cursor) :
    Frugal w rule.held c ((record w.kinds limit calls depth).call rule c) := by
  induction calls generalizing depth rule c with
  | zero => exact fun _ => .mute (refusal_mute rule depth c)
  | succ calls ih =>
    rw [Recorder.call, record]
    split
    · exact parser_frugal (thrift w limit calls _ (ih _)) rule w.kinds.size c
    · exact fun _ => .mute (refusal_mute rule depth c)

end Rule

section Programs

variable {kinds : Kinds} {limit : Limit} {out : Cursor → Bool}

/-- Whichever attempts are taken out of the record of a program, those that are left make up for all
    that is met more than once. -/
theorem recordKinds_account (kinds : Kinds) (limit : Limit) (out : Cursor → Bool) :
    let kept := (recordKinds kinds limit).2.prune kinds out
    let tried := kept.attempts kinds
    (∀ start ∈ retracted kept.events,
      Cursor.start.index < start.index ∧ kinds.kindAt start.prev = .newline) ∧
    ∀ place, (retracted kept.events).count place + tried.count place ≤
      2 ^ (tried.toFinset.filter fun d => d.index < place.index).card := by
  intro kept tried
  let w : Ledger := ⟨kinds, out, tried.toFinset⟩
  have confined : w.Confined (recordKinds kinds limit).2 := fun d among =>
    List.mem_toFinset.2 among
  obtain ⟨separated, bounded, _, _⟩ := @program_frugal (Rule.thrift w limit _ 0
    (Rule.record_frugal w limit (Rule.enoughCalls kinds) 0)) .start confined
  refine ⟨fun start among => ⟨?_, separated start among⟩, fun place => ?_⟩
  · have some : 0 < (retracted kept.events).count start := List.count_pos_iff.2 among
    refine Ledger.index_lt_of_room (w := w) (Nat.lt_of_lt_of_le ?_ (bounded start))
    exact Nat.lt_of_lt_of_le some (Nat.le_add_right _ _)
  · refine Nat.le_trans (bounded place) (Ledger.room_le)

/-- Nothing is met twice in a record without attempts in vain. -/
theorem nodup_of_untried {kept : Record} (none : kept.attempts kinds = [])
    (bounded : ∀ place, (retracted kept.events).count place + (kept.attempts kinds).count place ≤
      2 ^ ((kept.attempts kinds).toFinset.filter fun d => d.index < place.index).card) :
    (retracted kept.events).Nodup := by
  refine List.nodup_iff_count_le_one.2 fun place => ?_
  simpa [none] using bounded place

end Programs

namespace TokenStream

variable {tokens : List Token}

theorem mem_findIdxs_of_newline {c : Cursor}
    (separator : (ofList tokens).kinds.kindAt c = .newline) :
    c.index ∈ tokens.findIdxs fun token => isNewline token.kind := by
  rw [kindAt_kinds] at separator
  by_cases inside : c.index < tokens.length
  · rw [tokenAt_of_lt inside] at separator
    exact List.mem_findIdxs_iff_exists_getElem_pos.2 ⟨inside, isNewline_iff.2 separator⟩
  · have short : (ofList tokens).front.size ≤ tokens.length := by
      unfold ofList
      split
      · exact Nat.zero_le _
      · split <;> simp
    have none : (ofList tokens).front[c.index]? = none := Array.getElem?_eq_none (by omega)
    rw [tokenAt, Array.getD_eq_getD_getElem?, none, Option.getD_none, (ofList tokens).ends]
      at separator
    cases separator

/-- Statements with separators in front begin at no more places than there are separators. -/
theorem card_le_separators {starts : List Cursor} (behind : ∀ start ∈ starts,
    Cursor.start.index < start.index ∧ (ofList tokens).kinds.kindAt start.prev = .newline) :
    starts.toFinset.card ≤ tokens.countP fun token => isNewline token.kind := by
  let places := starts.dedup.map fun start => start.prev.index
  have once : places.Nodup := by
    refine (List.nodup_dedup starts).map_on fun a first b second same => congrArg Cursor.mk ?_
    have before := (behind a (List.mem_dedup.1 first)).1
    have after := (behind b (List.mem_dedup.1 second)).1
    simp only [Cursor.prev, Cursor.start] at same before after
    omega
  have separators : places ⊆ tokens.findIdxs fun token => isNewline token.kind := by
    intro i place
    obtain ⟨start, among, rfl⟩ := List.mem_map.1 place
    exact mem_findIdxs_of_newline (behind start (List.mem_dedup.1 among)).2
  have fewer := once.length_le_of_subset separators
  rwa [List.length_map, List.length_findIdxs, ← List.card_toFinset] at fewer

end TokenStream

theorem length_le_of_count {starts : List Cursor} {most : Nat}
    (bounded : ∀ place, starts.count place ≤ most) :
    starts.length ≤ starts.toFinset.card * most := by
  rw [← List.sum_toFinset_count_eq_length]
  exact Finset.sum_le_card_nsmul _ _ _ fun place _ => bounded place

end Grammar

/-- Each return in front that tries its value in vain, where the token behind it may serve for
    something else, doubles at most how often a statement is taken back and how often such a value
    is tried. So without what is noted in these attempts no statement is taken back twice, and so
    many are as there are separators at most. Where no such token stands behind a return this holds
    of all that is noted. -/
theorem parse_retractions_bounded (tokens : List Token) :
    let kinds := (TokenStream.ofList tokens).kinds
    let separators := tokens.countP fun token => Parser.isNewline token.kind
    let record := (recordKinds kinds standardLimit).2
    let tried := record.attempts kinds
    let others := record.prune kinds fun _ => true
    (parse tokens).notices =
        record.events.map .parsing ++ [conclusion (parse tokens).outcome] ∧
      (∀ d ∈ tried, ∃ c, d = c.next ∧ kinds.kindAt c = .keyword .return ∧
        resumes (kinds.kindAt d) = true) ∧
      (∀ place, (retracted record.events).count place + tried.count place ≤
        2 ^ (tried.toFinset.filter fun d => d.index < place.index).card) ∧
      (retracted record.events).length ≤ separators * 2 ^ tried.toFinset.card ∧
      (retracted others.events).Nodup ∧ (retracted others.events).length ≤ separators ∧
      ((∀ c, kinds.kindAt c = .keyword .return → resumes (kinds.kindAt c.next) = false) →
        (retracted record.events).Nodup ∧ (retracted record.events).length ≤ separators) := by
  intro kinds separators record tried others
  obtain ⟨_, noted⟩ := parseKinds_recorded kinds standardLimit
  obtain ⟨behind, bounded⟩ := recordKinds_account kinds standardLimit fun _ => false
  obtain ⟨othersBehind, othersBounded⟩ := recordKinds_account kinds standardLimit fun _ => true
  rw [Record.prune_none] at behind bounded
  have none : others.attempts kinds = [] :=
    List.eq_nil_iff_forall_not_mem.2 fun d among => Bool.noConfusion (Record.out_of_attempts among)
  have once : (retracted others.events).Nodup := nodup_of_untried none othersBounded
  have total : (retracted record.events).length ≤ separators * 2 ^ tried.toFinset.card := by
    have each (place : Cursor) :
        (retracted record.events).count place ≤ 2 ^ tried.toFinset.card := by
      refine Nat.le_trans (Nat.le_trans (Nat.le_add_right _ _) (bounded place)) ?_
      exact Nat.pow_le_pow_right Nat.two_pos (Finset.card_filter_le _ _)
    exact Nat.le_trans (length_le_of_count each)
      (Nat.mul_le_mul_right _ (TokenStream.card_le_separators behind))
  have fewer : (retracted others.events).length ≤ separators :=
    List.toFinset_card_of_nodup once ▸ TokenStream.card_le_separators othersBehind
  refine ⟨?_, fun d => Record.attempts_stand, bounded, total, once, fewer,
    fun apart => ?_⟩
  · rw [parse_notices, noted]
  · have nowhere : tried = [] := by
      refine List.eq_nil_iff_forall_not_mem.2 fun d among => ?_
      obtain ⟨c, rfl, found, resumes⟩ := Record.attempts_stand among
      exact Bool.noConfusion ((apart c found).symm.trans resumes)
    have once : (retracted record.events).Nodup := nodup_of_untried nowhere bounded
    exact ⟨once, List.toFinset_card_of_nodup once ▸ TokenStream.card_le_separators behind⟩

/-- The value begun with `IF` is tried in vain, but nothing else could begin so: the statement that
    begins with `VAR` is taken back once. -/
theorem parse_retractions_bounded_unfinished :
    let place : Span := .empty (.start ⟨"", ""⟩)
    let row : List TokenKind := [.keyword .return, .keyword .if, .int 1, .keyword .then, .newline,
      .int 1, .newline, .keyword .var, .eof]
    let tokens : List Token := row.map fun kind => ⟨kind, place⟩
    let kinds := (TokenStream.ofList tokens).kinds
    (∀ c, kinds.kindAt c = .keyword .return → resumes (kinds.kindAt c.next) = false) ∧
      (parse tokens).notices =
        [.parsing (.rolledBack ⟨7⟩ 1), .parseFailed "Invalid Syntax" 1] ∧
      ∃ noted, (parse tokens).notices =
          noted.map .parsing ++ [conclusion (parse tokens).outcome] ∧
        (retracted noted).Nodup := by
  intro place row tokens kinds
  have bounded : ∀ i < kinds.size, kinds.kindAt ⟨i⟩ = .keyword .return →
      resumes (kinds.kindAt ⟨i + 1⟩) = false := by decide +kernel
  have apart : ∀ c, kinds.kindAt c = .keyword .return → resumes (kinds.kindAt c.next) = false := by
    intro c found
    have inside : c.index < kinds.size := Kinds.index_lt_of_ne_eof fun ended => by
      cases ended.symm.trans found
    exact bounded c.index inside found
  obtain ⟨notices, _, _, _, _, _, rest⟩ := parse_retractions_bounded tokens
  exact ⟨apart, by decide +kernel, _, notices, (rest apart).1⟩

/-- In `IF 1 THEN RETURN (IF 1 THEN RETURN (FUN () ; 1 ; END, 2), 2)` neither bracket is one of a
    value; both open the arguments of a call. The value behind the second is tried in vain twice,
    inside the attempt at the one behind the first and once more, so the statement that begins with
    `END` is taken back four times: as often as two places allow. -/
theorem parse_retracts_four_times :
    let place : Span := .empty (.start ⟨"", ""⟩)
    let kinds : List TokenKind := [.keyword .if, .int 1, .keyword .then, .keyword .return,
      .symbol .openRound, .keyword .if, .int 1, .keyword .then, .keyword .return,
      .symbol .openRound, .keyword .fun, .symbol .openRound, .symbol .closeRound, .newline, .int 1,
      .newline, .keyword .end, .symbol .comma, .int 2, .symbol .closeRound, .symbol .comma, .int 2,
      .symbol .closeRound, .eof]
    let tokens : List Token := kinds.map fun kind => ⟨kind, place⟩
    let noted := List.replicate 4 (Event.rolledBack ⟨16⟩ 0)
    let row := (TokenStream.ofList tokens).kinds
    (parse tokens).notices = noted.map .parsing ++ [.parsed 1] ∧ ¬(retracted noted).Nodup ∧
      tokens.countP (fun token => Parser.isNewline token.kind) < (retracted noted).length ∧
      (recordKinds row standardLimit).2.attempts row = [⟨4⟩, ⟨9⟩, ⟨9⟩] := by
  intro place kinds tokens noted row
  refine ⟨by decide +kernel, by decide, by decide, by decide +kernel⟩

end Sharp

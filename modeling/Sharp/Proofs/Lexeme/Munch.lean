import Sharp.Lexeme.Cover
import Sharp.Proofs.Lexeme.Spelling

/-!
Longest lexemes. A text falls into pieces that spell tokens, none of which could be longer, and
between them there are only blanks and comments. There is at most one way to cut a text so, and
the tokens of a text are that way.
-/
namespace Sharp

/-- A token without the line and column of its ends. -/
structure Piece where
  kind : TokenKind
  start : Nat
  stop : Nat
deriving DecidableEq

def Token.piece (t : Token) : Piece := ⟨t.kind, t.span.start.index, t.span.stop.index⟩

namespace Lexeme

def slice (text : List Char) (start stop : Nat) : List Char := (text.take stop).drop start

/-- Blanks and comments, each comment with the line break that ends it. -/
inductive Ignored : List Char → Prop
  | nil : Ignored []
  | blank {c : Char} {cs : List Char} : c = ' ' ∨ c = '\t' → Ignored cs → Ignored (c :: cs)
  | comment {body cs : List Char} :
    '\n' ∉ body → Ignored cs → Ignored ('#' :: (body ++ '\n' :: cs))

/-- The last comment of a text may lack its line break. -/
inductive IgnoredToEnd : List Char → Prop
  | ended {cs : List Char} : Ignored cs → IgnoredToEnd cs
  | comment {cs body : List Char} : Ignored cs → '\n' ∉ body → IgnoredToEnd (cs ++ '#' :: body)

/-- What stands before, between and behind the pieces of a text is ignored. -/
def Between (text : List Char) : Nat → List Piece → Prop
  | reached, [] => IgnoredToEnd (text.drop reached)
  | reached, p :: rest => Ignored (slice text reached p.start) ∧ Between text p.stop rest

/-- The pieces of what is left of a text once the characters before `reached` are gone. -/
structure Tiles (text : List Char) (reached : Nat) (pieces : List Piece) : Prop where
  beyond : ∀ p ∈ pieces, reached ≤ p.start
  ordered : pieces.Pairwise fun p q => p.stop ≤ q.start
  nonempty : ∀ p ∈ pieces, p.start < p.stop
  within : ∀ p ∈ pieces, p.stop ≤ text.length
  spelled : ∀ p ∈ pieces, Spells p.kind (slice text p.start p.stop)
  longest : ∀ p ∈ pieces, ∀ c, text[p.stop]? = some c → carriesOn p.kind c = false
  between : Between text reached pieces

/-- All pieces of a text with its end as the last one. -/
def MaximalMunch (text : List Char) (pieces : List Piece) : Prop :=
  ∃ front, pieces = front ++ [⟨.eof, text.length, text.length⟩] ∧
    (∀ p ∈ front, p.kind ≠ .eof) ∧ Tiles text 0 front

/-! ### Slices -/

section Slices

variable {text lexeme rest : List Char} {a b c : Nat}

theorem slice_append_drop (text : List Char) (inOrder : a ≤ b) :
    slice text a b ++ text.drop b = text.drop a := by
  obtain ⟨length, rfl⟩ := Nat.exists_eq_add_of_le inOrder
  rw [slice, List.drop_take, Nat.add_sub_cancel_left, ← List.drop_drop, List.take_append_drop]

theorem slice_append_slice (text : List Char) (first : a ≤ b) (second : b ≤ c) :
    slice text a b ++ slice text b c = slice text a c := by
  have within := slice_append_drop (text.take c) first
  rwa [slice, List.take_take, Nat.min_eq_left second] at within

theorem slice_length (inside : b ≤ text.length) : (slice text a b).length = b - a := by
  rw [slice, List.length_drop, List.length_take, Nat.min_eq_left inside]

theorem slice_of_drop (same : text.drop a = lexeme ++ rest) :
    slice text a (a + lexeme.length) = lexeme := by
  rw [slice, List.drop_take, Nat.add_sub_cancel_left, same, List.take_left]

theorem drop_of_drop (same : text.drop a = lexeme ++ rest) :
    text.drop (a + lexeme.length) = rest := by
  rw [← List.drop_drop, same, List.drop_left]

theorem length_of_drop (inside : a ≤ text.length) (same : text.drop a = lexeme ++ rest) :
    a + lexeme.length ≤ text.length := by
  have lengths := congrArg List.length same
  rw [List.length_drop, List.length_append] at lengths
  omega

end Slices

/-! ### What is ignored -/

theorem Ignored.append {gap more : List Char} (first : Ignored gap) (second : Ignored more) :
    Ignored (gap ++ more) := by
  induction first with
  | nil => exact second
  | blank isBlank _ ih => exact .blank isBlank ih
  | @comment body cs oneLine _ ih =>
    have whole := Ignored.comment oneLine ih
    simpa using whole

theorem Ignored.append_end {gap rest : List Char} (first : Ignored gap)
    (second : IgnoredToEnd rest) : IgnoredToEnd (gap ++ rest) := by
  cases second with
  | ended more => exact .ended (first.append more)
  | comment more oneLine =>
    rw [← List.append_assoc]
    exact .comment (first.append more) oneLine

/-! ### Piece by piece -/

section Tiling

variable {text gap lexeme cs rest : List Char} {reached n m : Nat} {p : Piece}
  {pieces : List Piece} {kind : TokenKind}

theorem tiles_cons :
    Tiles text reached (p :: pieces) ↔
      (reached ≤ p.start ∧ p.start < p.stop ∧ p.stop ≤ text.length ∧
        Ignored (slice text reached p.start) ∧ Spells p.kind (slice text p.start p.stop) ∧
        StopsAt (carriesOn p.kind) (text.drop p.stop)) ∧ Tiles text p.stop pieces := by
  constructor
  · intro given
    obtain ⟨beyond, ordered, nonempty, within, spelled, longest, ignored, between⟩ := given
    rw [List.forall_mem_cons] at beyond nonempty within spelled longest
    rw [List.pairwise_cons] at ordered
    refine ⟨⟨beyond.1, nonempty.1, within.1, ignored, spelled.1, ?_⟩, ?_⟩
    · intro c first
      rw [List.head?_drop] at first
      exact longest.1 c first
    · exact ⟨ordered.1, ordered.2, nonempty.2, within.2, spelled.2, longest.2, between⟩
  · intro given
    obtain ⟨⟨reaches, nonempty, within, ignored, spelled, stops⟩, rest⟩ := given
    have longest : ∀ c, text[p.stop]? = some c → carriesOn p.kind c = false := by
      intro c first
      rw [← List.head?_drop] at first
      exact stops c first
    constructor
    · refine List.forall_mem_cons.2 ⟨reaches, fun q member => ?_⟩
      have later := rest.beyond q member
      omega
    · exact List.pairwise_cons.2 ⟨rest.beyond, rest.ordered⟩
    · exact List.forall_mem_cons.2 ⟨nonempty, rest.nonempty⟩
    · exact List.forall_mem_cons.2 ⟨within, rest.within⟩
    · exact List.forall_mem_cons.2 ⟨spelled, rest.spelled⟩
    · exact List.forall_mem_cons.2 ⟨longest, rest.longest⟩
    · exact ⟨ignored, rest.between⟩

theorem tiles_nil (text : List Char) (reached : Nat) :
    Tiles text reached [] ↔ IgnoredToEnd (text.drop reached) := by
  constructor
  · exact Tiles.between
  · intro ignored
    exact ⟨by simp, .nil, by simp, by simp, by simp, by simp, ignored⟩

theorem Tiles.back (tiles : Tiles text m pieces) (later : n ≤ m)
    (ignored : Ignored (slice text n m)) : Tiles text n pieces := by
  cases pieces with
  | nil =>
    rw [tiles_nil] at tiles ⊢
    rw [← slice_append_drop text later]
    exact ignored.append_end tiles
  | cons p pieces =>
    rw [tiles_cons] at tiles ⊢
    obtain ⟨⟨reaches, nonempty, within, gap, token⟩, rest⟩ := tiles
    refine ⟨⟨by omega, nonempty, within, ?_, token⟩, rest⟩
    rw [← slice_append_slice text later reaches]
    exact ignored.append gap

/-- The pieces of the characters from the one numbered `n` on, read one after another. -/
inductive Runs : Nat → List Char → List Piece → Prop
  | finish {n : Nat} : Runs n [] []
  | blank {n : Nat} {c : Char} {rest : List Char} {pieces : List Piece} :
    c = ' ' ∨ c = '\t' → Runs (n + 1) rest pieces → Runs n (c :: rest) pieces
  | comment {n : Nat} {body rest : List Char} {pieces : List Piece} :
    '\n' ∉ body → Runs (n + ('#' :: (body ++ ['\n'])).length) rest pieces →
    Runs n ('#' :: (body ++ '\n' :: rest)) pieces
  | lastComment {n : Nat} {body : List Char} : '\n' ∉ body → Runs n ('#' :: body) []
  | token {n : Nat} {kind : TokenKind} {lexeme rest : List Char} {pieces : List Piece} :
    Spells kind lexeme → StopsAt (carriesOn kind) rest → Runs (n + lexeme.length) rest pieces →
    Runs n (lexeme ++ rest) (⟨kind, n, n + lexeme.length⟩ :: pieces)

theorem Runs.skip (ignored : Ignored gap) (runs : Runs (n + gap.length) rest pieces) :
    Runs n (gap ++ rest) pieces := by
  induction ignored generalizing n with
  | nil => exact runs
  | blank isBlank _ ih =>
    refine .blank isBlank (ih ?_)
    rwa [List.length_cons, Nat.add_comm _ 1, ← Nat.add_assoc] at runs
  | @comment body cs oneLine _ ih =>
    rw [List.cons_append, List.append_assoc, List.cons_append]
    refine .comment oneLine (ih ?_)
    simp only [List.length_cons, List.length_append, List.length_nil] at runs ⊢
    rwa [show n + (body.length + (0 + 1) + 1) + cs.length =
      n + (body.length + (cs.length + 1) + 1) by omega]

theorem Runs.of_ignoredToEnd (ignored : IgnoredToEnd cs) : Runs n cs [] := by
  cases ignored with
  | ended ignored =>
    have runs : Runs n (cs ++ []) [] := Runs.skip ignored .finish
    rwa [List.append_nil] at runs
  | comment ignored oneLine => exact Runs.skip ignored (.lastComment oneLine)

theorem Tiles.runs (tiles : Tiles text n pieces) : Runs n (text.drop n) pieces := by
  induction pieces generalizing n with
  | nil => exact Runs.of_ignoredToEnd ((tiles_nil text n).1 tiles)
  | cons p pieces ih =>
    obtain ⟨⟨reaches, nonempty, within, gap, spelled, stops⟩, rest⟩ := tiles_cons.1 tiles
    have toStart : n + (slice text n p.start).length = p.start := by
      rw [slice_length (by omega)]
      omega
    have toStop : p.start + (slice text p.start p.stop).length = p.stop := by
      rw [slice_length within]
      omega
    rw [← slice_append_drop text reaches]
    apply Runs.skip gap
    rw [toStart, ← slice_append_drop text (Nat.le_of_lt nonempty)]
    have later : Runs (p.start + (slice text p.start p.stop).length) (text.drop p.stop) pieces := by
      rw [toStop]
      exact ih rest
    have token := Runs.token spelled stops later
    rwa [toStop] at token

theorem spells_ne_nil (spelled : Spells kind lexeme) : lexeme ≠ [] := by
  cases spelled with
  | int nonempty => exact nonempty
  | float => simp
  | identifier wordy =>
    obtain ⟨c, more, rfl, _⟩ := wordy
    exact List.cons_ne_nil c more
  | keyword reserved => cases reserved <;> decide
  | string => exact List.cons_ne_nil _ _
  | symbol sign => cases sign <;> decide
  | semicolon | lineBreak => exact List.cons_ne_nil _ _

theorem Runs.tiles (runs : Runs n cs pieces) (inside : n ≤ text.length)
    (same : text.drop n = cs) : Tiles text n pieces := by
  induction runs with
  | finish => exact (tiles_nil _ _).2 (same ▸ .ended .nil)
  | @blank n c rest pieces isBlank _ ih =>
    have oneOn : text.drop n = [c] ++ rest := same
    have tiles := ih (length_of_drop inside oneOn) (drop_of_drop oneOn)
    apply tiles.back (Nat.le_add_right n _)
    rw [show n + 1 = n + [c].length from rfl, slice_of_drop oneOn]
    exact .blank isBlank .nil
  | @comment n body rest pieces oneLine _ ih =>
    have behind : text.drop n = '#' :: (body ++ ['\n']) ++ rest := by simpa using same
    have tiles := ih (length_of_drop inside behind) (drop_of_drop behind)
    apply tiles.back (Nat.le_add_right n _)
    rw [slice_of_drop behind]
    exact .comment oneLine .nil
  | lastComment oneLine =>
    rw [tiles_nil, same]
    exact IgnoredToEnd.comment .nil oneLine
  | @token n kind lexeme rest pieces spelled stops _ ih =>
    have within := length_of_drop inside same
    have behind := drop_of_drop same
    have nonempty := List.length_pos_iff.2 (spells_ne_nil spelled)
    refine tiles_cons.2 ⟨⟨Nat.le_refl n, by simpa using nonempty, within, ?_, ?_, ?_⟩,
      ih within behind⟩
    · rw [slice, List.drop_take, Nat.sub_self]
      exact .nil
    · rwa [slice_of_drop same]
    · rwa [behind]

end Tiling

/-! ### The lexemes of a text -/

section Splitting

variable {c : Char} {cs lexeme rest body : List Char} {kind : TokenKind} {further n : Nat}
  {pieces : List Piece} {fault : Fault} {start : Position}

theorem split_of_fault (read : scan c cs = .error fault) :
    split (c :: cs) = ⟨[], some fault⟩ := by
  rw [split, splitFrom, read]

theorem split_of_read {kind : Option TokenKind} (read : scan c cs = .ok (kind, further)) :
    split (c :: cs) = ⟨⟨c :: cs.take further, kind⟩ :: (split (cs.drop further)).lexemes,
      (split (cs.drop further)).fault⟩ := by
  rw [split, splitFrom, read]
  simp only [splitFrom_drop]

/-- The end of a line: the end of the text or a line break. -/
def EndsLine (rest : List Char) : Prop := rest = [] ∨ ∃ more, rest = '\n' :: more

theorem comment_append (oneLine : '\n' ∉ body) (ends : EndsLine rest) :
    comment (body ++ rest) = skip (body.length + 1) := by
  have inside : ∀ c ∈ body, (c != '\n') = true := by
    intro c member
    rw [bne_iff_ne]
    rintro rfl
    exact oneLine member
  have stops : StopsAt (· != '\n') rest := by
    intro c first
    rcases ends with rfl | ⟨more, rfl⟩
    · cases first
    · cases first
      rfl
  rw [comment, takeWhile_append_of_stops inside stops]

theorem take_line (body rest : List Char) :
    (body ++ '\n' :: rest).take (body.length + 1) = body ++ ['\n'] := by
  rw [List.take_length_add_append]
  rfl

theorem drop_line (body rest : List Char) :
    (body ++ '\n' :: rest).drop (body.length + 1) = rest := by
  rw [List.drop_length_add_append]
  rfl

theorem exists_line (cs : List Char) : ∃ body rest, cs = body ++ rest ∧ '\n' ∉ body ∧
    EndsLine rest := by
  obtain ⟨body, rest, rfl, inside, stops⟩ := exists_run (· != '\n') cs
  refine ⟨body, rest, rfl, fun member => by simpa using inside _ member, ?_⟩
  cases rest with
  | nil => exact .inl rfl
  | cons c rest =>
    have lineBreak : c = '\n' := by simpa using stops c rfl
    exact .inr ⟨rest, by rw [lineBreak]⟩

theorem number_ne_skip : number c cs ≠ skip further := by
  intro read
  unfold number at read
  dsimp only at read
  split at read
  · cases read
  · split at read <;> cases read

theorem string_ne_skip : string cs ≠ skip further := by
  intro read
  unfold string at read
  split at read <;> cases read

theorem mark_ne_skip : mark c cs ≠ skip further := by
  intro read
  unfold mark at read
  split at read <;> cases read

/-- Only blanks and comments are passed over. -/
theorem skipped_of_scan (read : scan c cs = skip further) :
    ((c = ' ' ∨ c = '\t') ∧ further = 0) ∨ (c = '#' ∧ comment cs = skip further) := by
  unfold scan at read
  split at read
  · rename_i blank
    cases read
    refine .inl ⟨?_, rfl⟩
    rw [isBlank, Bool.or_eq_true_iff, beq_iff_eq, beq_iff_eq] at blank
    exact blank
  split at read
  · rename_i hash
    exact .inr ⟨hash, read⟩
  split at read
  · cases read
  split at read
  · exact absurd read number_ne_skip
  split at read
  · cases read
  split at read
  · exact absurd read string_ne_skip
  · exact absurd read mark_ne_skip

theorem tokenEnd_index (spelled : Spells kind lexeme) :
    (tokenEnd kind start lexeme).index = start.index + lexeme.length := by
  rw [tokenEnd]
  split
  · rename_i separator
    cases separator
    cases spelled <;> rfl
  · exact Position.past_index start lexeme

theorem pieces_token (spelled : Spells kind lexeme) (lexemes : List Lexeme) :
    (place start (⟨lexeme, some kind⟩ :: lexemes)).map Token.piece =
      ⟨kind, start.index, start.index + lexeme.length⟩ ::
        (place (start.past lexeme) lexemes).map Token.piece := by
  rw [place, List.map_cons, Token.piece, tokenEnd_index spelled]

theorem runs_of_split (start : Position) (cs : List Char) (clean : (split cs).fault = none) :
    Runs start.index cs ((place start (split cs).lexemes).map Token.piece) := by
  induction length : cs.length using Nat.strongRecOn generalizing start cs with
  | ind size ih =>
    cases cs with
    | nil => exact .finish
    | cons c cs =>
      -- What is left behind the first lexeme is shorter, and its pieces start where that one ends.
      have behind (further : Nat) (lexeme : List Char)
          (clean : (split (cs.drop further)).fault = none) :
          Runs (start.index + lexeme.length) (cs.drop further)
            ((place (start.past lexeme) (split (cs.drop further)).lexemes).map Token.piece) := by
        rw [← Position.past_index]
        have shorter : (cs.drop further).length < size := by
          rw [← length, List.length_drop, List.length_cons]
          omega
        exact ih _ shorter (start.past lexeme) (cs.drop further) clean rfl
      cases read : scan c cs with
      | error fault =>
        rw [split_of_fault read] at clean
        cases clean
      | ok result =>
        obtain ⟨kind, further⟩ := result
        rw [split_of_read read] at clean ⊢
        have later := behind further (c :: cs.take further) clean
        cases kind with
        | none =>
          rcases skipped_of_scan read with ⟨blank, rfl⟩ | ⟨rfl, commented⟩
          · exact .blank blank later
          · obtain ⟨body, rest, rfl, oneLine, ends⟩ := exists_line cs
            rw [comment_append oneLine ends] at commented
            cases commented
            rcases ends with rfl | ⟨more, rfl⟩
            · rw [List.append_nil, List.drop_of_length_le (Nat.le_succ _)]
              exact .lastComment oneLine
            · rw [take_line, drop_line] at *
              exact .comment oneLine later
        | some kind =>
          obtain ⟨more, rest, rfl, rfl, spelled, stops⟩ := found_of_scan read
          rw [List.take_left, List.drop_left] at *
          rw [pieces_token spelled]
          exact .token spelled stops later

theorem split_of_runs (runs : Runs n cs pieces) (start : Position) (reached : start.index = n) :
    (split cs).fault = none ∧ (place start (split cs).lexemes).map Token.piece = pieces := by
  induction runs generalizing start with
  | finish => exact ⟨rfl, rfl⟩
  | @blank n c rest pieces isBlank _ ih =>
    have read : scan c rest = skip 0 := by
      rcases isBlank with rfl | rfl <;> rfl
    rw [split_of_read read]
    exact ih (start.past [c]) (by rw [Position.past_index, reached]; rfl)
  | @comment n body rest pieces oneLine _ ih =>
    have read : scan '#' (body ++ '\n' :: rest) = skip (body.length + 1) :=
      comment_append oneLine (.inr ⟨rest, rfl⟩)
    rw [split_of_read read, take_line, drop_line]
    exact ih (start.past ('#' :: (body ++ ['\n']))) (by rw [Position.past_index, reached])
  | @lastComment n body oneLine =>
    have read : scan '#' (body ++ []) = skip (body.length + 1) :=
      comment_append oneLine (.inl rfl)
    rw [List.append_nil] at read
    rw [split_of_read read, List.drop_of_length_le (Nat.le_succ _)]
    exact ⟨rfl, rfl⟩
  | @token n kind lexeme rest pieces spelled stops _ ih =>
    cases lexeme with
    | nil => exact absurd rfl (spells_ne_nil spelled)
    | cons c more =>
      have read := scan_of_spells spelled stops
      rw [List.cons_append, split_of_read read, List.take_left, List.drop_left,
        pieces_token spelled, reached]
      obtain ⟨clean, same⟩ := ih (start.past (c :: more)) (by rw [Position.past_index, reached])
      exact ⟨clean, by rw [same]⟩

end Splitting

theorem maximalMunch_iff {text : List Char} {pieces : List Piece} :
    MaximalMunch text pieces ↔
      ∃ front, pieces = front ++ [⟨.eof, text.length, text.length⟩] ∧ Runs 0 text front := by
  constructor
  · intro given
    obtain ⟨front, rfl, _, tiles⟩ := given
    exact ⟨front, rfl, tiles.runs⟩
  · intro given
    obtain ⟨front, rfl, runs⟩ := given
    have tiles := runs.tiles (Nat.zero_le text.length) rfl
    refine ⟨front, rfl, ?_, tiles⟩
    intro p member atEnd
    have spelled := tiles.spelled p member
    rw [atEnd] at spelled
    cases spelled

end Lexeme

open Lexeme

variable {source : Source} {tokens : List Token} {pieces : List Piece}

theorem tokenize_of_clean (clean : (split source.text.toList).fault = none) :
    tokenize source = .ok (place (.start source) (split source.text.toList).lexemes ++
      [Token.finish (Position.past (.start source) source.text.toList)]) := by
  rw [tokenize, clean, chained_split clean]

theorem clean_of_tokenize (read : tokenize source = .ok tokens) :
    (split source.text.toList).fault = none := by
  cases fault : (split source.text.toList).fault with
  | none => rfl
  | some fault =>
    rw [tokenize, fault] at read
    cases read

theorem finish_piece (source : Source) :
    Token.piece (.finish (Position.past (.start source) source.text.toList)) =
      ⟨.eof, source.text.toList.length, source.text.toList.length⟩ := by
  have index : (Position.past (.start source) source.text.toList).index =
      source.text.toList.length := by
    rw [Position.past_index, Position.start, Nat.zero_add]
  rw [Token.finish, Token.piece, Span.empty, index]

/-- A text has tokens exactly if it can be cut into longest pieces, and they are its tokens. -/
theorem maximalMunch_iff_tokenize :
    MaximalMunch source.text.toList pieces ↔
      ∃ tokens, tokenize source = .ok tokens ∧ tokens.map Token.piece = pieces := by
  rw [maximalMunch_iff]
  constructor
  · intro given
    obtain ⟨front, rfl, runs⟩ := given
    obtain ⟨clean, same⟩ := split_of_runs runs (.start source) rfl
    refine ⟨_, tokenize_of_clean clean, ?_⟩
    rw [List.map_append, List.map_singleton, finish_piece, same]
  · intro given
    obtain ⟨tokens, read, rfl⟩ := given
    have clean := clean_of_tokenize read
    rw [tokenize_of_clean clean] at read
    cases read
    refine ⟨_, ?_, runs_of_split (.start source) _ clean⟩
    rw [List.map_append, List.map_singleton, finish_piece]

/-- The tokens of a text are longest pieces of it, and no other pieces are. -/
theorem tokenize_maximal_munch (read : tokenize source = .ok tokens) :
    MaximalMunch source.text.toList (tokens.map Token.piece) ∧
      ∀ pieces, MaximalMunch source.text.toList pieces → pieces = tokens.map Token.piece := by
  constructor
  · exact maximalMunch_iff_tokenize.2 ⟨tokens, read, rfl⟩
  · intro pieces munched
    obtain ⟨others, readToo, same⟩ := maximalMunch_iff_tokenize.1 munched
    rw [read] at readToo
    cases readToo
    exact same.symm

theorem tokenize_maximal_munch_comment :
    ∃ tokens, tokenize ⟨"shell", "x<=-12 # \"; THEN\ny->\"\\\"\""⟩ = .ok tokens ∧
      tokens.map Token.piece =
        [⟨.identifier "x", 0, 1⟩, ⟨.symbol .atMost, 1, 3⟩, ⟨.symbol .minus, 3, 4⟩, ⟨.int 12, 4, 6⟩,
          ⟨.identifier "y", 17, 18⟩, ⟨.symbol .arrow, 18, 20⟩, ⟨.string "\"", 20, 24⟩,
          ⟨.eof, 24, 24⟩] ∧
      MaximalMunch "x<=-12 # \"; THEN\ny->\"\\\"\"".toList (tokens.map Token.piece) ∧
      ∀ pieces, MaximalMunch "x<=-12 # \"; THEN\ny->\"\\\"\"".toList pieces →
        pieces = tokens.map Token.piece := by
  have read : (tokenize ⟨"shell", "x<=-12 # \"; THEN\ny->\"\\\"\""⟩).map (List.map Token.piece) =
      .ok [⟨.identifier "x", 0, 1⟩, ⟨.symbol .atMost, 1, 3⟩, ⟨.symbol .minus, 3, 4⟩,
        ⟨.int 12, 4, 6⟩, ⟨.identifier "y", 17, 18⟩, ⟨.symbol .arrow, 18, 20⟩,
        ⟨.string "\"", 20, 24⟩, ⟨.eof, 24, 24⟩] := by
    decide +kernel
  cases found : tokenize ⟨"shell", "x<=-12 # \"; THEN\ny->\"\\\"\""⟩ with
  | error fault =>
    rw [found] at read
    cases read
  | ok tokens =>
    rw [found] at read
    exact ⟨tokens, rfl, Except.ok.inj read, tokenize_maximal_munch found⟩

end Sharp

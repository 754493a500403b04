import Sharp.Proofs.Lexeme.Standing

/-!
Lexing is local. A lexeme depends on its own characters and on the one behind it, and blanks,
comments and separators carry no lexeme on. So texts with such filling between them have the tokens
of both, and those of the second text are where they were, counted from the end of the filling.
-/
namespace Sharp

namespace Lexeme

section Reach

variable {c : Char} {cs more rest other : List Char} {kind : Option TokenKind} {further : Nat}

/-- The first characters of blanks, comments and separators. -/
def startsFilling (c : Char) : Bool := isBlank c || c == '#' || isSeparator c

theorem startsFilling_iff :
    startsFilling c = true ↔ c = ' ' ∨ c = '\t' ∨ c = '#' ∨ c = ';' ∨ c = '\n' := by
  simp [startsFilling, isBlank, isSeparator, or_assoc]

theorem carriesOn_startsFilling (kind : TokenKind) (fills : startsFilling c = true) :
    carriesOn kind c = false := by
  have wordless : Text.isWordPart c = false := by
    rcases startsFilling_iff.1 fills with rfl | rfl | rfl | rfl | rfl <;> decide +kernel
  cases kind with
  | identifier | keyword => exact wordless
  | symbol sign =>
    rcases startsFilling_iff.1 fills with rfl | rfl | rfl | rfl | rfl <;> cases sign <;> rfl
  | int | float | string | newline | eof =>
    rcases startsFilling_iff.1 fills with rfl | rfl | rfl | rfl | rfl <;> rfl

/-- A lexeme stays as it is if what follows begins alike, ends there or begins with filling. -/
theorem scan_local (read : scan c (more ++ rest) = .ok (kind, more.length))
    (follows : ∀ d, other.head? = some d → rest.head? = some d ∨ startsFilling d = true) :
    scan c (more ++ other) = .ok (kind, more.length) := by
  cases kind with
  | some kind =>
    obtain ⟨front, back, same, length, spelled, stops⟩ := found_of_scan read
    obtain ⟨rfl, rfl⟩ := List.append_inj same length
    refine scan_of_spells spelled fun d first => ?_
    rcases follows d first with alike | fills
    · exact stops d alike
    · exact carriesOn_startsFilling kind fills
  | none =>
    rcases skipped_of_scan read with ⟨blank, length⟩ | ⟨rfl, commented⟩
    · obtain rfl := List.length_eq_zero_iff.1 length
      rcases blank with rfl | rfl <;> rfl
    · obtain ⟨body, back, same, oneLine, ends⟩ := exists_line (more ++ rest)
      rw [same, comment_append oneLine ends] at commented
      have length : body.length + 1 = more.length := (Prod.mk.inj (Except.ok.inj commented)).2
      -- The comment takes one character more than its line has, so that is a line break.
      rcases ends with rfl | ⟨tail, rfl⟩
      · have lengths := congrArg List.length same
        simp only [List.length_append, List.length_nil] at lengths
        omega
      · rw [List.append_cons] at same
        obtain ⟨rfl, rfl⟩ := List.append_inj same (by simp [length])
        rw [List.append_assoc, List.length_append]
        exact comment_append oneLine (.inr ⟨other, rfl⟩)

/-- Every lexeme lies inside its text, but for a comment that no line break ends. -/
theorem reach_of_scan (read : scan c cs = .ok (kind, further)) :
    (∃ more rest, cs = more ++ rest ∧ further = more.length) ∨
      c = '#' ∧ kind = none ∧ '\n' ∉ cs ∧ further = cs.length + 1 := by
  cases kind with
  | some kind =>
    obtain ⟨more, rest, same, length, _⟩ := found_of_scan read
    exact .inl ⟨more, rest, same, length⟩
  | none =>
    rcases skipped_of_scan read with ⟨_, rfl⟩ | ⟨rfl, commented⟩
    · exact .inl ⟨[], cs, rfl, rfl⟩
    · obtain ⟨body, rest, rfl, oneLine, ends⟩ := exists_line cs
      rw [comment_append oneLine ends] at commented
      cases commented
      rcases ends with rfl | ⟨tail, rfl⟩
      · rw [List.append_nil]
        exact .inr ⟨rfl, rfl, oneLine, rfl⟩
      · exact .inl ⟨body ++ ['\n'], tail, by simp, by simp⟩

end Reach

/-! ### Texts put together -/

section Joining

variable {c : Char} {cs more rest : List Char} {kind : Option TokenKind} {lexeme : Lexeme}

/-- The last lexeme is a comment that no line break ends. -/
def EndsInComment (cs : List Char) : Prop :=
  ∃ body, (split cs).lexemes.getLast? = some ⟨'#' :: body, none⟩ ∧ '\n' ∉ body

theorem split_of_lexeme (read : scan c (more ++ rest) = .ok (kind, more.length)) :
    split (c :: (more ++ rest)) =
      ⟨⟨c :: more, kind⟩ :: (split rest).lexemes, (split rest).fault⟩ := by
  rw [split_of_read read, List.take_left, List.drop_left]

theorem split_of_lastComment (oneLine : '\n' ∉ cs) :
    split ('#' :: cs) = ⟨[⟨'#' :: cs, none⟩], none⟩ := by
  have read : comment (cs ++ []) = skip (cs.length + 1) := comment_append oneLine (.inl rfl)
  rw [List.append_nil] at read
  rw [split_of_read (show scan '#' cs = skip (cs.length + 1) from read),
    List.take_of_length_le (Nat.le_succ _), List.drop_of_length_le (Nat.le_succ _)]
  rfl

theorem EndsInComment.cons (split_eq : (split cs).lexemes = lexeme :: (split rest).lexemes)
    (ends : EndsInComment rest) : EndsInComment cs := by
  obtain ⟨body, last, oneLine⟩ := ends
  refine ⟨body, ?_, oneLine⟩
  rw [split_eq, List.getLast?_cons, last]
  rfl

/-- Filling parts the lexemes before it from those behind. -/
theorem split_append (clean : (split cs).fault = none) (closed : ¬ EndsInComment cs)
    (fills : ∀ d, rest.head? = some d → startsFilling d = true) :
    split (cs ++ rest) = ⟨(split cs).lexemes ++ (split rest).lexemes, (split rest).fault⟩ := by
  induction length : cs.length using Nat.strongRecOn generalizing cs with
  | ind size ih =>
    cases cs with
    | nil => rfl
    | cons c cs =>
      cases read : scan c cs with
      | error fault =>
        rw [split_of_fault read] at clean
        cases clean
      | ok result =>
        obtain ⟨kind, further⟩ := result
        rcases reach_of_scan read with ⟨more, tail, rfl, rfl⟩ | ⟨rfl, rfl, oneLine, _⟩
        · rw [split_of_lexeme read] at clean
          have shorter : tail.length < size := by
            rw [← length, List.length_cons, List.length_append]
            omega
          have tailClosed : ¬ EndsInComment tail := fun ends =>
            closed (ends.cons (congrArg Split.lexemes (split_of_lexeme read)))
          have tailSplit := ih _ shorter clean tailClosed rfl
          have readToo : scan c (more ++ (tail ++ rest)) = .ok (kind, more.length) := by
            refine scan_local read fun d first => ?_
            cases tail with
            | nil => exact .inr (fills d first)
            | cons e tail => exact .inl first
          rw [List.cons_append, List.append_assoc, split_of_lexeme readToo, split_of_lexeme read,
            tailSplit]
          rfl
        · refine absurd ⟨cs, ?_, oneLine⟩ closed
          rw [split_of_lastComment oneLine]
          rfl

theorem chained_cons (l : Lexeme) (rest : List Lexeme) :
    chained (l :: rest) = l.chars ++ chained rest :=
  List.flatMap_cons

theorem chained_split_before (cs : List Char) : chained (split cs).lexemes <+: cs :=
  (List.prefix_append _ _).trans (splitFrom_covered 0 cs)

/-- What was read of a text before a fault is read alike when the text ends there. -/
theorem split_chained (cs : List Char) :
    split (chained (split cs).lexemes) = ⟨(split cs).lexemes, none⟩ := by
  induction length : cs.length using Nat.strongRecOn generalizing cs with
  | ind size ih =>
    cases cs with
    | nil => rfl
    | cons c cs =>
      cases read : scan c cs with
      | error fault =>
        rw [split_of_fault read]
        rfl
      | ok result =>
        obtain ⟨kind, further⟩ := result
        rcases reach_of_scan read with ⟨more, tail, rfl, rfl⟩ | ⟨rfl, rfl, oneLine, _⟩
        · have shorter : tail.length < size := by
            rw [← length, List.length_cons, List.length_append]
            omega
          have readToo : scan c (more ++ chained (split tail).lexemes) =
              .ok (kind, more.length) := by
            refine scan_local read fun d first => .inl ?_
            obtain ⟨back, whole⟩ := chained_split_before tail
            rw [← whole, List.head?_append, first]
            rfl
          rw [split_of_lexeme read, chained_cons, List.cons_append, split_of_lexeme readToo,
            ih _ shorter tail rfl]
        · rw [split_of_lastComment oneLine, chained, List.flatMap_singleton]
          exact split_of_lastComment oneLine

theorem place_append (start : Position) (front back : List Lexeme) :
    place start (front ++ back) =
      place start front ++ place (start.past (chained front)) back := by
  induction front generalizing start with
  | nil => rfl
  | cons l front ih =>
    rw [List.cons_append, place, place, ih, chained_cons, Position.past_append]
    cases l.kind <;> rfl

end Joining

end Lexeme

/-! ### Places counted from elsewhere -/

namespace Position

/-- The place that is as far behind `origin` as `p` is behind the start of its own text. Columns
    of the first line go on from the column of `origin`. -/
def behind (origin p : Position) : Position where
  index := origin.index + p.index
  line := origin.line + p.line
  column := if p.line = 0 then origin.column + p.column else p.column
  source := origin.source

variable (origin : Position)

theorem behind_start (source : Source) : origin.behind (start source) = origin := rfl

theorem behind_after (p : Position) (c : Char) :
    (origin.behind p).after c = origin.behind (p.after c) := by
  unfold after
  split <;> simp only [behind]
  · simp [Nat.add_assoc]
  · split <;> simp [Nat.add_assoc]

theorem behind_past (p : Position) (cs : List Char) :
    (origin.behind p).past cs = origin.behind (p.past cs) := by
  induction cs generalizing p with
  | nil => rfl
  | cons c cs ih => rw [past_cons, behind_after, ih, past_cons]

theorem behind_oneRight (p : Position) : (origin.behind p).oneRight = origin.behind p.oneRight := by
  simp only [behind, oneRight]
  split <;> rename_i line <;> simp [line, Nat.add_assoc]

end Position

def Span.behind (origin : Position) (span : Span) : Span :=
  ⟨origin.behind span.start, origin.behind span.stop⟩

def Token.behind (origin : Position) (t : Token) : Token := ⟨t.kind, t.span.behind origin⟩

def Diagnostic.behind (origin : Position) (d : Diagnostic) : Diagnostic :=
  { d with span := d.span.behind origin }

namespace Lexeme

theorem tokenEnd_behind (origin : Position) (kind : TokenKind) (start : Position)
    (chars : List Char) :
    tokenEnd kind (origin.behind start) chars = origin.behind (tokenEnd kind start chars) := by
  unfold tokenEnd
  split
  · exact Position.behind_oneRight origin start
  · exact Position.behind_past origin start chars

theorem place_behind (origin start : Position) (lexemes : List Lexeme) :
    place (origin.behind start) lexemes = (place start lexemes).map (Token.behind origin) := by
  induction lexemes generalizing start with
  | nil => rfl
  | cons l rest ih =>
    rw [place, place, Position.behind_past, ih]
    cases l.kind with
    | none => rfl
    | some kind =>
      simp only [List.map_cons, tokenEnd_behind]
      rfl

/-- Tokens do not depend on what their text stands behind. -/
theorem place_origin (origin : Position) (source : Source) (lexemes : List Lexeme) :
    place origin lexemes = (place (.start source) lexemes).map (Token.behind origin) :=
  place_behind origin (.start source) lexemes

end Lexeme

open Lexeme

/-! ### Filling -/

/-- A piece of text without a token other than a separator. -/
inductive Filling
  | blank (c : Char) (isBlank : c = ' ' ∨ c = '\t')
  | separator (c : Char) (separates : c = ';' ∨ c = '\n')
  | comment (body : List Char) (oneLine : '\n' ∉ body)

namespace Filling

def chars : Filling → List Char
  | .blank c _ | .separator c _ => [c]
  | .comment body _ => '#' :: (body ++ ['\n'])

/-- The separators among pieces of filling, of which the first one stands at `start`. -/
def tokens (start : Position) : List Filling → List Token
  | [] => []
  | f :: rest =>
    let after := tokens (start.past f.chars) rest
    match f with
    | .separator _ _ => ⟨.newline, ⟨start, start.oneRight⟩⟩ :: after
    | .blank _ _ | .comment _ _ => after

def lexeme (f : Filling) : Lexeme where
  chars := f.chars
  kind := match f with
    | .separator _ _ => some .newline
    | .blank _ _ | .comment _ _ => none

theorem split_chars (f : Filling) (rest : List Char) :
    split (f.chars ++ rest) = ⟨f.lexeme :: (split rest).lexemes, (split rest).fault⟩ := by
  cases f with
  | blank c isBlank =>
    have read : scan c ([] ++ rest) = skip 0 := by
      rcases isBlank with rfl | rfl <;> rfl
    exact split_of_lexeme read
  | separator c separates =>
    have read : scan c ([] ++ rest) = token .newline 0 := by
      rcases separates with rfl | rfl <;> rfl
    exact split_of_lexeme read
  | comment body oneLine =>
    refine split_of_lexeme ?_
    rw [List.append_assoc, List.length_append]
    exact comment_append oneLine (.inr ⟨rest, rfl⟩)

theorem split_flatMap (fillings : List Filling) (rest : List Char) :
    split (fillings.flatMap chars ++ rest) =
      ⟨fillings.map lexeme ++ (split rest).lexemes, (split rest).fault⟩ := by
  induction fillings with
  | nil => rfl
  | cons f fillings ih =>
    rw [List.flatMap_cons, List.append_assoc, split_chars, ih]
    rfl

theorem chained_lexemes (fillings : List Filling) :
    chained (fillings.map lexeme) = fillings.flatMap chars := by
  rw [chained, List.flatMap_map]
  rfl

theorem place_lexemes (start : Position) (fillings : List Filling) :
    place start (fillings.map lexeme) = tokens start fillings := by
  induction fillings generalizing start with
  | nil => rfl
  | cons f fillings ih =>
    rw [List.map_cons, place, ih]
    cases f <;> rfl

theorem startsFilling_head {fillings : List Filling} (nonempty : fillings ≠ []) (rest : List Char) :
    ∀ d, (fillings.flatMap chars ++ rest).head? = some d → startsFilling d = true := by
  intro d first
  cases fillings with
  | nil => exact absurd rfl nonempty
  | cons f fillings =>
    cases f with
    | blank c isBlank =>
      cases first
      rcases isBlank with rfl | rfl <;> rfl
    | separator c separates =>
      cases first
      rcases separates with rfl | rfl <;> rfl
    | comment body oneLine =>
      cases first
      rfl

end Filling

theorem Fault.diagnostic_behind (origin start : Position) (fault : Fault) :
    fault.diagnostic (origin.behind start) = (fault.diagnostic start).behind origin := by
  rw [diagnostic, Position.behind_past]
  rfl

/-- A text, filling and another text: read together they have the tokens of the first text, those of
    the filling and those of the second text, counted from where that one begins. If the second text
    has a fault, it is the fault of them all, counted from there as well. -/
theorem tokenize_between {first second : Source} {tokens : List Token} (name : String)
    (fillings : List Filling) (nonempty : fillings ≠ []) (read : tokenize first = .ok tokens)
    (closed : ¬ EndsInComment first.text.toList) :
    let front := first.text.toList ++ fillings.flatMap Filling.chars
    let whole : Source := ⟨name, String.ofList (front ++ second.text.toList)⟩
    let start := Position.start whole
    let origin := start.past front
    (origin.index = front.length ∧ origin.line = front.count '\n' ∧
      origin.column = (front.reverse.takeWhile (· != '\n')).length) ∧
    tokenize whole = match tokenize second with
      | .ok found => .ok (tokens.dropLast.map (.behind start) ++
          Filling.tokens (start.past first.text.toList) fillings ++ found.map (.behind origin))
      | .error d => .error (d.behind origin) := by
  intro front whole start origin
  have clean := clean_of_tokenize read
  rw [tokenize_of_clean clean] at read
  cases read
  have begins := Filling.startsFilling_head nonempty second.text.toList
  have joined : split whole.text.toList =
      ⟨(split first.text.toList).lexemes ++
        (fillings.map Filling.lexeme ++ (split second.text.toList).lexemes),
        (split second.text.toList).fault⟩ := by
    rw [String.toList_ofList, List.append_assoc, split_append clean closed begins,
      Filling.split_flatMap]
  have past (lexemes : List Lexeme) : start.past (chained ((split first.text.toList).lexemes ++
      (fillings.map Filling.lexeme ++ lexemes))) =
        origin.behind (Position.past (.start second) (chained lexemes)) := by
    rw [← Position.behind_past, Position.behind_start, ← Position.past_append]
    rw [chained, List.flatMap_append, List.flatMap_append, ← chained, ← chained, ← chained,
      chained_split clean, Filling.chained_lexemes, List.append_assoc]
  refine ⟨⟨?_, ?_, Position.start_past_column whole front⟩, ?_⟩
  · rw [Position.past_index]
    exact Nat.zero_add _
  · rw [Position.past_line]
    exact Nat.zero_add _
  rw [tokenize, tokenize, joined]
  dsimp only
  rw [past]
  cases (split second.text.toList).fault with
  | some fault => exact congrArg Except.error (Fault.diagnostic_behind origin _ fault)
  | none =>
    have third : place (start.past front) (split second.text.toList).lexemes = _ :=
      place_origin origin second _
    dsimp only
    rw [place_append, place_append, place_origin start first, chained_split clean,
      Filling.chained_lexemes, Filling.place_lexemes, ← Position.past_append, third,
      List.dropLast_concat, List.map_append]
    simp only [List.append_assoc]
    rfl

/-- A string over two lines goes on in the column where it stands, and what is on its second line
    keeps its column. -/
theorem tokenize_between_lines :
    let first : Source := ⟨"one", "x-"⟩
    let second : Source := ⟨"two", "\"a\nb\" 7;"⟩
    let fillings : List Filling :=
      [.comment [' ', ';'] (by decide), .separator ';' (.inl rfl), .blank '\t' (.inr rfl)]
    let front := first.text.toList ++ fillings.flatMap Filling.chars
    let whole : Source := ⟨"both", String.ofList (front ++ second.text.toList)⟩
    let start := Position.start whole
    let spot (p : Position) := (p.index, p.line, p.column)
    fillings ≠ [] ∧ ¬ EndsInComment first.text.toList ∧
      ∃ tokens found, tokenize first = .ok tokens ∧ tokenize second = .ok found ∧
        tokenize whole = .ok (tokens.dropLast.map (.behind start) ++
          Filling.tokens (start.past first.text.toList) fillings ++
          found.map (.behind (start.past front))) ∧
        (tokenize whole).map (List.map fun t => (spot t.span.start, spot t.span.stop)) =
          .ok [((0, 0, 0), 1, 0, 1), ((1, 0, 1), 2, 0, 2), ((6, 1, 0), 7, 1, 1),
            ((8, 1, 2), 13, 2, 2), ((14, 2, 3), 15, 2, 4), ((15, 2, 4), 16, 2, 5),
            ((16, 2, 5), 16, 2, 5)] := by
  intro first second fillings front whole start spot
  have nonempty : fillings ≠ [] := List.cons_ne_nil _ _
  have last : (split first.text.toList).lexemes.getLast? = some ⟨['-'], some (.symbol .minus)⟩ := by
    decide +kernel
  have closed : ¬ EndsInComment first.text.toList := by
    rintro ⟨body, commented, _⟩
    rw [last] at commented
    cases commented
  have read : ∃ tokens, tokenize first = .ok tokens :=
    ⟨_, tokenize_of_clean (by decide +kernel)⟩
  have readToo : ∃ found, tokenize second = .ok found :=
    ⟨_, tokenize_of_clean (by decide +kernel)⟩
  obtain ⟨tokens, read⟩ := read
  obtain ⟨found, readToo⟩ := readToo
  have whole_read := (@tokenize_between first second tokens "both" fillings nonempty read closed).2
  rw [readToo] at whole_read
  exact ⟨nonempty, closed, tokens, found, read, readToo, whole_read, by decide +kernel⟩

end Sharp

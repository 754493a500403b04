import Mathlib.Data.List.TakeWhile
import Sharp.Lexeme.Basic

/-!
How tokens are spelled. Which characters a token of a kind may stand on, and which character
behind it would carry it further, is said without reading a text. What is read from a text is the
only spelling at its start that nothing carries further.
-/
namespace Sharp

namespace Lexeme

/-- A string's body, with every quote in it protected, and the text it stands for. -/
inductive Decodes : List Char → List Char → Prop
  | nil : Decodes [] []
  | plain {c : Char} {body text : List Char} :
    c ≠ '"' → c ≠ '\\' → Decodes body text → Decodes (c :: body) (c :: text)
  | lineBreak {body text : List Char} :
    Decodes body text → Decodes ('\\' :: 'n' :: body) ('\n' :: text)
  | tab {body text : List Char} :
    Decodes body text → Decodes ('\\' :: 't' :: body) ('\t' :: text)
  | itself {c : Char} {body text : List Char} :
    c ≠ 'n' → c ≠ 't' → Decodes body text → Decodes ('\\' :: c :: body) (c :: text)

/-- A letter, then letters and underscores. -/
def IsWord (word : List Char) : Prop :=
  ∃ c more, word = c :: more ∧ Text.isAlphabetic c = true ∧
    ∀ d ∈ more, Text.isWordPart d = true

def AreDigits (digits : List Char) : Prop := ∀ c ∈ digits, c.isDigit = true

/-- The characters that stand for a token. The end of a text has none. -/
inductive Spells : TokenKind → List Char → Prop
  | int {digits : List Char} :
    digits ≠ [] → AreDigits digits → Decimal.digitsValue digits ≤ Nat.pow 2 63 - 1 →
    Spells (.int (Decimal.digitsValue digits)) digits
  | float {whole fraction : List Char} :
    whole ≠ [] → AreDigits whole → AreDigits fraction →
    Spells (.float (Decimal.decimalValue whole fraction)) (whole ++ '.' :: fraction)
  | identifier {word : List Char} :
    IsWord word → (∀ reserved : Keyword, word ≠ reserved.word.toList) →
    Spells (.identifier (String.ofList word)) word
  | keyword (reserved : Keyword) : Spells (.keyword reserved) reserved.word.toList
  | string {body text : List Char} :
    Decodes body text → Spells (.string (String.ofList text)) ('"' :: (body ++ ['"']))
  | symbol (sign : Symbol) : Spells (.symbol sign) sign.spelling.toList
  | semicolon : Spells .newline [';']
  | lineBreak : Spells .newline ['\n']

/-- Whether a character that follows a token belongs to it or makes another one of it. -/
def carriesOn : TokenKind → Char → Bool
  | .int _, c => c.isDigit || c == '.'
  | .float _, c => c.isDigit
  | .identifier _, c | .keyword _, c => Text.isWordPart c
  | .symbol .minus, c => c == '>'
  | .symbol .assign, c | .symbol .less, c | .symbol .greater, c => c == '='
  | _, _ => false

/-- Nothing that `p` holds of follows. -/
def StopsAt (p : Char → Bool) (rest : List Char) : Prop := ∀ c, rest.head? = some c → p c = false

/-! ### Runs of characters -/

section Runs

variable {p : Char → Bool} {run run' rest rest' : List Char}

theorem takeWhile_append_of_stops (inside : ∀ c ∈ run, p c = true) (stops : StopsAt p rest) :
    (run ++ rest).takeWhile p = run := by
  rw [List.takeWhile_append_of_pos inside]
  cases rest with
  | nil => simp
  | cons c rest => simp [stops c rfl]

theorem dropWhile_append_of_stops (inside : ∀ c ∈ run, p c = true) (stops : StopsAt p rest) :
    (run ++ rest).dropWhile p = rest := by
  rw [List.dropWhile_append_of_pos inside]
  cases rest with
  | nil => rfl
  | cons c rest => simp [stops c rfl]

theorem exists_run (p : Char → Bool) (cs : List Char) :
    ∃ run rest, cs = run ++ rest ∧ (∀ c ∈ run, p c = true) ∧ StopsAt p rest := by
  refine ⟨cs.takeWhile p, cs.dropWhile p, List.takeWhile_append_dropWhile.symm,
    fun c member => List.mem_takeWhile_imp member, ?_⟩
  intro c first
  have other := List.head?_dropWhile_not p cs
  rwa [first] at other

/-- A run ends where another one of the same text does. -/
theorem run_append_inj (inside : ∀ c ∈ run, p c = true) (inside' : ∀ c ∈ run', p c = true)
    (stops : StopsAt p rest) (stops' : StopsAt p rest') (same : run ++ rest = run' ++ rest') :
    run = run' ∧ rest = rest' := by
  have front := congrArg (List.takeWhile p) same
  have behind := congrArg (List.dropWhile p) same
  rw [takeWhile_append_of_stops inside stops, takeWhile_append_of_stops inside' stops'] at front
  rw [dropWhile_append_of_stops inside stops, dropWhile_append_of_stops inside' stops'] at behind
  exact ⟨front, behind⟩

end Runs

/-! ### Kinds of characters -/

section Classes

variable {c : Char}

theorem le_of_isAlphabetic (letter : Text.isAlphabetic c = true) : 65 ≤ c.toNat := by
  have ascends : Text.ascendFrom 65 Text.alphabeticRanges = true := by decide +kernel
  obtain ⟨range, member, low, _⟩ := (Text.inRanges_iff ascends).1 letter
  have beyond := Text.le_of_ascendFrom ascends range member
  omega

theorem isDigit_iff : c.isDigit = true ↔ 48 ≤ c.toNat ∧ c.toNat ≤ 57 := by
  rw [Char.isDigit, Bool.and_eq_true, decide_eq_true_eq, decide_eq_true_eq]
  exact Iff.rfl

theorem ne_of_toNat_ne {d : Char} (other : c.toNat ≠ d.toNat) : c ≠ d :=
  fun same => other (congrArg Char.toNat same)

/-- Blanks, comment signs and line breaks come before digits and letters, the semicolon between
    them. -/
theorem scan_visible (beyond : 35 < c.toNat) (other : c.toNat ≠ 59) (cs : List Char) :
    scan c cs = if c.isDigit then number c cs
      else if Text.isAlphabetic c then word c cs
      else if c = '"' then string cs
      else mark c cs := by
  have blank : isBlank c = false := by
    rw [isBlank, Bool.or_eq_false_iff, beq_eq_false_iff_ne, beq_eq_false_iff_ne]
    exact ⟨ne_of_toNat_ne (by simp; omega), ne_of_toNat_ne (by simp; omega)⟩
  have separator : isSeparator c = false := by
    rw [isSeparator, Bool.or_eq_false_iff, beq_eq_false_iff_ne, beq_eq_false_iff_ne]
    exact ⟨ne_of_toNat_ne (by simp; omega), ne_of_toNat_ne (by simp; omega)⟩
  have hash : c ≠ '#' := ne_of_toNat_ne (by simp; omega)
  rw [scan, blank, separator, if_neg Bool.false_ne_true, if_neg hash, if_neg Bool.false_ne_true]

theorem scan_digit (digit : c.isDigit = true) (cs : List Char) : scan c cs = number c cs := by
  have bounds := isDigit_iff.1 digit
  rw [scan_visible (by omega) (by omega), if_pos digit]

theorem scan_letter (letter : Text.isAlphabetic c = true) (cs : List Char) :
    scan c cs = word c cs := by
  have bound := le_of_isAlphabetic letter
  have digit : ¬ c.isDigit = true := by
    intro digit
    have bounds := isDigit_iff.1 digit
    omega
  rw [scan_visible (by omega) (by omega), if_neg digit, if_pos letter]

end Classes

/-! ### Numbers -/

section Numbers

variable {c : Char} {more fraction rest : List Char}

theorem number_int (inside : AreDigits more)
    (stops : StopsAt (carriesOn (.int (Decimal.digitsValue (c :: more)))) rest) :
    number c (more ++ rest) =
      if Decimal.digitsValue (c :: more) ≤ Nat.pow 2 63 - 1
      then token (.int (Decimal.digitsValue (c :: more))) more.length
      else .error (.oversizedInt (c :: more)) := by
  have noDigit : StopsAt Char.isDigit rest := fun d first =>
    (Bool.or_eq_false_iff.1 (stops d first)).1
  rw [number, takeWhile_append_of_stops inside noDigit, dropWhile_append_of_stops inside noDigit]
  dsimp only
  split
  · have noPoint := stops '.' rfl
    simp [carriesOn] at noPoint
  · rfl

theorem number_float (inside : AreDigits more) (behind : AreDigits fraction)
    (stops : StopsAt Char.isDigit rest) :
    number c (more ++ '.' :: (fraction ++ rest)) =
      token (.float (Decimal.decimalValue (c :: more) fraction))
        (more ++ '.' :: fraction).length := by
  have point : StopsAt Char.isDigit ('.' :: (fraction ++ rest)) := by
    intro d first
    cases first
    rfl
  rw [number, takeWhile_append_of_stops inside point, dropWhile_append_of_stops inside point]
  change token (.float (Decimal.decimalValue (c :: more)
      ((fraction ++ rest).takeWhile Char.isDigit))) _ = _
  rw [takeWhile_append_of_stops behind stops, List.length_append, List.length_cons,
    List.length_cons]
  congr 1
  omega

/-- What is read from the characters behind the first one: a token they spell together. -/
def Found (c : Char) (cs : List Char) (kind : TokenKind) (further : Nat) : Prop :=
  ∃ more rest, cs = more ++ rest ∧ further = more.length ∧ Spells kind (c :: more) ∧
    StopsAt (carriesOn kind) rest

theorem areDigits_cons (digit : c.isDigit = true) (inside : AreDigits more) :
    AreDigits (c :: more) :=
  List.forall_mem_cons.2 ⟨digit, inside⟩

/-- Digits are read with the point behind them and its digits, or alone if there is no point. -/
theorem number_cases (digit : c.isDigit = true) (cs : List Char) :
    (∃ more fraction rest, cs = more ++ '.' :: (fraction ++ rest) ∧ AreDigits (c :: more) ∧
      AreDigits fraction ∧ StopsAt Char.isDigit rest ∧
      number c cs = token (.float (Decimal.decimalValue (c :: more) fraction))
        (more ++ '.' :: fraction).length) ∨
    ∃ more rest, cs = more ++ rest ∧ AreDigits (c :: more) ∧
      StopsAt (carriesOn (.int (Decimal.digitsValue (c :: more)))) rest ∧
      number c cs = if Decimal.digitsValue (c :: more) ≤ Nat.pow 2 63 - 1
        then token (.int (Decimal.digitsValue (c :: more))) more.length
        else .error (.oversizedInt (c :: more)) := by
  obtain ⟨more, rest, rfl, inside, stops⟩ := exists_run Char.isDigit cs
  by_cases point : rest.head? = some '.'
  · obtain ⟨tail, rfl⟩ : ∃ tail, rest = '.' :: tail := List.head?_eq_some_iff.1 point
    obtain ⟨fraction, rest, rfl, behind, stopsBehind⟩ := exists_run Char.isDigit tail
    exact .inl ⟨more, fraction, rest, rfl, areDigits_cons digit inside, behind, stopsBehind,
      number_float inside behind stopsBehind⟩
  · have stopsInt : StopsAt (carriesOn (.int (Decimal.digitsValue (c :: more)))) rest := by
      intro d first
      refine Bool.or_eq_false_iff.2 ⟨stops d first, ?_⟩
      rw [beq_eq_false_iff_ne]
      rintro rfl
      exact point first
    exact .inr ⟨more, rest, rfl, areDigits_cons digit inside, stopsInt,
      number_int inside stopsInt⟩

theorem found_of_number {cs : List Char} {kind : TokenKind} {further : Nat}
    (digit : c.isDigit = true) (read : number c cs = token kind further) :
    Found c cs kind further := by
  rcases number_cases digit cs with ⟨more, fraction, rest, rfl, digits, behind, stops, same⟩ |
    ⟨more, rest, rfl, digits, stops, same⟩
  · rw [same] at read
    cases read
    exact ⟨more ++ '.' :: fraction, rest, by simp, rfl,
      Spells.float (List.cons_ne_nil c more) digits behind, stops⟩
  · rw [same] at read
    split at read
    · rename_i fits
      cases read
      exact ⟨more, rest, rfl, rfl, .int (List.cons_ne_nil c more) digits fits, stops⟩
    · cases read

end Numbers

/-! ### Words -/

section Words

variable {c : Char} {more rest : List Char}

theorem word_append (inside : ∀ d ∈ more, Text.isWordPart d = true)
    (stops : StopsAt Text.isWordPart rest) :
    word c (more ++ rest) = token (wordKind (c :: more)) more.length := by
  rw [word, takeWhile_append_of_stops inside stops]

theorem wordKind_reserved (reserved : Keyword) :
    wordKind reserved.word.toList = .keyword reserved := by
  rw [wordKind, String.ofList_toList, Keyword.ofWord?_word]

theorem wordKind_free {word : List Char}
    (free : ∀ reserved : Keyword, word ≠ reserved.word.toList) :
    wordKind word = .identifier (String.ofList word) := by
  rw [wordKind]
  cases known : Keyword.ofWord? (String.ofList word) with
  | none => rfl
  | some reserved =>
    have same := Keyword.ofWord?_eq_some_iff.1 known
    exact absurd (by rw [← same, String.toList_ofList]) (free reserved)

theorem spells_wordKind {word : List Char} (wordy : IsWord word) :
    Spells (wordKind word) word ∧ carriesOn (wordKind word) = Text.isWordPart := by
  by_cases free : ∀ reserved : Keyword, word ≠ reserved.word.toList
  · rw [wordKind_free free]
    exact ⟨.identifier wordy free, rfl⟩
  · obtain ⟨reserved, rfl⟩ : ∃ reserved : Keyword, word = reserved.word.toList := by
      simpa using free
    rw [wordKind_reserved]
    exact ⟨.keyword reserved, rfl⟩

theorem isWord_reserved (reserved : Keyword) : IsWord reserved.word.toList := by
  cases reserved <;> exact ⟨_, _, rfl, rfl, List.all_eq_true.1 rfl⟩

theorem found_of_word {cs : List Char} {kind : TokenKind} {further : Nat}
    (letter : Text.isAlphabetic c = true) (read : word c cs = token kind further) :
    Found c cs kind further := by
  obtain ⟨more, rest, rfl, inside, stops⟩ := exists_run Text.isWordPart cs
  rw [word_append inside stops] at read
  cases read
  obtain ⟨spelled, carries⟩ := spells_wordKind ⟨c, more, rfl, letter, inside⟩
  exact ⟨more, rest, rfl, rfl, spelled, carries ▸ stops⟩

theorem scan_word {kind : TokenKind} (wordy : IsWord (c :: more))
    (named : wordKind (c :: more) = kind) (stops : StopsAt Text.isWordPart rest) :
    scan c (more ++ rest) = token kind more.length := by
  obtain ⟨_, _, same, letter, inside⟩ := wordy
  cases same
  rw [scan_letter letter, word_append inside stops, named]

end Words

/-! ### Strings -/

section Strings

variable {body text rest cs : List Char}

theorem bodyLength_append (decoded : Decodes body text) :
    bodyLength (body ++ '"' :: rest) = some body.length := by
  induction decoded with
  | nil => rfl
  | plain noQuote noBackslash _ ih =>
    rw [List.cons_append, bodyLength, ih]
    · rfl
    · exact noQuote
    · exact fun backslash => absurd backslash noBackslash
    · exact fun _ _ backslash => absurd backslash noBackslash
  | lineBreak _ ih | tab _ ih | itself _ _ _ ih =>
    rw [List.cons_append, List.cons_append, bodyLength, ih]
    rfl

theorem unescape_of_decodes (decoded : Decodes body text) : unescape body = text := by
  induction decoded with
  | nil => rfl
  | plain _ noBackslash _ ih =>
    rw [unescape, ih]
    exact fun _ _ backslash => absurd backslash noBackslash
  | lineBreak _ ih | tab _ ih => rw [unescape, ih]; rfl
  | itself noBreak noTab _ ih => rw [unescape, ih, protectedChar, if_neg noBreak, if_neg noTab]

theorem decodes_protected (c : Char) (decoded : Decodes body text) :
    ∃ text, Decodes ('\\' :: c :: body) text := by
  rcases Decidable.em (c = 'n') with rfl | noBreak
  · exact ⟨_, .lineBreak decoded⟩
  rcases Decidable.em (c = 't') with rfl | noTab
  · exact ⟨_, .tab decoded⟩
  exact ⟨_, .itself noBreak noTab decoded⟩

theorem exists_body {length : Nat} (closed : bodyLength cs = some length) :
    ∃ body text rest, cs = body ++ '"' :: rest ∧ length = body.length ∧ Decodes body text := by
  induction cs using bodyLength.induct generalizing length with
  | case1 => cases closed
  | case2 rest =>
    cases closed
    exact ⟨[], [], rest, rfl, rfl, .nil⟩
  | case3 => cases closed
  | case4 c cs ih =>
    rw [bodyLength, Option.map_eq_some_iff] at closed
    obtain ⟨inner, found, rfl⟩ := closed
    obtain ⟨body, text, rest, rfl, rfl, decoded⟩ := ih found
    obtain ⟨text, protectedToo⟩ := decodes_protected c decoded
    exact ⟨'\\' :: c :: body, text, rest, rfl, rfl, protectedToo⟩
  | case5 c cs noQuote noEnd noBackslash ih =>
    rw [bodyLength, Option.map_eq_some_iff] at closed
    · obtain ⟨inner, found, rfl⟩ := closed
      obtain ⟨body, text, rest, rfl, rfl, decoded⟩ := ih found
      have plain : c ≠ '\\' := by
        rintro rfl
        cases body with
        | nil => exact noBackslash _ _ rfl rfl
        | cons d body => exact noBackslash _ _ rfl rfl
      exact ⟨c :: body, c :: text, rest, rfl, rfl, .plain noQuote plain decoded⟩
    all_goals assumption

theorem string_append (decoded : Decodes body text) :
    string (body ++ '"' :: rest) = token (.string (String.ofList text)) (body ++ ['"']).length := by
  rw [string, bodyLength_append decoded]
  change token (.string (String.ofList (unescape ((body ++ '"' :: rest).take body.length)))) _ = _
  rw [List.take_left, unescape_of_decodes decoded, List.length_append]
  rfl

theorem found_of_string {kind : TokenKind} {further : Nat}
    (read : string cs = token kind further) : Found '"' cs kind further := by
  cases closed : bodyLength cs with
  | none =>
    rw [string, closed] at read
    cases read
  | some length =>
    obtain ⟨body, text, rest, rfl, rfl, decoded⟩ := exists_body closed
    rw [string_append decoded] at read
    cases read
    exact ⟨body ++ ['"'], rest, by simp, rfl, .string decoded, fun _ _ => rfl⟩

end Strings

/-! ### Signs -/

section Signs

variable {c d : Char} {more rest cs : List Char} {kind : TokenKind} {further : Nat}

theorem stopsAt_beq (other : ∀ tail, cs = d :: tail → False) : StopsAt (· == d) cs := by
  intro c first
  rw [beq_eq_false_iff_ne]
  rintro rfl
  obtain ⟨tail, same⟩ := List.head?_eq_some_iff.1 first
  exact other tail same

theorem cons_ne_of_stops (stops : StopsAt (· == d) rest) (tail : List Char) : rest ≠ d :: tail := by
  rintro rfl
  have carried : (d == d) = false := stops d rfl
  rw [beq_self_eq_true] at carried
  cases carried

/-- A sign that begins another one stands alone if the other's second character does not follow. -/
theorem found_of_mark (read : mark c cs = token kind further) : Found c cs kind further := by
  unfold mark at read
  split at read <;> cases read
  case h_3 other | h_15 other | h_17 other | h_19 other =>
    exact ⟨[], cs, rfl, rfl, .symbol _, stopsAt_beq other⟩
  case h_2 | h_12 | h_14 | h_16 | h_18 => exact ⟨[_], _, rfl, rfl, .symbol _, fun _ _ => rfl⟩
  all_goals exact ⟨[], cs, rfl, rfl, .symbol _, fun _ _ => rfl⟩

theorem scan_symbol (sign : Symbol) (spelled : sign.spelling.toList = c :: more)
    (stops : StopsAt (carriesOn (.symbol sign)) rest) :
    scan c (more ++ rest) = token (.symbol sign) more.length := by
  cases sign <;> cases spelled
  case minus => exact mark.eq_3 rest (cons_ne_of_stops stops)
  case assign => exact mark.eq_15 rest (cons_ne_of_stops stops)
  case less => exact mark.eq_17 rest (cons_ne_of_stops stops)
  case greater => exact mark.eq_19 rest (cons_ne_of_stops stops)
  all_goals rfl

end Signs

/-! ### All tokens -/

section Tokens

variable {c : Char} {more rest cs : List Char} {kind : TokenKind} {further : Nat}

theorem found_of_scan (read : scan c cs = token kind further) : Found c cs kind further := by
  unfold scan at read
  split at read
  · cases read
  split at read
  · cases read
  split at read
  · rename_i separator
    cases read
    rcases Bool.or_eq_true_iff.1 separator with semicolon | lineBreak
    · cases eq_of_beq semicolon
      exact ⟨[], cs, rfl, rfl, .semicolon, fun _ _ => rfl⟩
    · cases eq_of_beq lineBreak
      exact ⟨[], cs, rfl, rfl, .lineBreak, fun _ _ => rfl⟩
  split at read
  · rename_i digit
    exact found_of_number digit read
  split at read
  · rename_i letter
    exact found_of_word letter read
  split at read
  · rename_i quote
    cases quote
    exact found_of_string read
  · exact found_of_mark read

theorem scan_of_spells (spelled : Spells kind (c :: more)) (stops : StopsAt (carriesOn kind) rest) :
    scan c (more ++ rest) = token kind more.length := by
  generalize same : c :: more = lexeme at spelled
  cases spelled with
  | int _ digits fits =>
    cases same
    obtain ⟨digit, inside⟩ := List.forall_mem_cons.1 digits
    rw [scan_digit digit, number_int inside stops, if_pos fits]
  | @float whole fraction nonempty digits behind =>
    cases whole with
    | nil => exact absurd rfl nonempty
    | cons d whole =>
      obtain ⟨rfl, rfl⟩ : c = d ∧ more = whole ++ '.' :: fraction := List.cons.inj same
      obtain ⟨digit, inside⟩ := List.forall_mem_cons.1 digits
      rw [scan_digit digit, List.append_assoc, List.cons_append,
        number_float inside behind stops]
  | identifier wordy free =>
    cases same
    exact scan_word wordy (wordKind_free free) stops
  | keyword reserved =>
    have wordy := isWord_reserved reserved
    have named := wordKind_reserved reserved
    rw [← same] at wordy named
    exact scan_word wordy named stops
  | string decoded =>
    cases same
    change string _ = _
    rw [List.append_assoc, List.cons_append, List.nil_append, string_append decoded]
  | symbol sign => exact scan_symbol sign same.symm stops
  | semicolon | lineBreak =>
    cases same
    rfl

/-- A token is read exactly if it is spelled at the start of a text and nothing carries it on. -/
theorem scan_iff : scan c cs = token kind further ↔ Found c cs kind further := by
  constructor
  · exact found_of_scan
  · intro given
    obtain ⟨more, rest, rfl, rfl, spelled, stops⟩ := given
    exact scan_of_spells spelled stops

end Tokens

end Lexeme

end Sharp

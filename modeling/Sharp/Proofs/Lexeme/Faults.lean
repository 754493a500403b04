import Sharp.Proofs.Lexeme.Locality

/-!
Exact faults. A text without tokens is read up to its first fault, and what the fault reports is
there: a character that begins nothing, an exclamation mark alone, a string that nothing closes or
digits for no integer. No text is reported for two of them.
-/
namespace Sharp

namespace Lexeme

/-! ### Where reading stops -/

section Stopping

variable {c : Char} {cs : List Char} {fault : Fault}

/-- A fault is met at the first character behind the lexemes read before it. -/
theorem exists_scan_fault (found : (split cs).fault = some fault) :
    ∃ c rest, cs = chained (split cs).lexemes ++ c :: rest ∧ scan c rest = .error fault := by
  induction length : cs.length using Nat.strongRecOn generalizing cs with
  | ind size ih =>
    cases cs with
    | nil => cases found
    | cons c cs =>
      cases read : scan c cs with
      | error met =>
        rw [split_of_fault read] at found ⊢
        cases found
        exact ⟨c, cs, rfl, read⟩
      | ok result =>
        obtain ⟨kind, further⟩ := result
        rcases reach_of_scan read with ⟨more, tail, rfl, rfl⟩ | ⟨rfl, rfl, oneLine, _⟩
        · have shorter : tail.length < size := by
            rw [← length, List.length_cons, List.length_append]
            omega
          rw [split_of_lexeme read] at found ⊢
          obtain ⟨d, rest, same, faulty⟩ := ih _ shorter found rfl
          refine ⟨d, rest, ?_, faulty⟩
          rw [chained_cons, List.cons_append, List.cons_append, List.append_assoc, ← same]
        · rw [split_of_lastComment oneLine] at found
          cases found

end Stopping

/-! ### What stops it -/

section Causes

variable {c : Char} {cs body : List Char} {fault : Fault}

def signBeginners : List Char := "+-*/^()[],!=<>".toList

/-- No blank, comment, separator, number, word, string or sign begins with the character. -/
def BeginsNothing (c : Char) : Prop :=
  c ∉ " \t#;\n\"".toList ∧ c.isDigit = false ∧ Text.isAlphabetic c = false ∧ c ∉ signBeginners

theorem fault_of_mark (read : mark c cs = .error fault) :
    (c = '!' ∧ cs.head? ≠ some '=' ∧ fault = .missingEquals cs.head?) ∨
      (c ∉ signBeginners ∧ fault = .illegalCharacter c) := by
  unfold mark at read
  split at read <;> cases read
  case h_13 other =>
    refine .inl ⟨rfl, fun first => ?_, rfl⟩
    obtain ⟨tail, same⟩ := List.head?_eq_some_iff.1 first
    exact other tail same
  case h_20 =>
    refine .inr ⟨fun member => ?_, rfl⟩
    have signs : signBeginners =
        ['+', '-', '*', '/', '^', '(', ')', '[', ']', ',', '!', '=', '<', '>'] := by decide
    simp only [signs, List.mem_cons, List.not_mem_nil, or_false] at member
    rcases member with rfl | rfl | rfl | rfl | rfl | rfl | rfl | rfl | rfl | rfl | rfl | rfl |
      rfl | rfl <;> contradiction

theorem fault_of_number (digit : c.isDigit = true) (read : number c cs = .error fault) :
    ∃ more rest, cs = more ++ rest ∧ AreDigits (c :: more) ∧
      StopsAt (carriesOn (.int (Decimal.digitsValue (c :: more)))) rest ∧
      Nat.pow 2 63 - 1 < Decimal.digitsValue (c :: more) ∧ fault = .oversizedInt (c :: more) := by
  rcases number_cases digit cs with ⟨_, _, _, _, _, _, _, same⟩ |
    ⟨more, rest, rfl, digits, stops, same⟩
  · rw [same] at read
    cases read
  · rw [same] at read
    split at read
    · cases read
    · rename_i big
      cases read
      exact ⟨more, rest, rfl, digits, stops, Nat.lt_of_not_le big, rfl⟩

/-- A backslash protects what follows it unless it is protected itself. -/
def EndsProtecting (front : List Char) : Prop :=
  (front.reverse.takeWhile (· == '\\')).length % 2 = 1

/-- Read from the left, a backslash protects exactly if none before it protects it. -/
theorem endsProtecting_iff (front : List Char) :
    EndsProtecting front ↔ front.foldl (fun protecting c => c == '\\' && !protecting) false := by
  induction front using List.reverseRecOn with
  | nil => simp [EndsProtecting]
  | append_singleton front c ih =>
    rw [EndsProtecting] at ih
    rw [EndsProtecting, List.reverse_append, List.foldl_append, List.reverse_singleton,
      List.singleton_append, List.takeWhile_cons, List.foldl_cons, List.foldl_nil]
    by_cases backslash : c = '\\'
    · rw [if_pos (by simp [backslash]), List.length_cons, backslash, beq_self_eq_true,
        Bool.true_and, Bool.not_eq_true', ← Bool.not_eq_true, ← ih]
      omega
    · simp [backslash]

/-- In a string that nothing closes every quote is protected. -/
theorem endsProtecting_of_unclosed (unclosed : bodyLength body = none) {front rest : List Char}
    (quote : body = front ++ '"' :: rest) : EndsProtecting front := by
  rw [endsProtecting_iff]
  induction body using bodyLength.induct generalizing front with
  | case1 => simp at quote
  | case2 => cases unclosed
  | case3 =>
    cases front with
    | nil => cases quote
    | cons d front => simp at quote
  | case4 c cs ih =>
    rw [bodyLength, Option.map_eq_none_iff] at unclosed
    rcases front with _ | ⟨d, _ | ⟨e, front⟩⟩
    · cases quote
    · cases quote
      rfl
    · obtain ⟨rfl, rfl, same⟩ : d = '\\' ∧ e = c ∧ cs = front ++ '"' :: rest := by
        simpa [eq_comm] using quote
      -- Behind the character that is protected nothing is.
      simpa using ih unclosed same
  | case5 c cs noQuote noEnd noBackslash ih =>
    have plain : c ≠ '\\' := by
      rintro rfl
      cases cs with
      | nil => exact noEnd rfl rfl
      | cons d cs => exact noBackslash d cs rfl rfl
    rw [bodyLength, Option.map_eq_none_iff] at unclosed
    · cases front with
      | nil => exact absurd (List.cons.inj quote).1 noQuote
      | cons d front =>
        obtain ⟨rfl, same⟩ := List.cons.inj quote
        simpa [beq_false_of_ne plain] using ih unclosed same
    all_goals assumption

theorem fault_of_string (read : string cs = .error fault) :
    (∀ front rest, cs = front ++ '"' :: rest → EndsProtecting front) ∧
      fault = .unclosedString cs := by
  cases unclosed : bodyLength cs with
  | some length =>
    rw [string, unclosed] at read
    cases read
  | none =>
    rw [string, unclosed] at read
    cases read
    exact ⟨fun _ _ => endsProtecting_of_unclosed unclosed, rfl⟩

/-- The cases of a fault, said of the character it is met at and those behind. -/
theorem fault_of_scan (read : scan c cs = .error fault) :
    (BeginsNothing c ∧ fault = .illegalCharacter c) ∨
      (c = '!' ∧ cs.head? ≠ some '=' ∧ fault = .missingEquals cs.head?) ∨
      (c = '"' ∧ (∀ front rest, cs = front ++ '"' :: rest → EndsProtecting front) ∧
        fault = .unclosedString cs) ∨
      ∃ more rest, cs = more ++ rest ∧ AreDigits (c :: more) ∧
        StopsAt (carriesOn (.int (Decimal.digitsValue (c :: more)))) rest ∧
        Nat.pow 2 63 - 1 < Decimal.digitsValue (c :: more) ∧ fault = .oversizedInt (c :: more) := by
  unfold scan at read
  split at read
  · cases read
  split at read
  · cases read
  split at read
  · cases read
  split at read
  · rename_i digit
    exact .inr (.inr (.inr (fault_of_number digit read)))
  split at read
  · cases read
  split at read
  · rename_i quote
    exact .inr (.inr (.inl ⟨quote, fault_of_string read⟩))
  · rename_i noBlank noHash noSeparator noDigit noLetter noQuote
    rcases fault_of_mark read with missing | ⟨noSign, rfl⟩
    · exact .inr (.inl missing)
    · refine .inl ⟨⟨?_, Bool.eq_false_iff.2 noDigit, Bool.eq_false_iff.2 noLetter, noSign⟩, rfl⟩
      simp only [isBlank, isSeparator, Bool.or_eq_true, beq_iff_eq, not_or] at noBlank noSeparator
      simp [noBlank, noHash, noSeparator, noQuote]

end Causes

end Lexeme

open Lexeme

/-! ### What is reported -/

/-- A diagnostic that is right about a text, and the fault it reports there. -/
def Fault.Reported (text : List Char) (d : Diagnostic) (fault : Fault) : Prop :=
  let start := d.span.start.index
  let stop := d.span.stop.index
  match fault with
  | .illegalCharacter c =>
    d.cause = .illegalCharacter ∧ d.details = "'" ++ String.singleton c ++ "'" ∧
      text[start]? = some c ∧ BeginsNothing c ∧ stop = start + 1
  | .missingEquals next =>
    d.cause = .expectedCharacter ∧ d.details = "'=' (after '!')" ∧
      text[start]? = some '!' ∧ text[start + 1]? = next ∧ next ≠ some '=' ∧
      stop = min (start + 2) text.length
  | .unclosedString body =>
    d.cause = .expectedCharacter ∧ d.details = "'\"' (to close string literal)" ∧
      text.drop start = '"' :: body ∧
      (∀ front rest, body = front ++ '"' :: rest → EndsProtecting front) ∧ stop = text.length
  | .oversizedInt digits =>
    d.cause = .invalidNumber ∧
      d.details = "'" ++ String.ofList digits ++ "' does not fit in an integer" ∧
      ∃ rest, text.drop start = digits ++ rest ∧ AreDigits digits ∧
        (∀ c, rest.head? = some c → c.isDigit = false ∧ c ≠ '.') ∧
        Nat.pow 2 63 - 1 < Decimal.digitsValue digits ∧ stop = start + digits.length

section Reports

variable {source : Source} {d : Diagnostic} {text front rest : List Char} {c : Char}
  {fault other : Fault}

theorem Fault.Reported.wording (reported : fault.Reported text d) :
    d.cause = fault.cause ∧ d.details = fault.details := by
  cases fault <;> exact ⟨reported.1, reported.2.1⟩

theorem Fault.Reported.unique (first : fault.Reported text d) (second : other.Reported text d) :
    fault = other := by
  have cause : fault.cause = other.cause := first.wording.1.symm.trans second.wording.1
  have details : fault.details = other.details := first.wording.2.symm.trans second.wording.2
  cases fault <;> cases other
  case illegalCharacter.illegalCharacter c e =>
    obtain ⟨-, -, spot, -, -⟩ := first
    obtain ⟨-, -, spotToo, -, -⟩ := second
    rw [Option.some.inj (spot.symm.trans spotToo)]
  case missingEquals.missingEquals next other =>
    obtain ⟨-, -, -, behind, -, -⟩ := first
    obtain ⟨-, -, -, behindToo, -, -⟩ := second
    rw [← behind, ← behindToo]
  case unclosedString.unclosedString body other =>
    obtain ⟨-, -, rest, -, -⟩ := first
    obtain ⟨-, -, restToo, -, -⟩ := second
    rw [(List.cons.inj (rest.symm.trans restToo)).2]
  case oversizedInt.oversizedInt digits other =>
    obtain ⟨-, -, rest, same, -, -, -, stop⟩ := first
    obtain ⟨-, -, others, sameToo, -, -, -, stopToo⟩ := second
    rw [(List.append_inj (same.symm.trans sameToo) (by omega)).1]
  case missingEquals.unclosedString | unclosedString.missingEquals =>
    simp [Fault.details] at details
  all_goals cases cause

theorem reported_of_scan (source : Source) (read : scan c rest = .error fault) :
    fault.Reported (front ++ c :: rest) (fault.diagnostic (Position.past (.start source) front)) := by
  have start := Position.start_past_index source front
  have stop (cs : List Char) :
      ((Position.past (.start source) front).past cs).index = front.length + cs.length := by
    rw [Position.past_index, start]
  have spot : (front ++ c :: rest)[front.length]? = some c := by simp
  rcases fault_of_scan read with ⟨begins, rfl⟩ | ⟨rfl, first, rfl⟩ | ⟨rfl, closes, rfl⟩ |
    ⟨more, tail, rfl, digits, stops, big, rfl⟩
  · refine ⟨rfl, rfl, ?_, begins, ?_⟩
    · exact start ▸ spot
    · exact (stop [c]).trans (start ▸ rfl)
  · refine ⟨rfl, rfl, ?_, ?_, first, ?_⟩
    · exact start ▸ spot
    · rw [Fault.diagnostic, start]
      cases rest <;> simp
    · refine (stop _).trans ?_
      rw [Fault.diagnostic, start]
      cases rest <;> simp [Fault.chars]
  · refine ⟨rfl, rfl, ?_, closes, ?_⟩
    · rw [Fault.diagnostic, start, List.drop_left]
    · refine (stop _).trans ?_
      rw [Fault.chars, List.length_append]
  · refine ⟨rfl, rfl, tail, ?_, digits, ?_, big, ?_⟩
    · rw [Fault.diagnostic, start, List.drop_left]
      rfl
    · intro d first
      simpa [carriesOn] using stops d first
    · exact (stop _).trans (start ▸ rfl)

/-- A text without tokens has some up to the place of its fault, and exactly one fault is reported
    there. -/
theorem tokenize_error_reported (fails : tokenize source = .error d) :
    (∃ tokens, tokenize ⟨source.name,
      String.ofList (source.text.toList.take d.span.start.index)⟩ = .ok tokens) ∧
      ∃! fault : Fault, fault.Reported source.text.toList d := by
  obtain ⟨fault, found, rfl⟩ := exists_fault fails
  obtain ⟨c, rest, same, read⟩ := exists_scan_fault found
  have front : source.text.toList.take (chained (split source.text.toList).lexemes).length =
      chained (split source.text.toList).lexemes :=
    (List.prefix_iff_eq_take.1 (chained_split_before _)).symm
  constructor
  · refine ⟨_, tokenize_of_clean ?_⟩
    rw [String.toList_ofList, Fault.diagnostic, Position.start_past_index, front, split_chained]
  · have reported : fault.Reported (chained (split source.text.toList).lexemes ++ c :: rest) _ :=
      reported_of_scan source read
    rw [← same] at reported
    exact ⟨fault, reported, fun other reportedToo => reportedToo.unique reported⟩

/-- Zeros in front do not count, nor do signs in strings and comments. -/
theorem tokenize_error_reported_digits :
    let source : Source := ⟨"shell", "00\"!\\\"\"09223372036854775807 # \"!\n09223372036854775808!"⟩
    ∃ d, tokenize source = .error d ∧ d.span.start.index = 33 ∧ d.span.stop.index = 53 ∧
      (∃ tokens, tokenize ⟨source.name,
        String.ofList (source.text.toList.take d.span.start.index)⟩ = .ok tokens) ∧
      ∃! fault : Fault, fault.Reported source.text.toList d := by
  intro source
  have spot : (tokenize source).mapError (fun d => (d.span.start.index, d.span.stop.index)) =
      .error (33, 53) := by
    decide +kernel
  cases fails : tokenize source with
  | ok tokens =>
    rw [fails] at spot
    cases spot
  | error d =>
    rw [fails] at spot
    have ends := Prod.mk.inj (Except.error.inj spot)
    exact ⟨d, rfl, ends.1, ends.2, tokenize_error_reported fails⟩

end Reports

end Sharp

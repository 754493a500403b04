import Sharp.Proofs.Lexeme.Locality

/-!
Lexing undoes printing. Tokens written out as they are spelled, with a blank between neighbours,
are read back where they were written: an integer in base ten, a string with its quotes and
backslashes protected, a separator as a semicolon or a line break.
-/
namespace Sharp

open Lexeme

/-- A token that a text can spell. A float is given by its digits. -/
inductive Printable
  | int (value : Nat) (fits : value ≤ Nat.pow 2 63 - 1)
  | float (whole fraction : List Char) (nonempty : whole ≠ []) (digits : AreDigits whole)
    (behind : AreDigits fraction)
  | string (text : String)
  | identifier (name : String) (wordy : IsWord name.toList)
    (free : ∀ reserved : Keyword, name ≠ reserved.word)
  | keyword (word : Keyword)
  | symbol (sign : Symbol)
  | separator (c : Char) (separates : c = ';' ∨ c = '\n')

namespace Printable

def kind : Printable → TokenKind
  | .int value _ => .int value
  | .float whole fraction _ _ _ => .float (Decimal.decimalValue whole fraction)
  | .string text => .string text
  | .identifier name _ _ => .identifier name
  | .keyword word => .keyword word
  | .symbol sign => .symbol sign
  | .separator _ _ => .newline

/-- Only quotes and backslashes need protection in a string. -/
def protect (c : Char) : List Char := if c = '"' ∨ c = '\\' then ['\\', c] else [c]

def spelling : Printable → List Char
  | .int value _ => (toString value).toList
  | .float whole fraction _ _ _ => whole ++ '.' :: fraction
  | .string text => '"' :: (text.toList.flatMap protect ++ ['"'])
  | .identifier name _ _ => name.toList
  | .keyword word => word.word.toList
  | .symbol sign => sign.spelling.toList
  | .separator c _ => [c]

def printed (items : List Printable) : List Char := List.intercalate [' '] (items.map spelling)

/-- Each token on its spelling, one character behind the token before it. -/
def places : Nat → List Printable → List Piece
  | _, [] => []
  | start, item :: rest =>
    let stop := start + item.spelling.length
    ⟨item.kind, start, stop⟩ :: places (stop + 1) rest

theorem decodes_protect (text : List Char) : Decodes (text.flatMap protect) text := by
  induction text with
  | nil => exact .nil
  | cons c text ih =>
    rw [List.flatMap_cons, protect]
    split
    · rename_i awkward
      rcases awkward with rfl | rfl
      · exact .itself (by decide) (by decide) ih
      · exact .itself (by decide) (by decide) ih
    · rename_i plain
      rw [not_or] at plain
      exact .plain plain.1 plain.2 ih

theorem spells_toString {value : Nat} (fits : value ≤ Nat.pow 2 63 - 1) :
    Spells (.int value) (toString value).toList := by
  have digits : (toString value).toList = Nat.toDigits 10 value := Nat.toList_repr
  have same : Decimal.digitsValue (Nat.toDigits 10 value) = value :=
    Nat.ofDigitChars_toDigits (by decide) (by decide)
  have spelled : Spells (.int (Decimal.digitsValue (Nat.toDigits 10 value)))
      (Nat.toDigits 10 value) :=
    .int Nat.toDigits_ne_nil
      (fun _ member => Nat.isDigit_of_mem_toDigits (by decide) (by decide) member)
      (same.symm ▸ fits)
  rw [digits]
  rwa [same] at spelled

theorem spells (item : Printable) : Spells item.kind item.spelling := by
  cases item with
  | int value fits => exact spells_toString fits
  | float whole fraction nonempty digits behind => exact .float nonempty digits behind
  | string text =>
    have spelled := Spells.string (decodes_protect text.toList)
    rwa [String.ofList_toList] at spelled
  | identifier name wordy free =>
    have spelled := Spells.identifier wordy fun reserved same =>
      free reserved (String.toList_inj.1 same)
    rwa [String.ofList_toList] at spelled
  | keyword word => exact .keyword word
  | symbol sign => exact .symbol sign
  | separator c separates =>
    rcases separates with rfl | rfl
    · exact .semicolon
    · exact .lineBreak

theorem printed_singleton (item : Printable) : printed [item] = item.spelling :=
  List.intercalate_singleton

theorem printed_cons (item next : Printable) (rest : List Printable) :
    printed (item :: next :: rest) = item.spelling ++ ' ' :: printed (next :: rest) := by
  rw [printed, List.map_cons, List.map_cons, List.intercalate_cons_cons, ← List.map_cons,
    List.append_assoc]
  rfl

/-- A blank ends every token. -/
theorem runs_printed (start : Nat) (items : List Printable) :
    Runs start (printed items) (places start items) := by
  induction items generalizing start with
  | nil => exact .finish
  | cons item rest ih =>
    cases rest with
    | nil =>
      have stops : StopsAt (carriesOn item.kind) [] := by simp [StopsAt]
      have runs := Runs.token (n := start) item.spells stops .finish
      rw [List.append_nil] at runs
      rwa [printed_singleton]
    | cons next rest =>
      have stops : StopsAt (carriesOn item.kind) (' ' :: printed (next :: rest)) := by
        intro c first
        cases first
        exact carriesOn_startsFilling item.kind rfl
      rw [printed_cons]
      exact .token item.spells stops (.blank (.inl rfl) (ih _))

theorem slices_places {text : List Char} {reached : Nat} (items : List Printable)
    (same : text.drop reached = printed items) :
    (places reached items).map (fun p => slice text p.start p.stop) = items.map spelling := by
  induction items generalizing reached with
  | nil => rfl
  | cons item rest ih =>
    cases rest with
    | nil =>
      have alone : text.drop reached = item.spelling ++ [] := by
        rw [same, printed_singleton, List.append_nil]
      rw [places, places, List.map_singleton, List.map_singleton, slice_of_drop alone]
    | cons next rest =>
      rw [printed_cons] at same
      have behind : text.drop (reached + item.spelling.length + 1) = printed (next :: rest) := by
        rw [← List.drop_drop, drop_of_drop same, List.drop_one, List.tail_cons]
      rw [places, List.map_cons, slice_of_drop same, ih behind]
      rfl

end Printable

open Printable

/-- What is printed is read back: the same tokens, each where its spelling stands, and the end. -/
theorem tokenize_printed (name : String) (items : List Printable) :
    let text := printed items
    (∃ tokens, tokenize ⟨name, String.ofList text⟩ = .ok tokens ∧
      tokens.map Token.piece = places 0 items ++ [⟨.eof, text.length, text.length⟩]) ∧
      (places 0 items).map (fun p => slice text p.start p.stop) = items.map spelling := by
  intro text
  refine ⟨maximalMunch_iff_tokenize.1 ?_, slices_places items List.drop_zero⟩
  rw [String.toList_ofList, maximalMunch_iff]
  exact ⟨places 0 items, rfl, runs_printed 0 items⟩

/-- Quotes, backslashes and signs in a string, and the greatest integer. -/
example :
    let items : List Printable := [.string "\\\"#;\nn", .keyword .end, .separator '\n' (.inr rfl),
      .int 9223372036854775807 (Nat.le_refl _), .symbol .less, .symbol .assign]
    String.ofList (printed items) = "\"\\\\\\\"#;\nn\" END \n 9223372036854775807 < =" ∧
      (tokenize ⟨"shell", String.ofList (printed items)⟩).map (List.map Token.piece) =
        .ok [⟨.string "\\\"#;\nn", 0, 10⟩, ⟨.keyword .end, 11, 14⟩, ⟨.newline, 15, 16⟩,
          ⟨.int 9223372036854775807, 17, 36⟩, ⟨.symbol .less, 37, 38⟩, ⟨.symbol .assign, 39, 40⟩,
          ⟨.eof, 40, 40⟩] := by
  decide +kernel

end Sharp

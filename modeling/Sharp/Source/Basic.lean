import Sharp.Text.Quoted

/-!
A named source text and its lines. Lines are counted from zero, parted by line breaks, and a line
beyond the last one is empty.
-/
namespace Sharp

structure Source where
  name : String
  text : String
deriving DecidableEq

/-- Always at least one line; a line break ends one and starts the next. -/
def splitLines : List Char → List (List Char)
  | [] => [[]]
  | c :: cs =>
    if c = '\n' then [] :: splitLines cs
    else match splitLines cs with
      | [] => [[c]]
      | line :: rest => (c :: line) :: rest

theorem splitLines_ne_nil (cs : List Char) : splitLines cs ≠ [] := by
  cases cs with
  | nil => simp [splitLines]
  | cons c cs =>
    rw [splitLines]
    split
    · simp
    · split <;> simp

theorem intercalate_splitLines (cs : List Char) :
    List.intercalate ['\n'] (splitLines cs) = cs := by
  induction cs with
  | nil => rfl
  | cons c cs ih =>
    have some_line := splitLines_ne_nil cs
    rw [splitLines]
    cases lines : splitLines cs with
    | nil => exact absurd lines some_line
    | cons line rest =>
      rw [lines] at ih
      split
      · rename_i break_
        rw [break_, ← ih]
        simp [List.intercalate]
      · rw [← ih]
        cases rest <;> simp [List.intercalate]

namespace Source

def lines (s : Source) : List (List Char) := splitLines s.text.toList

def lineChars (s : Source) (n : Nat) : List Char := s.lines.getD n []

def line (s : Source) (n : Nat) : String := String.ofList (s.lineChars n)

/-- The text stays out of the summary. -/
def summary (s : Source) : String :=
  "Source \x7b name: " ++ Text.quoted s.name ++ ", .. \x7d"

def tallSummary (s : Source) : String :=
  "Source \x7b\n    name: " ++ Text.quoted s.name ++ ",\n    ..\n\x7d"

end Source

end Sharp

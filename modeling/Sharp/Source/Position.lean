import Sharp.Source.Basic

/-!
Positions count the characters, line breaks and columns before them. They move over one character
at a time; a line break starts the next line at its first column.
-/
namespace Sharp

structure Position where
  index : Nat
  line : Nat
  column : Nat
  source : Source
deriving DecidableEq

namespace Position

def start (source : Source) : Position := ⟨0, 0, 0, source⟩

def after (p : Position) (c : Char) : Position :=
  if c = '\n' then { p with index := p.index + 1, line := p.line + 1, column := 0 }
  else { p with index := p.index + 1, column := p.column + 1 }

def past (p : Position) (cs : List Char) : Position := cs.foldl after p

/-- One column on, on the same line even where a line break stands. -/
def oneRight (p : Position) : Position :=
  { p with index := p.index + 1, column := p.column + 1 }

/-- The position before the character numbered `n`, or the end of a shorter text. -/
def atIndex (source : Source) (n : Nat) : Position :=
  (start source).past (source.text.toList.take n)

def file (p : Position) : String := p.source.name

@[simp] theorem past_nil (p : Position) : p.past [] = p := rfl

@[simp] theorem past_cons (p : Position) (c : Char) (cs : List Char) :
    p.past (c :: cs) = (p.after c).past cs := rfl

theorem past_append (p : Position) (xs ys : List Char) :
    p.past (xs ++ ys) = (p.past xs).past ys :=
  List.foldl_append

@[simp] theorem after_index (p : Position) (c : Char) : (p.after c).index = p.index + 1 := by
  unfold after
  split <;> rfl

@[simp] theorem after_source (p : Position) (c : Char) : (p.after c).source = p.source := by
  unfold after
  split <;> rfl

theorem past_index (p : Position) (cs : List Char) :
    (p.past cs).index = p.index + cs.length := by
  induction cs generalizing p with
  | nil => rfl
  | cons c cs ih =>
    rw [past_cons, ih, after_index, List.length_cons]
    omega

theorem past_source (p : Position) (cs : List Char) :
    (p.past cs).source = p.source := by
  induction cs generalizing p with
  | nil => rfl
  | cons c cs ih => rw [past_cons, ih, after_source]

end Position

end Sharp

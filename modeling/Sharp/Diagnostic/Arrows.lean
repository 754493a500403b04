import Sharp.Source.Position

/-!
Source lines with arrows under a range of columns. Every line of the range is shown with a line of
arrows below it. A range that ends before the first column of a line stops with the line above, and
an empty range still gets one arrow. Tabs in front of the arrows are kept so that the columns agree.
-/
namespace Sharp.Arrows

def lastLine (start stop : Position) : Nat :=
  if start.line < stop.line ∧ stop.column = 0 then stop.line - 1 else max stop.line start.line

def blankFor (c : Char) : Char := if c = '\t' then '\t' else ' '

/-- The blanks under the first `width` columns of a line, which may end before them. -/
def margin (line : List Char) (width : Nat) : List Char :=
  (line.take width).map blankFor ++ List.replicate (width - line.length) ' '

@[simp] theorem length_margin (line : List Char) (width : Nat) :
    (margin line width).length = width := by
  simp [margin]
  omega

def under (line : List Char) (first stop : Nat) : List Char :=
  margin line first ++ List.replicate (max (stop - first) 1) '^'

def shownLine (start stop : Position) (n : Nat) : List Char :=
  let line := start.source.lineChars n
  let first := if n = start.line then start.column else 0
  let stop := if n = stop.line then stop.column else line.length
  line ++ '\n' :: under line first stop

def lineNumbers (start stop : Position) : List Nat :=
  List.range' start.line (lastLine start stop + 1 - start.line)

def render (start stop : Position) : String :=
  "\n".intercalate ((lineNumbers start stop).map fun n => String.ofList (shownLine start stop n))

end Sharp.Arrows

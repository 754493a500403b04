import Sharp.Diagnostic.Arrows
import Sharp.Proofs.Lexeme.Standing

/-!
Where arrows stand. Positions count line breaks and the characters since the last one, while lines
are what a text falls into between its line breaks; both agree about where a line begins. So the
arrows under a line stand below its characters that belong to the range, or below one column if
there are none.
-/
namespace Sharp

/-- The line with some number, between what stands before it and behind it in a text. -/
structure LineAt (text : List Char) (n : Nat) (before line behind : List Char) : Prop where
  whole : text = before ++ (line ++ behind)
  number : before.count '\n' = n
  unbroken : '\n' ∉ line
  opens : before = [] ∨ ∃ earlier, before = earlier ++ ['\n']
  closes : behind = [] ∨ ∃ later, behind = '\n' :: later

section Lines

variable {text before line behind : List Char} {n : Nat}

theorem splitLines_cons_break (cs : List Char) : splitLines ('\n' :: cs) = [] :: splitLines cs := by
  rw [splitLines, if_pos rfl]

theorem splitLines_cons_other {c : Char} {cs first : List Char} {others : List (List Char)}
    (other : c ≠ '\n') (lines : splitLines cs = first :: others) :
    splitLines (c :: cs) = (c :: first) :: others := by
  rw [splitLines, if_neg other, lines]

theorem splitLines_unbroken (unbroken : '\n' ∉ line) : splitLines line = [line] := by
  induction line with
  | nil => rfl
  | cons c cs ih =>
    have other := List.ne_of_not_mem_cons unbroken
    exact splitLines_cons_other other.symm (ih (List.not_mem_of_not_mem_cons unbroken))

theorem splitLines_append_break (unbroken : '\n' ∉ line) (cs : List Char) :
    splitLines (line ++ '\n' :: cs) = line :: splitLines cs := by
  induction line with
  | nil => exact splitLines_cons_break cs
  | cons c line ih =>
    have other := List.ne_of_not_mem_cons unbroken
    exact splitLines_cons_other other.symm (ih (List.not_mem_of_not_mem_cons unbroken))

namespace LineAt

variable (here : LineAt text n before line behind)
include here

theorem before_eq_nil (first : n = 0) : before = [] := by
  rcases here.opens with nothing | ⟨earlier, rfl⟩
  · exact nothing
  · have number := here.number
    simp [first] at number

theorem behind_break : LineAt ('\n' :: text) (n + 1) ('\n' :: before) line behind where
  whole := congrArg ('\n' :: ·) here.whole
  number := by rw [List.count_cons_self, here.number]
  unbroken := here.unbroken
  opens := by
    rcases here.opens with rfl | ⟨earlier, rfl⟩
    · exact .inr ⟨[], rfl⟩
    · exact .inr ⟨'\n' :: earlier, rfl⟩
  closes := here.closes

/-- A character in front of a text belongs to its first line. -/
theorem behind_other {c : Char} (other : c ≠ '\n') :
    if n = 0 then LineAt (c :: text) n [] (c :: line) behind
    else LineAt (c :: text) n (c :: before) line behind := by
  have whole : c :: text = c :: (before ++ (line ++ behind)) := congrArg (c :: ·) here.whole
  split
  · rename_i first
    rw [here.before_eq_nil first] at whole
    refine ⟨whole, first.symm, ?_, .inl rfl, here.closes⟩
    exact List.not_mem_cons_of_ne_of_not_mem other.symm here.unbroken
  · rename_i later
    refine ⟨whole, ?_, here.unbroken, ?_, here.closes⟩
    · rw [List.count_cons_of_ne other, here.number]
    · rcases here.opens with rfl | ⟨earlier, rfl⟩
      · exact absurd here.number.symm later
      · exact .inr ⟨c :: earlier, rfl⟩

end LineAt

/-- The lines of a text are parted by its line breaks. -/
theorem exists_lineAt (inside : n ≤ text.count '\n') :
    ∃ before behind, LineAt text n before ((splitLines text).getD n []) behind := by
  induction text generalizing n with
  | nil =>
    obtain rfl : n = 0 := Nat.eq_zero_of_le_zero inside
    exact ⟨[], [], rfl, rfl, nofun, .inl rfl, .inl rfl⟩
  | cons c cs ih =>
    by_cases lineBreak : c = '\n'
    · subst lineBreak
      rw [splitLines_cons_break]
      cases n with
      | zero => exact ⟨[], '\n' :: cs, rfl, rfl, nofun, .inl rfl, .inr ⟨cs, rfl⟩⟩
      | succ n =>
        rw [List.count_cons_self] at inside
        obtain ⟨before, behind, there⟩ := ih (Nat.le_of_succ_le_succ inside)
        exact ⟨_, behind, there.behind_break⟩
    · rw [List.count_cons_of_ne lineBreak] at inside
      obtain ⟨first, others, lines⟩ := List.exists_cons_of_ne_nil (splitLines_ne_nil cs)
      obtain ⟨before, behind, there⟩ := ih inside
      rw [lines] at there
      rw [splitLines_cons_other lineBreak lines]
      have moved := there.behind_other lineBreak
      cases n with
      | zero => exact ⟨[], behind, moved⟩
      | succ n => exact ⟨c :: before, behind, moved⟩

end Lines

section Places

variable {source : Source} {before line behind : List Char} {n i : Nat}

theorem Position.atIndex_line (source : Source) (i : Nat) :
    (atIndex source i).line = (source.text.toList.take i).count '\n' := by
  rw [atIndex, past_line, start, Nat.zero_add]

theorem Position.atIndex_line_le {i j : Nat} (inOrder : i ≤ j) :
    (atIndex source i).line ≤ (atIndex source j).line := by
  rw [atIndex_line, atIndex_line]
  exact (List.take_sublist_take_left inOrder).count_le '\n'

namespace LineAt

variable (here : LineAt source.text.toList n before line behind)
include here

theorem take_eq (reached : before.length ≤ i) (upTo : i ≤ before.length + line.length) :
    source.text.toList.take i = before ++ line.take (i - before.length) := by
  rw [here.whole, List.take_append, List.take_of_length_le reached]
  congr 1
  rw [List.take_append_of_le_length (by omega)]

/-- What stands before a line has fewer line breaks the moment its last character is missing. -/
theorem le_line_iff : n ≤ (Position.atIndex source i).line ↔ before.length ≤ i := by
  rw [Position.atIndex_line, here.whole]
  constructor
  · intro same
    rcases here.opens with rfl | ⟨earlier, rfl⟩
    · exact Nat.zero_le _
    · refine Nat.le_of_not_lt fun short => ?_
      have number := here.number
      rw [List.length_append, List.length_singleton] at short
      rw [List.append_assoc, List.take_append_of_le_length (Nat.le_of_lt_succ short)] at same
      have fewer := (List.take_sublist i earlier).count_le '\n'
      rw [List.count_append, List.count_singleton_self] at number
      omega
  · intro reached
    rw [List.take_append, List.take_of_length_le reached, List.count_append, here.number]
    exact Nat.le_add_right _ _

/-- The line break that ends a line is one more. -/
theorem line_le_iff (within : i ≤ source.text.toList.length) :
    (Position.atIndex source i).line ≤ n ↔ i ≤ (before ++ line).length := by
  have breaks : (before ++ line).count '\n' = n := by
    rw [List.count_append, here.number, List.count_eq_zero.2 here.unbroken, Nat.add_zero]
  have whole : source.text.toList = (before ++ line) ++ behind := by
    rw [here.whole, List.append_assoc]
  rw [Position.atIndex_line]
  constructor
  · intro same
    refine Nat.le_of_not_lt fun long => ?_
    rcases here.closes with rfl | ⟨later, rfl⟩
    · rw [whole, List.append_nil] at within
      exact Nat.not_lt_of_le within long
    · have passed : (before ++ line) ++ ['\n'] <+: source.text.toList.take i := by
        refine List.prefix_take_iff.2 ⟨⟨later, by simp [whole]⟩, ?_⟩
        rw [List.length_append, List.length_singleton]
        exact long
      have more := passed.sublist.count_le '\n'
      rw [List.count_append, breaks, List.count_singleton_self] at more
      omega
  · intro short
    rw [whole, List.take_append_of_le_length short, ← breaks]
    exact (List.take_sublist _ _).count_le _

/-- A position on a line is so many characters behind its beginning as its column says. -/
theorem place (within : i ≤ source.text.toList.length)
    (same : (Position.atIndex source i).line = n) :
    before.length + (Position.atIndex source i).column = i ∧
      (Position.atIndex source i).column ≤ line.length := by
  have low := here.le_line_iff.1 (Nat.le_of_eq same.symm)
  have high := (here.line_le_iff within).1 (Nat.le_of_eq same)
  rw [List.length_append] at high
  have passed : ∀ c ∈ (line.take (i - before.length)).reverse, (c != '\n') = true := by
    intro c among
    refine bne_iff_ne.2 fun lineBreak => here.unbroken ?_
    exact lineBreak ▸ List.mem_of_mem_take (List.mem_reverse.1 among)
  have stops : before.reverse.takeWhile (· != '\n') = [] := by
    rcases here.opens with rfl | ⟨earlier, rfl⟩
    · rfl
    · simp
  have column : (Position.atIndex source i).column = i - before.length := by
    rw [Position.atIndex, Position.start_past_column, here.take_eq low high, List.reverse_append,
      List.takeWhile_append_of_pos passed, stops]
    simp
    omega
  omega

end LineAt

end Places

namespace Arrows

/-- Arrows under some columns of a line, or under a spare one if there are none, and blanks in front
    of the first. -/
structure Marks (chars : List Char) (covered : Nat → Prop) (spare : Nat) (marks : List Char) :
    Prop where
  arrows : (∃ k, covered k) → ∀ k, marks[k]? = some '^' ↔ covered k
  spared : (¬∃ k, covered k) → ∀ k, marks[k]? = some '^' ↔ k = spare
  blanks : ∀ k < marks.length, (∀ m ≤ k, marks[m]? ≠ some '^') →
    marks[k]? = some (if chars[k]? = some '\t' then '\t' else ' ')
  ends : marks.getLast? = some '^'

section Under

variable {chars : List Char} {first stop k : Nat}

theorem getElem?_margin (inside : k < first) :
    (margin chars first)[k]? = some (if chars[k]? = some '\t' then '\t' else ' ') := by
  unfold margin
  by_cases short : k < chars.length
  · have within : k < ((chars.take first).map blankFor).length := by
      rw [List.length_map, List.length_take]
      omega
    rw [List.getElem?_append_left within, List.getElem?_map, List.getElem?_take_of_lt inside,
      List.getElem?_eq_getElem short]
    simp [blankFor]
  · have beyond : ((chars.take first).map blankFor).length ≤ k := by
      rw [List.length_map, List.length_take]
      omega
    rw [List.getElem?_append_right beyond, List.length_map, List.length_take,
      List.getElem?_replicate_of_lt (by omega), List.getElem?_eq_none (by omega)]
    simp

theorem getElem?_under :
    (under chars first stop)[k]? = some '^' ↔ first ≤ k ∧ k < first + max (stop - first) 1 := by
  unfold under
  by_cases inside : k < first
  · rw [List.getElem?_append_left (by rwa [length_margin]), getElem?_margin inside]
    constructor
    · intro same
      split at same <;> simp at same
    · omega
  · rw [List.getElem?_append_right (by rw [length_margin]; omega), length_margin,
      List.getElem?_replicate]
    simp
    omega

theorem under_marks (chars : List Char) {covered : Nat → Prop}
    (same : ∀ k, covered k ↔ first ≤ k ∧ k < stop) :
    Marks chars covered first (under chars first stop) := by
  constructor
  · intro given k
    obtain ⟨m, among⟩ := given
    have inside := (same m).1 among
    rw [getElem?_under, same]
    omega
  · intro none k
    have empty : stop ≤ first := Nat.le_of_not_lt fun more =>
      none ⟨first, (same first).2 ⟨Nat.le_refl _, more⟩⟩
    rw [getElem?_under]
    omega
  · intro k _ bare
    have inside : k < first := Nat.lt_of_not_le fun reached =>
      bare first reached (getElem?_under.2 ⟨Nat.le_refl _, by omega⟩)
    rw [under, List.getElem?_append_left (by rwa [length_margin]), getElem?_margin inside]
  · simp [under, List.getLast?_append, List.getLast?_replicate]

theorem under_unbroken : '\n' ∉ under chars first stop := by
  intro lineBreak
  rcases List.mem_append.1 lineBreak with inside | arrow
  · rcases List.mem_append.1 inside with blank | blank
    · obtain ⟨c, _, same⟩ := List.mem_map.1 blank
      unfold blankFor at same
      split at same <;> cases same
    · cases List.eq_of_mem_replicate blank
  · cases List.eq_of_mem_replicate arrow

end Under

/-- A text made of shown lines falls into the lines and what stands under them. -/
theorem splitLines_intercalate {shown under : Nat → List Char} {numbers : List Nat}
    (nonempty : numbers ≠ []) (whole : ∀ n ∈ numbers, '\n' ∉ shown n ∧ '\n' ∉ under n) :
    splitLines (List.intercalate ['\n'] (numbers.map fun n => shown n ++ '\n' :: under n)) =
      numbers.flatMap fun n => [shown n, under n] := by
  induction numbers with
  | nil => exact absurd rfl nonempty
  | cons n others ih =>
    obtain ⟨⟨line, marks⟩, rest⟩ := List.forall_mem_cons.1 whole
    cases others with
    | nil => simp [List.intercalate, splitLines_append_break line, splitLines_unbroken marks]
    | cons m others =>
      have next := ih (List.cons_ne_nil _ _) rest
      simp only [List.map_cons, List.intercalate, List.intersperse_cons_cons, List.flatten_cons,
        List.append_assoc, List.cons_append, List.nil_append, splitLines_append_break line,
        splitLines_append_break marks, List.flatMap_cons] at next ⊢
      rw [next]

/-- Where the arrows of a line begin and where they end. -/
def columns (start stop : Position) (n width : Nat) : Nat × Nat :=
  (if n = start.line then start.column else 0, if n = stop.line then stop.column else width)

/-- What stands under a line. -/
def marksUnder (start stop : Position) (n : Nat) : List Char :=
  let line := start.source.lineChars n
  let range := columns start stop n line.length
  under line range.1 range.2

theorem toList_render (start stop : Position) :
    (render start stop).toList = List.intercalate ['\n'] ((lineNumbers start stop).map fun n =>
      start.source.lineChars n ++ '\n' :: marksUnder start stop n) := by
  rw [render, String.toList_intercalate, List.map_map]
  congr 1
  exact List.map_congr_left fun n _ => String.toList_ofList

end Arrows

section Ranges

variable {source : Source} {before line behind : List Char} {n i j : Nat}

/-- The columns of a range on a line are those of its characters on that line. -/
theorem LineAt.covered_iff (here : LineAt source.text.toList n before line behind)
    (inOrder : i ≤ j) (within : j ≤ source.text.toList.length)
    (low : (Position.atIndex source i).line ≤ n) (high : n ≤ (Position.atIndex source j).line)
    (k : Nat) :
    let range := Arrows.columns (.atIndex source i) (.atIndex source j) n line.length
    (k < line.length ∧ i ≤ before.length + k ∧ before.length + k < j) ↔
      range.1 ≤ k ∧ k < range.2 := by
  have first : i ≤ before.length + k ↔
      (if n = (Position.atIndex source i).line then (Position.atIndex source i).column else 0)
        ≤ k := by
    split
    · rename_i same
      have place := here.place (Nat.le_trans inOrder within) same.symm
      omega
    · rename_i later
      have front : ¬before.length ≤ i := fun reached => later
        (Nat.le_antisymm (here.le_line_iff.2 reached) low)
      omega
  have last : k < line.length ∧ before.length + k < j ↔
      k < if n = (Position.atIndex source j).line then (Position.atIndex source j).column
        else line.length := by
    split
    · rename_i same
      have place := here.place within same.symm
      omega
    · rename_i earlier
      have beyond : ¬j ≤ (before ++ line).length := fun short => earlier
        (Nat.le_antisymm high ((here.line_le_iff within).2 short))
      rw [List.length_append] at beyond
      omega
  simp only [Arrows.columns]
  rw [← first, ← last]
  exact ⟨fun given => ⟨given.2.1, given.1, given.2.2⟩, fun given => ⟨given.2.1, given.1, given.2.2⟩⟩

end Ranges

/-- What is rendered for a range of characters are its lines, and under each the arrows: below the
    characters of the range, or below one column if there is none of them on the line. -/
theorem arrows_mark_range (source : Source) {i j : Nat} (inOrder : i ≤ j)
    (within : j ≤ source.text.toList.length) :
    let s := Position.atIndex source i
    let e := Position.atIndex source j
    let last := if s.line < e.line ∧ e.column = 0 then e.line - 1 else e.line
    ∃ rows : List (List Char × List Char), s.line ≤ last ∧ rows.length = last + 1 - s.line ∧
      splitLines (Arrows.render s e).toList = rows.flatMap (fun row => [row.1, row.2]) ∧
      ∀ k line marks, rows[k]? = some (line, marks) → ∃ before behind,
        LineAt source.text.toList (s.line + k) before line behind ∧
          Arrows.Marks line
            (fun m => m < line.length ∧ i ≤ before.length + m ∧ before.length + m < j)
            (if k = 0 then s.column else 0) marks := by
  intro s e last
  have lines : s.line ≤ e.line := Position.atIndex_line_le inOrder
  have upTo : Arrows.lastLine s e = last := by
    simp only [Arrows.lastLine, Nat.max_eq_left lines, last]
  have low : s.line ≤ last := by
    simp only [last]
    split <;> omega
  have high : last ≤ e.line := by
    simp only [last]
    split <;> omega
  have ofSource : s.source = source := Position.past_source _ _
  have numbers : Arrows.lineNumbers s e = List.range' s.line (last + 1 - s.line) := by
    rw [Arrows.lineNumbers, upTo]
  have lineAt (n : Nat) (among : n ∈ Arrows.lineNumbers s e) : s.line ≤ n ∧ n ≤ e.line ∧
      ∃ before behind, LineAt source.text.toList n before (s.source.lineChars n) behind := by
    rw [numbers, List.mem_range'_1] at among
    have inside : n ≤ source.text.toList.count '\n' := by
      have atMost : e.line ≤ source.text.toList.count '\n' := by
        rw [Position.atIndex_line]
        exact (List.take_sublist _ _).count_le _
      omega
    refine ⟨among.1, by omega, ?_⟩
    rw [ofSource]
    exact exists_lineAt inside
  refine ⟨(Arrows.lineNumbers s e).map fun n => (s.source.lineChars n, Arrows.marksUnder s e n),
    low, ?_, ?_, ?_⟩
  · rw [List.length_map, numbers, List.length_range']
  · rw [Arrows.toList_render, Arrows.splitLines_intercalate, List.flatMap_map]
    · rw [numbers, ne_eq, List.range'_eq_nil_iff]
      omega
    · intro n among
      obtain ⟨_, _, _, _, there⟩ := lineAt n among
      exact ⟨there.unbroken, Arrows.under_unbroken⟩
  · intro k line marks row
    rw [List.getElem?_map, Option.map_eq_some_iff] at row
    obtain ⟨n, found, same⟩ := row
    obtain ⟨rfl, rfl⟩ := Prod.mk.inj same
    obtain ⟨above, below, before, behind, there⟩ := lineAt n (List.mem_of_getElem? found)
    obtain rfl : s.line + k = n := by
      rw [numbers] at found
      obtain ⟨_, number⟩ := List.getElem?_eq_some_iff.1 found
      simpa using number
    refine ⟨before, behind, there, ?_⟩
    have spare : (if k = 0 then s.column else 0) = (Arrows.columns s e (s.line + k)
        (s.source.lineChars (s.line + k)).length).1 := by
      simp [Arrows.columns]
    rw [spare]
    exact Arrows.under_marks _ (there.covered_iff inOrder within above below)

/-- A range behind a tab, over two line breaks and up to the first column of the third line: the
    second line, which is empty, is the last one shown. -/
theorem arrows_mark_range_tab :
    let source : Source := ⟨"<test>", "a(\tb\n\nc"⟩
    let s := Position.atIndex source 3
    let e := Position.atIndex source 6
    3 ≤ 6 ∧ 6 ≤ source.text.toList.length ∧
      Arrows.render s e = "a(\tb\n  \t^\n\n^" ∧
      ∃ rows : List (List Char × List Char), rows.length = 2 ∧
        splitLines (Arrows.render s e).toList = rows.flatMap fun row => [row.1, row.2] := by
  intro source s e
  have within : 6 ≤ source.text.toList.length := by decide
  obtain ⟨rows, _, count, split, _⟩ := arrows_mark_range source (by decide : 3 ≤ 6) within
  exact ⟨by decide, within, by decide +kernel, rows, count.trans (by decide +kernel),
    split⟩

end Sharp

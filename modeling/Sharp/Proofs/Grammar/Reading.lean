import Sharp.Grammar.Run

/-!
Stretches of a row of tokens. A row reads a word between two cursors when the kinds there are those
of the word; the end of the text is never part of a word. Words put together are read one after the
other, so lengths add up and a stretch never leaves the row.
-/
namespace Sharp.Grammar

@[simp] theorem Cursor.next_index (c : Cursor) : c.next.index = c.index + 1 := rfl

@[simp] theorem Cursor.prev_next (c : Cursor) : c.next.prev = c := rfl

namespace Kinds

variable {kinds : Kinds}

def Reads (kinds : Kinds) : Cursor → List TokenKind → Cursor → Prop
  | c, [], d => d = c
  | c, kind :: word, d => kinds.kindAt c = kind ∧ kind ≠ .eof ∧ kinds.Reads c.next word d

/-- At least one token lies between two cursors, and none of them ends the text. -/
def Passes (kinds : Kinds) (c d : Cursor) : Prop :=
  ∃ kind word, kinds.Reads c (kind :: word) d

/-- A stretch that may be empty. -/
def Reaches (kinds : Kinds) (c d : Cursor) : Prop := ∃ word, kinds.Reads c word d

@[simp] theorem reads_nil {c d : Cursor} : kinds.Reads c [] d ↔ d = c := Iff.rfl

@[simp] theorem reads_cons {c d : Cursor} {kind : TokenKind} {word : List TokenKind} :
    kinds.Reads c (kind :: word) d ↔
      kinds.kindAt c = kind ∧ kind ≠ .eof ∧ kinds.Reads c.next word d := Iff.rfl

theorem Reads.cons {c d : Cursor} {kind : TokenKind} {word : List TokenKind}
    (found : kinds.kindAt c = kind) (more : kind ≠ .eof) (rest : kinds.Reads c.next word d) :
    kinds.Reads c (kind :: word) d :=
  ⟨found, more, rest⟩

theorem Reads.single {c : Cursor} {kind : TokenKind} (found : kinds.kindAt c = kind)
    (more : kind ≠ .eof) : kinds.Reads c [kind] c.next :=
  ⟨found, more, rfl⟩

theorem reads_append {c d : Cursor} {front back : List TokenKind} :
    kinds.Reads c (front ++ back) d ↔ ∃ m, kinds.Reads c front m ∧ kinds.Reads m back d := by
  induction front generalizing c with
  | nil => simp
  | cons kind front ih => simp only [List.cons_append, reads_cons, ih, and_assoc, exists_and_left]

theorem Reads.append {c m d : Cursor} {front back : List TokenKind}
    (first : kinds.Reads c front m) (second : kinds.Reads m back d) :
    kinds.Reads c (front ++ back) d :=
  reads_append.2 ⟨m, first, second⟩

theorem Reads.index {c d : Cursor} {word : List TokenKind} (reads : kinds.Reads c word d) :
    d.index = c.index + word.length := by
  induction word generalizing c with
  | nil => simp [reads_nil.1 reads]
  | cons kind word ih =>
    have rest := ih reads.2.2
    simp only [Cursor.next_index] at rest
    simp only [List.length_cons]
    omega

/-- The first few of some tokens of one kind. -/
theorem Reads.replicate {c d : Cursor} {kind : TokenKind} {rest : List TokenKind} {k n : Nat}
    (reads : kinds.Reads c (List.replicate n kind ++ rest) d) (within : k ≤ n) :
    kinds.Reads c (List.replicate k kind) ⟨c.index + k⟩ := by
  rw [← Nat.add_sub_of_le within, ← List.replicate_append_replicate, List.append_assoc,
    reads_append] at reads
  obtain ⟨m, front, -⟩ := reads
  have index := front.index
  rw [List.length_replicate] at index
  rwa [← index]

/-- The kinds from a cursor on. -/
def ahead (kinds : Kinds) (c : Cursor) : List TokenKind := kinds.toList.drop c.index

theorem kindAt_eq_headD (kinds : Kinds) (c : Cursor) :
    kinds.kindAt c = (kinds.ahead c).headD .eof := by
  simp [kindAt, ahead, Array.getD_eq_getD_getElem?, List.headD_eq_head?_getD]

theorem ahead_next (kinds : Kinds) (c : Cursor) : kinds.ahead c.next = (kinds.ahead c).tail := by
  simp [ahead]

/-- A word is read where it lies ahead, and nowhere else. -/
theorem reads_iff_ahead {c d : Cursor} {word : List TokenKind} :
    kinds.Reads c word d ↔
      .eof ∉ word ∧ kinds.ahead c = word ++ kinds.ahead d ∧ d.index = c.index + word.length := by
  induction word generalizing c with
  | nil =>
    constructor
    · rintro rfl
      simp
    · intro given
      obtain ⟨_, _, same⟩ := given
      exact congrArg Cursor.mk same
  | cons kind word ih =>
    rw [reads_cons, ih, ahead_next, kindAt_eq_headD]
    simp only [List.mem_cons, not_or, List.length_cons, Cursor.next_index]
    cases ahead : kinds.ahead c with
    | nil =>
      constructor
      · intro given
        obtain ⟨rfl, more, _⟩ := given
        exact absurd rfl more
      · simp
    | cons head rest =>
      simp only [List.headD_cons, List.tail_cons, List.cons_append, List.cons.injEq, ne_eq]
      constructor
      · intro given
        obtain ⟨same, more, free, rest, moved⟩ := given
        exact ⟨⟨fun finished => more finished.symm, free⟩, ⟨same, rest⟩, by omega⟩
      · intro given
        obtain ⟨⟨more, free⟩, ⟨same, rest⟩, moved⟩ := given
        exact ⟨same, fun finished => more finished.symm, free, rest, by omega⟩

/-- What is read right up to a final token is all that lies ahead of the first one. -/
theorem Reads.eq_takeWhile {c d : Cursor} {word : List TokenKind} (reads : kinds.Reads c word d)
    (finished : kinds.kindAt d = .eof) :
    word = (kinds.ahead c).takeWhile fun kind => decide (kind ≠ .eof) := by
  obtain ⟨free, ahead, _⟩ := reads_iff_ahead.1 reads
  have passes (kind : TokenKind) (among : kind ∈ word) : decide (kind ≠ .eof) = true :=
    decide_eq_true fun same => free (same ▸ among)
  rw [ahead, List.takeWhile_append_of_pos passes]
  rw [kindAt_eq_headD] at finished
  cases rest : kinds.ahead d with
  | nil => simp
  | cons kind rest =>
    rw [rest] at finished
    simp [show kind = .eof from finished]

theorem eof_of_size_le {c : Cursor} (beyond : kinds.size ≤ c.index) : kinds.kindAt c = .eof := by
  simp [kindAt, Array.getD_eq_getD_getElem?, Array.getElem?_eq_none beyond]

theorem index_lt_of_ne_eof {c : Cursor} (more : kinds.kindAt c ≠ .eof) : c.index < kinds.size :=
  Nat.lt_of_not_le fun beyond => more (eof_of_size_le beyond)

theorem Reaches.refl (c : Cursor) : kinds.Reaches c c := ⟨[], rfl⟩

theorem Reaches.index_le {c d : Cursor} (reaches : kinds.Reaches c d) : c.index ≤ d.index := by
  obtain ⟨word, reads⟩ := reaches
  have moved := reads.index
  omega

/-- None of the tokens passed ends the text. -/
theorem Reaches.kindAt_ne {c d m : Cursor} (reaches : kinds.Reaches c d)
    (behind : c.index ≤ m.index) (before : m.index < d.index) : kinds.kindAt m ≠ .eof := by
  obtain ⟨word, reads⟩ := reaches
  induction word generalizing c with
  | nil =>
    obtain rfl := reads_nil.1 reads
    omega
  | cons kind word ih =>
    obtain ⟨here, more, rest⟩ := reads
    rcases Nat.eq_or_lt_of_le behind with same | later
    · obtain rfl : c = m := congrArg Cursor.mk same
      exact here ▸ more
    · exact ih later rest

theorem Reaches.index_le_of_eof {c d e : Cursor} (reaches : kinds.Reaches c d)
    (before : c.index ≤ e.index) (finished : kinds.kindAt e = .eof) : d.index ≤ e.index :=
  Nat.le_of_not_lt fun behind => reaches.kindAt_ne before behind finished

theorem Reaches.trans {c m d : Cursor} (first : kinds.Reaches c m) (second : kinds.Reaches m d) :
    kinds.Reaches c d := by
  obtain ⟨front, reads⟩ := first
  obtain ⟨back, rest⟩ := second
  exact ⟨front ++ back, reads.append rest⟩

theorem Passes.reaches {c d : Cursor} (passes : kinds.Passes c d) : kinds.Reaches c d := by
  obtain ⟨kind, word, reads⟩ := passes
  exact ⟨kind :: word, reads⟩

theorem Passes.trans_reaches {c m d : Cursor} (first : kinds.Passes c m)
    (second : kinds.Reaches m d) : kinds.Passes c d := by
  obtain ⟨kind, word, reads⟩ := first
  obtain ⟨back, rest⟩ := second
  exact ⟨kind, word ++ back, Reads.append reads rest⟩

theorem reaches_iff {c d : Cursor} : kinds.Reaches c d ↔ d = c ∨ kinds.Passes c d := by
  constructor
  · intro given
    obtain ⟨word, reads⟩ := given
    cases word with
    | nil => exact Or.inl reads
    | cons kind word => exact Or.inr ⟨kind, word, reads⟩
  · intro given
    rcases given with rfl | passes
    · exact .refl _
    · exact passes.reaches

theorem passes_next {c : Cursor} (more : kinds.kindAt c ≠ .eof) : kinds.Passes c c.next :=
  ⟨kinds.kindAt c, [], by simpa using more⟩

theorem Passes.trans {c m d : Cursor} (first : kinds.Passes c m) (second : kinds.Passes m d) :
    kinds.Passes c d :=
  first.trans_reaches second.reaches

theorem Reaches.passes_next {c d : Cursor} (reaches : kinds.Reaches c d)
    (more : kinds.kindAt d ≠ .eof) : kinds.Passes c d.next := by
  rcases reaches_iff.1 reaches with rfl | passes
  · exact Kinds.passes_next more
  · exact passes.trans (Kinds.passes_next more)

theorem Passes.kindAt_ne {c d : Cursor} (passes : kinds.Passes c d) : kinds.kindAt c ≠ .eof := by
  obtain ⟨kind, word, found, more, _⟩ := passes
  exact found ▸ more

theorem Passes.index_lt {c d : Cursor} (passes : kinds.Passes c d) : c.index < d.index := by
  obtain ⟨kind, word, reads⟩ := passes
  have moved := reads.index
  simp only [List.length_cons] at moved
  omega

theorem Passes.index_lt_size {c d : Cursor} (passes : kinds.Passes c d) :
    c.index < kinds.size :=
  index_lt_of_ne_eof passes.kindAt_ne

end Kinds

end Sharp.Grammar

import Sharp.Lexeme.Placed

/-!
Nothing of a text is lost. Its lexemes chained together are the text, or what stands before the
characters of a fault.
-/
namespace Sharp.Lexeme

theorem chars_of_mark {c : Char} {cs : List Char} {fault : Fault}
    (found : mark c cs = .error fault) : fault.chars <+: c :: cs := by
  unfold mark at found
  split at found <;> cases found
  · cases cs <;> simp [Fault.chars]
  · simp [Fault.chars]

theorem chars_of_number {c : Char} {cs : List Char} {fault : Fault}
    (found : number c cs = .error fault) : fault.chars <+: c :: cs := by
  unfold number at found
  dsimp only at found
  split at found
  · cases found
  · split at found
    · cases found
    · cases found
      exact List.prefix_cons_iff.2 (Or.inr ⟨_, rfl, List.takeWhile_prefix _⟩)

theorem chars_of_string {cs : List Char} {fault : Fault}
    (found : string cs = .error fault) : fault.chars = '"' :: cs := by
  unfold string at found
  split at found <;> cases found
  rfl

theorem chars_of_scan {c : Char} {cs : List Char} {fault : Fault}
    (found : scan c cs = .error fault) : fault.chars <+: c :: cs := by
  unfold scan at found
  split at found
  · cases found
  split at found
  · cases found
  split at found
  · cases found
  split at found
  · exact chars_of_number found
  split at found
  · cases found
  split at found
  · rename_i opening
    simp [chars_of_string found, opening]
  · exact chars_of_mark found

/-- The characters a split accounts for. -/
def Split.covered (s : Split) : List Char := chained s.lexemes ++ s.fault.elim [] Fault.chars

theorem splitFrom_covered (further : Nat) (cs : List Char) :
    (splitFrom further cs).covered <+: cs.drop further := by
  induction cs generalizing further with
  | nil => cases further <;> simp [splitFrom, Split.covered, chained]
  | cons c cs ih =>
    cases further with
    | succ further => exact ih further
    | zero =>
      rw [splitFrom]
      split
      · rename_i fault found
        simpa [Split.covered, chained] using chars_of_scan found
      · rename_i kind more found
        obtain ⟨rest, covers⟩ := ih more
        refine ⟨rest, ?_⟩
        have whole : cs.take more ++ cs.drop more = cs := List.take_append_drop more cs
        rw [← covers] at whole
        simpa [Split.covered, chained, List.append_assoc] using whole

theorem chained_of_no_fault (further : Nat) (cs : List Char)
    (clean : (splitFrom further cs).fault = none) :
    chained (splitFrom further cs).lexemes = cs.drop further := by
  induction cs generalizing further with
  | nil => cases further <;> rfl
  | cons c cs ih =>
    cases further with
    | succ further => exact ih further clean
    | zero =>
      rw [splitFrom] at clean ⊢
      split at clean
      · cases clean
      · rename_i kind more found
        have rest := ih more clean
        simp [chained] at rest ⊢
        rw [rest]
        exact List.take_append_drop more cs

theorem chained_split {cs : List Char} (clean : (split cs).fault = none) :
    chained (split cs).lexemes = cs :=
  chained_of_no_fault 0 cs clean

end Sharp.Lexeme

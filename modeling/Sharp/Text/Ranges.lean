/-!
Sets of numbers written as ascending ranges. The search stops at the first range that ends at or
after the number: every later range starts beyond it.
-/
namespace Sharp.Text

def inRanges (n : Nat) : List (Nat × Nat) → Bool
  | [] => false
  | (low, high) :: rest => if n ≤ high then decide (low ≤ n) else inRanges n rest

/-- Every range begins after the number `last`, and none overlaps the one before it. -/
def ascendFrom (last : Nat) : List (Nat × Nat) → Bool
  | [] => true
  | (low, high) :: rest => decide (last ≤ low) && decide (low ≤ high) && ascendFrom (high + 1) rest

theorem le_of_ascendFrom {last : Nat} {ranges : List (Nat × Nat)}
    (ascends : ascendFrom last ranges = true) : ∀ r ∈ ranges, last ≤ r.1 := by
  induction ranges generalizing last with
  | nil => simp
  | cons r rest ih =>
    simp only [ascendFrom, Bool.and_eq_true, decide_eq_true_eq] at ascends
    intro s hs
    rcases List.mem_cons.1 hs with rfl | later
    · exact ascends.1.1
    · have beyond := ih ascends.2 s later
      omega

theorem inRanges_iff {n last : Nat} {ranges : List (Nat × Nat)}
    (ascends : ascendFrom last ranges = true) :
    inRanges n ranges = true ↔ ∃ r ∈ ranges, r.1 ≤ n ∧ n ≤ r.2 := by
  induction ranges generalizing last with
  | nil => simp [inRanges]
  | cons r rest ih =>
    simp only [ascendFrom, Bool.and_eq_true] at ascends
    have later := le_of_ascendFrom ascends.2
    rw [inRanges]
    split
    · rename_i here
      simp only [decide_eq_true_eq, List.mem_cons, exists_eq_or_imp]
      constructor
      · exact fun above => Or.inl ⟨above, here⟩
      · rintro (found | ⟨s, hs, above, _⟩)
        · exact found.1
        · have beyond := later s hs
          omega
    · rename_i past
      rw [ih ascends.2]
      simp only [List.mem_cons, exists_eq_or_imp]
      constructor
      · exact Or.inr
      · rintro (found | found)
        · exact absurd found.2 past
        · exact found

end Sharp.Text

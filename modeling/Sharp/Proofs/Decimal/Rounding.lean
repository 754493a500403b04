import Mathlib.Algebra.Order.Field.Power
import Mathlib.Data.Rat.Lemmas
import Mathlib.Tactic.Linarith
import Mathlib.Tactic.Positivity
import Mathlib.Tactic.Ring
import Sharp.Decimal.Layout

/-!
Which numbers round to a double: those from half a step below it to half a step above it. Where the
numbers of one double end those of the next one begin, and the common end belongs to the double with
the even significand. So no number rounds to two doubles, and the shortest decimal of a double
rounds to that double.
-/
namespace Sharp.Decimal

def Numeral.value (d : Numeral) : ℚ := d.digits * 10 ^ d.exponent

namespace Binary

/-- The value of some quarter steps. -/
def steps (v : Binary) (quarters : Nat) : ℚ := quarters * 2 ^ (v.exponent - 2)

/-- A number that rounds to the double; from halfway it goes to the even one. -/
structure Holds (v : Binary) (r : ℚ) : Prop where
  above : v.steps v.low ≤ r
  below : r ≤ v.steps v.high
  inside : v.significand % 2 = 1 → v.steps v.low < r ∧ r < v.steps v.high

section Scales

variable {v : Binary} {e : Int} {d : Nat}

theorem pow_toNat {base : ℚ} (nonzero : base ≠ 0) (x : Int) :
    base ^ x.toNat = base ^ x * base ^ (-x).toNat := by
  rw [← zpow_natCast, ← zpow_natCast, ← zpow_add₀ nonzero]
  congr 1
  omega

/-- The two sides of a comparison are scaled by one factor. -/
theorem exists_scale_eq (v : Binary) (e : Int) :
    ∃ factor : ℚ, 0 < factor ∧ (v.scale e).quarters = 2 ^ (v.exponent - 2) * factor ∧
      (v.scale e).points = 10 ^ e * factor := by
  refine ⟨2 ^ (2 - v.exponent).toNat * 10 ^ (-e).toNat, by positivity, ?_, ?_⟩
  · have doubled := pow_toNat (by norm_num : (2 : ℚ) ≠ 0) (v.exponent - 2)
    rw [neg_sub] at doubled
    simp only [scale, Nat.pow_eq, Nat.cast_mul, Nat.cast_pow, Nat.cast_ofNat, doubled]
    ring
  · have scaled := pow_toNat (by norm_num : (10 : ℚ) ≠ 0) e
    simp only [scale, Nat.pow_eq, Nat.cast_mul, Nat.cast_pow, Nat.cast_ofNat, scaled]
    ring

theorem holds_of_admits (admitted : v.admits (v.scale e) d = true) : v.Holds (d * 10 ^ e) := by
  obtain ⟨factor, positive, quarters, points⟩ := exists_scale_eq v e
  have scaled (n : Nat) : ((n * (v.scale e).quarters : Nat) : ℚ) = v.steps n * factor := by
    rw [Nat.cast_mul, quarters, steps, mul_assoc]
  have point : ((d * (v.scale e).points : Nat) : ℚ) = d * 10 ^ e * factor := by
    rw [Nat.cast_mul, points, mul_assoc]
  unfold admits at admitted
  split at admitted <;> rename_i parity <;>
    simp only [Bool.and_eq_true, decide_eq_true_eq, ← Nat.cast_le (α := ℚ),
      ← Nat.cast_lt (α := ℚ), scaled, point, mul_le_mul_iff_left₀ positive,
      mul_lt_mul_iff_left₀ positive] at admitted
  · exact ⟨admitted.1, admitted.2, fun odd => absurd (parity.symm.trans odd) (by decide)⟩
  · exact ⟨admitted.1.le, admitted.2.le, fun _ => admitted⟩

end Scales

section Finest

variable {v : Binary} {places : Nat}

theorem low_lt_value (positive : 0 < v.significand) : v.low < v.value := by
  unfold low value
  split <;> omega

/-- A step of a grid as fine as this one is a quarter step at most. -/
theorem points_le_quarters (fine : 2 ^ (2 - v.exponent).toNat ≤ 10 ^ places) :
    (v.scale (-places)).points ≤ (v.scale (-places)).quarters := by
  have coarse : (-(places : Int)).toNat = 0 := by omega
  have shown : (- -(places : Int)).toNat = places := by omega
  simp only [scale, Nat.pow_eq, coarse, shown]
  calc 2 ^ (2 - v.exponent).toNat * 10 ^ 0
      ≤ 1 * 10 ^ places := by omega
    _ ≤ 2 ^ (v.exponent - 2).toNat * 10 ^ places := Nat.mul_le_mul_right _ Nat.one_le_two_pow

theorem onGrid_isSome (fine : 2 ^ (2 - v.exponent).toNat ≤ 10 ^ places)
    (positive : 0 < v.significand) : (v.onGrid (-places)).isSome := by
  have step := points_le_quarters fine
  have spaced : 0 < (v.scale (-places)).points :=
    Nat.mul_pos (Nat.two_pow_pos _) (Nat.pow_pos (by decide))
  unfold onGrid
  generalize v.scale (-places) = scale at *
  have low := Nat.mul_le_mul_right scale.quarters (low_lt_value positive)
  have high : v.high * scale.quarters = v.value * scale.quarters + 2 * scale.quarters :=
    Nat.add_mul ..
  have below := Nat.div_add_mod' (v.value * scale.quarters) scale.points
  have rest := Nat.mod_lt (v.value * scale.quarters) spaced
  rw [Nat.succ_mul] at low
  have admitted : v.admits scale (v.value * scale.quarters / scale.points) = true := by
    unfold admits
    split <;> simp only [Bool.and_eq_true, decide_eq_true_eq] <;> omega
  simp only [admitted]
  split <;> [split; skip] <;> rfl

theorem holds_shortest (least : -1074 ≤ v.exponent) (positive : 0 < v.significand) :
    v.Holds v.shortest.value := by
  have fine : 2 ^ (2 - v.exponent).toNat ≤ 10 ^ 324 :=
    calc 2 ^ (2 - v.exponent).toNat
        ≤ 2 ^ 1076 := Nat.pow_le_pow_right (by decide) (by omega)
      _ ≤ 10 ^ 324 := by decide +kernel
  cases found : grids.findSome? v.onGrid with
  | none =>
    have missed := List.findSome?_eq_none_iff.1 found (-(324 : Nat)) (by decide +kernel)
    have reached := onGrid_isSome fine positive
    rw [missed] at reached
    cases reached
  | some d =>
    obtain ⟨e, -, here⟩ := List.exists_of_findSome?_eq_some found
    obtain ⟨admitted, rfl⟩ := admits_onGrid here
    rw [shortest, found]
    exact holds_of_admits admitted

end Finest

section Magnitudes

variable {m n : Nat}

theorem exponent_ofMagnitude (m : Nat) : -1074 ≤ (ofMagnitude m).exponent := by
  simp only [ofMagnitude]
  split <;> dsimp only <;> omega

theorem significand_ofMagnitude (positive : 0 < m) (finite : m < infiniteMagnitude) :
    0 < (ofMagnitude m).significand := by
  simp only [infiniteMagnitude, Nat.pow_eq, Nat.reducePow] at finite
  simp only [ofMagnitude, Nat.pow_eq, Nat.reducePow]
  split <;> dsimp only <;> omega

theorem parity_ofMagnitude (m : Nat) : (ofMagnitude m).significand % 2 = m % 2 := by
  simp only [ofMagnitude, Nat.pow_eq, Nat.reducePow]
  split <;> dsimp only <;> omega

/-- The next double is one more step up, at the end of a row of steps by way of wider ones. -/
theorem ofMagnitude_succ (finite : m < infiniteMagnitude) :
    (ofMagnitude (m + 1)).exponent = (ofMagnitude m).exponent ∧
        (ofMagnitude (m + 1)).significand = (ofMagnitude m).significand + 1 ∧
        (ofMagnitude (m + 1)).narrowBelow = false ∨
      (ofMagnitude (m + 1)).exponent = (ofMagnitude m).exponent + 1 ∧
        2 * (ofMagnitude (m + 1)).significand = (ofMagnitude m).significand + 1 ∧
        (ofMagnitude (m + 1)).narrowBelow = true := by
  simp only [infiniteMagnitude, Nat.pow_eq, Nat.reducePow] at finite
  simp only [ofMagnitude, Nat.pow_eq, Nat.reducePow]
  have scale : m / 4503599627370496 % 2048 = m / 4503599627370496 := by omega
  have scale' : (m + 1) / 4503599627370496 % 2048 = (m + 1) / 4503599627370496 := by omega
  rw [scale, scale']
  split <;> split <;> simp only [Bool.and_eq_true, Bool.and_eq_false_iff, beq_iff_eq,
    beq_eq_false_iff_ne, decide_eq_true_eq, decide_eq_false_iff_not, reduceCtorEq, true_and,
    and_true, and_false, or_false] <;> omega

/-- One double's numbers end where those of the next one begin. -/
theorem steps_high (finite : m < infiniteMagnitude) :
    (ofMagnitude m).steps (ofMagnitude m).high =
      (ofMagnitude (m + 1)).steps (ofMagnitude (m + 1)).low := by
  unfold steps high low value
  rcases ofMagnitude_succ finite with ⟨exponent, significand, narrow⟩ |
    ⟨exponent, significand, narrow⟩
  · rw [exponent, significand, narrow]
    rfl
  · have quarters : 4 * (ofMagnitude m).significand + 2 =
        2 * (4 * (ofMagnitude (m + 1)).significand - 1) := by omega
    rw [exponent, narrow, quarters, if_pos rfl, Nat.cast_mul, add_sub_right_comm,
      zpow_add_one₀ (by norm_num)]
    push_cast
    ring

theorem steps_low_lt_high (v : Binary) : v.steps v.low < v.steps v.high := by
  have less : v.low < v.high := by
    unfold low high
    split <;> omega
  exact mul_lt_mul_of_pos_right (Nat.cast_lt.2 less) (by positivity)

theorem steps_low_lt (less : m < n) (finite : n ≤ infiniteMagnitude) :
    (ofMagnitude m).steps (ofMagnitude m).low < (ofMagnitude n).steps (ofMagnitude n).low := by
  induction n, less using Nat.le_induction with
  | base =>
    rw [← steps_high finite]
    exact steps_low_lt_high _
  | succ n _ ih =>
    have onward := steps_low_lt_high (ofMagnitude n)
    rw [steps_high finite] at onward
    exact (ih (Nat.le_of_succ_le finite)).trans onward

/-- Only the common end of two doubles could belong to both, and one of them is odd. -/
theorem not_holds_of_lt {r : ℚ} (less : m < n) (finite : n ≤ infiniteMagnitude)
    (held : (ofMagnitude m).Holds r) : ¬(ofMagnitude n).Holds r := by
  intro also
  have ends := held.below
  rw [steps_high (Nat.lt_of_lt_of_le less finite)] at ends
  rcases Nat.lt_or_ge (m + 1) n with later | next
  · exact absurd (also.above.trans ends) (not_le.2 (steps_low_lt later finite))
  · obtain rfl : n = m + 1 := Nat.le_antisymm next less
    rcases Nat.mod_two_eq_zero_or_one m with even | odd
    · have odd : (m + 1) % 2 = 1 := by omega
      exact absurd ends (not_le.2 (also.inside ((parity_ofMagnitude _).trans odd)).1)
    · have inside := (held.inside ((parity_ofMagnitude m).trans odd)).2
      rw [steps_high (Nat.lt_of_lt_of_le less finite)] at inside
      exact absurd also.above (not_le.2 inside)

theorem holds_unique {r : ℚ} (finite : m < infiniteMagnitude) (finite' : n < infiniteMagnitude)
    (held : (ofMagnitude m).Holds r) (also : (ofMagnitude n).Holds r) : m = n := by
  rcases Nat.lt_trichotomy m n with less | same | less
  · exact absurd also (not_holds_of_lt less finite'.le held)
  · exact same
  · exact absurd held (not_holds_of_lt less finite.le also)

end Magnitudes

end Binary

end Sharp.Decimal

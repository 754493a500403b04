import Sharp.Decimal.Binary

/-!
The shortest decimal that reads back as a given double. Grids of powers of ten are tried from
coarse to fine; on each only the two neighbours of the value can be its best point. The ends of
the rounding interval count when the significand is even, since halves round to even.
-/
namespace Sharp.Decimal

/-- The value `digits * 10 ^ exponent`. -/
structure Numeral where
  digits : Nat
  exponent : Int
deriving DecidableEq

/-- Both sides of a comparison brought to whole numbers: `quarters` counts quarter steps of the
    double and `points` counts steps of the grid. -/
structure Scale where
  quarters : Nat
  points : Nat

def Binary.scale (v : Binary) (e : Int) : Scale :=
  ⟨Nat.pow 2 (v.exponent - 2).toNat * Nat.pow 10 (-e).toNat,
    Nat.pow 2 (2 - v.exponent).toNat * Nat.pow 10 e.toNat⟩

def Binary.admits (v : Binary) (s : Scale) (d : Nat) : Bool :=
  if v.significand % 2 = 0 then
    decide (v.low * s.quarters ≤ d * s.points) && decide (d * s.points ≤ v.high * s.quarters)
  else
    decide (v.low * s.quarters < d * s.points) && decide (d * s.points < v.high * s.quarters)

def Binary.onGrid (v : Binary) (e : Int) : Option Numeral :=
  let s := v.scale e
  let exact := v.value * s.quarters
  let below := exact / s.points
  let above := below + 1
  if v.admits s below && v.admits s above then
    if exact - below * s.points < above * s.points - exact then some ⟨below, e⟩
    else some ⟨above, e⟩
  else if v.admits s below then some ⟨below, e⟩
  else if v.admits s above then some ⟨above, e⟩
  else none

theorem admits_onGrid {v : Binary} {e : Int} {d : Numeral} (found : v.onGrid e = some d) :
    v.admits (v.scale e) d.digits = true ∧ d.exponent = e := by
  unfold Binary.onGrid at found
  dsimp only at found
  split at found
  · rename_i both
    simp only [Bool.and_eq_true] at both
    split at found <;> cases found
    · exact ⟨both.1, rfl⟩
    · exact ⟨both.2, rfl⟩
  · split at found
    · rename_i below
      cases found
      exact ⟨below, rfl⟩
    · split at found
      · rename_i above
        cases found
        exact ⟨above, rfl⟩
      · cases found

/-- From above the largest double down to below the spacing of the smallest ones. -/
def grids : List Int := (List.range 635).map fun k : Nat => 310 - (k : Int)

def Binary.shortest (v : Binary) : Numeral :=
  (grids.findSome? v.onGrid).getD ⟨0, 0⟩

end Sharp.Decimal

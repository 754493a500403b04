/-!
Positive finite doubles as whole numbers times powers of two, read off their bits. The reals that
round to one reach half a step up and half a step down, and only a quarter step down where the
spacing of doubles halves below it.
-/
namespace Sharp.Decimal

/-- The value `significand * 2 ^ exponent`. -/
structure Binary where
  significand : Nat
  exponent : Int
  narrowBelow : Bool
deriving DecidableEq

def Binary.ofMagnitude (bits : Nat) : Binary :=
  let fraction : Nat := bits % Nat.pow 2 52
  let scale : Nat := bits / Nat.pow 2 52 % Nat.pow 2 11
  if scale = 0 then ⟨fraction, -1074, false⟩
  else ⟨Nat.pow 2 52 + fraction, (scale : Int) - 1075, fraction == 0 && decide (1 < scale)⟩

def isNegative (x : Float) : Bool := decide (Nat.pow 2 63 ≤ x.toBits.toNat)

def magnitude (x : Float) : Nat := x.toBits.toNat % Nat.pow 2 63

namespace Binary

/-- Four times the significand leaves room for quarter steps. -/
def value (v : Binary) : Nat := 4 * v.significand

def low (v : Binary) : Nat := v.value - (if v.narrowBelow then 1 else 2)

def high (v : Binary) : Nat := v.value + 2

end Binary

end Sharp.Decimal

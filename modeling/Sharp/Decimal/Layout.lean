import Sharp.Decimal.Shortest

/-!
The text of a float. Zero and magnitudes from `0.0001` up to ten quadrillions are written out with
at least one place after the point; all others as a leading digit and a power of ten.
-/
namespace Sharp.Decimal

/-- Leading exponents that are written out lie between these, both included. -/
structure Layout where
  least : Int
  greatest : Int

def layout : Layout := ⟨-4, 15⟩

def zeros (n : Nat) : String := String.ofList (List.replicate n '0')

namespace Numeral

def figures (d : Numeral) : List Char := Nat.toDigits 10 d.digits

/-- The power of ten of the first digit. -/
def leading (d : Numeral) : Int := d.exponent + d.figures.length - 1

def writtenOut (d : Numeral) : String :=
  if 0 ≤ d.exponent then String.ofList d.figures ++ zeros d.exponent.toNat ++ ".0"
  else if 0 ≤ d.leading then
    let whole := d.leading.toNat + 1
    String.ofList (d.figures.take whole) ++ "." ++ String.ofList (d.figures.drop whole)
  else "0." ++ zeros (-d.leading - 1).toNat ++ String.ofList d.figures

def scientific (d : Numeral) : String :=
  let fraction := d.figures.drop 1
  String.ofList (d.figures.take 1)
    ++ (if fraction.isEmpty then "" else "." ++ String.ofList fraction)
    ++ "e" ++ toString d.leading

def text (d : Numeral) : String :=
  if layout.least ≤ d.leading ∧ d.leading ≤ layout.greatest then d.writtenOut else d.scientific

end Numeral

def infiniteMagnitude : Nat := 2047 * Nat.pow 2 52

def magnitudeText (bits : Nat) : String :=
  if bits = 0 then "0.0"
  else if bits = infiniteMagnitude then "inf"
  else (Binary.ofMagnitude bits).shortest.text

def floatText (x : Float) : String :=
  if infiniteMagnitude < magnitude x then "NaN"
  else if isNegative x then "-" ++ magnitudeText (magnitude x)
  else magnitudeText (magnitude x)

end Sharp.Decimal

/-!
Reading digits. A run of digits stands for a number in base ten, and a decimal reads as the double
nearest to it. Float texts may also have a sign and a power of ten, or name an infinity or NaN.
-/
namespace Sharp.Decimal

def digitValue (c : Char) : Nat := c.toNat - '0'.toNat

def digitsValue (digits : List Char) : Nat :=
  digits.foldl (fun n c => 10 * n + digitValue c) 0

/-- The double nearest to `whole.fraction`. -/
def decimalValue (whole fraction : List Char) : Float :=
  Float.ofScientific (digitsValue (whole ++ fraction)) true fraction.length

/-- The double nearest to `whole.fraction * 10 ^ power`. -/
def scientificValue (whole fraction : List Char) (power : Int) : Float :=
  let shift := power - fraction.length
  Float.ofScientific (digitsValue (whole ++ fraction)) (decide (shift < 0)) shift.natAbs

/-- An optional sign, true for minus, and what follows it. -/
def signed : List Char → Bool × List Char
  | '-' :: cs => (true, cs)
  | '+' :: cs => (false, cs)
  | cs => (false, cs)

def readPower (cs : List Char) : Option Int :=
  let (minus, digits) := signed cs
  if digits.isEmpty || !digits.all Char.isDigit then none
  else some (if minus then -(digitsValue digits : Int) else digitsValue digits)

def readUnsigned (cs : List Char) : Option Float :=
  let whole := cs.takeWhile Char.isDigit
  let rest := cs.dropWhile Char.isDigit
  let (fraction, rest) := match rest with
    | '.' :: more => (more.takeWhile Char.isDigit, more.dropWhile Char.isDigit)
    | _ => ([], rest)
  if whole.isEmpty && fraction.isEmpty then none
  else match rest with
    | [] => some (scientificValue whole fraction 0)
    | e :: power =>
      if e = 'e' || e = 'E' then (readPower power).map (scientificValue whole fraction) else none

def readNamed (cs : List Char) : Option Float :=
  let name := String.ofList (cs.map Char.toLower)
  if name = "nan" then some (0.0 / 0.0)
  else if name = "inf" || name = "infinity" then some (1.0 / 0.0)
  else none

def readFloat (s : String) : Option Float :=
  let (minus, cs) := signed s.toList
  let found := (readNamed cs).orElse fun _ => readUnsigned cs
  found.map fun x => if minus then -x else x

end Sharp.Decimal

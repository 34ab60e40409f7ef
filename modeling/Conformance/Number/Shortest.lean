/- The decimal text of a double: the fewest digits that read back, of those the nearest. It is
   positional for decimal exponents from -4 to 15 and scientific outside. -/
import Conformance.Number.Binary64
namespace Conformance.Binary64

/-- The count of digits before the decimal point of a positive number of units; zero or less when
the number is below one. -/
def pointOf (units : Nat) : Int :=
  (Nat.toDigits 10 (units * Nat.pow 10 400 / unitsPerOne)).length - 400

/-- The two neighbours of a number on the grid of the multiples of `10 ^ exponent`, the nearer
first; of equally near ones the even one. -/
def gridNeighbours (units : Nat) (exponent : Int) : List Nat :=
  let num := units * Nat.pow 10 (-exponent).toNat
  let den := unitsPerOne * Nat.pow 10 exponent.toNat
  let low := num / den
  let near := nearestQuotient num den
  if near = low then [low, low + 1] else [low + 1, low]

def firstReadBack (units : Nat) (point : Int) : List Nat → Nat × Int
  | [] => (units, 0)
  | size :: sizes =>
    let exponent := point - size
    match (gridNeighbours units exponent).find?
        (fun digits => ofDecimal false digits exponent == .finite false units) with
    | some digits => (digits, exponent)
    | none => firstReadBack units point sizes

/-- Digits and exponent of the shortest decimal that reads back. Seventeen digits always do. -/
def shortest (units : Nat) : Nat × Int :=
  firstReadBack units (pointOf units) (List.range' 1 17)

def dropTrailingZeros (digits : List Char) : List Char :=
  (digits.reverse.dropWhile (· == '0')).reverse

def positional (digits : List Char) (point : Int) : List Char :=
  if point ≤ 0 then '0' :: '.' :: List.replicate (-point).toNat '0' ++ digits
  else
    let whole := digits.take point.toNat
    let zeros := List.replicate (point.toNat - digits.length) '0'
    let fraction := digits.drop point.toNat
    whole ++ zeros ++ '.' :: (if fraction.isEmpty then ['0'] else fraction)

def scientific (digits : List Char) (exponent : Int) : List Char :=
  let mantissa := match digits with
    | [] => []
    | [d] => [d]
    | d :: rest => d :: '.' :: rest
  let size := Nat.toDigits 10 exponent.natAbs
  mantissa ++ 'e' :: (if exponent < 0 then '-' else '+') ::
    (List.replicate (2 - size.length) '0' ++ size)

def finiteText (units : Nat) : List Char :=
  if units = 0 then ['0', '.', '0']
  else
    let (number, exponent) := shortest units
    let digits := Nat.toDigits 10 number
    let point := exponent + digits.length
    let kept := dropTrailingZeros digits
    if -4 < point && point ≤ 16 then positional kept point else scientific kept (point - 1)

def signText (negative : Bool) : List Char := if negative then ['-'] else []

def text : Binary64 → List Char
  | .nan _ => ['n', 'a', 'n']
  | .infinity negative => signText negative ++ ['i', 'n', 'f']
  | .finite negative units => signText negative ++ finiteText units

example : (ofRatio false unitsPerOne 10).text = ['0', '.', '1'] := by decide +kernel

example : (ofDecimal true 1 16).text = ['-', '1', 'e', '+', '1', '6'] := by decide +kernel

example : (finite false 1).text = ['5', 'e', '-', '3', '2', '4'] := by decide +kernel

end Conformance.Binary64

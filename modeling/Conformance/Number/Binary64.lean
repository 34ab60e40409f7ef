/- Double precision numbers, held exactly. A finite one is a sign and a count of the least positive
   double, 2^-1074, so that sums and comparisons are those of whole numbers, and only `ofRatio`
   rounds. -/
namespace Conformance

inductive Binary64
  /-- What is no number. A mark tells one that was made from another. -/
  | nan (mark : Nat)
  | infinity (negative : Bool)
  | finite (negative : Bool) (units : Nat)
  deriving DecidableEq

namespace Binary64

def unitsPerOne : Nat := Nat.pow 2 1074

def unitsLimit : Nat := Nat.pow 2 2098

def nearestQuotient (num den : Nat) : Nat :=
  let q := num / den
  let twice := 2 * (num % den)
  if twice < den then q else if den < twice then q + 1 else q + q % 2

/-- The double nearest to a quotient of units: 53 bits are kept, and what rounds past the finite
range is infinite. -/
def ofRatio (negative : Bool) (num den : Nat) : Binary64 :=
  let dropped := (num / den).log2 + 1 - 53
  let grid := Nat.pow 2 dropped
  let units := nearestQuotient num (den * grid) * grid
  if units < unitsLimit then .finite negative units else .infinity negative

/-- The double nearest to `digits * 10 ^ exponent`. Beyond four hundred places on either side the
answer is known without the power. -/
def ofDecimal (negative : Bool) (digits : Nat) (exponent : Int) : Binary64 :=
  let magnitude := exponent + (Nat.toDigits 10 digits).length
  if digits = 0 || magnitude < -400 then .finite negative 0
  else if 400 < magnitude then .infinity negative
  else if 0 ≤ exponent then ofRatio negative (digits * Nat.pow 10 exponent.toNat * unitsPerOne) 1
  else ofRatio negative (digits * unitsPerOne) (Nat.pow 10 (-exponent).toNat)

def ofInt? (n : Int) : Option Binary64 :=
  match ofRatio (n < 0) (n.natAbs * unitsPerOne) 1 with
  | .finite negative units => some (.finite negative units)
  | _ => none

def signed (negative : Bool) (units : Nat) : Int :=
  if negative then -(units : Int) else units

/-- The rounded sum. A sum of zero is negative only when both parts are. -/
def add : Binary64 → Binary64 → Binary64
  | .nan mark, _ | _, .nan mark => .nan mark
  | .infinity m, .infinity n => if m = n then .infinity m else .nan 0
  | .infinity m, .finite _ _ => .infinity m
  | .finite _ _, .infinity n => .infinity n
  | .finite m a, .finite n b =>
    let sum := signed m a + signed n b
    if sum = 0 then .finite (m && n) 0 else ofRatio (sum < 0) sum.natAbs 1

def scale (times : Int) : Binary64 → Binary64
  | .nan mark => .nan mark
  | .infinity m => if times = 0 then .nan 0 else .infinity (m != decide (times < 0))
  | .finite m a => ofRatio (m != decide (times < 0)) (a * times.natAbs) 1

def isZero : Binary64 → Bool
  | .finite _ units => units == 0
  | _ => false

end Binary64

/-- The place of a number on the line, infinite ends included, in units. Numbers of every kind are
compared by their places; nothing is rounded. -/
inductive Place
  | nowhere
  | below
  | finite (units : Int)
  | above
  deriving DecidableEq

namespace Place

def ofInt (n : Int) : Place := .finite (n * Binary64.unitsPerOne)

def ofBinary64 : Binary64 → Place
  | .nan _ => .nowhere
  | .infinity true => .below
  | .infinity false => .above
  | .finite negative units => .finite (Binary64.signed negative units)

def same : Place → Place → Bool
  | .finite a, .finite b => a == b
  | .below, .below | .above, .above => true
  | _, _ => false

def less : Place → Place → Bool
  | .finite a, .finite b => a < b
  | .below, .finite _ | .below, .above | .finite _, .above => true
  | _, _ => false

end Place

end Conformance

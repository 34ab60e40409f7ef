/- Reading numbers from decimal text. Blanks around a number do not count, and an underscore may
   part two digits. A whole number is an optional sign and digits; a double has an optional point
   and exponent too, or is a word for infinity or for no number. -/
import Conformance.Number.Binary64
import Conformance.Text.Segments
namespace Conformance.Numeral

def digitLimit : Nat := 4300

/-- White space that may stand around a number. The separators U+001C to U+001F may not. -/
def isMargin (c : Char) : Bool := Text.isBlank c && !(28 ≤ c.toNat && c.toNat ≤ 31)

def trimmed (s : List Char) : List Char :=
  ((s.dropWhile isMargin).reverse.dropWhile isMargin).reverse

/-- The text without its underscores, each of which has to stand between two digits. `after` says
whether a digit has just been read. -/
def joinDigits? (after : Bool) : List Char → Option (List Char)
  | [] => some []
  | '_' :: rest =>
    if after && rest.head?.any Char.isDigit then joinDigits? false rest else none
  | c :: rest => (joinDigits? c.isDigit rest).map (c :: ·)

def body? (text : String) : Option (List Char) := joinDigits? false (trimmed text.toList)

example : body? " 1_0\n" = some ['1', '0'] := by decide +kernel

example : body? "1__0" = none ∧ body? "_1" = none ∧ body? "1_" = none := by decide +kernel

def digitsValue (start : Nat) (digits : List Char) : Nat :=
  digits.foldl (fun n c => 10 * n + (c.toNat - 48)) start

def splitSign : List Char → Bool × List Char
  | '-' :: rest => (true, rest)
  | '+' :: rest => (false, rest)
  | rest => (false, rest)

inductive Unread
  | malformed
  | tooLong (digits : Nat)
  deriving DecidableEq

def readWhole (text : String) : Except Unread Int :=
  match body? text with
  | none => .error .malformed
  | some s =>
    let (negative, s) := splitSign s
    let digits := s.takeWhile Char.isDigit
    if digitLimit < digits.length then .error (.tooLong digits.length)
    else if digits.isEmpty || digits.length < s.length then .error .malformed
    else .ok (Binary64.signed negative (digitsValue 0 digits))

def readExponent? : List Char → Option Int
  | [] => some 0
  | mark :: rest =>
    let (negative, digits) := splitSign rest
    if (mark == 'e' || mark == 'E') && !digits.isEmpty && digits.all Char.isDigit then
      some (Binary64.signed negative (digitsValue 0 digits))
    else none

def readMagnitude? (negative : Bool) (s : List Char) : Option Binary64 :=
  let whole := s.takeWhile Char.isDigit
  let (fraction, rest) := match s.dropWhile Char.isDigit with
    | '.' :: rest => (rest.takeWhile Char.isDigit, rest.dropWhile Char.isDigit)
    | rest => ([], rest)
  if whole.isEmpty && fraction.isEmpty then none
  else (readExponent? rest).map fun exponent =>
    .ofDecimal negative (digitsValue (digitsValue 0 whole) fraction) (exponent - fraction.length)

def readDouble? (text : String) : Option Binary64 :=
  match body? text with
  | none => none
  | some s =>
    let (negative, s) := splitSign s
    match String.ofList (s.map Char.toLower) with
    | "nan" => some (.nan 0)
    | "inf" | "infinity" => some (.infinity negative)
    | _ => readMagnitude? negative s

end Conformance.Numeral

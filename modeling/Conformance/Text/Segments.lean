/- White space and line ends, and the cutting of a text into lines and words. -/
namespace Conformance.Text

/-- White space in the sense of the Unicode property, with the four separators U+001C to U+001F. -/
def isBlank (c : Char) : Bool :=
  let n := c.toNat
  (9 ≤ n && n ≤ 13) || (28 ≤ n && n ≤ 32) || n == 0x85 || n == 0xA0 || n == 0x1680 ||
    (0x2000 ≤ n && n ≤ 0x200A) || n == 0x2028 || n == 0x2029 || n == 0x202F || n == 0x205F ||
    n == 0x3000

def isLineEnd (c : Char) : Bool :=
  let n := c.toNat
  (10 ≤ n && n ≤ 13) || (28 ≤ n && n ≤ 30) || n == 0x85 || n == 0x2028 || n == 0x2029

def consFirst (c : Char) : List (List Char) → List (List Char)
  | [] => [[c]]
  | piece :: pieces => (c :: piece) :: pieces

/-- The lines of a text, each with its line end. A carriage return and the line feed behind it
are one end. -/
def lines : List Char → List (List Char)
  | [] => []
  | '\r' :: '\n' :: rest => ['\r', '\n'] :: lines rest
  | c :: rest => if isLineEnd c then [c] :: lines rest else consFirst c (lines rest)

/-- The words of a text, each with the white space behind it. White space at the very start is a
piece of its own. -/
def words : List Char → List (List Char)
  | [] => []
  | c :: rest =>
    match rest with
    | [] => [[c]]
    | d :: _ => if isBlank c && !isBlank d then [c] :: words rest else consFirst c (words rest)

end Conformance.Text

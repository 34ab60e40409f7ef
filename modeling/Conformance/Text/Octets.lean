/- Octets written as pairs of hexadecimal digits. Blanks may stand between the pairs. -/
import Conformance.Text.Literal
namespace Conformance.Text

def writeOctets (data : List UInt8) : List Char := data.flatMap (fun b => hexadecimal 2 b.toNat)

def hexDigit? (c : Char) : Option Nat :=
  if c.isDigit then some (c.toNat - 48)
  else if 'a' ≤ c && c ≤ 'f' then some (c.toNat - 87)
  else if 'A' ≤ c && c ≤ 'F' then some (c.toNat - 55)
  else none

/-- White space of ASCII, without the separators U+001C to U+001F. -/
def isPlainBlank (c : Char) : Bool := c == ' ' || (9 ≤ c.toNat && c.toNat ≤ 13)

def readPairs (place : Nat) : List Char → Except Nat (List UInt8)
  | [] => .ok []
  | [c] => if isPlainBlank c then .ok [] else .error (place + if (hexDigit? c).isSome then 1 else 0)
  | c :: d :: rest =>
    if isPlainBlank c then readPairs (place + 1) (d :: rest)
    else
      match hexDigit? c, hexDigit? d with
      | none, _ => .error place
      | some _, none => .error (place + 1)
      | some high, some low =>
        (readPairs (place + 2) rest).map (UInt8.ofNat (16 * high + low) :: ·)

/-- The octets of a text. A character that is not of ASCII comes before all other trouble. -/
def readOctets (s : List Char) : Except Nat (List UInt8) :=
  match s.findIdx? (fun c => 128 ≤ c.toNat) with
  | some place => .error place
  | none => readPairs 0 s

theorem hexDigit_digitChar {n : Nat} (h : n < 16) : hexDigit? n.digitChar = some n := by
  have digits : ∀ n : Fin 16, hexDigit? n.val.digitChar = some n.val := by decide +kernel
  exact digits ⟨n, h⟩

example : readOctets ['6', '1', ' ', 'f', 'F'] = .ok [0x61, 0xFF] := by rfl

example : readOctets ['6', '1', '6'] = .error 3 := by rfl

end Conformance.Text

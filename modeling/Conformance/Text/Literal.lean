/- Literals between single or double quotes, of texts and of octets, in the printable ASCII and
   Unicode characters and escapes for the rest. -/
import Conformance.Text.Printable
namespace Conformance.Text

def quoteMark (s : List Char) : Char :=
  if s.contains '\'' && !s.contains '"' then '"' else '\''

def hexadecimal (width n : Nat) : List Char :=
  let digits := Nat.toDigits 16 n
  List.replicate (width - digits.length) '0' ++ digits

def numericEscape (n : Nat) : List Char :=
  if n ≤ 0xFF then '\\' :: 'x' :: hexadecimal 2 n
  else if n ≤ 0xFFFF then '\\' :: 'u' :: hexadecimal 4 n
  else '\\' :: 'U' :: hexadecimal 8 n

/-- One character inside a literal. `plain` says whether it may stand as it is. -/
def literalChar (mark : Char) (plain : Bool) (c : Char) : List Char :=
  if c == mark || c == '\\' then ['\\', c]
  else if c == '\t' then ['\\', 't']
  else if c == '\n' then ['\\', 'n']
  else if c == '\r' then ['\\', 'r']
  else if plain then [c]
  else numericEscape c.toNat

def literal (s : List Char) : List Char :=
  let mark := quoteMark s
  mark :: s.flatMap (fun c => literalChar mark (isPrintable c) c) ++ [mark]

/-- The literal of octets: the letter `b` and a literal in which only ASCII stands as it is. An
apostrophe is escaped inside double quotes too, if that is asked for. -/
def octetLiteral (escapeApostrophe : Bool) (data : List UInt8) : List Char :=
  let s := data.map (fun b => Char.ofNat b.toNat)
  let mark := quoteMark s
  let octet (c : Char) : List Char :=
    if escapeApostrophe && c == '\'' then ['\\', c]
    else literalChar mark (32 ≤ c.toNat && c.toNat < 127) c
  'b' :: mark :: s.flatMap octet ++ [mark]

example : literal ['a', '\'', 'b'] = ['"', 'a', '\'', 'b', '"'] := by decide +kernel

example : literal ['\n', 'é', '\x7f'] = ['\'', '\\', 'n', 'é', '\\', 'x', '7', 'f', '\''] := by
  decide +kernel

end Conformance.Text

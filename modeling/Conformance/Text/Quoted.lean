/- Quoted texts: between double quotes, with escapes for the double quote, the backslash and the
   characters below the space. Every other character stands as it is. -/
import Conformance.Text.Literal
namespace Conformance.Text

def quotedChar (c : Char) : List Char :=
  if c == '"' then ['\\', '"']
  else if c == '\\' then ['\\', '\\']
  else if c == '\n' then ['\\', 'n']
  else if c == '\r' then ['\\', 'r']
  else if c == '\t' then ['\\', 't']
  else if c.toNat == 8 then ['\\', 'b']
  else if c.toNat == 12 then ['\\', 'f']
  else if c.toNat < 32 then '\\' :: 'u' :: hexadecimal 4 c.toNat
  else [c]

def quoted (s : List Char) : List Char :=
  '"' :: s.flatMap quotedChar ++ ['"']

end Conformance.Text

/- Documents, and how they are laid out in eighty columns. A document that fits on the rest of its
   line goes there; one that does not is broken by the rule of its kind, if it has one. -/
import Conformance.Value.Display
import Conformance.Text.Segments
namespace Conformance

/-- The text of a document on one line comes with each kind that cannot compute it. -/
inductive Doc
  | atom (text : String)
  | literal (s : List Char)
  | octets (data : List UInt8)
  | items (text opening closing : String) (children : List Doc)
  | table (text : String) (rows : List (String × Doc))
  | fields (text opening : String) (rows : List (String × Doc))
  | enclosed (text opening : String) (child : Doc)

namespace Layout

def width : Nat := 80

/-- `indent` columns stand before a text and `allowance` columns are wanted behind it. -/
def fits (text : String) (indent allowance : Nat) : Bool :=
  text.length + indent + allowance ≤ width

def spaces (n : Nat) : String := "".pushn ' ' n

def newline (indent : Nat) : String := "\n" ++ spaces indent

/-- Words are joined as long as their literal fits; the allowance counts for the last word. -/
def joinWords (indent allowance : Nat) (current : List Char) : List (List Char) → List String
  | [] => if current.isEmpty then [] else [literalText current]
  | word :: words =>
    let candidate := current ++ word
    let behind := if words.isEmpty then allowance else 0
    if fits (literalText candidate) indent behind then
      joinWords indent allowance candidate words
    else if current.isEmpty then joinWords indent allowance word words
    else literalText current :: joinWords indent allowance word words

def lineChunks (indent allowance : Nat) (line : List Char) : List String :=
  if fits (literalText line) indent allowance then [literalText line]
  else joinWords indent allowance [] (Text.words line)

/-- The literals that a text is broken into: its lines, and the words of lines that are too long.
The allowance counts for the last line. -/
def literalChunks (indent allowance : Nat) : List (List Char) → List String
  | [] => [literalText []]
  | [line] => lineChunks indent allowance line
  | line :: lines => lineChunks indent 0 line ++ literalChunks indent allowance lines

def quads : List UInt8 → List (List UInt8)
  | a :: b :: c :: d :: rest => [a, b, c, d] :: quads rest
  | [] => []
  | rest => [rest]

/-- Groups are joined as long as their literal fits; the allowance counts for an incomplete last
group. -/
def joinQuads (indent allowance : Nat) (current : List UInt8) : List (List UInt8) → List String
  | [] => if current.isEmpty then [] else [octetText current]
  | quad :: quads =>
    let candidate := current ++ quad
    let behind := if quad.length < 4 then allowance else 0
    if fits (octetText candidate) indent behind then joinQuads indent allowance candidate quads
    else if current.isEmpty then joinQuads indent allowance quad quads
    else octetText current :: joinQuads indent allowance quad quads

def octetLines (indent allowance : Nat) (data : List UInt8) : String :=
  if data.length ≤ 4 then octetText data
  else (newline indent).intercalate (joinQuads indent allowance [] (quads data))

end Layout

namespace Doc

open Layout

def text : Doc → String
  | .atom text | .items text _ _ _ | .table text _ | .fields text _ _ | .enclosed text _ _ => text
  | .literal s => literalText s
  | .octets data => octetText data

mutual

def layout (indent allowance : Nat) : Doc → String
  | .atom text => text
  | .literal s =>
    if fits (literalText s) indent allowance then literalText s
    else (newline indent).intercalate (literalChunks indent allowance (Text.lines s))
  | .octets data =>
    if fits (octetText data) indent allowance then octetText data
    else octetLines indent allowance data
  | .items text opening closing children =>
    if fits text indent allowance then text
    else
      opening ++ layoutItems (indent + opening.length) (allowance + closing.length) children ++
        closing
  | .table text rows =>
    if fits text indent allowance then text
    else "\x7b" ++ layoutRows ": " (indent + 1) (allowance + 1) rows ++ "\x7d"
  | .fields text opening rows =>
    if fits text indent allowance then text
    -- No column is kept for the closing parenthesis.
    else opening ++ layoutRows "=" (indent + opening.length) allowance rows ++ ")"
  | .enclosed text opening child =>
    if fits text indent allowance then text
    else opening ++ layout (indent + opening.length) (allowance + 1) child ++ ")"
termination_by structural d => d

def layoutItems (indent allowance : Nat) : List Doc → String
  | [] => ""
  | d :: ds =>
    match ds with
    | [] => layout indent allowance d
    | _ => layout indent 1 d ++ "," ++ newline indent ++ layoutItems indent allowance ds
termination_by structural ds => ds

def layoutRows (joint : String) (indent allowance : Nat) : List (String × Doc) → String
  | [] => ""
  | (key, d) :: rows =>
    let column := indent + key.length + joint.length
    match rows with
    | [] => key ++ joint ++ layout column allowance d
    | _ =>
      key ++ joint ++ layout column 1 d ++ "," ++ newline indent ++
        layoutRows joint indent allowance rows
termination_by structural rows => rows

end

/-- The layout of a whole: octets on several lines are put in parentheses there. -/
def render : Doc → String
  | .octets data =>
    if fits (octetText data) 0 0 || data.length ≤ 4 then octetText data
    else s!"({octetLines 1 1 data})"
  | d => layout 0 0 d

end Doc

end Conformance

/- The text of a value on one line. There is none for an integer with too many digits, nor for an
   object that refuses, nor for anything that holds one. -/
import Conformance.Fault
import Conformance.Number.Reading
import Conformance.Number.Shortest
import Conformance.Text.Literal
namespace Conformance

/-- Addresses and identities are not part of a value. All things show the same ones, of the usual
width. -/
def nominalAddress : String := "0x7f0000000000"

def nominalIdentity : String := "139637976727552"

def literalText (s : List Char) : String := String.ofList (Text.literal s)

def octetText (data : List UInt8) : String := String.ofList (Text.octetLiteral false data)

/-- Octets that can be changed show with apostrophes escaped throughout. -/
def octetArrayText (data : List UInt8) : String :=
  let literal := String.ofList (Text.octetLiteral true data)
  s!"bytearray({literal})"

def Func.display (f : Func) : String :=
  match f.kind with
  | .function name => s!"<function {name} at {nominalAddress}>"
  | .builtin name => s!"<built-in function {name}>"
  | .classObject name => s!"<class '{name}'>"
  | .object className => s!"{className}()"

namespace Value

def boolText (b : Bool) : String := if b then "True" else "False"

def intText? (n : Int) : Except Fault String :=
  if n.natAbs < Nat.pow 10 Numeral.digitLimit then .ok (toString n) else .error .digitLimit

def bracketed (opening : String) (parts : List String) (closing : String) : String :=
  opening ++ ", ".intercalate parts ++ closing

def tupleText : List String → String
  | [part] => s!"({part},)"
  | parts => bracketed "(" parts ")"

def setText (frozen : Bool) (parts : List String) : String :=
  match frozen, parts with
  | false, [] => "set()"
  | false, parts => bracketed "\x7b" parts "\x7d"
  | true, [] => "frozenset()"
  | true, parts => bracketed "frozenset(\x7b" parts "\x7d)"

def rowTexts (rows : List (String × String)) : List String :=
  rows.map (fun (k, v) => s!"{k}: {v}")

def pairTexts (rows : List (String × String)) : List String :=
  rows.map (fun (k, v) => tupleText [k, v])

def tableText (rows : List (String × String)) : String :=
  bracketed "\x7b" (rowTexts rows) "\x7d"

def mappingText (kind : MappingKind) (rows : List (String × String)) : String :=
  match kind, rows with
  | .plain _, rows => tableText rows
  | .ordered, [] => "OrderedDict()"
  | .ordered, rows => bracketed "OrderedDict([" (pairTexts rows) "])"
  | .readOnly, rows => s!"mappingproxy({tableText rows})"

def fieldsText (className : String) (fields : List (String × String)) : String :=
  bracketed s!"{className}(" (fields.map (fun (name, shown) => s!"{name}={shown}")) ")"

def policyText (p : Policy) : String :=
  let extra := match p.extra with
    | none => "None"
    | some f => f.display
  fieldsText "StructPolicy"
    [("total", boolText p.total), ("unknown", boolText p.unknown), ("extra", extra)]

def schemaText (t : Schema) (more : List (String × String)) : String :=
  fieldsText t.className
    (("name", literalText t.name.toList) :: ("verify", t.verifier.display) :: more)

def objectText (v : Value) : String := s!"<{v.qualifiedClass} object at {nominalAddress}>"

/-- Where a container turns up inside itself: a remark when that is guarded against, else dots. -/
def loopText (guarded : Bool) (className dots : String) : String :=
  if guarded then s!"<Recursion on {className} with id={nominalIdentity}>" else dots

mutual

/-- The text on one line. Only lists, tuples and plain mappings pass the guard on to their
parts. A schema shows with the elements or members that it lists, and has no text if one of them
has none. -/
def line? (guarded : Bool) : Value → Except Fault String
  | .null => .ok "None"
  | .bool b => .ok (boolText b)
  | .int _ n => intText? n
  | .float _ x => .ok (String.ofList x.text)
  | .text _ s => .ok (literalText s.toList)
  | .octets false data => .ok (octetText data)
  | .octets true data => .ok (octetArrayText data)
  | .list _ items => do return bracketed "[" (← lines? guarded items) "]"
  | .tuple _ items => do return tupleText (← lines? guarded items)
  | .set frozen items => do return setText frozen (← lines? false items)
  | .mapping (.plain l) entries => do return mappingText (.plain l) (← rows? guarded entries)
  | .mapping kind entries => do return mappingText kind (← rows? false entries)
  | .func f => .ok f.display
  | .object n .plain s => .ok (Value.object n .plain s).objectText
  | .object _ .refused _ => .error .noText
  | .object _ (.text s) _ => .ok s
  | .loopList _ => .ok (bracketed "[" ["1", loopText guarded "list" "[...]"] "]")
  | .loopMapping _ => .ok (tableText [("'self'", loopText guarded "dict" "\x7b...\x7d")])
  | .schema t => schemaLine? t
termination_by structural v => v

def lines? (guarded : Bool) : List Value → Except Fault (List String)
  | [] => .ok []
  | v :: vs => do
    let first ← line? guarded v
    return first :: (← lines? guarded vs)
termination_by structural vs => vs

def rows? (guarded : Bool) : List (Value × Value) → Except Fault (List (String × String))
  | [] => .ok []
  | (k, v) :: rest => do
    let key ← line? guarded k
    let value ← line? guarded v
    return (key, value) :: (← rows? guarded rest)
termination_by structural es => es

def schemaLine? : Schema → Except Fault String
  | .enumeration s n elems => do
    let shown ← lines? false elems
    return schemaText (.enumeration s n elems) [("elems", tupleText shown)]
  | .record s n members policy => do
    let shown ← memberRows? members
    return schemaText (.record s n members policy)
      [("members", mappingText .readOnly shown), ("policy", policyText policy)]
  | t => .ok (schemaText t [])
termination_by structural t => t

def memberRows? : List (Name × Schema) → Except Fault (List (String × String))
  | [] => .ok []
  | (n, t) :: rest => do
    let shown ← schemaLine? t
    return (literalText n.text.toList, shown) :: (← memberRows? rest)
termination_by structural members => members

end

/-- The text of a value on its own: a text is its own text, and a read-only mapping shows as the
plain one inside it. -/
def plainText? : Value → Except Fault String
  | .text _ s => .ok s
  | .mapping .readOnly entries => line? false (.mapping (.plain .base) entries)
  | v => line? false v

end Value

end Conformance

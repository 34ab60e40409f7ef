/- The text of a value in a message. It always exists: what cannot be written is shown as an object
   of its class. -/
import Conformance.Layout
import Conformance.Text.Quoted
import Conformance.Value.Order
namespace Conformance.Value

def tupleDoc (text : String) (children : List Doc) : Doc :=
  .items text "(" (if children.length = 1 then ",)" else ")") children

def schemaDoc (text : String) (t : Schema) (more : List (String × Doc)) : Doc :=
  .fields text s!"{t.className}("
    (("name", .literal t.name.toList) :: ("verify", .atom t.verifier.display) :: more)

mutual

/-- The document of a value. Sets are sorted where they are broken into lines, and only there. -/
def doc? : Value → Except Fault Doc
  | .text _ s => .ok (.literal s.toList)
  | .octets false data => .ok (.octets data)
  | .octets true data => .ok (.enclosed (octetArrayText data) "bytearray(" (.octets data))
  | .list l items => do
    return .items (← line? true (.list l items)) "[" "]" (← docs? items)
  | .tuple l items => do return tupleDoc (← line? true (.tuple l items)) (← docs? items)
  | .set frozen items => do
    let text ← line? true (.set frozen items)
    let children := (sortedBy (·.1) (items.zip (← docs? items))).map (·.2)
    if items.isEmpty then return .atom text
    else if frozen then return .items text "frozenset(\x7b" "\x7d)" children
    else return .items text "\x7b" "\x7d" children
  | .mapping kind entries => do
    let text ← line? true (.mapping kind entries)
    let rows ← rowDocs? entries
    match kind with
    | .plain _ => return .table text rows
    | .ordered =>
      if entries.isEmpty then return .atom text
      else
        let list := bracketed "[" (pairTexts (← rows? true entries)) "]"
        return .enclosed text "OrderedDict(" (.items list "[" "]" (← pairDocs? entries))
    | .readOnly =>
      return .enclosed text "mappingproxy(" (.table (tableText (← rows? true entries)) rows)
  | .loopList s => do
    return .items (← line? true (.loopList s)) "[" "]"
      [.atom "1", .atom (loopText true "list" "")]
  | .loopMapping s => do
    return .table (← line? true (.loopMapping s)) [("'self'", .atom (loopText true "dict" ""))]
  | .schema t => schemaDoc? t
  | v => do return .atom (← line? true v)
termination_by structural v => v

def docs? : List Value → Except Fault (List Doc)
  | [] => .ok []
  | v :: vs => do
    let first ← doc? v
    return first :: (← docs? vs)
termination_by structural vs => vs

def rowDocs? : List (Value × Value) → Except Fault (List (String × Doc))
  | [] => .ok []
  | (k, v) :: rest => do
    let key ← line? true k
    let value ← doc? v
    return (key, value) :: (← rowDocs? rest)
termination_by structural es => es

def pairDocs? : List (Value × Value) → Except Fault (List Doc)
  | [] => .ok []
  | (k, v) :: rest => do
    let text := tupleText [← line? true k, ← line? true v]
    let pair := tupleDoc text [← doc? k, ← doc? v]
    return pair :: (← pairDocs? rest)
termination_by structural es => es

def schemaDoc? : Schema → Except Fault Doc
  | .enumeration s n elems => do
    let text ← schemaLine? (.enumeration s n elems)
    let shown := tupleDoc (tupleText (← lines? true elems)) (← docs? elems)
    return schemaDoc text (.enumeration s n elems) [("elems", shown)]
  | .record s n members policy => do
    let text ← schemaLine? (.record s n members policy)
    let rows ← memberRows? members
    let shown := Doc.enclosed (mappingText .readOnly rows) "mappingproxy("
      (.table (tableText rows) (← memberDocs? members))
    return schemaDoc text (.record s n members policy)
      [("members", shown), ("policy", .atom (policyText policy))]
  | t => do return schemaDoc (← schemaLine? t) t []
termination_by structural t => t

def memberDocs? : List (Name × Schema) → Except Fault (List (String × Doc))
  | [] => .ok []
  | (n, t) :: rest => do
    let shown ← schemaDoc? t
    return (literalText n.text.toList, shown) :: (← memberDocs? rest)
termination_by structural members => members

end

/-- A text is quoted; anything else is laid out. -/
def pretty (v : Value) : String :=
  match v with
  | .text _ s => String.ofList (Text.quoted s.toList)
  | _ =>
    match v.doc? with
    | .ok d => d.render
    | .error _ => v.objectText

def mismatch (typeName : String) (v : Value) : String :=
  s!"Expected type '{typeName}' but value '{v.pretty}' is of type '{v.className}'"

end Conformance.Value

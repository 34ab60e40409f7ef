/- Copies of values made of plain containers. -/
import Conformance.Policy
import Conformance.Value.Hashing
namespace Conformance.Value

/-- The name of a schema as a value. A name that was given keeps its class. -/
def ofSchemaName : Schema → Value
  | .custom n _ | .predicate _ n _ | .enumeration _ n _ | .record _ n _ _ => ofName n
  | t => .ofString t.name

def schemaFields (t : Schema) : List (String × Value) :=
  [("name", ofSchemaName t), ("verify", .func t.verifier)]

def copiedSet (frozen : Bool) (items : List Value) : Except Fault Value :=
  match unhashableItem? items with
  | none => .ok (.set frozen items)
  | some got => .error (.operand (.unhashable got))

def copiedKey (key : Value) : Except Fault Value :=
  match unhashable? key with
  | none => .ok key
  | some got => .error (.operand (.unhashable got))

mutual

/-- Lists, tuples, sets and mappings are copied, down to their parts, as those of the base class, but
ordered mappings stay such; schemas are copied as mappings of their fields. All else is left as it
is, and so is a container inside itself. -/
def dump? : Value → Except Fault Value
  | .list _ items => do return .list .base (← dumps? items)
  | .tuple _ items => do return .tuple .base (← dumps? items)
  | .set frozen items => do copiedSet frozen (← dumps? items)
  | .mapping .readOnly entries => .ok (.mapping .readOnly entries)
  | .mapping .ordered entries => do return .mapping .ordered (← dumpEntries? entries)
  | .mapping (.plain _) entries => do return .mapping (.plain .base) (← dumpEntries? entries)
  | .loopList s => .ok (.list .base [.ofInt 1, .loopList s])
  | .loopMapping s => .ok (ofFields [("self", .loopMapping s)])
  | .schema t => dumpSchema? t
  | v => .ok v
termination_by structural v => v

def dumps? : List Value → Except Fault (List Value)
  | [] => .ok []
  | v :: vs => do
    let first ← dump? v
    return first :: (← dumps? vs)
termination_by structural vs => vs

/-- Keys are copied like values. Copies of different keys differ: only a schema is unlike its copy,
and that copy is no key. -/
def dumpEntries? : List (Value × Value) → Except Fault (List (Value × Value))
  | [] => .ok []
  | (k, v) :: rest => do
    let key ← copiedKey (← dump? k)
    let value ← dump? v
    return (key, value) :: (← dumpEntries? rest)
termination_by structural es => es

def dumpSchema? : Schema → Except Fault Value
  | .enumeration s n elems => do
    let elems ← dumps? elems
    return ofFields (schemaFields (.enumeration s n elems) ++ [("elems", .tuple .base elems)])
  | .record s n members policy =>
    let shown := members.map (fun (key, t) => (ofName key, Value.schema t))
    .ok (ofFields (schemaFields (.record s n members policy) ++
      [("members", .mapping .readOnly shown), ("policy", ofFields policy.toKnobs)]))
  | t => .ok (ofFields (schemaFields t))
termination_by structural t => t

end

end Conformance.Value

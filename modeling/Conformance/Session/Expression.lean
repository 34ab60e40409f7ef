/- Expressions for values and schemas, and their evaluation. An expression that makes an object, a
   script or a schema makes a new one each time it is evaluated. -/
import Conformance.Check
import Conformance.Catalogue
import Conformance.Number.Reading
import Conformance.Text.Octets
import Conformance.Value.Hashing
namespace Conformance.Session

/-- What an expression can be put into, over and over. -/
inductive ValueWrapper
  | list
  | tuple
  | mapping

inductive SchemaWrapper
  | optional
  | listOf
  | mapOf
  | union

mutual

inductive ValueExpr
  | constant (v : Value)
  | whole (numeral : String)
  | double (numeral : String)
  | octets (isMutable : Bool) (digits : String)
  | list (items : List ValueExpr)
  | tuple (items : List ValueExpr)
  | set (frozen : Bool) (items : List ValueExpr)
  | mapping (kind : MappingKind) (entries : List (ValueExpr × ValueExpr))
  | derived (e : ValueExpr)
  | function (name : String)
  | object (name : String)
  | repeated (e : ValueExpr) (times : Int)
  | nested (wrapper : ValueWrapper) (depth : Nat) (e : ValueExpr)
  | script (label : String) (answers : List ValueExpr)
  | schema (e : SchemaExpr)

inductive SchemaExpr
  | primitive (p : Primitive)
  | optional (inner : SchemaExpr)
  | listOf (inner : SchemaExpr)
  | mapOf (inner : SchemaExpr)
  | union (members : List SchemaExpr)
  | unionOf (members : SchemaExpr)
  | enumeration (name elems : ValueExpr)
  | record (name : ValueExpr) (members : List (ValueExpr × SchemaExpr))
      (knobs : List (String × ValueExpr))
  | recordOf (name : ValueExpr) (members : SchemaExpr) (knobs : List (String × ValueExpr))
  | override (target : SchemaExpr) (knobs : List (String × ValueExpr))
  | custom (name verifier : ValueExpr)
  | predicate (name test : ValueExpr)
  | value (e : ValueExpr)
  | nested (wrapper : SchemaWrapper) (depth : Nat) (e : SchemaExpr)
  | ref (name : String)

end

/-- The state of a session: that of a run, and the names that are bound. -/
structure State where
  runtime : Runtime Tape := { host := {} }
  bindings : List (String × Value) := []

abbrev SessionM := ExceptT Fault (StateM State)

namespace SessionM

def ofRun (x : Run Tape α) : SessionM α := fun s =>
  let (result, runtime) := x s.runtime
  (result, { s with runtime })

def ofBuild (x : Build α) : SessionM α := ofRun (Run.ofBuild x)

def ofCall (x : CallM Tape α) : SessionM α := ofRun (Run.ofCall x)

def building (x : Build Schema) : SessionM Value := do return .schema (← ofBuild x)

def addScript (script : Script) : SessionM Unit :=
  ofCall (modify fun tape => { tape with scripts := tape.scripts ++ [script] })

def memberOfRecord (member : String) : Value → SessionM Value
  | .schema (.record s n members policy) => return .schema (.record s n members policy)
  | v => throw (.noMember v.ownerText member)

def requireHashable (v : Value) : SessionM Unit :=
  match v.unhashable? with
  | none => pure ()
  | some got => throw (.operand (.unhashable got))

end SessionM

open SessionM

/-- What is no number gets a mark of its own when it is made. -/
def marked : Value → SessionM Value
  | .float l (.nan _) => do return .float l (.nan (← ofBuild Build.fresh))
  | v => return v

/-- A fault shows at most 200 characters of what is no whole number. -/
def readWhole (numeral : String) : Except Fault Value :=
  match Numeral.readWhole numeral with
  | .ok n => .ok (.ofInt n)
  | .error (.tooLong digits) => .error (.longNumeral digits)
  | .error .malformed =>
    .error (.notWhole (String.ofList ((Text.literal numeral.toList).take 200)))

def readDouble (numeral : String) : Except Fault Value :=
  match Numeral.readDouble? numeral with
  | some x => .ok (.float .base x)
  | none => .error (.notDouble (literalText numeral.toList))

def readOctets (isMutable : Bool) (digits : String) : Except Fault Value :=
  match Text.readOctets digits.toList with
  | .ok data => .ok (.octets isMutable data)
  | .error place => .error (.notOctetText place)

/-- The same value as one of a subclass. The other classes have none. -/
def derive? : Value → Except Fault Value
  | .int .base n => .ok (.int (.derived "MyInt") n)
  | .float .base x => .ok (.float (.derived "MyFloat") x)
  | .text .base s => .ok (.text (.derived "MyStr") s)
  | .list .base items => .ok (.list (.derived "MyList") items)
  | .loopList s => .ok (.list (.derived "MyList") [.ofInt 1, .loopList s])
  | .tuple .base items => .ok (.tuple (.derived "MyTuple") items)
  | .mapping (.plain .base) entries => .ok (.mapping (.plain (.derived "MyDict")) entries)
  | .loopMapping s =>
    .ok (.mapping (.plain (.derived "MyDict")) [(.ofString "self", .loopMapping s)])
  | v => .error (.keyAbsent s!"<class '{v.qualifiedClass}'>")

def wrapValue : ValueWrapper → Value → Value
  | .list, v => .list .base [v]
  | .tuple, v => .tuple .base [v]
  | .mapping, v => .mapping (.plain .base) [(.ofString "k", v)]

def nestValue (wrapper : ValueWrapper) : Nat → Value → Value
  | 0, v => v
  | n + 1, v => nestValue wrapper n (wrapValue wrapper v)

def wrapSchema : SchemaWrapper → Value → Build Schema
  | .optional, v => Construct.optional v
  | .listOf, v => Construct.listOf v
  | .mapOf, v => Construct.mapOf v
  | .union, v => Construct.union (.list .base [v])

def nestSchema (wrapper : SchemaWrapper) : Nat → Value → SessionM Value
  | 0, v => return v
  | n + 1, v => do nestSchema wrapper n (← building (wrapSchema wrapper v))

def addItem (items : List Value) (v : Value) : SessionM (List Value) := do
  requireHashable v
  return putItem items v

/-- The entries with one more: an equal key keeps its place and takes the later value. -/
def addEntry (entries : List (Value × Value)) (key v : Value) : SessionM (List (Value × Value)) := do
  requireHashable key
  return putEntry entries key v

mutual

def ValueExpr.eval : ValueExpr → SessionM Value
  | .constant v => return v
  | .whole numeral => do ofExcept (readWhole numeral)
  | .double numeral => do marked (← ofExcept (readDouble numeral))
  | .octets isMutable digits => do ofExcept (readOctets isMutable digits)
  | .list items => do return .list .base (← evalValues items)
  | .tuple items => do return .tuple .base (← evalValues items)
  | .set frozen items => do return .set frozen (Value.sortedBy id (← evalItems [] items))
  | .mapping kind entries => do return .mapping kind (← evalEntries [] entries)
  | .derived e => do marked (← ofExcept (derive? (← e.eval)))
  | .function name =>
    match Catalogue.named? name with
    | some f => return .func f
    | none => throw (.unbound name)
  | .object name => do
    match Catalogue.object? (← ofBuild Build.fresh) name with
    | some v => return v
    | none => throw (.unbound name)
  | .repeated e times => do marked (← ofExcept ((← e.eval).times? times))
  | .nested wrapper depth e => do return nestValue wrapper depth (← e.eval)
  | .script label answers => do
    let answers ← evalValues answers
    let func := Script.funcOf (← ofBuild Build.fresh)
    addScript { func, label, answers }
    return .func func
  | .schema e => e.eval
termination_by structural e => e

def SchemaExpr.eval : SchemaExpr → SessionM Value
  | .primitive p => return .schema (.primitive p)
  | .optional inner => do building (Construct.optional (← inner.eval))
  | .listOf inner => do building (Construct.listOf (← inner.eval))
  | .mapOf inner => do building (Construct.mapOf (← inner.eval))
  | .union members => do building (Construct.union (.list .base (← evalSchemas members)))
  | .unionOf members => do building (Construct.union (← members.eval))
  | .enumeration name elems => do
    let name ← name.eval
    building (Construct.enumeration name (← elems.eval))
  | .record name members knobs => do
    let name ← name.eval
    let members ← evalMembers [] members
    let knobs ← evalKnobs knobs
    building (Construct.record name (.mapping (.plain .base) members) knobs)
  | .recordOf name members knobs => do
    let name ← name.eval
    let members ← members.eval
    building (Construct.record name members (← evalKnobs knobs))
  | .override target knobs => do
    let t ← memberOfRecord "override" (← target.eval)
    let knobs ← evalKnobs knobs
    building (Construct.override t (Knobs.merge [] knobs))
  | .custom name verifier => do
    let name ← name.eval
    building (Construct.custom name (← verifier.eval))
  | .predicate name test => do
    let name ← name.eval
    building (Construct.predicate name (← test.eval))
  | .value e => e.eval
  | .nested wrapper depth e => do nestSchema wrapper depth (← e.eval)
  | .ref name => do
    match (← get).bindings.lookup name with
    | some t => return t
    | none => throw (.unbound name)
termination_by structural e => e

def evalValues : List ValueExpr → SessionM (List Value)
  | [] => return []
  | e :: es => do
    let first ← e.eval
    return first :: (← evalValues es)
termination_by structural es => es

/-- Items are put in one by one, each as soon as it is evaluated. -/
def evalItems (items : List Value) : List ValueExpr → SessionM (List Value)
  | [] => return items
  | e :: es => do evalItems (← addItem items (← e.eval)) es
termination_by structural es => es

def evalEntries (entries : List (Value × Value)) :
    List (ValueExpr × ValueExpr) → SessionM (List (Value × Value))
  | [] => return entries
  | (k, v) :: es => do
    let key ← k.eval
    let value ← v.eval
    evalEntries (← addEntry entries key value) es
termination_by structural es => es

def evalSchemas : List SchemaExpr → SessionM (List Value)
  | [] => return []
  | e :: es => do
    let first ← e.eval
    return first :: (← evalSchemas es)
termination_by structural es => es

def evalMembers (entries : List (Value × Value)) :
    List (ValueExpr × SchemaExpr) → SessionM (List (Value × Value))
  | [] => return entries
  | (k, t) :: es => do
    let key ← k.eval
    let value ← t.eval
    evalMembers (← addEntry entries key value) es
termination_by structural es => es

def evalKnobs : List (String × ValueExpr) → SessionM Knobs
  | [] => return []
  | (name, e) :: es => do
    let value ← e.eval
    return (name, value) :: (← evalKnobs es)
termination_by structural es => es

end

end Conformance.Session

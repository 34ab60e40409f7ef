/- Dynamic values, and the schemas that they are checked against. Each mentions the other: a schema
   can be passed around as a value, and an enumeration lists values. -/
import Conformance.Number.Binary64
import Conformance.Signature
namespace Conformance

/-- A class itself, or a subclass that adds nothing to it but its name. -/
inductive Lineage
  | base
  | derived (className : String)
  deriving DecidableEq

def Lineage.className (base : String) : Lineage → String
  | .base => base
  | .derived className => className

/-- A name that was given: a text, of the class of texts or of a subclass. -/
structure Name where
  lineage : Lineage
  text : String
  deriving DecidableEq

instance : Coe String Name := ⟨fun s => ⟨.base, s⟩⟩

inductive MappingKind
  | plain (lineage : Lineage)
  | ordered
  | readOnly
  deriving DecidableEq

/-- How an object shows: by its class and address, not at all, or as a text of its own. -/
inductive Appearance
  | plain
  | refused
  | text (s : String)
  deriving DecidableEq

inductive Primitive
  | string
  | int
  | float
  | number
  | bool
  | attrs
  | list
  | function
  | any
  deriving DecidableEq

/-- How a record treats absent members and undeclared keys, and a last check of the whole. -/
structure Policy where
  total : Bool := true
  unknown : Bool := true
  extra : Option Func := none
  deriving DecidableEq

mutual

inductive Value
  | null
  | bool (b : Bool)
  | int (lineage : Lineage) (n : Int)
  | float (lineage : Lineage) (x : Binary64)
  | text (lineage : Lineage) (s : String)
  | octets (isMutable : Bool) (data : List UInt8)
  | list (lineage : Lineage) (items : List Value)
  | tuple (lineage : Lineage) (items : List Value)
  | set (frozen : Bool) (items : List Value)
  | mapping (kind : MappingKind) (entries : List (Value × Value))
  | func (f : Func)
  /-- An object with no content, equal to nothing but itself. -/
  | object (className : String) (shown : Appearance) (stamp : Nat)
  /-- The list of one and itself. -/
  | loopList (stamp : Nat)
  /-- The mapping of `self` to itself. -/
  | loopMapping (stamp : Nat)
  | schema (t : Schema)

/-- A stamp stands for the verifier that a constructor made: two constructions never share one. -/
inductive Schema
  | primitive (p : Primitive)
  | custom (name : Name) (verifier : Func)
  | predicate (stamp : Nat) (name : Name) (test : Func)
  | optional (stamp : Nat) (inner : Schema)
  | listOf (stamp : Nat) (inner : Schema)
  | mapOf (stamp : Nat) (inner : Schema)
  | union (stamp : Nat) (members : List Schema)
  | enumeration (stamp : Nat) (name : Name) (elems : List Value)
  | record (stamp : Nat) (name : Name) (members : List (Name × Schema)) (policy : Policy)

end

namespace Primitive

def name : Primitive → String
  | .string => "string"
  | .int => "int"
  | .float => "float"
  | .number => "number"
  | .bool => "bool"
  | .attrs => "attrs"
  | .list => "list"
  | .function => "function"
  | .any => "any"

def count : Nat := 9

theorem ctorIdx_lt_count (p : Primitive) : p.ctorIdx < count := by
  cases p <;> decide

end Primitive

namespace Schema

mutual

def name : Schema → String
  | .primitive p => p.name
  | .custom n _ | .predicate _ n _ | .enumeration _ n _ | .record _ n _ _ => n.text
  | .optional _ t => s!"option<{t.name}>"
  | .listOf _ t => s!"listOf<{t.name}>"
  | .mapOf _ t => s!"attrsOf<{t.name}>"
  | .union _ ts => s!"union<{joinNames ts}>"

def joinNames : List Schema → String
  | [] => ""
  | [t] => t.name
  | t :: ts => s!"{t.name},{joinNames ts}"

end

/-- What tells the verifiers of two schemas apart. -/
inductive VerifierId
  | primitive (p : Primitive)
  | given (f : Func)
  | made (stamp : Nat)
  deriving DecidableEq

def verifierId : Schema → VerifierId
  | .primitive p => .primitive p
  | .custom _ f => .given f
  | .predicate s _ _ | .optional s _ | .listOf s _ | .mapOf s _ | .union s _
  | .enumeration s _ _ | .record s _ _ _ => .made s

def verifierName : Schema → String
  | .primitive .any => "<lambda>"
  | .primitive _ | .predicate _ _ _ => "from_predicate.<locals>.verify"
  | .custom _ f => f.callName
  | .optional _ _ => "Option.<locals>.check"
  | .listOf _ _ => "ListOf.<locals>.check"
  | .mapOf _ _ => "AttrsOf.<locals>.check"
  | .union _ _ => "Union.<locals>.check"
  | .enumeration _ _ _ => "Enum.<locals>.check"
  | .record _ _ _ _ => "_build_struct.<locals>.check"

/-- The verifier as a function of one value. Those of primitives are counted before all that are
made. -/
def verifier (t : Schema) : Func :=
  let numbered (stamp : Nat) : Func :=
    ⟨.function t.verifierName, some [⟨"value", .positional, true⟩], stamp⟩
  match t.verifierId with
  | .given f => f
  | .primitive p => numbered p.ctorIdx
  | .made stamp => numbered (Primitive.count + stamp)

def className : Schema → String
  | .enumeration .. => "EnumDef"
  | .record .. => "StructDef"
  | _ => "TypeDef"

def moduleName : Schema → String
  | .enumeration .. => "tern.combinators"
  | .record .. => "tern.struct"
  | _ => "tern.core"

/-- Schemas are equal when class, name and verifier are. Members and policies do not count; the
elements of an enumeration go with its verifier. -/
def same (a b : Schema) : Bool :=
  a.className == b.className && a.name == b.name && a.verifierId == b.verifierId

end Schema

namespace Value

abbrev ofString (s : String) : Value := .text .base s

abbrev ofName (n : Name) : Value := .text n.lineage n.text

abbrev ofInt (n : Int) : Value := .int .base n

def ofFields (fields : List (String × Value)) : Value :=
  .mapping (.plain .base) (fields.map (fun (name, v) => (.ofString name, v)))

def className : Value → String
  | .null => "NoneType"
  | .bool _ => "bool"
  | .int l _ => l.className "int"
  | .float l _ => l.className "float"
  | .text l _ => l.className "str"
  | .octets false _ => "bytes"
  | .octets true _ => "bytearray"
  | .list l _ => l.className "list"
  | .loopList _ => "list"
  | .tuple l _ => l.className "tuple"
  | .set false _ => "set"
  | .set true _ => "frozenset"
  | .mapping (.plain l) _ => l.className "dict"
  | .loopMapping _ => "dict"
  | .mapping .ordered _ => "OrderedDict"
  | .mapping .readOnly _ => "mappingproxy"
  | .func f => f.className
  | .object className _ _ => className
  | .schema t => t.className

/-- The name under which an operator reports the class of an operand. -/
def operandClass : Value → String
  | .mapping .ordered _ => "collections.OrderedDict"
  | v => v.className

def qualifiedClass (v : Value) : String :=
  match v with
  | .object _ _ _ | .func { kind := .object _, .. } | .int (.derived _) _
  | .float (.derived _) _ | .text (.derived _) _ | .list (.derived _) _
  | .tuple (.derived _) _ | .mapping (.plain (.derived _)) _ => s!"__main__.{v.className}"
  | .schema t => s!"{t.moduleName}.{t.className}"
  | _ => v.operandClass

def ownerText : Value → String
  | .func { kind := .classObject name, .. } => s!"type object '{name}'"
  | v => s!"'{v.operandClass}' object"

def items? : Value → Option (List Value)
  | .list _ items | .tuple _ items => some items
  | .loopList stamp => some [.ofInt 1, .loopList stamp]
  | _ => none

def entries? : Value → Option (List (Value × Value))
  | .mapping _ entries => some entries
  | .loopMapping stamp => some [(.ofString "self", .loopMapping stamp)]
  | _ => none

def truthy : Value → Bool
  | .null => false
  | .bool b => b
  | .int _ n => n != 0
  | .float _ x => !x.isZero
  | .text _ s => !s.isEmpty
  | .octets _ data => !data.isEmpty
  | .list _ items | .tuple _ items | .set _ items => !items.isEmpty
  | .mapping _ entries => !entries.isEmpty
  | .func _ | .object _ _ _ | .loopList _ | .loopMapping _ | .schema _ => true

def place? : Value → Option Place
  | .bool b => some (.ofInt (if b then 1 else 0))
  | .int _ n => some (.ofInt n)
  | .float _ x => some (.ofBinary64 x)
  | _ => none

end Value

end Conformance

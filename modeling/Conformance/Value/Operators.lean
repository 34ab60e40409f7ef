/- Operators and functions on values that are defined for some classes and refuse the others. -/
import Conformance.Value.Order
import Conformance.Value.Display
namespace Conformance.Value

/-- The number of units of a text, items of a container, or entries of a mapping. -/
def length? (v : Value) : Except Fault Nat :=
  match v with
  | .text _ s => .ok s.length
  | .octets _ data => .ok data.length
  | .set _ items => .ok items.length
  | _ =>
    match v.items?, v.entries? with
    | some items, _ => .ok items.length
    | _, some entries => .ok entries.length
    | none, none => .error (.operand (.noLength v.className))

def iterate? (v : Value) : Except Fault (List Value) :=
  match v with
  | .text _ s => .ok (s.toList.map (fun c => .ofString c.toString))
  | .octets _ data => .ok (data.map (fun b => .ofInt b.toNat))
  | .set _ items => .ok items
  | _ =>
    match v.items?, v.entries? with
    | some items, _ => .ok items
    | _, some entries => .ok (entries.map (·.1))
    | none, none => .error (.operand (.notIterable v.operandClass))

def orderSymbol (turned : Bool) : String := if turned then ">" else "<"

/-- The fault of values without an order. A read-only mapping hands the question to the plain one
inside it, which turns it around when the read-only one stands on the right. -/
def Unordered.fault (u : Unordered) : Fault :=
  let (left, right) := if u.turned then (u.second, u.first) else (u.first, u.second)
  match left, right with
  | .mapping .readOnly _, .mapping .readOnly _ =>
    .operand (.incomparable (orderSymbol !u.turned) "dict" "dict")
  | .mapping .readOnly _, w =>
    .operand (.incomparable (orderSymbol u.turned) "dict" w.operandClass)
  | v, .mapping .readOnly _ =>
    .operand (.incomparable (orderSymbol !u.turned) "dict" v.operandClass)
  | v, w => .operand (.incomparable (orderSymbol u.turned) v.operandClass w.operandClass)

def greater? (v w : Value) : Except Fault Bool :=
  match w.less? true v with
  | .ok answer => .ok answer
  | .error u => .error u.fault

def whole? : Value → Option Int
  | .bool b => some (if b then 1 else 0)
  | .int _ n => some n
  | _ => none

def binary64? : Value → Option (Except Fault Binary64)
  | .float _ x => some (.ok x)
  | v => v.whole?.map fun n =>
    match Binary64.ofInt? n with
    | some x => .ok x
    | none => .error (.operand .tooLarge)

def addNumbers? (v w : Value) : Option (Except Fault Value) :=
  match v.whole?, w.whole? with
  | some m, some n => some (.ok (.ofInt (m + n)))
  | _, _ =>
    match v.binary64?, w.binary64? with
    | some x, some y => some (do return .float .base ((← x).add (← y)))
    | _, _ => none

def timesNumber? (times : Int) (v : Value) : Option Value :=
  match v, v.whole? with
  | .float _ x, _ => some (.float .base (x.scale times))
  | _, some n => some (.ofInt (n * times))
  | _, none => none

/-- A number so many times itself, or a sequence so many times in a row: never, if the count is
negative. -/
def times? (times : Int) (v : Value) : Except Fault Value :=
  let repeated {α : Type} (items : List α) : List α := (List.replicate times.toNat items).flatten
  match v, v.items? with
  | .tuple _ items, _ => .ok (.tuple .base (repeated items))
  | _, some items => .ok (.list .base (repeated items))
  | .text _ s, none => .ok (.ofString (String.ofList (repeated s.toList)))
  | .octets isMutable data, none => .ok (.octets isMutable (repeated data))
  | v, none =>
    match timesNumber? times v with
    | some product => .ok product
    | none => .error (.operand (.notRepeatable v.operandClass))

def listItems? : Value → Option (List Value)
  | .tuple _ _ => none
  | v => v.items?

/-- The sum of numbers, or the concatenation of two sequences of a kind. -/
def add? (v w : Value) : Except Fault Value :=
  match addNumbers? v w with
  | some sum => sum
  | none =>
    match v, w with
    | .text _ s, .text _ t => .ok (.ofString (s ++ t))
    | .text _ _, w => .error (.operand (.notJoinable "str" w.operandClass))
    | .octets isMutable s, .octets _ t => .ok (.octets isMutable (s ++ t))
    | .octets isMutable s, w =>
      .error (.operand (.notJoinableOctets (Value.octets isMutable s).className w.operandClass))
    | .tuple _ xs, .tuple _ ys => .ok (.tuple .base (xs ++ ys))
    | .tuple _ _, w => .error (.operand (.notJoinable "tuple" w.operandClass))
    | v, w =>
      match v.listItems?, w.listItems? with
      | some xs, some ys => .ok (.list .base (xs ++ ys))
      | some _, none => .error (.operand (.notJoinable "list" w.operandClass))
      | none, _ => .error (.operand (.notAddable v.operandClass w.operandClass))

def listClassOf (kind : String) : Value :=
  .object "types.GenericAlias" (.text s!"list[{literalText kind.toList}]") 0

def atKey? (v : Value) (key : String) : Except Fault Value :=
  match v, v.entries? with
  | _, some entries =>
    match lookup? (.ofString key) entries with
    | some found => .ok found
    | none => .error (.keyAbsent (literalText key.toList))
  | .func { kind := .classObject "list", .. }, none => .ok (listClassOf key)
  | v, none =>
    .error (.operand (match v with
      | .text _ _ => .notTextIndex "str"
      | .list _ _ | .loopList _ => .notIndex "list" "str"
      | .tuple _ _ => .notIndex "tuple" "str"
      | .octets false _ => .notIndex "byte" "str"
      | .octets true _ => .notIndex "bytearray" "str"
      | .func { kind := .classObject name, .. } => .notSubscriptable s!"type '{name}'"
      | v => .notSubscriptable s!"'{v.operandClass}' object"))

def occursIn (s : List Char) : List Char → Bool
  | [] => s.isEmpty
  | c :: rest => s.isPrefixOf (c :: rest) || occursIn s rest

def holds? (v : Value) (key : String) : Except Fault Bool :=
  match v with
  | .text _ s => .ok (occursIn key.toList s.toList)
  | .octets _ _ => .error (.operand (.notOctets "str"))
  | _ =>
    match v.iterate? with
    | .ok items => .ok (items.any (fun item => item.same (.ofString key)))
    | .error _ => .error (.operand (.notContainer v.operandClass))

end Conformance.Value

/- The order of values, where they have one: numbers by place, texts and octets by their units, lists
   and tuples by the first difference, sets by inclusion. -/
import Conformance.Value.Equality
namespace Conformance.Value

def lexLess [BEq α] (less : α → α → Bool) : List α → List α → Bool
  | _, [] => false
  | [], _ :: _ => true
  | x :: xs, y :: ys => if x == y then lexLess less xs ys else less x y

inductive Ordered
  | number (p : Place)
  | text (s : List Nat)
  | octets (data : List Nat)
  | set (items : List Value)

def ordered? : Value → Option Ordered
  | .null => none
  | .text _ s => some (.text (s.toList.map Char.toNat))
  | .octets _ data => some (.octets (data.map UInt8.toNat))
  | .set _ items => some (.set items)
  | v => v.place?.map .number

def Ordered.less? : Ordered → Ordered → Option Bool
  | .number p, .number q => some (p.less q)
  | .text s, .text t => some (lexLess (fun x y => decide (x < y)) s t)
  | .octets s, .octets t => some (lexLess (fun x y => decide (x < y)) s t)
  | .set xs, .set ys => some (xs.length < ys.length && itemsAmong xs ys)
  | _, _ => none

/-- Two values that have no order. The question whether they have one was put as it stands, or
turned around: is the second greater than the first? -/
structure Unordered where
  turned : Bool
  first : Value
  second : Value

/-- A sequence of a subclass is asked before one of the class itself: the question about the items
is put the way that has it on the left. -/
def turns (turned : Bool) : Lineage → Lineage → Bool
  | .base, .derived _ => true
  | .derived _, .base => false
  | _, _ => turned

def leafLess? (turned : Bool) (v w : Value) : Except Unordered Bool :=
  match v.ordered?, w.ordered? with
  | some a, some b =>
    match a.less? b with
    | some answer => .ok answer
    | none => .error ⟨turned, v, w⟩
  | _, _ => .error ⟨turned, v, w⟩

def loopLess? (turned : Bool) (stamp : Nat) : Value → Except Unordered Bool
  | .list _ [] => .ok false
  | .list m [y] =>
    if (Value.ofInt 1).same y then .ok false else leafLess? (turns turned .base m) (.ofInt 1) y
  | .list m (y :: z :: rest) =>
    if !(Value.ofInt 1).same y then leafLess? (turns turned .base m) (.ofInt 1) y
    else if (Value.loopList stamp).same z then .ok (!rest.isEmpty)
    else loopLess? (turns turned .base m) stamp z
  | w => if (Value.loopList stamp).same w then .ok false else .error ⟨turned, .loopList stamp, w⟩
termination_by structural w => w

mutual

/-- The first value is less than the second; the error names the pair that has no order. -/
def less? (turned : Bool) : Value → Value → Except Unordered Bool
  | .list l xs, w => match w with
    | .list m ys => itemsLess? (turns turned l m) xs ys
    | .loopList s => itemsLessLoop? (turns turned l .base) s xs
    | _ => .error ⟨turned, .list l xs, w⟩
  | .tuple l xs, w => match w with
    | .tuple m ys => itemsLess? (turns turned l m) xs ys
    | _ => .error ⟨turned, .tuple l xs, w⟩
  | .loopList s, w => loopLess? turned s w
  | v, w => leafLess? turned v w
termination_by structural v => v

def itemsLess? (turned : Bool) : List Value → List Value → Except Unordered Bool
  | [], ys => .ok (!ys.isEmpty)
  | x :: xs, ys => match ys with
    | [] => .ok false
    | y :: ys => if sameNan x y || x.same y then itemsLess? turned xs ys else less? turned x y
termination_by structural v => v

def itemsLessLoop? (turned : Bool) (stamp : Nat) : List Value → Except Unordered Bool
  | [] => .ok true
  | x :: xs =>
    if x.same (.ofInt 1) then restLessLoop? turned stamp xs else less? turned x (.ofInt 1)
termination_by structural v => v

def restLessLoop? (turned : Bool) (stamp : Nat) : List Value → Except Unordered Bool
  | [] => .ok true
  | x :: _ => if x.same (.loopList stamp) then .ok false else less? turned x (.loopList stamp)
termination_by structural v => v

end

/-- Whether the first value goes before the second in a sorted display. Values that have no order
between them go by the names of their classes. -/
def before (v w : Value) : Bool :=
  match v.less? false w with
  | .ok answer => answer
  | .error _ => v.qualifiedClass < w.qualifiedClass

def sortedBy (key : α → Value) (items : List α) : List α :=
  items.mergeSort (fun a b => !(before (key b) (key a)))

end Conformance.Value

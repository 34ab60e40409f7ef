/- Equality of values. Numbers of all kinds are equal at equal places, sets and mappings disregard
   order and kind, lists and tuples differ, and a subclass does not matter. What is no number is
   equal to nothing, but the same one is found again inside containers. -/
import Conformance.Value
namespace Conformance.Value

/-- Both are the very same one that is no number. -/
def sameNan : Value → Value → Bool
  | .float _ (.nan m), .float _ (.nan n) => m == n
  | _, _ => false

mutual

def same : Value → Value → Bool
  | .null, w => match w with
    | .null => true
    | _ => false
  | .bool b, w => w.place?.any (Place.ofInt (if b then 1 else 0)).same
  | .int _ n, w => w.place?.any (Place.ofInt n).same
  | .float _ x, w => w.place?.any (Place.ofBinary64 x).same
  | .text _ s, w => match w with
    | .text _ t => s == t
    | _ => false
  | .octets _ xs, w => match w with
    | .octets _ ys => xs == ys
    | _ => false
  | .list _ xs, w => match w with
    | .list _ ys => sameItems xs ys
    | _ => false
  | .tuple _ xs, w => match w with
    | .tuple _ ys => sameItems xs ys
    | _ => false
  | .set _ xs, w => match w with
    | .set _ ys => xs.length == ys.length && itemsAmong xs ys
    | _ => false
  | .mapping k xs, w => match w with
    | .mapping l ys => xs.length == ys.length && entriesAmong xs ys &&
        (!(k = .ordered && l = .ordered) || sameKeys xs ys)
    | _ => false
  | .func f, w => match w with
    | .func g => f == g
    | _ => false
  | .object n p s, w => match w with
    | .object m q t => n == m && p == q && s == t
    | _ => false
  | .loopList s, w => match w with
    | .loopList t => s == t
    | _ => false
  | .loopMapping s, w => match w with
    | .loopMapping t => s == t
    | _ => false
  | .schema t, w => match w with
    | .schema u => t.same u
    | _ => false
termination_by structural v => v

def sameItems : List Value → List Value → Bool
  | [], ys => ys.isEmpty
  | x :: xs, ys => match ys with
    | [] => false
    | y :: ys => (sameNan x y || same x y) && sameItems xs ys
termination_by structural v => v

def itemsAmong : List Value → List Value → Bool
  | [], _ => true
  | x :: xs, ys => ys.any (fun y => sameNan x y || same x y) && itemsAmong xs ys
termination_by structural v => v

def entriesAmong : List (Value × Value) → List (Value × Value) → Bool
  | [], _ => true
  | (k, v) :: xs, ys =>
    ys.any (fun e => (sameNan k e.1 || same k e.1) && (sameNan v e.2 || same v e.2)) &&
      entriesAmong xs ys
termination_by structural v => v

def sameKeys : List (Value × Value) → List (Value × Value) → Bool
  | [], ys => ys.isEmpty
  | (k, _) :: xs, ys => match ys with
    | [] => false
    | (l, _) :: ys => (sameNan k l || same k l) && sameKeys xs ys
termination_by structural v => v

end

def isBool : Value → Bool
  | .bool _ => true
  | _ => false

/-- Two values count as one member of an enumeration: they are equal, and both or neither are truth
values. -/
def sameMember (a b : Value) : Bool := a.isBool == b.isBool && a.same b

end Conformance.Value

namespace Conformance

def lookup? (key : Value) (entries : List (Value × α)) : Option α :=
  (entries.find? (fun e => e.1.same key)).map (·.2)

/-- Puts an entry at the end, or replaces the value under an equal key and keeps that key and its
place. -/
def putEntry (entries : List (Value × α)) (key : Value) (value : α) : List (Value × α) :=
  if entries.any (fun e => e.1.same key) then
    entries.map (fun e => if e.1.same key then (e.1, value) else e)
  else entries ++ [(key, value)]

def putItem (items : List Value) (item : Value) : List Value :=
  if items.any (fun x => x.same item) then items else items ++ [item]

end Conformance

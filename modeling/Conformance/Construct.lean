/- The constructors of schemas. They take arbitrary values, and fail on the first thing that is wrong
   with them. Each call that succeeds makes a verifier of its own. -/
import Conformance.Log
import Conformance.Policy
import Conformance.Value.Equality
import Conformance.Value.Display
namespace Conformance

/-- The next unused stamp, and what was noted so far. -/
structure Forge where
  next : Nat := 0
  log : List LogRecord := []

abbrev Build := ExceptT Fault (StateM Forge)

namespace Build

def fresh : Build Nat := modifyGet fun forge => (forge.next, { forge with next := forge.next + 1 })

def note (record : LogRecord) : Build Unit :=
  modify fun forge => { forge with log := forge.log ++ [record] }

end Build

namespace Construct

open Build

def schemaName? : Value → Except Fault Name
  | .text l s => if s.isEmpty then .error .nameEmpty else .ok ⟨l, s⟩
  | v => .error (.nameNotText v.className)

def requireSchema (what : String) : Value → Except Fault Schema
  | .schema t => .ok t
  | v => .error (.notSchema what v.className)

/-- A schema from a function that answers null or a reason. -/
def custom (name verifier : Value) : Build Schema := do
  let n ← ofExcept (schemaName? name)
  match verifier with
  | .func f => if f.acceptsOne then return .custom n f else throw (.verifierNotUnary n.text)
  | _ => throw (.verifierNotCallable n.text)

/-- A schema from a function whose answer counts as true or false. The signature of the function is
not looked at. -/
def predicate (name test : Value) : Build Schema := do
  match test with
  | .func f =>
    let n ← ofExcept (schemaName? name)
    return .predicate (← fresh) n f
  | _ => throw (.predicateNotCallable (← ofExcept name.plainText?))

def optional (inner : Value) : Build Schema := do
  let t ← ofExcept (requireSchema "Option() argument" inner)
  return .optional (← fresh) t

def listOf (inner : Value) : Build Schema := do
  let t ← ofExcept (requireSchema "ListOf() argument" inner)
  return .listOf (← fresh) t

def mapOf (inner : Value) : Build Schema := do
  let t ← ofExcept (requireSchema "AttrsOf() argument" inner)
  return .mapOf (← fresh) t

/-- Every item is a schema; else the first that is none is named by its index. -/
def requireSchemas (index : Nat) : List Value → Except Fault (List Schema)
  | [] => .ok []
  | v :: vs => do
    let t ← requireSchema s!"Union() member {index}" v
    return t :: (← requireSchemas (index + 1) vs)

def union (members : Value) : Build Schema := do
  match members.items? with
  | none => throw (.unionNotSequence members.className)
  | some items =>
    let ts ← ofExcept (requireSchemas 0 items)
    return .union (← fresh) ts

def collection? : Value → Option (List Value)
  | .set _ items => some items
  | v => v.items?

def enumeration (name elems : Value) : Build Schema := do
  match collection? elems with
  | none => throw (.enumerationNotCollection elems.className)
  | some [] => throw (.enumerationEmpty (← ofExcept name.plainText?))
  | some items =>
    let n ← ofExcept (schemaName? name)
    return .enumeration (← fresh) n items

/-- Every key is a text and every value a schema; else the first entry that fails is named. -/
def requireMembers (name : Value) :
    List (Value × Value) → Except Fault (List (Name × Schema))
  | [] => .ok []
  | (key, v) :: entries => do
    match key with
    | .text l k =>
      let n ← name.plainText?
      let t ← requireSchema s!"Struct '{n}' member '{k}'" v
      return (⟨l, k⟩, t) :: (← requireMembers name entries)
    | key =>
      let n ← name.plainText?
      .error (.memberNameNotText n (← Value.line? false key))

def record (name members : Value) (knobs : Knobs) : Build Schema := do
  match members.entries? with
  | none => throw (.recordNotMapping (← ofExcept name.plainText?) members.className)
  | some entries =>
    let fields ← ofExcept (requireMembers name entries)
    let policy ← ofExcept (Policy.validate knobs)
    note (.declared name fields.length)
    let _ ← ofExcept name.plainText?
    let n ← ofExcept (schemaName? name)
    return .record (← fresh) n fields policy

def override (target : Value) (knobs : Knobs) : Build Schema := do
  match target with
  | .schema (.record _ name members policy) =>
    if knobs.any (·.1 == "self") then throw .receiverGiven
    else
      let policy ← ofExcept (policy.override knobs)
      note (.overridden name.text policy.total policy.unknown policy.extra.isSome)
      return .record (← fresh) name members policy
  | v => throw (.noMember v.ownerText "override")

end Construct

end Conformance

/- Models: records compiled to a table of fields. Making an instance checks every given field and
   reports all that is wrong at once; only an instance that passes is checked as a whole. -/
import Conformance.Check
import Conformance.Fault.Message
import Conformance.Value.Dump
namespace Conformance

structure Model where
  name : String
  fields : List (Name × Schema)
  total : Bool
  unknown : Bool
  invariant : Option Func

/-- Fields by name, with the defaults of those not given; the names given that are no fields, if
such are kept; and which names were given. -/
structure Instance where
  fields : List (String × Value)
  extra : Option (List (String × Value))
  given : List String

namespace Model

variable {σ : Type}

/-- The name under which a model keeps its invariant, in one namespace with its fields. A field of
this name takes its place. -/
def invariantName : String := "check_extra"

def modelName? (asked : Value) (default : String) : Except Fault String :=
  let name := if asked.truthy then asked else .ofString default
  match name with
  | .text _ s => if s.toList.contains (Char.ofNat 0) then .error .modelNameWithNull else .ok s
  | v => .error (.modelNameNotText v.operandClass)

def compile? (target asked : Value) : Except Fault Model :=
  match target with
  | .schema (.record _ name members policy) => do
    return {
      name := ← modelName? asked name.text
      fields := members
      total := policy.total
      unknown := policy.unknown
      invariant := if members.any (·.1.text == invariantName) then none else policy.extra }
  | v => .error (.notRecord v.className)

/-- The findings that a fault is reported as: its own, each below the path, or one by its text.
What goes through instead is a fault of another kind, or the fault in the way of the text. -/
def findingsOf (path : List String) (fault : Fault) : Except Fault (List Finding) :=
  match fault.findings, fault.text? with
  | [], some text => do
    if fault.isBadValue then return [.invalid path (← text)]
    else if fault.kind = .assertion then return [.asserted path (← text)]
    else throw fault
  | found, _ => .ok (found.map (.under path))

def examine (path : List String) (x : Run σ Unit) : Run σ (List Finding) :=
  tryCatch (do x; return []) fun fault => ofExcept (findingsOf path fault)

/-- The findings on the fields, in their order: given ones are checked, others must not be
absent from a total model. -/
def fieldFindings (h : Host σ) (total : Bool) (given : List (String × Value)) :
    List (Name × Schema) → Run σ (List Finding)
  | [] => return []
  | (key, t) :: fields => do
    let found ← match given.lookup key.text with
      | some v => examine [key.text] (do let _ ← t.check h v)
      | none => pure (if total then [.missing key.text] else [])
    return found ++ (← fieldFindings h total given fields)

def surplus (m : Model) (given : List (String × Value)) : List (String × Value) :=
  given.filter (fun g => !m.fields.any (·.1.text == g.1))

def givenFields (m : Model) (given : List (String × Value)) : List (Name × Value) :=
  m.fields.filterMap (fun f => (given.lookup f.1.text).map (f.1, ·))

/-- What the invariant is asked about: the given fields, then the other names given, and no
defaults. -/
def invariantArgument? (m : Model) (given : List (String × Value)) : Except Fault Value :=
  let fields := (m.givenFields given).map (fun (name, v) => (Value.ofName name, v))
  let others := (m.surplus given).map (fun (name, v) => (Value.ofString name, v))
  (Value.mapping (.plain .base) (fields ++ others)).dump?

def checkInvariant (h : Host σ) (m : Model) (given : List (String × Value)) : Run σ Unit := do
  match m.invariant with
  | none => return
  | some f =>
    let argument ← ofExcept (m.invariantArgument? given)
    match Verdict.ofAnswer (← Run.ofCall (h.call f argument)) with
    | none => return
    | some reason => throw (.rejected reason)

def instance? (m : Model) (given : List (String × Value)) : Instance where
  fields := m.fields.map (fun f => (f.1.text, (given.lookup f.1.text).getD .null))
  extra := if m.unknown then some (m.surplus given) else none
  given := given.map (·.1)

def construct (h : Host σ) (m : Model) (given : List (String × Value)) : Run σ Instance := do
  let found ← fieldFindings h m.total given m.fields
  let refused := if m.unknown then [] else (m.surplus given).map (fun g => Finding.undeclared g.1)
  match found ++ refused with
  | [] =>
    match ← examine [] (checkInvariant h m given) with
    | [] => return m.instance? given
    | first :: rest => throw (.reported ⟨m.name, first :: rest, List.cons_ne_nil first rest⟩)
  | first :: rest => throw (.reported ⟨m.name, first :: rest, List.cons_ne_nil first rest⟩)

end Model

end Conformance

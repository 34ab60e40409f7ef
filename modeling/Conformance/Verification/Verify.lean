/- Verification of a value against a schema. The verdict tells the first thing that is wrong, under a
   segment of context for each layer around it. -/
import Conformance.Verification.FirstError
import Conformance.Value.Pretty
import Conformance.Value.Equality
namespace Conformance

variable {σ : Type}

/-- A reason under a segment of context. The reason is shown as its plain text, which it may not
have; nothing is put in front of nothing. -/
def inContext (context : String) : Verdict → CallM σ Verdict
  | none => pure none
  | some reason =>
    match reason.plainText? with
    | .ok text => pure (.because s!"{context}: {text}")
    | .error fault => throw fault

namespace Primitive

/-- Truth values are not numbers here, and null is none of the others. -/
def accepts : Primitive → Value → Bool
  | .string, .text _ _ => true
  | .int, .int _ _ => true
  | .float, .float _ _ => true
  | .number, .int _ _ | .number, .float _ _ => true
  | .bool, .bool _ => true
  | .attrs, v => v.entries?.isSome
  | .list, v => v.items?.isSome
  | .function, .func _ => true
  | .any, _ => true
  | _, _ => false

end Primitive

def passOr (passes : Bool) (typeName : String) (v : Value) : Verdict :=
  if passes then none else .because (v.mismatch typeName)

namespace Record

def checkMember (total : Bool) (entries : List (Value × Value))
    (member : String × Verifier σ) : CallM σ Verdict :=
  match lookup? (.ofString member.1) entries with
  | some v => do inContext s!"in member '{member.1}'" (← member.2 v)
  | none => pure (if total then .because s!"missing member '{member.1}'" else none)

def joinKeys? (keys : List Value) : Except Fault String :=
  (Value.lines? false keys).map (", ".intercalate ·)

/-- The keys that are not declared. -/
def undeclared (members : List (String × Verifier σ)) (entries : List (Value × Value)) :
    List Value :=
  (entries.map (·.1)).filter (fun key => !members.any (fun m => (Value.ofString m.1).same key))

def checkUnknown (members : List (String × Verifier σ)) (entries : List (Value × Value)) :
    CallM σ Verdict :=
  match undeclared members entries with
  | [] => pure none
  | unrecognized =>
    match joinKeys? unrecognized, joinKeys? (members.map (Value.ofString ·.1)) with
    | .ok shown, .ok expected =>
      pure (.because s!"keys [{shown}] are unrecognized, expected keys are [{expected}]")
    | .error fault, _ | _, .error fault => throw fault

def firstStep : List (CallM σ Verdict) → CallM σ Verdict
  | [] => pure none
  | step :: steps => do
    match ← step with
    | none => firstStep steps
    | some reason => pure (some reason)

/-- The checks of a mapping: its declared members, then its other keys if they are forbidden, then
the whole if there is a function for that. -/
def steps (h : Host σ) (members : List (String × Verifier σ)) (policy : Policy) (v : Value)
    (entries : List (Value × Value)) : List (CallM σ Verdict) :=
  firstError (checkMember policy.total entries) members ::
    (if policy.unknown then [] else [checkUnknown members entries]) ++
    (match policy.extra with
      | none => []
      | some f => [return .ofAnswer (← h.call f v)])

def verify (h : Host σ) (name : String) (members : List (String × Verifier σ)) (policy : Policy) :
    Verifier σ := fun v => do
  let context := s!"in struct '{name}'"
  match v.entries? with
  | none => inContext context (.because (v.mismatch name))
  | some entries => inContext context (← firstStep (steps h members policy v entries))

end Record

namespace Schema

mutual

def verify (h : Host σ) : Schema → Verifier σ
  | .primitive p => fun v => pure (passOr (p.accepts v) p.name v)
  | .custom _ f => fun v => return .ofAnswer (← h.call f v)
  | .predicate _ n f => fun v => return passOr (← h.call f v).truthy n.text v
  | .optional _ t => fun v =>
    match v with
    | .null => pure none
    | v => do inContext s!"in option<{t.name}>" (← verify h t v)
  | .listOf _ t => fun v =>
    match v.items? with
    | none => pure (.because (v.mismatch s!"listOf<{t.name}>"))
    | some items => do inContext s!"in listOf<{t.name}> element" (← firstError (verify h t) items)
  | .mapOf _ t => fun v =>
    match v.entries? with
    | none => pure (.because (v.mismatch s!"attrsOf<{t.name}>"))
    | some entries => do
      inContext s!"in attrsOf<{t.name}> value" (← firstError (verify h t) (entries.map (·.2)))
  | .union s ts => fun v => do
    return passOr (← anyPasses v (verifiers h ts)) (Schema.union s ts).name v
  | .enumeration _ n elems => fun v =>
    pure (if elems.any (v.sameMember ·) then none
      else .because s!"'{v.pretty}' is not a member of enum '{n.text}'")
  | .record _ n members policy => Record.verify h n.text (memberVerifiers h members) policy
termination_by structural t => t

def verifiers (h : Host σ) : List Schema → List (Verifier σ)
  | [] => []
  | t :: ts => verify h t :: verifiers h ts
termination_by structural ts => ts

def memberVerifiers (h : Host σ) : List (Name × Schema) → List (String × Verifier σ)
  | [] => []
  | (key, t) :: members => (key.text, verify h t) :: memberVerifiers h members
termination_by structural members => members

end

def isValid (h : Host σ) (t : Schema) (v : Value) : CallM σ Bool :=
  return (← t.verify h v).isNone

end Schema

end Conformance

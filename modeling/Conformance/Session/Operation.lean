/- Operations of a session, and their answers. What an operation raises is its answer, and what it
   did before stays done. -/
import Conformance.Session.Expression
import Conformance.Model
namespace Conformance.Session

inductive Target
  | schema
  | policy
  | members

inductive Operation
  | describe (t : SchemaExpr)
  | verify (t : SchemaExpr) (v : ValueExpr)
  | verifyMany (t : SchemaExpr) (vs : List ValueExpr)
  | validate (t : SchemaExpr) (v : ValueExpr)
  | check (t : SchemaExpr) (v : ValueExpr)
  | checkMethod (t : SchemaExpr) (v : ValueExpr)
  | isValid (t : SchemaExpr) (v : ValueExpr)
  | isSchema (t : SchemaExpr)
  | requireSchema (t : SchemaExpr) (what : String)
  | pretty (v : ValueExpr)
  | className (v : ValueExpr)
  | mismatch (name : String) (v : ValueExpr)
  | addContext (context : String) (message : Option String)
  | firstError (fn values : ValueExpr)
  | acceptsOne (fn : ValueExpr)
  | policy (knobs : List (String × ValueExpr))
  | equal (a b : SchemaExpr)
  | hashable (t : SchemaExpr)
  | assign (t : SchemaExpr) (target : Target) (field : String) (v : ValueExpr)
  | copied (name : ValueExpr) (members : List (ValueExpr × SchemaExpr))
      (late : ValueExpr × SchemaExpr) (v : ValueExpr)
  | model (t : SchemaExpr) (name : Option ValueExpr)
      (instances : List (List (String × ValueExpr)))
  | define (name : String) (t : SchemaExpr)
  | logged (op : Operation)
  | traced (op : Operation)
  | program (steps : List Operation)

structure Description where
  kind : String
  name : String
  elems : Option (List Value)
  members : Option (List (String × String))
  policy : Option Policy

inductive Answer
  | fault (f : Fault)
  | description (d : Description)
  | verdict (v : Verdict)
  | verdicts (vs : List (Except Fault Verdict))
  | value (v : Value)
  | valid (b : Bool)
  | schema (b : Bool)
  | accepts (b : Bool)
  | equal (b : Bool)
  | hashable
  | text (s : String)
  | policy (p : Policy)
  | copied (v : Verdict) (members : List String) (shared : Bool)
  | model (m : Model) (instances : List (Except Fault Instance))
  | logged (result : Answer) (log : List LogRecord)
  | traced (result : Answer) (calls : List (String × Value))
  | steps (answers : List Answer)

open SessionM

def memberOf (member : String) : Value → SessionM Schema
  | .schema t => return t
  | v => throw (.noMember v.ownerText member)

def describe (v : Value) : SessionM Description := do
  let t ← memberOf "name" v
  return {
    kind := t.className
    name := t.name
    elems := match t with
      | .enumeration _ _ elems => some elems
      | _ => none
    members := match t with
      | .record _ _ members _ => some (members.map (fun (k, u) => (k.text, u.name)))
      | _ => none
    policy := match t with
      | .record _ _ _ policy => some policy
      | _ => none }

/-- A fault as a part of the answer. -/
def attempt (x : SessionM α) : SessionM (Except Fault α) := fun s =>
  let (result, s) := x s
  (.ok result, s)

def verifyEach (t : Value) : List ValueExpr → SessionM (List (Except Fault Verdict))
  | [] => return []
  | e :: es => do
    let first ← attempt do
      let s ← memberOf "verify" t
      ofCall (s.verify Tape.host (← e.eval))
    return first :: (← verifyEach t es)

/-- The verifier that a value is when it is called as one. -/
def callAsVerifier (fn : Value) : Verifier Tape := fun v =>
  match fn with
  | .func f => return .ofAnswer (← Tape.host.call f v)
  | fn => throw (.operand (.notCallable fn.operandClass))

def acceptsOne : Value → Bool
  | .func f => f.acceptsOne
  | _ => true

def fieldsOf : Schema → List String
  | .enumeration .. => ["name", "verify", "elems"]
  | .record .. => ["name", "verify", "members", "policy"]
  | _ => ["name", "verify"]

def hasFreeFields : Value → Bool
  | .object _ _ _ | .func { kind := .function _, .. } | .func { kind := .object _, .. }
  | .int (.derived _) _ | .float (.derived _) _ | .text (.derived _) _ | .list (.derived _) _
  | .tuple (.derived _) _ | .mapping (.plain (.derived _)) _ | .mapping .ordered _ => true
  | _ => false

/-- Assignment of a field, and the description of what it was assigned to. No field of a schema can
be assigned; what is no schema can be described if the field is its name. -/
def assignField (v : Value) (field : String) (x : Value) : SessionM Description :=
  match v, field, x with
  | .schema t, _, _ =>
    throw (if (fieldsOf t).contains field then .frozenField (literalText field.toList)
      else .foreignField)
  | .func { kind := .classObject name, .. }, _, _ =>
    throw (.immutableClass (literalText field.toList) name)
  | v, "name", .text _ s =>
    if hasFreeFields v then
      return { kind := v.className, name := s, elems := none, members := none, policy := none }
    else throw (.noMember v.ownerText field)
  | v, _, _ => throw (.noMember v.ownerText (if hasFreeFields v then "name" else field))

/-- Assignment of a field of a policy. Only fields that are hidden by a leading underscore can be
assigned. -/
def assignPolicyField (t : Value) (field : String) : SessionM Description :=
  if field.startsWith "_" then describe t
  else throw (.reported ⟨Policy.reportTitle, [.frozen field], List.cons_ne_nil _ _⟩)

/-- Values under names, as the arguments of a call: a name given again takes the later value. -/
def evalArguments (given : List (String × ValueExpr)) : SessionM (List (String × Value)) := do
  return Knobs.merge [] (← evalKnobs given)

def constructEach (m : Model) :
    List (List (String × ValueExpr)) → SessionM (List (Except Fault Instance))
  | [] => return []
  | given :: rest => do
    let first ← attempt do
      let given ← evalArguments given
      ofRun (m.construct Tape.host given)
    return first :: (← constructEach m rest)

/-- The answer of an operation that may raise. A fault in the way of another one's text is left to the
operation around. -/
def answering (x : SessionM Answer) : SessionM Answer :=
  tryCatch x fun f =>
    match f.text? with
    | some (.error g) => throw g
    | _ => return .fault f

/-- The schema of the members, checked after another member was put into their mapping. -/
def runCopied (name : ValueExpr) (members : List (ValueExpr × SchemaExpr))
    (late : ValueExpr × SchemaExpr) (v : ValueExpr) : SessionM Answer := do
  let name ← name.eval
  let members ← evalMembers [] members
  let s ← ofBuild (Construct.record name (.mapping (.plain .base) members) [])
  let _ ← evalMembers members [late]
  let verdict ← ofCall (s.verify Tape.host (← v.eval))
  let changed ← ofBuild (Construct.override (.schema s) [("total", .bool false)])
  match s, changed with
  | .record _ _ own _, .record _ _ theirs _ =>
    return .copied verdict (own.map (·.1.text)) (own.map (·.1) == theirs.map (·.1))
  | _, _ => return .copied verdict [] false

mutual

def Operation.run : Operation → SessionM Answer
  | .describe t => answering do return .description (← describe (← t.eval))
  | .verify t v => answering do
    let s ← memberOf "verify" (← t.eval)
    return .verdict (← ofCall (s.verify Tape.host (← v.eval)))
  | .verifyMany t vs => answering do return .verdicts (← verifyEach (← t.eval) vs)
  | .validate t v => answering do
    let t ← t.eval
    return .verdict (← ofCall (validateAgainst Tape.host t (← v.eval)))
  | .check t v => answering do
    let t ← t.eval
    return .value (← ofRun (checkAgainst Tape.host t (← v.eval)))
  | .checkMethod t v => answering do
    let t ← t.eval
    let v ← v.eval
    return .value (← ofRun ((← memberOf "check" t).check Tape.host v))
  | .isValid t v => answering do
    let s ← memberOf "is_valid" (← t.eval)
    return .valid (← ofCall (s.isValid Tape.host (← v.eval)))
  | .isSchema t => answering do
    match ← t.eval with
    | .schema _ => return .schema true
    | _ => return .schema false
  | .requireSchema t what => answering do
    let t ← ofExcept (Construct.requireSchema what (← t.eval))
    return .description (← describe (.schema t))
  | .pretty v => answering do return .text (← v.eval).pretty
  | .className v => answering do return .text (← v.eval).className
  | .mismatch name v => answering do return .text ((← v.eval).mismatch name)
  | .addContext context message => answering do
    return .verdict (← ofCall (inContext context (message.map Value.ofString)))
  | .firstError fn values => answering do
    let fn ← fn.eval
    let items ← ofExcept (← values.eval).iterate?
    return .verdict (← ofCall (Conformance.firstError (callAsVerifier fn) items))
  | .acceptsOne fn => answering do return .accepts (Session.acceptsOne (← fn.eval))
  | .policy knobs => answering do
    return .policy (← ofExcept (Policy.validate (← evalArguments knobs)))
  | .equal a b => answering do
    let a ← a.eval
    return .equal (a.same (← b.eval))
  | .hashable t => answering do
    requireHashable (← t.eval)
    return .hashable
  | .assign t target field v => answering do
    let t ← t.eval
    match target with
    | .schema => return .description (← assignField t field (← v.eval))
    | .policy =>
      let t ← memberOfRecord "policy" t
      let _ ← v.eval
      return .description (← assignPolicyField t field)
    | .members =>
      let _ ← memberOfRecord "members" t
      throw .frozenMapping
  | .copied name members late v => answering (runCopied name members late v)
  | .model t name instances => answering do
    let t ← t.eval
    let name ← match name with
      | some e => e.eval
      | none => pure .null
    let m ← ofExcept (Model.compile? t name)
    return .model m (← constructEach m instances)
  | .define name t => answering do
    let v ← t.eval
    let d ← describe v
    modify fun s => { s with bindings := (name, v) :: s.bindings }
    return .description d
  | .logged op => answering do
    let before := (← get).runtime.forge.log.length
    let result ← op.run
    return .logged result ((← get).runtime.forge.log.drop before)
  | .traced op => do
    let before := (← get).runtime.host.calls.length
    let result ← op.run
    return .traced result ((← get).runtime.host.calls.drop before)
  | .program steps => answering do return .steps (← runAll steps)
termination_by structural op => op

def runAll : List Operation → SessionM (List Answer)
  | [] => return []
  | op :: ops => do
    let first ← op.run
    return first :: (← runAll ops)
termination_by structural ops => ops

end

def answer (op : Operation) : Answer :=
  match (op.run {}).1 with
  | .ok a => a
  | .error f => .fault f

end Conformance.Session

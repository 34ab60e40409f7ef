/- Faults by their causes. What a fault is called, and what it says, are functions of the cause. -/
import Conformance.Value
namespace Conformance

inductive Complaint
  | notBool
  | notCallable
  | missing
  | undeclared
  | frozen
  | invalid (text : String)
  /-- A check that broke off on an assertion. -/
  | asserted (text : String)
  /-- Whatever else a function complains of. -/
  | other (label message : String)
  deriving DecidableEq

namespace Complaint

def label : Complaint → String
  | .notBool => "bool_type"
  | .notCallable => "callable_type"
  | .missing => "missing"
  | .undeclared => "extra_forbidden"
  | .frozen => "frozen_instance"
  | .invalid _ => "value_error"
  | .asserted _ => "assertion_error"
  | .other label _ => label

def message : Complaint → String
  | .notBool => "Input should be a valid boolean"
  | .notCallable => "Input should be callable"
  | .missing => "Field required"
  | .undeclared => "Extra inputs are not permitted"
  | .frozen => "Instance is frozen"
  | .invalid text => s!"Value error, {text}"
  | .asserted text => s!"Assertion failed, {text}"
  | .other _ message => message

end Complaint

/-- A complaint about the named field, or about the whole where the path is empty. -/
structure Finding where
  path : List String
  complaint : Complaint
  deriving DecidableEq

namespace Finding

@[match_pattern] abbrev notBool (field : String) : Finding := ⟨[field], .notBool⟩

@[match_pattern] abbrev notCallable (field : String) : Finding := ⟨[field], .notCallable⟩

@[match_pattern] abbrev missing (field : String) : Finding := ⟨[field], .missing⟩

@[match_pattern] abbrev undeclared (field : String) : Finding := ⟨[field], .undeclared⟩

@[match_pattern] abbrev frozen (field : String) : Finding := ⟨[field], .frozen⟩

@[match_pattern] abbrev invalid (path : List String) (text : String) : Finding :=
  ⟨path, .invalid text⟩

@[match_pattern] abbrev asserted (path : List String) (text : String) : Finding :=
  ⟨path, .asserted text⟩

def label (f : Finding) : String := f.complaint.label

def message (f : Finding) : String := f.complaint.message

/-- The same complaint, seen from further out. -/
def under (outer : List String) (f : Finding) : Finding := ⟨outer ++ f.path, f.complaint⟩

end Finding

/-- Findings under the name of what was examined. There is at least one. -/
structure Report where
  title : String
  findings : List Finding
  nonempty : findings ≠ []
  deriving DecidableEq

inductive RaisedKind
  | value
  | type
  | key
  | assertion
  | runtime
  deriving DecidableEq

inductive OperandFault
  | incomparable (symbol left right : String)
  | notAddable (left right : String)
  | notRepeatable (got : String)
  | notJoinable (whole part : String)
  | notJoinableOctets (whole part : String)
  | noLength (got : String)
  | notSubscriptable (got : String)
  | notIndex (whole : String) (got : String)
  | notTextIndex (got : String)
  | notContainer (got : String)
  | notOctets (got : String)
  | notIterable (got : String)
  | notCallable (got : String)
  | unhashable (got : String)
  | tooLarge
  deriving DecidableEq

inductive Fault
  | nameNotText (got : String)
  | nameEmpty
  | verifierNotCallable (name : String)
  | verifierNotUnary (name : String)
  | predicateNotCallable (name : String)
  | notSchema (what got : String)
  | unionNotSequence (got : String)
  | enumerationNotCollection (got : String)
  | enumerationEmpty (name : String)
  | recordNotMapping (name got : String)
  | memberNameNotText (name shown : String)
  | notRecord (got : String)
  | modelNameNotText (got : String)
  | modelNameWithNull
  | receiverGiven
  | rejected (reason : Value)
  | reported (report : Report)
  /-- A bad value that a function complains of under a label of its own. -/
  | complained (complaint : Complaint)
  | frozenField (shown : String)
  | foreignField
  | frozenMapping
  | immutableClass (shown className : String)
  | noMember (owner member : String)
  | misfit (function : Func) (why : Misfit)
  | operand (fault : OperandFault)
  | keyAbsent (shown : String)
  | digitLimit
  | longNumeral (digits : Nat)
  | notWhole (shown : String)
  | notDouble (shown : String)
  | notOctetText (place : Nat)
  | noText
  | raised (kind : RaisedKind) (text : String)
  | unbound (name : String)

inductive FaultKind
  | type
  | value
  | key
  | assertion
  | member
  | overflow
  | runtime
  | rejection
  | report
  | frozen
  | unbound
  deriving DecidableEq

namespace Fault

def kind : Fault → FaultKind
  | .nameNotText _ | .verifierNotCallable _ | .verifierNotUnary _ | .predicateNotCallable _
  | .notSchema _ _ | .unionNotSequence _ | .enumerationNotCollection _ | .recordNotMapping _ _
  | .memberNameNotText _ _ | .notRecord _ | .modelNameNotText _ | .receiverGiven | .foreignField
  | .frozenMapping | .immutableClass _ _ | .misfit _ _ => .type
  | .nameEmpty | .enumerationEmpty _ | .modelNameWithNull | .digitLimit | .longNumeral _
  | .notWhole _ | .notDouble _ | .notOctetText _ | .complained _ => .value
  | .rejected _ => .rejection
  | .reported _ => .report
  | .frozenField _ => .frozen
  | .noMember _ _ => .member
  | .operand .tooLarge => .overflow
  | .operand _ => .type
  | .keyAbsent _ => .key
  | .noText => .runtime
  | .raised .value _ => .value
  | .raised .type _ => .type
  | .raised .key _ => .key
  | .raised .assertion _ => .assertion
  | .raised .runtime _ => .runtime
  | .unbound _ => .unbound

/-- Faults that count as bad values; a rejection is one. -/
def isBadValue (f : Fault) : Bool :=
  match f.kind with
  | .value | .rejection => true
  | _ => false

def findings : Fault → List Finding
  | .reported report => report.findings
  | .complained complaint => [⟨[], complaint⟩]
  | _ => []

end Fault

namespace Misfit

def sentenceList : List String → String
  | [] => ""
  | [a] => s!"'{a}'"
  | [a, b] => s!"'{a}' and '{b}'"
  | [a, b, c] => s!"'{a}', '{b}', and '{c}'"
  | a :: rest => s!"'{a}', {sentenceList rest}"

def plural (names : List String) : String :=
  if names.length = 1 then "argument" else "arguments"

/-- What a call with one argument reports. Built-in functions and classes have words of their own. -/
def message (f : Func) : Misfit → String
  | .tooMany =>
    match f.kind with
    | .builtin name => s!"{name}() takes no arguments (1 given)"
    | .classObject name => s!"{name}() takes no arguments"
    | _ => s!"{f.callName}() takes 0 positional arguments but 1 was given"
  | .missing names =>
    match f.kind with
    | .builtin name => s!"{name} expected {names.length + 1} arguments, got 1"
    | _ =>
      s!"{f.callName}() missing {names.length} required positional {plural names}: " ++
        sentenceList names
  | .missingNamed names =>
    s!"{f.callName}() missing {names.length} required keyword-only {plural names}: " ++
      sentenceList names

end Misfit

def OperandFault.message : OperandFault → String
  | .incomparable symbol left right =>
    s!"'{symbol}' not supported between instances of '{left}' and '{right}'"
  | .notAddable left right => s!"unsupported operand type(s) for +: '{left}' and '{right}'"
  | .notRepeatable got => s!"unsupported operand type(s) for *: '{got}' and 'int'"
  | .notJoinable whole part => s!"can only concatenate {whole} (not \"{part}\") to {whole}"
  | .notJoinableOctets whole part => s!"can't concat {part} to {whole}"
  | .noLength got => s!"object of type '{got}' has no len()"
  | .notSubscriptable got => s!"{got} is not subscriptable"
  | .notIndex whole got => s!"{whole} indices must be integers or slices, not {got}"
  | .notTextIndex got => s!"string indices must be integers, not '{got}'"
  | .notContainer got => s!"argument of type '{got}' is not iterable"
  | .notOctets got => s!"a bytes-like object is required, not '{got}'"
  | .notIterable got => s!"'{got}' object is not iterable"
  | .notCallable got => s!"'{got}' object is not callable"
  | .unhashable got => s!"unhashable type: '{got}'"
  | .tooLarge => "int too large to convert to float"

end Conformance

/- What faults say. -/
import Conformance.Value.Display
namespace Conformance.Fault

def words? : Fault → Option String
  | .rejected _ | .reported _ => none
  | .complained complaint => some complaint.message
  | .nameNotText got => some s!"TypeDef name must be a string, got {got}"
  | .nameEmpty => some "TypeDef name must not be empty"
  | .verifierNotCallable name => some s!"Verifier for type '{name}' is not callable"
  | .verifierNotUnary name => some s!"Verifier for type '{name}' must accept exactly one argument"
  | .predicateNotCallable name => some s!"Predicate for type '{name}' is not callable"
  | .notSchema what got => some s!"{what} must be a TypeDef, got {got}"
  | .unionNotSequence got => some s!"Union() expects a list of TypeDefs, got {got}"
  | .enumerationNotCollection got => some s!"Enum() expects a list of members, got {got}"
  | .enumerationEmpty name => some s!"Enum '{name}' must have at least one member"
  | .recordNotMapping name got => some s!"Struct '{name}' members must be a mapping, got {got}"
  | .memberNameNotText name shown =>
    some s!"Struct '{name}' member names must be strings, got {shown}"
  | .notRecord got => some s!"to_pydantic() expects a struct type, got {got}"
  | .modelNameNotText got => some s!"type.__new__() argument 1 must be str, not {got}"
  | .modelNameWithNull => some "type name must not contain null characters"
  | .receiverGiven => some "StructDef.override() got multiple values for argument 'self'"
  | .frozenField shown => some s!"cannot assign to field {shown}"
  | .foreignField => some "super(type, obj): obj must be an instance or subtype of type"
  | .frozenMapping => some "'mappingproxy' object does not support item assignment"
  | .immutableClass shown className =>
    some s!"cannot set {shown} attribute of immutable type '{className}'"
  | .noMember owner member => some s!"{owner} has no attribute '{member}'"
  | .misfit f why => some (why.message f)
  | .operand fault => some fault.message
  | .keyAbsent shown => some shown
  | .digitLimit =>
    some ("Exceeds the limit (4300 digits) for integer string conversion; " ++
      "use sys.set_int_max_str_digits() to increase the limit")
  | .longNumeral digits =>
    some (s!"Exceeds the limit (4300 digits) for integer string conversion: value has {digits} " ++
      "digits; use sys.set_int_max_str_digits() to increase the limit")
  | .notWhole shown => some s!"invalid literal for int() with base 10: {shown}"
  | .notDouble shown => some s!"could not convert string to float: {shown}"
  | .notOctetText place =>
    some s!"non-hexadecimal number found in fromhex() arg at position {place}"
  | .noText => some "no repr"
  | .raised _ text => some text
  | .unbound name => some name

/-- The text of a fault. That of a reason may be missing, and a report has findings instead. -/
def text? : Fault → Option (Except Fault String)
  | .rejected reason => some reason.plainText?
  | f => f.words?.map .ok

def message (f : Fault) : String :=
  match f.text? with
  | some (.ok text) => text
  | _ => ""

end Conformance.Fault

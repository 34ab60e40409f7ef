/- Which values can be hashed, and so be keys and elements of sets. -/
import Conformance.Value
namespace Conformance.Value

mutual

/-- The class of the first part that cannot be hashed. Tuples are hashed through their items, and an
enumeration through its elements. -/
def unhashable? : Value → Option String
  | .list l items => some (Value.list l items).operandClass
  | .loopList stamp => some (Value.loopList stamp).operandClass
  | .set false items => some (Value.set false items).operandClass
  | .octets true data => some (Value.octets true data).operandClass
  | .mapping k entries => some (Value.mapping k entries).operandClass
  | .loopMapping stamp => some (Value.loopMapping stamp).operandClass
  | .tuple _ items => unhashableItem? items
  | .schema t => unhashableSchema? t
  | _ => none
termination_by structural v => v

def unhashableItem? : List Value → Option String
  | [] => none
  | v :: vs => match unhashable? v with
    | some got => some got
    | none => unhashableItem? vs
termination_by structural vs => vs

def unhashableSchema? : Schema → Option String
  | .enumeration _ _ elems => unhashableItem? elems
  | _ => none
termination_by structural t => t

end

end Conformance.Value

/- Policies from named knobs. Validation reports every bad knob at once: the known ones in the order
   of the fields, then the unknown ones in the order given. -/
import Conformance.Fault
namespace Conformance

abbrev Knobs := List (String × Value)

namespace Knobs

/-- Sets a knob: in its place if it is there, else at the end. -/
def put (knobs : Knobs) (name : String) (value : Value) : Knobs :=
  if knobs.any (·.1 == name) then knobs.map (fun k => if k.1 == name then (name, value) else k)
  else knobs ++ [(name, value)]

def merge (knobs given : Knobs) : Knobs :=
  given.foldl (fun acc k => acc.put k.1 k.2) knobs

end Knobs

namespace Policy

def extraValue : Option Func → Value
  | none => .null
  | some f => .func f

def toKnobs (p : Policy) : Knobs :=
  [("total", .bool p.total), ("unknown", .bool p.unknown), ("extra", extraValue p.extra)]

def fieldNames : List String := ["total", "unknown", "extra"]

def switchFindings (field : String) : Option Value → List Finding
  | none | some (.bool _) => []
  | some _ => [.notBool field]

def extraFindings : Option Value → List Finding
  | none | some .null => []
  | some (.func f) =>
    if f.acceptsOne then [] else [.invalid ["extra"] "extra must accept exactly one argument"]
  | some _ => [.notCallable "extra"]

/-- Everything that is wrong with the knobs. -/
def findings (knobs : Knobs) : List Finding :=
  switchFindings "total" (knobs.lookup "total") ++
    switchFindings "unknown" (knobs.lookup "unknown") ++
    extraFindings (knobs.lookup "extra") ++
    ((knobs.map (·.1)).filter (fun name => !fieldNames.contains name)).map Finding.undeclared

def switchValue : Option Value → Bool
  | some (.bool b) => b
  | _ => true

def extraFunc : Option Value → Option Func
  | some (.func f) => some f
  | _ => none

def ofKnobs (knobs : Knobs) : Policy where
  total := switchValue (knobs.lookup "total")
  unknown := switchValue (knobs.lookup "unknown")
  extra := extraFunc (knobs.lookup "extra")

def reportTitle : String := "StructPolicy"

def validate (knobs : Knobs) : Except Fault Policy :=
  match findings knobs with
  | [] => .ok (ofKnobs knobs)
  | first :: rest => .error (.reported ⟨reportTitle, first :: rest, List.cons_ne_nil first rest⟩)

/-- The policy with some knobs replaced. The others are validated again with them. -/
def override (p : Policy) (given : Knobs) : Except Fault Policy :=
  validate (p.toKnobs.merge given)

end Policy

end Conformance

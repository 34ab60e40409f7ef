/- Events that are noted for debugging. -/
import Conformance.Value.Display
namespace Conformance

/-- A declaration is noted with the name as it was given, be it a text or not. -/
inductive LogRecord
  | checkFailed (name : String)
  | declared (name : Value) (members : Nat)
  | overridden (name : String) (total unknown extra : Bool)

inductive LogSource
  | checks
  | records
  deriving DecidableEq

namespace LogRecord

def source : LogRecord → LogSource
  | .checkFailed _ => .checks
  | .declared _ _ | .overridden _ _ _ _ => .records

/-- What a record says when it is read. There is no message of a name without text. -/
def message : LogRecord → String
  | .checkFailed name => s!"Type check failed for '{name}'"
  | .declared name members =>
    match name.plainText? with
    | .ok name => s!"Declaring struct '{name}' with {members} members"
    | .error _ => ""
  | .overridden name total unknown extra =>
    s!"Overriding struct '{name}' policy: total={Value.boolText total} " ++
      s!"unknown={Value.boolText unknown} extra={Value.boolText extra}"

end LogRecord

end Conformance

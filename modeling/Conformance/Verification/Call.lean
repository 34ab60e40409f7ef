/- Calls of the functions that schemas hold. A host decides what they answer; it may keep state from
   call to call, and a call may raise. -/
import Conformance.Fault
namespace Conformance

/-- A computation that may call functions. What a raising call did to the state stays done. -/
abbrev CallM (σ : Type) := ExceptT Fault (StateM σ)

structure Host (σ : Type) where
  answer : Func → Value → CallM σ Value

def Host.call (h : Host σ) (f : Func) (v : Value) : CallM σ Value :=
  match f.misfit? with
  | some misfit => throw (.misfit f misfit)
  | none => h.answer f v

/-- The outcome of a verification: nothing, or the reason why the value does not conform. Any value
can be a reason, for functions may answer with any. -/
abbrev Verdict := Option Value

abbrev Verifier (σ : Type) := Value → CallM σ Verdict

namespace Verdict

/-- Null means that nothing is wrong. -/
def ofAnswer : Value → Verdict
  | .null => none
  | v => some v

abbrev because (text : String) : Verdict := some (.ofString text)

end Verdict

end Conformance

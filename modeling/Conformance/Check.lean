/- Checks, which raise where verification only gives a reason, and note it. -/
import Conformance.Construct
import Conformance.Verification.Verify
namespace Conformance

/-- All state of a run: that of the host, and that of the constructors. -/
structure Runtime (σ : Type) where
  host : σ
  forge : Forge := {}

abbrev Run (σ : Type) := ExceptT Fault (StateM (Runtime σ))

namespace Run

variable {σ α : Type}

def ofCall (x : CallM σ α) : Run σ α := fun r =>
  let (result, host) := x r.host
  (result, { r with host })

def ofBuild (x : Build α) : Run σ α := fun r =>
  let (result, forge) := x r.forge
  (result, { r with forge })

end Run

namespace Schema

variable {σ : Type}

/-- The value itself if it conforms. If it does not, that is noted and raised. -/
def check (h : Host σ) (t : Schema) (v : Value) : Run σ Value := do
  match ← Run.ofCall (t.verify h v) with
  | none => return v
  | some reason =>
    Run.ofBuild (Build.note (.checkFailed t.name))
    throw (.rejected reason)

end Schema

def checkAgainst (h : Host σ) (t v : Value) : Run σ Value := do
  let t ← ofExcept (Construct.requireSchema "check() type" t)
  t.check h v

def validateAgainst (h : Host σ) (t v : Value) : CallM σ Verdict := do
  let t ← ofExcept (Construct.requireSchema "validate() type" t)
  t.verify h v

end Conformance

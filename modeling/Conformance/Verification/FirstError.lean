/- The first reason that a verifier gives over a sequence. A first pass only tells whether there is
   one; a second pass, from the start, looks it up. -/
import Conformance.Verification.Call
namespace Conformance

variable {σ α : Type}

/-- Every item passes. The pass ends with the first that does not. -/
def allPass (verify : α → CallM σ Verdict) : List α → CallM σ Bool
  | [] => pure true
  | x :: xs => do
    match ← verify x with
    | none => allPass verify xs
    | some _ => pure false

def searchReason (verify : α → CallM σ Verdict) : List α → CallM σ Verdict
  | [] => pure none
  | x :: xs => do
    match ← verify x with
    | none => searchReason verify xs
    | some reason => pure (some reason)

def firstError (verify : α → CallM σ Verdict) (xs : List α) : CallM σ Verdict := do
  if ← allPass verify xs then pure none else searchReason verify xs

def anyPasses (v : Value) : List (Verifier σ) → CallM σ Bool
  | [] => pure false
  | verify :: rest => do
    match ← verify v with
    | none => pure true
    | some _ => anyPasses v rest

end Conformance

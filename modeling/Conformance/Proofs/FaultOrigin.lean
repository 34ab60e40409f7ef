/- Where the faults of a verification come from. Either the last call raised it; or a function was
   called that does not take the argument; or a text was wanted that is not there. -/
import Conformance.Proofs.Closure
import Conformance.Proofs.Recording
namespace Conformance

variable {σ α β : Type}

/-- Whatever the computation raises was raised by its last call, or is a fault of this kind. -/
def FaultsFrom (P : Fault → Prop) (x : CallM (σ × List FuncCall) α) : Prop :=
  ∀ state, ∃ made, (x state).2.2 = state.2 ++ made ∧
    ∀ fault, (x state).1 = .error fault →
      P fault ∨ ∃ before q, made = before ++ [⟨q, .error fault⟩]

variable {P : Fault → Prop}

namespace FaultsFrom

theorem pure (a : α) : FaultsFrom P (pure a : CallM (σ × List FuncCall) α) :=
  fun _ => ⟨[], (List.append_nil _).symm, fun _ => nofun⟩

theorem throw {fault : Fault} (hfault : P fault) :
    FaultsFrom P (throw fault : CallM (σ × List FuncCall) α) := by
  intro state
  refine ⟨[], (List.append_nil _).symm, ?_⟩
  rintro _ ⟨⟩
  exact .inl hfault

theorem bind {x : CallM (σ × List FuncCall) α} {f : α → CallM (σ × List FuncCall) β}
    (hx : FaultsFrom P x) (hf : ∀ a, FaultsFrom P (f a)) : FaultsFrom P (x >>= f) := by
  intro state
  obtain ⟨made, hmade, hfault⟩ := hx state
  rw [bind_apply]
  cases hrun : x state with
  | mk r state' =>
    rw [hrun] at hmade hfault
    cases r with
    | error fault =>
      refine ⟨made, hmade, ?_⟩
      rintro _ ⟨⟩
      exact hfault fault rfl
    | ok a =>
      obtain ⟨more, hmore, hnext⟩ := hf a state'
      refine ⟨made ++ more, ?_, ?_⟩
      · rw [← List.append_assoc, ← hmade]
        exact hmore
      · intro fault h
        rcases hnext fault h with hP | ⟨before, q, rfl⟩
        · exact .inl hP
        · exact .inr ⟨made ++ before, q, (List.append_assoc ..).symm⟩

theorem closed (htext : ∀ fault, fault.OfText → P fault) :
    Closed fun _ (x : CallM (σ × List FuncCall) _) => FaultsFrom P x where
  pure := .pure
  bind := .bind
  throw hfault := .throw (htext _ hfault)

/-- A call reaches the function, and what that raises is on record; or the argument does not fit,
and nothing is called. -/
theorem call {f : Func} (hmisfit : ∀ why, f.misfit? = some why → P (.misfit f why)) (h : Host σ)
    (v : Value) : FaultsFrom P (h.recording.call f v) := by
  unfold Host.call
  cases hf : f.misfit? with
  | some why => exact .throw (hmisfit why hf)
  | none =>
    intro state
    refine ⟨[⟨(f, v), (h.answer f v state.1).1⟩], rfl, ?_⟩
    intro fault hfault
    exact .inr ⟨[], (f, v), congrArg (fun outcome => [Call.mk (f, v) outcome]) hfault⟩

end FaultsFrom

namespace Schema

/-- A function of the schema does not take the argument, or a text is not there. -/
def OwnFault (t : Schema) (fault : Fault) : Prop :=
  (∃ f ∈ t.funcs, ∃ why, f.misfit? = some why ∧ fault = .misfit f why) ∨ fault.OfText

theorem faultsFrom_verify (h : Host σ) (t : Schema) (v : Value) :
    FaultsFrom t.OwnFault (t.verify h.recording v) := by
  have hclosed : Closed fun _ (x : CallM (σ × List FuncCall) _) => FaultsFrom t.OwnFault x :=
    FaultsFrom.closed fun _ => .inr
  refine hclosed.verify (fun f hf v => ?_) v
  exact FaultsFrom.call (fun why hwhy => .inl ⟨f, hf, why, hwhy, rfl⟩) h v

/-- What a verification raises was raised by its last call, or is a fault of its own. -/
theorem verify_fault {h : Host σ} {t : Schema} {v : Value} {s : σ} {fault : Fault}
    (hfault : (t.verify h v s).1 = .error fault) :
    (∃ before q, t.calls h v s = before ++ [⟨q, .error fault⟩]) ∨ t.OwnFault fault := by
  obtain ⟨made, hmade, horigin⟩ := faultsFrom_verify h t v (s, [])
  have hcalls : t.calls h v s = made := hmade
  rw [(verify_recording h t v s).1] at horigin
  rcases horigin fault hfault with hown | ⟨before, q, rfl⟩
  · exact .inr hown
  · exact .inl ⟨before, q, hcalls⟩

end Schema

end Conformance

/- Properties of computations that sequencing keeps. Verification is put together from the calls of
   the functions of a schema, so it has such a property if the calls have it. -/
import Conformance.Proofs.Refinement
import Conformance.Proofs.Texts
namespace Conformance

variable {σ α : Type}

/-- A property of computations that results have, that sequencing keeps, and that is not lost where
a text is not there. -/
structure Closed (C : (α : Type) → CallM σ α → Prop) : Prop where
  pure : ∀ {α : Type} (a : α), C α (pure a)
  bind : ∀ {α β : Type} {x : CallM σ α} {f : α → CallM σ β}, C α x → (∀ a, C β (f a)) →
    C β (x >>= f)
  throw : ∀ {α : Type} {fault : Fault}, fault.OfText → C α (throw fault)

variable {C : (α : Type) → CallM σ α → Prop}

namespace Closed

theorem ofExcept (hC : Closed C) {r : Except Fault α}
    (h : ∀ fault, r = .error fault → fault.OfText) : C α (ofExcept r) := by
  cases r with
  | ok a => exact hC.pure a
  | error fault => exact hC.throw (h fault rfl)

theorem inContext (hC : Closed C) (context : String) (verdict : Verdict) :
    C Verdict (inContext context verdict) := by
  rw [inContext_eq]
  refine hC.ofExcept fun fault h => ?_
  cases verdict with
  | none => cases h
  | some reason =>
    rcases bind_eq_error_iff.mp h with hreason | ⟨text, -, hnone⟩
    · exact Value.plainText?_fault hreason
    · cases hnone

section Passes

variable {verify : α → CallM σ Verdict} {xs : List α}

theorem allPass (hC : Closed C) (h : ∀ x ∈ xs, C Verdict (verify x)) :
    C Bool (allPass verify xs) := by
  induction xs with
  | nil => exact hC.pure true
  | cons x xs ih =>
    obtain ⟨hx, hxs⟩ := List.forall_mem_cons.mp h
    refine hC.bind hx fun verdict => ?_
    cases verdict with
    | none => exact ih hxs
    | some reason => exact hC.pure false

theorem searchReason (hC : Closed C) (h : ∀ x ∈ xs, C Verdict (verify x)) :
    C Verdict (searchReason verify xs) := by
  induction xs with
  | nil => exact hC.pure none
  | cons x xs ih =>
    obtain ⟨hx, hxs⟩ := List.forall_mem_cons.mp h
    refine hC.bind hx fun verdict => ?_
    cases verdict with
    | none => exact ih hxs
    | some reason => exact hC.pure (some reason)

theorem firstError (hC : Closed C) (h : ∀ x ∈ xs, C Verdict (verify x)) :
    C Verdict (firstError verify xs) := by
  refine hC.bind (hC.allPass h) fun passes => ?_
  cases passes with
  | true => exact hC.pure none
  | false => exact hC.searchReason h

theorem anyPasses (hC : Closed C) {v : Value} {verifier : α → Verifier σ}
    (h : ∀ x ∈ xs, C Verdict (verifier x v)) : C Bool (anyPasses v (xs.map verifier)) := by
  induction xs with
  | nil => exact hC.pure false
  | cons x xs ih =>
    obtain ⟨hx, hxs⟩ := List.forall_mem_cons.mp h
    refine hC.bind hx fun verdict => ?_
    cases verdict with
    | none => exact hC.pure true
    | some reason => exact ih hxs

end Passes

theorem firstStep (hC : Closed C) {steps : List (CallM σ Verdict)}
    (h : ∀ step ∈ steps, C Verdict step) : C Verdict (Record.firstStep steps) := by
  induction steps with
  | nil => exact hC.pure none
  | cons step steps ih =>
    obtain ⟨hstep, hsteps⟩ := List.forall_mem_cons.mp h
    refine hC.bind hstep fun verdict => ?_
    cases verdict with
    | none => exact ih hsteps
    | some reason => exact hC.pure (some reason)

theorem checkMember (hC : Closed C) {verify : Verifier σ} (h : ∀ x, C Verdict (verify x))
    (total : Bool) (entries : List (Value × Value)) (key : String) :
    C Verdict (Record.checkMember total entries (key, verify)) := by
  unfold Record.checkMember
  cases lookup? (.ofString key) entries with
  | none => exact hC.pure _
  | some x => exact hC.bind (h x) fun verdict => hC.inContext _ verdict

theorem checkUnknown (hC : Closed C) (members : List (String × Verifier σ))
    (entries : List (Value × Value)) : C Verdict (Record.checkUnknown members entries) := by
  rw [Record.checkUnknown_eq]
  refine hC.ofExcept fun fault h => ?_
  obtain ⟨-, hjoin⟩ := Record.keysVerdict_eq_error_iff.mp h
  exact Value.lines?_fault _ _ (Record.lines?_eq_error_of_joinKeys? hjoin)

theorem record (hC : Closed C) {h : Host σ} {members : List (Name × Schema)} {policy : Policy}
    {v : Value} (hmembers : ∀ m ∈ members, ∀ x, C Verdict (m.2.verify h x))
    (hextra : ∀ f, policy.extra = some f → C Value (h.call f v)) (n : Name) :
    C Verdict (Record.verify h n.text (Schema.memberVerifiers h members) policy v) := by
  unfold Record.verify
  cases v.entries? with
  | none => exact hC.inContext _ _
  | some entries =>
    refine hC.bind (hC.firstStep ?_) fun verdict => hC.inContext _ verdict
    rw [Schema.memberVerifiers_eq_map]
    refine List.forall_mem_cons.mpr ⟨?_, fun step hstep => ?_⟩
    · rw [firstError_map]
      exact hC.firstError fun m hm => hC.checkMember (hmembers m hm) _ _ _
    · rcases List.mem_append.mp hstep with hunknown | hinvariant
      · cases hpolicy : policy.unknown with
        | true => simp [hpolicy] at hunknown
        | false =>
          rw [hpolicy] at hunknown
          cases List.mem_singleton.mp hunknown
          exact hC.checkUnknown _ _
      · cases hf : policy.extra with
        | none => simp [hf] at hinvariant
        | some f =>
          rw [hf] at hinvariant
          cases List.mem_singleton.mp hinvariant
          exact hC.bind (hextra f hf) fun a => hC.pure _

/-- What the calls of the functions of a schema have, its verification has. -/
theorem verify (hC : Closed C) {h : Host σ} {t : Schema}
    (hcall : ∀ f ∈ t.funcs, ∀ v, C Value (h.call f v)) (v : Value) :
    C Verdict (t.verify h v) := by
  induction t generalizing v with
  | primitive p => exact hC.pure _
  | custom n f => exact hC.bind (hcall f List.mem_cons_self v) fun a => hC.pure _
  | predicate s n f => exact hC.bind (hcall f List.mem_cons_self v) fun a => hC.pure _
  | optional s t ih =>
    cases v with
    | null => exact hC.pure none
    | _ => exact hC.bind (ih hcall _) fun verdict => hC.inContext _ verdict
  | listOf s t ih =>
    unfold Schema.verify
    cases v.items? with
    | none => exact hC.pure _
    | some items =>
      exact hC.bind (hC.firstError fun x _ => ih hcall x) fun verdict => hC.inContext _ verdict
  | mapOf s t ih =>
    unfold Schema.verify
    cases v.entries? with
    | none => exact hC.pure _
    | some entries =>
      exact hC.bind (hC.firstError fun x _ => ih hcall x) fun verdict => hC.inContext _ verdict
  | union s ts ih =>
    unfold Schema.verify
    rw [Schema.verifiers_eq_map]
    refine hC.bind (hC.anyPasses fun t ht => ?_) fun passes => hC.pure _
    exact ih t ht (fun f hf => hcall f (Schema.mem_funcs_union ht hf)) v
  | enumeration s n elems => exact hC.pure _
  | record s n members policy ih =>
    refine hC.record (fun m hm x => ?_) (fun f hf => ?_) n
    · exact ih m hm (fun f hf => hcall f (Schema.mem_funcs_member hm hf)) x
    · exact hcall f (Schema.mem_funcs_extra hf) v

end Closed

end Conformance

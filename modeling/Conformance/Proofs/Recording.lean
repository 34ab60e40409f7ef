/- Hosts that stand for each other: verification cannot tell them apart. One that keeps a record of
   its calls stands for the host without it, so the record tells what verification calls. -/
import Mathlib.Data.List.Forall2
import Conformance.Proofs.Refinement
namespace Conformance

variable {σ τ α β : Type} {R : σ → τ → Prop}

/-- From related states two computations come to one result, and to related states. -/
def Simulates (R : σ → τ → Prop) (x : CallM σ α) (y : CallM τ α) : Prop :=
  ∀ s t, R s t → (x s).1 = (y t).1 ∧ R (x s).2 (y t).2

namespace Simulates

theorem pure (a : α) : Simulates R (pure a) (pure a) := fun _ _ hR => ⟨rfl, hR⟩

theorem ofExcept (r : Except Fault α) : Simulates R (ofExcept r) (ofExcept r) := by
  cases r <;> exact fun _ _ hR => ⟨rfl, hR⟩

theorem bind {x : CallM σ α} {y : CallM τ α} {f : α → CallM σ β} {g : α → CallM τ β}
    (hx : Simulates R x y) (hf : ∀ a, Simulates R (f a) (g a)) :
    Simulates R (x >>= f) (y >>= g) := by
  intro s t hR
  rw [bind_apply, bind_apply]
  obtain ⟨hresult, hstate⟩ := hx s t hR
  cases hxs : x s with
  | mk r s' =>
    cases hyt : y t with
    | mk r' t' =>
      rw [hxs, hyt] at hresult hstate
      cases hresult
      cases r with
      | ok a => exact hf a s' t' hstate
      | error fault => exact ⟨rfl, hstate⟩

theorem inContext (context : String) (verdict : Verdict) :
    Simulates R (inContext context verdict) (inContext context verdict) := by
  rw [inContext_eq, inContext_eq]
  exact .ofExcept _

section Passes

variable {verify : α → CallM σ Verdict} {verify' : α → CallM τ Verdict} {xs : List α}

theorem allPass (h : ∀ x ∈ xs, Simulates R (verify x) (verify' x)) :
    Simulates R (allPass verify xs) (allPass verify' xs) := by
  induction xs with
  | nil => exact .pure true
  | cons x xs ih =>
    obtain ⟨hx, hxs⟩ := List.forall_mem_cons.mp h
    refine hx.bind fun verdict => ?_
    cases verdict with
    | none => exact ih hxs
    | some reason => exact .pure false

theorem searchReason (h : ∀ x ∈ xs, Simulates R (verify x) (verify' x)) :
    Simulates R (searchReason verify xs) (searchReason verify' xs) := by
  induction xs with
  | nil => exact .pure none
  | cons x xs ih =>
    obtain ⟨hx, hxs⟩ := List.forall_mem_cons.mp h
    refine hx.bind fun verdict => ?_
    cases verdict with
    | none => exact ih hxs
    | some reason => exact .pure (some reason)

theorem firstError (h : ∀ x ∈ xs, Simulates R (verify x) (verify' x)) :
    Simulates R (firstError verify xs) (firstError verify' xs) := by
  refine (allPass h).bind fun passes => ?_
  cases passes with
  | true => exact .pure none
  | false => exact searchReason h

theorem anyPasses {v : Value} {verifier : α → Verifier σ} {verifier' : α → Verifier τ}
    (h : ∀ x ∈ xs, Simulates R (verifier x v) (verifier' x v)) :
    Simulates R (anyPasses v (xs.map verifier)) (anyPasses v (xs.map verifier')) := by
  induction xs with
  | nil => exact .pure false
  | cons x xs ih =>
    obtain ⟨hx, hxs⟩ := List.forall_mem_cons.mp h
    refine hx.bind fun verdict => ?_
    cases verdict with
    | none => exact .pure true
    | some reason => exact ih hxs

end Passes

theorem call {h : Host σ} {h' : Host τ} {f : Func} {v : Value}
    (hanswer : Simulates R (h.answer f v) (h'.answer f v)) :
    Simulates R (h.call f v) (h'.call f v) := by
  unfold Host.call
  cases f.misfit? with
  | none => exact hanswer
  | some misfit => exact .ofExcept (.error _)

end Simulates

namespace Record

theorem simulates_checkMember {verify : Verifier σ} {verify' : Verifier τ}
    (h : ∀ x, Simulates R (verify x) (verify' x)) (total : Bool)
    (entries : List (Value × Value)) (key : String) :
    Simulates R (checkMember total entries (key, verify))
      (checkMember total entries (key, verify')) := by
  unfold checkMember
  cases lookup? (.ofString key) entries with
  | none => exact .pure _
  | some x => exact (h x).bind fun verdict => .inContext _ verdict

theorem simulates_firstStep {steps : List (CallM σ Verdict)} {steps' : List (CallM τ Verdict)}
    (h : List.Forall₂ (Simulates R) steps steps') :
    Simulates R (firstStep steps) (firstStep steps') := by
  induction h with
  | nil => exact .pure none
  | cons hstep _ ih =>
    refine hstep.bind fun verdict => ?_
    cases verdict with
    | none => exact ih
    | some reason => exact .pure (some reason)

theorem simulates_verify {h : Host σ} {h' : Host τ} {members : List (Name × Schema)}
    {policy : Policy} {v : Value}
    (hmembers : ∀ m ∈ members, ∀ x, Simulates R (m.2.verify h x) (m.2.verify h' x))
    (hextra : ∀ f, policy.extra = some f → Simulates R (h.call f v) (h'.call f v)) (n : Name) :
    Simulates R (verify h n.text (Schema.memberVerifiers h members) policy v)
      (verify h' n.text (Schema.memberVerifiers h' members) policy v) := by
  unfold verify
  cases v.entries? with
  | none => exact .inContext _ _
  | some entries =>
    refine Simulates.bind (simulates_firstStep ?_) fun verdict => .inContext _ verdict
    rw [Schema.memberVerifiers_eq_map, Schema.memberVerifiers_eq_map]
    refine .cons ?_ (List.rel_append ?_ ?_)
    · rw [firstError_map, firstError_map]
      exact .firstError fun m hm => simulates_checkMember (hmembers m hm) _ _ _
    · cases policy.unknown with
      | true => exact .nil
      | false =>
        refine .cons ?_ .nil
        rw [checkUnknown_eq, checkUnknown_eq, List.map_map, List.map_map]
        exact .ofExcept _
    · cases hf : policy.extra with
      | none => exact .nil
      | some f => exact .cons ((hextra f hf).bind fun a => .pure _) .nil

end Record

/-- Verification cannot tell two hosts apart that answer its calls alike. -/
theorem Schema.simulates_verify {h : Host σ} {h' : Host τ} {t : Schema}
    (hfuncs : ∀ f ∈ t.funcs, ∀ v, Simulates R (h.call f v) (h'.call f v)) (v : Value) :
    Simulates R (t.verify h v) (t.verify h' v) := by
  induction t generalizing v with
  | primitive p => exact .pure _
  | custom n f => exact (hfuncs f List.mem_cons_self v).bind fun a => .pure _
  | predicate s n f => exact (hfuncs f List.mem_cons_self v).bind fun a => .pure _
  | optional s t ih =>
    cases v with
    | null => exact .pure none
    | _ => exact (ih hfuncs _).bind fun verdict => .inContext _ verdict
  | listOf s t ih =>
    unfold verify
    cases v.items? with
    | none => exact .pure _
    | some items =>
      exact (Simulates.firstError fun x _ => ih hfuncs x).bind fun verdict => .inContext _ verdict
  | mapOf s t ih =>
    unfold verify
    cases v.entries? with
    | none => exact .pure _
    | some entries =>
      exact (Simulates.firstError fun x _ => ih hfuncs x).bind fun verdict => .inContext _ verdict
  | union s ts ih =>
    unfold verify
    rw [verifiers_eq_map, verifiers_eq_map]
    refine Simulates.bind (.anyPasses fun t ht => ?_) fun passes => .pure _
    exact ih t ht (fun f hf => hfuncs f (mem_funcs_union ht hf)) v
  | enumeration s n elems => exact .pure _
  | record s n members policy ih =>
    refine Record.simulates_verify (fun m hm x => ?_) (fun f hf => ?_) n
    · exact ih m hm (fun f hf => hfuncs f (mem_funcs_member hm hf)) x
    · exact hfuncs f (mem_funcs_extra hf) v

/-- A call: what it was made with, and what came of it. -/
structure Call (α β : Type) where
  argument : α
  outcome : Except Fault β

/-- The calls are made as before, and put on record. -/
def recording (call : α → CallM σ β) : α → CallM (σ × List (Call α β)) β := fun x state =>
  let (outcome, s) := call x state.1
  (outcome, s, state.2 ++ [⟨x, outcome⟩])

/-- Calls made one after another, each from the state that the one before it left. -/
inductive Threaded (call : α → CallM σ β) : List (Call α β) → σ → σ → Prop
  | nil (s) : Threaded call [] s s
  | cons {x outcome calls s s₁ s'} : call x s = (outcome, s₁) → Threaded call calls s₁ s' →
      Threaded call (⟨x, outcome⟩ :: calls) s s'

section Threaded

variable {call : α → CallM σ β} {calls : List (Call α β)}

theorem Threaded.nil_iff {s s' : σ} : Threaded call [] s s' ↔ s = s' := by
  constructor
  · intro h
    cases h
    rfl
  · rintro rfl
    exact .nil s

theorem Threaded.cons_iff {c : Call α β} {s s' : σ} :
    Threaded call (c :: calls) s s' ↔
      ∃ s₁, call c.argument s = (c.outcome, s₁) ∧ Threaded call calls s₁ s' := by
  constructor
  · intro h
    cases h with
    | cons hc hcalls => exact ⟨_, hc, hcalls⟩
  · rintro ⟨s₁, hc, hcalls⟩
    exact .cons hc hcalls

theorem Threaded.append_iff {more : List (Call α β)} {s s' : σ} :
    Threaded call (calls ++ more) s s' ↔
      ∃ s₁, Threaded call calls s s₁ ∧ Threaded call more s₁ s' := by
  induction calls generalizing s with
  | nil =>
    constructor
    · exact fun h => ⟨s, .nil s, h⟩
    · rintro ⟨s₁, hnil, h⟩
      cases Threaded.nil_iff.mp hnil
      exact h
  | cons c calls ih =>
    rw [List.cons_append, Threaded.cons_iff]
    constructor
    · rintro ⟨s₁, hc, hrest⟩
      obtain ⟨s₂, hcalls, hmore⟩ := ih.mp hrest
      exact ⟨s₂, .cons hc hcalls, hmore⟩
    · rintro ⟨s₂, h, hmore⟩
      obtain ⟨s₁, hc, hcalls⟩ := Threaded.cons_iff.mp h
      exact ⟨s₁, hc, ih.mpr ⟨s₂, hcalls, hmore⟩⟩

theorem recording_eq_iff {x : α} {outcome : Except Fault β} {state state' : σ × List (Call α β)} :
    recording call x state = (outcome, state') ↔
      call x state.1 = (outcome, state'.1) ∧ state'.2 = state.2 ++ [⟨x, outcome⟩] := by
  have hrun : recording call x state =
      ((call x state.1).1, (call x state.1).2, state.2 ++ [⟨x, (call x state.1).1⟩]) := rfl
  obtain ⟨s', calls'⟩ := state'
  constructor
  · intro h
    rw [hrun, Prod.mk.injEq, Prod.mk.injEq] at h
    obtain ⟨houtcome, hstate, hcalls⟩ := h
    rw [houtcome] at hcalls
    exact ⟨Prod.ext houtcome hstate, hcalls.symm⟩
  · rintro ⟨hcall, hcalls⟩
    change call x state.1 = (outcome, s') at hcall
    rw [hrun, hcall]
    exact Prod.ext rfl (Prod.ext rfl hcalls.symm)

/-- What is put on record is what was called, and nothing else. -/
theorem Threaded.recording_iff {state state' : σ × List (Call α β)} :
    Threaded (recording call) calls state state' ↔
      Threaded call calls state.1 state'.1 ∧ state'.2 = state.2 ++ calls := by
  induction calls generalizing state with
  | nil =>
    rw [Threaded.nil_iff, Threaded.nil_iff, List.append_nil, Prod.ext_iff]
    exact and_congr_right fun _ => eq_comm
  | cons c calls ih =>
    rw [Threaded.cons_iff, Threaded.cons_iff]
    constructor
    · rintro ⟨state₁, hc, hcalls⟩
      obtain ⟨hc, hrecord⟩ := recording_eq_iff.mp hc
      obtain ⟨hcalls, hrest⟩ := ih.mp hcalls
      refine ⟨⟨state₁.1, hc, hcalls⟩, ?_⟩
      rw [hrest, hrecord, List.append_assoc]
      rfl
    · rintro ⟨⟨s₁, hc, hcalls⟩, hrecord⟩
      refine ⟨(s₁, state.2 ++ [c]), recording_eq_iff.mpr ⟨hc, rfl⟩, ih.mpr ⟨hcalls, ?_⟩⟩
      rw [hrecord, List.append_assoc]
      rfl

end Threaded

/-- The record accounts for the state. -/
theorem recording_simulates (call : α → CallM σ β) (s₀ : σ) (x : α) :
    Simulates (fun state s => state.1 = s ∧ Threaded call state.2 s₀ s) (recording call x)
      (call x) := by
  rintro ⟨s, calls⟩ _ ⟨rfl, hcalls⟩
  refine ⟨rfl, rfl, Threaded.append_iff.mpr ⟨s, hcalls, ?_⟩⟩
  exact .cons rfl (.nil _)

abbrev FuncCall := Call (Func × Value) Value

namespace Host

/-- An answer to a question: a function, and what it is asked about. -/
def ask (h : Host σ) (q : Func × Value) : CallM σ Value := h.answer q.1 q.2

def recording (h : Host σ) : Host (σ × List (Call (Func × Value) Value)) where
  answer f v := Conformance.recording h.ask (f, v)

theorem recording_simulates (h : Host σ) (s₀ : σ) (f : Func) (v : Value) :
    Simulates (fun state s => state.1 = s ∧ Threaded h.ask state.2 s₀ s) (h.recording.call f v)
      (h.call f v) :=
  .call (Conformance.recording_simulates h.ask s₀ (f, v))

end Host

namespace Schema

/-- The calls of functions that verification makes, in their order. -/
def calls (h : Host σ) (t : Schema) (v : Value) (s : σ) : List (Call (Func × Value) Value) :=
  (t.verify h.recording v (s, [])).2.2

/-- With the record or without it, verification goes the same way, and the record accounts for the
state. -/
theorem verify_recording (h : Host σ) (t : Schema) (v : Value) (s : σ) :
    t.verify h.recording v (s, []) =
      ((t.verify h v s).1, (t.verify h v s).2, t.calls h v s) ∧
    Threaded h.ask (t.calls h v s) s (t.verify h v s).2 := by
  obtain ⟨hresult, hstate, hcalls⟩ :=
    simulates_verify (fun f _ => h.recording_simulates s f) v (s, []) s ⟨rfl, .nil s⟩
  exact ⟨Prod.ext hresult (Prod.ext hstate rfl), hcalls⟩

end Schema

end Conformance

/- Verification comes to the outcome of the one pass, with all its second passes, where each function
   has one answer to each value. -/
import Conformance.Proofs.Evaluation
namespace Conformance

variable {σ : Type}

def Host.Steady (h : Host σ) (out : Answers) (f : Func) : Prop :=
  ∀ v, Settles (h.call f v) (out f v)

/-- The host that keeps no state, and whose functions answer as given. -/
def Host.ofAnswers (out : Answers) : Host Unit where
  answer f v := ofExcept (out f v)

theorem Host.ofAnswers_steady (out : Answers) {f : Func} (h : f.acceptsOne = true) :
    (Host.ofAnswers out).Steady out f := by
  intro v
  unfold Host.call
  rw [Option.isNone_iff_eq_none.mp h]
  exact .ofExcept (out f v)

theorem inContext_eq (context : String) (verdict : Verdict) :
    (inContext context verdict : CallM σ Verdict) = ofExcept (under context verdict) := by
  cases verdict with
  | none => rfl
  | some reason =>
    simp only [inContext, under]
    cases reason.plainText? <;> rfl

theorem settles_inContext (context : String) (verdict : Verdict) :
    Settles (inContext context verdict : CallM σ Verdict) (under context verdict) := by
  rw [inContext_eq]
  exact .ofExcept _

namespace Record

theorem settles_checkMember {verify : Verifier σ} {check : Value → Except Fault Verdict}
    {entries : List (Value × Value)} {key : String}
    (h : ∀ x, lookup? (.ofString key) entries = some x → Settles (verify x) (check x))
    (total : Bool) :
    Settles (checkMember total entries (key, verify)) (memberVerdict check total entries key) := by
  unfold checkMember memberVerdict
  cases hx : lookup? (.ofString key) entries with
  | none => exact .pure _
  | some x => exact (h x hx).bind fun verdict => settles_inContext _ verdict

theorem checkUnknown_eq (members : List (String × Verifier σ)) (entries : List (Value × Value)) :
    checkUnknown members entries = ofExcept (keysVerdict (members.map (·.1)) entries) := by
  have hkeys : undeclared members entries = undeclaredKeys (members.map (·.1)) entries := by
    simp only [undeclared, undeclaredKeys, List.any_map, Function.comp_def]
  unfold checkUnknown keysVerdict
  rw [hkeys, List.map_map]
  generalize undeclaredKeys (members.map (·.1)) entries = keys
  cases keys with
  | nil => rfl
  | cons key keys =>
    have hmap : members.map (Value.ofString ∘ (·.1)) = members.map (Value.ofString ·.1) := rfl
    simp only [hmap]
    cases joinKeys? (key :: keys) with
    | error fault => rfl
    | ok shown => cases joinKeys? (members.map (Value.ofString ·.1)) <;> rfl

theorem settles_checkUnknown (members : List (String × Verifier σ))
    (entries : List (Value × Value)) :
    Settles (checkUnknown members entries) (keysVerdict (members.map (·.1)) entries) := by
  rw [checkUnknown_eq]
  exact .ofExcept _

theorem settles_firstStep_cons {step : CallM σ Verdict} {steps : List (CallM σ Verdict)}
    {first rest : Except Fault Verdict} (hstep : Settles step first)
    (hrest : Settles (firstStep steps) rest) :
    Settles (firstStep (step :: steps)) (followedBy first rest) := by
  cases first with
  | error fault => exact hstep.bind_error _
  | ok verdict =>
    refine hstep.bind_ok ?_
    cases verdict with
    | none => exact hrest
    | some reason => exact .pure (some reason)

theorem settles_rest {h : Host σ} {out : Answers} {policy : Policy} {v : Value}
    (hextra : ∀ f, policy.extra = some f → Settles (h.call f v) (out f v))
    (members : List (String × Verifier σ)) (entries : List (Value × Value)) :
    Settles (firstStep ((if policy.unknown then [] else [checkUnknown members entries]) ++
        (match policy.extra with
          | none => []
          | some f => [return .ofAnswer (← h.call f v)])))
      (restVerdict out policy (members.map (·.1)) v entries) := by
  have hwhole : Settles (firstStep (match policy.extra with
      | none => []
      | some f => [return .ofAnswer (← h.call f v)]))
      (match policy.extra with
        | none => .ok none
        | some f => do return .ofAnswer (← out f v)) := by
    cases hpolicy : policy.extra with
    | none => exact .pure none
    | some f =>
      have hcall : Settles (do return Verdict.ofAnswer (← h.call f v))
          (do return Verdict.ofAnswer (← out f v)) :=
        (hextra f hpolicy).bind fun a => .pure _
      have hone : Settles (firstStep [do return Verdict.ofAnswer (← h.call f v)]) _ :=
        settles_firstStep_cons hcall (.pure none)
      rw [followedBy_none] at hone
      exact hone
  unfold restVerdict
  cases policy.unknown with
  | true => exact hwhole
  | false => exact settles_firstStep_cons (settles_checkUnknown members entries) hwhole

/-- Verification of a mapping comes to its members' verdict and then the rest. Only what is asked
of the functions here has to have an outcome. -/
theorem settles_verify {h : Host σ} {out : Answers} {members : List (Name × Schema)}
    {policy : Policy} {v : Value} {entries : List (Value × Value)}
    {check : Name × Schema → Value → Except Fault Verdict} (hentries : v.entries? = some entries)
    (hmembers : ∀ m ∈ members, ∀ x, lookup? (.ofString m.1.text) entries = some x →
      Settles (m.2.verify h x) (check m x))
    (hextra : ∀ f, policy.extra = some f → Settles (h.call f v) (out f v)) (s : Nat) (n : Name) :
    Settles ((Schema.record s n members policy).verify h v)
      (followedBy
        (firstReason (fun m => memberVerdict (check m) policy.total entries m.1.text) members)
        (restVerdict out policy (members.map (·.1.text)) v entries) >>=
        under s!"in struct '{n.text}'") := by
  change Settles (Record.verify h n.text (Schema.memberVerifiers h members) policy v) _
  unfold Record.verify
  rw [hentries]
  refine Settles.bind ?_ fun verdict => settles_inContext _ verdict
  rw [Schema.memberVerifiers_eq_map]
  have hnames : members.map (·.1.text) =
      (members.map fun m => (m.1.text, m.2.verify h)).map (·.1) := by
    rw [List.map_map]
    rfl
  rw [hnames]
  refine settles_firstStep_cons ?_ (settles_rest hextra _ entries)
  rw [firstError_map]
  exact settles_firstError fun m hm => settles_checkMember (hmembers m hm) _

end Record

namespace Schema

theorem settles_verify {h : Host σ} {out : Answers} {t : Schema}
    (hfuncs : ∀ f ∈ t.funcs, h.Steady out f) (v : Value) :
    Settles (t.verify h v) (t.evaluate out v) := by
  induction t generalizing v with
  | primitive p => exact .pure _
  | custom n f => exact (hfuncs f List.mem_cons_self v).bind fun a => .pure _
  | predicate s n f => exact (hfuncs f List.mem_cons_self v).bind fun a => .pure _
  | optional s t ih =>
    cases v with
    | null => exact .pure none
    | _ => exact (ih hfuncs _).bind fun verdict => settles_inContext _ verdict
  | listOf s t ih =>
    unfold verify evaluate
    cases v.items? with
    | none => exact .pure _
    | some items =>
      exact (settles_firstError fun x _ => ih hfuncs x).bind
        fun verdict => settles_inContext _ verdict
  | mapOf s t ih =>
    unfold verify evaluate
    cases v.entries? with
    | none => exact .pure _
    | some entries =>
      exact (settles_firstError fun x _ => ih hfuncs x).bind
        fun verdict => settles_inContext _ verdict
  | union s ts ih =>
    unfold verify evaluate
    rw [verifiers_eq_map, evaluateAny_eq]
    refine Settles.bind (settles_anyPasses fun t ht => ?_) fun passes => .pure _
    exact ih t ht (fun f hf => hfuncs f (mem_funcs_union ht hf)) v
  | enumeration s n elems => exact .pure _
  | record s n members policy ih =>
    cases hentries : v.entries? with
    | none =>
      rw [evaluate_record_mismatch hentries]
      change Settles (Record.verify h n.text (memberVerifiers h members) policy v) _
      unfold Record.verify
      rw [hentries]
      exact settles_inContext _ _
    | some entries =>
      rw [evaluate_record hentries]
      refine Record.settles_verify hentries (fun m hm x _ => ?_) (fun f hf => ?_) s n
      · exact ih m hm (fun f hf => hfuncs f (mem_funcs_member hm hf)) x
      · exact hfuncs f (mem_funcs_extra hf) v

end Schema

end Conformance

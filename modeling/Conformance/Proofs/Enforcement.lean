/- The invariant of a record in the model made of it. It stands in one namespace with the fields, and
   the model has lost it exactly if a field took its name. -/
import Conformance.Proofs.Reporting
namespace Conformance.Model

variable {σ : Type}

/-- What the class of a model has under a name. -/
inductive Slot
  | validator (f : Func)
  | field
  deriving DecidableEq

def Slot.validator? : Slot → Option Func
  | .validator f => some f
  | .field => none

/-- The namespace of the class: the validator of the whole, then the fields. What comes later is
found first. -/
def slots (extra : Option Func) (members : List (Name × Schema)) : List (String × Slot) :=
  members.foldl (fun found m => (m.1.text, .field) :: found)
    (extra.toList.map fun f => (invariantName, .validator f))

/-- Every given field passes its check, no field is missing, and no key is refused. -/
structure FieldsPass (h : Host σ) (m : Model) (given : List (String × Value))
    (r r₁ : Runtime σ) : Prop where
  found : fieldFindings h m.total given m.fields r = (.ok [], r₁)
  refused : m.refused given = []

theorem lookup_slots (extra : Option Func) (members : List (Name × Schema)) :
    (slots extra members).lookup invariantName =
      if members.any (·.1.text == invariantName) then some .field else extra.map .validator := by
  have hfold : ∀ found : List (String × Slot),
      (members.foldl (fun found m => (m.1.text, .field) :: found) found).lookup invariantName =
        if members.any (·.1.text == invariantName) then some .field
        else found.lookup invariantName := by
    induction members with
    | nil =>
      intro found
      rfl
    | cons m members ih =>
      intro found
      rw [List.foldl_cons, ih, List.lookup_cons, List.any_cons]
      by_cases hm : m.1.text = invariantName
      · rw [beq_iff_eq.mpr hm, beq_iff_eq.mpr hm.symm, Bool.true_or, if_pos rfl]
        exact ite_self _
      · rw [beq_eq_false_iff_ne.mpr hm, beq_eq_false_iff_ne.mpr (Ne.symm hm), Bool.false_or]
  unfold slots
  rw [hfold]
  cases extra with
  | none => rfl
  | some f => simp

section Compiled

variable {s : Nat} {n : Name} {members : List (Name × Schema)} {policy : Policy} {asked : Value}
variable {m : Model}

theorem compile?_invariant
    (hm : compile? (.schema (.record s n members policy)) asked = .ok m) :
    m.invariant = ((slots policy.extra members).lookup invariantName).bind Slot.validator? := by
  obtain ⟨name, -, hm⟩ := bind_eq_ok_iff.mp hm
  cases hm
  rw [lookup_slots]
  cases members.any (·.1.text == invariantName) with
  | true => rfl
  | false => cases policy.extra <;> rfl

end Compiled

section Passed

variable {h : Host σ} {m : Model} {given : List (String × Value)} {r r₁ : Runtime σ}

theorem FieldsPass.construct_eq (hpass : FieldsPass h m given r r₁) :
    m.construct h given r = (examine [] (checkInvariant h m given) >>= fun broken =>
      match broken with
      | [] => pure (m.instance? given)
      | first :: rest =>
        throw (.reported ⟨m.name, first :: rest, List.cons_ne_nil first rest⟩)) r₁ := by
  rw [Model.construct_eq, bind_apply, hpass.found]
  dsimp only
  rw [hpass.refused]
  rfl

theorem FieldsPass.construct_free (hpass : FieldsPass h m given r r₁) (hf : m.invariant = none) :
    m.construct h given r = (.ok (m.instance? given), r₁) := by
  have hcheck : checkInvariant h m given r₁ = (.ok (), r₁) := by
    unfold checkInvariant
    rw [hf]
    rfl
  rw [hpass.construct_eq, bind_apply, examine_passed hcheck]
  rfl

theorem FieldsPass.construct_rejected {f : Func} {w a : Value} {s₂ : σ}
    (hpass : FieldsPass h m given r r₁) (hf : m.invariant = some f)
    (hw : m.invariantArgument? given = .ok w) (hcall : h.call f w r₁.host = (.ok a, s₂))
    (ha : a ≠ .null) :
    (m.construct h given r).1 =
      a.plainText? >>= fun text =>
        .error (.reported ⟨m.name, [.invalid [] text], List.cons_ne_nil _ _⟩) := by
  have hreason : Verdict.ofAnswer a = some a := by
    cases a with
    | null => exact absurd rfl ha
    | _ => rfl
  obtain ⟨outcome, r₂, hcheck, hasked⟩ := checkInvariant_run (h := h) hf given r₁
  obtain ⟨answer, hcall', rfl⟩ := hasked.call_eq hw
  have hanswer : answer = .ok a := congrArg Prod.fst (hcall'.symm.trans hcall)
  have houtcome : answer.map Verdict.ofAnswer = .ok (some a) := by
    rw [hanswer, ← hreason]
    rfl
  rw [houtcome] at hcheck
  rw [hpass.construct_eq, bind_apply]
  rcases examine_run hcheck [] with ⟨entries, hentered, hrun⟩ | ⟨fault, hescapes, hrun⟩
  · rw [hrun]
    cases hentered with
    | rejected htext =>
      rw [htext]
      rfl
  · rw [hrun]
    cases hescapes with
    | noReason htext =>
      rw [htext]
      rfl

end Passed

/-- The model keeps its invariant in a namespace with its fields. As long as no field has the name
of it there, whatever it has against fields that passed is reported; once a field has that name, it
is not even called. -/
theorem invariant_enforced_unless_shadowed {s : Nat} {n : Name} {members : List (Name × Schema)}
    {policy : Policy} {f : Func} {asked : Value} {m : Model} (hf : policy.extra = some f)
    (hm : compile? (.schema (.record s n members policy)) asked = .ok m) :
    m.invariant = ((slots policy.extra members).lookup invariantName).bind Slot.validator? ∧
    ∀ (σ : Type) (h : Host σ) (given : List (String × Value)) (r r₁ : Runtime σ),
      FieldsPass h m given r r₁ →
      ((∀ k ∈ members, k.1.text ≠ invariantName) → ∀ w a s₂,
        m.invariantArgument? given = .ok w → h.call f w r₁.host = (.ok a, s₂) → a ≠ .null →
        (∀ text, a.plainText? = .ok text →
          (m.construct h given r).1 =
            .error (.reported ⟨m.name, [.invalid [] text], List.cons_ne_nil _ _⟩)) ∧
        ∀ fault, a.plainText? = .error fault → (m.construct h given r).1 = .error fault) ∧
      ((∃ k ∈ members, k.1.text = invariantName) →
        m.construct h given r = (.ok (m.instance? given), r₁)) := by
  have hinvariant := compile?_invariant hm
  refine ⟨hinvariant, ?_⟩
  intro σ h given r r₁ hpass
  rw [lookup_slots, hf] at hinvariant
  constructor
  · intro hfree w a s₂ hw hcall ha
    have hkept : m.invariant = some f := by
      have hany : members.any (·.1.text == invariantName) = false := by
        simpa [List.any_eq_false] using hfree
      rw [hinvariant, hany]
      rfl
    have hrun := hpass.construct_rejected hkept hw hcall ha
    constructor
    · intro text htext
      rw [hrun, htext]
      rfl
    · intro fault htext
      rw [hrun, htext]
      rfl
  · intro htaken
    have hlost : m.invariant = none := by
      have hany : members.any (·.1.text == invariantName) = true := by
        simpa [List.any_eq_true] using htaken
      rw [hinvariant, hany]
      rfl
    exact hpass.construct_free hlost

def guarded (key : String) : Schema :=
  .record 0 "S" [(key, .primitive .any)] { extra := some (Schema.sample 0) }

/-- The same model but for the name of its field: it raises, or it makes an instance. -/
theorem invariant_enforced_unless_shadowed_twice :
    (∃ m, compile? (.schema (guarded "x")) .null = .ok m ∧
      (m.construct alwaysNo [("x", .ofInt 1)] ⟨(), {}⟩).1 =
        .error (.reported ⟨"S", [.invalid [] "no"], List.cons_ne_nil _ _⟩)) ∧
    ∃ m i, compile? (.schema (guarded invariantName)) .null = .ok m ∧
      (m.construct alwaysNo [(invariantName, .ofInt 1)] ⟨(), {}⟩).1 = .ok i := by
  constructor
  · obtain ⟨m, hm⟩ : ∃ m, compile? (.schema (guarded "x")) .null = .ok m := ⟨_, rfl⟩
    have hruns := (invariant_enforced_unless_shadowed rfl hm).2 Unit alwaysNo
      [("x", .ofInt 1)] ⟨(), {}⟩ ⟨(), {}⟩
    cases hm
    obtain ⟨hreported, -⟩ := (hruns ⟨rfl, rfl⟩).1 (by decide) _ _ () rfl rfl nofun
    exact ⟨_, rfl, hreported "no" rfl⟩
  · obtain ⟨m, hm⟩ : ∃ m, compile? (.schema (guarded invariantName)) .null = .ok m := ⟨_, rfl⟩
    have hruns := (invariant_enforced_unless_shadowed rfl hm).2 Unit alwaysNo
      [(invariantName, .ofInt 1)] ⟨(), {}⟩ ⟨(), {}⟩
    cases hm
    have hmade := (hruns ⟨rfl, rfl⟩).2 ⟨_, List.mem_singleton_self _, rfl⟩
    exact ⟨_, _, rfl, congrArg Prod.fst hmade⟩

end Conformance.Model

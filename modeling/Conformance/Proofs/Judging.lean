/- What is wrong with the knobs of a policy, knob by knob. All of it is told at once, what concerns
   the fields before the rest; an override, which validates what it is given together with what the
   record has, tells the same as a new policy. -/
import Conformance.Proofs.Precedence
import Conformance.Proofs.Refusing
namespace Conformance

namespace Policy

/-- A knob with something wrong about it: its value does not suit the field, or there is no such
field. -/
inductive Faulty : String × Value → Finding → Prop
  | field {k finding} : BadKnob k finding → Faulty k finding
  | undeclared {name v} : name ∉ fieldNames → Faulty (name, v) (.undeclared name)

/-- The knobs in the order of a report: those of each field, then all others as they were given. -/
def reportOrder (knobs : Knobs) : Knobs :=
  fieldNames.flatMap (fun name => knobs.filter (·.1 == name)) ++
    knobs.filter (fun k => !fieldNames.contains k.1)

/-- One finding for each knob that is faulty, in their order. -/
inductive Tells : Knobs → List Finding → Prop
  | nil : Tells [] []
  | sound {k knobs found} : (∀ finding, ¬ Faulty k finding) → Tells knobs found →
      Tells (k :: knobs) found
  | faulty {k finding knobs found} : Faulty k finding → Tells knobs found →
      Tells (k :: knobs) (finding :: found)

/-- Each knob that was given is at its value, and each other one where it was before. -/
structure Replaces (before : Policy) (knobs : Knobs) (after : Policy) : Prop where
  given : ∀ k ∈ knobs, k ∈ after.toKnobs
  kept : ∀ k ∈ before.toKnobs, k.1 ∉ knobs.map (·.1) → k ∈ after.toKnobs

/-- What knobs should come to that are put over a policy. -/
structure Judges (before : Policy) (knobs : Knobs) (outcome : Except Fault Policy) : Prop where
  refused_iff : (∃ fault, outcome = .error fault) ↔ ∃ k ∈ knobs, ∃ finding, Faulty k finding
  report : ∀ fault, outcome = .error fault →
    ∃ report, fault = .reported report ∧ report.title = reportTitle ∧
      Tells (reportOrder knobs) report.findings
  replaced : ∀ after, outcome = .ok after → Replaces before knobs after

def faultLabel : String × Value → String
  | (name, v) =>
    if name = "total" ∨ name = "unknown" then "bool_type"
    else if name = "extra" then
      match v with
      | .func _ => "value_error"
      | _ => "callable_type"
    else "extra_forbidden"

theorem Faulty.path_label {k : String × Value} {finding : Finding} (h : Faulty k finding) :
    finding.path = [k.1] ∧ finding.label = faultLabel k := by
  cases h with
  | field hbad =>
    cases hbad with
    | switch hname _ => exact ⟨rfl, (if_pos hname).symm⟩
    | misfit _ => exact ⟨rfl, rfl⟩
    | @notCallable v _ hfunc =>
      refine ⟨rfl, ?_⟩
      cases v with
      | func f => exact absurd rfl (hfunc f)
      | _ => rfl
  | @undeclared name v hname =>
    simp only [fieldNames, List.mem_cons, List.not_mem_nil, or_false, not_or] at hname
    simp [Finding.label, Complaint.label, faultLabel, hname]

theorem mem_reportOrder_iff {knobs : Knobs} {k : String × Value} :
    k ∈ reportOrder knobs ↔ k ∈ knobs := by
  by_cases hfield : k.1 ∈ fieldNames
  · simp [reportOrder, hfield]
  · simp [reportOrder, hfield]

section Tells

variable {knobs more : Knobs} {found also : List Finding}

theorem Tells.append (h : Tells knobs found) (hmore : Tells more also) :
    Tells (knobs ++ more) (found ++ also) := by
  induction h with
  | nil => exact hmore
  | sound hsound _ ih => exact .sound hsound ih
  | faulty hfaulty _ ih => exact .faulty hfaulty ih

theorem Tells.ne_nil_iff (h : Tells knobs found) :
    found ≠ [] ↔ ∃ k ∈ knobs, ∃ finding, Faulty k finding := by
  induction h with
  | nil => simp
  | sound hsound _ ih => simp [ih, hsound]
  | faulty hfaulty _ _ => exact ⟨fun _ => ⟨_, List.mem_cons_self, _, hfaulty⟩, nofun⟩

theorem tells_undeclared (h : ∀ k ∈ knobs, k.1 ∉ fieldNames) :
    Tells knobs (knobs.map fun k => .undeclared k.1) := by
  induction knobs with
  | nil => exact .nil
  | cons k knobs ih =>
    obtain ⟨hk, hknobs⟩ := List.forall_mem_cons.mp h
    exact .faulty (.undeclared hk) (ih hknobs)

theorem BadKnob.unique {k : String × Value} {finding other : Finding} (h : BadKnob k finding)
    (hother : BadKnob k other) : finding = other := by
  cases h with
  | switch hname _ =>
    cases hother with
    | switch _ _ => rfl
    | notCallable _ _ => simp at hname
    | misfit _ => simp at hname
  | notCallable _ hfunc =>
    cases hother with
    | switch hname _ => simp at hname
    | notCallable _ _ => rfl
    | misfit _ => exact absurd rfl (hfunc _)
  | misfit _ =>
    cases hother with
    | switch hname _ => simp at hname
    | notCallable _ hfunc => exact absurd rfl (hfunc _)
    | misfit _ => rfl

theorem BadKnob.known {k : String × Value} {finding : Finding} (h : BadKnob k finding) :
    k.1 ∈ fieldNames := by
  cases h with
  | switch hname _ => rcases hname with rfl | rfl <;> simp [fieldNames]
  | notCallable _ _ => simp [fieldNames]
  | misfit _ => simp [fieldNames]

theorem Faulty.unique {k : String × Value} {finding other : Finding} (h : Faulty k finding)
    (hother : Faulty k other) : finding = other := by
  cases h with
  | field hbad =>
    cases hother with
    | field hbad' => exact hbad.unique hbad'
    | undeclared hname => exact absurd hbad.known hname
  | undeclared hname =>
    cases hother with
    | field hbad' => exact absurd hbad'.known hname
    | undeclared _ => rfl

/-- Knobs have one report. -/
theorem Tells.unique {other : List Finding} (h : Tells knobs found) (hother : Tells knobs other) :
    found = other := by
  induction h generalizing other with
  | nil =>
    cases hother
    rfl
  | sound hsound _ ih =>
    cases hother with
    | sound _ hrest => exact ih hrest
    | faulty hfaulty _ => exact absurd hfaulty (hsound _)
  | faulty hfaulty _ ih =>
    cases hother with
    | sound hsound _ => exact absurd hfaulty (hsound _)
    | faulty hfaulty' hrest => rw [hfaulty.unique hfaulty', ih hrest]

end Tells

section Field

variable {knobs : Knobs} {name : String}

theorem filter_name_eq (hdistinct : knobs.Distinct) (name : String) :
    knobs.filter (·.1 == name) = ((knobs.lookup name).map (name, ·)).toList := by
  induction knobs with
  | nil => rfl
  | cons k knobs ih =>
    obtain ⟨hfresh, hrest⟩ := List.nodup_cons.mp hdistinct
    rw [List.filter_cons, Knobs.lookup_cons_ite, ih hrest]
    by_cases hname : name = k.1
    · have hnone : knobs.lookup name = none := by
        rw [← Option.not_isSome_iff_eq_none, Knobs.lookup_isSome_iff, hname]
        exact hfresh
      rw [hnone, if_pos (beq_iff_eq.mpr hname.symm), if_pos hname, hname]
      rfl
    · rw [if_neg (mt beq_iff_eq.mp (Ne.symm hname)), if_neg hname]

theorem not_faulty_of_known (hname : name ∈ fieldNames) {v : Value}
    (hsound : ∀ finding, ¬ BadKnob (name, v) finding) (finding : Finding) :
    ¬ Faulty (name, v) finding := by
  intro hfaulty
  cases hfaulty with
  | field hbad => exact hsound finding hbad
  | undeclared hnone => exact hnone hname

theorem not_badKnob_bool (hname : name = "total" ∨ name = "unknown") (b : Bool)
    (finding : Finding) : ¬ BadKnob (name, .bool b) finding := by
  intro hbad
  cases hbad with
  | switch _ hv => exact hv b rfl
  | notCallable _ _ => simp at hname

theorem not_badKnob_null (finding : Finding) : ¬ BadKnob ("extra", .null) finding := by
  intro hbad
  cases hbad with
  | switch hname _ => simp at hname
  | notCallable hnull _ => exact hnull rfl

theorem tells_switch (hname : name = "total" ∨ name = "unknown") (v? : Option Value) :
    Tells (v?.map (name, ·)).toList (switchFindings name v?) := by
  cases v? with
  | none => exact .nil
  | some v =>
    by_cases hbool : ∃ b, v = .bool b
    · obtain ⟨b, rfl⟩ := hbool
      have hknown : name ∈ fieldNames := by
        rcases hname with rfl | rfl <;> decide
      exact .sound (not_faulty_of_known hknown (not_badKnob_bool hname b)) .nil
    · have hv : ∀ b, v ≠ .bool b := not_exists.mp hbool
      have hfound : switchFindings name (some v) = [.notBool name] := by
        cases v with
        | bool b => exact absurd rfl (hv b)
        | _ => rfl
      rw [hfound]
      exact .faulty (.field (.switch hname hv)) .nil

theorem tells_extra (v? : Option Value) :
    Tells (v?.map ("extra", ·)).toList (extraFindings v?) := by
  have hquiet : ∀ {v}, (∀ finding, ¬ BadKnob ("extra", v) finding) → Tells [("extra", v)] [] :=
    fun hsound => .sound (not_faulty_of_known (by decide) hsound) .nil
  cases v? with
  | none => exact .nil
  | some v =>
    by_cases hfunc : ∃ f, v = .func f
    · obtain ⟨f, rfl⟩ := hfunc
      cases hone : f.acceptsOne with
      | true =>
        have hfound : extraFindings (some (.func f)) = [] := if_pos hone
        rw [hfound]
        refine hquiet fun finding hbad => ?_
        cases hbad with
        | switch hname _ => simp at hname
        | notCallable _ hf => exact hf f rfl
        | misfit hmisfit => cases hone.symm.trans hmisfit
      | false =>
        have hfound : extraFindings (some (.func f)) = [_] := if_neg (ne_true_of_eq_false hone)
        rw [hfound]
        exact .faulty (.field (.misfit hone)) .nil
    · have hf : ∀ f, v ≠ .func f := not_exists.mp hfunc
      by_cases hnull : v = .null
      · subst hnull
        exact hquiet not_badKnob_null
      · have hfound : extraFindings (some v) = [.notCallable "extra"] := by
          cases v with
          | null => exact absurd rfl hnull
          | func f => exact absurd rfl (hf f)
          | _ => rfl
        rw [hfound]
        exact .faulty (.field (.notCallable hnull hf)) .nil

end Field

/-- What is found is what is faulty, each once, in the order of a report. -/
theorem tells_findings {knobs : Knobs} (hdistinct : knobs.Distinct) :
    Tells (reportOrder knobs) (findings knobs) := by
  have hothers : Tells (knobs.filter fun k => !fieldNames.contains k.1)
      (((knobs.map (·.1)).filter fun name => !fieldNames.contains name).map .undeclared) := by
    rw [List.filter_map, List.map_map]
    exact tells_undeclared (by simp)
  have horder : reportOrder knobs = ((knobs.lookup "total").map ("total", ·)).toList ++
      ((knobs.lookup "unknown").map ("unknown", ·)).toList ++
      ((knobs.lookup "extra").map ("extra", ·)).toList ++
      knobs.filter fun k => !fieldNames.contains k.1 := by
    simp only [← filter_name_eq hdistinct]
    simp [reportOrder, fieldNames]
  rw [horder]
  exact (((tells_switch (.inl rfl) _).append (tells_switch (.inr rfl) _)).append
    (tells_extra _)).append hothers

section Override

variable {policy : Policy} {knobs : Knobs}

theorem sound_toKnobs (hextra : ∀ f, policy.extra = some f → f.misfit? = none) :
    Sound policy.toKnobs := by
  refine sound_iff.mpr ⟨rfl, rfl, ?_, by simp [toKnobs, fieldNames]⟩
  change extraFindings (some (extraValue policy.extra)) = []
  cases hf : policy.extra with
  | none => rfl
  | some f => exact if_pos (Option.isNone_iff_eq_none.mpr (hextra f hf))

theorem names_merge {given : Knobs} (hgiven : given.Distinct) (knobs : Knobs) :
    (knobs.merge given).map (·.1) =
      knobs.map (·.1) ++ (given.map (·.1)).filter (· ∉ knobs.map (·.1)) := by
  unfold Knobs.merge
  induction given generalizing knobs with
  | nil => simp
  | cons k given ih =>
    obtain ⟨hfresh, hgiven⟩ := List.nodup_cons.mp hgiven
    rw [List.foldl_cons, ih hgiven, Knobs.names_put, List.map_cons, List.filter_cons]
    by_cases hthere : k.1 ∈ knobs.map (·.1)
    · rw [if_pos hthere, if_neg (by simpa using hthere)]
    · -- The name that comes last now is no other of those that are still to come.
      have hlater : (given.map (·.1)).filter (· ∉ knobs.map (·.1) ++ [k.1]) =
          (given.map (·.1)).filter (· ∉ knobs.map (·.1)) := by
        refine List.filter_congr fun name hname => ?_
        have hne : name ≠ k.1 := ne_of_mem_of_not_mem hname hfresh
        simp [hne]
      rw [if_neg hthere, hlater, if_pos (by simpa using hthere), List.append_assoc]
      rfl

/-- Knobs that are valid already add nothing to what is found. -/
theorem findings_merge (hsound : Sound policy.toKnobs) (hdistinct : knobs.Distinct) :
    findings (policy.toKnobs.merge knobs) = findings knobs := by
  have hlookup := Knobs.lookup_merge hdistinct policy.toKnobs
  have hor : ∀ {found : Option Value → List Finding} {name : String},
      found none = [] → found (policy.toKnobs.lookup name) = [] →
      found ((policy.toKnobs.merge knobs).lookup name) = found (knobs.lookup name) := by
    intro found name hnone hold
    rw [hlookup]
    cases knobs.lookup name with
    | none => exact hold.trans hnone.symm
    | some v => rfl
  obtain ⟨htotal, hunknown, hextra, -⟩ := sound_iff.mp hsound
  have hnames : policy.toKnobs.map (·.1) = fieldNames := rfl
  unfold findings
  rw [hor rfl htotal, hor rfl hunknown, hor rfl hextra, names_merge hdistinct, hnames,
    List.filter_append, List.filter_filter]
  simp

theorem Sound.mem_toKnobs (h : Sound knobs) {name : String} {v : Value}
    (hv : knobs.lookup name = some v) : (name, v) ∈ (ofKnobs knobs).toKnobs := by
  obtain ⟨htotal, hunknown, hextra, -⟩ := sound_iff.mp h
  have hswitch : ∀ {field}, switchFindings field (some v) = [] →
      v = .bool (switchValue (some v)) := by
    intro field hnone
    cases v with
    | bool b => rfl
    | _ => cases hnone
  have hknown : name ∈ fieldNames :=
    h.name_mem (Knobs.lookup_isSome_iff.mp (Option.isSome_of_eq_some hv))
  simp only [fieldNames, List.mem_cons, List.not_mem_nil, or_false] at hknown
  rcases hknown with rfl | rfl | rfl
  · rw [hv] at htotal
    simp [Policy.toKnobs, ofKnobs, hv, ← hswitch htotal]
  · rw [hv] at hunknown
    simp [Policy.toKnobs, ofKnobs, hv, ← hswitch hunknown]
  · rw [hv] at hextra
    have hvalue : v = extraValue (extraFunc (some v)) := by
      cases v with
      | null => rfl
      | func f => rfl
      | _ => cases hextra
    simp [Policy.toKnobs, ofKnobs, hv, ← hvalue]

theorem judges_override (hextra : ∀ f, policy.extra = some f → f.misfit? = none)
    (hdistinct : knobs.Distinct) : Judges policy knobs (policy.override knobs) := by
  have hfindings := findings_merge (sound_toKnobs hextra) hdistinct
  have htells := tells_findings hdistinct
  have hfaulty : findings knobs ≠ [] ↔ ∃ k ∈ knobs, ∃ finding, Faulty k finding := by
    simpa only [mem_reportOrder_iff] using htells.ne_nil_iff
  have hlookup := Knobs.lookup_merge hdistinct policy.toKnobs
  constructor
  · rw [← hfaulty, ← hfindings]
    unfold override validate
    cases findings (policy.toKnobs.merge knobs) <;> simp
  · intro fault hfault
    have hne : findings (policy.toKnobs.merge knobs) ≠ [] := fun hnone => by
      have hpass := validate_eq_ok_iff.mpr ⟨hnone, rfl⟩
      cases hfault.symm.trans hpass
    cases hfault.symm.trans (validate_of_findings hne)
    refine ⟨_, rfl, rfl, ?_⟩
    change Tells _ (findings (policy.toKnobs.merge knobs))
    rw [hfindings]
    exact htells
  · intro after hafter
    obtain ⟨hsound, rfl⟩ := validate_eq_ok_iff.mp hafter
    constructor
    · rintro ⟨name, v⟩ hk
      refine hsound.mem_toKnobs ?_
      rw [hlookup, (lookup_eq_some_iff_mem hdistinct).mpr hk]
      rfl
    · rintro ⟨name, v⟩ hk hother
      refine hsound.mem_toKnobs ?_
      have hnone : knobs.lookup name = none :=
        Option.not_isSome_iff_eq_none.mp (mt Knobs.lookup_isSome_iff.mp hother)
      rw [hlookup, hnone, Option.none_or]
      exact (lookup_eq_some_iff_mem (by simp [toKnobs])).mpr hk

/-- A new policy is the default one with some knobs replaced. -/
theorem validate_eq_override (hdistinct : knobs.Distinct) :
    validate knobs = ({} : Policy).override knobs := by
  have hfindings : findings (toKnobs {} |>.merge knobs) = findings knobs :=
    findings_merge (sound_toKnobs nofun) hdistinct
  have hpolicy : ofKnobs (toKnobs {} |>.merge knobs) = ofKnobs knobs :=
    ofKnobs_toKnobs_merge [] hdistinct
  unfold override validate
  rw [hfindings, hpolicy]

end Override

end Policy

namespace Construct

theorem override_apply {policy : Policy} {knobs : Knobs} (hself : "self" ∉ knobs.map (·.1))
    (s : Nat) (n : Name) (members : List (Name × Schema)) (forge : Forge) :
    (override (.schema (.record s n members policy)) knobs forge).1 =
        (policy.override knobs).map (.record forge.next n members) ∧
      ∀ fault, policy.override knobs = .error fault →
        (override (.schema (.record s n members policy)) knobs forge).2 = forge := by
  unfold override
  dsimp only
  rw [if_neg (mt Knobs.any_name_iff.mp hself)]
  cases policy.override knobs with
  | error fault => exact ⟨rfl, fun _ _ => rfl⟩
  | ok after => exact ⟨rfl, nofun⟩

end Construct

/-- Knobs are refused exactly where one of them is faulty, with a report of all that are, and
otherwise each of them replaces what was there before: the default in a new policy, what the record
has in an override. An override that is refused leaves nothing behind. -/
theorem knobs_judged {knobs : Knobs} (hdistinct : knobs.Distinct) :
    Policy.Judges {} knobs (Policy.validate knobs) ∧
    (∀ s n members policy, Declared (.record s n members policy) →
      "self" ∉ knobs.map (·.1) → ∀ forge, ∃ outcome, Policy.Judges policy knobs outcome ∧
        (Construct.override (.schema (.record s n members policy)) knobs forge).1 =
          outcome.map (.record forge.next n members) ∧
        ∀ fault, outcome = .error fault →
          (Construct.override (.schema (.record s n members policy)) knobs forge).2 = forge) ∧
    ∀ k finding, Policy.Faulty k finding →
      finding.path = [k.1] ∧ finding.label = Policy.faultLabel k := by
  refine ⟨?_, fun s n members policy hdeclared hself forge => ?_, fun k finding h => h.path_label⟩
  · rw [Policy.validate_eq_override hdistinct]
    exact Policy.judges_override nofun hdistinct
  · refine ⟨policy.override knobs, ?_, Construct.override_apply hself s n members forge⟩
    exact Policy.judges_override (fun f hf => hdeclared.extra_fits hf) hdistinct

/-- Two fields with values that do not suit them, and a name that is none of a field. -/
def unsuited : Knobs :=
  [("z", .null), ("extra", .ofInt 1), ("total", .ofInt 1), ("unknown", .bool true)]

theorem knobs_judged_strictPair :
    (Construct.override (.schema Schema.strictPair) unsuited {}).1 =
        .error (.reported ⟨"StructPolicy",
          [.notBool "total", .notCallable "extra", .undeclared "z"], List.cons_ne_nil _ _⟩) ∧
    ∃ after, (Construct.override (.schema Schema.strictPair) [("extra", .null)] {}).1 =
        .ok (.record 0 "S" Schema.strictMembers after) ∧
      after.extra = none ∧ after.unknown = false := by
  constructor
  · have hdistinct : unsuited.Distinct := by
      unfold Knobs.Distinct
      decide
    obtain ⟨-, hoverride, -⟩ := knobs_judged hdistinct
    obtain ⟨outcome, hjudges, hrun, -⟩ :=
      hoverride _ _ _ _ Schema.strictPair_declared (by decide) {}
    have hz : Policy.Faulty ("z", .null) (.undeclared "z") := .undeclared (by decide)
    obtain ⟨fault, rfl⟩ := hjudges.refused_iff.mpr ⟨_, List.mem_cons_self, _, hz⟩
    obtain ⟨report, rfl, htitle, htells⟩ := hjudges.report fault rfl
    have hquiet : ∀ finding, ¬ Policy.Faulty ("unknown", .bool true) finding :=
      Policy.not_faulty_of_known (by decide) (Policy.not_badKnob_bool (.inr rfl) true)
    have hall : Policy.Tells (Policy.reportOrder unsuited)
        [.notBool "total", .notCallable "extra", .undeclared "z"] :=
      .faulty (.field (.switch (.inl rfl) fun _ => nofun)) <| .sound hquiet <|
        .faulty (.field (.notCallable nofun fun _ => nofun)) <| .faulty hz .nil
    have hreport : report = ⟨"StructPolicy",
        [.notBool "total", .notCallable "extra", .undeclared "z"], List.cons_ne_nil _ _⟩ := by
      cases report
      cases htitle
      cases htells.unique hall
      rfl
    refine hrun.trans ?_
    rw [hreport]
    rfl
  · have hdistinct : Knobs.Distinct [("extra", .null)] := List.nodup_singleton _
    obtain ⟨-, hoverride, -⟩ := knobs_judged hdistinct
    obtain ⟨outcome, hjudges, hrun, -⟩ :=
      hoverride _ _ _ _ Schema.strictPair_declared (by decide) {}
    cases outcome with
    | error fault =>
      obtain ⟨k, hk, finding, hfaulty⟩ := hjudges.refused_iff.mp ⟨fault, rfl⟩
      cases List.mem_singleton.mp hk
      exact absurd hfaulty (Policy.not_faulty_of_known (by decide) Policy.not_badKnob_null finding)
    | ok after =>
      obtain ⟨hgiven, hkept⟩ := hjudges.replaced after rfl
      have hextra := hgiven ("extra", .null) List.mem_cons_self
      have hunknown := hkept ("unknown", .bool false) (by simp [Policy.toKnobs]) (by decide)
      refine ⟨after, hrun, ?_, ?_⟩
      · cases hf : after.extra with
        | none => rfl
        | some f => simp [Policy.toKnobs, Policy.extraValue, hf] at hextra
      · simpa [Policy.toKnobs] using hunknown

end Conformance

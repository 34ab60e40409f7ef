/- What the invariant of a model is called with: a mapping of the fields that were given, and of
   nothing else. On the same data the record calls its function with the data themselves. -/
import Conformance.Proofs.Enforcement
import Conformance.Proofs.Passes
import Conformance.Proofs.Precedence
namespace Conformance.Model

variable {σ : Type}

/-- The given names in the order of an invariant: declared ones as they are declared, then the rest
as they are given. -/
def handedNames (declared given : List String) : List String :=
  declared.filter (· ∈ given) ++ given.filter (· ∉ declared)

theorem givenFields_names (m : Model) (given : List (String × Value)) :
    (m.givenFields given).map (·.1.text) =
      (m.fields.map (·.1.text)).filter (· ∈ given.map (·.1)) := by
  unfold givenFields
  induction m.fields with
  | nil => rfl
  | cons f fields ih =>
    have hfound : (given.lookup f.1.text).isSome ↔ f.1.text ∈ given.map (·.1) :=
      Knobs.lookup_isSome_iff
    rw [List.filterMap_cons, List.map_cons, List.filter_cons, ← ih]
    cases hlookup : given.lookup f.1.text <;> rw [hlookup] at hfound <;> simp [← hfound]

theorem handed_names (m : Model) (d : Data) : (m.handed d.arguments).map (·.1.text) =
    handedNames (m.fields.map (·.1.text)) (d.map (·.1.text)) := by
  have hothers : (m.surplus d.arguments).map (·.1) =
      (d.map (·.1.text)).filter (· ∉ m.fields.map (·.1.text)) := by
    rw [← d.arguments_keys, surplus, List.filter_map]
    refine congrArg _ (List.filter_congr fun g _ => ?_)
    rw [Bool.eq_iff_iff]
    simp
  rw [handed, List.map_append, givenFields_names, List.map_map, handedNames, ← hothers,
    d.arguments_keys]
  rfl

section Fields

variable {h : Host σ} {m : Model} {d : Data} {r r₁ : Runtime σ}

/-- Where a model finds nothing wrong with the given fields, the record has nothing to say against
its members, and comes to the same state. -/
theorem allPass_of_fieldFindings {total : Bool} {fields : List (Name × Schema)}
    (hfound : fieldFindings h total d.arguments fields r = (.ok [], r₁)) :
    allPass (fun m => Record.checkMember total (d.map fun e => (.ofName e.1, e.2))
      (m.1.text, m.2.verify h)) fields r.host = (.ok true, r₁.host) := by
  induction fields generalizing r with
  | nil =>
    cases hfound
    rfl
  | cons m fields ih =>
    rw [fieldFindings_cons] at hfound
    obtain ⟨found, r', hfield, hrest⟩ := bind_run_eq_ok_iff.mp hfound
    obtain ⟨rest, r'', hfields, hall⟩ := bind_run_eq_ok_iff.mp hrest
    obtain ⟨hnil, rfl⟩ := pure_run_eq_ok_iff.mp hall
    obtain ⟨rfl, rfl⟩ := List.append_eq_nil_iff.mp hnil
    rw [allPass, bind_run_eq_ok_iff]
    refine ⟨none, r'.host, ?_, ih hfields⟩
    unfold Record.checkMember
    rw [Data.lookup?_mapping]
    cases hm : d.arguments.lookup m.1.text with
    | none =>
      rw [hm] at hfield
      obtain ⟨hmissing, rfl⟩ := pure_run_eq_ok_iff.mp hfield
      cases total with
      | true => cases hmissing
      | false => rfl
    | some v =>
      rw [hm] at hfield
      obtain ⟨outcome, r₂, hcall, ⟨entries, hentered, hrun⟩ | ⟨fault, -, hrun⟩⟩ := field_run h m v r
      · cases hrun.symm.trans hfield
        cases hentered.passed_of_nil rfl
        exact bind_inContext_eq_ok_iff.mpr ⟨none, hcall, rfl⟩
      · cases hrun.symm.trans hfield

theorem FieldsPass.guard_eq (hpass : FieldsPass h m d.arguments r r₁) :
    Record.guard (Schema.memberVerifiers h m.fields) m.total m.unknown
      (d.map fun e => (.ofName e.1, e.2)) r.host = (.ok none, r₁.host) := by
  have hmembers : firstError (Record.checkMember m.total (d.map fun e => (.ofName e.1, e.2)))
      (Schema.memberVerifiers h m.fields) r.host = (.ok none, r₁.host) := by
    rw [Schema.memberVerifiers_eq_map, firstError_map, firstError, bind_apply,
      allPass_of_fieldFindings hpass.found]
    rfl
  have hrefused := hpass.refused
  rw [refused_eq] at hrefused
  unfold Record.guard
  rw [Record.firstStep, bind_apply, hmembers]
  cases hunknown : m.unknown with
  | true => rfl
  | false =>
    rw [hunknown] at hrefused
    have hstrangers : strangers m.fields d = [] := by simpa using hrefused
    have hkeys := undeclaredKeys_eq m.fields d
    rw [hstrangers] at hkeys
    change Record.firstStep [Record.checkUnknown _ _] r₁.host = _
    rw [Record.firstStep_singleton, Record.checkUnknown_eq, Schema.memberVerifiers_eq_map,
      List.map_map]
    change (ofExcept (Record.keysVerdict (m.fields.map (·.1.text)) _) : CallM σ Verdict) _ = _
    rw [Record.keysVerdict_nil hkeys]
    rfl

theorem FieldsPass.construct_host {given : List (String × Value)} {f : Func} {w : Value}
    (hpass : FieldsPass h m given r r₁) (hf : m.invariant = some f)
    (hw : m.invariantArgument? given = .ok w) :
    (m.construct h given r).2.host = (h.call f w r₁.host).2 := by
  obtain ⟨outcome, r₂, hcheck, hasked⟩ := checkInvariant_run (h := h) hf given r₁
  obtain ⟨answer, hcall, -⟩ := hasked.call_eq hw
  have hexamined : (examine [] (checkInvariant h m given) r₁).2 = r₂ := by
    rcases examine_run hcheck [] with ⟨_, _, hrun⟩ | ⟨_, _, hrun⟩ <;> rw [hrun]
  rw [hpass.construct_eq, bind_apply, hcall, ← hexamined]
  cases examine [] (checkInvariant h m given) r₁ with
  | mk result r₂ =>
    match result with
    | .ok [] => rfl
    | .ok (_ :: _) => rfl
    | .error _ => rfl

end Fields

theorem compile?_eq_ok {s : Nat} {n : Name} {members : List (Name × Schema)} {policy : Policy}
    {asked : Value} {m : Model} (hnames : ∀ k ∈ members, k.1.text ≠ invariantName)
    (hm : compile? (.schema (.record s n members policy)) asked = .ok m) :
    m.fields = members ∧ m.total = policy.total ∧ m.unknown = policy.unknown ∧
      m.invariant = policy.extra := by
  have hfree : members.any (·.1.text == invariantName) = false := by
    simpa [List.any_eq_false] using hnames
  obtain ⟨name, -, hm⟩ := bind_eq_ok_iff.mp hm
  rw [hfree] at hm
  cases hm
  exact ⟨rfl, rfl, rfl, rfl⟩

/-- Once all fields have passed, the model calls its invariant with the names that were given, each
with a value of the same contents, and with no default. In the same place, on the same data, the
record calls its function with the data themselves. So a function for which only contents count, and
no order of keys, gives both the same answer. -/
theorem invariant_sees_given {h : Host σ} {s : Nat} {n : Name} {members : List (Name × Schema)}
    {policy : Policy} {f : Func} {asked : Value} {m : Model} {d : Data}
    {r r₁ : Runtime (σ × List FuncCall)} (hdeclared : Declared (.record s n members policy))
    (hf : policy.extra = some f) (hnames : ∀ k ∈ members, k.1.text ≠ invariantName)
    (hm : compile? (.schema (.record s n members policy)) asked = .ok m) (hdistinct : d.Distinct)
    (hplain : ∀ e ∈ d, e.2.isPlain = true)
    (hpass : FieldsPass h.recording m d.arguments r r₁) :
    ∃ (given : Data) (outcome : Except Fault Value),
      given.map (·.1.text) = handedNames (members.map (·.1.text)) (d.map (·.1.text)) ∧
      given.shown.Perm d.shown ∧
      (m.construct h.recording d.arguments r).2.host.2 =
        r₁.host.2 ++ [⟨(f, given.mapping (.plain .base)), outcome⟩] ∧
      ∀ kind, (∀ w, (d.mapping kind).SameContents w → h.call f w = h.call f (d.mapping kind)) →
        ((Schema.record s n members policy).verify h.recording (d.mapping kind) r.host).2.2 =
          r₁.host.2 ++ [⟨(f, d.mapping kind), outcome⟩] := by
  obtain ⟨rfl, htotal, hunknown, hinvariant⟩ := compile?_eq_ok hnames hm
  obtain ⟨_, _, _, _, heq, hnodup⟩ := hdeclared.names_nodup
  cases heq
  have hfits := hdeclared.extra_fits hf
  obtain ⟨given, hargument, hnamed, hshown⟩ := invariantArgument?_given hnodup hdistinct hplain
  have hnamed : given.map (·.1.text) = (m.handed d.arguments).map (·.1.text) := by
    have htexts := congrArg (List.map Name.text) hnamed
    rwa [List.map_map, List.map_map] at htexts
  refine ⟨given, (h.call f (given.mapping (.plain .base)) r₁.host.1).1,
    hnamed.trans (handed_names m d), hshown, ?_, fun kind hcontents => ?_⟩
  · rw [hpass.construct_host (hinvariant.trans hf) hargument, h.recording_call hfits]
  · have hguard := hpass.guard_eq
    rw [htotal, hunknown] at hguard
    have hsame := hcontents _ (Data.mapping_sameContents hshown kind (.plain .base))
    rw [Record.verify_asked s rfl hguard hf, h.recording_call hfits, hsame]

/-- The strict pair with all that makes it strict taken back. -/
def laxPair : Schema :=
  .record 1 "S" Schema.strictMembers { total := false, extra := some (Schema.sample 0) }

theorem laxPair_declared : Declared laxPair := by
  have hmade : (Construct.override (.schema Schema.strictPair)
      [("total", .bool false), ("unknown", .bool true)] ⟨1, []⟩).1 = .ok laxPair := rfl
  exact .override Schema.strictPair_declared hmade

/-- Another key first, then the second member; the first member is left out. -/
def strangerFirst : Data :=
  [("z", .list .base [.mapping .ordered [(.ofString "k", .null)]]), ("b", .ofString "x")]

/-- The member comes first here, and the member that was left out does not come at all. -/
theorem invariant_sees_given_stranger :
    ∃ (m : Model) (given : Data) (outcome : Except Fault Value),
      compile? (.schema laxPair) .null = .ok m ∧
      given.map (·.1.text) = ["b", "z"] ∧ given.shown.Perm strangerFirst.shown ∧
      (m.construct Schema.discontent.recording strangerFirst.arguments ⟨((), []), {}⟩).2.host.2 =
        [⟨(Schema.sample 0, given.mapping (.plain .base)), outcome⟩] ∧
      (laxPair.verify Schema.discontent.recording (strangerFirst.mapping .ordered) ((), [])).2.2 =
        [⟨(Schema.sample 0, strangerFirst.mapping .ordered), outcome⟩] := by
  obtain ⟨m, hm⟩ : ∃ m, compile? (.schema laxPair) .null = .ok m := ⟨_, rfl⟩
  have hpass : FieldsPass Schema.discontent.recording m strangerFirst.arguments ⟨((), []), {}⟩
      ⟨((), []), {}⟩ := by
    cases hm
    exact ⟨rfl, rfl⟩
  obtain ⟨given, outcome, hnames, hshown, hmodel, hrecord⟩ :=
    invariant_sees_given laxPair_declared rfl (by decide) hm (by decide) (by decide) hpass
  exact ⟨m, given, outcome, hm, hnames, hshown, hmodel, hrecord .ordered fun _ _ => rfl⟩

end Conformance.Model

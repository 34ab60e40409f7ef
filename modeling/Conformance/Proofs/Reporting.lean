/- The report of a model is complete: each field has its entries, in order, and the whole is looked
   at only if there are none. Each call is made once, and none after a fault that goes through. -/
import Conformance.Proofs.Agreement
import Conformance.Proofs.Recording
namespace Conformance.Model

variable {σ : Type}

/-- What the outcome of a check enters in the report. If the check broke off with findings of its
own, each of them is entered, below the path. -/
inductive Entered (path : List String) : Except Fault Verdict → List Finding → Prop
  | passed : Entered path (.ok none) []
  | rejected {reason text} : reason.plainText? = .ok text →
      Entered path (.ok (some reason)) [.invalid path text]
  | found {fault} : fault.findings ≠ [] →
      Entered path (.error fault) (fault.findings.map (.under path))
  | badValue {fault text} : fault.findings = [] → fault.isBadValue = true →
      fault.text? = some (.ok text) → Entered path (.error fault) [.invalid path text]
  | asserted {fault text} : fault.findings = [] → fault.kind = .assertion →
      fault.text? = some (.ok text) → Entered path (.error fault) [.asserted path text]

/-- The outcomes that cannot be entered, and the fault that goes through instead: one of another
kind, or the one in the way of the text. -/
inductive Escapes : Except Fault Verdict → Fault → Prop
  | foreign {fault} : fault.findings = [] → fault.isBadValue = false → fault.kind ≠ .assertion →
      Escapes (.error fault) fault
  | noReason {reason fault} : reason.plainText? = .error fault → Escapes (.ok (some reason)) fault
  | noText {fault fault'} : fault.findings = [] →
      fault.isBadValue = true ∨ fault.kind = .assertion →
      fault.text? = some (.error fault') → Escapes (.error fault) fault'

/-- Only a check that passed enters nothing. -/
theorem Entered.passed_of_nil {path : List String} {outcome : Except Fault Verdict}
    {entries : List Finding} (h : Entered path outcome entries) (hnil : entries = []) :
    outcome = .ok none := by
  cases h with
  | passed => rfl
  | found hfound => exact absurd (List.map_eq_nil_iff.mp hnil) hfound
  | _ => cases hnil

abbrev FieldCall := Call ((Name × Schema) × Value) Verdict

def verifyField (h : Host σ) (q : (Name × Schema) × Value) : CallM σ Verdict := q.1.2.verify h q.2

/-- The fields that are given, each with its value, in the order of the fields. -/
def askedFields (given : List (String × Value)) (fields : List (Name × Schema)) :
    List ((Name × Schema) × Value) :=
  fields.filterMap fun m => (given.lookup m.1.text).map (m, ·)

/-- Field by field: the calls on those that are given, and all entries. -/
inductive FieldEntries (total : Bool) (given : List (String × Value)) :
    List (Name × Schema) → List FieldCall → List Finding → Prop
  | nil : FieldEntries total given [] [] []
  | absent {m fields calls found} : given.lookup m.1.text = none →
      FieldEntries total given fields calls found →
      FieldEntries total given (m :: fields) calls
        ((if total then [.missing m.1.text] else []) ++ found)
  | asked {m v outcome entries fields calls found} : given.lookup m.1.text = some v →
      Entered [m.1.text] outcome entries → FieldEntries total given fields calls found →
      FieldEntries total given (m :: fields) (⟨(m, v), outcome⟩ :: calls) (entries ++ found)

/-- How the checks of the fields end: all are made, or they break off with the first outcome that
cannot be entered. -/
inductive FieldsEnd (h : Host σ) (total : Bool) (given : List (String × Value))
    (fields : List (Name × Schema)) (s : σ) : Except Fault (List Finding) → σ → Prop
  | complete {calls found s'} : askedFields given fields = calls.map (·.argument) →
      FieldEntries total given fields calls found → Threaded (verifyField h) calls s s' →
      FieldsEnd h total given fields s (.ok found) s'
  | brokenOff {calls last rest fault s'} :
      askedFields given fields = (calls ++ [last]).map (·.argument) ++ rest →
      (∀ c ∈ calls, ∃ entries, Entered [c.argument.1.1.text] c.outcome entries) →
      Escapes last.outcome fault → Threaded (verifyField h) (calls ++ [last]) s s' →
      FieldsEnd h total given fields s (.error fault) s'

/-- The invariant is asked about the given fields, unless they cannot be copied. -/
inductive WholeAsked (h : Host σ) (m : Model) (given : List (String × Value)) (f : Func) (s : σ) :
    Except Fault Verdict → σ → Prop
  | asked {w answer s'} : m.invariantArgument? given = .ok w → h.call f w s = (answer, s') →
      WholeAsked h m given f s (answer.map .ofAnswer) s'
  | noCopy {fault} : m.invariantArgument? given = .error fault →
      WholeAsked h m given f s (.error fault) s

/-- How making an instance ends. -/
inductive Ends (h : Host σ) (m : Model) (given : List (String × Value)) (s : σ) :
    Except Fault Instance → σ → Prop
  | brokenOff {fault s'} : FieldsEnd h m.total given m.fields s (.error fault) s' →
      Ends h m given s (.error fault) s'
  | reported {found s'} : FieldsEnd h m.total given m.fields s (.ok found) s' →
      (hne : found ++ m.refused given ≠ []) →
      Ends h m given s (.error (.reported ⟨m.name, found ++ m.refused given, hne⟩)) s'
  | passed {s'} : FieldsEnd h m.total given m.fields s (.ok []) s' → m.refused given = [] →
      m.invariant = none → Ends h m given s (.ok (m.instance? given)) s'
  | wholePassed {f s₁ s'} : FieldsEnd h m.total given m.fields s (.ok []) s₁ →
      m.refused given = [] → m.invariant = some f → WholeAsked h m given f s₁ (.ok none) s' →
      Ends h m given s (.ok (m.instance? given)) s'
  | wholeReported {f outcome entries s₁ s'} :
      FieldsEnd h m.total given m.fields s (.ok []) s₁ → m.refused given = [] →
      m.invariant = some f → WholeAsked h m given f s₁ outcome s' →
      Entered [] outcome entries → (hne : entries ≠ []) →
      Ends h m given s (.error (.reported ⟨m.name, entries, hne⟩)) s'
  | wholeBrokenOff {f outcome fault s₁ s'} :
      FieldsEnd h m.total given m.fields s (.ok []) s₁ → m.refused given = [] →
      m.invariant = some f → WholeAsked h m given f s₁ outcome s' → Escapes outcome fault →
      Ends h m given s (.error fault) s'

section Examine

variable {r r' : Runtime σ} {x : Run σ Unit} {outcome : Except Fault Verdict}

def raising : Except Fault Verdict → Except Fault Unit
  | .ok none => .ok ()
  | .ok (some reason) => .error (.rejected reason)
  | .error fault => .error fault

theorem examine_passed (hx : x r = (.ok (), r')) (path : List String) :
    examine path x r = (.ok [], r') := by
  rw [examine, tryCatch_apply, bind_apply, hx]
  rfl

theorem examine_raised {fault : Fault} (hx : x r = (.error fault, r')) (path : List String) :
    examine path x r = (findingsOf path fault, r') := by
  rw [examine, tryCatch_apply, bind_apply, hx]
  dsimp only
  cases findingsOf path fault <;> rfl

/-- What has no findings has a text. -/
theorem exists_text {fault : Fault} (h : fault.findings = []) :
    ∃ text, fault.text? = some text := by
  cases fault with
  | reported report => exact absurd h report.nonempty
  | _ => exact ⟨_, rfl⟩

theorem findingsOf_cases (path : List String) (fault : Fault) :
    (∃ entries, Entered path (.error fault) entries ∧ findingsOf path fault = .ok entries) ∨
      ∃ fault', Escapes (.error fault) fault' ∧ findingsOf path fault = .error fault' := by
  cases hfound : fault.findings with
  | cons finding findings =>
    have hne : fault.findings ≠ [] := hfound ▸ List.cons_ne_nil finding findings
    have hfindings : findingsOf path fault = .ok (fault.findings.map (.under path)) := by
      rw [findingsOf, hfound]
    exact .inl ⟨_, .found hne, hfindings⟩
  | nil =>
    obtain ⟨text, htext⟩ := exists_text hfound
    rw [findingsOf, hfound, htext]
    dsimp only
    by_cases hbad : fault.isBadValue = true
    · rw [if_pos hbad]
      cases text with
      | ok text => exact .inl ⟨_, .badValue hfound hbad htext, rfl⟩
      | error fault' => exact .inr ⟨fault', .noText hfound (.inl hbad) htext, rfl⟩
    · rw [if_neg hbad]
      by_cases hassertion : fault.kind = .assertion
      · rw [if_pos hassertion]
        cases text with
        | ok text => exact .inl ⟨_, .asserted hfound hassertion htext, rfl⟩
        | error fault' => exact .inr ⟨fault', .noText hfound (.inr hassertion) htext, rfl⟩
      · rw [if_neg hassertion]
        exact .inr ⟨fault, .foreign hfound (by simpa using hbad) hassertion, rfl⟩

/-- What is entered, or what goes through. -/
theorem examine_run (hx : x r = (raising outcome, r')) (path : List String) :
    (∃ entries, Entered path outcome entries ∧ examine path x r = (.ok entries, r')) ∨
      ∃ fault, Escapes outcome fault ∧ examine path x r = (.error fault, r') := by
  match outcome with
  | .ok none => exact .inl ⟨[], .passed, examine_passed hx path⟩
  | .ok (some reason) =>
    rw [examine_raised hx path, findingsOf_rejected]
    cases htext : reason.plainText? with
    | ok text => exact .inl ⟨_, .rejected htext, rfl⟩
    | error fault => exact .inr ⟨fault, .noReason htext, rfl⟩
  | .error fault =>
    rw [examine_raised hx path]
    rcases findingsOf_cases path fault with ⟨entries, hentered, h⟩ | ⟨fault', hescapes, h⟩
    · exact .inl ⟨entries, hentered, congrArg (·, r') h⟩
    · exact .inr ⟨fault', hescapes, congrArg (·, r') h⟩

end Examine

section Construct

variable {h : Host σ} {given : List (String × Value)}

theorem check_run (h : Host σ) (t : Schema) (v : Value) (r : Runtime σ) :
    ∃ r', (do let _ ← t.check h v : Run σ Unit) r = (raising (t.verify h v r.host).1, r') ∧
      r'.host = (t.verify h v r.host).2 := by
  unfold Schema.check
  rw [bind_apply, bind_apply]
  have hcall : Run.ofCall (t.verify h v) r =
      ((t.verify h v r.host).1, { r with host := (t.verify h v r.host).2 }) := rfl
  rw [hcall]
  match (t.verify h v r.host).1 with
  | .ok none => exact ⟨_, rfl, rfl⟩
  | .ok (some reason) => exact ⟨_, rfl, rfl⟩
  | .error fault => exact ⟨_, rfl, rfl⟩

theorem field_run (h : Host σ) (m : Name × Schema) (v : Value) (r : Runtime σ) :
    ∃ outcome r', verifyField h (m, v) r.host = (outcome, r'.host) ∧
      ((∃ entries, Entered [m.1.text] outcome entries ∧
          examine [m.1.text] (do let _ ← m.2.check h v) r = (.ok entries, r')) ∨
        ∃ fault, Escapes outcome fault ∧
          examine [m.1.text] (do let _ ← m.2.check h v) r = (.error fault, r')) := by
  obtain ⟨r', hrun, hstate⟩ := check_run h m.2 v r
  refine ⟨_, r', ?_, examine_run hrun [m.1.text]⟩
  rw [hstate]
  rfl

theorem askedFields_absent {m : Name × Schema} (hm : given.lookup m.1.text = none)
    (fields : List (Name × Schema)) :
    askedFields given (m :: fields) = askedFields given fields := by
  rw [askedFields, List.filterMap_cons, hm]
  rfl

theorem askedFields_given {m : Name × Schema} {v : Value} (hm : given.lookup m.1.text = some v)
    (fields : List (Name × Schema)) :
    askedFields given (m :: fields) = (m, v) :: askedFields given fields := by
  rw [askedFields, List.filterMap_cons, hm]
  rfl

namespace FieldsEnd

variable {total : Bool} {m : Name × Schema} {fields : List (Name × Schema)} {s s₁ s' : σ}
variable {v : Value} {outcome : Except Fault Verdict} {result : Except Fault (List Finding)}

theorem absent (hm : given.lookup m.1.text = none)
    (hfields : FieldsEnd h total given fields s result s') :
    FieldsEnd h total given (m :: fields) s
      (result.map ((if total then [.missing m.1.text] else []) ++ ·)) s' := by
  cases hfields with
  | complete hasked hentries hcalls =>
    exact .complete ((askedFields_absent hm fields).trans hasked) (.absent hm hentries) hcalls
  | brokenOff hasked hentered hescapes hcalls =>
    have hasked := (askedFields_absent hm fields).trans hasked
    exact .brokenOff hasked hentered hescapes hcalls

theorem asked {entries : List Finding} (hm : given.lookup m.1.text = some v)
    (hcall : verifyField h (m, v) s = (outcome, s₁)) (hentries : Entered [m.1.text] outcome entries)
    (hfields : FieldsEnd h total given fields s₁ result s') :
    FieldsEnd h total given (m :: fields) s (result.map (entries ++ ·)) s' := by
  cases hfields with
  | @complete calls found _ hasked hrest hcalls =>
    have hasked : askedFields given (m :: fields) =
        (⟨(m, v), outcome⟩ :: calls : List FieldCall).map Call.argument := by
      rw [askedFields_given hm, hasked]
      rfl
    exact .complete hasked (.asked hm hentries hrest) (.cons hcall hcalls)
  | @brokenOff calls last rest fault _ hasked hentered hescapes hcalls =>
    have hasked : askedFields given (m :: fields) =
        (⟨(m, v), outcome⟩ :: calls ++ [last]).map Call.argument ++ rest := by
      rw [askedFields_given hm, hasked]
      rfl
    exact .brokenOff hasked (List.forall_mem_cons.mpr ⟨⟨entries, hentries⟩, hentered⟩) hescapes
      (.cons hcall hcalls)

theorem broken {fault : Fault} (hm : given.lookup m.1.text = some v)
    (hcall : verifyField h (m, v) s = (outcome, s₁)) (hescapes : Escapes outcome fault)
    (fields : List (Name × Schema)) :
    FieldsEnd h total given (m :: fields) s (.error fault) s₁ := by
  let last : FieldCall := ⟨(m, v), outcome⟩
  have hasked : askedFields given (m :: fields) =
      ([] ++ [last]).map Call.argument ++ askedFields given fields := askedFields_given hm fields
  have hcalls : Threaded (verifyField h) ([] ++ [last]) s s₁ := .cons hcall (.nil _)
  exact .brokenOff hasked (by simp) hescapes hcalls

end FieldsEnd

theorem fieldFindings_run (h : Host σ) (total : Bool) (given : List (String × Value))
    (fields : List (Name × Schema)) (r : Runtime σ) :
    FieldsEnd h total given fields r.host (fieldFindings h total given fields r).1
      (fieldFindings h total given fields r).2.host := by
  induction fields generalizing r with
  | nil => exact .complete rfl .nil (.nil _)
  | cons m fields ih =>
    rw [fieldFindings_cons, bind_apply]
    cases hm : given.lookup m.1.text with
    | none =>
      change FieldsEnd _ _ _ _ _ ((fieldFindings h total given fields >>= fun rest => pure _) r).1
        ((fieldFindings h total given fields >>= fun rest => pure _) r).2.host
      rw [bind_pure_apply]
      exact (ih r).absent hm
    | some v =>
      -- An entered outcome lets the next fields be checked, from the state that it left.
      obtain ⟨outcome, r', hcall, ⟨entries, hentries, hrun⟩ | ⟨fault, hescapes, hrun⟩⟩ :=
        field_run h m v r
      · dsimp only
        rw [hrun]
        dsimp only
        rw [bind_pure_apply]
        exact (ih r').asked hm hcall hentries
      · dsimp only
        rw [hrun]
        exact .broken hm hcall hescapes fields

theorem checkInvariant_run {m : Model} {f : Func} (hf : m.invariant = some f)
    (given : List (String × Value)) (r : Runtime σ) :
    ∃ outcome r', checkInvariant h m given r = (raising outcome, r') ∧
      WholeAsked h m given f r.host outcome r'.host := by
  unfold checkInvariant
  rw [hf]
  cases hargument : m.invariantArgument? given with
  | error fault => exact ⟨.error fault, r, rfl, .noCopy hargument⟩
  | ok w =>
    have hcall : Run.ofCall (h.call f w) r =
        ((h.call f w r.host).1, { r with host := (h.call f w r.host).2 }) := rfl
    refine ⟨(h.call f w r.host).1.map .ofAnswer, { r with host := (h.call f w r.host).2 }, ?_,
      .asked hargument rfl⟩
    change (Run.ofCall (h.call f w) >>= fun a => _) r = _
    rw [bind_apply, hcall]
    cases (h.call f w r.host).1 with
    | error fault => rfl
    | ok a =>
      dsimp only [Except.map]
      cases Verdict.ofAnswer a <;> rfl

theorem WholeAsked.call_eq {m : Model} {f : Func} {w : Value} {s s' : σ}
    {outcome : Except Fault Verdict} (hasked : WholeAsked h m given f s outcome s')
    (hw : m.invariantArgument? given = .ok w) :
    ∃ answer, h.call f w s = (answer, s') ∧ outcome = answer.map .ofAnswer := by
  cases hasked with
  | asked hw' hcall =>
    cases hw.symm.trans hw'
    exact ⟨_, hcall, rfl⟩
  | noCopy hw' => cases hw.symm.trans hw'

/-- Making an instance ends in one of these ways, whatever the functions do. -/
theorem construct_run (h : Host σ) (m : Model) (given : List (String × Value)) (r : Runtime σ) :
    Ends h m given r.host (m.construct h given r).1 (m.construct h given r).2.host := by
  rw [construct_eq, bind_apply]
  have hfields := fieldFindings_run h m.total given m.fields r
  cases hrun : fieldFindings h m.total given m.fields r with
  | mk result r₁ =>
    rw [hrun] at hfields
    cases result with
    | error fault => exact .brokenOff hfields
    | ok found =>
      dsimp only
      cases hall : found ++ m.refused given with
      | cons finding findings =>
        have hend := Ends.reported hfields (hall ▸ List.cons_ne_nil finding findings)
        simp only [hall] at hend
        exact hend
      | nil =>
        obtain ⟨rfl, hrefused⟩ := List.append_eq_nil_iff.mp hall
        dsimp only
        rw [bind_apply]
        cases hf : m.invariant with
        | none =>
          have hpass : checkInvariant h m given r₁ = (.ok (), r₁) := by
            unfold checkInvariant
            rw [hf]
            rfl
          rw [examine_passed hpass]
          exact .passed hfields hrefused hf
        | some f =>
          obtain ⟨outcome, r₂, hcheck, hasked⟩ := checkInvariant_run (h := h) hf given r₁
          rcases examine_run hcheck [] with ⟨entries, hentered, hrun⟩ | ⟨fault, hescapes, hrun⟩
          · rw [hrun]
            cases entries with
            | nil =>
              cases hentered.passed_of_nil rfl
              exact .wholePassed hfields hrefused hf hasked
            | cons finding findings =>
              exact .wholeReported hfields hrefused hf hasked hentered (List.cons_ne_nil _ _)
          · rw [hrun]
            exact .wholeBrokenOff hfields hrefused hf hasked hescapes

end Construct

/-- A model of a record: each given field is verified once, in the order of the fields, and each
field has its entries in the report. What cannot be entered goes through at once; and the invariant
is asked, once, only where there is nothing to report. -/
theorem construct_ends (s : Nat) (n : Name) {members : List (Name × Schema)} (policy : Policy)
    (hnames : ∀ m ∈ members, m.1.text ≠ invariantName) :
    (Char.ofNat 0 ∈ n.text.toList →
      compile? (.schema (.record s n members policy)) .null = .error .modelNameWithNull) ∧
    (Char.ofNat 0 ∉ n.text.toList →
      ∃ m, compile? (.schema (.record s n members policy)) .null = .ok m ∧
        m = { name := n.text, fields := members, total := policy.total,
              unknown := policy.unknown, invariant := policy.extra } ∧
        ∀ (h : Host σ) (given : List (String × Value)) (r : Runtime σ),
          Ends h m given r.host (m.construct h given r).1 (m.construct h given r).2.host) := by
  rw [compile?_record s n policy hnames]
  refine ⟨fun hnull => if_pos hnull, fun hnull => ?_⟩
  exact ⟨_, if_neg hnull, rfl, fun h given r => construct_run h _ given r⟩

def pairMembers : List (Name × Schema) :=
  [("a", .primitive .int), ("b", .custom "t" (Schema.sample 0))]

def alwaysNo : Host Unit := .ofAnswers fun _ _ => .ok (.ofString "no")

/-- An absent field and a rejected one have an entry each. -/
theorem construct_ends_pair :
    (∀ m ∈ pairMembers, m.1.text ≠ invariantName) ∧
    ∃ m, compile? (.schema (.record 0 "S" pairMembers {})) .null = .ok m ∧
      Ends alwaysNo m [("b", .null)] ()
        (.error (.reported
          ⟨"S", [.missing "a", .invalid ["b"] "no"], List.cons_ne_nil _ _⟩)) () := by
  have hnames : ∀ m ∈ pairMembers, m.1.text ≠ invariantName := by decide
  obtain ⟨m, hm, rfl, hends⟩ := (construct_ends 0 "S" {} hnames).2 (by decide)
  exact ⟨hnames, _, hm, hends alwaysNo [("b", .null)] ⟨(), {}⟩⟩

def shyAnswer : Value := .object "Broken" .refused 0

def alwaysShy : Host Unit := .ofAnswers fun _ _ => .ok shyAnswer

def innerReport : Report := ⟨"T", [.missing "x", .invalid [] "no"], List.cons_ne_nil _ _⟩

def alwaysReporting : Host Unit := .ofAnswers fun _ _ => .error (.reported innerReport)

def complaint : Complaint := .other "not_even" "Input should be even"

def alwaysComplaining : Host Unit := .ofAnswers fun _ _ => .error (.complained complaint)

/-- Fields do not have one entry each, by the text of their faults. A reason without text has none,
for then there is no report at all; a function that raises a report has as many as that; and a
complaint under a label of its own keeps the label. And there are records of which no model can be
made. -/
theorem construct_not_one_entry_each :
    (∃ m, compile? (.schema (.record 0 "S" pairMembers {})) .null = .ok m ∧
      ((Schema.custom "t" (Schema.sample 0)).verify alwaysShy .null ()).1 = .ok (some shyAnswer) ∧
      (m.construct alwaysShy [("b", .null)] ⟨(), {}⟩).1 = .error .noText ∧
      (m.construct alwaysReporting [("b", .null)] ⟨(), {}⟩).1 = .error (.reported
        ⟨"S", [.missing "a", ⟨["b", "x"], .missing⟩, .invalid ["b"] "no"],
          List.cons_ne_nil _ _⟩) ∧
      (m.construct alwaysComplaining [("b", .null)] ⟨(), {}⟩).1 = .error (.reported
        ⟨"S", [.missing "a", ⟨["b"], complaint⟩], List.cons_ne_nil _ _⟩)) ∧
    compile? (.schema (.record 0 "S\x00" pairMembers {})) .null = .error .modelNameWithNull := by
  exact ⟨⟨_, rfl, rfl, rfl, rfl, rfl⟩, rfl⟩

end Conformance.Model

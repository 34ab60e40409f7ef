/- The rules of the constructors: which calls fail, with which fault where several things are wrong
   at once, and that all others make a schema that has a name. -/
import Conformance.Proofs.Logging
namespace Conformance

namespace Policy

/-- A knob of a policy that is not as it should be, and what is found about it. -/
inductive BadKnob : String × Value → Finding → Prop
  | switch {name v} : name = "total" ∨ name = "unknown" → (∀ b, v ≠ .bool b) →
      BadKnob (name, v) (.notBool name)
  | notCallable {v} : v ≠ .null → (∀ f, v ≠ .func f) → BadKnob ("extra", v) (.notCallable "extra")
  | misfit {f : Func} : f.acceptsOne = false →
      BadKnob ("extra", .func f) (.invalid ["extra"] "extra must accept exactly one argument")

/-- The knobs that a declaration has. -/
structure Declarable (knobs : Knobs) : Prop where
  distinct : knobs.Distinct
  known : ∀ k ∈ knobs, k.1 ∈ fieldNames

theorem mem_switchFindings_iff {name : String} {v? : Option Value} {finding : Finding} :
    finding ∈ switchFindings name v? ↔
      finding = .notBool name ∧ ∃ v, v? = some v ∧ ∀ b, v ≠ .bool b := by
  cases v? with
  | none => simp [switchFindings]
  | some v => cases v <;> simp [switchFindings]

theorem mem_extraFindings_iff {v? : Option Value} {finding : Finding} :
    finding ∈ extraFindings v? ↔ ∃ v, v? = some v ∧ BadKnob ("extra", v) finding := by
  constructor
  · intro h
    unfold extraFindings at h
    split at h
    next => cases h
    next => cases h
    next f =>
      split at h
      next => cases h
      next hone =>
        cases List.mem_singleton.mp h
        exact ⟨_, rfl, .misfit (by simpa using hone)⟩
    next v hnull hfunc =>
      cases List.mem_singleton.mp h
      refine ⟨v, rfl, .notCallable ?_ ?_⟩
      · rintro rfl
        exact hnull rfl
      · rintro f rfl
        exact hfunc f rfl
  · rintro ⟨v, rfl, hbad⟩
    cases hbad with
    | switch hname _ => simp at hname
    | misfit hone => simp [extraFindings, hone]
    | notCallable hnull hfunc =>
      cases v with
      | null => exact absurd rfl hnull
      | func f => exact absurd rfl (hfunc f)
      | _ => exact List.mem_singleton_self _

theorem mem_findings_iff {knobs : Knobs} (hknobs : Declarable knobs) {finding : Finding} :
    finding ∈ findings knobs ↔ ∃ k ∈ knobs, BadKnob k finding := by
  have hlookup : ∀ {name v}, knobs.lookup name = some v ↔ (name, v) ∈ knobs :=
    lookup_eq_some_iff_mem hknobs.distinct
  have hknown : (knobs.map (·.1)).filter (fun name => !fieldNames.contains name) = [] := by
    simpa using hknobs.known
  simp only [findings, hknown, List.map_nil, List.append_nil, List.mem_append,
    mem_switchFindings_iff, mem_extraFindings_iff, hlookup]
  constructor
  · rintro ((⟨rfl, v, hmem, hv⟩ | ⟨rfl, v, hmem, hv⟩) | ⟨v, hmem, hbad⟩)
    · exact ⟨_, hmem, .switch (.inl rfl) hv⟩
    · exact ⟨_, hmem, .switch (.inr rfl) hv⟩
    · exact ⟨_, hmem, hbad⟩
  · rintro ⟨⟨name, v⟩, hmem, hbad⟩
    cases hbad with
    | switch hname hv =>
      rcases hname with rfl | rfl
      · exact .inl (.inl ⟨rfl, v, hmem, hv⟩)
      · exact .inl (.inr ⟨rfl, v, hmem, hv⟩)
    | notCallable hnull hfunc => exact .inr ⟨v, hmem, .notCallable hnull hfunc⟩
    | misfit hone => exact .inr ⟨_, hmem, .misfit hone⟩

theorem sound_iff_no_badKnob {knobs : Knobs} (hknobs : Declarable knobs) :
    Sound knobs ↔ ∀ k ∈ knobs, ∀ finding, ¬ BadKnob k finding := by
  unfold Sound
  rw [List.eq_nil_iff_forall_not_mem]
  simp only [mem_findings_iff hknobs, not_exists, not_and]
  exact ⟨fun h k hk finding => h finding k hk, fun h finding k hk => h k hk finding⟩

theorem validate_of_no_badKnob {knobs : Knobs} (hknobs : Declarable knobs)
    (h : ∀ k ∈ knobs, ∀ finding, ¬ BadKnob k finding) : validate knobs = .ok (ofKnobs knobs) :=
  validate_eq_ok_iff.mpr ⟨(sound_iff_no_badKnob hknobs).mpr h, rfl⟩

end Policy

namespace Construct

/-- A name that no schema can have. -/
inductive BadName : Value → FaultKind → Fault → Prop
  | notText {name} : (∀ l s, name ≠ .text l s) → BadName name .type (.nameNotText name.className)
  | empty (l) : BadName (.text l "") .value .nameEmpty

/-- An entry that declares no member. Its key is looked at first. -/
inductive BadEntry (shown : String) : Value × Value → Fault → Prop
  | key {key v text} : (∀ l s, key ≠ .text l s) → Value.line? false key = .ok text →
      BadEntry shown (key, v) (.memberNameNotText shown text)
  | value {l s v} : (∀ t, v ≠ .schema t) →
      BadEntry shown (.text l s, v) (.notSchema s!"Struct '{shown}' member '{s}'" v.className)

namespace Request

/-- The calls that fail, with the kind of fault and the fault. Of several things that are wrong this
is the first by the rules of each constructor. -/
inductive Fails : Request → FaultKind → Fault → Prop
  | optional {inner} : (∀ t, inner ≠ .schema t) →
      Fails (.optional inner) .type (.notSchema "Option() argument" inner.className)
  | listOf {inner} : (∀ t, inner ≠ .schema t) →
      Fails (.listOf inner) .type (.notSchema "ListOf() argument" inner.className)
  | mapOf {inner} : (∀ t, inner ≠ .schema t) →
      Fails (.mapOf inner) .type (.notSchema "AttrsOf() argument" inner.className)
  | unionClass {members} : members.items? = none →
      Fails (.union members) .type (.unionNotSequence members.className)
  | unionMember {members before v after} : members.items? = some (before ++ v :: after) →
      (∀ w ∈ before, ∃ t, w = .schema t) → (∀ t, v ≠ .schema t) →
      Fails (.union members) .type (.notSchema s!"Union() member {before.length}" v.className)
  | elemsClass {name elems} : collection? elems = none →
      Fails (.enumeration name elems) .type (.enumerationNotCollection elems.className)
  | elemsEmpty {name elems shown} : collection? elems = some [] → name.plainText? = .ok shown →
      Fails (.enumeration name elems) .value (.enumerationEmpty shown)
  | enumerationName {name elems items kind fault} : collection? elems = some items → items ≠ [] →
      BadName name kind fault → Fails (.enumeration name elems) kind fault
  | membersClass {name members knobs shown} : members.entries? = none →
      name.plainText? = .ok shown →
      Fails (.record name members knobs) .type (.recordNotMapping shown members.className)
  | member {name members knobs shown before e after fault} :
      members.entries? = some (before ++ e :: after) → (∀ d ∈ before, isMember d = true) →
      name.plainText? = .ok shown → BadEntry shown e fault →
      Fails (.record name members knobs) .type fault
  | knob {name members knobs entries k finding report} : members.entries? = some entries →
      (∀ e ∈ entries, isMember e = true) → k ∈ knobs → Policy.BadKnob k finding →
      report.title = Policy.reportTitle → report.findings = Policy.findings knobs →
      Fails (.record name members knobs) .report (.reported report)
  | recordName {name members knobs entries kind fault} : members.entries? = some entries →
      (∀ e ∈ entries, isMember e = true) → (∀ k ∈ knobs, ∀ finding, ¬ Policy.BadKnob k finding) →
      BadName name kind fault → Fails (.record name members knobs) kind fault
  | predicateTest {name test shown} : (∀ f, test ≠ .func f) → name.plainText? = .ok shown →
      Fails (.predicate name test) .type (.predicateNotCallable shown)
  | predicateName {name f kind fault} : BadName name kind fault →
      Fails (.predicate name (.func f)) kind fault
  | customName {name verifier kind fault} : BadName name kind fault →
      Fails (.custom name verifier) kind fault
  | verifier {l s verifier} : s ≠ "" → (∀ f, verifier ≠ .func f) →
      Fails (.custom (.text l s) verifier) .type (.verifierNotCallable s)
  | arity {l s} {f : Func} : s ≠ "" → f.acceptsOne = false →
      Fails (.custom (.text l s) (.func f)) .type (.verifierNotUnary s)

/-- What messages need of a call: names and keys that can be shown. And the knobs of a declaration
are among those that it has. -/
def Readable : Request → Prop
  | .predicate name _ | .enumeration name _ => name.HasText
  | .record name members knobs => name.HasText ∧ Policy.Declarable knobs ∧
      ∀ entries, members.entries? = some entries →
        ∀ e ∈ entries, ∃ text, Value.line? false e.1 = .ok text
  | _ => True

end Request

section Names

variable {name : Value} {kind : FaultKind} {fault : Fault}

theorem BadName.schemaName?_eq (h : BadName name kind fault) : schemaName? name = .error fault := by
  cases h with
  | notText hname =>
    cases name with
    | text l s => exact absurd rfl (hname l s)
    | _ => rfl
  | empty l => rfl

theorem schemaName?_text {l : Lineage} {s : String} (hs : s ≠ "") :
    schemaName? (.text l s) = .ok ⟨l, s⟩ := if_neg (by simpa using hs)

theorem text_or_badName (name : Value) :
    (∃ l s, name = .text l s ∧ s ≠ "") ∨ ∃ kind fault, BadName name kind fault := by
  by_cases htext : ∃ l s, name = .text l s
  · obtain ⟨l, s, rfl⟩ := htext
    by_cases hs : s = ""
    · subst hs
      exact .inr ⟨_, _, .empty l⟩
    · exact .inl ⟨l, s, rfl, hs⟩
  · exact .inr ⟨_, _, .notText fun l s hname => htext ⟨l, s, hname⟩⟩

theorem schemaName?_ne_empty {n : Name} (h : schemaName? name = .ok n) : n.text ≠ "" := by
  cases name with
  | text l s =>
    by_cases hs : s = ""
    · subst hs
      cases (BadName.empty l).schemaName?_eq.symm.trans h
    · cases (schemaName?_text hs).symm.trans h
      exact hs
  | _ => cases h

end Names

section Parts

theorem requireSchema_eq_error {v : Value} (hv : ∀ t, v ≠ .schema t) (what : String) :
    requireSchema what v = .error (.notSchema what v.className) := by
  cases v with
  | schema t => exact absurd rfl (hv t)
  | _ => rfl

theorem requireSchemas_of_schemas {items : List Value} (h : ∀ v ∈ items, ∃ t, v = .schema t)
    (index : Nat) : ∃ ts, requireSchemas index items = .ok ts := by
  induction items generalizing index with
  | nil => exact ⟨[], rfl⟩
  | cons v items ih =>
    obtain ⟨⟨t, rfl⟩, hitems⟩ := List.forall_mem_cons.mp h
    obtain ⟨ts, hts⟩ := ih hitems (index + 1)
    refine ⟨t :: ts, ?_⟩
    rw [requireSchemas, hts]
    rfl

theorem requireSchemas_eq_error {before : List Value} {v : Value}
    (hbefore : ∀ w ∈ before, ∃ t, w = .schema t) (hv : ∀ t, v ≠ .schema t) (index : Nat)
    (after : List Value) : requireSchemas index (before ++ v :: after) =
      .error (.notSchema s!"Union() member {index + before.length}" v.className) := by
  induction before generalizing index with
  | nil =>
    rw [List.nil_append, requireSchemas, requireSchema_eq_error hv]
    rfl
  | cons w before ih =>
    obtain ⟨⟨t, rfl⟩, hrest⟩ := List.forall_mem_cons.mp hbefore
    rw [List.cons_append, requireSchemas, ih hrest, List.length_cons, Nat.add_right_comm,
      Nat.add_assoc]
    rfl

variable {name : Value} {shown : String}

theorem requireMembers_cons_member (hname : name.plainText? = .ok shown) {e : Value × Value}
    (he : isMember e = true) (entries : List (Value × Value)) :
    ∃ m, requireMembers name (e :: entries) =
      requireMembers name entries >>= fun fields => .ok (m :: fields) := by
  unfold isMember at he
  split at he
  next l k t =>
    refine ⟨(⟨l, k⟩, t), ?_⟩
    rw [requireMembers, hname]
    rfl
  next => cases he

theorem BadEntry.requireMembers_eq {e : Value × Value} {fault : Fault}
    (h : BadEntry shown e fault) (hname : name.plainText? = .ok shown)
    (entries : List (Value × Value)) : requireMembers name (e :: entries) = .error fault := by
  cases h with
  | @key key v text hkey hline =>
    rw [requireMembers, hname, hline]
    · rfl
    · exact hkey
  | value hv =>
    rw [requireMembers, hname]
    change (requireSchema _ _ >>= _) = _
    rw [requireSchema_eq_error hv]
    rfl

theorem exists_badEntry {e : Value × Value} (he : isMember e ≠ true)
    (hkey : ∃ text, Value.line? false e.1 = .ok text) : ∃ fault, BadEntry shown e fault := by
  obtain ⟨key, v⟩ := e
  obtain ⟨text, hline⟩ := hkey
  by_cases htext : ∃ l s, key = .text l s
  · obtain ⟨l, s, rfl⟩ := htext
    refine ⟨_, .value fun t hv => he ?_⟩
    rw [hv]
    rfl
  · exact ⟨_, .key (fun l s hkey => htext ⟨l, s, hkey⟩) hline⟩

theorem requireMembers_eq_error {before : List (Value × Value)} {e : Value × Value}
    {fault : Fault} (hbefore : ∀ d ∈ before, isMember d = true)
    (hname : name.plainText? = .ok shown) (he : BadEntry shown e fault)
    (after : List (Value × Value)) :
    requireMembers name (before ++ e :: after) = .error fault := by
  induction before with
  | nil => exact he.requireMembers_eq hname after
  | cons d before ih =>
    obtain ⟨hd, hbefore⟩ := List.forall_mem_cons.mp hbefore
    obtain ⟨m, hm⟩ := requireMembers_cons_member hname hd (before ++ e :: after)
    rw [List.cons_append, hm, ih hbefore]
    rfl

end Parts

namespace Request

variable {q : Request} {kind : FaultKind} {fault : Fault}

theorem around_error {inner : Value} (hinner : ∀ t, inner ≠ .schema t) (what : String)
    (former : Nat → Schema → Schema) (forge : Forge) :
    ((do
      let t ← ofExcept (requireSchema what inner)
      return former (← Build.fresh) t : Build Schema) forge).1 =
      .error (.notSchema what inner.className) := by
  rw [requireSchema_eq_error hinner]
  rfl

theorem Fails.build_eq (h : q.Fails kind fault) (hreadable : q.Readable) (forge : Forge) :
    (q.build forge).1 = .error fault := by
  cases h with
  | optional hinner => exact around_error hinner _ _ forge
  | listOf hinner => exact around_error hinner _ _ forge
  | mapOf hinner => exact around_error hinner _ _ forge
  | unionClass hitems =>
    change (Construct.union _ forge).1 = _
    unfold Construct.union
    rw [hitems]
    rfl
  | unionMember hitems hbefore hv =>
    change (Construct.union _ forge).1 = _
    unfold Construct.union
    rw [hitems]
    dsimp only
    rw [requireSchemas_eq_error hbefore hv, Nat.zero_add]
    rfl
  | elemsClass helems =>
    change (Construct.enumeration _ _ forge).1 = _
    unfold Construct.enumeration
    rw [helems]
    rfl
  | elemsEmpty helems hname =>
    change (Construct.enumeration _ _ forge).1 = _
    unfold Construct.enumeration
    rw [helems]
    dsimp only
    rw [hname]
    rfl
  | @enumerationName name elems items _ _ helems hne hname =>
    change (Construct.enumeration _ _ forge).1 = _
    unfold Construct.enumeration
    rw [helems]
    cases items with
    | nil => exact absurd rfl hne
    | cons item items =>
      dsimp only
      rw [hname.schemaName?_eq]
      rfl
  | membersClass hentries hname =>
    change (Construct.record _ _ _ forge).1 = _
    unfold Construct.record
    rw [hentries]
    dsimp only
    rw [hname]
    rfl
  | member hentries hbefore hname he =>
    change (Construct.record _ _ _ forge).1 = _
    unfold Construct.record
    rw [hentries]
    dsimp only
    rw [requireMembers_eq_error hbefore hname he]
    rfl
  | @knob _ _ _ _ _ _ report hentries hmembers hk hbad htitle hfindings =>
    obtain ⟨⟨shown, hshown⟩, hknobs, -⟩ := hreadable
    obtain ⟨fields, hfields⟩ := requireMembers_ok hshown (List.all_eq_true.mpr hmembers)
    have hfound := (Policy.mem_findings_iff hknobs).mpr ⟨_, hk, hbad⟩
    cases report
    cases htitle
    cases hfindings
    change (Construct.record _ _ _ forge).1 = _
    unfold Construct.record
    rw [hentries]
    dsimp only
    rw [hfields, Policy.validate_of_findings (List.ne_nil_of_mem hfound)]
    rfl
  | recordName hentries hmembers hsound hname =>
    obtain ⟨⟨shown, hshown⟩, hknobs, -⟩ := hreadable
    obtain ⟨fields, hfields⟩ := requireMembers_ok hshown (List.all_eq_true.mpr hmembers)
    change (Construct.record _ _ _ forge).1 = _
    unfold Construct.record
    rw [hentries]
    dsimp only
    rw [hfields, Policy.validate_of_no_badKnob hknobs hsound, hshown, hname.schemaName?_eq]
    rfl
  | @predicateTest name test shown htest hname =>
    change (Construct.predicate _ _ forge).1 = _
    cases test with
    | func f => exact absurd rfl (htest f)
    | _ =>
      unfold Construct.predicate
      dsimp only
      rw [hname]
      rfl
  | predicateName hname =>
    change (Construct.predicate _ _ forge).1 = _
    unfold Construct.predicate
    dsimp only
    rw [hname.schemaName?_eq]
    rfl
  | customName hname =>
    change (Construct.custom _ _ forge).1 = _
    unfold Construct.custom
    rw [hname.schemaName?_eq]
    rfl
  | @verifier l s verifier hs hverifier =>
    change (Construct.custom _ _ forge).1 = _
    unfold Construct.custom
    rw [schemaName?_text hs, ofExcept_ok_bind_apply]
    cases verifier with
    | func f => exact absurd rfl (hverifier f)
    | _ => rfl
  | arity hs hone =>
    change (Construct.custom _ _ forge).1 = _
    unfold Construct.custom
    rw [schemaName?_text hs, ofExcept_ok_bind_apply]
    dsimp only
    rw [hone]
    rfl

section Passed

theorem custom_passed {name verifier : Value}
    (hpass : ∀ kind fault, ¬ (custom name verifier).Fails kind fault) (forge : Forge) :
    ∃ t, (Construct.custom name verifier forge).1 = .ok t := by
  rcases text_or_badName name with ⟨l, s, rfl, hs⟩ | ⟨kind, fault, hbad⟩
  · by_cases hfunc : ∃ f, verifier = .func f
    · obtain ⟨f, rfl⟩ := hfunc
      cases hone : f.acceptsOne with
      | true =>
        unfold Construct.custom
        rw [schemaName?_text hs, ofExcept_ok_bind_apply]
        dsimp only
        rw [hone]
        exact ⟨_, rfl⟩
      | false => exact absurd (.arity hs hone) (hpass _ _)
    · exact absurd (.verifier hs (not_exists.mp hfunc)) (hpass _ _)
  · exact absurd (.customName hbad) (hpass kind fault)

theorem predicate_passed {name test : Value}
    (hpass : ∀ kind fault, ¬ (predicate name test).Fails kind fault) (hreadable : name.HasText)
    (forge : Forge) : ∃ t, (Construct.predicate name test forge).1 = .ok t := by
  by_cases hfunc : ∃ f, test = .func f
  · obtain ⟨f, rfl⟩ := hfunc
    rcases text_or_badName name with ⟨l, s, rfl, hs⟩ | ⟨kind, fault, hbad⟩
    · unfold Construct.predicate
      dsimp only
      rw [schemaName?_text hs]
      exact ⟨_, rfl⟩
    · exact absurd (.predicateName hbad) (hpass kind fault)
  · obtain ⟨shown, hshown⟩ := hreadable
    exact absurd (.predicateTest (not_exists.mp hfunc) hshown) (hpass _ _)

theorem union_passed {members : Value}
    (hpass : ∀ kind fault, ¬ (union members).Fails kind fault) (forge : Forge) :
    ∃ t, (Construct.union members forge).1 = .ok t := by
  cases hitems : members.items? with
  | none => exact absurd (.unionClass hitems) (hpass _ _)
  | some items =>
    rcases forall_or_first (fun v => ∃ t, v = Value.schema t) items with
      hall | ⟨before, v, after, rfl, hbefore, hv⟩
    · obtain ⟨ts, hts⟩ := requireSchemas_of_schemas hall 0
      unfold Construct.union
      rw [hitems]
      dsimp only
      rw [hts]
      exact ⟨_, rfl⟩
    · exact absurd (.unionMember hitems hbefore (not_exists.mp hv)) (hpass _ _)

theorem enumeration_passed {name elems : Value}
    (hpass : ∀ kind fault, ¬ (enumeration name elems).Fails kind fault)
    (hreadable : name.HasText) (forge : Forge) :
    ∃ t, (Construct.enumeration name elems forge).1 = .ok t := by
  obtain ⟨shown, hshown⟩ := hreadable
  unfold Construct.enumeration
  match helems : collection? elems with
  | none => exact absurd (.elemsClass helems) (hpass _ _)
  | some [] => exact absurd (.elemsEmpty helems hshown) (hpass _ _)
  | some (item :: items) =>
    rcases text_or_badName name with ⟨l, s, rfl, hs⟩ | ⟨kind, fault, hbad⟩
    · dsimp only
      rw [schemaName?_text hs]
      exact ⟨_, rfl⟩
    · exact absurd (.enumerationName helems (List.cons_ne_nil _ _) hbad) (hpass kind fault)

theorem record_passed {name members : Value} {knobs : Knobs}
    (hpass : ∀ kind fault, ¬ (record name members knobs).Fails kind fault)
    (hreadable : (record name members knobs).Readable) (forge : Forge) :
    ∃ t, (Construct.record name members knobs forge).1 = .ok t := by
  obtain ⟨⟨shown, hshown⟩, hknobs, hkeys⟩ := hreadable
  cases hentries : members.entries? with
  | none => exact absurd (.membersClass hentries hshown) (hpass _ _)
  | some entries =>
    rcases forall_or_first (isMember · = true) entries with
      hmembers | ⟨before, e, after, rfl, hbefore, he⟩
    · have hsound : ∀ k ∈ knobs, ∀ finding, ¬ Policy.BadKnob k finding := by
        intro k hk finding hbad
        have hne := List.ne_nil_of_mem ((Policy.mem_findings_iff hknobs).mpr ⟨k, hk, hbad⟩)
        exact hpass .report (.reported ⟨Policy.reportTitle, Policy.findings knobs, hne⟩)
          (.knob hentries hmembers hk hbad rfl rfl)
      rcases text_or_badName name with ⟨l, s, rfl, hs⟩ | ⟨kind, fault, hbad⟩
      · obtain ⟨fields, hfields⟩ := requireMembers_ok hshown (List.all_eq_true.mpr hmembers)
        have hreads : Reads (.text l s) members ⟨l, s⟩ fields :=
          ⟨schemaName?_text hs, entries, hentries, hfields⟩
        obtain ⟨stamp, hmade⟩ :=
          hreads.record (Policy.validate_of_no_badKnob hknobs hsound) forge
        exact ⟨_, hmade⟩
      · exact absurd (.recordName hentries hmembers hsound hbad) (hpass kind fault)
    · obtain ⟨fault, hbad⟩ := exists_badEntry he (hkeys _ hentries e (by simp))
      exact absurd (.member hentries hbefore hshown hbad) (hpass _ fault)

theorem exists_built (hq : ∀ target knobs, q ≠ .override target knobs) (hreadable : q.Readable)
    (hpass : ∀ kind fault, ¬ q.Fails kind fault) (forge : Forge) :
    ∃ t, (q.build forge).1 = .ok t := by
  have hschema : ∀ {inner : Value} {kind fault},
      ((∀ t, inner ≠ .schema t) → q.Fails kind fault) → ∃ t, inner = .schema t := by
    intro inner kind fault hfails
    by_contra hinner
    exact hpass kind fault (hfails (not_exists.mp hinner))
  cases q with
  | optional inner =>
    obtain ⟨t, rfl⟩ := hschema .optional
    exact ⟨_, rfl⟩
  | listOf inner =>
    obtain ⟨t, rfl⟩ := hschema .listOf
    exact ⟨_, rfl⟩
  | mapOf inner =>
    obtain ⟨t, rfl⟩ := hschema .mapOf
    exact ⟨_, rfl⟩
  | union members => exact union_passed hpass forge
  | custom name verifier => exact custom_passed hpass forge
  | predicate name test => exact predicate_passed hpass hreadable forge
  | enumeration name elems => exact enumeration_passed hpass hreadable forge
  | record name members knobs => exact record_passed hpass hreadable forge
  | override target knobs => exact absurd rfl (hq target knobs)

end Passed

theorem Fails.fault_kind (h : q.Fails kind fault) : fault.kind = kind := by
  have hname : ∀ {name kind fault}, BadName name kind fault → fault.kind = kind := by
    intro name kind fault hbad
    cases hbad <;> rfl
  cases h with
  | enumerationName _ _ hbad => exact hname hbad
  | recordName _ _ _ hbad => exact hname hbad
  | predicateName hbad => exact hname hbad
  | customName hbad => exact hname hbad
  | member _ _ _ hbad => cases hbad <;> rfl
  | _ => rfl

end Request

end Construct

/-- What every schema has that came about by the constructors: a name, and a verifier that takes one
argument. -/
structure Schema.WellFormed (t : Schema) : Prop where
  named : t.name ≠ ""
  unary : t.verifier.acceptsOne = true

theorem Construct.Request.Makes.wellFormed {q : Construct.Request} {t : Schema} (h : q.Makes t)
    (htarget : ∀ u knobs, q = .override (.schema u) knobs → u.WellFormed) : t.WellFormed := by
  cases h with
  | custom hname hfits =>
    exact ⟨Construct.schemaName?_ne_empty hname, Option.isNone_iff_eq_none.mpr hfits⟩
  | predicate s hname => exact ⟨Construct.schemaName?_ne_empty hname, rfl⟩
  | optional s t => exact ⟨by simp [Schema.name, toString], rfl⟩
  | listOf s t => exact ⟨by simp [Schema.name, toString], rfl⟩
  | mapOf s t => exact ⟨by simp [Schema.name, toString], rfl⟩
  | union s _ => exact ⟨by simp [Schema.name, toString], rfl⟩
  | enumeration s _ _ hname => exact ⟨Construct.schemaName?_ne_empty hname, rfl⟩
  | record s hreads _ => exact ⟨Construct.schemaName?_ne_empty hreads.1, rfl⟩
  | override s s' _ => exact ⟨(htarget _ _ rfl).named, rfl⟩

/-- No composition of the constructors leads out of the schemas that are as they should be. -/
theorem Built.wellFormed {t : Schema} (h : Built t) : t.WellFormed := by
  induction h with
  | primitive p => exact ⟨by cases p <;> decide, by cases p <;> decide⟩
  | made _ hmade ih =>
    refine (Construct.Request.build_makes hmade).wellFormed fun u knobs hq => ih u ?_
    rw [hq]
    exact List.mem_cons_self

/-- A constructor fails where its rules say so, with the fault that they say, whatever else is
wrong; in every other case it makes what was asked for. However constructors are put together, the
schema has a name that is not empty, and a verifier that takes one argument. -/
theorem constructors_follow_rules {q : Construct.Request}
    (hq : ∀ target knobs, q ≠ .override target knobs) (hreadable : q.Readable) (forge : Forge) :
    (∀ fault, (q.build forge).1 = .error fault ↔ ∃ kind, q.Fails kind fault) ∧
    (∀ kind fault, q.Fails kind fault → fault.kind = kind) ∧
    ((∀ kind fault, ¬ q.Fails kind fault) →
      ∃ t, (q.build forge).1 = .ok t ∧ q.Makes t ∧ t.WellFormed) ∧
    ∀ t, Built t → t.WellFormed := by
  have hmade : (∀ kind fault, ¬ q.Fails kind fault) → ∃ t, (q.build forge).1 = .ok t :=
    fun hpass => Construct.Request.exists_built hq hreadable hpass forge
  refine ⟨fun fault => ⟨fun herror => ?_, ?_⟩, fun _ _ h => h.fault_kind, fun hpass => ?_,
    fun t ht => ht.wellFormed⟩
  · by_contra hnone
    have hfails : ∃ kind fault', q.Fails kind fault' := by
      by_contra hpass
      obtain ⟨t, hok⟩ := hmade (by simpa using hpass)
      cases herror.symm.trans hok
    obtain ⟨kind, fault', hfault⟩ := hfails
    cases herror.symm.trans (hfault.build_eq hreadable forge)
    exact hnone ⟨kind, hfault⟩
  · rintro ⟨kind, hfault⟩
    exact hfault.build_eq hreadable forge
  · obtain ⟨t, hok⟩ := hmade hpass
    have hmakes := Construct.Request.build_makes hok
    exact ⟨t, hok, hmakes, hmakes.wellFormed fun u knobs hover => absurd hover (hq _ _)⟩

/-- A declaration without a name, with a switch that is a number. -/
def nameless (members : List (Value × Value)) : Construct.Request :=
  .record (.ofString "") (.mapping (.plain .base) members) [("total", .ofInt 1)]

/-- The second entry has no text for a key, and no schema either. -/
def tangled : List (Value × Value) :=
  [(.ofString "a", .schema (.primitive .int)), (.null, .ofInt 2)]

/-- Entries come before knobs, and knobs before the name. -/
theorem constructors_follow_rules_nameless :
    ((nameless tangled).build {}).1 = .error (.memberNameNotText "" "None") ∧
    ((nameless []).build {}).1 =
      .error (.reported ⟨"StructPolicy", [.notBool "total"], List.cons_ne_nil _ _⟩) := by
  have hq : ∀ members target knobs, nameless members ≠ .override target knobs := by
    intro members target knobs hsame
    cases hsame
  have hknobs : Policy.Declarable [("total", .ofInt 1)] := ⟨List.nodup_singleton _, by decide⟩
  have hnull : Value.line? false .null = .ok "None" := rfl
  constructor
  · have hreadable : (nameless tangled).Readable := by
      refine ⟨⟨"", rfl⟩, hknobs, ?_⟩
      rintro _ ⟨⟩
      exact List.forall_mem_cons.mpr ⟨⟨_, rfl⟩, List.forall_mem_singleton.mpr ⟨_, hnull⟩⟩
    obtain ⟨hrules, -⟩ := constructors_follow_rules (hq _) hreadable {}
    have hentries : (Value.mapping (.plain .base) tangled).entries? =
        some ([(.ofString "a", .schema (.primitive .int))] ++ (.null, .ofInt 2) :: []) := rfl
    exact (hrules _).mpr
      ⟨_, .member hentries (by decide) rfl (.key (fun _ _ => nofun) hnull)⟩
  · have hreadable : (nameless []).Readable := by
      refine ⟨⟨"", rfl⟩, hknobs, ?_⟩
      rintro _ ⟨⟩
      simp
    obtain ⟨hrules, -⟩ := constructors_follow_rules (hq _) hreadable {}
    have hbad : Policy.BadKnob ("total", .ofInt 1) (.notBool "total") :=
      .switch (.inl rfl) fun _ => nofun
    exact (hrules _).mpr ⟨_, .knob rfl (by simp) (List.mem_singleton_self _) hbad rfl rfl⟩

end Conformance

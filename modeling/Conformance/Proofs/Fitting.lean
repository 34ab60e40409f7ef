/- Functions that do not take one argument. As a verifier, or as the check of a whole record, they
   are refused; as the test of a predicate they get into a schema, and every call of it fails. -/
import Conformance.Proofs.Building
import Conformance.Proofs.FaultOrigin
namespace Conformance

variable {f : Func} {why : Misfit}

/-- The function is the test of a predicate, which is the schema or a part of it. -/
inductive Schema.TestedBy (f : Func) : Schema → Prop
  | predicate (s n) : TestedBy f (.predicate s n f)
  | optional {t} (s) : TestedBy f t → TestedBy f (.optional s t)
  | listOf {t} (s) : TestedBy f t → TestedBy f (.listOf s t)
  | mapOf {t} (s) : TestedBy f t → TestedBy f (.mapOf s t)
  | union {t ts} (s) : t ∈ ts → TestedBy f t → TestedBy f (.union s ts)
  | member {m members} (s n policy) : m ∈ members → TestedBy f m.2 →
      TestedBy f (.record s n members policy)

namespace Policy

theorem extra_fits {knobs : Knobs} {policy : Policy} (h : validate knobs = .ok policy)
    (hf : policy.extra = some f) : f.misfit? = none := by
  obtain ⟨hsound, rfl⟩ := validate_eq_ok_iff.mp h
  obtain ⟨-, -, hextra, -⟩ := sound_iff.mp hsound
  change extraFunc (knobs.lookup "extra") = some f at hf
  cases hvalue : knobs.lookup "extra" with
  | none =>
    rw [hvalue] at hf
    cases hf
  | some value =>
    rw [hvalue] at hf hextra
    cases value with
    | func g =>
      cases hf
      by_contra hmisfit
      have hone : ¬ f.acceptsOne = true := mt Option.isNone_iff_eq_none.mp hmisfit
      change (if f.acceptsOne then [] else [_]) = [] at hextra
      rw [if_neg hone] at hextra
      cases hextra
    | _ => cases hf

theorem mem_findings_of_misfit {knobs : Knobs} (hf : f.misfit? = some why)
    (hextra : knobs.lookup "extra" = some (.func f)) :
    .invalid ["extra"] "extra must accept exactly one argument" ∈ findings knobs := by
  have hone : f.acceptsOne = false := by
    unfold Func.acceptsOne
    rw [hf]
    rfl
  simp [findings, extraFindings, hextra, hone]

/-- The report names the knob. -/
theorem validate_of_misfit {knobs : Knobs} (hf : f.misfit? = some why)
    (hextra : knobs.lookup "extra" = some (.func f)) :
    ∃ report, validate knobs = .error (.reported report) ∧
      .invalid ["extra"] "extra must accept exactly one argument" ∈ report.findings :=
  have hmem := mem_findings_of_misfit hf hextra
  ⟨_, validate_of_findings (List.ne_nil_of_mem hmem), hmem⟩

end Policy

namespace Construct.Request

/-- The call fails, and leaves nothing behind. -/
def Refused (q : Request) (forge : Forge) : Prop := ∃ fault, q.build forge = (.error fault, forge)

variable (hf : f.misfit? = some why) (forge : Forge)
include hf

theorem refused_custom (name : Value) : (custom name (.func f)).Refused forge := by
  have hone : ¬ f.acceptsOne = true := by
    unfold Func.acceptsOne
    rw [hf]
    exact Bool.false_ne_true
  change ∃ fault, Construct.custom name (.func f) forge = (.error fault, forge)
  unfold Construct.custom
  cases schemaName? name with
  | error fault =>
    rw [ofExcept_error_bind_apply]
    exact ⟨fault, rfl⟩
  | ok n =>
    rw [ofExcept_ok_bind_apply]
    dsimp only
    rw [if_neg hone]
    exact ⟨.verifierNotUnary n.text, rfl⟩

theorem refused_record {knobs : Knobs} (hextra : knobs.lookup "extra" = some (.func f))
    (name members : Value) : (record name members knobs).Refused forge := by
  change ∃ fault, Construct.record name members knobs forge = (.error fault, forge)
  unfold Construct.record
  cases members.entries? with
  | none =>
    dsimp only
    cases name.plainText? with
    | error fault => exact ⟨fault, ofExcept_error_bind_apply⟩
    | ok text => exact ⟨.recordNotMapping text members.className, ofExcept_ok_bind_apply⟩
  | some entries =>
    dsimp only
    cases requireMembers name entries with
    | error fault => exact ⟨fault, ofExcept_error_bind_apply⟩
    | ok fields =>
      obtain ⟨report, hreport, -⟩ := Policy.validate_of_misfit hf hextra
      rw [ofExcept_ok_bind_apply, hreport, ofExcept_error_bind_apply]
      exact ⟨_, rfl⟩

theorem refused_override {knobs : Knobs} (hdistinct : knobs.Distinct)
    (hextra : knobs.lookup "extra" = some (.func f)) (target : Value) :
    (override target knobs).Refused forge := by
  change ∃ fault, Construct.override target knobs forge = (.error fault, forge)
  unfold Construct.override
  cases target with
  | schema t =>
    cases t with
    | record s n members policy =>
      dsimp only
      split
      next => exact ⟨.receiverGiven, rfl⟩
      next =>
        have hmerged : (policy.toKnobs.merge knobs).lookup "extra" = some (.func f) := by
          rw [Knobs.lookup_merge hdistinct, hextra]
          rfl
        obtain ⟨report, hreport, -⟩ := Policy.validate_of_misfit hf hmerged
        rw [Policy.override, hreport]
        exact ⟨_, rfl⟩
    | _ => exact ⟨_, rfl⟩
  | _ => exact ⟨_, rfl⟩

omit hf in
theorem accepted_predicate {name : Value} {n : Name} (hn : schemaName? name = .ok n) :
    ∃ s forge', (predicate name (.func f)).build forge = (.ok (.predicate s n f), forge') := by
  change ∃ s forge', Construct.predicate name (.func f) forge = _
  unfold Construct.predicate
  dsimp only
  rw [hn, ofExcept_ok_bind_apply]
  exact ⟨_, _, rfl⟩

end Construct.Request

/-- A function of a schema that came about by the constructors takes one argument, or is a test. -/
theorem Built.fits_or_tested {t : Schema} (ht : Built t) (hf : f ∈ t.funcs) :
    f.misfit? = none ∨ t.TestedBy f := by
  induction ht with
  | primitive p => cases hf
  | made _ hmade ih =>
    cases Construct.Request.build_makes hmade with
    | custom _ hfits =>
      cases List.mem_singleton.mp hf
      exact .inl hfits
    | predicate s _ =>
      cases List.mem_singleton.mp hf
      exact .inr (.predicate s _)
    | optional s u => exact (ih u List.mem_cons_self hf).imp_right (.optional s)
    | listOf s u => exact (ih u List.mem_cons_self hf).imp_right (.listOf s)
    | mapOf s u => exact (ih u List.mem_cons_self hf).imp_right (.mapOf s)
    | @union members ts s hitems =>
      obtain ⟨u, hu, hf⟩ := Schema.exists_of_mem_funcs_union hf
      refine (ih u ?_ hf).imp_right (.union s hu)
      change .schema u ∈ members.items?.getD []
      rw [hitems]
      exact List.mem_map_of_mem hu
    | enumeration => cases hf
    | @record name members knobs n fields policy s hreads hpolicy =>
      rcases Schema.member_or_extra_of_mem_funcs hf with ⟨m, hm, hf⟩ | hextra
      · obtain ⟨-, entries, hentries, hfields⟩ := hreads
        refine (ih m.2 ?_ hf).imp_right (.member s n policy hm)
        change .schema m.2 ∈ (members.entries?.getD []).map (·.2)
        rw [hentries, Option.getD_some, Construct.requireMembers_values hfields]
        exact List.mem_map_of_mem (f := fun m : Name × Schema => Value.schema m.2) hm
      · exact .inl (Policy.extra_fits hpolicy hextra)
    | override s s' hpolicy =>
      rcases Schema.member_or_extra_of_mem_funcs hf with ⟨m, hm, hf⟩ | hextra
      · refine (ih _ List.mem_cons_self (Schema.mem_funcs_member hm hf)).imp_right ?_
        intro htested
        cases htested with
        | member _ _ _ hm htested => exact .member s' _ _ hm htested
      · exact .inl (Policy.extra_fits hpolicy hextra)

theorem Schema.verify_predicate_of_misfit {σ : Type} (hf : f.misfit? = some why) (s : Nat)
    (n : Name) (h : Host σ) (v : Value) (state : σ) :
    (Schema.predicate s n f).verify h v state = (.error (.misfit f why), state) := by
  have hcall : h.call f v = throw (.misfit f why) := by
    unfold Host.call
    rw [hf]
  change (h.call f v >>= fun a => pure (passOr a.truthy n.text v)) state = _
  rw [hcall]
  rfl

/-- Of a schema that came about by the constructors, the misfit of a function is raised by a call
that was made, or the function is a test of the schema. -/
theorem Built.tested_of_misfit {σ : Type} {t : Schema} (ht : Built t) {h : Host σ} {v : Value}
    {s : σ} (hfault : (t.verify h v s).1 = .error (.misfit f why)) :
    (∃ before q, t.calls h v s = before ++ [⟨q, .error (.misfit f why)⟩]) ∨ t.TestedBy f := by
  rcases Schema.verify_fault hfault with hcall | ⟨g, hg, why', hmisfit, hsame⟩ | htext
  · exact .inl hcall
  · cases hsame
    rcases ht.fits_or_tested hg with hfits | htested
    · cases hmisfit.symm.trans hfits
    · exact .inr htested
  · cases htext

/-- A function that does not take one argument is refused wherever a function is looked at. It is
accepted as the test of a predicate; only such schemas, and those around them, can fail for the
reason that a function of theirs does not take the argument, and the predicate fails on every
value. -/
theorem unfit_only_as_test (hf : f.misfit? = some why) (forge : Forge) :
    (∀ name, (Construct.Request.custom name (.func f)).Refused forge) ∧
    (∀ name members knobs, knobs.lookup "extra" = some (.func f) →
      (Construct.Request.record name members knobs).Refused forge) ∧
    (∀ target knobs, knobs.Distinct → knobs.lookup "extra" = some (.func f) →
      (Construct.Request.override target knobs).Refused forge) ∧
    (∀ name n, Construct.schemaName? name = .ok n → ∃ s forge',
      (Construct.Request.predicate name (.func f)).build forge =
        (.ok (.predicate s n f), forge') ∧
      ∀ {σ : Type} (h : Host σ) (v : Value) (state : σ),
        (Schema.predicate s n f).verify h v state = (.error (.misfit f why), state)) ∧
    ∀ t, Built t →
      (f ∈ t.funcs → t.TestedBy f) ∧
      ∀ {σ : Type} (h : Host σ) (v : Value) (state : σ),
        (t.verify h v state).1 = .error (.misfit f why) →
        (∃ before q, t.calls h v state = before ++ [⟨q, .error (.misfit f why)⟩]) ∨
          t.TestedBy f := by
  refine ⟨Construct.Request.refused_custom hf forge, ?_, ?_, ?_, ?_⟩
  · intro name members knobs hextra
    exact Construct.Request.refused_record hf forge hextra name members
  · intro target knobs hdistinct hextra
    exact Construct.Request.refused_override hf forge hdistinct hextra target
  · intro name n hn
    obtain ⟨s, forge', hbuild⟩ := Construct.Request.accepted_predicate forge hn
    exact ⟨s, forge', hbuild, fun h v state => Schema.verify_predicate_of_misfit hf s n h v state⟩
  · intro t ht
    refine ⟨fun hmem => ?_, fun h v state hfault => ht.tested_of_misfit hfault⟩
    rcases ht.fits_or_tested hmem with hfits | htested
    · cases hf.symm.trans hfits
    · exact htested

def twoArguments : Func :=
  ⟨.function "binary", some [⟨"a", .positional, true⟩, ⟨"b", .positional, true⟩], 0⟩

def binaryPredicate : Schema := .predicate 0 "p" twoArguments

theorem binaryPredicate_built : Built binaryPredicate :=
  @Built.made (.predicate (.ofString "p") (.func twoArguments)) {} _ (fun _ => nofun) rfl

theorem unfit_only_as_test_binary :
    twoArguments.misfit? = some (.missing ["b"]) ∧
    (Construct.Request.record (.ofString "S") (.ofFields [])
      [("extra", .func twoArguments)]).Refused {} ∧
    binaryPredicate.TestedBy twoArguments ∧
    ∃ s forge', (Construct.Request.predicate (.ofString "p") (.func twoArguments)).build {} =
        (.ok (.predicate s "p" twoArguments), forge') ∧
      ∀ (h : Host Unit) (v : Value) (state : Unit),
        (Schema.predicate s "p" twoArguments).verify h v state =
          (.error (.misfit twoArguments (.missing ["b"])), state) := by
  have hf : twoArguments.misfit? = some (.missing ["b"]) := by decide
  obtain ⟨-, hrecord, -, hpredicate, hbuilt⟩ := unfit_only_as_test hf {}
  obtain ⟨s, forge', hbuild, hverify⟩ := hpredicate (.ofString "p") "p" rfl
  refine ⟨hf, hrecord _ _ _ rfl, ?_, s, forge', hbuild, fun h v state => hverify h v state⟩
  exact (hbuilt binaryPredicate binaryPredicate_built).1 List.mem_cons_self

end Conformance

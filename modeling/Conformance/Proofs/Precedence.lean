/- What decides the check of a record where much is wrong with a value: no mapping at all, then the
   first declared member that is not in order, then the other keys. Only where nothing of this is in
   the way is the function on the whole asked, once and about the value itself. -/
import Conformance.Proofs.Agreement
import Conformance.Proofs.Conformity
import Conformance.Proofs.Fitting
namespace Conformance

variable {σ : Type}

namespace Declared

variable {s : Nat} {n : Name} {members : List (Name × Schema)} {policy : Policy}

theorem extra_fits (h : Declared (.record s n members policy)) {f : Func}
    (hf : policy.extra = some f) : f.misfit? = none := by
  cases h with
  | record _ _ hok =>
    obtain ⟨_, _, _, _, _, hvalid, heq⟩ := Construct.record_eq_ok hok
    cases heq
    exact Policy.extra_fits hvalid hf
  | override hdeclared hok =>
    obtain ⟨_, _, _, _, rfl, _⟩ := hdeclared.names_nodup
    obtain ⟨_, _, hvalid, heq⟩ := Construct.override_eq_ok hok
    cases heq
    exact Policy.extra_fits hvalid hf

end Declared

theorem Host.recording_call (h : Host σ) {f : Func} (hf : f.misfit? = none) (v : Value)
    (state : σ × List FuncCall) :
    h.recording.call f v state = ((h.call f v state.1).1, (h.call f v state.1).2,
      state.2 ++ [⟨(f, v), (h.call f v state.1).1⟩]) := by
  unfold Host.call
  rw [hf]
  rfl

theorem Schema.settles_recording {h : Host σ} {t : Schema} {v : Value} {r : Except Fault Verdict}
    (hv : Settles (t.verify h v) r) : Settles (t.verify h.recording v) r := by
  intro state
  have hcalls : ∀ f ∈ t.funcs, ∀ w,
      Simulates (fun (state : σ × List FuncCall) s => state.1 = s) (h.recording.call f w)
        (h.call f w) := by
    refine fun f _ w => .call fun state s hstate => ?_
    cases hstate
    exact ⟨rfl, rfl⟩
  exact (Schema.simulates_verify hcalls v state state.1 rfl).1.trans (hv state.1)

theorem Schema.run_of_recording {h : Host σ} {t : Schema} {v : Value} {state : σ}
    {outcome : Except Fault Verdict} {state' : σ × List FuncCall}
    (hrun : t.verify h.recording v (state, []) = (outcome, state')) :
    (t.verify h v state).1 = outcome ∧ t.calls h v state = state'.2 := by
  refine ⟨?_, congrArg (fun run => run.2.2) hrun⟩
  rw [(Schema.verify_recording h t v state).1] at hrun
  exact congrArg Prod.fst hrun

namespace Record

section Order

variable (judge : Schema → Value → Verdict) (total : Bool) (entries : List (Value × Value))
variable (m : Name × Schema)

/-- A declared member is in order: there is nothing against what is there, and it is there if it has
to be. -/
def MemberPasses : Prop :=
  (∀ x, lookup? (.ofString m.1.text) entries = some x → judge m.2 x = none) ∧
  (total = true → ∃ x, lookup? (.ofString m.1.text) entries = some x)

/-- What is said about a declared member that is not. -/
inductive MemberFault : String → Prop
  | rejected {x reason text} : lookup? (.ofString m.1.text) entries = some x →
      judge m.2 x = some reason → reason.plainText? = .ok text →
      MemberFault (s!"in member '{m.1.text}'" ++ ": " ++ text)
  | missing : lookup? (.ofString m.1.text) entries = none → total = true →
      MemberFault s!"missing member '{m.1.text}'"

end Order

/-- Where the check of a record stops. -/
inductive Stop
  /-- Nothing is wrong, and there is nothing more to ask. -/
  | passed
  | told (text : String)
  /-- Nothing is wrong unless this function has something to say about the whole. -/
  | whole (f : Func)

/-- The stop that a value leads to. Members go by the order of their declaration, other keys by the
order of the value. -/
inductive StopsAt (judge : Schema → Value → Verdict) (n : Name) (members : List (Name × Schema))
    (policy : Policy) (v : Value) : Stop → Prop
  | noMapping : v.entries? = none → StopsAt judge n members policy v (.told (v.mismatch n.text))
  | member {entries before m after text} : v.entries? = some entries →
      members = before ++ m :: after → (∀ k ∈ before, MemberPasses judge policy.total entries k) →
      MemberFault judge policy.total entries m text → StopsAt judge n members policy v (.told text)
  | unrecognized {entries keys shown} : v.entries? = some entries →
      (∀ m ∈ members, MemberPasses judge policy.total entries m) → policy.unknown = false →
      undeclaredKeys (members.map (·.1.text)) entries = keys → keys ≠ [] →
      List.Forall₂ (fun key text => Value.line? false key = .ok text) keys shown →
      StopsAt judge n members policy v (.told
        (unrecognizedText (", ".intercalate shown) (nameList (members.map (·.1.text)))))
  | passed {entries} : v.entries? = some entries →
      (∀ m ∈ members, MemberPasses judge policy.total entries m) →
      (policy.unknown = false → undeclaredKeys (members.map (·.1.text)) entries = []) →
      policy.extra = none → StopsAt judge n members policy v .passed
  | whole {entries f} : v.entries? = some entries →
      (∀ m ∈ members, MemberPasses judge policy.total entries m) →
      (policy.unknown = false → undeclaredKeys (members.map (·.1.text)) entries = []) →
      policy.extra = some f → StopsAt judge n members policy v (.whole f)

variable {judge : Schema → Value → Verdict} {total : Bool} {entries : List (Value × Value)}

section Members

variable {m : Name × Schema}

theorem memberPasses_iff : MemberPasses judge total entries m ↔
    memberVerdict (fun x => .ok (judge m.2 x)) total entries m.1.text = .ok none := by
  rw [memberVerdict_eq_none_iff]
  simp only [MemberPasses, Except.ok.injEq]

theorem MemberFault.verdict {text : String} (h : MemberFault judge total entries m text) :
    memberVerdict (fun x => .ok (judge m.2 x)) total entries m.1.text = .ok (.because text) := by
  unfold memberVerdict
  cases h with
  | rejected hx hreason htext =>
    rw [hx]
    change under _ (judge m.2 _) = _
    rw [hreason, under, htext]
    rfl
  | missing hx htotal =>
    rw [hx, htotal]
    rfl

theorem MemberPasses.of_found {x : Value}
    (hx : lookup? (.ofString m.1.text) entries = some x) (hnone : judge m.2 x = none) :
    MemberPasses judge total entries m := by
  refine ⟨fun x' hx' => ?_, fun _ => ⟨x, hx⟩⟩
  cases hx.symm.trans hx'
  exact hnone

theorem exists_memberFault (hshown : ∀ x, (judge m.2 x).Shown)
    (h : ¬ MemberPasses judge total entries m) :
    ∃ text, MemberFault judge total entries m text := by
  cases hx : lookup? (.ofString m.1.text) entries with
  | none =>
    cases total with
    | true => exact ⟨_, .missing hx rfl⟩
    | false =>
      refine absurd ⟨fun x hx' => ?_, nofun⟩ h
      cases hx.symm.trans hx'
  | some x =>
    rcases (hshown x).cases with ⟨hnone, -⟩ | ⟨reason, text, hreason, htext, -⟩
    · exact absurd (.of_found hx hnone) h
    · exact ⟨_, .rejected hx hreason htext⟩

end Members

/-- These are the keys that no member is named for, each once, in the order of the mapping. -/
structure Lists (members : List (Name × Schema)) (entries : List (Value × Value))
    (keys : List Value) : Prop where
  ordered : keys.Sublist (entries.map (·.1))
  mem_iff : ∀ e ∈ entries, e.1 ∈ keys ↔ ∀ m ∈ members, ∀ l, e.1 ≠ .text l m.1.text
  once : KeysDiffer entries → keys.Pairwise fun k l => k.same l = false

theorem lists_undeclaredKeys (members : List (Name × Schema)) (entries : List (Value × Value)) :
    Lists members entries (undeclaredKeys (members.map (·.1.text)) entries) where
  ordered := List.filter_sublist
  mem_iff e he := by
    have hkey : e.1 ∈ entries.map (·.1) := List.mem_map_of_mem he
    simp [undeclaredKeys, hkey, Value.ofString_same_iff, -Bool.not_eq_true]
  once hdiffer := List.Pairwise.filter _ hdiffer

section Keys

variable {keys : List Value}

theorem exists_shown (h : ∀ key ∈ keys, ∃ text, Value.line? false key = .ok text) :
    ∃ shown, List.Forall₂ (fun key text => Value.line? false key = .ok text) keys shown := by
  induction keys with
  | nil => exact ⟨[], .nil⟩
  | cons key keys ih =>
    obtain ⟨⟨text, hkey⟩, hkeys⟩ := List.forall_mem_cons.mp h
    obtain ⟨shown, hshown⟩ := ih hkeys
    exact ⟨text :: shown, .cons hkey hshown⟩

theorem joinKeys?_shown {shown : List String}
    (h : List.Forall₂ (fun key text => Value.line? false key = .ok text) keys shown) :
    joinKeys? keys = .ok (", ".intercalate shown) := by
  have hlines : Value.lines? false keys = .ok shown := by
    induction h with
    | nil => rfl
    | cons hkey _ ih =>
      rw [Value.lines?, hkey, ih]
      rfl
  rw [joinKeys?, hlines]
  rfl

end Keys

variable {n : Name} {members : List (Name × Schema)} {policy : Policy} {v : Value}

theorem exists_stopsAt (hshown : ∀ m ∈ members, ∀ x, (judge m.2 x).Shown)
    (hkeys : ∀ entries, v.entries? = some entries →
      ∀ e ∈ entries, ∃ text, Value.line? false e.1 = .ok text) :
    ∃ stop, StopsAt judge n members policy v stop := by
  cases hentries : v.entries? with
  | none => exact ⟨_, .noMapping hentries⟩
  | some entries =>
    rcases forall_or_first (MemberPasses judge policy.total entries) members with
      hall | ⟨before, m, after, hsplit, hbefore, hm⟩
    · by_cases hlisted : policy.unknown = false ∧
          undeclaredKeys (members.map (·.1.text)) entries ≠ []
      · obtain ⟨hunknown, hne⟩ := hlisted
        have htexts : ∀ key ∈ undeclaredKeys (members.map (·.1.text)) entries,
            ∃ text, Value.line? false key = .ok text := by
          intro key hkey
          obtain ⟨e, he, rfl⟩ := mem_of_mem_undeclaredKeys hkey
          exact hkeys entries hentries e he
        obtain ⟨shown, hshown⟩ := exists_shown htexts
        exact ⟨_, .unrecognized hentries hall hunknown rfl hne hshown⟩
      · have hnone : policy.unknown = false →
            undeclaredKeys (members.map (·.1.text)) entries = [] :=
          fun hunknown => not_not.mp fun hne => hlisted ⟨hunknown, hne⟩
        cases hf : policy.extra with
        | none => exact ⟨_, .passed hentries hall hnone hf⟩
        | some f => exact ⟨_, .whole hentries hall hnone hf⟩
    · obtain ⟨text, hfault⟩ := exists_memberFault (hshown m (hsplit ▸ by simp)) hm
      exact ⟨_, .member hentries hsplit hbefore hfault⟩

def guardVerdict (judge : Schema → Value → Verdict) (members : List (Name × Schema))
    (total unknown : Bool) (entries : List (Value × Value)) : Except Fault Verdict :=
  followedBy
    (firstReason (fun m => memberVerdict (fun x => .ok (judge m.2 x)) total entries m.1.text)
      members)
    (if unknown then .ok none else keysVerdict (members.map (·.1.text)) entries)

theorem guardVerdict_eq_none_iff {unknown : Bool} :
    guardVerdict judge members total unknown entries = .ok none ↔
      (∀ m ∈ members, MemberPasses judge total entries m) ∧
      (unknown = false → undeclaredKeys (members.map (·.1.text)) entries = []) := by
  rw [guardVerdict, followedBy_eq_none_iff, firstReason_eq_none_iff, optionalKeys_eq_none_iff]
  simp only [memberPasses_iff]

namespace StopsAt

theorem told_guardVerdict {text : String}
    (h : StopsAt judge n members policy v (.told text)) (hentries : v.entries? = some entries) :
    guardVerdict judge members policy.total policy.unknown entries = .ok (.because text) := by
  refine (followedBy_eq_iff (by simp)).mpr ?_
  cases h with
  | noMapping hnone => cases hentries.symm.trans hnone
  | member hentries' hsplit hbefore hfault =>
    cases hentries.symm.trans hentries'
    refine .inl ((firstReason_eq_iff (by simp)).mpr ⟨_, _, _, hsplit, ?_, hfault.verdict⟩)
    exact fun k hk => memberPasses_iff.mp (hbefore k hk)
  | unrecognized hentries' hall hunknown hkeys hne hshown =>
    cases hentries.symm.trans hentries'
    have hpass := firstReason_eq_none_iff.mpr fun m hm => memberPasses_iff.mp (hall m hm)
    refine .inr ⟨hpass, ?_⟩
    rw [hunknown, if_neg Bool.false_ne_true, keysVerdict_cons hkeys hne, joinKeys?_shown hshown]
    rfl

end StopsAt

/-- The checks of a mapping before the whole is looked at. -/
def guard (members : List (String × Verifier σ)) (total unknown : Bool)
    (entries : List (Value × Value)) : CallM σ Verdict :=
  firstStep (firstError (checkMember total entries) members ::
    if unknown then [] else [checkUnknown members entries])

theorem firstStep_singleton (step : CallM σ Verdict) : firstStep [step] = step := by
  refine (bind_congr fun verdict => ?_).trans (bind_pure step)
  cases verdict <;> rfl

theorem settles_guard {h : Host σ} {unknown : Bool}
    (hjudge : ∀ m ∈ members, ∀ x, Settles (m.2.verify h x) (.ok (judge m.2 x))) :
    Settles (guard (Schema.memberVerifiers h members) total unknown entries)
      (guardVerdict judge members total unknown entries) := by
  rw [Schema.memberVerifiers_eq_map]
  refine settles_firstStep_cons ?_ ?_
  · rw [firstError_map]
    exact settles_firstError fun m hm => settles_checkMember (fun x _ => hjudge m hm x) total
  cases unknown with
  | true => exact .pure none
  | false =>
    have hkeys := settles_checkUnknown (members.map fun m => (m.1.text, m.2.verify h)) entries
    rw [List.map_map] at hkeys
    change Settles (firstStep [_]) _
    rw [firstStep_singleton]
    exact hkeys

theorem firstStep_append (steps more : List (CallM σ Verdict)) :
    firstStep (steps ++ more) = firstStep steps >>= fun verdict =>
      match verdict with
      | none => firstStep more
      | some reason => pure (some reason) := by
  induction steps with
  | nil => rw [List.nil_append, firstStep, pure_bind]
  | cons step steps ih =>
    rw [List.cons_append, firstStep, firstStep, bind_assoc]
    refine bind_congr fun verdict => ?_
    cases verdict with
    | none => exact ih
    | some reason => rw [pure_bind]

section Runs

variable {h : Host σ} {state state' : σ} (s : Nat)

theorem verify_noMapping (hentries : v.entries? = none) :
    (Schema.record s n members policy).verify h v state =
      (.ok (.because (s!"in struct '{n.text}'" ++ ": " ++ v.mismatch n.text)), state) := by
  change verify h n.text (Schema.memberVerifiers h members) policy v state = _
  unfold verify
  rw [hentries]
  rfl

theorem verify_eq_guard (hentries : v.entries? = some entries) :
    (Schema.record s n members policy).verify h v =
      (guard (Schema.memberVerifiers h members) policy.total policy.unknown entries >>=
        fun verdict => match verdict with
        | none => firstStep (match policy.extra with
          | none => []
          | some f => [return .ofAnswer (← h.call f v)])
        | some reason => pure (some reason)) >>= inContext s!"in struct '{n.text}'" := by
  change verify h n.text (Schema.memberVerifiers h members) policy v = _
  unfold verify guard
  rw [hentries, ← firstStep_append]
  rfl

theorem verify_stopped {verdict : Verdict} (hentries : v.entries? = some entries)
    (hguard : guard (Schema.memberVerifiers h members) policy.total policy.unknown entries state =
      (.ok verdict, state')) (hstop : verdict = none → policy.extra = none) :
    (Schema.record s n members policy).verify h v state =
      (under s!"in struct '{n.text}'" verdict, state') := by
  rw [verify_eq_guard s hentries, bind_apply, bind_apply, hguard]
  cases verdict with
  | none =>
    rw [hstop rfl]
    rfl
  | some reason =>
    change inContext _ (some reason) state' = _
    rw [inContext_eq]
    exact bind_ofExcept_apply (pure (some reason)) (under _) state'

theorem verify_asked {f : Func} (hentries : v.entries? = some entries)
    (hguard : guard (Schema.memberVerifiers h members) policy.total policy.unknown entries state =
      (.ok none, state')) (hf : policy.extra = some f) :
    (Schema.record s n members policy).verify h v state =
      ((h.call f v state').1 >>= fun a => under s!"in struct '{n.text}'" (.ofAnswer a),
        (h.call f v state').2) := by
  have hwhole : (h.call f v >>= fun a => pure (Verdict.ofAnswer a)) >>=
      inContext s!"in struct '{n.text}'" =
      h.call f v >>= fun a => ofExcept (under s!"in struct '{n.text}'" (.ofAnswer a)) := by
    rw [bind_assoc]
    refine bind_congr fun a => ?_
    rw [pure_bind, inContext_eq]
  rw [← bind_ofExcept_apply, ← hwhole, verify_eq_guard s hentries, hf, bind_assoc, bind_apply,
    hguard]
  change (firstStep _ >>= inContext _) state' = _
  rw [firstStep_singleton]

end Runs

section Calls

variable {h : Host σ} (s : Nat) (state : σ)
variable (hjudge : ∀ m ∈ members, ∀ x, Settles (m.2.verify h x) (.ok (judge m.2 x)))
include hjudge

theorem guard_recorded {unknown : Bool} : ∃ state',
    guard (Schema.memberVerifiers h.recording members) total unknown entries (state, []) =
      (guardVerdict judge members total unknown entries, state') :=
  ⟨_, Prod.ext (settles_guard (fun m hm x => Schema.settles_recording (hjudge m hm x)) _) rfl⟩

/-- Where the whole is not asked about, the calls are those of the record without a function for
it. -/
theorem calls_of_stopped {verdict : Verdict} (hentries : v.entries? = some entries)
    (hguard : guardVerdict judge members policy.total policy.unknown entries = .ok verdict)
    (hstop : verdict = none → policy.extra = none) :
    (Schema.record s n members policy).calls h v state =
      (Schema.record s n members { policy with extra := none }).calls h v state ∧
    ((Schema.record s n members policy).verify h v state).1 =
      under s!"in struct '{n.text}'" verdict := by
  obtain ⟨state', hrun⟩ := guard_recorded state hjudge
  rw [hguard] at hrun
  obtain ⟨hresult, hcalls⟩ := Schema.run_of_recording (verify_stopped s hentries hrun hstop)
  have hbare : (Schema.record s n members { policy with extra := none }).verify h.recording v
      (state, []) = (under _ verdict, state') := verify_stopped s hentries hrun fun _ => rfl
  exact ⟨hcalls.trans (Schema.run_of_recording hbare).2.symm, hresult⟩

/-- Where it is asked about, there is one call more, about the value itself. -/
theorem calls_of_asked {f : Func} (hdeclared : Declared (.record s n members policy))
    (hentries : v.entries? = some entries)
    (hguard : guardVerdict judge members policy.total policy.unknown entries = .ok none)
    (hf : policy.extra = some f) :
    ∃ outcome, (Schema.record s n members policy).calls h v state =
        (Schema.record s n members { policy with extra := none }).calls h v state ++
          [⟨(f, v), outcome⟩] ∧
      ((Schema.record s n members policy).verify h v state).1 =
        outcome >>= fun a => under s!"in struct '{n.text}'" (.ofAnswer a) := by
  obtain ⟨state', hrun⟩ := guard_recorded state hjudge
  rw [hguard] at hrun
  obtain ⟨hresult, hcalls⟩ := Schema.run_of_recording (verify_asked s hentries hrun hf)
  have hbare : (Schema.record s n members { policy with extra := none }).verify h.recording v
      (state, []) = (under s!"in struct '{n.text}'" none, state') :=
    verify_stopped s hentries hrun fun _ => rfl
  rw [h.recording_call (hdeclared.extra_fits hf)] at hresult hcalls
  refine ⟨_, ?_, hresult⟩
  rw [(Schema.run_of_recording hbare).2]
  exact hcalls

end Calls

end Record

namespace Schema

/-- However much is wrong with a value, the check of a record tells the first thing only. The
function on the whole is called where nothing is told, with the value itself, after all other calls;
where something is told, it is not called. -/
theorem verify_stopsAt {h : Host σ} {judge : Schema → Value → Verdict} {s : Nat} {n : Name}
    {members : List (Name × Schema)} {policy : Policy} {v : Value}
    (hdeclared : Declared (.record s n members policy))
    (hjudge : ∀ m ∈ members, ∀ x,
      Settles (m.2.verify h x) (.ok (judge m.2 x)) ∧ (judge m.2 x).Shown)
    (hkeys : ∀ entries, v.entries? = some entries →
      ∀ e ∈ entries, ∃ text, Value.line? false e.1 = .ok text) (state : σ) :
    let t := Schema.record s n members policy
    let others := (Schema.record s n members { policy with extra := none }).calls h v state
    let StopsAt := Record.StopsAt judge n members policy v
    (∃ stop, StopsAt stop) ∧
    (∀ text, StopsAt (.told text) → t.calls h v state = others ∧
      (t.verify h v state).1 = .ok (.because (s!"in struct '{n.text}'" ++ ": " ++ text))) ∧
    (StopsAt .passed → t.calls h v state = others ∧ (t.verify h v state).1 = .ok none) ∧
    (∀ f, StopsAt (.whole f) → ∃ outcome, t.calls h v state = others ++ [⟨(f, v), outcome⟩] ∧
      (t.verify h v state).1 =
        outcome >>= fun a => under s!"in struct '{n.text}'" (.ofAnswer a)) ∧
    (v.entries? = none → others = []) ∧
    ∀ entries, v.entries? = some entries →
      Record.Lists members entries (Record.undeclaredKeys (members.map (·.1.text)) entries) := by
  intro t others StopsAt
  have hsettles : ∀ m ∈ members, ∀ x, Settles (m.2.verify h x) (.ok (judge m.2 x)) :=
    fun m hm x => (hjudge m hm x).1
  refine ⟨Record.exists_stopsAt (fun m hm x => (hjudge m hm x).2) hkeys, ?_, ?_, ?_, ?_, ?_⟩
  · intro text hstop
    cases hentries : v.entries? with
    | some entries =>
      exact Record.calls_of_stopped s state hsettles hentries (hstop.told_guardVerdict hentries)
        nofun
    | none =>
      cases hstop with
      | noMapping _ =>
        obtain ⟨hresult, hcalls⟩ := run_of_recording (Record.verify_noMapping s hentries)
        obtain ⟨-, hothers⟩ := run_of_recording (Record.verify_noMapping s hentries)
        exact ⟨hcalls.trans hothers.symm, hresult⟩
      | member hsome _ _ _ => cases hentries.symm.trans hsome
      | unrecognized hsome _ _ _ _ _ => cases hentries.symm.trans hsome
  · intro hstop
    cases hstop with
    | passed hentries hall hnone hf =>
      have hguard := Record.guardVerdict_eq_none_iff.mpr ⟨hall, hnone⟩
      exact Record.calls_of_stopped s state hsettles hentries hguard fun _ => hf
  · intro f hstop
    cases hstop with
    | whole hentries hall hnone hf =>
      have hguard := Record.guardVerdict_eq_none_iff.mpr ⟨hall, hnone⟩
      exact Record.calls_of_asked s state hsettles hdeclared hentries hguard hf
  · intro hentries
    exact (run_of_recording (Record.verify_noMapping s hentries)).2
  · exact fun entries _ => Record.lists_undeclaredKeys members entries

def strictMembers : List (Name × Schema) := [("a", .primitive .int), ("b", .primitive .string)]

/-- Two members and no other keys, and a function on the whole. -/
def strictPair : Schema :=
  .record 0 "S" strictMembers { unknown := false, extra := some (sample 0) }

def discontent : Host Unit := .ofAnswers fun _ _ => .ok (.ofString "no")

def primitiveJudge : Schema → Value → Verdict
  | .primitive p, v => passOr (p.accepts v) p.name v
  | _, _ => none

theorem strictPair_declared : Declared strictPair := by
  have hkeys : KeysDiffer
      [(.ofString "a", .schema (.primitive .int)), (.ofString "b", .schema (.primitive .string))] :=
    List.pairwise_pair.mpr rfl
  have hmade : (Construct.record (.ofString "S")
      (.mapping (.plain .base)
        [(.ofString "a", .schema (.primitive .int)), (.ofString "b", .schema (.primitive .string))])
      [("unknown", .bool false), ("extra", .func (sample 0))] {}).1 = .ok strictPair := rfl
  exact .record rfl hkeys hmade

theorem strictMembers_judged : ∀ m ∈ strictMembers, ∀ x,
    Settles (m.2.verify discontent x) (.ok (primitiveJudge m.2 x)) ∧
      (primitiveJudge m.2 x).Shown := by
  have hjudged : ∀ (p : Primitive) (x : Value),
      Settles ((Schema.primitive p).verify discontent x)
        (.ok (primitiveJudge (.primitive p) x)) ∧ (primitiveJudge (.primitive p) x).Shown :=
    fun p x => ⟨.pure _, fun reason hreason => (passOr_isMessage hreason).hasText⟩
  exact List.forall_mem_cons.mpr ⟨hjudged .int,
    List.forall_mem_singleton.mpr (hjudged .string)⟩

/-- The second member is there and wrong, and so is another key; the first member is not there. -/
def allWrong : Value := .ofFields [("z", .ofInt 1), ("b", .ofInt 2)]

def strangerOnly : Value := .ofFields [("z", .ofInt 1), ("b", .ofString "x"), ("a", .ofInt 1)]

def wholeOnly : Value := .ofFields [("b", .ofString "x"), ("a", .ofInt 1)]

/-- With each thing that is put right the next one shows. -/
theorem verify_stopsAt_strictPair :
    (strictPair.calls discontent allWrong () = [] ∧
      (strictPair.verify discontent allWrong ()).1 =
        .ok (.because "in struct 'S': missing member 'a'")) ∧
    (strictPair.calls discontent strangerOnly () = [] ∧
      (strictPair.verify discontent strangerOnly ()).1 = .ok (.because
        "in struct 'S': keys ['z'] are unrecognized, expected keys are ['a', 'b']")) ∧
    ∃ outcome, strictPair.calls discontent wholeOnly () = [⟨(sample 0, wholeOnly), outcome⟩] := by
  have hdecided := fun (v : Value) (hv : v.keysShown = true) =>
    verify_stopsAt (v := v) strictPair_declared strictMembers_judged
      (fun _ hentries _ he => (Value.keysShown_entry hv hentries he).1) ()
  refine ⟨?_, ?_, ?_⟩
  · obtain ⟨-, htold, -⟩ := hdecided allWrong rfl
    exact htold _ (.member rfl (List.nil_append _).symm (by simp) (.missing rfl rfl))
  · obtain ⟨-, htold, -⟩ := hdecided strangerOnly rfl
    have hmembers : ∀ m ∈ strictMembers, Record.MemberPasses primitiveJudge true
        [(.ofString "z", .ofInt 1), (.ofString "b", .ofString "x"), (.ofString "a", .ofInt 1)] m :=
      List.forall_mem_cons.mpr ⟨.of_found rfl rfl,
        List.forall_mem_singleton.mpr (.of_found rfl rfl)⟩
    have hz : Value.line? false (.ofString "z") = .ok "'z'" :=
      congrArg Except.ok (by decide +kernel : literalText "z".toList = "'z'")
    obtain ⟨hcalls, hresult⟩ := htold _
      (.unrecognized rfl hmembers rfl rfl (List.cons_ne_nil _ _) (.cons hz .nil))
    refine ⟨hcalls, hresult.trans ?_⟩
    exact congrArg (fun text => Except.ok (Verdict.because text)) (by decide +kernel)
  · obtain ⟨-, -, -, hasked, -⟩ := hdecided wholeOnly rfl
    have hmembers : ∀ m ∈ strictMembers, Record.MemberPasses primitiveJudge true
        [(.ofString "b", .ofString "x"), (.ofString "a", .ofInt 1)] m :=
      List.forall_mem_cons.mpr ⟨.of_found rfl rfl,
        List.forall_mem_singleton.mpr (.of_found rfl rfl)⟩
    obtain ⟨outcome, hcalls, -⟩ := hasked _ (.whole rfl hmembers (fun _ => rfl) rfl)
    exact ⟨outcome, hcalls⟩

end Schema

end Conformance

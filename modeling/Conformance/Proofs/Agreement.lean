/- A record and the model made of it accept the same data. The model reports all that is wrong at
   once, and the report tells the one thing that the record says. -/
import Conformance.Proofs.Contents
import Conformance.Proofs.Declaration
import Conformance.Proofs.Reaching
namespace Conformance

variable {σ α : Type}

theorem settles_ofCall {x : CallM σ α} {r : Except Fault α} (h : Settles x r) :
    Settles (Run.ofCall x) r := fun s => h s.host

def Verdict.text? (verdict : Verdict) : Option String :=
  verdict.bind fun reason => reason.plainText?.toOption

def Verdict.Shown (verdict : Verdict) : Prop := ∀ reason, verdict = some reason → reason.HasText

theorem Verdict.Shown.cases {verdict : Verdict} (h : verdict.Shown) :
    verdict = none ∧ verdict.text? = none ∨
      ∃ reason text, verdict = some reason ∧ reason.plainText? = .ok text ∧
        verdict.text? = some text := by
  cases verdict with
  | none => exact .inl ⟨rfl, rfl⟩
  | some reason =>
    obtain ⟨text, htext⟩ := h reason rfl
    refine .inr ⟨reason, text, rfl, htext, ?_⟩
    rw [Verdict.text?, Option.bind_some, htext]
    rfl

theorem under_of_shown {verdict : Verdict} (h : verdict.Shown) (context : String) :
    under context verdict =
      .ok (verdict.text?.map fun text => .ofString s!"{context}: {text}") := by
  rcases h.cases with ⟨rfl, htext⟩ | ⟨reason, text, rfl, hreason, htext⟩
  · rfl
  · rw [htext, under, hreason]
    rfl

namespace Finding

/-- What a finding on a field, or on the whole, stands for in the words of a record. -/
def said? : Finding → Option String
  | .missing key => some s!"missing member '{key}'"
  | .invalid [key] text =>
    let context := s!"in member '{key}'"
    some s!"{context}: {text}"
  | .invalid [] text => some text
  | _ => none

def undeclared? : Finding → Option String
  | .undeclared key => some key
  | _ => none

end Finding

/-- What a report stands for in the words of a record: the first finding decides, unless it is about
an undeclared key. Then all are, and their keys are listed. -/
def told? (declared : List String) : List Finding → Option String
  | [] => none
  | finding :: rest =>
    match finding.said? with
    | some text => some text
    | none => ((finding :: rest).mapM Finding.undeclared?).map fun keys =>
        Record.unrecognizedText (Record.nameList keys) (Record.nameList declared)

theorem told?_of_said {declared : List String} {finding : Finding} {text : String}
    (h : finding.said? = some text) (rest : List Finding) :
    told? declared (finding :: rest) = some text := by
  rw [told?, h]

theorem told?_undeclared (declared : List String) {keys : List String} (hne : keys ≠ []) :
    told? declared (keys.map .undeclared) =
      some (Record.unrecognizedText (Record.nameList keys) (Record.nameList declared)) := by
  have hkeys : ∀ keys : List String, (keys.map Finding.undeclared).mapM Finding.undeclared? =
      some keys := by
    intro keys
    induction keys with
    | nil => rfl
    | cons key keys ih =>
      rw [List.map_cons, List.mapM_cons, ih]
      rfl
  cases keys with
  | nil => exact absurd rfl hne
  | cons key keys =>
    change ((List.map Finding.undeclared (key :: keys)).mapM Finding.undeclared?).map _ = _
    rw [hkeys]
    rfl

example : told? ["x"] [.undeclared "b", .undeclared "a"] =
    some "keys ['b', 'a'] are unrecognized, expected keys are ['x']" := by
  decide +kernel

namespace Model

theorem settles_examine_ok {x : Run σ Unit} (h : Settles x (.ok ())) (path : List String) :
    Settles (examine path x) (.ok []) :=
  .tryCatch_ok (.bind_ok h (.pure [])) _

theorem findingsOf_rejected (path : List String) (reason : Value) :
    findingsOf path (.rejected reason) =
      reason.plainText?.map fun text => [.invalid path text] := by
  cases htext : reason.plainText? with
  | ok text =>
    rw [findingsOf, Fault.text?, htext]
    rfl
  | error fault =>
    rw [findingsOf, Fault.text?, htext]
    rfl

theorem settles_examine_rejected {x : Run σ Unit} {reason : Value} {text : String}
    (h : Settles x (.error (.rejected reason))) (htext : reason.plainText? = .ok text)
    (path : List String) : Settles (examine path x) (.ok [.invalid path text]) := by
  refine .tryCatch_error (h.bind_error _) ?_
  rw [findingsOf_rejected, htext]
  exact .ofExcept _

def memberFinding? (judge : Schema → Value → Verdict) (total : Bool)
    (given : List (String × Value)) (m : Name × Schema) : Option Finding :=
  match given.lookup m.1.text with
  | some v => (judge m.2 v).text?.map (.invalid [m.1.text])
  | none => if total then some (.missing m.1.text) else none

/-- The schema of a field comes to a verdict on what is given for it, and it can be shown. -/
def Judged (h : Host σ) (judge : Schema → Value → Verdict) (given : List (String × Value))
    (m : Name × Schema) : Prop :=
  ∀ v, given.lookup m.1.text = some v →
    Settles (m.2.verify h v) (.ok (judge m.2 v)) ∧ (judge m.2 v).Shown

variable {h : Host σ} {judge : Schema → Value → Verdict} {given : List (String × Value)}

theorem settles_check_pass {t : Schema} {v : Value} (hv : Settles (t.verify h v) (.ok none)) :
    Settles (t.check h v) (.ok v) :=
  (settles_ofCall hv).bind_ok (.pure v)

theorem settles_check_reject {t : Schema} {v reason : Value}
    (hv : Settles (t.verify h v) (.ok (some reason))) :
    Settles (t.check h v) (.error (.rejected reason)) := by
  refine (settles_ofCall hv).bind_ok ?_
  have hnote : Settles (Run.ofBuild (Build.note (.checkFailed t.name)) : Run σ Unit) (.ok ()) :=
    fun _ => rfl
  exact hnote.bind_ok (.throw _)

theorem fieldFindings_cons (h : Host σ) (total : Bool) (given : List (String × Value))
    (m : Name × Schema) (fields : List (Name × Schema)) :
    fieldFindings h total given (m :: fields) =
      (match given.lookup m.1.text with
        | some v => examine [m.1.text] (do let _ ← m.2.check h v)
        | none => pure (if total then [.missing m.1.text] else [])) >>= fun found =>
      fieldFindings h total given fields >>= fun rest => pure (found ++ rest) := by
  rw [fieldFindings]
  cases given.lookup m.1.text <;> rfl

theorem settles_field (total : Bool) {m : Name × Schema} (hjudge : Judged h judge given m) :
    Settles (match given.lookup m.1.text with
      | some v => examine [m.1.text] (do let _ ← m.2.check h v)
      | none => pure (if total then [.missing m.1.text] else []))
      (.ok (memberFinding? judge total given m).toList) := by
  unfold memberFinding?
  cases hgiven : given.lookup m.1.text with
  | none => cases total <;> exact .pure _
  | some v =>
    obtain ⟨hsettles, hshown⟩ := hjudge v hgiven
    rcases hshown.cases with ⟨hnone, htext⟩ | ⟨reason, text, hsome, hreason, htext⟩
    · rw [hnone] at hsettles
      dsimp only
      rw [htext]
      exact settles_examine_ok ((settles_check_pass hsettles).bind_ok (.pure ())) _
    · rw [hsome] at hsettles
      dsimp only
      rw [htext]
      exact settles_examine_rejected ((settles_check_reject hsettles).bind_error _) hreason _

theorem settles_fieldFindings (total : Bool) {fields : List (Name × Schema)}
    (hjudge : ∀ m ∈ fields, Judged h judge given m) :
    Settles (fieldFindings h total given fields)
      (.ok (fields.filterMap (memberFinding? judge total given))) := by
  induction fields with
  | nil => exact .pure []
  | cons m fields ih =>
    obtain ⟨hm, hfields⟩ := List.forall_mem_cons.mp hjudge
    have happend : (m :: fields).filterMap (memberFinding? judge total given) =
        (memberFinding? judge total given m).toList ++
          fields.filterMap (memberFinding? judge total given) := by
      rw [List.filterMap_cons]
      cases memberFinding? judge total given m <;> rfl
    rw [happend, fieldFindings_cons]
    exact (settles_field total hm).bind_ok ((ih hfields).bind_ok (.pure _))

def memberOutcome (judge : Schema → Value → Verdict) (total : Bool) (d : Data)
    (m : Name × Schema) : Except Fault Verdict :=
  Record.memberVerdict (fun v => .ok (judge m.2 v)) total
    (d.map fun e => (.ofName e.1, e.2)) m.1.text

theorem memberOutcome_said (total : Bool) {d : Data} {m : Name × Schema}
    (hjudge : Judged h judge d.arguments m) :
    (memberFinding? judge total d.arguments m = none ∧ memberOutcome judge total d m = .ok none) ∨
    ∃ finding text, memberFinding? judge total d.arguments m = some finding ∧
      finding.said? = some text ∧ memberOutcome judge total d m = .ok (.because text) := by
  unfold memberFinding? memberOutcome Record.memberVerdict
  rw [Data.lookup?_mapping]
  cases hgiven : d.arguments.lookup m.1.text with
  | none =>
    cases total with
    | true => exact .inr ⟨_, _, rfl, rfl, rfl⟩
    | false => exact .inl ⟨rfl, rfl⟩
  | some v =>
    have hunder := under_of_shown (hjudge v hgiven).2 s!"in member '{m.1.text}'"
    change (_ ∧ under _ (judge m.2 v) = _) ∨ ∃ finding text, _ ∧ _ ∧ under _ (judge m.2 v) = _
    rw [hunder]
    dsimp only
    cases (judge m.2 v).text? with
    | none => exact .inl ⟨rfl, rfl⟩
    | some text => exact .inr ⟨_, _, rfl, rfl, rfl⟩

/-- The first reason on the members is what the first finding on the fields stands for. -/
theorem firstReason_said (total : Bool) {d : Data} {members : List (Name × Schema)}
    (hjudge : ∀ m ∈ members, Judged h judge d.arguments m) :
    (members.filterMap (memberFinding? judge total d.arguments) = [] ∧
      firstReason (memberOutcome judge total d) members = .ok none) ∨
    ∃ finding rest text,
      members.filterMap (memberFinding? judge total d.arguments) = finding :: rest ∧
      finding.said? = some text ∧
      firstReason (memberOutcome judge total d) members = .ok (.because text) := by
  induction members with
  | nil => exact .inl ⟨rfl, rfl⟩
  | cons m members ih =>
    obtain ⟨hm, hmembers⟩ := List.forall_mem_cons.mp hjudge
    rcases memberOutcome_said total hm with ⟨hnone, hpass⟩ | ⟨finding, text, hsome, hsaid, hstop⟩
    · rw [List.filterMap_cons_none hnone, firstReason_cons_pass hpass]
      exact ih hmembers
    · rw [List.filterMap_cons_some hsome, firstReason_cons_stop (by simp [hstop]), hstop]
      exact .inr ⟨finding, _, text, rfl, hsaid, rfl⟩

def strangers (members : List (Name × Schema)) (d : Data) : Data :=
  d.filter fun e => !members.any (·.1.text == e.1.text)

theorem undeclaredKeys_eq (members : List (Name × Schema)) (d : Data) :
    Record.undeclaredKeys (members.map (·.1.text)) (d.map fun e => (.ofName e.1, e.2)) =
      ((strangers members d).map (·.1)).map .ofName := by
  rw [Record.undeclaredKeys, List.map_map, List.filter_map, List.map_map]
  simp only [List.any_map]
  rfl

def refused (m : Model) (given : List (String × Value)) : List Finding :=
  if m.unknown then [] else (m.surplus given).map fun g => .undeclared g.1

theorem refused_eq (m : Model) (d : Data) : m.refused d.arguments =
    if m.unknown then [] else ((strangers m.fields d).map (·.1.text)).map .undeclared := by
  rw [refused, surplus, Data.arguments, List.filter_map, List.map_map, List.map_map]
  rfl

theorem construct_eq (h : Host σ) (m : Model) (given : List (String × Value)) :
    m.construct h given = fieldFindings h m.total given m.fields >>= fun found =>
      match found ++ m.refused given with
      | [] => examine [] (checkInvariant h m given) >>= fun broken =>
        match broken with
        | [] => pure (m.instance? given)
        | first :: rest => throw (.reported ⟨m.name, first :: rest, List.cons_ne_nil first rest⟩)
      | first :: rest => throw (.reported ⟨m.name, first :: rest, List.cons_ne_nil first rest⟩) :=
  rfl

theorem settles_construct_reported {m : Model} {found : List Finding}
    (hfound : Settles (fieldFindings h m.total given m.fields) (.ok found))
    (hne : found ++ m.refused given ≠ []) :
    Settles (m.construct h given) (.error (.reported ⟨m.name, found ++ m.refused given, hne⟩)) := by
  rw [construct_eq]
  refine hfound.bind_ok ?_
  generalize found ++ m.refused given = all at hne
  cases all with
  | nil => exact absurd rfl hne
  | cons first rest => exact .throw _

theorem settles_construct_passed {m : Model}
    (hfound : Settles (fieldFindings h m.total given m.fields) (.ok []))
    (hrefused : m.refused given = [])
    (hwhole : Settles (examine [] (checkInvariant h m given)) (.ok [])) :
    Settles (m.construct h given) (.ok (m.instance? given)) := by
  rw [construct_eq]
  refine hfound.bind_ok ?_
  rw [hrefused]
  exact hwhole.bind_ok (.pure _)

theorem settles_construct_broken {m : Model} {finding : Finding}
    (hfound : Settles (fieldFindings h m.total given m.fields) (.ok []))
    (hrefused : m.refused given = [])
    (hwhole : Settles (examine [] (checkInvariant h m given)) (.ok [finding])) :
    Settles (m.construct h given)
      (.error (.reported ⟨m.name, [finding], List.cons_ne_nil finding []⟩)) := by
  rw [construct_eq]
  refine hfound.bind_ok ?_
  rw [hrefused]
  exact hwhole.bind_ok (.throw _)

/-- The verdict on the whole, if there is a function for that and this is its answer. -/
def wholeVerdict (invariant : Option Func) (a : Value) : Verdict :=
  match invariant with
  | none => none
  | some _ => .ofAnswer a

theorem settles_examine_whole {m : Model} {a : Value}
    (hcall : ∀ f, m.invariant = some f → a.HasText ∧
      ∃ w, m.invariantArgument? given = .ok w ∧ Settles (h.call f w) (.ok a)) :
    Settles (examine [] (checkInvariant h m given))
      (.ok ((wholeVerdict m.invariant a).text?.map (.invalid [])).toList) := by
  unfold checkInvariant
  cases hinvariant : m.invariant with
  | none => exact settles_examine_ok (.pure ()) []
  | some f =>
    obtain ⟨hspeaks, w, hw, hf⟩ := hcall f hinvariant
    have hshown : (Verdict.ofAnswer a).Shown :=
      fun reason hreason => Verdict.ofAnswer_eq_some hreason ▸ hspeaks
    dsimp only [wholeVerdict]
    rw [hw]
    rcases hshown.cases with ⟨hnone, htext⟩ | ⟨reason, text, hsome, hreason, htext⟩
    · rw [htext]
      refine settles_examine_ok (.bind_ok (.ofExcept _) (.bind_ok (settles_ofCall hf) ?_)) []
      rw [hnone]
      exact .pure ()
    · rw [htext]
      refine settles_examine_rejected
        (.bind_ok (.ofExcept _) (.bind_ok (settles_ofCall hf) ?_)) hreason []
      rw [hsome]
      exact .throw _

def ofRecord (n : Name) (members : List (Name × Schema)) (policy : Policy) : Model where
  name := n.text
  fields := members
  total := policy.total
  unknown := policy.unknown
  invariant := policy.extra

theorem compile?_record (s : Nat) (n : Name) {members : List (Name × Schema)} (policy : Policy)
    (hnames : ∀ m ∈ members, m.1.text ≠ invariantName) :
    compile? (.schema (.record s n members policy)) .null =
      if Char.ofNat 0 ∈ n.text.toList then .error .modelNameWithNull
      else .ok (ofRecord n members policy) := by
  have hfree : members.any (·.1.text == invariantName) = false := by
    rw [List.any_eq_false]
    exact fun m hm => by simpa using hnames m hm
  have hname : modelName? .null n.text =
      if Char.ofNat 0 ∈ n.text.toList then .error .modelNameWithNull else .ok n.text := by
    simp [modelName?, Value.truthy]
  rw [compile?, hname, hfree]
  split <;> rfl

/-- The unrecognized keys are listed as the findings on them are told. -/
theorem refused_said (n : Name) (members : List (Name × Schema)) (policy : Policy) (d : Data) :
    ((ofRecord n members policy).refused d.arguments = [] ∧
      (if policy.unknown then .ok none else Record.keysVerdict (members.map (·.1.text))
        (d.map fun e => (.ofName e.1, e.2))) = .ok none) ∨
    ∃ text, (ofRecord n members policy).refused d.arguments ≠ [] ∧
      told? (members.map (·.1.text)) ((ofRecord n members policy).refused d.arguments) =
        some text ∧
      (if policy.unknown then .ok none else Record.keysVerdict (members.map (·.1.text))
        (d.map fun e => (.ofName e.1, e.2))) = .ok (.because text) := by
  have hrefused : (ofRecord n members policy).refused d.arguments =
      if policy.unknown then [] else ((strangers members d).map (·.1.text)).map .undeclared :=
    refused_eq (ofRecord n members policy) d
  have hkeys := undeclaredKeys_eq members d
  rw [hrefused]
  cases policy.unknown with
  | true => exact .inl ⟨rfl, rfl⟩
  | false =>
    simp only [Bool.false_eq_true, if_false]
    by_cases hnone : strangers members d = []
    · rw [hnone] at hkeys ⊢
      exact .inl ⟨rfl, Record.keysVerdict_nil hkeys⟩
    · refine .inr ⟨_, by simpa using hnone, told?_undeclared _ (by simpa using hnone), ?_⟩
      rw [Record.keysVerdict_cons hkeys (by simpa using hnone), Record.joinKeys?_names,
        List.map_map]
      rfl

theorem wholeVerdict_shown {extra : Option Func} {a : Value}
    (hspeaks : ∀ f, extra = some f → a.HasText) : (wholeVerdict extra a).Shown := by
  intro reason hreason
  cases extra with
  | none => cases hreason
  | some f => exact Verdict.ofAnswer_eq_some hreason ▸ hspeaks f rfl

/-- What the record comes to: its members, its other keys, and the whole, each with the verdict that
the model goes by as well. -/
theorem settles_record {d : Data} {members : List (Name × Schema)} {policy : Policy} {a : Value}
    (hjudge : ∀ m ∈ members, Judged h judge d.arguments m) (n : Name) (kind : MappingKind)
    (hcall : ∀ f, policy.extra = some f → Settles (h.call f (d.mapping kind)) (.ok a)) (s : Nat) :
    Settles ((Schema.record s n members policy).verify h (d.mapping kind))
      (followedBy (firstReason (memberOutcome judge policy.total d) members)
        (followedBy (if policy.unknown then .ok none else Record.keysVerdict
          (members.map (·.1.text)) (d.map fun e => (.ofName e.1, e.2)))
          (.ok (wholeVerdict policy.extra a))) >>= under s!"in struct '{n.text}'") := by
  have hrest : Record.restVerdict (fun _ _ => .ok a) policy (members.map (·.1.text))
      (d.mapping kind) (d.map fun e => (.ofName e.1, e.2)) =
      followedBy (if policy.unknown then .ok none else Record.keysVerdict
        (members.map (·.1.text)) (d.map fun e => (.ofName e.1, e.2)))
        (.ok (wholeVerdict policy.extra a)) := by
    rw [Record.restVerdict]
    cases policy.extra <;> rfl
  rw [← hrest]
  refine Record.settles_verify rfl (fun m hm x hx => ?_) hcall s n
  rw [Data.lookup?_mapping] at hx
  exact (hjudge m hm x hx).1

/-- Whatever is found on the way, record and model tell the same. -/
theorem construct_tells {d : Data} {members : List (Name × Schema)} {policy : Policy} {a : Value}
    (hjudge : ∀ m ∈ members, Judged h judge d.arguments m) (n : Name) (kind : MappingKind)
    (hwhole : ∀ f, policy.extra = some f → a.HasText ∧
      Settles (h.call f (d.mapping kind)) (.ok a) ∧
      ∃ w, (ofRecord n members policy).invariantArgument? d.arguments = .ok w ∧
        Settles (h.call f w) (.ok a)) (s : Nat) :
    (Settles ((Schema.record s n members policy).verify h (d.mapping kind)) (.ok none) ∧
      Settles ((ofRecord n members policy).construct h d.arguments)
        (.ok ((ofRecord n members policy).instance? d.arguments))) ∨
    ∃ report text, told? (members.map (·.1.text)) report.findings = some text ∧
      Settles ((Schema.record s n members policy).verify h (d.mapping kind))
        (.ok (.because (s!"in struct '{n.text}'" ++ ": " ++ text))) ∧
      Settles ((ofRecord n members policy).construct h d.arguments)
        (.error (.reported report)) := by
  have hverify := settles_record hjudge n kind (fun f hf => (hwhole f hf).2.1) s
  have hfields : Settles
      (fieldFindings h (ofRecord n members policy).total d.arguments members) _ :=
    settles_fieldFindings policy.total hjudge
  -- The record stops at the first of three things: a member, the other keys, the whole.
  rcases firstReason_said policy.total hjudge with
    ⟨hnone, hpass⟩ | ⟨finding, rest, text, hsome, hsaid, hstop⟩
  · rw [hnone] at hfields
    rw [hpass] at hverify
    rcases refused_said n members policy d with ⟨hnone, hpass⟩ | ⟨text, hne, htold, hstop⟩
    · rw [hpass] at hverify
      have hexamine : Settles
          (examine [] (checkInvariant h (ofRecord n members policy) d.arguments))
          (.ok ((wholeVerdict policy.extra a).text?.map (.invalid [])).toList) :=
        settles_examine_whole fun f hf => ⟨(hwhole f hf).1, (hwhole f hf).2.2⟩
      have hshown := wholeVerdict_shown fun f hf => (hwhole f hf).1
      change Settles _ (under _ (wholeVerdict policy.extra a)) at hverify
      rw [under_of_shown hshown] at hverify
      cases htext : (wholeVerdict policy.extra a).text? with
      | none =>
        rw [htext] at hverify hexamine
        exact .inl ⟨hverify, settles_construct_passed hfields hnone hexamine⟩
      | some text =>
        rw [htext] at hverify hexamine
        exact .inr ⟨_, text, rfl, hverify, settles_construct_broken hfields hnone hexamine⟩
    · rw [hstop] at hverify
      exact .inr ⟨_, text, htold, hverify, settles_construct_reported hfields hne⟩
  · rw [hsome] at hfields
    rw [hstop] at hverify
    exact .inr ⟨_, text, told?_of_said hsaid _, hverify,
      settles_construct_reported hfields (by simp)⟩

/-- A model can be made of every record whose name has no null character in it. It makes an instance
of the data that the record has nothing to say against, and what it reports about all other data
tells what the record says. -/
theorem construct_agrees {s : Nat} {n : Name} {members : List (Name × Schema)} {policy : Policy}
    (hdeclared : Declared (.record s n members policy))
    (hnames : ∀ m ∈ members, m.1.text ≠ invariantName) {d : Data} (hdistinct : d.Distinct)
    (hplain : ∀ e ∈ d, e.2.isPlain = true)
    (hjudge : ∀ m ∈ members, Judged h judge d.arguments m) {kind : MappingKind} {a : Value}
    (hextra : ∀ f, policy.extra = some f → a.HasText ∧
      ∀ w, (d.mapping kind).SameContents w → Settles (h.call f w) (.ok a)) :
    (Char.ofNat 0 ∈ n.text.toList →
      compile? (.schema (.record s n members policy)) .null = .error .modelNameWithNull) ∧
    (Char.ofNat 0 ∉ n.text.toList →
      ∃ m, compile? (.schema (.record s n members policy)) .null = .ok m ∧ ∀ r r',
        ((∃ i, (m.construct h d.arguments r).1 = .ok i) ↔
          ((Schema.record s n members policy).verify h (d.mapping kind) r').1 = .ok none) ∧
        ∀ fault, (m.construct h d.arguments r).1 = .error fault →
          ∃ report text, fault = .reported report ∧
            told? (members.map (·.1.text)) report.findings = some text ∧
            ((Schema.record s n members policy).verify h (d.mapping kind) r').1 =
              .ok (.because (s!"in struct '{n.text}'" ++ ": " ++ text))) := by
  rw [compile?_record s n policy hnames]
  refine ⟨fun hnull => if_pos hnull, fun hnull => ⟨_, if_neg hnull, fun r r' => ?_⟩⟩
  obtain ⟨_, _, _, _, heq, hnodup⟩ := hdeclared.names_nodup
  cases heq
  have hfields : ((ofRecord n members policy).fields.map (·.1.text)).Nodup := hnodup
  have hwhole : ∀ f, policy.extra = some f → a.HasText ∧
      Settles (h.call f (d.mapping kind)) (.ok a) ∧
      ∃ w, (ofRecord n members policy).invariantArgument? d.arguments = .ok w ∧
        Settles (h.call f w) (.ok a) := by
    intro f hf
    obtain ⟨hspeaks, hcall⟩ := hextra f hf
    have hsame : (d.mapping kind).SameContents (d.mapping kind) := ⟨_, _, rfl, rfl, .refl _⟩
    obtain ⟨w, hw, hcontents⟩ := invariantArgument?_sameContents hfields hdistinct hplain kind
    exact ⟨hspeaks, hcall _ hsame, w, hw, hcall w hcontents⟩
  rcases construct_tells hjudge n kind hwhole s with
    ⟨hverify, hconstruct⟩ | ⟨report, text, htold, hverify, hconstruct⟩
  · rw [hverify r', hconstruct r]
    exact ⟨⟨fun _ => rfl, fun _ => ⟨_, rfl⟩⟩, nofun⟩
  · rw [hverify r', hconstruct r]
    refine ⟨⟨nofun, nofun⟩, fun fault hfault => ?_⟩
    exact ⟨_, text, (Except.error.inj hfault).symm, htold, rfl⟩

def quietRecord (name : String) : Schema :=
  .record 0 name [("x", .primitive .int)] { extra := some (Schema.sample 0) }

theorem quietRecord_declared {name : String} (hname : name.isEmpty = false) :
    Declared (quietRecord name) := by
  have hkeys : KeysDiffer [(.ofString "x", .schema (.primitive .int))] :=
    List.pairwise_singleton _ _
  have hmade : (Construct.record (.ofString name)
      (.mapping (.plain .base) [(.ofString "x", .schema (.primitive .int))])
      [("extra", .func (Schema.sample 0))] {}).1 = .ok (quietRecord name) := by
    simp only [Construct.record, Construct.schemaName?, hname]
    rfl
  exact .record rfl hkeys hmade

def one : Data := [("x", .ofInt 1)]

theorem construct_agrees_quiet :
    ∃ m i, compile? (.schema (quietRecord "point")) .null = .ok m ∧
      (m.construct (.ofAnswers Schema.quietOrLoud) one.arguments ⟨(), {}⟩).1 = .ok i := by
  have hjudge : ∀ m ∈ [(("x" : Name), Schema.primitive .int)],
      Judged (.ofAnswers Schema.quietOrLoud) (fun _ _ => none) one.arguments m := by
    intro m hm v hv
    cases List.mem_singleton.mp hm
    cases hv
    exact ⟨.pure none, nofun⟩
  have hextra : ∀ f, some (Schema.sample 0) = some f → Value.null.HasText ∧
      ∀ w, (one.mapping .ordered).SameContents w →
        Settles ((Host.ofAnswers Schema.quietOrLoud).call f w) (.ok .null) := by
    intro f hf
    cases hf
    have hone : (Schema.sample 0).acceptsOne = true := by decide
    exact ⟨⟨"None", rfl⟩, fun w _ => Host.ofAnswers_steady Schema.quietOrLoud hone w⟩
  have hdeclared : Declared (quietRecord "point") := quietRecord_declared (by decide)
  have hagrees := construct_agrees hdeclared (by decide) (by decide) (by decide) hjudge hextra
  obtain ⟨m, hm, hruns⟩ := hagrees.2 (by decide)
  obtain ⟨i, hi⟩ := (hruns ⟨(), {}⟩ ()).1.mpr rfl
  exact ⟨m, i, hm, hi⟩

/-- No class can have such a name. The record itself works all the same. -/
theorem compile?_null_in_name : Declared (quietRecord "po\x00nt") ∧
    ((quietRecord "po\x00nt").verify (.ofAnswers Schema.quietOrLoud) (one.mapping .ordered) ()).1 =
      .ok none ∧
    compile? (.schema (quietRecord "po\x00nt")) .null = .error .modelNameWithNull :=
  ⟨quietRecord_declared (by decide), rfl, rfl⟩

end Model

end Conformance

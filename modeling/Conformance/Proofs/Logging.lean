/- The entry points of the library, and what each use of them leaves in the log. Checks go by the
   outcome of one verification; only they, declarations and overrides are noted. -/
import Conformance.Proofs.Building
import Conformance.Proofs.Reporting
namespace Conformance

variable {σ α β : Type}

inductive Use
  | verify (t : Schema) (v : Value)
  | validate (t v : Value)
  | isValid (t : Schema) (v : Value)
  | check (t : Schema) (v : Value)
  | checkAgainst (t v : Value)
  | build (q : Construct.Request)
  | policy (knobs : Knobs)
  | compile (target asked : Value)
  | construct (m : Model) (given : List (String × Value))

inductive Reply
  | verdict (v : Verdict)
  | valid (b : Bool)
  | value (v : Value)
  | schema (t : Schema)
  | policy (p : Policy)
  | model (m : Model)
  | made (i : Instance)

def Use.perform (h : Host σ) : Use → Run σ Reply
  | .verify t v => return .verdict (← Run.ofCall (t.verify h v))
  | .validate t v => return .verdict (← Run.ofCall (validateAgainst h t v))
  | .isValid t v => return .valid (← Run.ofCall (t.isValid h v))
  | .check t v => return .value (← t.check h v)
  | .checkAgainst t v => return .value (← Conformance.checkAgainst h t v)
  | .build q => return .schema (← Run.ofBuild q.build)
  | .policy knobs => return .policy (← ofExcept (Policy.validate knobs))
  | .compile target asked => return .model (← ofExcept (Model.compile? target asked))
  | .construct m given => return .made (← m.construct h given)

/-- Uses one after another. What one of them raises is left to the caller, who goes on. -/
def Use.performAll (h : Host σ) (uses : List Use) (r : Runtime σ) : Runtime σ :=
  uses.foldl (fun r use => (use.perform h r).2) r

/-- A check answers by the outcome of the verification: with the value itself, or by raising the
reason; what the verification raised goes through. -/
def answered (v : Value) : Except Fault Verdict → Except Fault Value
  | .ok none => .ok v
  | .ok (some reason) => .error (.rejected reason)
  | .error fault => .error fault

/-- What a check notes: nothing unless there is a reason. -/
def rejection (t : Schema) : Except Fault Verdict → List LogRecord
  | .ok (some _) => [.checkFailed t.name]
  | .ok none | .error _ => []

namespace Construct

def isMember : Value × Value → Bool
  | (.text _ _, .schema _) => true
  | _ => false

/-- What a declaration notes, once members and knobs have been found valid. Where there is a member
the name has to be told by then; it need not be one that a schema can have. -/
def declaration (name members : Value) (knobs : Knobs) : List LogRecord :=
  match members.entries? with
  | none => []
  | some entries =>
    if entries.all isMember = true ∧ Policy.findings knobs = [] ∧
        (entries = [] ∨ name.plainText?.isOk = true) then [.declared name entries.length]
    else []

/-- What an override notes: the policy that it comes to, if it comes to one. -/
def overriding : Except Fault Schema → List LogRecord
  | .ok (.record _ n _ policy) =>
    [.overridden n.text policy.total policy.unknown policy.extra.isSome]
  | _ => []

def Request.noted : Request → Forge → List LogRecord
  | .record name members knobs, _ => declaration name members knobs
  | .override target knobs, forge => overriding (Construct.override target knobs forge).1
  | _, _ => []

end Construct

namespace Model

/-- The outcome of a check can be entered in the report. -/
def enters : Except Fault Verdict → Bool
  | .ok none => true
  | .ok (some reason) => reason.plainText?.isOk
  | .error fault =>
    match fault.text? with
    | none => true
    | some text => (fault.isBadValue || fault.kind = .assertion) && text.isOk

/-- The verifications of fields in their order, up to the first whose outcome cannot be entered. -/
def fieldCalls (h : Host σ) : List ((Name × Schema) × Value) → σ → List FieldCall
  | [], _ => []
  | q :: qs, s =>
    let (outcome, s') := verifyField h q s
    ⟨q, outcome⟩ :: if enters outcome then fieldCalls h qs s' else []

def rejections (calls : List FieldCall) : List LogRecord :=
  calls.flatMap fun c => rejection c.argument.1.2 c.outcome

end Model

/-- What a use leaves in the log. -/
def Use.noted (h : Host σ) : Use → Runtime σ → List LogRecord
  | .check t v, r | .checkAgainst (.schema t) v, r => rejection t (t.verify h v r.host).1
  | .build q, r => q.noted r.forge
  | .construct m given, r =>
    Model.rejections (Model.fieldCalls h (Model.askedFields given m.fields) r.host)
  | _, _ => []

def Use.notedAll (h : Host σ) : List Use → Runtime σ → List LogRecord
  | [], _ => []
  | use :: uses, r => use.noted h r ++ notedAll h uses (use.perform h r).2

def Keeps (part : σ → β) (x : CallM σ α) : Prop := ∀ s, part (x s).2 = part s

namespace Keeps

variable {γ : Type} {part : σ → γ}

theorem pure (a : α) : Keeps part (pure a : CallM σ α) := fun _ => rfl

theorem ofExcept (r : Except Fault α) : Keeps part (ofExcept r : CallM σ α) := by
  intro s
  cases r <;> rfl

theorem bind {x : CallM σ α} {f : α → CallM σ β} (hx : Keeps part x)
    (hf : ∀ a, Keeps part (f a)) : Keeps part (x >>= f) := by
  intro s
  have hs := hx s
  rw [bind_apply]
  cases hrun : x s with
  | mk result s' =>
    rw [hrun] at hs
    cases result with
    | error fault => exact hs
    | ok a => exact (hf a s').trans hs

theorem fresh : Keeps Forge.log Build.fresh := fun _ => rfl

theorem ofCall (x : CallM σ α) : Keeps Runtime.forge (Run.ofCall x) := fun _ => rfl

end Keeps

namespace Construct

theorem keeps_around (what : String) (inner : Value) (former : Nat → Schema → Schema) :
    Keeps Forge.log (do
      let t ← ofExcept (requireSchema what inner)
      return former (← Build.fresh) t : Build Schema) :=
  (Keeps.ofExcept _).bind fun _ => Keeps.fresh.bind fun _ => .pure _

theorem keeps_custom (name verifier : Value) : Keeps Forge.log (custom name verifier) := by
  refine (Keeps.ofExcept _).bind fun n => ?_
  cases verifier with
  | func f =>
    dsimp only
    split
    next => exact .pure _
    next => exact .ofExcept (.error _)
  | _ => exact .ofExcept (.error _)

theorem keeps_predicate (name test : Value) : Keeps Forge.log (predicate name test) := by
  cases test with
  | func f => exact (Keeps.ofExcept _).bind fun n => Keeps.fresh.bind fun s => .pure _
  | _ => exact (Keeps.ofExcept _).bind fun text => .ofExcept (.error _)

theorem keeps_union (members : Value) : Keeps Forge.log (union members) := by
  unfold union
  cases members.items? with
  | none => exact .ofExcept (.error _)
  | some items => exact (Keeps.ofExcept _).bind fun ts => Keeps.fresh.bind fun s => .pure _

theorem keeps_enumeration (name elems : Value) : Keeps Forge.log (enumeration name elems) := by
  unfold enumeration
  cases collection? elems with
  | none => exact .ofExcept (.error _)
  | some items =>
    cases items with
    | nil => exact (Keeps.ofExcept _).bind fun text => .ofExcept (.error _)
    | cons item items => exact (Keeps.ofExcept _).bind fun n => Keeps.fresh.bind fun s => .pure _

theorem requireMembers_ok {name : Value} {text : String} (hname : name.plainText? = .ok text)
    {entries : List (Value × Value)} (h : entries.all isMember = true) :
    ∃ fields, requireMembers name entries = .ok fields := by
  induction entries with
  | nil => exact ⟨[], rfl⟩
  | cons e entries ih =>
    rw [List.all_cons, Bool.and_eq_true] at h
    obtain ⟨he, hentries⟩ := h
    obtain ⟨fields, hfields⟩ := ih hentries
    unfold isMember at he
    split at he
    next l k t =>
      refine ⟨(⟨l, k⟩, t) :: fields, ?_⟩
      unfold requireMembers
      dsimp only
      rw [hname, hfields]
      rfl
    next => cases he

theorem isMember_of_requireMembers {name : Value} {entries : List (Value × Value)}
    {fields : List (Name × Schema)} (h : requireMembers name entries = .ok fields) :
    entries.all isMember = true := by
  have hkeys := requireMembers_keys h
  have hvalues := requireMembers_values h
  refine List.all_eq_true.mpr fun e he => ?_
  obtain ⟨key, v⟩ := e
  have hkey : key ∈ entries.map (·.1) := List.mem_map_of_mem (f := Prod.fst) he
  have hv : v ∈ entries.map (·.2) := List.mem_map_of_mem (f := Prod.snd) he
  rw [hkeys] at hkey
  rw [hvalues] at hv
  obtain ⟨m, -, rfl⟩ := List.mem_map.mp hkey
  obtain ⟨k, -, rfl⟩ := List.mem_map.mp hv
  rfl

section Declaration

variable {name members : Value} {entries : List (Value × Value)}

theorem declaration_of_unread {fault : Fault} (hentries : members.entries? = some entries)
    (hfields : requireMembers name entries = .error fault) (knobs : Knobs) :
    declaration name members knobs = [] := by
  unfold declaration
  rw [hentries]
  refine if_neg ?_
  rintro ⟨hmembers, -, rfl | htold⟩
  · cases hfields
  · cases hname : name.plainText? with
    | error fault' =>
      rw [hname] at htold
      cases htold
    | ok text =>
      obtain ⟨fields, hok⟩ := requireMembers_ok hname hmembers
      cases hfields.symm.trans hok

/-- The name is told to look at the first entry. -/
theorem told_of_requireMembers {fields : List (Name × Schema)}
    (hfields : requireMembers name entries = .ok fields) :
    entries = [] ∨ name.plainText?.isOk = true := by
  cases entries with
  | nil => exact .inl rfl
  | cons e entries =>
    obtain ⟨key, v⟩ := e
    cases hname : name.plainText? with
    | ok text => exact .inr rfl
    | error fault =>
      unfold requireMembers at hfields
      rw [hname] at hfields
      cases key <;> cases hfields

theorem declaration_of_read {fields : List (Name × Schema)}
    (hentries : members.entries? = some entries)
    (hfields : requireMembers name entries = .ok fields) (knobs : Knobs) :
    declaration name members knobs =
      if Policy.findings knobs = [] then [.declared name fields.length] else [] := by
  have hlength : entries.length = fields.length := by
    have hkeys := congrArg List.length (requireMembers_keys hfields)
    rw [List.length_map, List.length_map] at hkeys
    exact hkeys
  unfold declaration
  rw [hentries]
  simp [isMember_of_requireMembers hfields, told_of_requireMembers hfields, hlength]

/-- What follows the note of a declaration may refuse the name, but notes nothing more. -/
theorem record_log (name members : Value) (knobs : Knobs) (forge : Forge) :
    (record name members knobs forge).2.log = forge.log ++ declaration name members knobs := by
  unfold record
  cases hentries : members.entries? with
  | none =>
    have hkeeps : Keeps Forge.log (do
        throw (.recordNotMapping (← MonadExcept.ofExcept name.plainText?) members.className) :
        Build Schema) := (Keeps.ofExcept _).bind fun text => .ofExcept (.error _)
    unfold declaration
    rw [hentries, List.append_nil]
    exact hkeeps forge
  | some entries =>
    dsimp only
    cases hfields : requireMembers name entries with
    | error fault =>
      rw [declaration_of_unread hentries hfields, List.append_nil, ofExcept_error_bind_apply]
    | ok fields =>
      rw [declaration_of_read hentries hfields, ofExcept_ok_bind_apply]
      unfold Policy.validate
      cases Policy.findings knobs with
      | cons finding found => exact (List.append_nil _).symm
      | nil =>
        rw [if_pos rfl]
        have hrest : Keeps Forge.log (do
            let _ ← MonadExcept.ofExcept name.plainText?
            let n ← MonadExcept.ofExcept (schemaName? name)
            return .record (← Build.fresh) n fields (Policy.ofKnobs knobs) : Build Schema) :=
          (Keeps.ofExcept _).bind fun text => (Keeps.ofExcept _).bind fun n =>
            Keeps.fresh.bind fun s => .pure _
        exact hrest _

end Declaration

/-- Without members the name is not told before the note. -/
example : record (.object "Broken" .refused 0) (.mapping (.plain .base) []) [] {} =
    (.error .noText, { log := [.declared (.object "Broken" .refused 0) 0] }) := by rfl

theorem override_log (target : Value) (knobs : Knobs) (forge : Forge) :
    (override target knobs forge).2.log =
      forge.log ++ overriding (override target knobs forge).1 := by
  cases target with
  | schema t =>
    cases t with
    | record s n members policy =>
      unfold override
      dsimp only
      split
      next => exact (List.append_nil _).symm
      next =>
        cases policy.override knobs with
        | error fault =>
          rw [ofExcept_error_bind_apply]
          exact (List.append_nil _).symm
        | ok policy' => rfl
    | _ => exact (List.append_nil _).symm
  | _ => exact (List.append_nil _).symm

theorem Request.build_log (q : Request) (forge : Forge) :
    (q.build forge).2.log = forge.log ++ q.noted forge := by
  have hquiet : ∀ {x : Build Schema}, Keeps Forge.log x → (x forge).2.log = forge.log ++ [] := by
    intro x hx
    rw [List.append_nil]
    exact hx forge
  cases q with
  | custom name verifier => exact hquiet (keeps_custom name verifier)
  | predicate name test => exact hquiet (keeps_predicate name test)
  | optional inner => exact hquiet (keeps_around _ inner .optional)
  | listOf inner => exact hquiet (keeps_around _ inner .listOf)
  | mapOf inner => exact hquiet (keeps_around _ inner .mapOf)
  | union members => exact hquiet (keeps_union members)
  | enumeration name elems => exact hquiet (keeps_enumeration name elems)
  | record name members knobs => exact record_log name members knobs forge
  | override target knobs => exact override_log target knobs forge

end Construct

section Checks

variable (h : Host σ) (t : Schema) (v : Value) (r : Runtime σ)

theorem Schema.check_apply :
    t.check h v r = (answered v (t.verify h v r.host).1,
      { host := (t.verify h v r.host).2
        forge := { r.forge with log := r.forge.log ++ rejection t (t.verify h v r.host).1 } }) := by
  have hcall : Run.ofCall (t.verify h v) r =
      ((t.verify h v r.host).1, { r with host := (t.verify h v r.host).2 }) := rfl
  unfold Schema.check
  rw [bind_apply, hcall]
  match (t.verify h v r.host).1 with
  | .ok none =>
    dsimp only [rejection]
    rw [List.append_nil]
    rfl
  | .ok (some reason) => rfl
  | .error fault =>
    dsimp only [rejection]
    rw [List.append_nil]
    rfl

theorem Schema.isValid_apply (s : σ) :
    t.isValid h v s = ((t.verify h v s).1.map Option.isNone, (t.verify h v s).2) :=
  bind_pure_apply (t.verify h v) Option.isNone s

end Checks

namespace Model

variable {h : Host σ} {r r' : Runtime σ}

theorem examine_state (path : List String) (x : Run σ Unit) (r : Runtime σ) :
    (examine path x r).2 = (x r).2 := by
  cases hx : x r with
  | mk result r' =>
    cases result with
    | ok u => rw [examine_passed hx]
    | error fault => rw [examine_raised hx]

theorem enters_of_findings {fault : Fault} (hfound : fault.findings ≠ []) :
    enters (.error fault) = true := by
  cases fault with
  | reported report => rfl
  | complained complaint => rfl
  | _ => exact absurd rfl hfound

theorem enters_of_entered {path : List String} {outcome : Except Fault Verdict}
    {entries : List Finding} (hentered : Entered path outcome entries) :
    enters outcome = true := by
  cases hentered with
  | passed => rfl
  | rejected htext => simp [enters, htext, Except.isOk, Except.toBool]
  | found hfound => exact enters_of_findings hfound
  | badValue _ hbad htext => simp [enters, hbad, htext, Except.isOk, Except.toBool]
  | asserted _ hassertion htext => simp [enters, hassertion, htext, Except.isOk, Except.toBool]

theorem enters_of_escapes {outcome : Except Fault Verdict} {fault : Fault}
    (hescapes : Escapes outcome fault) : enters outcome = false := by
  cases hescapes with
  | foreign hfound hbad hassertion =>
    obtain ⟨text, htext⟩ := exists_text hfound
    simp [enters, htext, hbad, hassertion]
  | noReason htext => simp [enters, htext, Except.isOk, Except.toBool]
  | noText _ _ htext => simp [enters, htext, Except.isOk, Except.toBool]

theorem field_log {m : Name × Schema} {v : Value} {outcome : Except Fault Verdict}
    {result : Except Fault (List Finding)} (hcall : verifyField h (m, v) r.host = (outcome, r'.host))
    (hrun : examine [m.1.text] (do let _ ← m.2.check h v) r = (result, r')) :
    r'.forge.log = r.forge.log ++ rejection m.2 outcome := by
  have hstate := examine_state [m.1.text] (do let _ ← m.2.check h v) r
  rw [hrun, bind_pure_apply, Schema.check_apply] at hstate
  have houtcome : (m.2.verify h v r.host).1 = outcome := congrArg Prod.fst hcall
  rw [houtcome] at hstate
  exact congrArg (fun r : Runtime σ => r.forge.log) hstate

theorem fieldFindings_log (h : Host σ) (total : Bool) (given : List (String × Value))
    (fields : List (Name × Schema)) (r : Runtime σ) :
    (fieldFindings h total given fields r).2.forge.log =
      r.forge.log ++ rejections (fieldCalls h (askedFields given fields) r.host) := by
  induction fields generalizing r with
  | nil => exact (List.append_nil _).symm
  | cons m fields ih =>
    rw [fieldFindings_cons, bind_apply]
    cases hm : given.lookup m.1.text with
    | none =>
      rw [askedFields_absent hm]
      change ((fieldFindings h total given fields >>= fun rest => pure _) r).2.forge.log = _
      rw [bind_pure_apply]
      exact ih r
    | some v =>
      rw [askedFields_given hm]
      obtain ⟨outcome, r', hcall, hends⟩ := field_run h m v r
      -- The next field is verified only if the outcome of this one can be entered.
      rcases hends with ⟨entries, hentries, hrun⟩ | ⟨fault, hescapes, hrun⟩
      · dsimp only
        rw [hrun]
        dsimp only
        rw [bind_pure_apply]
        refine (ih r').trans ?_
        rw [field_log hcall hrun, fieldCalls, hcall, List.append_assoc]
        dsimp only
        rw [if_pos (enters_of_entered hentries)]
        rfl
      · dsimp only
        rw [hrun]
        refine (field_log hcall hrun).trans ?_
        rw [fieldCalls, hcall]
        dsimp only
        rw [if_neg (by rw [enters_of_escapes hescapes]; exact Bool.false_ne_true)]
        exact congrArg (r.forge.log ++ ·) (List.append_nil _).symm

theorem keeps_checkInvariant (h : Host σ) (m : Model) (given : List (String × Value)) :
    Keeps Runtime.forge (checkInvariant h m given) := by
  unfold checkInvariant
  cases m.invariant with
  | none => exact .pure _
  | some f =>
    refine (Keeps.ofExcept _).bind fun argument => (Keeps.ofCall _).bind fun a => ?_
    cases Verdict.ofAnswer a with
    | none => exact .pure _
    | some reason => exact .ofExcept (.error _)

/-- The invariant is no schema, and what it has against an instance is not noted. -/
theorem construct_log (h : Host σ) (m : Model) (given : List (String × Value)) (r : Runtime σ) :
    (m.construct h given r).2.forge.log =
      r.forge.log ++ rejections (fieldCalls h (askedFields given m.fields) r.host) := by
  have hexamine : Keeps Runtime.forge (examine [] (checkInvariant h m given)) := by
    intro r
    rw [examine_state]
    exact keeps_checkInvariant h m given r
  rw [construct_eq, bind_apply, ← fieldFindings_log h m.total]
  cases fieldFindings h m.total given m.fields r with
  | mk result r' =>
    cases result with
    | error fault => rfl
    | ok found =>
      dsimp only
      cases found ++ m.refused given with
      | cons finding findings => rfl
      | nil =>
        refine congrArg Forge.log (Keeps.bind hexamine (fun broken => ?_) r')
        cases broken with
        | nil => exact .pure _
        | cons finding findings => exact .ofExcept (.error _)

end Model

namespace Use

theorem perform_log (h : Host σ) (use : Use) (r : Runtime σ) :
    (use.perform h r).2.forge.log = r.forge.log ++ use.noted h r := by
  have hreply : ∀ {α : Type} (x : Run σ α) (reply : α → Reply),
      ((x >>= fun a => pure (reply a)) r).2.forge.log = (x r).2.forge.log := by
    intro α x reply
    rw [bind_pure_apply]
  have hquiet : ∀ {α : Type} {x : Run σ α} (reply : α → Reply), Keeps Runtime.forge x →
      ((x >>= fun a => pure (reply a)) r).2.forge.log = r.forge.log ++ [] := by
    intro α x reply hx
    rw [hreply, hx r, List.append_nil]
  cases use with
  | verify t v => exact hquiet _ (.ofCall _)
  | validate t v => exact hquiet _ (.ofCall _)
  | isValid t v => exact hquiet _ (.ofCall _)
  | policy knobs => exact hquiet _ (.ofExcept _)
  | compile target asked => exact hquiet _ (.ofExcept _)
  | check t v =>
    refine (hreply (t.check h v) .value).trans ?_
    rw [Schema.check_apply]
    rfl
  | checkAgainst t v =>
    cases t with
    | schema t =>
      refine (hreply (t.check h v) .value).trans ?_
      rw [Schema.check_apply]
      rfl
    | _ => exact (List.append_nil _).symm
  | build q => exact (hreply (Run.ofBuild q.build) .schema).trans (q.build_log r.forge)
  | construct m given =>
    exact (hreply (m.construct h given) .made).trans (m.construct_log h given r)

/-- Use after use, the log grows by what each of them notes. -/
theorem performAll_log (h : Host σ) (uses : List Use) (r : Runtime σ) :
    (performAll h uses r).forge.log = r.forge.log ++ notedAll h uses r := by
  induction uses generalizing r with
  | nil => exact (List.append_nil _).symm
  | cons use uses ih =>
    change (performAll h uses (use.perform h r).2).forge.log = _
    rw [ih, perform_log, List.append_assoc]
    rfl

end Use

/-- All entry points go by the outcome of one verification, and the log tells what they were used
for: the checks that raised a reason, also those of fields; the declarations whose members and knobs
were found valid; and the overrides that succeeded. -/
theorem uses_agree_and_are_noted (h : Host σ) :
    (∀ (t : Schema) (v : Value) (r : Runtime σ),
      (t.check h v r).1 = answered v (t.verify h v r.host).1 ∧
      (t.check h v r).2.host = (t.verify h v r.host).2 ∧
      checkAgainst h (.schema t) v = t.check h v ∧
      validateAgainst h (.schema t) v = t.verify h v ∧
      t.isValid h v r.host =
        ((t.verify h v r.host).1.map Option.isNone, (t.verify h v r.host).2)) ∧
    (∀ reason : Value, (Fault.rejected reason).kind = .rejection ∧
      (Fault.rejected reason).text? = some reason.plainText?) ∧
    ∀ (uses : List Use) (r : Runtime σ),
      (Use.performAll h uses r).forge.log = r.forge.log ++ Use.notedAll h uses r := by
  refine ⟨fun t v r => ?_, fun reason => ⟨rfl, rfl⟩, Use.performAll_log h⟩
  have hcheck := Schema.check_apply h t v r
  refine ⟨?_, ?_, rfl, rfl, Schema.isValid_apply h t v r.host⟩
  · rw [hcheck]
  · rw [hcheck]

def oneMember : List (Value × Value) := [(.ofString "a", .schema (.primitive .int))]

/-- Where the name has no text, a declaration ends at the first member, before it is noted. -/
theorem declaration_unnoted :
    oneMember.all Construct.isMember = true ∧ Policy.findings [] = [] ∧
    Construct.record (.object "Broken" .refused 0) (.mapping (.plain .base) oneMember) [] {} =
      (.error .noText, {}) :=
  ⟨rfl, rfl, rfl⟩

end Conformance

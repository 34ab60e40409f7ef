/- What the two passes over a sequence can come to when answers change between them: a reason that
   ended the first pass is gone if nothing is found in the second. -/
import Conformance.Proofs.Recording
import Conformance.Proofs.Reaching
namespace Conformance

variable {σ α β : Type}

/-- Calls about these items that all come to the same. -/
def uniform (b : β) (xs : List α) : List (Call α β) := xs.map (Call.mk · (.ok b))

/-- The calls of passes in which nothing is found: a quiet pass, or one that a single item ended and
a quiet one after it. -/
inductive Unheard (nothing : β) (xs : List α) : List (Call α β) → Prop
  | quiet : Unheard nothing xs (uniform nothing xs)
  | lost {before x after b} : xs = before ++ x :: after → b ≠ nothing →
      Unheard nothing xs (uniform nothing before ++ ⟨x, .ok b⟩ :: uniform nothing xs)

theorem bind_inContext_eq_ok_iff {s s' : σ} {check : CallM σ Verdict} {context : String}
    {verdict' : Verdict} :
    (check >>= inContext context) s = (.ok verdict', s') ↔
      ∃ verdict, check s = (.ok verdict, s') ∧ under context verdict = .ok verdict' := by
  rw [bind_run_eq_ok_iff]
  constructor
  · rintro ⟨verdict, s₁, hcheck, hcontext⟩
    rw [inContext_eq, ofExcept_run_eq_ok_iff] at hcontext
    obtain ⟨hunder, rfl⟩ := hcontext
    exact ⟨verdict, hcheck, hunder⟩
  · rintro ⟨verdict, hcheck, hunder⟩
    refine ⟨verdict, s', hcheck, ?_⟩
    rw [inContext_eq, ofExcept_run_eq_ok_iff]
    exact ⟨hunder, rfl⟩

section FirstError

variable {verify : α → CallM σ Verdict} {xs : List α} {s s' : σ}

theorem allPass_eq_true_iff :
    allPass verify xs s = (.ok true, s') ↔ Threaded verify (uniform none xs) s s' := by
  induction xs generalizing s with
  | nil =>
    rw [allPass, pure_run_eq_ok_iff, uniform, List.map_nil, Threaded.nil_iff, eq_self, true_and]
  | cons x xs ih =>
    rw [allPass, bind_run_eq_ok_iff, uniform, List.map_cons, Threaded.cons_iff]
    constructor
    · rintro ⟨verdict, s₁, hx, hrest⟩
      cases verdict with
      | none => exact ⟨s₁, hx, ih.mp hrest⟩
      | some reason => cases hrest
    · rintro ⟨s₁, hx, hxs⟩
      exact ⟨none, s₁, hx, ih.mpr hxs⟩

theorem allPass_eq_false_iff :
    allPass verify xs s = (.ok false, s') ↔ ∃ before x after verdict, xs = before ++ x :: after ∧
      verdict ≠ none ∧ Threaded verify (uniform none before ++ [⟨x, .ok verdict⟩]) s s' := by
  induction xs generalizing s with
  | nil => simp [allPass, pure_run_eq_ok_iff]
  | cons x xs ih =>
    rw [allPass, bind_run_eq_ok_iff]
    constructor
    · rintro ⟨verdict, s₁, hx, hrest⟩
      cases verdict with
      | none =>
        obtain ⟨before, y, after, verdict, rfl, hne, hcalls⟩ := ih.mp hrest
        exact ⟨x :: before, y, after, verdict, rfl, hne, .cons hx hcalls⟩
      | some reason =>
        cases hrest
        exact ⟨[], x, xs, some reason, rfl, by simp, .cons hx (.nil _)⟩
    · rintro ⟨before, y, after, verdict, hxs, hne, hcalls⟩
      cases before with
      | nil =>
        cases hxs
        obtain ⟨s₁, hx, hnil⟩ := Threaded.cons_iff.mp hcalls
        cases Threaded.nil_iff.mp hnil
        cases verdict with
        | none => exact absurd rfl hne
        | some reason => exact ⟨some reason, _, hx, rfl⟩
      | cons z before =>
        cases hxs
        obtain ⟨s₁, hx, hcalls⟩ := Threaded.cons_iff.mp hcalls
        exact ⟨none, s₁, hx, ih.mpr ⟨before, y, after, verdict, rfl, hne, hcalls⟩⟩

theorem searchReason_eq_none_iff :
    searchReason verify xs s = (.ok none, s') ↔ Threaded verify (uniform none xs) s s' := by
  induction xs generalizing s with
  | nil =>
    rw [searchReason, pure_run_eq_ok_iff, uniform, List.map_nil, Threaded.nil_iff, eq_self,
      true_and]
  | cons x xs ih =>
    rw [searchReason, bind_run_eq_ok_iff, uniform, List.map_cons, Threaded.cons_iff]
    constructor
    · rintro ⟨verdict, s₁, hx, hrest⟩
      cases verdict with
      | none => exact ⟨s₁, hx, ih.mp hrest⟩
      | some reason => cases hrest
    · rintro ⟨s₁, hx, hxs⟩
      exact ⟨none, s₁, hx, ih.mpr hxs⟩

theorem firstError_eq_none_iff :
    firstError verify xs s = (.ok none, s') ↔
      ∃ calls, Unheard none xs calls ∧ Threaded verify calls s s' := by
  rw [firstError, bind_run_eq_ok_iff]
  constructor
  · rintro ⟨passes, s₁, hall, hrest⟩
    cases passes with
    | true =>
      cases hrest
      exact ⟨_, .quiet, allPass_eq_true_iff.mp hall⟩
    | false =>
      obtain ⟨before, x, after, verdict, hxs, hne, hfirst⟩ := allPass_eq_false_iff.mp hall
      have hagain : Threaded verify (uniform none xs) s₁ s' := searchReason_eq_none_iff.mp hrest
      -- The second pass asks all items again, from the state that the first one left.
      refine ⟨_, .lost hxs hne, ?_⟩
      rw [← List.singleton_append, ← List.append_assoc]
      exact Threaded.append_iff.mpr ⟨s₁, hfirst, hagain⟩
  · rintro ⟨calls, hunheard, hcalls⟩
    cases hunheard with
    | quiet => exact ⟨true, s', allPass_eq_true_iff.mpr hcalls, rfl⟩
    | lost hxs hne =>
      rw [← List.singleton_append, ← List.append_assoc] at hcalls
      obtain ⟨s₁, hfirst, hagain⟩ := Threaded.append_iff.mp hcalls
      have hall := allPass_eq_false_iff.mpr ⟨_, _, _, _, hxs, hne, hfirst⟩
      exact ⟨false, s₁, hall, searchReason_eq_none_iff.mpr hagain⟩

end FirstError

/-- A check makes these calls. It passes where they all answer with nothing, and its reason is the
answer to a single one. -/
structure Asks (check : CallM (σ × List (Call (Func × Value) Value)) Verdict)
    (questions : List (Func × Value)) : Prop where
  pass {state state'} : check state = (.ok none, state') →
    state'.2 = state.2 ++ uniform .null questions
  stop {state state' reason} : check state = (.ok (some reason), state') →
    ∃ q a, questions = [q] ∧ a ≠ .null ∧ state'.2 = state.2 ++ [⟨q, .ok a⟩]

namespace Asks

variable {check : CallM (σ × List (Call (Func × Value) Value)) Verdict}
variable {questions : List (Func × Value)}

theorem custom (h : Host σ) (n : Name) (f : Func) (v : Value) :
    Asks ((Schema.custom n f).verify h.recording v) [(f, v)] := by
  have hcall : ∀ {verdict state state'},
      (Schema.custom n f).verify h.recording v state = (.ok verdict, state') →
        ∃ a, Verdict.ofAnswer a = verdict ∧ state'.2 = state.2 ++ [⟨(f, v), .ok a⟩] := by
    intro verdict state state' hrun
    obtain ⟨a, state₁, hcall, hanswer⟩ := bind_run_eq_ok_iff.mp hrun
    cases hanswer
    refine ⟨a, rfl, ?_⟩
    unfold Host.call at hcall
    cases hfit : f.misfit? with
    | none =>
      rw [hfit] at hcall
      have hcall : Conformance.recording h.ask (f, v) state = (.ok a, state') := hcall
      exact (recording_eq_iff.mp hcall).2
    | some misfit =>
      rw [hfit] at hcall
      cases hcall
  constructor
  · intro state state' hrun
    obtain ⟨a, hanswer, hcalls⟩ := hcall hrun
    rw [Verdict.ofAnswer_eq_none_iff.mp hanswer] at hcalls
    exact hcalls
  · intro state state' reason hrun
    obtain ⟨a, hanswer, hcalls⟩ := hcall hrun
    exact ⟨(f, v), a, rfl, Verdict.ne_null_of_ofAnswer hanswer, hcalls⟩

theorem inContext (h : Asks check questions) (context : String) :
    Asks (check >>= Conformance.inContext context) questions := by
  constructor
  · intro state state' hrun
    obtain ⟨verdict, hcheck, hnone⟩ := bind_inContext_eq_ok_iff.mp hrun
    rw [under_eq_none_iff.mp hnone] at hcheck
    exact h.pass hcheck
  · intro state state' reason hrun
    obtain ⟨verdict, hcheck, hsome⟩ := bind_inContext_eq_ok_iff.mp hrun
    cases verdict with
    | none => cases hsome
    | some inner => exact h.stop hcheck

end Asks

section Checks

variable {check : α → CallM (σ × List (Call (Func × Value) Value)) Verdict} {xs : List α}
variable {questions : α → List (Func × Value)}
variable {state state' : σ × List (Call (Func × Value) Value)}

theorem exists_pass_of_uniform (h : Threaded check (uniform none xs) state state') {x : α}
    (hx : x ∈ xs) : ∃ state₁ state₂, check x state₁ = (.ok none, state₂) := by
  induction xs generalizing state with
  | nil => cases hx
  | cons y xs ih =>
    obtain ⟨state₁, hy, hxs⟩ := Threaded.cons_iff.mp h
    cases hx with
    | head => exact ⟨_, _, hy⟩
    | tail _ hx => exact ih hxs hx

theorem record_of_uniform (hasks : ∀ x ∈ xs, Asks (check x) (questions x))
    (h : Threaded check (uniform none xs) state state') :
    state'.2 = state.2 ++ uniform .null (xs.flatMap questions) := by
  induction xs generalizing state with
  | nil =>
    cases Threaded.nil_iff.mp h
    exact (List.append_nil _).symm
  | cons x xs ih =>
    obtain ⟨hask, hasks⟩ := List.forall_mem_cons.mp hasks
    obtain ⟨state₁, hx, hxs⟩ := Threaded.cons_iff.mp h
    rw [ih hasks hxs, hask.pass hx, List.flatMap_cons, uniform, uniform, uniform, List.map_append,
      List.append_assoc]

/-- Where nothing is found, every item passed in the last pass; so one that had a reason before was
asked, and its answer had changed. -/
theorem record_of_firstError
    (hasks : ∀ x ∈ xs, (∃ state₁ state₂, check x state₁ = (.ok none, state₂)) →
      Asks (check x) (questions x))
    (h : firstError check xs state = (.ok none, state')) :
    ∃ calls, Unheard .null (xs.flatMap questions) calls ∧ state'.2 = state.2 ++ calls := by
  obtain ⟨calls, hunheard, hcalls⟩ := firstError_eq_none_iff.mp h
  cases hunheard with
  | quiet =>
    have hasks := fun x hx => hasks x hx (exists_pass_of_uniform hcalls hx)
    exact ⟨_, .quiet, record_of_uniform hasks hcalls⟩
  | @lost before x after verdict hxs hne =>
    obtain ⟨state₁, hfirst, hrest⟩ := Threaded.append_iff.mp hcalls
    obtain ⟨state₂, hx, hagain⟩ := Threaded.cons_iff.mp hrest
    have hasks := fun x hx => hasks x hx (exists_pass_of_uniform hagain hx)
    have hlast := record_of_uniform hasks hagain
    subst hxs
    have hbefore := record_of_uniform (fun y hy => hasks y (List.mem_append_left _ hy)) hfirst
    cases verdict with
    | none => exact absurd rfl hne
    | some reason =>
      obtain ⟨q, a, hq, ha, hcall⟩ := (hasks x (by simp)).stop hx
      have hsplit : (before ++ x :: after).flatMap questions =
          before.flatMap questions ++ q :: after.flatMap questions := by
        rw [List.flatMap_append, List.flatMap_cons, hq]
        rfl
      refine ⟨_, .lost hsplit ha, ?_⟩
      rw [hlast, hcall, hbefore]
      simp only [List.append_assoc, List.cons_append, List.nil_append]

end Checks

/-- The calls about a part of a value that a function checks directly. -/
def Schema.questions : Schema → Value → List (Func × Value)
  | .custom _ f, v => [(f, v)]
  | _, _ => []

def Record.questions (entries : List (Value × Value)) (m : Name × Schema) : List (Func × Value) :=
  ((lookup? (.ofString m.1.text) entries).map m.2.questions).getD []

/-- The calls of one pass over the parts of a value. -/
def Schema.asked : Schema → Value → List (Func × Value)
  | .listOf _ t, v => (v.items?.getD []).flatMap t.questions
  | .mapOf _ t, v => ((v.entries?.getD []).map (·.2)).flatMap t.questions
  | .record _ _ members _, v => members.flatMap (Record.questions (v.entries?.getD []))
  | _, _ => []

/-- Functions check the elements, the values or the members directly, and nothing checks the
whole. -/
inductive Schema.Direct : Schema → Prop
  | listOf {s n f} : Direct (.listOf s (.custom n f))
  | mapOf {s n f} : Direct (.mapOf s (.custom n f))
  | record {s n members policy} : (∀ m ∈ members, ∃ n f, m.2 = .custom n f) →
      policy.unknown = true → policy.extra = none → Direct (.record s n members policy)

theorem Asks.member {m : Name × Schema} (hm : ∃ n f, m.2 = .custom n f) (h : Host σ)
    {total : Bool} {entries : List (Value × Value)}
    (hpass : ∃ state state', Record.checkMember total entries (m.1.text, m.2.verify h.recording)
      state = (.ok none, state')) :
    Asks (Record.checkMember total entries (m.1.text, m.2.verify h.recording))
      (Record.questions entries m) := by
  obtain ⟨n, f, hm⟩ := hm
  unfold Record.checkMember at hpass ⊢
  unfold Record.questions
  rw [hm] at hpass ⊢
  cases hx : lookup? (.ofString m.1.text) entries with
  | some x => exact (Asks.custom h n f x).inContext _
  | none =>
    rw [hx] at hpass
    obtain ⟨state, state', hrun⟩ := hpass
    obtain ⟨habsent, -⟩ := pure_run_eq_ok_iff.mp hrun
    simp only [habsent]
    constructor
    · intro state state' hrun
      cases hrun
      exact (List.append_nil _).symm
    · intro state state' reason hrun
      cases hrun

namespace Schema

variable {h : Host σ} {t : Schema} {v : Value}

theorem record_of_parts {n : Name} {f : Func} {parts : List Value} {context : String}
    {state state' : σ × List (Call (Func × Value) Value)}
    (haccepted : (firstError ((custom n f).verify h.recording) parts >>= inContext context) state =
      (.ok none, state')) :
    ∃ calls, Unheard .null (parts.flatMap (custom n f).questions) calls ∧
      state'.2 = state.2 ++ calls := by
  obtain ⟨verdict, hfirst, hnone⟩ := bind_inContext_eq_ok_iff.mp haccepted
  rw [under_eq_none_iff.mp hnone] at hfirst
  exact record_of_firstError (fun x _ _ => .custom h n f x) hfirst

theorem Direct.record_of_accepted (ht : Direct t)
    {state state' : σ × List (Call (Func × Value) Value)}
    (haccepted : t.verify h.recording v state = (.ok none, state')) :
    ∃ calls, Unheard .null (t.asked v) calls ∧ state'.2 = state.2 ++ calls := by
  cases ht with
  | @listOf s n f =>
    unfold verify at haccepted
    cases hitems : v.items? with
    | none =>
      rw [hitems] at haccepted
      cases haccepted
    | some items =>
      rw [hitems] at haccepted
      rw [asked, hitems]
      exact record_of_parts haccepted
  | @mapOf s n f =>
    unfold verify at haccepted
    cases hentries : v.entries? with
    | none =>
      rw [hentries] at haccepted
      cases haccepted
    | some entries =>
      rw [hentries] at haccepted
      rw [asked, hentries]
      exact record_of_parts haccepted
  | @record s n members policy hmembers hunknown hextra =>
    change Record.verify h.recording n.text (memberVerifiers h.recording members) policy v state =
      _ at haccepted
    unfold Record.verify at haccepted
    cases hentries : v.entries? with
    | none =>
      rw [hentries, inContext_eq, ofExcept_run_eq_ok_iff] at haccepted
      cases under_eq_none_iff.mp haccepted.1
    | some entries =>
      rw [hentries] at haccepted
      obtain ⟨verdict, hsteps, hnone⟩ := bind_inContext_eq_ok_iff.mp haccepted
      rw [under_eq_none_iff.mp hnone] at hsteps
      simp only [Record.steps, hunknown, hextra] at hsteps
      obtain ⟨verdict, s₁, hfirst, hrest⟩ := bind_run_eq_ok_iff.mp hsteps
      cases verdict with
      | some reason => cases hrest
      | none =>
        cases hrest
        rw [memberVerifiers_eq_map, firstError_map] at hfirst
        rw [asked, hentries]
        exact record_of_firstError (fun m hm hpass => .member (hmembers m hm) h hpass) hfirst

/-- Where the whole is accepted, no answer spoke against it, or a single one that ended the first
pass. -/
theorem Direct.calls_unheard (ht : Direct t) {s : σ} (haccepted : (t.verify h v s).1 = .ok none) :
    Unheard .null (t.asked v) (t.calls h v s) := by
  have hrun := (verify_recording h t v s).1
  rw [haccepted] at hrun
  obtain ⟨calls, hunheard, hcalls⟩ := ht.record_of_accepted hrun
  change t.calls h v s = [] ++ calls at hcalls
  rw [hcalls]
  exact hunheard

end Schema

theorem recorded_firstError_iff {verify : α → CallM σ Verdict} {xs : List α} {s s' : σ}
    {calls : List (Call α Verdict)} :
    firstError (recording verify) xs (s, []) = (.ok none, s', calls) ↔
      Unheard none xs calls ∧ Threaded verify calls s s' := by
  rw [firstError_eq_none_iff]
  constructor
  · rintro ⟨made, hunheard, hmade⟩
    obtain ⟨hcalls, hrecord⟩ := Threaded.recording_iff.mp hmade
    cases hrecord
    exact ⟨hunheard, hcalls⟩
  · rintro ⟨hunheard, hcalls⟩
    exact ⟨calls, hunheard, Threaded.recording_iff.mpr ⟨hcalls, rfl⟩⟩

/-- A search ends with nothing exactly if it made one quiet pass, or lost the reason that ended the
first pass to a quiet second one. So where functions check the parts of a value directly and the
whole is accepted, no answer spoke against it, or a single one that ended the first pass. -/
theorem unheard_iff_second_pass_quiet :
    (∀ (α : Type) (verify : α → CallM σ Verdict) (xs : List α) (s s' : σ)
        (calls : List (Call α Verdict)),
      firstError (recording verify) xs (s, []) = (.ok none, s', calls) ↔
        Unheard none xs calls ∧ Threaded verify calls s s') ∧
    ∀ (h : Host σ) (t : Schema) (v : Value) (s : σ), t.Direct → (t.verify h v s).1 = .ok none →
      Unheard .null (t.asked v) (t.calls h v s) ∧
        Threaded h.ask (t.calls h v s) s (t.verify h v s).2 := by
  constructor
  · intro α verify xs s s' calls
    exact recorded_firstError_iff
  · intro h t v s ht haccepted
    exact ⟨ht.calls_unheard haccepted, (Schema.verify_recording h t v s).2⟩

/-- Answers once with a text, and with nothing from then on. -/
def answersOnce : Host Bool where
  answer _ _ quiet := (.ok (if quiet then .null else .ofString "x"), true)

def onceRejected : Schema := .listOf 0 (.custom "t" (Schema.sample 0))

theorem onceRejected_lost :
    let q : Func × Value := (Schema.sample 0, .bool true)
    onceRejected.Direct ∧
    (onceRejected.verify answersOnce (.list .base [.bool true]) false).1 = .ok none ∧
    Unheard Value.null [q] [⟨q, .ok (.ofString "x")⟩, ⟨q, .ok .null⟩] := by
  have hdirect : onceRejected.Direct := .listOf
  have haccepted : (onceRejected.verify answersOnce (.list .base [.bool true]) false).1 =
      .ok none := rfl
  refine ⟨hdirect, haccepted, ?_⟩
  have hpasses := unheard_iff_second_pass_quiet.2 answersOnce onceRejected
  exact (hpasses _ false hdirect haccepted).1

end Conformance

/- Which schemas a verification visits, in what order, and which calls come of that, while functions
   may answer otherwise from call to call, or raise. -/
import Conformance.Proofs.Amplification
import Conformance.Proofs.Passes
import Conformance.Proofs.Precedence
namespace Conformance

variable {σ α β γ : Type}

/-- Calls about items in their order, each at most once, up to the first call that ends them. -/
inductive Sweep (ends : Except Fault β → Bool) : List α → List (Call α β) → Prop
  | nil : Sweep ends [] []
  | stop {x xs outcome} : ends outcome = true → Sweep ends (x :: xs) [⟨x, outcome⟩]
  | next {x xs outcome calls} : ends outcome = false → Sweep ends xs calls →
      Sweep ends (x :: xs) (⟨x, outcome⟩ :: calls)

theorem Sweep.in_order {ends : Except Fault β → Bool} {xs : List α} {calls : List (Call α β)}
    (h : Sweep ends xs calls) : calls.map (·.argument) <+: xs := by
  induction h with
  | nil => exact List.nil_prefix
  | @stop x xs outcome _ => exact ⟨xs, rfl⟩
  | next _ _ ih => exact (List.prefix_cons_inj _).mpr ih

section Scan

/-- Calls about items in their order, until an answer is conclusive. -/
def scan (conclude : β → Option γ) (otherwise : γ) (call : α → CallM σ β) : List α → CallM σ γ
  | [] => pure otherwise
  | x :: xs => do
    match conclude (← call x) with
    | none => scan conclude otherwise call xs
    | some c => pure c

def concludes (conclude : β → Option γ) : Except Fault β → Bool
  | .ok b => (conclude b).isSome
  | .error _ => true

def conclusion (conclude : β → Option γ) (otherwise : γ) (calls : List (Call α β)) :
    Except Fault γ :=
  match calls.getLast? with
  | none => .ok otherwise
  | some c => c.outcome.map fun b => (conclude b).getD otherwise

variable {conclude : β → Option γ} {otherwise : γ}

theorem exists_inconclusive {outcome : Except Fault β} (h : concludes conclude outcome = false) :
    ∃ b, outcome = .ok b ∧ conclude b = none := by
  cases outcome with
  | error fault => cases h
  | ok b => exact ⟨b, rfl, Option.isNone_iff_eq_none.mp (Option.isSome_eq_false_iff.mp h)⟩

theorem conclusion_cons {c : Call α β} (hc : concludes conclude c.outcome = false)
    (calls : List (Call α β)) :
    conclusion conclude otherwise (c :: calls) = conclusion conclude otherwise calls := by
  cases calls with
  | cons d calls => rw [conclusion, conclusion, List.getLast?_cons_cons]
  | nil =>
    obtain ⟨b, hok, hb⟩ := exists_inconclusive hc
    change c.outcome.map _ = .ok otherwise
    rw [hok]
    change Except.ok ((conclude b).getD otherwise) = _
    rw [hb]
    rfl

section Step

variable {call : α → CallM σ β} {x : α} {xs : List α} {s s₁ : σ}

theorem scan_goes_on {b : β} (hx : call x s = (.ok b, s₁)) (hb : conclude b = none) :
    scan conclude otherwise call (x :: xs) s = scan conclude otherwise call xs s₁ := by
  rw [scan, bind_apply, hx]
  dsimp only
  rw [hb]

theorem scan_stops {outcome : Except Fault β} (hx : call x s = (outcome, s₁))
    (hends : concludes conclude outcome = true) :
    scan conclude otherwise call (x :: xs) s =
      (outcome.map fun b => (conclude b).getD otherwise, s₁) := by
  rw [scan, bind_apply, hx]
  cases outcome with
  | error fault => rfl
  | ok b =>
    obtain ⟨c, hb⟩ := Option.isSome_iff_exists.mp hends
    change _ = (Except.ok ((conclude b).getD otherwise), s₁)
    dsimp only
    rw [hb]
    rfl

end Step

/-- A scan makes one sweep of calls, and the last of them tells its result. -/
theorem scan_eq_iff {call : α → CallM σ β} {xs : List α} {s s' : σ} {r : Except Fault γ} :
    scan conclude otherwise call xs s = (r, s') ↔
      ∃ calls, Sweep (concludes conclude) xs calls ∧ Threaded call calls s s' ∧
        r = conclusion conclude otherwise calls := by
  induction xs generalizing s r with
  | nil =>
    constructor
    · intro h
      cases h
      exact ⟨[], .nil, .nil _, rfl⟩
    · rintro ⟨calls, hsweep, hcalls, rfl⟩
      cases hsweep
      cases Threaded.nil_iff.mp hcalls
      rfl
  | cons x xs ih =>
    constructor
    · intro h
      cases hx : call x s with
      | mk outcome s₁ =>
        cases hends : concludes conclude outcome with
        | true =>
          rw [scan_stops hx hends] at h
          cases h
          exact ⟨_, .stop hends, .cons hx (.nil _), rfl⟩
        | false =>
          obtain ⟨b, rfl, hb⟩ := exists_inconclusive hends
          rw [scan_goes_on hx hb] at h
          obtain ⟨calls, hsweep, hcalls, rfl⟩ := ih.mp h
          have hlast : conclusion conclude otherwise (⟨x, .ok b⟩ :: calls) = _ :=
            conclusion_cons hends calls
          exact ⟨_, .next hends hsweep, .cons hx hcalls, hlast.symm⟩
    · rintro ⟨calls, hsweep, hcalls, rfl⟩
      obtain ⟨c, rest, rfl⟩ : ∃ c rest, calls = c :: rest := by cases hsweep <;> exact ⟨_, _, rfl⟩
      obtain ⟨s₁, hx, hrest⟩ := Threaded.cons_iff.mp hcalls
      cases hsweep with
      | stop hends =>
        cases Threaded.nil_iff.mp hrest
        exact scan_stops hx hends
      | next hends hsweep =>
        obtain ⟨b, hok, hb⟩ := exists_inconclusive hends
        rw [hok] at hx
        rw [conclusion_cons hends, scan_goes_on hx hb]
        exact ih.mpr ⟨rest, hsweep, hrest, rfl⟩

/-- What goes from item to item as a scan does is that scan. -/
theorem eq_scan {call : α → CallM σ β} {search : List α → CallM σ γ} {xs : List α}
    (hnil : search [] = pure otherwise)
    (hcons : ∀ x xs, search (x :: xs) = call x >>= fun b =>
      match conclude b with
      | none => search xs
      | some c => pure c) :
    search xs = scan conclude otherwise call xs := by
  induction xs with
  | nil => exact hnil
  | cons x xs ih => rw [hcons, ih, scan]

end Scan

section FirstError

def halts : Except Fault Verdict → Bool
  | .ok none => false
  | _ => true

def lastOutcome (calls : List (Call α Verdict)) : Except Fault Verdict :=
  match calls.getLast? with
  | none => .ok none
  | some c => c.outcome

/-- The calls of a search for a reason, and what it comes to. Where the first pass ends with a reason,
there is a second one from the start, and that tells. -/
inductive TwoPasses (xs : List α) : List (Call α Verdict) → Except Fault Verdict → Prop
  | once {calls} : Sweep halts xs calls → rejects (lastOutcome calls) = false →
      TwoPasses xs calls (lastOutcome calls)
  | again {first second} : Sweep halts xs first → rejects (lastOutcome first) = true →
      Sweep halts xs second → TwoPasses xs (first ++ second) (lastOutcome second)

variable {verify : α → CallM σ Verdict} {xs : List α} {s s' : σ}

theorem allPass_eq_scan :
    allPass verify xs = scan (Option.map fun _ => false) true verify xs := by
  refine eq_scan rfl fun x xs => bind_congr fun verdict => ?_
  cases verdict <;> rfl

theorem searchReason_eq_scan :
    searchReason verify xs = scan (Option.map some) none verify xs := by
  refine eq_scan rfl fun x xs => bind_congr fun verdict => ?_
  cases verdict <;> rfl

theorem concludes_map {f : Value → γ} : concludes (Option.map f) = halts := by
  funext outcome
  cases outcome with
  | error fault => rfl
  | ok verdict => cases verdict <;> rfl

theorem allPass_eq_iff {r : Except Fault Bool} :
    allPass verify xs s = (r, s') ↔ ∃ calls, Sweep halts xs calls ∧ Threaded verify calls s s' ∧
      r = (lastOutcome calls).map Option.isNone := by
  have hresult : ∀ calls : List (Call α Verdict),
      conclusion (Option.map fun _ => false) true calls =
        (lastOutcome calls).map Option.isNone := by
    intro calls
    unfold conclusion lastOutcome
    cases calls.getLast? with
    | none => rfl
    | some c =>
      refine congrArg (c.outcome.map ·) (funext fun verdict => ?_)
      cases verdict <;> rfl
  rw [allPass_eq_scan, scan_eq_iff, concludes_map]
  simp only [hresult]

theorem searchReason_eq_iff {r : Except Fault Verdict} :
    searchReason verify xs s = (r, s') ↔ ∃ calls, Sweep halts xs calls ∧
      Threaded verify calls s s' ∧ r = lastOutcome calls := by
  have hresult : ∀ calls : List (Call α Verdict),
      conclusion (Option.map some) none calls = lastOutcome calls := by
    intro calls
    unfold conclusion lastOutcome
    cases calls.getLast? with
    | none => rfl
    | some c =>
      obtain ⟨x, outcome⟩ := c
      cases outcome with
      | error fault => rfl
      | ok verdict => cases verdict <;> rfl
  rw [searchReason_eq_scan, scan_eq_iff, concludes_map]
  simp only [hresult]

section Outcome

variable {outcome : Except Fault Verdict} {s₁ : σ}

theorem firstError_of_quiet (hall : allPass verify xs s = (outcome.map Option.isNone, s₁))
    (hquiet : rejects outcome = false) : firstError verify xs s = (outcome, s₁) := by
  rw [firstError, bind_apply, hall]
  cases outcome with
  | error fault => rfl
  | ok verdict =>
    cases verdict with
    | none => rfl
    | some reason => cases hquiet

theorem firstError_of_reason (hall : allPass verify xs s = (outcome.map Option.isNone, s₁))
    (hreason : rejects outcome = true) : firstError verify xs s = searchReason verify xs s₁ := by
  rw [firstError, bind_apply, hall]
  cases outcome with
  | error fault => cases hreason
  | ok verdict =>
    cases verdict with
    | none => cases hreason
    | some reason => rfl

end Outcome

/-- A search for a reason makes these calls, and no others. -/
theorem firstError_eq_iff {r : Except Fault Verdict} :
    firstError verify xs s = (r, s') ↔
      ∃ calls, TwoPasses xs calls r ∧ Threaded verify calls s s' := by
  constructor
  · intro h
    cases hall : allPass verify xs s with
    | mk passes s₁ =>
      obtain ⟨first, hsweep, hfirst, rfl⟩ := allPass_eq_iff.mp hall
      cases hreason : rejects (lastOutcome first) with
      | false =>
        cases h.symm.trans (firstError_of_quiet hall hreason)
        exact ⟨first, .once hsweep hreason, hfirst⟩
      | true =>
        rw [firstError_of_reason hall hreason] at h
        obtain ⟨second, hsecond, hcalls, rfl⟩ := searchReason_eq_iff.mp h
        exact ⟨first ++ second, .again hsweep hreason hsecond,
          Threaded.append_iff.mpr ⟨s₁, hfirst, hcalls⟩⟩
  · rintro ⟨calls, hpasses, hcalls⟩
    cases hpasses with
    | once hsweep hquiet =>
      exact firstError_of_quiet (allPass_eq_iff.mpr ⟨calls, hsweep, hcalls, rfl⟩) hquiet
    | @again first second hsweep hreason hsecond =>
      obtain ⟨s₁, hfirst, hcalls⟩ := Threaded.append_iff.mp hcalls
      have hall := allPass_eq_iff.mpr ⟨first, hsweep, hfirst, rfl⟩
      rw [firstError_of_reason hall hreason]
      exact searchReason_eq_iff.mpr ⟨second, hsecond, hcalls, rfl⟩

/-- No item is asked about more than twice. -/
theorem TwoPasses.count_le {calls : List (Call α Verdict)} {r : Except Fault Verdict}
    (h : TwoPasses xs calls r) {p : α → Bool} (hp : xs.countP p ≤ 1) :
    calls.countP (fun c => p c.argument) ≤ 2 := by
  have hsweep : ∀ {calls : List (Call α Verdict)}, Sweep halts xs calls →
      calls.countP (fun c => p c.argument) ≤ 1 := by
    intro calls hcalls
    have hle := hcalls.in_order.sublist.countP_le (p := p)
    rw [List.countP_map] at hle
    exact Nat.le_trans hle hp
  cases h with
  | once hcalls _ => exact Nat.le_succ_of_le (hsweep hcalls)
  | again hfirst _ hsecond =>
    rw [List.countP_append]
    exact Nat.add_le_add (hsweep hfirst) (hsweep hsecond)

end FirstError

theorem bind_inContext_apply {check : CallM σ Verdict} {s s' : σ} {r : Except Fault Verdict}
    (hcheck : check s = (r, s')) (context : String) :
    (check >>= inContext context) s = (r >>= under context, s') := by
  have hcontext : (inContext context : Verdict → CallM σ Verdict) =
      fun verdict => ofExcept (under context verdict) := funext (inContext_eq context)
  rw [hcontext, bind_ofExcept_apply, hcheck]

abbrev Visit := Call (Schema × Value) Verdict

def visit (h : Host σ) (q : Schema × Value) : CallM σ Verdict := q.1.verify h q.2

/-- Visits one after another, each from the state that the one before it left, and all the calls of
functions that they make, in their order. -/
inductive Runs (h : Host σ) : List Visit → List FuncCall → σ → σ → Prop
  | nil (s) : Runs h [] [] s s
  | cons {q outcome visits calls s s₁ s'} : q.1.verify h q.2 s = (outcome, s₁) →
      Runs h visits calls s₁ s' → Runs h (⟨q, outcome⟩ :: visits) (q.1.calls h q.2 s ++ calls) s s'

section Runs

variable {h : Host σ}

/-- What is on record stays there in front of the calls of a verification. -/
theorem Schema.verify_recording_after (h : Host σ) (t : Schema) (v : Value)
    (state : σ × List FuncCall) :
    t.verify h.recording v state =
      ((t.verify h v state.1).1, (t.verify h v state.1).2, state.2 ++ t.calls h v state.1) := by
  have hfuncs : ∀ f ∈ t.funcs, ∀ w,
      Simulates (fun (later afresh : σ × List FuncCall) =>
        later.1 = afresh.1 ∧ later.2 = state.2 ++ afresh.2) (h.recording.call f w)
        (h.recording.call f w) := by
    rintro f - w
    refine .call fun later afresh ⟨hstate, hmade⟩ => ?_
    obtain ⟨s, made⟩ := later
    cases hstate
    cases hmade
    exact ⟨rfl, rfl, List.append_assoc _ _ _⟩
  have hrun := Schema.simulates_verify hfuncs v state (state.1, []) ⟨rfl, (List.append_nil _).symm⟩
  rw [(Schema.verify_recording h t v state.1).1] at hrun
  obtain ⟨hresult, hstate, hmade⟩ := hrun
  exact Prod.ext hresult (Prod.ext hstate hmade)

theorem Runs.of_recording {visits : List Visit} {state state' : σ × List FuncCall}
    (hvisits : Threaded (visit h.recording) visits state state') :
    ∃ calls, Runs h visits calls state.1 state'.1 ∧ state'.2 = state.2 ++ calls := by
  induction hvisits with
  | nil state => exact ⟨[], .nil _, (List.append_nil _).symm⟩
  | @cons q outcome visits state state₁ state' hq _ ih =>
    obtain ⟨calls, hrest, hmade⟩ := ih
    rw [visit, Schema.verify_recording_after] at hq
    cases hq
    exact ⟨_, .cons rfl hrest, hmade.trans (List.append_assoc _ _ _)⟩

theorem Runs.of_verify {t : Schema} {v : Value} {s : σ} {visits : List Visit}
    {outcome : Except Fault Verdict} {state' : σ × List FuncCall}
    (hrun : t.verify h.recording v (s, []) = (outcome, state'))
    (hvisits : Threaded (visit h.recording) visits (s, []) state') :
    Runs h visits (t.calls h v s) s (t.verify h v s).2 ∧ (t.verify h v s).1 = outcome := by
  obtain ⟨calls, hruns, hmade⟩ := Runs.of_recording hvisits
  have hboth := (Schema.verify_recording h t v s).1.symm.trans hrun
  cases hboth
  cases hmade
  exact ⟨hruns, rfl⟩

end Runs

namespace Schema

variable {h : Host σ}

/-- What the calls on the members of a union come to: the last one passed, or all rejected. -/
def passed (visits : List Visit) : Except Fault Bool :=
  match visits.getLast? with
  | none => .ok false
  | some c => c.outcome.map Option.isNone

theorem anyPasses_eq_iff {ts : List Schema} {v : Value} {s s' : σ} {r : Except Fault Bool} :
    anyPasses v (verifiers h ts) s = (r, s') ↔ ∃ visits,
      Sweep (!rejects ·) (ts.map (·, v)) visits ∧ Threaded (visit h) visits s s' ∧
        r = passed visits := by
  let conclude : Verdict → Option Bool := fun verdict => if verdict.isNone then some true else none
  have hscan : anyPasses v (verifiers h ts) =
      scan conclude false (visit h) (ts.map (·, v)) := by
    induction ts with
    | nil => rfl
    | cons t ts ih =>
      refine bind_congr fun verdict => ?_
      cases verdict with
      | none => rfl
      | some reason => exact ih
  have hends : concludes conclude = (!rejects ·) := by
    funext outcome
    cases outcome with
    | error fault => rfl
    | ok verdict => cases verdict <;> rfl
  have hresult : ∀ visits : List Visit, conclusion conclude false visits = passed visits := by
    intro visits
    unfold conclusion passed
    cases visits.getLast? with
    | none => rfl
    | some c =>
      refine congrArg (c.outcome.map ·) (funext fun verdict => ?_)
      cases verdict <;> rfl
  rw [hscan, scan_eq_iff, hends]
  simp only [hresult]

theorem visits_of_union (h : Host σ) (st : Nat) (ts : List Schema) (v : Value) (s : σ) :
    ∃ visits, Sweep (!rejects ·) (ts.map (·, v)) visits ∧
      Runs h visits ((union st ts).calls h v s) s ((union st ts).verify h v s).2 ∧
      ((union st ts).verify h v s).1 = (passed visits).map (passOr · (union st ts).name v) := by
  cases hany : anyPasses v (verifiers h.recording ts) (s, []) with
  | mk r state' =>
    obtain ⟨visits, hsweep, hvisits, rfl⟩ := anyPasses_eq_iff.mp hany
    have hrun : (union st ts).verify h.recording v (s, []) =
        ((passed visits).map (passOr · (union st ts).name v), state') := by
      refine (bind_pure_apply _ _ _).trans ?_
      rw [hany]
    exact ⟨visits, hsweep, Runs.of_verify hrun hvisits⟩

theorem visits_of_optional (h : Host σ) (st : Nat) (t : Schema) {v : Value} (hv : v ≠ .null)
    (s : σ) :
    ∃ outcome, Runs h [⟨(t, v), outcome⟩] ((optional st t).calls h v s) s
        ((optional st t).verify h v s).2 ∧
      ((optional st t).verify h v s).1 = outcome >>= under s!"in option<{t.name}>" := by
  cases hrun : t.verify h.recording v (s, []) with
  | mk outcome state' =>
    have hverify : (optional st t).verify h.recording v = t.verify h.recording v >>=
        inContext s!"in option<{t.name}>" := by
      cases v with
      | null => exact absurd rfl hv
      | _ => rfl
    have houter := bind_inContext_apply hrun s!"in option<{t.name}>"
    rw [← hverify] at houter
    exact ⟨outcome, Runs.of_verify houter (.cons hrun (.nil state'))⟩

end Schema

namespace Record

/-- The checks of declared members, and the visits that come of them: none where the member is not
there. -/
inductive Looks (total : Bool) (entries : List (Value × Value)) :
    List (Call (Name × Schema) Verdict) → List Visit → Prop
  | nil : Looks total entries [] []
  | absent {m checks visits} : lookup? (.ofString m.1.text) entries = none →
      Looks total entries checks visits →
      Looks total entries
        (⟨m, .ok (if total then .because s!"missing member '{m.1.text}'" else none)⟩ :: checks)
        visits
  | present {m x outcome checks visits} : lookup? (.ofString m.1.text) entries = some x →
      Looks total entries checks visits →
      Looks total entries (⟨m, outcome >>= under s!"in member '{m.1.text}'"⟩ :: checks)
        (⟨(m.2, x), outcome⟩ :: visits)

/-- How a check goes on from what the members came to: the visits it makes, and what it comes to. The
whole is visited at most once, as a schema with its function, and only after members and keys. -/
inductive Proceeds (n : Name) (members : List (Name × Schema)) (policy : Policy) (v : Value)
    (entries : List (Value × Value)) (found : Except Fault Verdict) :
    List Visit → Except Fault Verdict → Prop
  | stopped : found ≠ .ok none → Proceeds n members policy v entries found [] found
  | listed : found = .ok none → policy.unknown = false →
      undeclaredKeys (members.map (·.1.text)) entries ≠ [] →
      Proceeds n members policy v entries found [] (keysVerdict (members.map (·.1.text)) entries)
  | unasked : found = .ok none →
      (policy.unknown = false → undeclaredKeys (members.map (·.1.text)) entries = []) →
      policy.extra = none → Proceeds n members policy v entries found [] (.ok none)
  | asked {f outcome} : found = .ok none →
      (policy.unknown = false → undeclaredKeys (members.map (·.1.text)) entries = []) →
      policy.extra = some f →
      Proceeds n members policy v entries found [⟨(.custom n f, v), outcome⟩] outcome

variable {h : Host σ} {total : Bool} {entries : List (Value × Value)}

theorem Looks.of_checks {checks : List (Call (Name × Schema) Verdict)} {s s' : σ}
    (hchecks : Threaded (fun m => checkMember total entries (m.1.text, m.2.verify h)) checks s s') :
    ∃ visits, Looks total entries checks visits ∧ Threaded (visit h) visits s s' := by
  induction hchecks with
  | nil s => exact ⟨[], .nil, .nil s⟩
  | @cons m outcome checks s s₁ s' hm _ ih =>
    obtain ⟨visits, hlooks, hvisits⟩ := ih
    unfold checkMember at hm
    cases hx : lookup? (.ofString m.1.text) entries with
    | none =>
      rw [hx] at hm
      cases hm
      exact ⟨visits, .absent hx hlooks, hvisits⟩
    | some x =>
      rw [hx] at hm
      cases hrun : m.2.verify h x s with
      | mk inner s₂ =>
        cases (bind_inContext_apply hrun _).symm.trans hm
        exact ⟨_, .present hx hlooks, .cons hrun hvisits⟩

variable {n : Name} {members : List (Name × Schema)} {policy : Policy} {v : Value}
variable {s s' : σ} {out : Except Fault Verdict}

theorem proceeds_of_whole
    (hkeys : policy.unknown = false → undeclaredKeys (members.map (·.1.text)) entries = [])
    (hrun : firstStep (match policy.extra with
      | none => []
      | some f => [return .ofAnswer (← h.call f v)]) s = (out, s')) :
    ∃ rest, Proceeds n members policy v entries (.ok none) rest out ∧
      Threaded (visit h) rest s s' := by
  cases hf : policy.extra with
  | none =>
    rw [hf] at hrun
    cases hrun
    exact ⟨[], .unasked rfl hkeys hf, .nil _⟩
  | some f =>
    rw [hf] at hrun
    dsimp only at hrun
    rw [firstStep_singleton] at hrun
    have hvisit : visit h (.custom n f, v) s = (out, s') := hrun
    exact ⟨_, .asked rfl hkeys hf, .cons hvisit (.nil s')⟩

section Steps

variable {step : CallM σ Verdict} {steps : List (CallM σ Verdict)} {s₁ : σ}

theorem firstStep_cons_passed (hstep : step s = (.ok none, s₁)) :
    firstStep (step :: steps) s = firstStep steps s₁ := by
  rw [firstStep, bind_apply, hstep]

theorem firstStep_cons_stopped (hstep : step s = (out, s₁)) (hne : out ≠ .ok none) :
    firstStep (step :: steps) s = (out, s₁) := by
  rw [firstStep, bind_apply, hstep]
  cases out with
  | error fault => rfl
  | ok verdict =>
    cases verdict with
    | none => exact absurd rfl hne
    | some reason => rfl

end Steps

theorem proceeds_of_steps
    (hrun : firstStep ((if policy.unknown then []
        else [checkUnknown (Schema.memberVerifiers h members) entries]) ++
      (match policy.extra with
        | none => []
        | some f => [return .ofAnswer (← h.call f v)])) s = (out, s')) :
    ∃ rest, Proceeds n members policy v entries (.ok none) rest out ∧
      Threaded (visit h) rest s s' := by
  cases hunknown : policy.unknown with
  | true =>
    rw [hunknown] at hrun
    exact proceeds_of_whole (by simp [hunknown]) hrun
  | false =>
    have hnames : (Schema.memberVerifiers h members).map (·.1) = members.map (·.1.text) := by
      rw [Schema.memberVerifiers_eq_map, List.map_map]
      rfl
    have hstep : checkUnknown (Schema.memberVerifiers h members) entries s =
        (keysVerdict (members.map (·.1.text)) entries, s) := by
      rw [checkUnknown_eq, hnames]
      cases keysVerdict (members.map (·.1.text)) entries <;> rfl
    rw [hunknown] at hrun
    by_cases hkeys : undeclaredKeys (members.map (·.1.text)) entries = []
    · rw [keysVerdict_nil hkeys] at hstep
      exact proceeds_of_whole (fun _ => hkeys) ((firstStep_cons_passed hstep).symm.trans hrun)
    · -- Something is said about the keys, or they have no text: the check ends here.
      have hne : keysVerdict (members.map (·.1.text)) entries ≠ .ok none :=
        mt keysVerdict_eq_none_iff.mp hkeys
      cases (firstStep_cons_stopped hstep hne).symm.trans hrun
      exact ⟨[], .listed rfl hunknown hkeys, .nil s⟩

theorem proceeds_of_verify {st : Nat} {outcome : Except Fault Verdict}
    (hentries : v.entries? = some entries)
    (hrun : (Schema.record st n members policy).verify h v s = (outcome, s')) :
    ∃ checks found visits rest out, TwoPasses members checks found ∧
      Looks policy.total entries checks visits ∧
      Proceeds n members policy v entries found rest out ∧
      Threaded (visit h) (visits ++ rest) s s' ∧
      outcome = out >>= under s!"in struct '{n.text}'" := by
  change verify h n.text (Schema.memberVerifiers h members) policy v s = _ at hrun
  unfold verify at hrun
  rw [hentries] at hrun
  cases hsteps : firstStep (steps h (Schema.memberVerifiers h members) policy v entries) s with
  | mk out s₂ =>
    cases (bind_inContext_apply hsteps _).symm.trans hrun
    rw [steps, List.cons_append] at hsteps
    cases hmembers : firstError (checkMember policy.total entries)
        (Schema.memberVerifiers h members) s with
    | mk found s₁ =>
      have hfirst := hmembers
      rw [Schema.memberVerifiers_eq_map, firstError_map] at hfirst
      obtain ⟨checks, hpasses, hchecks⟩ := firstError_eq_iff.mp hfirst
      obtain ⟨visits, hlooks, hvisits⟩ := Looks.of_checks hchecks
      by_cases hfound : found = .ok none
      · subst hfound
        rw [firstStep_cons_passed hmembers] at hsteps
        obtain ⟨rest, hproceeds, hrest⟩ := proceeds_of_steps hsteps
        have hall := Threaded.append_iff.mpr ⟨s₁, hvisits, hrest⟩
        exact ⟨checks, _, visits, rest, out, hpasses, hlooks, hproceeds, hall, rfl⟩
      · cases (firstStep_cons_stopped hmembers hfound).symm.trans hsteps
        rw [← List.append_nil visits] at hvisits
        exact ⟨checks, _, visits, [], _, hpasses, hlooks, .stopped hfound, hvisits, rfl⟩

end Record

namespace Schema

theorem visits_of_record (h : Host σ) (st : Nat) (n : Name) (members : List (Name × Schema))
    (policy : Policy) {v : Value} {entries : List (Value × Value)}
    (hentries : v.entries? = some entries) (s : σ) :
    ∃ checks found visits rest out, TwoPasses members checks found ∧
      Record.Looks policy.total entries checks visits ∧
      Record.Proceeds n members policy v entries found rest out ∧
      Runs h (visits ++ rest) ((record st n members policy).calls h v s) s
        ((record st n members policy).verify h v s).2 ∧
      ((record st n members policy).verify h v s).1 = out >>= under s!"in struct '{n.text}'" := by
  cases hrun : (record st n members policy).verify h.recording v (s, []) with
  | mk outcome state' =>
    obtain ⟨checks, found, visits, rest, out, hpasses, hlooks, hproceeds, hvisits, rfl⟩ :=
      Record.proceeds_of_verify hentries hrun
    obtain ⟨hruns, hresult⟩ := Runs.of_verify hrun hvisits
    exact ⟨checks, found, visits, rest, out, hpasses, hlooks, hproceeds, hruns, hresult⟩

/-- No member is checked more than twice. -/
theorem checks_of_member {members : List (Name × Schema)}
    {checks : List (Call (Name × Schema) Verdict)} {found : Except Fault Verdict}
    (hnames : (members.map (·.1.text)).Nodup) (hpasses : TwoPasses members checks found)
    (key : String) : checks.countP (·.argument.1.text == key) ≤ 2 := by
  refine hpasses.count_le (p := fun m => m.1.text == key) ?_
  have hcount := List.nodup_iff_count_le_one.mp hnames key
  rw [List.count, List.countP_map] at hcount
  exact hcount

/-- A function that takes one argument is called by a visit of it, once. -/
theorem calls_custom (h : Host σ) (n : Name) {f : Func} (hf : f.misfit? = none) (v : Value)
    (s : σ) : (custom n f).calls h v s = [⟨(f, v), (h.answer f v s).1⟩] := by
  have hrun : (custom n f).verify h.recording v (s, []) =
      ((h.recording.call f v (s, [])).1.map Verdict.ofAnswer, (h.recording.call f v (s, [])).2) :=
    bind_pure_apply _ _ _
  have hcall : h.call f v = h.answer f v := by
    unfold Host.call
    rw [hf]
  rw [calls, hrun, h.recording_call hf, hcall]
  rfl

/-- Verification calls functions in one order, whatever they do. A union visits its members up to
the first that passes or raises. An option visits its schema once, unless there is nothing to look
at. A record visits the members that are there, in one pass or two; then, if they came to nothing and
no key is in the way, the whole. Every call is made by one of these visits. -/
theorem calls_in_order (h : Host σ) :
    (∀ st ts v s, ∃ visits, Sweep (!rejects ·) (ts.map (·, v)) visits ∧
      Runs h visits ((union st ts).calls h v s) s ((union st ts).verify h v s).2 ∧
      ((union st ts).verify h v s).1 = (passed visits).map (passOr · (union st ts).name v)) ∧
    (∀ st t v s,
      (v = .null → (optional st t).calls h v s = []) ∧
      (v ≠ .null → ∃ outcome,
        Runs h [⟨(t, v), outcome⟩] ((optional st t).calls h v s) s
          ((optional st t).verify h v s).2 ∧
        ((optional st t).verify h v s).1 = outcome >>= under s!"in option<{t.name}>")) ∧
    (∀ st n members policy v s,
      (v.entries? = none → (record st n members policy).calls h v s = []) ∧
      ∀ entries, v.entries? = some entries → ∃ checks found visits rest out,
        TwoPasses members checks found ∧ Record.Looks policy.total entries checks visits ∧
        ((members.map (·.1.text)).Nodup →
          ∀ key, checks.countP (·.argument.1.text == key) ≤ 2) ∧
        Record.Proceeds n members policy v entries found rest out ∧
        Runs h (visits ++ rest) ((record st n members policy).calls h v s) s
          ((record st n members policy).verify h v s).2 ∧
        ((record st n members policy).verify h v s).1 = out >>= under s!"in struct '{n.text}'") ∧
    ∀ n f v s, f.misfit? = none → (custom n f).calls h v s = [⟨(f, v), (h.answer f v s).1⟩] := by
  refine ⟨visits_of_union h, fun st t v s => ⟨?_, fun hv => visits_of_optional h st t hv s⟩,
    fun st n members policy v s => ⟨fun hentries => ?_, fun entries hentries => ?_⟩,
    fun n f v s hf => calls_custom h n hf v s⟩
  · rintro rfl
    rfl
  · exact (run_of_recording (Record.verify_noMapping st hentries)).2
  · obtain ⟨checks, found, visits, rest, out, hpasses, hlooks, hproceeds, hruns⟩ :=
      visits_of_record h st n members policy hentries s
    exact ⟨checks, found, visits, rest, out, hpasses, hlooks,
      fun hnames key => checks_of_member hnames hpasses key, hproceeds, hruns⟩

def flakyMembers : List (Name × Schema) :=
  [("a", .custom "t" (sample 0)), ("b", .custom "t" (sample 0))]

/-- Members and other keys may be there or not, and a function looks at the whole. -/
def lenient : Policy := { total := false, unknown := true, extra := some (sample 1) }

def onlyFirst : Value := .ofFields [("a", .bool true)]

/-- The member that is there is called once more after it was found wrong, then the whole; the other
member is not. -/
theorem calls_in_order_flaky :
    (∃ outcome, Runs answersOnce [⟨(.record 0 "S" flakyMembers lenient, onlyFirst), outcome⟩]
      ((optional 1 (.record 0 "S" flakyMembers lenient)).calls answersOnce onlyFirst false) false
      true) ∧
    (∃ checks found visits rest out, TwoPasses flakyMembers checks found ∧
      (∀ key, checks.countP (·.argument.1.text == key) ≤ 2) ∧
      Record.Proceeds "S" flakyMembers lenient onlyFirst [(.ofString "a", .bool true)] found rest out ∧
      Runs answersOnce (visits ++ rest)
        [⟨(sample 0, .bool true), .ok (.ofString "x")⟩, ⟨(sample 0, .bool true), .ok .null⟩,
          ⟨(sample 1, onlyFirst), .ok .null⟩] false true) ∧
    (custom "t" (sample 0)).calls answersOnce (.bool true) false =
      [⟨(sample 0, .bool true), .ok (.ofString "x")⟩] := by
  obtain ⟨-, hoptional, hrecord, hcustom⟩ := calls_in_order answersOnce
  refine ⟨?_, ?_, hcustom _ _ _ _ rfl⟩
  · obtain ⟨outcome, hruns, -⟩ := (hoptional 1 (.record 0 "S" flakyMembers lenient) onlyFirst
      false).2 nofun
    exact ⟨outcome, hruns⟩
  · obtain ⟨checks, found, visits, rest, out, hpasses, -, hcount, hproceeds, hruns, -⟩ :=
      (hrecord 0 "S" flakyMembers lenient onlyFirst false).2 _ rfl
    exact ⟨checks, found, visits, rest, out, hpasses, hcount (by decide), hproceeds, hruns⟩

end Schema

end Conformance

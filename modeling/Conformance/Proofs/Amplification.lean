/- What nesting costs. A layer that looks for its first reason in two passes makes the calls of the
   layers inside it twice when there is a reason, so the calls double from layer to layer. -/
import Mathlib.Algebra.Group.Nat.Defs
import Conformance.Proofs.Recording
import Conformance.Proofs.Reaching
namespace Conformance

variable {σ α β : Type}

/-- The computation comes to this outcome from every state, and these are the calls it makes. -/
def Makes (x : CallM (σ × List FuncCall) α) (outcome : Except Fault α) (made : List FuncCall) :
    Prop :=
  ∀ state, (x state).1 = outcome ∧ (x state).2.2 = state.2 ++ made

def rejects : Except Fault Verdict → Bool
  | .ok (some _) => true
  | _ => false

/-- The calls of a search that looks at one thing: a reason is looked up again. -/
def looked (outcome : Except Fault Verdict) (made : List FuncCall) : List FuncCall :=
  if rejects outcome then made ++ made else made

namespace Makes

variable {x : CallM (σ × List FuncCall) α} {f : α → CallM (σ × List FuncCall) β}
variable {check : CallM (σ × List FuncCall) Verdict} {outcome : Except Fault Verdict}
variable {made : List FuncCall}

theorem ofExcept (r : Except Fault α) :
    Makes (ofExcept r : CallM (σ × List FuncCall) α) r [] := by
  intro state
  cases r with
  | ok a => exact ⟨rfl, (List.append_nil _).symm⟩
  | error fault => exact ⟨rfl, (List.append_nil _).symm⟩

theorem bind_ok {a : α} {r : Except Fault β} {more : List FuncCall} (hx : Makes x (.ok a) made)
    (hf : Makes (f a) r more) : Makes (x >>= f) r (made ++ more) := by
  intro state
  obtain ⟨hresult, hmade⟩ := hx state
  rw [bind_apply]
  cases hrun : x state with
  | mk result state' =>
    rw [hrun] at hresult hmade
    subst hresult
    obtain ⟨hr, hmore⟩ := hf state'
    refine ⟨hr, ?_⟩
    rw [← List.append_assoc, ← hmade]
    exact hmore

theorem bind_error {fault : Fault} (hx : Makes x (.error fault) made) :
    Makes (x >>= f) (.error fault) made := by
  intro state
  obtain ⟨hresult, hmade⟩ := hx state
  rw [bind_apply]
  cases hrun : x state with
  | mk result state' =>
    rw [hrun] at hresult hmade
    subst hresult
    exact ⟨rfl, hmade⟩

theorem followed {r : Except Fault α} {g : α → Except Fault β} (hx : Makes x r made)
    (hf : ∀ a, f a = MonadExcept.ofExcept (g a)) : Makes (x >>= f) (r >>= g) made := by
  cases r with
  | error fault => exact hx.bind_error
  | ok a =>
    have hnext : Makes (f a) (g a) [] := by
      rw [hf]
      exact .ofExcept (g a)
    have hrun := hx.bind_ok hnext
    rw [List.append_nil] at hrun
    exact hrun

theorem inContext (h : Makes check outcome made) (context : String) :
    Makes (check >>= Conformance.inContext context) (outcome >>= under context) made :=
  h.followed fun verdict => inContext_eq context verdict

theorem firstStep {steps : List (CallM (σ × List FuncCall) Verdict)}
    (h : Makes check outcome made) (hrest : Makes (Record.firstStep steps) (.ok none) []) :
    Makes (Record.firstStep (check :: steps)) outcome made := by
  cases outcome with
  | error fault => exact h.bind_error
  | ok verdict =>
    rw [← List.append_nil made]
    refine h.bind_ok ?_
    cases verdict with
    | none => exact hrest
    | some reason => exact .ofExcept (.ok (some reason))

section Search

variable {verify : α → CallM (σ × List FuncCall) Verdict} {item : α}

theorem searchReason (h : Makes (verify item) outcome made) :
    Makes (Conformance.searchReason verify [item]) outcome made := by
  change Makes (Record.firstStep [verify item]) outcome made
  exact h.firstStep (.ofExcept (.ok none))

theorem allPass (h : Makes (verify item) outcome made) :
    Makes (Conformance.allPass verify [item]) (outcome.map Option.isNone) made := by
  cases outcome with
  | error fault => exact h.bind_error
  | ok verdict =>
    rw [← List.append_nil made]
    refine h.bind_ok ?_
    cases verdict with
    | none => exact .ofExcept (.ok true)
    | some reason => exact .ofExcept (.ok false)

theorem firstError (h : Makes (verify item) outcome made) :
    Makes (Conformance.firstError verify [item]) outcome (looked outcome made) := by
  have hall := h.allPass
  cases outcome with
  | error fault => exact hall.bind_error
  | ok verdict =>
    cases verdict with
    | none =>
      change Makes _ _ made
      rw [← List.append_nil made]
      exact hall.bind_ok (.ofExcept (.ok none))
    | some reason => exact hall.bind_ok h.searchReason

end Search

theorem call {h : Host σ} {f : Func} (hf : f.misfit? = none) {v : Value}
    {answer : Except Fault Value} (hsame : ∀ s, (h.answer f v s).1 = answer) :
    Makes (h.recording.call f v) answer [⟨(f, v), answer⟩] := by
  intro state
  have hrun : h.recording.call f v state =
      ((h.answer f v state.1).1, (h.answer f v state.1).2,
        state.2 ++ [⟨(f, v), (h.answer f v state.1).1⟩]) := by
    unfold Host.call
    rw [hf]
    rfl
  rw [hrun, hsame state.1]
  exact ⟨rfl, rfl⟩

end Makes

/-- A layer around a schema. A record has the schema for its only member, and no function of its
own. -/
inductive Layer
  | optional (stamp : Nat)
  | union (stamp : Nat)
  | listOf (stamp : Nat)
  | mapOf (stamp : Nat)
  | record (stamp : Nat) (name key : Name) (total unknown : Bool)

namespace Layer

def around : Layer → Schema → Schema
  | .optional s, t => .optional s t
  | .union s, t => .union s [t]
  | .listOf s, t => .listOf s t
  | .mapOf s, t => .mapOf s t
  | .record s n key total unknown, t => .record s n [(key, t)] { total, unknown }

/-- The layers that look for a reason in two passes. -/
def doubles : Layer → Bool
  | .optional _ | .union _ => false
  | .listOf _ | .mapOf _ | .record _ _ _ _ _ => true

/-- What a layer looks at has this one thing in it; of a mapping with the member of a record, the
other keys are allowed. -/
inductive Holds : Layer → Value → Value → Prop
  | optional {s v} : Holds (.optional s) v v
  | union {s v} : Holds (.union s) v v
  | listOf {s v x} : v.items? = some [x] → Holds (.listOf s) v x
  | mapOf {s v key x} : v.entries? = some [(key, x)] → Holds (.mapOf s) v x
  | record {s n key total unknown v entries x} : v.entries? = some entries →
      lookup? (.ofString key.text) entries = some x →
      (unknown = false → Record.undeclaredKeys [key.text] entries = []) →
      Holds (.record s n key total unknown) v x

def outcome (t : Schema) (v : Value) : Layer → Except Fault Verdict → Except Fault Verdict
  | .optional _, inner => inner >>= under s!"in option<{t.name}>"
  | .union s, inner => inner.map fun verdict => passOr verdict.isNone (Schema.union s [t]).name v
  | .listOf _, inner => inner >>= under s!"in listOf<{t.name}> element"
  | .mapOf _, inner => inner >>= under s!"in attrsOf<{t.name}> value"
  | .record _ n key _ _, inner =>
    (inner >>= under s!"in member '{key.text}'") >>= under s!"in struct '{n.text}'"

def made : Layer → Except Fault Verdict → List FuncCall → List FuncCall
  | .optional _, _, calls | .union _, _, calls => calls
  | .listOf _, inner, calls | .mapOf _, inner, calls => looked inner calls
  | .record _ _ key _ _, inner, calls => looked (inner >>= under s!"in member '{key.text}'") calls

variable {h : Host (σ × List FuncCall)} {t : Schema} {inner : Except Fault Verdict}
variable {calls : List FuncCall} {v x : Value}

theorem makes_union (hx : Makes (t.verify h v) inner calls) (s : Nat) :
    Makes ((Schema.union s [t]).verify h v)
      (inner.map fun verdict => passOr verdict.isNone (Schema.union s [t]).name v) calls := by
  have hany : Makes (anyPasses v [t.verify h]) (inner.map Option.isNone) calls := by
    cases inner with
    | error fault => exact hx.bind_error
    | ok verdict =>
      rw [← List.append_nil calls]
      refine hx.bind_ok ?_
      cases verdict with
      | none => exact .ofExcept (.ok true)
      | some reason => exact .ofExcept (.ok false)
  have hrun := hany.followed (g := fun passes =>
    .ok (passOr passes (Schema.union s [t]).name v)) fun passes => rfl
  cases inner with
  | error fault => exact hrun
  | ok verdict => exact hrun

theorem makes_record {n key : Name} {total unknown : Bool} {entries : List (Value × Value)}
    (hv : v.entries? = some entries) (hfound : lookup? (.ofString key.text) entries = some x)
    (hknown : unknown = false → Record.undeclaredKeys [key.text] entries = [])
    (hx : Makes (t.verify h x) inner calls) (s : Nat) :
    Makes ((Schema.record s n [(key, t)] { total, unknown }).verify h v)
      ((inner >>= under s!"in member '{key.text}'") >>= under s!"in struct '{n.text}'")
      (looked (inner >>= under s!"in member '{key.text}'") calls) := by
  change Makes (Record.verify h n.text [(key.text, t.verify h)] { total, unknown } v) _ _
  unfold Record.verify
  rw [hv]
  refine Makes.inContext (Makes.firstStep (Makes.firstError ?_) ?_) _
  · unfold Record.checkMember
    rw [hfound]
    exact hx.inContext _
  · cases unknown with
    | true => exact .ofExcept (.ok none)
    | false =>
      change Makes (Record.firstStep [Record.checkUnknown [(key.text, t.verify h)] _]) _ _
      refine Makes.firstStep ?_ (.ofExcept (.ok none))
      rw [Record.checkUnknown_eq]
      change Makes (MonadExcept.ofExcept (Record.keysVerdict [key.text] _)) _ _
      rw [Record.keysVerdict_nil (hknown rfl)]
      exact .ofExcept (.ok none)

/-- One layer more: its outcome and its calls, by those inside it. -/
theorem makes {layer : Layer} (hholds : layer.Holds v x) (hx : Makes (t.verify h x) inner calls)
    (hnull : v ≠ .null) :
    Makes ((layer.around t).verify h v) (layer.outcome t v inner) (layer.made inner calls) := by
  cases hholds with
  | optional =>
    cases v with
    | null => exact absurd rfl hnull
    | _ => exact hx.inContext _
  | union => exact makes_union hx _
  | listOf hv =>
    change Makes ((Schema.listOf _ t).verify h v) _ _
    unfold Schema.verify
    rw [hv]
    exact hx.firstError.inContext _
  | mapOf hv =>
    change Makes ((Schema.mapOf _ t).verify h v) _ _
    unfold Schema.verify
    rw [hv]
    exact hx.firstError.inContext _
  | record hv hfound hknown => exact makes_record hv hfound hknown hx _

theorem Holds.ne_null {layer : Layer} (hholds : layer.Holds v x) (hx : x ≠ .null) :
    v ≠ .null := by
  rintro rfl
  cases hholds with
  | optional => exact hx rfl
  | union => exact hx rfl
  | listOf hv => cases hv
  | mapOf hv => cases hv
  | record hv _ _ => cases hv

theorem outcome_of_not_rejects (t : Schema) (v : Value) (calls : List FuncCall)
    (hinner : rejects inner = false) (layer : Layer) :
    layer.outcome t v inner = inner ∧ layer.made inner calls = calls := by
  cases inner with
  | error fault => cases layer <;> exact ⟨rfl, rfl⟩
  | ok verdict =>
    cases verdict with
    | none => cases layer <;> exact ⟨rfl, rfl⟩
    | some reason => cases hinner

/-- A reason with a text is told on under the context of the layer, or gives way to a message of its
own. -/
theorem outcome_of_text (t : Schema) (v : Value) (calls : List FuncCall) {reason : Value}
    (hreason : reason.HasText) (layer : Layer) :
    ∃ message, layer.outcome t v (.ok (some reason)) = .ok (some message) ∧ message.HasText ∧
      layer.made (.ok (some reason)) calls = if layer.doubles then calls ++ calls else calls := by
  obtain ⟨text, htext⟩ := hreason
  have hunder : ∀ context, under context (some reason) = .ok (.because s!"{context}: {text}") := by
    intro context
    rw [under, htext]
    rfl
  cases layer with
  | optional s => exact ⟨_, hunder _, ⟨_, rfl⟩, rfl⟩
  | union s => exact ⟨_, rfl, ⟨_, rfl⟩, rfl⟩
  | listOf s => exact ⟨_, hunder _, ⟨_, rfl⟩, rfl⟩
  | mapOf s => exact ⟨_, hunder _, ⟨_, rfl⟩, rfl⟩
  | record s n key total unknown =>
    obtain ⟨inner, hinner⟩ : ∃ inner,
        under s!"in member '{key.text}'" (some reason) = .ok (.because inner) := ⟨_, hunder _⟩
    obtain ⟨message, hmessage⟩ : ∃ message,
        under s!"in struct '{n.text}'" (.because inner) = .ok (.because message) := ⟨_, rfl⟩
    refine ⟨.ofString message, ?_, ⟨_, rfl⟩, ?_⟩
    · change under s!"in member '{key.text}'" (some reason) >>= under _ = _
      rw [hinner]
      exact hmessage
    · change looked (under s!"in member '{key.text}'" (some reason)) calls = _
      rw [hinner]
      rfl

end Layer

def wrap (layers : List Layer) (t : Schema) : Schema := layers.foldr Layer.around t

/-- Layer by layer, the value has one thing in it, and in the end the leaf. -/
inductive Nested : List Layer → Value → Value → Prop
  | leaf (x) : Nested [] x x
  | layer {l layers v w x} : l.Holds v w → Nested layers w x → Nested (l :: layers) v x

namespace Nested

variable {layers : List Layer} {v x : Value}

theorem ne_null (hnested : Nested layers v x) (hx : x ≠ .null) : v ≠ .null := by
  induction hnested with
  | leaf => exact hx
  | layer hholds _ ih => exact hholds.ne_null (ih hx)

theorem append_singleton {last : Layer} (hnested : Nested (layers ++ [last]) v x) :
    ∃ w, Nested layers v w ∧ last.Holds w x := by
  induction layers generalizing v with
  | nil =>
    cases hnested with
    | layer hholds hleaf =>
      cases hleaf
      exact ⟨v, .leaf v, hholds⟩
  | cons l layers ih =>
    cases hnested with
    | layer hholds hrest =>
      obtain ⟨w, hlayers, hlast⟩ := ih hrest
      exact ⟨w, .layer hholds hlayers, hlast⟩

variable {h : Host (σ × List FuncCall)} {t : Schema} {inner : Except Fault Verdict}

theorem makes_of_not_rejects {calls : List FuncCall} (hnested : Nested layers v x)
    (hnull : x ≠ .null) (hinner : rejects inner = false) (hx : Makes (t.verify h x) inner calls) :
    Makes ((wrap layers t).verify h v) inner calls := by
  induction hnested with
  | leaf => exact hx
  | @layer l layers v w x hholds hrest ih =>
    have hrun := Layer.makes hholds (ih hnull hx) (hholds.ne_null (hrest.ne_null hnull))
    obtain ⟨houtcome, hmade⟩ :=
      Layer.outcome_of_not_rejects (wrap layers t) v calls hinner l
    rw [houtcome, hmade] at hrun
    exact hrun

/-- A reason that can be told is looked up once more in each layer with two passes. -/
theorem makes_of_text {reason : Value} {k : Nat} {call : FuncCall} (hnested : Nested layers v x)
    (hnull : x ≠ .null) (hreason : reason.HasText)
    (hx : Makes (t.verify h x) (.ok (some reason)) (List.replicate k call)) :
    ∃ message, message.HasText ∧ Makes ((wrap layers t).verify h v) (.ok (some message))
      (List.replicate (2 ^ layers.countP Layer.doubles * k) call) := by
  induction hnested with
  | leaf =>
    rw [List.countP_nil, Nat.pow_zero, Nat.one_mul]
    exact ⟨reason, hreason, hx⟩
  | @layer l layers v w x hholds hrest ih =>
    obtain ⟨inside, hinside, hlayers⟩ := ih hnull hx
    have hrun := Layer.makes hholds hlayers (hholds.ne_null (hrest.ne_null hnull))
    obtain ⟨message, houtcome, hmessage, hmade⟩ :=
      Layer.outcome_of_text (wrap layers t) v
        (List.replicate (2 ^ layers.countP Layer.doubles * k) call) hinside l
    rw [houtcome, hmade] at hrun
    refine ⟨message, hmessage, ?_⟩
    cases hdoubles : l.doubles with
    | false =>
      rw [List.countP_cons_of_neg (by simp [hdoubles])]
      simp only [hdoubles, Bool.false_eq_true, if_false] at hrun
      exact hrun
    | true =>
      have htwice : 2 ^ (layers.countP Layer.doubles + 1) * k =
          2 ^ layers.countP Layer.doubles * k + 2 ^ layers.countP Layer.doubles * k := by
        rw [Nat.pow_succ, Nat.mul_right_comm, Nat.mul_two]
      rw [List.countP_cons_of_pos hdoubles, htwice, ← List.replicate_append_replicate]
      simp only [hdoubles, if_true] at hrun
      exact hrun

end Nested

/-- How often a reason is asked for that has no text. It gets no further than the innermost layer,
unless that has a message of its own. -/
def callsWithoutText (layers : List Layer) : Nat :=
  match layers.getLast? with
  | some (.optional _) | some (.record _ _ _ _ _) => 1
  | some (.listOf _) | some (.mapOf _) => 2
  | some (.union _) | none => 2 ^ layers.countP Layer.doubles

namespace Nested

variable {layers : List Layer} {v x : Value} {h : Host (σ × List FuncCall)} {t : Schema}

theorem makes_of_noText {reason : Value} {fault : Fault} {call : FuncCall}
    (hnested : Nested layers v x) (hnull : x ≠ .null) (hreason : reason.plainText? = .error fault)
    (hx : Makes (t.verify h x) (.ok (some reason)) [call]) :
    ∃ outcome, Makes ((wrap layers t).verify h v) outcome
      (List.replicate (callsWithoutText layers) call) := by
  have hunder : ∀ context, under context (some reason) = .error fault := by
    intro context
    rw [under, hreason]
    rfl
  rcases List.eq_nil_or_concat layers with rfl | ⟨outer, last, rfl⟩
  · cases hnested with
    | leaf => exact ⟨_, hx⟩
  · rw [List.concat_eq_append] at hnested ⊢
    obtain ⟨w, houter, hlast⟩ := hnested.append_singleton
    have hw : w ≠ .null := hlast.ne_null hnull
    have hrun := Layer.makes hlast hx hw
    rw [wrap, List.foldr_append]
    unfold callsWithoutText
    rw [List.getLast?_concat]
    cases last with
    | union s =>
      obtain ⟨message, -, hmakes⟩ := houter.makes_of_text (k := 1) hw ⟨_, rfl⟩ hrun
      refine ⟨.ok (some message), ?_⟩
      rw [List.countP_append]
      rw [Nat.mul_one] at hmakes
      exact hmakes
    | optional s =>
      refine ⟨_, houter.makes_of_not_rejects hw ?_ hrun⟩
      exact congrArg rejects (hunder _)
    | listOf s =>
      refine ⟨_, houter.makes_of_not_rejects hw ?_ hrun⟩
      exact congrArg rejects (hunder _)
    | mapOf s =>
      refine ⟨_, houter.makes_of_not_rejects hw ?_ hrun⟩
      exact congrArg rejects (hunder _)
    | record s n key total unknown =>
      change Makes _ ((under s!"in member '{key.text}'" (some reason)) >>= _)
        (looked (under s!"in member '{key.text}'" (some reason)) _) at hrun
      rw [hunder] at hrun
      exact ⟨_, houter.makes_of_not_rejects hw rfl hrun⟩

end Nested

section Innermost

variable {h : Host σ} {f : Func} {answer : Except Fault Value} {x : Value}

theorem makes_custom (hf : f.misfit? = none) (hsame : ∀ s, (h.answer f x s).1 = answer)
    (n : Name) :
    Makes ((Schema.custom n f).verify h.recording x) (answer.map Verdict.ofAnswer)
      [⟨(f, x), answer⟩] := by
  have hrun := (Makes.call hf hsame).followed (g := fun a => .ok (Verdict.ofAnswer a)) fun a => rfl
  cases answer with
  | ok a => exact hrun
  | error fault => exact hrun

theorem Makes.calls_eq {t : Schema} {v : Value} {outcome : Except Fault Verdict}
    {made : List FuncCall} (hmakes : Makes (t.verify h.recording v) outcome made) (s : σ) :
    t.calls h v s = made :=
  (hmakes (s, [])).2

end Innermost

/-- A function that has nothing to say is called once, whatever is around it. A reason that can be
told is asked for twice in each layer with two passes, and twice again in each such layer around
that. Every call is about the leaf. -/
theorem calls_wrap {h : Host σ} {f : Func} {answer : Except Fault Value} {layers : List Layer}
    {v leaf : Value} (hnested : Nested layers v leaf) (hleaf : leaf ≠ .null)
    (hf : f.misfit? = none) (hsame : ∀ s, (h.answer f leaf s).1 = answer) (n : Name) (s : σ) :
    let calls := (wrap layers (.custom n f)).calls h v s
    let call : FuncCall := ⟨(f, leaf), answer⟩
    (answer = .ok .null → calls = [call]) ∧
    (∀ reason, answer = .ok reason → reason ≠ .null → reason.HasText →
      calls = List.replicate (2 ^ layers.countP Layer.doubles) call) ∧
    (∀ reason fault, answer = .ok reason → reason.plainText? = .error fault →
      calls = List.replicate (callsWithoutText layers) call) ∧
    (∀ fault, answer = .error fault → calls = [call]) := by
  have hcustom := makes_custom hf hsame n
  have hsome : ∀ reason, reason ≠ .null → Verdict.ofAnswer reason = some reason := by
    intro reason hreason
    cases reason <;> first | rfl | exact absurd rfl hreason
  refine ⟨?_, ?_, ?_, ?_⟩
  · rintro rfl
    exact (hnested.makes_of_not_rejects hleaf rfl hcustom).calls_eq s
  · rintro reason rfl hreason htext
    change Makes _ (.ok (Verdict.ofAnswer reason)) _ at hcustom
    rw [hsome reason hreason] at hcustom
    obtain ⟨message, -, hmakes⟩ := hnested.makes_of_text (k := 1) hleaf htext hcustom
    rw [Nat.mul_one] at hmakes
    exact hmakes.calls_eq s
  · rintro reason fault rfl htext
    have hreason : reason ≠ .null := by
      rintro rfl
      cases htext
    change Makes _ (.ok (Verdict.ofAnswer reason)) _ at hcustom
    rw [hsome reason hreason] at hcustom
    obtain ⟨outcome, hmakes⟩ := hnested.makes_of_noText hleaf htext hcustom
    exact hmakes.calls_eq s
  · rintro fault rfl
    exact (hnested.makes_of_not_rejects hleaf rfl hcustom).calls_eq s

/-- One layer of each kind. -/
def fiveLayers : List Layer :=
  [.record 4 "svc" "ports" true false, .optional 3, .listOf 2, .union 1, .mapOf 0]

def web : Value := .ofFields [("web", .ofInt 80)]

def services : Value := .ofFields [("ports", .list .base [web])]

theorem services_nested : Nested fiveLayers services (.ofInt 80) :=
  .layer (.record rfl rfl fun _ => by decide) <| .layer .optional <| .layer (.listOf rfl) <|
    .layer .union <| .layer (.mapOf rfl) <| .leaf _

def answering (answer : Value) : Host Unit := .ofAnswers fun _ _ => .ok answer

theorem calls_wrap_fiveLayers :
    (wrap fiveLayers (.custom "port" (Schema.sample 0))).calls (answering (.ofString "no"))
        services () =
      List.replicate 8 ⟨(Schema.sample 0, .ofInt 80), .ok (.ofString "no")⟩ := by
  have hnested := services_nested
  have hleaf : Value.ofInt 80 ≠ .null := nofun
  have hno : Value.ofString "no" ≠ .null := nofun
  exact (calls_wrap hnested hleaf rfl (fun _ => rfl) "port" ()).2.1 _ rfl hno ⟨"no", rfl⟩

def textless : Value := .object "Broken" .refused 0

/-- A reason that has no text ends the verification before an outer layer asks again. -/
theorem calls_twice_without_text :
    Nested [.listOf 1, .listOf 0] (.list .base [.list .base [.ofInt 1]]) (.ofInt 1) ∧
    (∀ s, ((answering textless).answer (Schema.sample 0) (.ofInt 1) s).1 = .ok textless) ∧
    ((wrap [.listOf 1, .listOf 0] (.custom "t" (Schema.sample 0))).calls (answering textless)
      (.list .base [.list .base [.ofInt 1]]) ()).length = 2 ∧
    2 ^ [Layer.listOf 1, .listOf 0].countP Layer.doubles = 4 :=
  ⟨.layer (.listOf rfl) (.layer (.listOf rfl) (.leaf _)), fun _ => rfl, rfl, rfl⟩

end Conformance

/- The reference for verification: one pass over schema and value, depth first, that stops at the
   first reason and at the first fault. Verification comes to its outcome, with all its second
   passes, where each function has one answer to each value. -/
import Conformance.Proofs.SchemaInduction
import Conformance.Proofs.Settling
namespace Conformance

abbrev Answers := Func → Value → Except Fault Value

/-- The reason under a segment of context, if there is one and it has a text. -/
def under (context : String) : Verdict → Except Fault Verdict
  | none => .ok none
  | some reason => do return .because s!"{context}: {← reason.plainText?}"

theorem under_eq_none_iff {context : String} {verdict : Verdict} :
    under context verdict = .ok none ↔ verdict = none := by
  constructor
  · intro h
    cases verdict with
    | none => rfl
    | some reason =>
      obtain ⟨text, _, h⟩ := bind_eq_ok_iff.mp h
      cases h
  · rintro rfl
    rfl

/-- The outcome of a check, or of the next one if it passes. -/
def followedBy (first next : Except Fault Verdict) : Except Fault Verdict :=
  match first with
  | .ok none => next
  | outcome => outcome

theorem followedBy_none (first : Except Fault Verdict) : followedBy first (.ok none) = first := by
  cases first with
  | error fault => rfl
  | ok verdict => cases verdict <;> rfl

theorem followedBy_eq_iff {first next outcome : Except Fault Verdict} (hne : outcome ≠ .ok none) :
    followedBy first next = outcome ↔ first = outcome ∨ first = .ok none ∧ next = outcome := by
  unfold followedBy
  split
  next =>
    constructor
    · intro h
      exact .inr ⟨rfl, h⟩
    · rintro (h | ⟨_, h⟩)
      · exact absurd h.symm hne
      · exact h
  next hfirst =>
    constructor
    · exact .inl
    · rintro (h | ⟨h, _⟩)
      · exact h
      · exact absurd h hfirst

theorem followedBy_eq_none_iff {first next : Except Fault Verdict} :
    followedBy first next = .ok none ↔ first = .ok none ∧ next = .ok none := by
  unfold followedBy
  split
  next => simp
  next hfirst => exact ⟨fun h => absurd h hfirst, fun h => absurd h.1 hfirst⟩

namespace Record

def memberVerdict (check : Value → Except Fault Verdict) (total : Bool)
    (entries : List (Value × Value)) (key : String) : Except Fault Verdict :=
  match lookup? (.ofString key) entries with
  | some v => do under s!"in member '{key}'" (← check v)
  | none => .ok (if total then .because s!"missing member '{key}'" else none)

/-- The keys of a mapping that are none of the declared names, in the order of the mapping. -/
def undeclaredKeys (declared : List String) (entries : List (Value × Value)) : List Value :=
  (entries.map (·.1)).filter (fun key => !declared.any (fun name => (Value.ofString name).same key))

def unrecognizedText (shown expected : String) : String :=
  s!"keys [{shown}] are unrecognized, expected keys are [{expected}]"

def keysVerdict (declared : List String) (entries : List (Value × Value)) :
    Except Fault Verdict :=
  match undeclaredKeys declared entries with
  | [] => .ok none
  | keys => do
    let shown ← joinKeys? keys
    let expected ← joinKeys? (declared.map .ofString)
    return .because (unrecognizedText shown expected)

/-- The verdict on a mapping whose declared members are in order: on its other keys if they are
forbidden, then by the function on the whole if there is one. -/
def restVerdict (out : Answers) (policy : Policy) (declared : List String) (v : Value)
    (entries : List (Value × Value)) : Except Fault Verdict :=
  followedBy (if policy.unknown then .ok none else keysVerdict declared entries)
    (match policy.extra with
      | none => .ok none
      | some f => do return .ofAnswer (← out f v))

variable {out : Answers}

def nameList (names : List String) : String :=
  ", ".intercalate (names.map fun name => literalText name.toList)

theorem joinKeys?_names (names : List Name) :
    joinKeys? (names.map .ofName) = .ok (nameList (names.map (·.text))) := by
  have hlines : Value.lines? false (names.map .ofName) =
      .ok ((names.map (·.text)).map fun name => literalText name.toList) := by
    induction names with
    | nil => rfl
    | cons name names ih =>
      rw [List.map_cons, Value.lines?, ih]
      rfl
  rw [joinKeys?, hlines]
  rfl

theorem joinKeys?_declared (declared : List String) :
    joinKeys? (declared.map .ofString) = .ok (nameList declared) := by
  have hnames := joinKeys?_names (declared.map fun name => ⟨.base, name⟩)
  rw [List.map_map, List.map_map, Function.comp_def, Function.comp_def, List.map_id'] at hnames
  exact hnames

theorem keysVerdict_nil {declared : List String} {entries : List (Value × Value)}
    (h : undeclaredKeys declared entries = []) : keysVerdict declared entries = .ok none := by
  rw [keysVerdict, h]

theorem keysVerdict_cons {declared : List String} {entries : List (Value × Value)}
    {keys : List Value} (h : undeclaredKeys declared entries = keys) (hne : keys ≠ []) :
    keysVerdict declared entries = joinKeys? keys >>= fun shown =>
      .ok (.because (unrecognizedText shown (nameList declared))) := by
  unfold keysVerdict
  rw [h, joinKeys?_declared]
  cases keys with
  | nil => exact absurd rfl hne
  | cons key keys => rfl

theorem keysVerdict_eq_none_iff {declared : List String} {entries : List (Value × Value)} :
    keysVerdict declared entries = .ok none ↔ undeclaredKeys declared entries = [] := by
  constructor
  · intro h
    by_cases hkeys : undeclaredKeys declared entries = []
    · exact hkeys
    · rw [keysVerdict_cons rfl hkeys] at h
      obtain ⟨shown, _, h⟩ := bind_eq_ok_iff.mp h
      cases h
  · exact keysVerdict_nil

theorem keysVerdict_eq_error_iff {declared : List String} {entries : List (Value × Value)}
    {fault : Fault} : keysVerdict declared entries = .error fault ↔
      undeclaredKeys declared entries ≠ [] ∧
        joinKeys? (undeclaredKeys declared entries) = .error fault := by
  by_cases hkeys : undeclaredKeys declared entries = []
  · rw [keysVerdict_nil hkeys]
    simp [hkeys]
  · rw [keysVerdict_cons rfl hkeys, bind_eq_error_iff]
    simp [hkeys]

theorem optionalKeys_eq_none_iff {unknown : Bool} {declared : List String}
    {entries : List (Value × Value)} :
    (if unknown then .ok none else keysVerdict declared entries) = .ok none ↔
      (unknown = false → undeclaredKeys declared entries = []) := by
  cases unknown with
  | true => simp
  | false => simp [keysVerdict_eq_none_iff]

theorem restVerdict_eq_error_iff {policy : Policy} {declared : List String} {v : Value}
    {entries : List (Value × Value)} {fault : Fault} :
    restVerdict out policy declared v entries = .error fault ↔
      (policy.unknown = false ∧ undeclaredKeys declared entries ≠ [] ∧
        joinKeys? (undeclaredKeys declared entries) = .error fault) ∨
      ((policy.unknown = false → undeclaredKeys declared entries = []) ∧
        ∃ f, policy.extra = some f ∧ out f v = .error fault) := by
  unfold restVerdict
  rw [followedBy_eq_iff (by simp), optionalKeys_eq_none_iff]
  refine or_congr ?_ (and_congr_right fun _ => ?_)
  · cases policy.unknown with
    | true => simp
    | false => simp [keysVerdict_eq_error_iff]
  · cases policy.extra with
    | none => simp
    | some f =>
      change (out f v >>= fun a => .ok (Verdict.ofAnswer a)) = .error fault ↔ _
      rw [bind_eq_error_iff]
      simp

end Record

namespace Schema

mutual

def evaluate (out : Answers) : Schema → Value → Except Fault Verdict
  | .primitive p, v => .ok (passOr (p.accepts v) p.name v)
  | .custom _ f, v => do return .ofAnswer (← out f v)
  | .predicate _ n f, v => do return passOr (← out f v).truthy n.text v
  | .optional _ t, v =>
    match v with
    | .null => .ok none
    | v => do under s!"in option<{t.name}>" (← evaluate out t v)
  | .listOf _ t, v =>
    match v.items? with
    | none => .ok (.because (v.mismatch s!"listOf<{t.name}>"))
    | some items => do under s!"in listOf<{t.name}> element" (← firstReason (evaluate out t) items)
  | .mapOf _ t, v =>
    match v.entries? with
    | none => .ok (.because (v.mismatch s!"attrsOf<{t.name}>"))
    | some entries => do
      under s!"in attrsOf<{t.name}> value" (← firstReason (evaluate out t) (entries.map (·.2)))
  | .union s ts, v => do
    return passOr (← evaluateAny out v ts) (Schema.union s ts).name v
  | .enumeration _ n elems, v =>
    .ok (if elems.any (v.sameMember ·) then none
      else .because s!"'{v.pretty}' is not a member of enum '{n.text}'")
  | .record _ n members policy, v => do
    let context := s!"in struct '{n.text}'"
    match v.entries? with
    | none => under context (.because (v.mismatch n.text))
    | some entries =>
      under context (← followedBy (evaluateMembers out policy.total entries members)
        (Record.restVerdict out policy (members.map (·.1.text)) v entries))
termination_by structural t => t

/-- Whether a schema of the list accepts the value. The first that does ends the pass. -/
def evaluateAny (out : Answers) (v : Value) : List Schema → Except Fault Bool
  | [] => .ok false
  | t :: ts =>
    match evaluate out t v with
    | .ok none => .ok true
    | .ok (some _) => evaluateAny out v ts
    | .error fault => .error fault
termination_by structural ts => ts

def evaluateMembers (out : Answers) (total : Bool) (entries : List (Value × Value)) :
    List (Name × Schema) → Except Fault Verdict
  | [] => .ok none
  | (key, t) :: members =>
    match Record.memberVerdict (evaluate out t) total entries key.text with
    | .ok none => evaluateMembers out total entries members
    | outcome => outcome
termination_by structural members => members

end

theorem evaluateAny_eq (out : Answers) (v : Value) (ts : List Schema) :
    evaluateAny out v ts = somePasses (fun t => t.evaluate out v) ts := by
  induction ts with
  | nil => rfl
  | cons t ts ih =>
    cases hcheck : evaluate out t v with
    | error fault => simp only [evaluateAny, somePasses, hcheck]
    | ok verdict =>
      cases verdict with
      | none => simp only [evaluateAny, somePasses, hcheck]
      | some reason => simp only [evaluateAny, somePasses, hcheck, ih]

def memberCheck (out : Answers) (total : Bool) (entries : List (Value × Value))
    (m : Name × Schema) : Except Fault Verdict :=
  Record.memberVerdict (m.2.evaluate out) total entries m.1.text

theorem evaluateMembers_eq (out : Answers) (total : Bool) (entries : List (Value × Value))
    (members : List (Name × Schema)) :
    evaluateMembers out total entries members =
      firstReason (memberCheck out total entries) members := by
  induction members with
  | nil => rfl
  | cons m members ih =>
    unfold evaluateMembers firstReason
    rw [ih]
    rfl

section Clauses

variable {out : Answers} {v : Value}

theorem evaluate_optional {t : Schema} (h : v ≠ .null) (s : Nat) :
    (Schema.optional s t).evaluate out v =
      t.evaluate out v >>= under s!"in option<{t.name}>" := by
  cases v with
  | null => exact absurd rfl h
  | _ => rfl

theorem evaluate_listOf {items : List Value} (h : v.items? = some items) (s : Nat) (t : Schema) :
    (Schema.listOf s t).evaluate out v =
      firstReason (t.evaluate out) items >>= under s!"in listOf<{t.name}> element" := by
  rw [evaluate, h]

theorem evaluate_mapOf {entries : List (Value × Value)} (h : v.entries? = some entries) (s : Nat)
    (t : Schema) : (Schema.mapOf s t).evaluate out v =
      firstReason (t.evaluate out) (entries.map (·.2)) >>=
        under s!"in attrsOf<{t.name}> value" := by
  rw [evaluate, h]

theorem evaluate_union (s : Nat) (ts : List Schema) :
    (Schema.union s ts).evaluate out v = somePasses (fun t => t.evaluate out v) ts >>=
      fun passes => .ok (passOr passes (Schema.union s ts).name v) := by
  rw [evaluate, evaluateAny_eq]
  rfl

theorem evaluate_record {entries : List (Value × Value)} (h : v.entries? = some entries) (s : Nat)
    (n : Name) (members : List (Name × Schema)) (policy : Policy) :
    (Schema.record s n members policy).evaluate out v =
      followedBy (firstReason (memberCheck out policy.total entries) members)
        (Record.restVerdict out policy (members.map (·.1.text)) v entries) >>=
        under s!"in struct '{n.text}'" := by
  rw [evaluate, h, ← evaluateMembers_eq]

theorem evaluate_record_mismatch (h : v.entries? = none) (s : Nat) (n : Name)
    (members : List (Name × Schema)) (policy : Policy) :
    (Schema.record s n members policy).evaluate out v =
      under s!"in struct '{n.text}'" (.because (v.mismatch n.text)) := by
  rw [evaluate, h]

end Clauses

end Schema

end Conformance

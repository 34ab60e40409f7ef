/- What can be shown in a message. The reasons of the one pass have texts where the answers of the
   functions do, and the keys that it lists where the keys of the value do. -/
import Conformance.Proofs.Evaluation
namespace Conformance

variable {out : Answers}

def Value.HasText (v : Value) : Prop := ∃ text, v.plainText? = .ok text

def Answers.Speaks (out : Answers) (f : Func) : Prop := ∀ v a, out f v = .ok a → a.HasText

/-- Texts of the base class, as the messages of the library are. -/
def Value.IsMessage (v : Value) : Prop := ∃ text, v = .ofString text

theorem Value.IsMessage.hasText {v : Value} (h : v.IsMessage) : v.HasText := by
  obtain ⟨text, rfl⟩ := h
  exact ⟨text, rfl⟩

theorem because_isMessage {text : String} {reason : Value}
    (h : (.ok (.because text) : Except Fault Verdict) = .ok (some reason)) :
    reason.IsMessage := by
  cases h
  exact ⟨text, rfl⟩

theorem under_isMessage {context : String} {verdict : Verdict} {reason : Value}
    (h : under context verdict = .ok (some reason)) : reason.IsMessage := by
  cases verdict with
  | none => cases h
  | some inner =>
    obtain ⟨text, _, h⟩ := bind_eq_ok_iff.mp h
    exact because_isMessage h

theorem bind_under_isMessage {outcome : Except Fault Verdict} {context : String} {reason : Value}
    (h : (outcome >>= under context) = .ok (some reason)) : reason.IsMessage := by
  obtain ⟨verdict, _, h⟩ := bind_eq_ok_iff.mp h
  exact under_isMessage h

theorem passOr_isMessage {passes : Bool} {name : String} {v reason : Value}
    (h : passOr passes name v = some reason) : reason.IsMessage := by
  cases passes with
  | true => cases h
  | false =>
    cases h
    exact ⟨_, rfl⟩

/-- A segment of context raises nothing where what is under it has a text. -/
theorem bind_under_eq_error_iff {outcome : Except Fault Verdict} {context : String}
    {fault : Fault} (h : ∀ reason, outcome = .ok (some reason) → reason.HasText) :
    (outcome >>= under context) = .error fault ↔ outcome = .error fault := by
  rw [bind_eq_error_iff]
  constructor
  · rintro (herror | ⟨verdict, hok, hunder⟩)
    · exact herror
    · cases verdict with
      | none => cases hunder
      | some reason =>
        obtain ⟨text, htext⟩ := h reason hok
        rw [under, htext] at hunder
        cases hunder
  · exact .inl

/-- Faults in the way of a text. -/
inductive Fault.OfText : Fault → Prop
  | digitLimit : OfText .digitLimit
  | noText : OfText .noText

namespace Value

open Fault

theorem intText?_fault {n : Int} {fault : Fault} (h : intText? n = .error fault) :
    fault.OfText := by
  unfold intText? at h
  split at h
  next => cases h
  next =>
    cases h
    exact .digitLimit

/-- A text fails only by the text of a part. -/
theorem bind_fault {α β : Type} {text : Except Fault α} {rest : α → Except Fault β}
    {fault : Fault}
    (h : text >>= rest = .error fault) (htext : text = .error fault → fault.OfText)
    (hrest : ∀ a, rest a = .error fault → fault.OfText) : fault.OfText := by
  rcases bind_eq_error_iff.mp h with herror | ⟨a, -, herror⟩
  · exact htext herror
  · exact hrest a herror

mutual

theorem line?_fault {fault : Fault} (guarded : Bool) :
    ∀ v : Value, line? guarded v = .error fault → fault.OfText
  | .null | .bool _ | .float _ _ | .text _ _ | .octets false _ | .octets true _ | .func _
  | .object _ .plain _ | .object _ (.text _) _ | .loopList _ | .loopMapping _ => nofun
  | .int _ n => intText?_fault
  | .object _ .refused _ => by
    rintro ⟨⟩
    exact .noText
  | .list _ items => fun h => bind_fault h (lines?_fault guarded items) fun _ => nofun
  | .tuple _ items => fun h => bind_fault h (lines?_fault guarded items) fun _ => nofun
  | .set _ items => fun h => bind_fault h (lines?_fault false items) fun _ => nofun
  | .mapping (.plain _) entries => fun h =>
    bind_fault h (rows?_fault guarded entries) fun _ => nofun
  | .mapping .ordered entries => fun h => bind_fault h (rows?_fault false entries) fun _ => nofun
  | .mapping .readOnly entries => fun h => bind_fault h (rows?_fault false entries) fun _ => nofun
  | .schema t => schemaLine?_fault t
termination_by structural v => v

theorem lines?_fault {fault : Fault} (guarded : Bool) :
    ∀ vs : List Value, lines? guarded vs = .error fault → fault.OfText
  | [] => nofun
  | v :: vs => fun h =>
    bind_fault h (line?_fault guarded v) fun _ h => bind_fault h (lines?_fault guarded vs)
      fun _ => nofun
termination_by structural vs => vs

theorem rows?_fault {fault : Fault} (guarded : Bool) :
    ∀ rows : List (Value × Value), rows? guarded rows = .error fault → fault.OfText
  | [] => nofun
  | (k, v) :: rows => fun h =>
    bind_fault h (line?_fault guarded k) fun _ h => bind_fault h (line?_fault guarded v)
      fun _ h => bind_fault h (rows?_fault guarded rows) fun _ => nofun
termination_by structural rows => rows

theorem schemaLine?_fault {fault : Fault} :
    ∀ t : Schema, schemaLine? t = .error fault → fault.OfText
  | .primitive _ | .custom _ _ | .predicate _ _ _ | .optional _ _ | .listOf _ _ | .mapOf _ _
  | .union _ _ => nofun
  | .enumeration _ _ elems => fun h => bind_fault h (lines?_fault false elems) fun _ => nofun
  | .record _ _ members _ => fun h => bind_fault h (memberRows?_fault members) fun _ => nofun
termination_by structural t => t

theorem memberRows?_fault {fault : Fault} :
    ∀ members : List (Name × Schema), memberRows? members = .error fault → fault.OfText
  | [] => nofun
  | (_, t) :: members => fun h =>
    bind_fault h (schemaLine?_fault t) fun _ h => bind_fault h (memberRows?_fault members)
      fun _ => nofun
termination_by structural members => members

end

theorem plainText?_fault {v : Value} {fault : Fault} (h : v.plainText? = .error fault) :
    fault.OfText := by
  unfold plainText? at h
  split at h
  next => cases h
  next => exact line?_fault _ _ h
  next => exact line?_fault _ _ h

end Value

namespace Value

mutual

/-- The keys of all mappings in a value have texts, at every depth. -/
def keysShown : Value → Bool
  | .list _ items | .tuple _ items | .set _ items => itemKeysShown items
  | .mapping _ entries => entryKeysShown entries
  | _ => true
termination_by structural v => v

def itemKeysShown : List Value → Bool
  | [] => true
  | v :: vs => keysShown v && itemKeysShown vs
termination_by structural vs => vs

def entryKeysShown : List (Value × Value) → Bool
  | [] => true
  | (k, v) :: rest => (line? false k).isOk && keysShown v && entryKeysShown rest
termination_by structural es => es

end

theorem itemKeysShown_mem {items : List Value} (h : itemKeysShown items = true) {x : Value}
    (hx : x ∈ items) : x.keysShown = true := by
  induction items with
  | nil => cases hx
  | cons y items ih =>
    obtain ⟨hy, hitems⟩ := (Bool.and_eq_true _ _).mp h
    cases hx with
    | head => exact hy
    | tail _ hx => exact ih hitems hx

theorem entryKeysShown_mem {entries : List (Value × Value)} (h : entryKeysShown entries = true)
    {e : Value × Value} (he : e ∈ entries) :
    (∃ text, line? false e.1 = .ok text) ∧ e.2.keysShown = true := by
  induction entries with
  | nil => cases he
  | cons d entries ih =>
    obtain ⟨hd, hentries⟩ := (Bool.and_eq_true _ _).mp h
    cases he with
    | tail _ he => exact ih hentries he
    | head =>
      obtain ⟨hkey, hvalue⟩ := (Bool.and_eq_true _ _).mp hd
      refine ⟨?_, hvalue⟩
      cases hline : line? false e.1 with
      | ok text => exact ⟨text, rfl⟩
      | error fault =>
        rw [hline] at hkey
        cases hkey

theorem keysShown_item {v : Value} (h : v.keysShown = true) {items : List Value}
    (hitems : v.items? = some items) {x : Value} (hx : x ∈ items) : x.keysShown = true := by
  cases v with
  | list l items' =>
    cases hitems
    exact itemKeysShown_mem h hx
  | tuple l items' =>
    cases hitems
    exact itemKeysShown_mem h hx
  | loopList stamp =>
    cases hitems
    simp only [List.mem_cons, List.not_mem_nil, or_false] at hx
    rcases hx with rfl | rfl <;> rfl
  | _ => cases hitems

theorem keysShown_entry {v : Value} (h : v.keysShown = true) {entries : List (Value × Value)}
    (hentries : v.entries? = some entries) {e : Value × Value} (he : e ∈ entries) :
    (∃ text, line? false e.1 = .ok text) ∧ e.2.keysShown = true := by
  cases v with
  | mapping k entries' =>
    cases hentries
    exact entryKeysShown_mem h he
  | loopMapping stamp =>
    cases hentries
    cases List.mem_singleton.mp he
    exact ⟨⟨_, rfl⟩, rfl⟩
  | _ => cases hentries

end Value

theorem lookup?_mem {α : Type} {key : Value} {entries : List (Value × α)} {x : α}
    (h : lookup? key entries = some x) : ∃ k, (k, x) ∈ entries := by
  obtain ⟨e, hfind, rfl⟩ := Option.map_eq_some_iff.mp h
  exact ⟨e.1, List.mem_of_find?_eq_some hfind⟩

namespace Verdict

theorem ofAnswer_eq_some {a reason : Value} (h : ofAnswer a = some reason) : reason = a := by
  cases a with
  | null => cases h
  | _ => exact (Option.some.inj h).symm

theorem ofAnswer_eq_none_iff {a : Value} : ofAnswer a = none ↔ a = .null := by
  cases a with
  | null => exact ⟨fun _ => rfl, fun _ => rfl⟩
  | _ => exact ⟨fun h => (Option.some_ne_none _ h).elim, fun h => nomatch h⟩

theorem ne_null_of_ofAnswer {a reason : Value} (h : ofAnswer a = some reason) : a ≠ .null := by
  intro hnull
  cases (ofAnswer_eq_none_iff.mpr hnull).symm.trans h

end Verdict

namespace Record

theorem lines?_eq_error_of_joinKeys? {keys : List Value} {fault : Fault}
    (h : joinKeys? keys = .error fault) : Value.lines? false keys = .error fault := by
  unfold joinKeys? at h
  cases hlines : Value.lines? false keys with
  | ok texts =>
    rw [hlines] at h
    cases h
  | error fault' =>
    rw [hlines] at h
    cases h
    rfl

/-- A list of keys raises what its first key without a text does. -/
theorem joinKeys?_eq_error_iff {keys : List Value} {fault : Fault} :
    joinKeys? keys = .error fault ↔ ∃ before key after, keys = before ++ key :: after ∧
      (∀ k ∈ before, ∃ text, Value.line? false k = .ok text) ∧
      Value.line? false key = .error fault := by
  constructor
  · intro h
    have hlines := lines?_eq_error_of_joinKeys? h
    clear h
    induction keys with
    | nil => cases hlines
    | cons key keys ih =>
      rw [Value.lines?] at hlines
      rcases bind_eq_error_iff.mp hlines with hkey | ⟨text, hkey, hrest⟩
      · exact ⟨[], key, keys, rfl, by simp, hkey⟩
      · rcases bind_eq_error_iff.mp hrest with hkeys | ⟨texts, _, h⟩
        · obtain ⟨before, k, after, rfl, hbefore, hk⟩ := ih hkeys
          exact ⟨key :: before, k, after, rfl, List.forall_mem_cons.mpr ⟨⟨text, hkey⟩, hbefore⟩, hk⟩
        · cases h
  · rintro ⟨before, key, after, rfl, hbefore, hkey⟩
    have hlines : Value.lines? false (before ++ key :: after) = .error fault := by
      induction before with
      | nil =>
        rw [List.nil_append, Value.lines?, hkey]
        rfl
      | cons k before ih =>
        obtain ⟨⟨text, hk⟩, hbefore⟩ := List.forall_mem_cons.mp hbefore
        rw [List.cons_append, Value.lines?, hk, ih hbefore]
        rfl
    rw [joinKeys?, hlines]
    rfl

theorem joinKeys?_of_shown {keys : List Value}
    (h : ∀ key ∈ keys, ∃ text, Value.line? false key = .ok text) :
    ∃ text, joinKeys? keys = .ok text := by
  cases hjoin : joinKeys? keys with
  | ok text => exact ⟨text, rfl⟩
  | error fault =>
    obtain ⟨before, key, after, rfl, _, hkey⟩ := joinKeys?_eq_error_iff.mp hjoin
    obtain ⟨text, htext⟩ := h key (by simp)
    exact nomatch htext.symm.trans hkey

theorem mem_of_mem_undeclaredKeys {declared : List String} {entries : List (Value × Value)}
    {key : Value} (h : key ∈ undeclaredKeys declared entries) : ∃ e ∈ entries, e.1 = key :=
  List.mem_map.mp (List.mem_filter.mp h).1

theorem keysVerdict_hasText {declared : List String} {entries : List (Value × Value)}
    {reason : Value} (h : keysVerdict declared entries = .ok (some reason)) : reason.HasText := by
  by_cases hkeys : undeclaredKeys declared entries = []
  · rw [keysVerdict_nil hkeys] at h
    cases h
  · rw [keysVerdict_cons rfl hkeys] at h
    obtain ⟨shown, _, h⟩ := bind_eq_ok_iff.mp h
    exact (because_isMessage h).hasText

theorem restVerdict_hasText {policy : Policy} {declared : List String} {v : Value}
    {entries : List (Value × Value)} {reason : Value}
    (hspeaks : ∀ f, policy.extra = some f → out.Speaks f)
    (h : restVerdict out policy declared v entries = .ok (some reason)) : reason.HasText := by
  rcases (followedBy_eq_iff (by simp)).mp h with hkeys | ⟨_, hwhole⟩
  · split at hkeys
    next => cases hkeys
    next => exact keysVerdict_hasText hkeys
  · split at hwhole
    next => cases hwhole
    next f hf =>
      obtain ⟨a, hcall, ha⟩ := bind_eq_ok_iff.mp hwhole
      rw [Verdict.ofAnswer_eq_some (Except.ok.inj ha)]
      exact hspeaks f hf v a hcall

end Record

namespace Schema

theorem memberCheck_hasText {entries : List (Value × Value)} {total : Bool} {m : Name × Schema}
    {reason : Value} (h : memberCheck out total entries m = .ok (some reason)) :
    reason.HasText := by
  unfold memberCheck Record.memberVerdict at h
  split at h
  next => exact (bind_under_isMessage h).hasText
  next =>
    cases total with
    | true => exact (because_isMessage h).hasText
    | false => cases h

/-- What is said against a value is a message, or what a function answered that is a schema all by
itself: around every other answer there is a context. -/
theorem evaluate_reason {t : Schema} {v reason : Value}
    (h : t.evaluate out v = .ok (some reason)) :
    reason.IsMessage ∨ ∃ n f, t = .custom n f ∧ out f v = .ok reason := by
  cases t with
  | primitive p => exact .inl (passOr_isMessage (Except.ok.inj h))
  | custom n f =>
    obtain ⟨a, hcall, ha⟩ := bind_eq_ok_iff.mp h
    rw [← Verdict.ofAnswer_eq_some (Except.ok.inj ha)] at hcall
    exact .inr ⟨n, f, rfl, hcall⟩
  | predicate s n f =>
    obtain ⟨a, _, ha⟩ := bind_eq_ok_iff.mp h
    exact .inl (passOr_isMessage (Except.ok.inj ha))
  | optional s t =>
    by_cases hv : v = .null
    · rw [hv] at h
      cases h
    · rw [evaluate_optional hv] at h
      exact .inl (bind_under_isMessage h)
  | listOf s t =>
    cases hv : v.items? with
    | none =>
      rw [evaluate, hv] at h
      exact .inl (because_isMessage h)
    | some items =>
      rw [evaluate_listOf hv] at h
      exact .inl (bind_under_isMessage h)
  | mapOf s t =>
    cases hv : v.entries? with
    | none =>
      rw [evaluate, hv] at h
      exact .inl (because_isMessage h)
    | some entries =>
      rw [evaluate_mapOf hv] at h
      exact .inl (bind_under_isMessage h)
  | union s ts =>
    rw [evaluate_union] at h
    obtain ⟨passes, _, h⟩ := bind_eq_ok_iff.mp h
    exact .inl (passOr_isMessage (Except.ok.inj h))
  | enumeration s n elems =>
    rw [evaluate] at h
    split at h
    next => cases h
    next => exact .inl (because_isMessage h)
  | record s n members policy =>
    cases hv : v.entries? with
    | none =>
      rw [evaluate_record_mismatch hv] at h
      exact .inl (under_isMessage h)
    | some entries =>
      rw [evaluate_record hv] at h
      exact .inl (bind_under_isMessage h)

/-- Whatever is said against a value can be shown, if the functions see to that for their part. -/
theorem evaluate_hasText {t : Schema} {v reason : Value} (hspeaks : ∀ f ∈ t.funcs, out.Speaks f)
    (h : t.evaluate out v = .ok (some reason)) : reason.HasText := by
  rcases evaluate_reason h with hmessage | ⟨n, f, rfl, hcall⟩
  · exact hmessage.hasText
  · exact hspeaks f List.mem_cons_self v reason hcall

theorem firstReason_hasText {α : Type} {check : α → Except Fault Verdict} {xs : List α}
    (h : ∀ x ∈ xs, ∀ reason, check x = .ok (some reason) → reason.HasText) {reason : Value}
    (hfirst : firstReason check xs = .ok (some reason)) : reason.HasText := by
  obtain ⟨before, x, after, rfl, _, hx⟩ := (firstReason_eq_iff (by simp)).mp hfirst
  exact h x (by simp) reason hx

theorem record_hasText {members : List (Name × Schema)} {policy : Policy} {v reason : Value}
    {entries : List (Value × Value)} (hspeaks : ∀ f, policy.extra = some f → out.Speaks f)
    (h : followedBy (firstReason (memberCheck out policy.total entries) members)
      (Record.restVerdict out policy (members.map (·.1.text)) v entries) = .ok (some reason)) :
    reason.HasText := by
  rcases (followedBy_eq_iff (by simp)).mp h with hmember | ⟨_, hrest⟩
  · exact firstReason_hasText (fun m _ reason => memberCheck_hasText) hmember
  · exact Record.restVerdict_hasText hspeaks hrest

end Schema

end Conformance

/- What it means that a value conforms to a schema, as a relation that knows neither an order nor a
   way to check. Verification passes exactly the values that conform, and comes to a verdict on all
   others. -/
import Conformance.Proofs.Reaching
namespace Conformance

variable {σ : Type}

/-- The values of each primitive, by their classes. A truth value is a number in none of them. -/
inductive Primitive.Admits : Primitive → Value → Prop
  | string (l s) : Admits .string (.text l s)
  | int (l n) : Admits .int (.int l n)
  | float (l x) : Admits .float (.float l x)
  | whole (l n) : Admits .number (.int l n)
  | fraction (l x) : Admits .number (.float l x)
  | bool (b) : Admits .bool (.bool b)
  | mapping (k entries) : Admits .attrs (.mapping k entries)
  | loopMapping (stamp) : Admits .attrs (.loopMapping stamp)
  | list (l items) : Admits .list (.list l items)
  | tuple (l items) : Admits .list (.tuple l items)
  | loopList (stamp) : Admits .list (.loopList stamp)
  | function (f) : Admits .function (.func f)
  | any (v) : Admits .any v

/-- Conformity, where functions answer as given. Falsity, zero and the empty text are answers like
all others; only a predicate is asked for truth. -/
inductive Conforms (answer : Func → Value → Value) : Schema → Value → Prop
  | primitive {p v} : p.Admits v → Conforms answer (.primitive p) v
  | custom {n f v} : answer f v = .null → Conforms answer (.custom n f) v
  | predicate {s n f v} : (answer f v).truthy = true → Conforms answer (.predicate s n f) v
  | absent {s t} : Conforms answer (.optional s t) .null
  | present {s t v} : Conforms answer t v → Conforms answer (.optional s t) v
  | listOf {s t v items} : v.items? = some items → (∀ x ∈ items, Conforms answer t x) →
      Conforms answer (.listOf s t) v
  | mapOf {s t v entries} : v.entries? = some entries → (∀ e ∈ entries, Conforms answer t e.2) →
      Conforms answer (.mapOf s t) v
  | union {s ts t v} : t ∈ ts → Conforms answer t v → Conforms answer (.union s ts) v
  | enumeration {s n elems e v} : e ∈ elems → v.same e = true → v.isBool = e.isBool →
      Conforms answer (.enumeration s n elems) v
  | record {s n members policy v entries} : v.entries? = some entries →
      (∀ m ∈ members, ∀ x, lookup? (.ofString m.1.text) entries = some x → Conforms answer m.2 x) →
      (policy.total = true → ∀ m ∈ members, ∃ x, lookup? (.ofString m.1.text) entries = some x) →
      (policy.unknown = false → ∀ e ∈ entries, ∃ m ∈ members, ∃ l, e.1 = .text l m.1.text) →
      (∀ f, policy.extra = some f → answer f v = .null) →
      Conforms answer (.record s n members policy) v

namespace Conforms

variable {answer : Func → Value → Value} {v : Value}

theorem optional_iff (hnull : v ≠ .null) {s : Nat} {t : Schema} :
    Conforms answer (.optional s t) v ↔ Conforms answer t v := by
  constructor
  · intro h
    cases h with
    | absent => exact absurd rfl hnull
    | present h => exact h
  · exact .present

theorem listOf_iff {s : Nat} {t : Schema} : Conforms answer (.listOf s t) v ↔
    ∃ items, v.items? = some items ∧ ∀ x ∈ items, Conforms answer t x := by
  constructor
  · intro h
    cases h with
    | listOf hitems hall => exact ⟨_, hitems, hall⟩
  · rintro ⟨items, hitems, hall⟩
    exact .listOf hitems hall

theorem mapOf_iff {s : Nat} {t : Schema} : Conforms answer (.mapOf s t) v ↔
    ∃ entries, v.entries? = some entries ∧ ∀ e ∈ entries, Conforms answer t e.2 := by
  constructor
  · intro h
    cases h with
    | mapOf hentries hall => exact ⟨_, hentries, hall⟩
  · rintro ⟨entries, hentries, hall⟩
    exact .mapOf hentries hall

theorem union_iff {s : Nat} {ts : List Schema} :
    Conforms answer (.union s ts) v ↔ ∃ t ∈ ts, Conforms answer t v := by
  constructor
  · intro h
    cases h with
    | union ht h => exact ⟨_, ht, h⟩
  · rintro ⟨t, ht, h⟩
    exact .union ht h

theorem enumeration_iff {s : Nat} {n : Name} {elems : List Value} :
    Conforms answer (.enumeration s n elems) v ↔
      ∃ e ∈ elems, v.isBool = e.isBool ∧ v.same e = true := by
  constructor
  · intro h
    cases h with
    | enumeration he hsame hbool => exact ⟨_, he, hbool, hsame⟩
  · rintro ⟨e, he, hbool, hsame⟩
    exact .enumeration he hsame hbool

theorem record_iff {s : Nat} {n : Name} {members : List (Name × Schema)} {policy : Policy} :
    Conforms answer (.record s n members policy) v ↔ ∃ entries, v.entries? = some entries ∧
      (∀ m ∈ members, ∀ x, lookup? (.ofString m.1.text) entries = some x → Conforms answer m.2 x) ∧
      (policy.total = true → ∀ m ∈ members, ∃ x, lookup? (.ofString m.1.text) entries = some x) ∧
      (policy.unknown = false → ∀ e ∈ entries, ∃ m ∈ members, ∃ l, e.1 = .text l m.1.text) ∧
      (∀ f, policy.extra = some f → answer f v = .null) := by
  constructor
  · intro h
    cases h with
    | record hentries hmembers htotal hkeys hextra =>
      exact ⟨_, hentries, hmembers, htotal, hkeys, hextra⟩
  · rintro ⟨entries, hentries, hmembers, htotal, hkeys, hextra⟩
    exact .record hentries hmembers htotal hkeys hextra

end Conforms

def Answers.total (answer : Func → Value → Value) : Answers := fun f v => .ok (answer f v)

theorem bind_under_eq_none_iff {outcome : Except Fault Verdict} {context : String} :
    (outcome >>= under context) = .ok none ↔ outcome = .ok none := by
  rw [bind_eq_ok_iff]
  constructor
  · rintro ⟨verdict, hok, hunder⟩
    rwa [under_eq_none_iff.mp hunder] at hok
  · intro hok
    exact ⟨none, hok, rfl⟩

theorem Primitive.accepts_iff_admits {p : Primitive} {v : Value} :
    p.accepts v = true ↔ p.Admits v := by
  constructor
  · intro h
    cases p <;> cases v <;> first | constructor | cases h
  · intro h
    cases h <;> rfl

theorem passOr_eq_none_iff {passes : Bool} {name : String} {v : Value} :
    passOr passes name v = none ↔ passes = true := by
  cases passes with
  | true => exact ⟨fun _ => rfl, fun _ => rfl⟩
  | false => exact ⟨nofun, nofun⟩

theorem Value.ofString_same_iff {name : String} {key : Value} :
    (Value.ofString name).same key = true ↔ ∃ l, key = .text l name := by
  cases key with
  | text l s =>
    change (name == s) = true ↔ _
    rw [beq_iff_eq]
    constructor
    · rintro rfl
      exact ⟨l, rfl⟩
    · rintro ⟨_, h⟩
      cases h
      rfl
  | _ => exact ⟨nofun, fun ⟨_, h⟩ => nomatch h⟩

namespace Record

variable {out : Answers}

theorem memberVerdict_eq_none_iff {check : Value → Except Fault Verdict} {total : Bool}
    {entries : List (Value × Value)} {key : String} :
    memberVerdict check total entries key = .ok none ↔
      (∀ x, lookup? (.ofString key) entries = some x → check x = .ok none) ∧
      (total = true → ∃ x, lookup? (.ofString key) entries = some x) := by
  unfold memberVerdict
  cases lookup? (.ofString key) entries with
  | none => cases total <;> simp
  | some x =>
    change (check x >>= under _) = .ok none ↔ _
    rw [bind_under_eq_none_iff]
    simp

theorem undeclaredKeys_eq_nil_iff {members : List (Name × Schema)}
    {entries : List (Value × Value)} : undeclaredKeys (members.map (·.1.text)) entries = [] ↔
      ∀ e ∈ entries, ∃ m ∈ members, ∃ l, e.1 = .text l m.1.text := by
  unfold undeclaredKeys
  rw [List.filter_eq_nil_iff, List.forall_mem_map]
  refine forall₂_congr fun e _ => ?_
  rw [Bool.not_eq_true', Bool.not_eq_false, List.any_map, List.any_eq_true]
  exact exists_congr fun m => and_congr_right fun _ => Value.ofString_same_iff

theorem restVerdict_eq_none_iff {policy : Policy} {declared : List String} {v : Value}
    {entries : List (Value × Value)} : restVerdict out policy declared v entries = .ok none ↔
      (policy.unknown = false → undeclaredKeys declared entries = []) ∧
      ∀ f, policy.extra = some f → out f v = .ok .null := by
  unfold restVerdict
  rw [followedBy_eq_none_iff, optionalKeys_eq_none_iff]
  refine and_congr_right fun _ => ?_
  cases policy.extra with
  | none => simp
  | some f =>
    change (out f v >>= fun a => .ok (Verdict.ofAnswer a)) = .ok none ↔ _
    rw [bind_eq_ok_iff]
    simp [Verdict.ofAnswer_eq_none_iff]

end Record

namespace Schema

variable {answer : Func → Value → Value}

theorem memberCheck_eq_none_iff {out : Answers} {total : Bool} {entries : List (Value × Value)}
    {m : Name × Schema} : memberCheck out total entries m = .ok none ↔
      (∀ x, lookup? (.ofString m.1.text) entries = some x → m.2.evaluate out x = .ok none) ∧
      (total = true → ∃ x, lookup? (.ofString m.1.text) entries = some x) :=
  Record.memberVerdict_eq_none_iff

/-- Where functions raise nothing and keys can be shown, the one pass comes to a verdict. -/
theorem evaluate_total {t : Schema} (hspeaks : ∀ f ∈ t.funcs, ∀ v, (answer f v).HasText)
    {v : Value} (hv : v.keysShown = true) :
    ∃ verdict, t.evaluate (.total answer) v = .ok verdict := by
  have hspeaks : ∀ f ∈ t.funcs, (Answers.total answer).Speaks f := by
    intro f hf w a ha
    cases ha
    exact hspeaks f hf w
  cases hrun : t.evaluate (.total answer) v with
  | ok verdict => exact ⟨verdict, rfl⟩
  | error fault =>
    obtain ⟨p, hreach, hp⟩ := exists_reaches_of_error hspeaks hrun
    cases p with
    | call f w => cases hp
    | listing keys =>
      obtain ⟨text, htext⟩ := hreach.listing_shown hv
      exact nomatch htext.symm.trans hp

theorem evaluate_enumeration_eq_none_iff {out : Answers} {s : Nat} {n : Name}
    {elems : List Value} {v : Value} :
    (Schema.enumeration s n elems).evaluate out v = .ok none ↔
      ∃ e ∈ elems, v.isBool = e.isBool ∧ v.same e = true := by
  rw [evaluate]
  have hany : elems.any (v.sameMember ·) = true ↔
      ∃ e ∈ elems, v.isBool = e.isBool ∧ v.same e = true := by
    simp [Value.sameMember]
  rw [← hany]
  cases elems.any (v.sameMember ·) <;> simp

/-- No alternative raises, so the order in which they are asked does not matter. -/
theorem evaluate_union_eq_none_iff {out : Answers} {s : Nat} {ts : List Schema} {v : Value}
    (htotal : ∀ t ∈ ts, ∃ verdict, t.evaluate out v = .ok verdict) :
    (Schema.union s ts).evaluate out v = .ok none ↔ ∃ t ∈ ts, t.evaluate out v = .ok none := by
  rw [evaluate_union, bind_eq_ok_iff, ← somePasses_eq_true_iff htotal]
  constructor
  · rintro ⟨passes, hsome, h⟩
    rw [hsome, passOr_eq_none_iff.mp (Except.ok.inj h)]
  · intro hsome
    exact ⟨true, hsome, rfl⟩

theorem evaluate_record_eq_none_iff {out : Answers} {s : Nat} {n : Name}
    {members : List (Name × Schema)} {policy : Policy} {v : Value}
    {entries : List (Value × Value)} (hentries : v.entries? = some entries) :
    (Schema.record s n members policy).evaluate out v = .ok none ↔
      (∀ m ∈ members, ∀ x, lookup? (.ofString m.1.text) entries = some x →
        m.2.evaluate out x = .ok none) ∧
      (policy.total = true → ∀ m ∈ members, ∃ x, lookup? (.ofString m.1.text) entries = some x) ∧
      (policy.unknown = false → ∀ e ∈ entries, ∃ m ∈ members, ∃ l, e.1 = .text l m.1.text) ∧
      (∀ f, policy.extra = some f → out f v = .ok .null) := by
  rw [evaluate_record hentries, bind_under_eq_none_iff, followedBy_eq_none_iff]
  rw [firstReason_eq_none_iff, Record.restVerdict_eq_none_iff, Record.undeclaredKeys_eq_nil_iff]
  simp only [memberCheck_eq_none_iff]
  constructor
  · rintro ⟨hmembers, hkeys, hextra⟩
    exact ⟨fun m hm => (hmembers m hm).1, fun ht m hm => (hmembers m hm).2 ht, hkeys, hextra⟩
  · rintro ⟨hmembers, htotal, hkeys, hextra⟩
    exact ⟨fun m hm => ⟨hmembers m hm, fun ht => htotal ht m hm⟩, hkeys, hextra⟩

theorem evaluate_eq_none_iff {t : Schema} (hspeaks : ∀ f ∈ t.funcs, ∀ v, (answer f v).HasText)
    {v : Value} (hv : v.keysShown = true) :
    t.evaluate (.total answer) v = .ok none ↔ Conforms answer t v := by
  induction t generalizing v with
  | primitive p =>
    change Except.ok (passOr _ _ _) = Except.ok none ↔ _
    rw [Except.ok.injEq, passOr_eq_none_iff, Primitive.accepts_iff_admits]
    constructor
    · exact .primitive
    · intro h
      cases h with
      | primitive h => exact h
  | custom n f =>
    change Except.ok (Verdict.ofAnswer (answer f v)) = Except.ok none ↔ _
    rw [Except.ok.injEq, Verdict.ofAnswer_eq_none_iff]
    constructor
    · exact .custom
    · intro h
      cases h with
      | custom h => exact h
  | predicate s n f =>
    change Except.ok (passOr (answer f v).truthy _ _) = Except.ok none ↔ _
    rw [Except.ok.injEq, passOr_eq_none_iff]
    constructor
    · exact .predicate
    · intro h
      cases h with
      | predicate h => exact h
  | optional s t ih =>
    by_cases hnull : v = .null
    · rw [hnull]
      exact ⟨fun _ => .absent, fun _ => rfl⟩
    · rw [evaluate_optional hnull, bind_under_eq_none_iff, ih hspeaks hv]
      exact (Conforms.optional_iff hnull).symm
  | listOf s t ih =>
    rw [Conforms.listOf_iff]
    cases hitems : v.items? with
    | none =>
      rw [evaluate, hitems]
      simp
    | some items =>
      rw [evaluate_listOf hitems, bind_under_eq_none_iff, firstReason_eq_none_iff]
      have hiff : ∀ x ∈ items, (t.evaluate (.total answer) x = .ok none ↔ Conforms answer t x) :=
        fun x hx => ih hspeaks (Value.keysShown_item hv hitems hx)
      rw [forall₂_congr hiff]
      simp
  | mapOf s t ih =>
    rw [Conforms.mapOf_iff]
    cases hentries : v.entries? with
    | none =>
      rw [evaluate, hentries]
      simp
    | some entries =>
      rw [evaluate_mapOf hentries, bind_under_eq_none_iff, firstReason_eq_none_iff]
      rw [List.forall_mem_map]
      have hiff : ∀ e ∈ entries,
          (t.evaluate (.total answer) e.2 = .ok none ↔ Conforms answer t e.2) :=
        fun e he => ih hspeaks (Value.keysShown_entry hv hentries he).2
      rw [forall₂_congr hiff]
      simp
  | union s ts ih =>
    have hpart : ∀ t ∈ ts, ∀ f ∈ t.funcs, ∀ v, (answer f v).HasText :=
      fun t ht f hf => hspeaks f (mem_funcs_union ht hf)
    rw [evaluate_union_eq_none_iff fun t ht => evaluate_total (hpart t ht) hv, Conforms.union_iff]
    exact exists_congr fun t => and_congr_right fun ht => ih t ht (hpart t ht) hv
  | enumeration s n elems =>
    exact evaluate_enumeration_eq_none_iff.trans Conforms.enumeration_iff.symm
  | record s n members policy ih =>
    rw [Conforms.record_iff]
    cases hentries : v.entries? with
    | none =>
      rw [evaluate_record_mismatch hentries]
      constructor
      · intro h
        cases h
      · rintro ⟨_, h, _⟩
        cases h
    | some entries =>
      have hiff : ∀ m ∈ members, ∀ x, lookup? (.ofString m.1.text) entries = some x →
          (m.2.evaluate (.total answer) x = .ok none ↔ Conforms answer m.2 x) := by
        intro m hm x hx
        obtain ⟨k, he⟩ := lookup?_mem hx
        exact ih m hm (fun f hf => hspeaks f (mem_funcs_member hm hf))
          (Value.keysShown_entry hv hentries he).2
      rw [evaluate_record_eq_none_iff hentries, forall₂_congr fun m hm => forall₂_congr (hiff m hm)]
      simp [Answers.total]

/-- Verification comes to a verdict on every value, and it is that nothing is wrong exactly where the
value conforms. -/
theorem verify_eq_none_iff_conforms {h : Host σ} {t : Schema}
    (hcalls : ∀ f ∈ t.funcs, ∀ v, Settles (h.call f v) (.ok (answer f v)))
    (hspeaks : ∀ f ∈ t.funcs, ∀ v, (answer f v).HasText) {v : Value} (hv : v.keysShown = true)
    (s : σ) :
    ∃ verdict, (t.verify h v s).1 = .ok verdict ∧ (verdict = none ↔ Conforms answer t v) := by
  have hverify : (t.verify h v s).1 = t.evaluate (.total answer) v := settles_verify hcalls v s
  obtain ⟨verdict, hverdict⟩ := evaluate_total hspeaks hv
  refine ⟨verdict, hverify.trans hverdict, ?_⟩
  rw [← evaluate_eq_none_iff hspeaks hv, hverdict, Except.ok.injEq]

def falsity : Func → Value → Value := fun _ _ => .bool false

/-- An integer, or whatever a function has nothing to say against. -/
def quietOrWhole : Schema := .union 0 [.custom "quiet" (sample 0), .primitive .int]

/-- An answer that counts as false is a reason like all others, and a truth value is no integer. -/
theorem verify_eq_none_iff_conforms_falsity :
    ¬ Conforms falsity (.optional 1 quietOrWhole) (.bool true) := by
  have hone : (sample 0).acceptsOne = true := by decide
  have hcalls : ∀ f ∈ (Schema.optional 1 quietOrWhole).funcs, ∀ v,
      Settles ((Host.ofAnswers (.total falsity)).call f v) (.ok (falsity f v)) := by
    intro f hf
    cases List.mem_singleton.mp hf
    exact Host.ofAnswers_steady (.total falsity) hone
  have hspeaks : ∀ f ∈ (Schema.optional 1 quietOrWhole).funcs, ∀ v, (falsity f v).HasText :=
    fun _ _ _ => ⟨"False", rfl⟩
  have hv : (Value.bool true).keysShown = true := rfl
  obtain ⟨verdict, hrun, hiff⟩ := verify_eq_none_iff_conforms hcalls hspeaks hv ()
  intro hconforms
  rw [hiff.mpr hconforms] at hrun
  cases hrun

end Schema

end Conformance

/- The first fault in a value: the layers around it, from the outside in, and what is wrong there.
   What verification says is the way to it. -/
import Conformance.Proofs.Conformity
namespace Conformance

variable {σ : Type}

/-- A layer that is entered on the way to a fault. -/
inductive Segment
  | option (typeName : String)
  | element (typeName : String)
  | entry (typeName : String)
  | record (name : String)
  | member (key : String)

def Segment.text : Segment → String
  | .option typeName => s!"in option<{typeName}>"
  | .element typeName => s!"in listOf<{typeName}> element"
  | .entry typeName => s!"in attrsOf<{typeName}> value"
  | .record name => s!"in struct '{name}'"
  | .member key => s!"in member '{key}'"

/-- What is wrong at the end of the way. -/
inductive Leaf
  /-- What a function has to say. -/
  | answer (a : Value)
  | mismatch (typeName : String) (v : Value)
  | outside (enumeration : String) (v : Value)
  | missing (key : String)
  | unrecognized (keys : List Value) (declared : List String)

/-- The text of a fault; answers and keys need not have one. -/
def Leaf.text? : Leaf → Except Fault String
  | .answer a => a.plainText?
  | .mismatch typeName v => .ok (v.mismatch typeName)
  | .outside enumeration v => .ok s!"'{v.pretty}' is not a member of enum '{enumeration}'"
  | .missing key => .ok s!"missing member '{key}'"
  | .unrecognized keys declared => do
    return Record.unrecognizedText (← Record.joinKeys? keys) (Record.nameList declared)

def pathText (path : List Segment) (leaf : String) : String :=
  ": ".intercalate (path.map Segment.text ++ [leaf])

theorem pathText_cons (segment : Segment) (path : List Segment) (leaf : String) :
    pathText (segment :: path) leaf = segment.text ++ ": " ++ pathText path leaf := by
  cases path <;> exact String.intercalate_cons_cons

/-- A declared member of a record is in order: what is there conforms, and it is there if it has to
be. -/
def MemberConforms (answer : Func → Value → Value) (total : Bool) (entries : List (Value × Value))
    (m : Name × Schema) : Prop :=
  (∀ x, lookup? (.ofString m.1.text) entries = some x → Conforms answer m.2 x) ∧
  (total = true → ∃ x, lookup? (.ofString m.1.text) entries = some x)

/-- The first fault of a value against a schema. Every element, value and declared member before it
conforms, and so do all members where it is about other keys or the whole. -/
inductive FirstFault (answer : Func → Value → Value) :
    Schema → Value → List Segment → Leaf → Prop
  | primitive {p v} : ¬ p.Admits v → FirstFault answer (.primitive p) v [] (.mismatch p.name v)
  | custom {n f v} : answer f v ≠ .null →
      FirstFault answer (.custom n f) v [] (.answer (answer f v))
  | predicate {s n f v} : (answer f v).truthy = false →
      FirstFault answer (.predicate s n f) v [] (.mismatch n.text v)
  | optional {s t v path leaf} : v ≠ .null → FirstFault answer t v path leaf →
      FirstFault answer (.optional s t) v (.option t.name :: path) leaf
  | noList {s t v} : v.items? = none →
      FirstFault answer (.listOf s t) v [] (.mismatch (Schema.listOf s t).name v)
  | element {s t v before x after path leaf} : v.items? = some (before ++ x :: after) →
      (∀ y ∈ before, Conforms answer t y) → FirstFault answer t x path leaf →
      FirstFault answer (.listOf s t) v (.element t.name :: path) leaf
  | noMapping {s t v} : v.entries? = none →
      FirstFault answer (.mapOf s t) v [] (.mismatch (Schema.mapOf s t).name v)
  | entry {s t v entries before x after path leaf} : v.entries? = some entries →
      entries.map (·.2) = before ++ x :: after → (∀ y ∈ before, Conforms answer t y) →
      FirstFault answer t x path leaf →
      FirstFault answer (.mapOf s t) v (.entry t.name :: path) leaf
  | union {s ts v} : (∀ t ∈ ts, ¬ Conforms answer t v) →
      FirstFault answer (.union s ts) v [] (.mismatch (Schema.union s ts).name v)
  | enumeration {s n elems v} : (∀ e ∈ elems, ¬ (v.isBool = e.isBool ∧ v.same e = true)) →
      FirstFault answer (.enumeration s n elems) v [] (.outside n.text v)
  | noRecord {s n members policy v} : v.entries? = none →
      FirstFault answer (.record s n members policy) v [.record n.text] (.mismatch n.text v)
  | member {s n members before m after policy v entries x path leaf} :
      v.entries? = some entries → members = before ++ m :: after →
      (∀ k ∈ before, MemberConforms answer policy.total entries k) →
      lookup? (.ofString m.1.text) entries = some x → FirstFault answer m.2 x path leaf →
      FirstFault answer (.record s n members policy) v
        (.record n.text :: .member m.1.text :: path) leaf
  | missing {s n members before m after policy v entries} :
      v.entries? = some entries → members = before ++ m :: after →
      (∀ k ∈ before, MemberConforms answer policy.total entries k) →
      lookup? (.ofString m.1.text) entries = none → policy.total = true →
      FirstFault answer (.record s n members policy) v [.record n.text] (.missing m.1.text)
  | unrecognized {s n members policy v entries keys} : v.entries? = some entries →
      (∀ m ∈ members, MemberConforms answer policy.total entries m) → policy.unknown = false →
      Record.undeclaredKeys (members.map (·.1.text)) entries = keys → keys ≠ [] →
      FirstFault answer (.record s n members policy) v [.record n.text]
        (.unrecognized keys (members.map (·.1.text)))
  | whole {s n members policy v entries f} : v.entries? = some entries →
      (∀ m ∈ members, MemberConforms answer policy.total entries m) →
      (policy.unknown = false → Record.undeclaredKeys (members.map (·.1.text)) entries = []) →
      policy.extra = some f → answer f v ≠ .null →
      FirstFault answer (.record s n members policy) v [.record n.text] (.answer (answer f v))

variable {answer : Func → Value → Value} {t : Schema} {v : Value}

theorem Conforms.record_iff_members {s : Nat} {n : Name} {members : List (Name × Schema)}
    {policy : Policy} {entries : List (Value × Value)} (hentries : v.entries? = some entries) :
    Conforms answer (.record s n members policy) v ↔
      (∀ m ∈ members, MemberConforms answer policy.total entries m) ∧
      (policy.unknown = false → Record.undeclaredKeys (members.map (·.1.text)) entries = []) ∧
      ∀ f, policy.extra = some f → answer f v = .null := by
  rw [Conforms.record_iff, Record.undeclaredKeys_eq_nil_iff]
  constructor
  · rintro ⟨entries', hentries', hmembers, htotal, hkeys, hextra⟩
    cases hentries.symm.trans hentries'
    exact ⟨fun m hm => ⟨hmembers m hm, fun ht => htotal ht m hm⟩, hkeys, hextra⟩
  · rintro ⟨hmembers, hkeys, hextra⟩
    exact ⟨entries, hentries, fun m hm => (hmembers m hm).1,
      fun ht m hm => (hmembers m hm).2 ht, hkeys, hextra⟩

namespace FirstFault

theorem not_conforms {path : List Segment} {leaf : Leaf} (h : FirstFault answer t v path leaf) :
    ¬ Conforms answer t v := by
  induction h with
  | primitive hp =>
    intro hconforms
    cases hconforms with
    | primitive hadmits => exact hp hadmits
  | custom ha =>
    intro hconforms
    cases hconforms with
    | custom hnull => exact ha hnull
  | predicate ha =>
    intro hconforms
    cases hconforms with
    | predicate htruthy => exact nomatch ha.symm.trans htruthy
  | optional hv _ ih =>
    rw [Conforms.optional_iff hv]
    exact ih
  | noList hv =>
    rw [Conforms.listOf_iff]
    rintro ⟨items, hitems, _⟩
    cases hv.symm.trans hitems
  | element hv _ _ ih =>
    rw [Conforms.listOf_iff]
    rintro ⟨items, hitems, hall⟩
    cases hv.symm.trans hitems
    exact ih (hall _ (by simp))
  | noMapping hv =>
    rw [Conforms.mapOf_iff]
    rintro ⟨entries, hentries, _⟩
    cases hv.symm.trans hentries
  | @entry s t v entries before x after path leaf hv hsplit _ _ ih =>
    rw [Conforms.mapOf_iff]
    rintro ⟨entries', hentries, hall⟩
    cases hv.symm.trans hentries
    have hx : x ∈ entries.map (·.2) := hsplit ▸ by simp
    obtain ⟨e, he, rfl⟩ := List.mem_map.mp hx
    exact ih (hall e he)
  | union hts =>
    rw [Conforms.union_iff]
    rintro ⟨t, ht, hconforms⟩
    exact hts t ht hconforms
  | enumeration helems =>
    rw [Conforms.enumeration_iff]
    rintro ⟨e, he, hsame⟩
    exact helems e he hsame
  | noRecord hv =>
    rw [Conforms.record_iff]
    rintro ⟨entries, hentries, _⟩
    cases hv.symm.trans hentries
  | member hv hmembers _ hx _ ih =>
    rw [Conforms.record_iff_members hv]
    rintro ⟨hall, _⟩
    exact ih ((hall _ (hmembers ▸ by simp)).1 _ hx)
  | @missing s n members before m after policy v entries hv hmembers _ hx htotal =>
    rw [Conforms.record_iff_members hv]
    rintro ⟨hall, _⟩
    have hm : m ∈ members := hmembers ▸ by simp
    obtain ⟨x, hpresent⟩ := (hall m hm).2 htotal
    cases hx.symm.trans hpresent
  | unrecognized hv _ hunknown hkeys hne =>
    rw [Conforms.record_iff_members hv]
    rintro ⟨_, hnone, _⟩
    exact hne (hkeys.symm.trans (hnone hunknown))
  | whole hv _ _ hf ha =>
    rw [Conforms.record_iff_members hv]
    rintro ⟨_, _, hextra⟩
    exact ha (hextra _ hf)

theorem split_unique {α : Type} {P : α → Prop} {before before' after after' : List α} {x x' : α}
    (heq : before ++ x :: after = before' ++ x' :: after') (hbefore : ∀ y ∈ before, P y)
    (hx : ¬ P x) (hbefore' : ∀ y ∈ before', P y) (hx' : ¬ P x') :
    before = before' ∧ x = x' ∧ after = after' := by
  induction before generalizing before' with
  | nil =>
    cases before' with
    | nil => exact ⟨rfl, List.cons.inj heq⟩
    | cons y before' =>
      cases (List.cons.inj heq).1
      exact absurd (hbefore' _ List.mem_cons_self) hx
  | cons y before ih =>
    obtain ⟨hy, hbefore⟩ := List.forall_mem_cons.mp hbefore
    cases before' with
    | nil =>
      cases (List.cons.inj heq).1
      exact absurd hy hx'
    | cons z before' =>
      obtain ⟨hyz, hrest⟩ := List.cons.inj heq
      obtain ⟨rfl, hsame⟩ := ih hrest hbefore (List.forall_mem_cons.mp hbefore').2
      exact ⟨hyz ▸ rfl, hsame⟩

theorem member_faulty (total : Bool) {entries : List (Value × Value)} {m : Name × Schema}
    {x : Value} {path : List Segment} {leaf : Leaf}
    (hx : lookup? (.ofString m.1.text) entries = some x)
    (h : FirstFault answer m.2 x path leaf) : ¬ MemberConforms answer total entries m :=
  fun hm => h.not_conforms (hm.1 x hx)

theorem absent_faulty {total : Bool} {entries : List (Value × Value)} {m : Name × Schema}
    (hx : lookup? (.ofString m.1.text) entries = none) (htotal : total = true) :
    ¬ MemberConforms answer total entries m := by
  intro hm
  obtain ⟨x, hpresent⟩ := hm.2 htotal
  cases hx.symm.trans hpresent

theorem unique {path path' : List Segment} {leaf leaf' : Leaf}
    (h : FirstFault answer t v path leaf) (h' : FirstFault answer t v path' leaf') :
    path' = path ∧ leaf' = leaf := by
  induction h generalizing path' leaf' with
  | primitive _ =>
    cases h'
    exact ⟨rfl, rfl⟩
  | custom _ =>
    cases h'
    exact ⟨rfl, rfl⟩
  | predicate _ =>
    cases h'
    exact ⟨rfl, rfl⟩
  | optional _ _ ih =>
    cases h' with
    | optional _ h' =>
      obtain ⟨rfl, rfl⟩ := ih h'
      exact ⟨rfl, rfl⟩
  | noList hv =>
    cases h' with
    | noList _ => exact ⟨rfl, rfl⟩
    | element hv' _ _ => cases hv.symm.trans hv'
  | element hv hbefore hx ih =>
    cases h' with
    | noList hv' => cases hv.symm.trans hv'
    | element hv' hbefore' hx' =>
      have hitems := Option.some.inj (hv.symm.trans hv')
      obtain ⟨_, rfl, _⟩ := split_unique hitems hbefore hx.not_conforms hbefore' hx'.not_conforms
      obtain ⟨rfl, rfl⟩ := ih hx'
      exact ⟨rfl, rfl⟩
  | noMapping hv =>
    cases h' with
    | noMapping _ => exact ⟨rfl, rfl⟩
    | entry hv' _ _ _ => cases hv.symm.trans hv'
  | entry hv hsplit hbefore hx ih =>
    cases h' with
    | noMapping hv' => cases hv.symm.trans hv'
    | entry hv' hsplit' hbefore' hx' =>
      cases hv.symm.trans hv'
      have hvalues := hsplit.symm.trans hsplit'
      obtain ⟨_, rfl, _⟩ := split_unique hvalues hbefore hx.not_conforms hbefore' hx'.not_conforms
      obtain ⟨rfl, rfl⟩ := ih hx'
      exact ⟨rfl, rfl⟩
  | union _ =>
    cases h'
    exact ⟨rfl, rfl⟩
  | enumeration _ =>
    cases h'
    exact ⟨rfl, rfl⟩
  | noRecord hv =>
    cases h' with
    | noRecord _ => exact ⟨rfl, rfl⟩
    | member hv' _ _ _ _ => cases hv.symm.trans hv'
    | missing hv' _ _ _ _ => cases hv.symm.trans hv'
    | unrecognized hv' _ _ _ _ => cases hv.symm.trans hv'
    | whole hv' _ _ _ _ => cases hv.symm.trans hv'
  | @member s n members before m after policy v entries x path leaf hv hmembers hbefore hx hfault
      ih =>
    have hm : m ∈ members := hmembers ▸ by simp
    have hfaulty := member_faulty policy.total hx hfault
    cases h' with
    | noRecord hv' => cases hv.symm.trans hv'
    | member hv' hmembers' hbefore' hx' hfault' =>
      cases hv.symm.trans hv'
      obtain ⟨_, rfl, _⟩ := split_unique (hmembers.symm.trans hmembers') hbefore hfaulty hbefore'
        (member_faulty policy.total hx' hfault')
      cases hx.symm.trans hx'
      obtain ⟨rfl, rfl⟩ := ih hfault'
      exact ⟨rfl, rfl⟩
    | missing hv' hmembers' hbefore' hx' htotal' =>
      cases hv.symm.trans hv'
      obtain ⟨_, rfl, _⟩ := split_unique (hmembers.symm.trans hmembers') hbefore hfaulty hbefore'
        (absent_faulty hx' htotal')
      cases hx.symm.trans hx'
    | unrecognized hv' hall _ _ _ =>
      cases hv.symm.trans hv'
      exact absurd (hall m hm) hfaulty
    | whole hv' hall _ _ _ =>
      cases hv.symm.trans hv'
      exact absurd (hall m hm) hfaulty
  | @missing s n members before m after policy v entries hv hmembers hbefore hx htotal =>
    have hm : m ∈ members := hmembers ▸ by simp
    have hfaulty : ¬ MemberConforms answer policy.total entries m := absent_faulty hx htotal
    cases h' with
    | noRecord hv' => cases hv.symm.trans hv'
    | member hv' hmembers' hbefore' hx' hfault' =>
      cases hv.symm.trans hv'
      obtain ⟨_, rfl, _⟩ := split_unique (hmembers.symm.trans hmembers') hbefore hfaulty hbefore'
        (member_faulty policy.total hx' hfault')
      cases hx.symm.trans hx'
    | missing hv' hmembers' hbefore' hx' htotal' =>
      cases hv.symm.trans hv'
      obtain ⟨_, rfl, _⟩ := split_unique (hmembers.symm.trans hmembers') hbefore hfaulty hbefore'
        (absent_faulty hx' htotal')
      exact ⟨rfl, rfl⟩
    | unrecognized hv' hall _ _ _ =>
      cases hv.symm.trans hv'
      exact absurd (hall m hm) hfaulty
    | whole hv' hall _ _ _ =>
      cases hv.symm.trans hv'
      exact absurd (hall m hm) hfaulty
  | unrecognized hv hall hunknown hkeys hne =>
    cases h' with
    | noRecord hv' => cases hv.symm.trans hv'
    | member hv' hmembers' _ hx' hfault' =>
      cases hv.symm.trans hv'
      exact absurd (hall _ (hmembers' ▸ by simp)) (member_faulty _ hx' hfault')
    | @missing _ _ _ _ m _ _ _ _ hv' hmembers' _ hx' htotal' =>
      cases hv.symm.trans hv'
      exact absurd (hall m (hmembers' ▸ by simp)) (absent_faulty hx' htotal')
    | unrecognized hv' _ _ hkeys' _ =>
      cases hv.symm.trans hv'
      cases hkeys.symm.trans hkeys'
      exact ⟨rfl, rfl⟩
    | whole hv' _ hnone _ _ =>
      cases hv.symm.trans hv'
      exact absurd (hkeys.symm.trans (hnone hunknown)) hne
  | whole hv hall hnone hf ha =>
    cases h' with
    | noRecord hv' => cases hv.symm.trans hv'
    | member hv' hmembers' _ hx' hfault' =>
      cases hv.symm.trans hv'
      exact absurd (hall _ (hmembers' ▸ by simp)) (member_faulty _ hx' hfault')
    | @missing _ _ _ _ m _ _ _ _ hv' hmembers' _ hx' htotal' =>
      cases hv.symm.trans hv'
      exact absurd (hall m (hmembers' ▸ by simp)) (absent_faulty hx' htotal')
    | unrecognized hv' _ hunknown hkeys' hne' =>
      cases hv.symm.trans hv'
      exact absurd (hkeys'.symm.trans (hnone hunknown)) hne'
    | whole hv' _ _ hf' _ =>
      cases hv.symm.trans hv'
      cases hf.symm.trans hf'
      exact ⟨rfl, rfl⟩

end FirstFault

/-- A reason is told as the way to a fault; but what a function answers about the value itself is
given as it is. -/
def Told (path : List Segment) (leaf : Leaf) (reason : Value) : Prop :=
  ∃ text, leaf.text? = .ok text ∧
    (reason = .ofString (pathText path text) ∨ path = [] ∧ leaf = .answer reason)

namespace Told

theorem ofText {leaf : Leaf} {text : String} (h : leaf.text? = .ok text) :
    Told [] leaf (.ofString text) := ⟨text, h, .inl rfl⟩

theorem plainText {path : List Segment} {leaf : Leaf} {reason : Value}
    (h : Told path leaf reason) :
    ∃ text, leaf.text? = .ok text ∧ reason.plainText? = .ok (pathText path text) := by
  obtain ⟨text, htext, rfl | ⟨rfl, rfl⟩⟩ := h
  · exact ⟨text, htext, rfl⟩
  · exact ⟨text, htext, htext⟩

theorem under {path : List Segment} {leaf : Leaf} {reason reason' : Value}
    (h : Told path leaf reason) (segment : Segment)
    (hunder : Conformance.under segment.text (some reason) = .ok (some reason')) :
    Told (segment :: path) leaf reason' := by
  obtain ⟨text, htext, hreason⟩ := h.plainText
  rw [Conformance.under, hreason] at hunder
  cases hunder
  refine ⟨text, htext, .inl ?_⟩
  rw [pathText_cons]
  rfl

end Told

theorem exists_of_bind_under {outcome : Except Fault Verdict} {context : String} {reason : Value}
    (h : (outcome >>= under context) = .ok (some reason)) :
    ∃ inner, outcome = .ok (some inner) ∧ under context (some inner) = .ok (some reason) := by
  obtain ⟨verdict, houtcome, hunder⟩ := bind_eq_ok_iff.mp h
  cases verdict with
  | none => cases hunder
  | some inner => exact ⟨inner, houtcome, hunder⟩

namespace FirstFault

theorem told_passOr {passes : Bool} {name : String} {reason : Value}
    (h : passOr passes name v = some reason) :
    passes = false ∧ Told [] (.mismatch name v) reason := by
  cases passes with
  | true => cases h
  | false =>
    cases h
    exact ⟨rfl, .ofText rfl⟩

theorem exists_of_memberCheck {s : Nat} {n : Name} {before after : List (Name × Schema)}
    {m : Name × Schema} {policy : Policy} {entries : List (Value × Value)} {reason : Value}
    (hentries : v.entries? = some entries)
    (hbefore : ∀ k ∈ before, MemberConforms answer policy.total entries k)
    (hmember : ∀ x, lookup? (.ofString m.1.text) entries = some x → ∀ inner,
      m.2.evaluate (.total answer) x = .ok (some inner) →
      ∃ path leaf, FirstFault answer m.2 x path leaf ∧ Told path leaf inner)
    (h : Schema.memberCheck (.total answer) policy.total entries m = .ok (some reason)) :
    ∃ path leaf, FirstFault answer (.record s n (before ++ m :: after) policy) v
      (.record n.text :: path) leaf ∧ Told path leaf reason := by
  unfold Schema.memberCheck Record.memberVerdict at h
  split at h
  next x hx =>
    obtain ⟨inner, hinner, hunder⟩ := exists_of_bind_under h
    obtain ⟨path, leaf, hfault, htold⟩ := hmember x hx inner hinner
    exact ⟨_, leaf, .member hentries rfl hbefore hx hfault,
      htold.under (.member m.1.text) hunder⟩
  next hx =>
    cases htotal : policy.total with
    | true =>
      rw [htotal] at h
      cases h
      exact ⟨[], _, .missing hentries rfl hbefore hx htotal, .ofText rfl⟩
    | false =>
      rw [htotal] at h
      cases h

theorem exists_of_restVerdict {s : Nat} {n : Name} {members : List (Name × Schema)}
    {policy : Policy} {entries : List (Value × Value)} {reason : Value}
    (hentries : v.entries? = some entries)
    (hall : ∀ m ∈ members, MemberConforms answer policy.total entries m)
    (hspeaks : ∀ f, policy.extra = some f → (answer f v).HasText)
    (h : Record.restVerdict (.total answer) policy (members.map (·.1.text)) v entries =
      .ok (some reason)) :
    ∃ leaf, FirstFault answer (.record s n members policy) v [.record n.text] leaf ∧
      Told [] leaf reason := by
  rcases (followedBy_eq_iff (by simp)).mp h with hlisted | ⟨hpass, hwhole⟩
  · cases hunknown : policy.unknown with
    | true =>
      rw [hunknown] at hlisted
      cases hlisted
    | false =>
      rw [hunknown] at hlisted
      change Record.keysVerdict _ _ = _ at hlisted
      have hne : Record.undeclaredKeys (members.map (·.1.text)) entries ≠ [] := by
        intro hnil
        cases (Record.keysVerdict_nil hnil).symm.trans hlisted
      rw [Record.keysVerdict_cons rfl hne] at hlisted
      obtain ⟨shown, hshown, hreason⟩ := bind_eq_ok_iff.mp hlisted
      cases hreason
      have htext : (Leaf.unrecognized (Record.undeclaredKeys (members.map (·.1.text)) entries)
          (members.map (·.1.text))).text? = .ok (Record.unrecognizedText shown
            (Record.nameList (members.map (·.1.text)))) := by
        rw [Leaf.text?, hshown]
        rfl
      exact ⟨_, .unrecognized hentries hall hunknown rfl hne, .ofText htext⟩
  · have hkeys := Record.optionalKeys_eq_none_iff.mp hpass
    split at hwhole
    next => cases hwhole
    next f hf =>
      have hanswer : Verdict.ofAnswer (answer f v) = some reason := Except.ok.inj hwhole
      cases Verdict.ofAnswer_eq_some hanswer
      obtain ⟨text, htext⟩ := hspeaks f hf
      refine ⟨_, .whole hentries hall hkeys hf (Verdict.ne_null_of_ofAnswer hanswer), ?_⟩
      exact ⟨text, htext, .inr ⟨rfl, rfl⟩⟩

theorem exists_of_items {xs : List Value} {reason : Value}
    (hspeaks : ∀ f ∈ t.funcs, ∀ v, (answer f v).HasText) (hkeys : ∀ x ∈ xs, x.keysShown = true)
    (hitem : ∀ x, x.keysShown = true → ∀ inner, t.evaluate (.total answer) x = .ok (some inner) →
      ∃ path leaf, FirstFault answer t x path leaf ∧ Told path leaf inner)
    (h : firstReason (t.evaluate (.total answer)) xs = .ok (some reason)) :
    ∃ before x after path leaf, xs = before ++ x :: after ∧ (∀ y ∈ before, Conforms answer t y) ∧
      FirstFault answer t x path leaf ∧ Told path leaf reason := by
  obtain ⟨before, x, after, rfl, hbefore, hx⟩ := (firstReason_eq_iff (by simp)).mp h
  have hconforms : ∀ y ∈ before, Conforms answer t y := by
    intro y hy
    have hshown : y.keysShown = true := hkeys y (by simp [hy])
    exact (Schema.evaluate_eq_none_iff hspeaks hshown).mp (hbefore y hy)
  obtain ⟨path, leaf, hfault, htold⟩ := hitem x (hkeys x (by simp)) reason hx
  exact ⟨before, x, after, path, leaf, rfl, hconforms, hfault, htold⟩

/-- The fault of a mapping is the one of its first member that is not in order, or else one of the
rest. -/
theorem exists_of_entries {s : Nat} {n : Name} {members : List (Name × Schema)} {policy : Policy}
    {entries : List (Value × Value)} {reason : Value}
    (hspeaks : ∀ f ∈ (Schema.record s n members policy).funcs, ∀ v, (answer f v).HasText)
    (hv : v.keysShown = true) (hentries : v.entries? = some entries)
    (hmember : ∀ m ∈ members, ∀ x, x.keysShown = true → ∀ inner,
      m.2.evaluate (.total answer) x = .ok (some inner) →
      ∃ path leaf, FirstFault answer m.2 x path leaf ∧ Told path leaf inner)
    (h : followedBy (firstReason (Schema.memberCheck (.total answer) policy.total entries) members)
      (Record.restVerdict (.total answer) policy (members.map (·.1.text)) v entries) =
        .ok (some reason)) :
    ∃ path leaf, FirstFault answer (.record s n members policy) v (.record n.text :: path) leaf ∧
      Told path leaf reason := by
  have hpart : ∀ m ∈ members, ∀ f ∈ m.2.funcs, ∀ v, (answer f v).HasText :=
    fun m hm f hf => hspeaks f (Schema.mem_funcs_member hm hf)
  have hkeys : ∀ {m : Name × Schema} {x : Value},
      lookup? (.ofString m.1.text) entries = some x → x.keysShown = true := by
    intro m x hx
    obtain ⟨k, he⟩ := lookup?_mem hx
    exact (Value.keysShown_entry hv hentries he).2
  have hconforms : ∀ m ∈ members,
      Schema.memberCheck (.total answer) policy.total entries m = .ok none →
      MemberConforms answer policy.total entries m := by
    intro m hm hpass
    obtain ⟨hpresent, htotal⟩ := Schema.memberCheck_eq_none_iff.mp hpass
    exact ⟨fun x hx => (Schema.evaluate_eq_none_iff (hpart m hm) (hkeys hx)).mp
      (hpresent x hx), htotal⟩
  rcases (followedBy_eq_iff (by simp)).mp h with hstop | ⟨hpass, hrest⟩
  · obtain ⟨before, m, after, rfl, hbefore, hm⟩ := (firstReason_eq_iff (by simp)).mp hstop
    have hordered : ∀ k ∈ before, MemberConforms answer policy.total entries k :=
      fun k hk => hconforms k (by simp [hk]) (hbefore k hk)
    exact exists_of_memberCheck hentries hordered
      (fun x hx => hmember m (by simp) x (hkeys hx)) hm
  · have hall : ∀ m ∈ members, MemberConforms answer policy.total entries m :=
      fun m hm => hconforms m hm (firstReason_eq_none_iff.mp hpass m hm)
    obtain ⟨leaf, hfault, htold⟩ := exists_of_restVerdict hentries hall
      (fun f hf => hspeaks f (Schema.mem_funcs_extra hf) v) hrest
    exact ⟨[], leaf, hfault, htold⟩

/-- Where the one pass ends with a reason, there is a first fault, and the reason tells the way to
it. -/
theorem exists_of_evaluate (hspeaks : ∀ f ∈ t.funcs, ∀ v, (answer f v).HasText)
    (hv : v.keysShown = true) {reason : Value}
    (h : t.evaluate (.total answer) v = .ok (some reason)) :
    ∃ path leaf, FirstFault answer t v path leaf ∧ Told path leaf reason := by
  induction t generalizing v reason with
  | primitive p =>
    obtain ⟨hfalse, htold⟩ := told_passOr (Except.ok.inj h)
    refine ⟨_, _, .primitive fun hadmits => ?_, htold⟩
    exact nomatch hfalse.symm.trans (Primitive.accepts_iff_admits.mpr hadmits)
  | custom n f =>
    have hanswer : Verdict.ofAnswer (answer f v) = some reason := Except.ok.inj h
    cases Verdict.ofAnswer_eq_some hanswer
    obtain ⟨text, htext⟩ := hspeaks f List.mem_cons_self v
    exact ⟨_, _, .custom (Verdict.ne_null_of_ofAnswer hanswer), text, htext, .inr ⟨rfl, rfl⟩⟩
  | predicate s n f =>
    obtain ⟨hfalse, htold⟩ := told_passOr (Except.ok.inj h)
    exact ⟨_, _, .predicate hfalse, htold⟩
  | optional s t ih =>
    by_cases hnull : v = .null
    · rw [hnull] at h
      cases h
    · rw [Schema.evaluate_optional hnull] at h
      obtain ⟨inner, hinner, hunder⟩ := exists_of_bind_under h
      obtain ⟨path, leaf, hfault, htold⟩ := ih hspeaks hv hinner
      exact ⟨_, leaf, .optional hnull hfault, htold.under (.option t.name) hunder⟩
  | listOf s t ih =>
    cases hitems : v.items? with
    | none =>
      rw [Schema.evaluate, hitems] at h
      cases h
      exact ⟨_, _, .noList hitems, .ofText rfl⟩
    | some items =>
      rw [Schema.evaluate_listOf hitems] at h
      obtain ⟨inner, hinner, hunder⟩ := exists_of_bind_under h
      have hkeys : ∀ y ∈ items, y.keysShown = true :=
        fun y hy => Value.keysShown_item hv hitems hy
      obtain ⟨before, x, after, path, leaf, rfl, hbefore, hfault, htold⟩ :=
        exists_of_items (t := t) hspeaks hkeys (fun x hx inner => ih hspeaks hx) hinner
      exact ⟨_, leaf, .element hitems hbefore hfault, htold.under (.element t.name) hunder⟩
  | mapOf s t ih =>
    cases hentries : v.entries? with
    | none =>
      rw [Schema.evaluate, hentries] at h
      cases h
      exact ⟨_, _, .noMapping hentries, .ofText rfl⟩
    | some entries =>
      rw [Schema.evaluate_mapOf hentries] at h
      obtain ⟨inner, hinner, hunder⟩ := exists_of_bind_under h
      have hkeys : ∀ y ∈ entries.map (·.2), y.keysShown = true :=
        List.forall_mem_map.mpr fun e he => (Value.keysShown_entry hv hentries he).2
      obtain ⟨before, x, after, path, leaf, hsplit, hbefore, hfault, htold⟩ :=
        exists_of_items (t := t) hspeaks hkeys (fun x hx inner => ih hspeaks hx) hinner
      exact ⟨_, leaf, .entry hentries hsplit hbefore hfault, htold.under (.entry t.name) hunder⟩
  | union s ts ih =>
    have hne : ¬ Conforms answer (.union s ts) v := by
      rw [← Schema.evaluate_eq_none_iff hspeaks hv, h]
      simp
    rw [Conforms.union_iff] at hne
    rw [Schema.evaluate_union] at h
    obtain ⟨passes, _, hreason⟩ := bind_eq_ok_iff.mp h
    obtain ⟨_, htold⟩ := told_passOr (Except.ok.inj hreason)
    exact ⟨_, _, .union fun t ht hconforms => hne ⟨t, ht, hconforms⟩, htold⟩
  | enumeration s n elems =>
    have hne : ¬ Conforms answer (.enumeration s n elems) v := by
      rw [← Schema.evaluate_eq_none_iff hspeaks hv, h]
      simp
    rw [Conforms.enumeration_iff] at hne
    rw [Schema.evaluate] at h
    split at h
    next => cases h
    next =>
      cases h
      exact ⟨_, _, .enumeration fun e he hsame => hne ⟨e, he, hsame⟩, .ofText rfl⟩
  | record s n members policy ih =>
    cases hentries : v.entries? with
    | none =>
      rw [Schema.evaluate_record_mismatch hentries] at h
      exact ⟨_, _, .noRecord hentries, (Told.ofText rfl).under (.record n.text) h⟩
    | some entries =>
      rw [Schema.evaluate_record hentries] at h
      obtain ⟨inner, hinner, hunder⟩ := exists_of_bind_under h
      have hmember : ∀ m ∈ members, ∀ x, x.keysShown = true → ∀ inner,
          m.2.evaluate (.total answer) x = .ok (some inner) →
          ∃ path leaf, FirstFault answer m.2 x path leaf ∧ Told path leaf inner := by
        intro m hm x hx inner
        exact ih m hm (fun f hf => hspeaks f (Schema.mem_funcs_member hm hf)) hx
      obtain ⟨path, leaf, hfault, htold⟩ :=
        exists_of_entries hspeaks hv hentries hmember hinner
      exact ⟨_, leaf, hfault, htold.under (.record n.text) hunder⟩

end FirstFault

namespace Schema

/-- Where something is wrong with a value, one fault is the first, and the reason reads as the way
to it. The reason is that text, but for a function's answer about the value itself. -/
theorem verify_tells_first_fault {h : Host σ}
    (hcalls : ∀ f ∈ t.funcs, ∀ v, Settles (h.call f v) (.ok (answer f v)))
    (hspeaks : ∀ f ∈ t.funcs, ∀ v, (answer f v).HasText) (hv : v.keysShown = true) (s : σ)
    (hrejected : (t.verify h v s).1 ≠ .ok none) :
    ∃ path leaf text reason,
      (∀ path' leaf', FirstFault answer t v path' leaf' ↔ path' = path ∧ leaf' = leaf) ∧
      leaf.text? = .ok text ∧ (t.verify h v s).1 = .ok (some reason) ∧
      reason.plainText? = .ok (pathText path text) ∧
      (reason = .ofString (pathText path text) ∨
        path = [] ∧ ∃ n f, t = .custom n f ∧ reason = answer f v) := by
  have hverify : (t.verify h v s).1 = t.evaluate (.total answer) v := settles_verify hcalls v s
  rw [hverify] at hrejected ⊢
  obtain ⟨verdict, hverdict⟩ := evaluate_total hspeaks hv
  cases verdict with
  | none => exact absurd hverdict hrejected
  | some reason =>
    obtain ⟨path, leaf, hfault, text, htext, hreason⟩ :=
      FirstFault.exists_of_evaluate hspeaks hv hverdict
    have hfirst : ∀ path' leaf',
        FirstFault answer t v path' leaf' ↔ path' = path ∧ leaf' = leaf := by
      intro path' leaf'
      constructor
      · exact hfault.unique
      · rintro ⟨rfl, rfl⟩
        exact hfault
    refine ⟨path, leaf, text, reason, hfirst, htext, hverdict, ?_⟩
    rcases hreason with rfl | ⟨rfl, rfl⟩
    · exact ⟨rfl, .inl rfl⟩
    · cases hfault with
      | custom _ => exact ⟨htext, .inr ⟨rfl, _, _, rfl, rfl⟩⟩

def service : Schema :=
  .record 0 "service" [("aliases", .optional 1 (.listOf 2 (.primitive .string)))]
    { extra := some (sample 0) }

def silence : Func → Value → Value := fun _ _ => .null

def oddAlias : Value :=
  .mapping (.plain .base) [(.ofString "aliases", .list .base [.ofString "ns", .ofInt 1, .null])]

/-- The second alias is the first fault; the third is another one. -/
theorem verify_tells_first_fault_service :
    (service.verify (.ofAnswers (.total silence)) oddAlias ()).1 =
      .ok (.because ("in struct 'service': in member 'aliases': in option<listOf<string>>: " ++
        "in listOf<string> element: Expected type 'string' but value '1' is of type 'int'")) := by
  have hone : (sample 0).acceptsOne = true := by decide
  have hcalls : ∀ f ∈ service.funcs, ∀ v,
      Settles ((Host.ofAnswers (.total silence)).call f v) (.ok (silence f v)) := by
    intro f hf
    cases List.mem_singleton.mp hf
    exact Host.ofAnswers_steady (.total silence) hone
  have hspeaks : ∀ f ∈ service.funcs, ∀ v, (silence f v).HasText := fun _ _ _ => ⟨"None", rfl⟩
  have hrejected : (service.verify (.ofAnswers (.total silence)) oddAlias ()).1 ≠ .ok none := by
    have hrun : ∃ reason, (service.verify (.ofAnswers (.total silence)) oddAlias ()).1 =
        .ok (some reason) := ⟨_, rfl⟩
    obtain ⟨reason, hreason⟩ := hrun
    rw [hreason]
    nofun
  obtain ⟨path, leaf, text, reason, hfirst, htext, hrun, _, hreason⟩ :=
    verify_tells_first_fault hcalls hspeaks rfl () hrejected
  have hbefore : ∀ y ∈ [Value.ofString "ns"], Conforms silence (.primitive .string) y := by
    intro y hy
    cases List.mem_singleton.mp hy
    exact .primitive (.string _ _)
  have hnumber : ¬ Primitive.Admits .string (.ofInt 1) := nofun
  have haliases : FirstFault silence (.optional 1 (.listOf 2 (.primitive .string)))
      (.list .base [.ofString "ns", .ofInt 1, .null]) _ (.mismatch "string" (.ofInt 1)) :=
    .optional (by simp) (.element rfl hbefore (.primitive hnumber))
  have hnone : ∀ entries, ∀ k ∈ ([] : List (Name × Schema)),
      MemberConforms silence true entries k := by
    simp
  have hfault : FirstFault silence service oddAlias _ _ :=
    .member rfl rfl (hnone _) rfl haliases
  obtain ⟨rfl, rfl⟩ := (hfirst _ _).mp hfault
  cases htext
  rw [hrun]
  rcases hreason with rfl | ⟨hnil, _⟩
  · exact congrArg (fun text => Except.ok (Verdict.because text)) (by decide +kernel)
  · cases hnil

/-- Without a layer around it, an answer is given as it is, and need not be a text. -/
theorem verify_bare_answer :
    ((Schema.custom "bare" (sample 0)).verify (.ofAnswers (.total falsity)) .null ()).1 =
      .ok (some (.bool false)) ∧
    ∀ (path : List Segment) (leaf : Leaf) (text : String), leaf.text? = .ok text →
      Value.bool false ≠ .ofString (pathText path text) :=
  ⟨rfl, fun _ _ _ _ => nofun⟩

end Schema

end Conformance

/- Which schemas of a program are equal. A constructor stamps the verifier it makes, so schemas from
   different calls differ unless the verifier was given; equal ones then agree in all they do. -/
import Mathlib.Data.List.Pairwise
import Conformance.Proofs.Hashing
import Conformance.Proofs.Logging
import Conformance.Proofs.Sameness
namespace Conformance

namespace Value

theorem alike_of_place {v : Value} {p : Place} (hv : v.place? = some p) (hp : p ≠ .nowhere) :
    v.alike v = true := by
  rw [alike, (same_iff_place hv).mpr ⟨hv, hp⟩, Bool.or_true]

theorem alike_of_same {v : Value} (h : v.same v = true) : v.alike v = true := by
  rw [alike, h, Bool.or_true]

theorem sameKeys_self {es : List (Value × Value)} (h : ∀ e ∈ es, e.1.alike e.1 = true) :
    sameKeys es es = true := by
  induction es with
  | nil => rfl
  | cons e es ih =>
    obtain ⟨he, hes⟩ := List.forall_mem_cons.mp h
    exact (Bool.and_eq_true _ _).mpr ⟨he, ih hes⟩

mutual

/-- Every value is found again in a container that has it, even what is equal to nothing. -/
theorem alike_self : ∀ v : Value, v.alike v = true
  | .null => rfl
  | .bool b => alike_of_place (v := .bool b) rfl nofun
  | .int l n => alike_of_place (v := .int l n) rfl nofun
  | .float _ (.nan mark) => by simp [alike, sameNan]
  | .float l (.infinity true) => rfl
  | .float l (.infinity false) => rfl
  | .float l (.finite negative units) =>
    alike_of_place (v := .float l (.finite negative units)) rfl nofun
  | .text _ s => alike_of_same (beq_self_eq_true s)
  | .octets _ data => alike_of_same (beq_self_eq_true data)
  | .list _ items | .tuple _ items =>
    alike_of_same (sameItems_iff.mpr (List.forall₂_same.mpr (alike_item items)))
  | .set _ items =>
    alike_of_same (set_same_iff.mpr
      ⟨_, items, rfl, rfl, fun x hx => ⟨x, hx, alike_item items x hx⟩⟩)
  | .mapping _ entries => by
    have hentries := alike_entry entries
    have hamong : entriesAmong entries entries = true :=
      entriesAmong_iff.mpr fun e he => ⟨e, he, (Bool.and_eq_true _ _).mpr (hentries e he)⟩
    have hkeys := sameKeys_self fun e he => (hentries e he).1
    exact alike_of_same (by simp [same, hamong, hkeys])
  | .func f => alike_of_same (beq_self_eq_true f)
  | .object _ _ _ => alike_of_same (by simp [same])
  | .loopList stamp | .loopMapping stamp => alike_of_same (beq_self_eq_true stamp)
  | .schema t => alike_of_same (by simp [same, Schema.same])
termination_by structural v => v

theorem alike_item : ∀ vs : List Value, ∀ v ∈ vs, v.alike v = true
  | [] => by simp
  | v :: vs => List.forall_mem_cons.mpr ⟨alike_self v, alike_item vs⟩
termination_by structural vs => vs

theorem alike_entry : ∀ es : List (Value × Value), ∀ e ∈ es,
    e.1.alike e.1 = true ∧ e.2.alike e.2 = true
  | [] => by simp
  | (key, v) :: es => List.forall_mem_cons.mpr ⟨⟨alike_self key, alike_self v⟩, alike_entry es⟩
termination_by structural es => es

end

theorem sameItems_self (vs : List Value) : sameItems vs vs = true :=
  sameItems_iff.mpr (List.forall₂_same.mpr (alike_item vs))

end Value

namespace Construct

/-- How the making of a schema can go: no stamp is taken and the verifier is one that was given, if
there is a schema at all; or the verifier has the next stamp. -/
inductive Stamped (forge : Forge) : Except Fault Schema → Forge → Prop
  | failed {fault forge'} : forge'.next = forge.next → Stamped forge (.error fault) forge'
  | given {n f forge'} : forge'.next = forge.next → Stamped forge (.ok (.custom n f)) forge'
  | made {t forge'} : t.verifierId = .made forge.next → forge'.next = forge.next + 1 →
      Stamped forge (.ok t) forge'

def Stamps (x : Build Schema) : Prop := ∀ forge, Stamped forge (x forge).1 (x forge).2

namespace Stamps

variable {α : Type}

theorem refused (fault : Fault) : Stamps (throw fault) := fun _ => .failed rfl

theorem given (n : Name) (f : Func) : Stamps (pure (.custom n f)) := fun _ => .given rfl

theorem made {former : Nat → Schema} (h : ∀ s, (former s).verifierId = .made s) :
    Stamps (do return former (← Build.fresh)) := fun forge => .made (h forge.next) rfl

theorem bind {x : Build α} {f : α → Build Schema} (hx : Keeps Forge.next x)
    (hf : ∀ a, Stamps (f a)) : Stamps (x >>= f) := by
  intro forge
  have hnext := hx forge
  rw [bind_apply]
  cases hrun : x forge with
  | mk result forge' =>
    rw [hrun] at hnext
    cases result with
    | error fault => exact .failed hnext
    | ok a =>
      have hrest := hf a forge'
      dsimp only at hnext ⊢
      generalize f a forge' = rest at hrest ⊢
      obtain ⟨result, forge''⟩ := rest
      cases hrest with
      | failed h => exact .failed (h.trans hnext)
      | given h => exact .given (h.trans hnext)
      | made hid h =>
        rw [hnext] at hid h
        exact .made hid h

theorem checked {r : Except Fault α} {f : α → Build Schema} (hf : ∀ a, Stamps (f a)) :
    Stamps (do f (← ofExcept r)) := bind (.ofExcept r) hf

theorem noted {record : LogRecord} {x : Build Schema} (hx : Stamps x) :
    Stamps (do Build.note record; x) := bind (fun _ => rfl) fun _ => hx

end Stamps

theorem stamps_around (what : String) (inner : Value) {former : Nat → Schema → Schema}
    (h : ∀ s t, (former s t).verifierId = .made s) :
    Stamps (do
      let t ← ofExcept (requireSchema what inner)
      return former (← Build.fresh) t) := .checked fun t => .made (h · t)

theorem stamps_custom (name verifier : Value) : Stamps (custom name verifier) := by
  refine .checked fun n => ?_
  cases verifier with
  | func f =>
    dsimp only
    split
    next => exact .given n f
    next => exact .refused _
  | _ => exact .refused _

theorem stamps_predicate (name test : Value) : Stamps (predicate name test) := by
  cases test with
  | func f => exact .checked fun n => .made fun s => rfl
  | _ => exact .checked fun text => .refused _

theorem stamps_union (members : Value) : Stamps (union members) := by
  unfold union
  cases members.items? with
  | none => exact .refused _
  | some items => exact .checked fun ts => .made fun s => rfl

theorem stamps_enumeration (name elems : Value) : Stamps (enumeration name elems) := by
  unfold enumeration
  cases collection? elems with
  | none => exact .refused _
  | some items =>
    cases items with
    | nil => exact .checked fun text => .refused _
    | cons item items => exact .checked fun n => .made fun s => rfl

theorem stamps_record (name members : Value) (knobs : Knobs) :
    Stamps (record name members knobs) := by
  unfold record
  cases members.entries? with
  | none => exact .checked fun text => .refused _
  | some entries =>
    exact .checked fun fields => .checked fun policy =>
      .noted (.checked fun text => .checked fun n => .made fun s => rfl)

theorem stamps_override (target : Value) (knobs : Knobs) : Stamps (override target knobs) := by
  cases target with
  | schema t =>
    cases t with
    | record s n members policy =>
      unfold override
      dsimp only
      split
      next => exact .refused _
      next => exact .checked fun policy => .noted (.made fun s => rfl)
    | _ => exact .refused _
  | _ => exact .refused _

theorem Request.stamps_build (q : Request) : Stamps q.build := by
  cases q with
  | custom name verifier => exact stamps_custom name verifier
  | predicate name test => exact stamps_predicate name test
  | optional inner => exact stamps_around _ inner fun s t => rfl
  | listOf inner => exact stamps_around _ inner fun s t => rfl
  | mapOf inner => exact stamps_around _ inner fun s t => rfl
  | union members => exact stamps_union members
  | enumeration name elems => exact stamps_enumeration name elems
  | record name members knobs => exact stamps_record name members knobs
  | override target knobs => exact stamps_override target knobs

end Construct

namespace Primitive

def all : List Primitive := [.string, .int, .float, .number, .bool, .attrs, .list, .function, .any]

end Primitive

namespace Schema

def elems : Schema → List Value
  | .enumeration _ _ elems => elems
  | _ => []

def members : Schema → List (Name × Schema)
  | .record _ _ members _ => members
  | _ => []

def policy? : Schema → Option Policy
  | .record _ _ _ policy => some policy
  | _ => none

/-- Equality field by field: class, name, verifier, and the elements of an enumeration. -/
def sameFields (a b : Schema) : Bool :=
  a.className == b.className && a.name == b.name && a.verifier == b.verifier &&
    Value.sameItems a.elems b.elems

/-- Both were given the same function. -/
def Share (a b : Schema) : Prop := ∃ n m f, a = .custom n f ∧ b = .custom m f

theorem Share.symm {a b : Schema} (h : Share a b) : Share b a := by
  obtain ⟨n, m, f, ha, hb⟩ := h
  exact ⟨m, n, f, hb, ha⟩

/-- Both were given the same function, under names that read the same. -/
def Namesakes (a b : Schema) : Prop := ∃ n m f, a = .custom n f ∧ b = .custom m f ∧ n.text = m.text

/-- The schemas agree in what they show, hold and do. -/
structure Agree (k : Hasher) (a b : Schema) : Prop where
  className : a.className = b.className
  name : a.name = b.name
  elems : a.elems = b.elems
  members : a.members = b.members
  policy : a.policy? = b.policy?
  verify : ∀ {σ : Type} (h : Host σ), a.verify h = b.verify h
  hash : Value.schemaHash? k a = Value.schemaHash? k b

variable {a b t : Schema}

theorem same_iff : a.same b = true ↔
    a.className = b.className ∧ a.name = b.name ∧ a.verifierId = b.verifierId := by
  simp [same, and_assoc]

theorem same_equivalence : Equivalence fun a b : Schema => a.same b = true where
  refl _ := same_iff.mpr ⟨rfl, rfl, rfl⟩
  symm hab := by
    obtain ⟨hclass, hname, hid⟩ := same_iff.mp hab
    exact same_iff.mpr ⟨hclass.symm, hname.symm, hid.symm⟩
  trans hab hbc := by
    obtain ⟨hclass, hname, hid⟩ := same_iff.mp hab
    obtain ⟨hclass', hname', hid'⟩ := same_iff.mp hbc
    exact same_iff.mpr ⟨hclass.trans hclass', hname.trans hname', hid.trans hid'⟩

theorem sameFields_iff : a.sameFields b = true ↔ a.className = b.className ∧ a.name = b.name ∧
    a.verifier = b.verifier ∧ Value.sameItems a.elems b.elems = true := by
  simp [sameFields, and_assoc]

theorem sameFields_self (t : Schema) : t.sameFields t = true :=
  sameFields_iff.mpr ⟨rfl, rfl, rfl, Value.sameItems_self t.elems⟩

theorem Agree.refl (k : Hasher) (t : Schema) : Agree k t t :=
  ⟨rfl, rfl, rfl, rfl, rfl, fun _ => rfl, rfl⟩

theorem Namesakes.agree {k : Hasher} (h : Namesakes a b) : Agree k a b := by
  obtain ⟨n, m, f, rfl, rfl, hname⟩ := h
  refine ⟨rfl, hname, rfl, rfl, rfl, fun _ => rfl, ?_⟩
  change Except.ok (k.tuple [k.text n.text, k.func f]) = .ok (k.tuple [k.text m.text, k.func f])
  rw [hname]

theorem Namesakes.sameFields (h : Namesakes a b) : a.sameFields b = true := by
  obtain ⟨n, m, f, rfl, rfl, hname⟩ := h
  exact sameFields_iff.mpr ⟨rfl, hname, rfl, rfl⟩

theorem Namesakes.same (h : Namesakes a b) : a.same b = true := by
  obtain ⟨n, m, f, rfl, rfl, hname⟩ := h
  exact same_iff.mpr ⟨rfl, hname, rfl⟩

theorem verifierId_eq_primitive {p : Primitive} (h : t.verifierId = .primitive p) :
    t = .primitive p := by
  cases t with
  | primitive q =>
    cases h
    rfl
  | _ => cases h

theorem verifierId_eq_given {f : Func} (h : t.verifierId = .given f) : ∃ n, t = .custom n f := by
  cases t with
  | custom n g =>
    cases h
    exact ⟨n, rfl⟩
  | _ => cases h

/-- The stamp of the verifier that goes by this. -/
def VerifierId.stamp : VerifierId → Nat
  | .given f => f.stamp
  | .primitive p => p.ctorIdx
  | .made s => Primitive.count + s

theorem verifier_stamp (t : Schema) : t.verifier.stamp = t.verifierId.stamp := by
  cases t <;> rfl

/-- Stamps tell all verifiers apart that were not given; those of primitives come first. -/
theorem VerifierId.eq_of_stamp {i j : VerifierId} (hi : ∀ f, i ≠ .given f)
    (hj : ∀ f, j ≠ .given f) (h : i.stamp = j.stamp) : i = j := by
  cases i with
  | given f => exact absurd rfl (hi f)
  | primitive p =>
    have hp := p.ctorIdx_lt_count
    cases j with
    | given f => exact absurd rfl (hj f)
    | primitive q =>
      have hleft : Function.LeftInverse Primitive.ofNat Primitive.ctorIdx := Primitive.ofNat_ctorIdx
      exact congrArg primitive (hleft.injective h)
    | made s =>
      simp only [stamp] at h
      omega
  | made s =>
    cases j with
    | given f => exact absurd rfl (hj f)
    | primitive q =>
      have hq := q.ctorIdx_lt_count
      simp only [stamp] at h
      omega
    | made s' => exact congrArg made (Nat.add_left_cancel h)

end Schema

namespace Construct

/-- The schemas that calls have made, in order, and where the stamps are then. Between the calls
other things may take stamps. -/
inductive Course : Forge → List Schema → Prop
  | start (forge) : Course forge []
  | call {forge ts} (q : Request) : Course forge ts →
      Course (q.build forge).2 (ts ++ (q.build forge).1.toOption.toList)
  | idle {forge forge' ts} : Course forge ts → forge.next ≤ forge'.next → Course forge' ts

/-- The schemas that there are: those from the start, and those that were made. -/
def known (ts : List Schema) : List Schema := Primitive.all.map .primitive ++ ts

/-- No function that was given to be a verifier is one that a constructor made. -/
def Foreign (ts : List Schema) : Prop :=
  ∀ a ∈ ts, ∀ n f, a = .custom n f → ∀ b ∈ ts, b.verifier = f → ∃ m, b = .custom m f

/-- Verifiers that were made have stamps that were taken, each another one. -/
structure Apart (forge : Forge) (ts : List Schema) : Prop where
  taken : ∀ t ∈ ts, ∀ s, t.verifierId = .made s → s < forge.next
  built : ∀ t ∈ ts, ∀ p, t ≠ .primitive p
  distinct : ts.Pairwise fun a b => a.verifierId = b.verifierId → a.Share b

namespace Apart

variable {forge forge' : Forge} {ts : List Schema}

theorem later (h : Apart forge ts) (hnext : forge.next ≤ forge'.next) : Apart forge' ts where
  taken := fun t ht s hid => Nat.lt_of_lt_of_le (h.taken t ht s hid) hnext
  built := h.built
  distinct := h.distinct

theorem append (h : Apart forge ts) {t : Schema} (hnext : forge.next ≤ forge'.next)
    (hmade : ∀ s, t.verifierId = .made s → forge.next ≤ s ∧ s < forge'.next)
    (hbuilt : ∀ p, t ≠ .primitive p) : Apart forge' (ts ++ [t]) where
  taken := by
    intro u hu s hid
    rcases List.mem_append.mp hu with hu | hu
    · exact Nat.lt_of_lt_of_le (h.taken u hu s hid) hnext
    · cases List.mem_singleton.mp hu
      exact (hmade s hid).2
  built := by
    intro u hu
    rcases List.mem_append.mp hu with hu | hu
    · exact h.built u hu
    · cases List.mem_singleton.mp hu
      exact hbuilt
  distinct := by
    refine List.pairwise_append.mpr ⟨h.distinct, List.pairwise_singleton _ _, ?_⟩
    intro a ha b hb hid
    cases List.mem_singleton.mp hb
    cases hverifier : a.verifierId with
    | primitive p => exact absurd (Schema.verifierId_eq_primitive hverifier) (h.built a ha p)
    | given f =>
      obtain ⟨n, rfl⟩ := Schema.verifierId_eq_given hverifier
      obtain ⟨m, rfl⟩ := Schema.verifierId_eq_given (hid.symm.trans hverifier)
      exact ⟨n, m, f, rfl, rfl⟩
    | made s =>
      have htaken := h.taken a ha s hverifier
      have hnew := (hmade s (hid.symm.trans hverifier)).1
      exact absurd htaken (Nat.not_lt.mpr hnew)

/-- A call makes at most one schema, and what it stamps has the next stamp. -/
theorem call (h : Apart forge ts) (q : Request) :
    Apart (q.build forge).2 (ts ++ (q.build forge).1.toOption.toList) := by
  have hstamped := q.stamps_build forge
  generalize q.build forge = outcome at hstamped ⊢
  obtain ⟨result, forge'⟩ := outcome
  dsimp only at hstamped ⊢
  cases hstamped with
  | failed hnext =>
    rw [Except.toOption, Option.toList_none, List.append_nil]
    exact h.later hnext.ge
  | given hnext =>
    refine h.append hnext.ge (fun s hs => ?_) fun p hp => ?_
    · cases hs
    · cases hp
  | made hid hnext =>
    refine h.append (by omega) (fun s hs => ?_) fun p hp => ?_
    · cases hid.symm.trans hs
      omega
    · rw [hp] at hid
      cases hid

theorem ofCourse (h : Course forge ts) : Apart forge ts := by
  induction h with
  | start forge => exact ⟨nofun, nofun, .nil⟩
  | call q _ ih => exact ih.call q
  | idle _ hnext ih => exact ih.later hnext

/-- Primitives differ from each other and from all that is made. -/
theorem known (h : Apart forge ts) :
    (known ts).Pairwise fun a b => a.verifierId = b.verifierId → a.Share b := by
  refine List.pairwise_append.mpr ⟨?_, h.distinct, ?_⟩
  · refine List.pairwise_map.mpr (List.Pairwise.imp (R := (· ≠ ·)) ?_ (by decide))
    intro p q hne hid
    exact absurd (Schema.VerifierId.primitive.inj hid) hne
  · intro a ha b hb hid
    obtain ⟨p, -, rfl⟩ := List.mem_map.mp ha
    exact absurd (Schema.verifierId_eq_primitive hid.symm) (h.built b hb p)

/-- A verifier belongs to one schema, unless it was given. -/
theorem eq_or_share (h : Apart forge ts) {a b : Schema} (ha : a ∈ Construct.known ts)
    (hb : b ∈ Construct.known ts) (hid : a.verifierId = b.verifierId) : a = b ∨ a.Share b := by
  have hsymm : Std.Symm fun a b : Schema => a.verifierId = b.verifierId → a.Share b :=
    ⟨fun _ _ hab hid => (hab hid.symm).symm⟩
  by_cases hne : a = b
  · exact .inl hne
  · exact .inr (h.known.forall ha hb hne hid)

theorem eq_or_namesakes (h : Apart forge ts) {a b : Schema} (ha : a ∈ Construct.known ts)
    (hb : b ∈ Construct.known ts) (hsame : a.same b = true) : a = b ∨ a.Namesakes b := by
  obtain ⟨-, hname, hid⟩ := Schema.same_iff.mp hsame
  rcases h.eq_or_share ha hb hid with rfl | ⟨n, m, f, rfl, rfl⟩
  · exact .inl rfl
  · exact .inr ⟨n, m, f, rfl, rfl, hname⟩

theorem known_taken (h : Apart forge ts) {t : Schema} (ht : t ∈ Construct.known ts) :
    t.verifierId ≠ .made forge.next := by
  intro hid
  rcases List.mem_append.mp ht with ht | ht
  · obtain ⟨p, -, rfl⟩ := List.mem_map.mp ht
    cases hid
  · exact absurd (h.taken t ht _ hid) (Nat.lt_irrefl _)

end Apart

theorem Foreign.shared {ts : List Schema} (h : Foreign ts) {a b : Schema} (ha : a ∈ ts)
    (hb : b ∈ ts) {f : Func} (hid : a.verifierId = .given f) (hverifier : a.verifier = b.verifier) :
    a.verifierId = b.verifierId := by
  obtain ⟨n, rfl⟩ := Schema.verifierId_eq_given hid
  obtain ⟨m, rfl⟩ := h _ ha n f rfl b hb hverifier.symm
  rfl

theorem Foreign.verifierId_eq {ts : List Schema} (h : Foreign ts) {a b : Schema} (ha : a ∈ ts)
    (hb : b ∈ ts) (hverifier : a.verifier = b.verifier) : a.verifierId = b.verifierId := by
  by_cases hgiven : ∃ f, a.verifierId = .given f
  · obtain ⟨f, hid⟩ := hgiven
    exact h.shared ha hb hid hverifier
  by_cases hgiven' : ∃ f, b.verifierId = .given f
  · obtain ⟨f, hid⟩ := hgiven'
    exact (h.shared hb ha hid hverifier.symm).symm
  have hstamp := congrArg Func.stamp hverifier
  rw [a.verifier_stamp, b.verifier_stamp] at hstamp
  exact Schema.VerifierId.eq_of_stamp (not_exists.mp hgiven) (not_exists.mp hgiven') hstamp

theorem override_verifierId {target : Value} {knobs : Knobs} {forge : Forge} {u : Schema}
    (h : (override target knobs forge).1 = .ok u) : u.verifierId = .made forge.next := by
  have hmakes := Request.makes_override h
  have hstamped := stamps_override target knobs forge
  rw [h] at hstamped
  cases hstamped with
  | given _ => cases hmakes
  | made hid _ => exact hid

variable {forge : Forge} {ts : List Schema}

/-- On the schemas of a program the comparison by stamps is the one by fields. -/
theorem same_eq_sameFields (h : Apart forge ts) (hforeign : Foreign (known ts)) {a b : Schema}
    (ha : a ∈ known ts) (hb : b ∈ known ts) : a.same b = a.sameFields b := by
  refine Bool.eq_iff_iff.mpr ⟨fun hsame => ?_, fun hsame => ?_⟩
  · rcases h.eq_or_namesakes ha hb hsame with rfl | hnamesakes
    · exact a.sameFields_self
    · exact hnamesakes.sameFields
  · obtain ⟨hclass, hname, hverifier, -⟩ := Schema.sameFields_iff.mp hsame
    exact Schema.same_iff.mpr ⟨hclass, hname, hforeign.verifierId_eq ha hb hverifier⟩

/-- Equality of the schemas of a program, primitives included, as long as no function that was given
to be a verifier is one that a constructor made: it is equality of their fields, an equivalence;
equal ones agree in what they show, hold, do and hash to; two from different calls are equal only if
both were given the same function under the same name, and so an override never equals what it
overrides. Only an enumeration has no hash, where one of its elements has none. -/
theorem Course.equal_schemas_agree (hcourse : Course forge ts) (hforeign : Foreign (known ts))
    (k : Hasher) :
    (∀ a ∈ known ts, ∀ b ∈ known ts, a.same b = a.sameFields b) ∧
    Equivalence (fun a b : {t // t ∈ known ts} => a.1.sameFields b.1 = true) ∧
    (∀ a ∈ known ts, ∀ b ∈ known ts, a.same b = true → a.Agree k b) ∧
    (known ts).Pairwise (fun a b => a.same b = true ↔ a.Namesakes b) ∧
    (∀ t ∈ known ts, ∀ knobs u, (override (.schema t) knobs forge).1 = .ok u →
      t.same u = false) ∧
    ∀ t : Schema,
      raised? (Value.schemaHash? k t) = (Value.schema t).unhashable?.map refusal ∧
      ((Value.schema t).unhashable?.isSome ↔
        ∃ s n elems, t = .enumeration s n elems ∧ ∃ x ∈ elems, x.Unhashable) := by
  have hapart : Apart forge ts := .ofCourse hcourse
  have hfields {a b : Schema} (ha : a ∈ known ts) (hb : b ∈ known ts) :
      a.same b = a.sameFields b := same_eq_sameFields hapart hforeign ha hb
  refine ⟨fun a ha b hb => hfields ha hb, ?_, ?_, ?_, ?_,
    fun t => ⟨Value.raised?_schemaHash k t, Value.unhashable?_schema_iff⟩⟩
  · simp only [← hfields (Subtype.property _) (Subtype.property _)]
    exact Schema.same_equivalence.comap Subtype.val
  · intro a ha b hb hsame
    rcases hapart.eq_or_namesakes ha hb hsame with rfl | hnamesakes
    · exact .refl k a
    · exact hnamesakes.agree
  · refine hapart.known.imp fun {a b} hshare => ⟨fun hsame => ?_, Schema.Namesakes.same⟩
    obtain ⟨-, hname, hid⟩ := Schema.same_iff.mp hsame
    obtain ⟨n, m, f, rfl, rfl⟩ := hshare hid
    exact ⟨n, m, f, rfl, rfl, hname⟩
  · intro t ht knobs u hu
    refine Bool.eq_false_iff.mpr fun hsame => ?_
    have hid := (Schema.same_iff.mp hsame).2.2
    exact hapart.known_taken ht (hid.trans (override_verifierId hu))

section Samples

def anything : Func := ⟨.function "anything", some [⟨"v", .positional, true⟩], 0⟩

def namesake (l : Lineage) : Schema := .custom ⟨l, "namesake"⟩ anything

/-- A record of nothing, with the stamp of its verifier. -/
def hollow (stamp : Nat) : Schema := .record stamp "hollow" [] {}

def buriedElems : List Value := [.tuple .base [.list .base []]]

/-- An enumeration of one tuple with a list in it. -/
def buried : Schema := .enumeration 1 "buried" buriedElems

def samples : List Schema := [namesake .base, namesake (.derived "MyStr"), hollow 0, buried]

theorem samples_course : ∃ forge, Course forge samples := by
  have hone : Course _ [namesake .base] :=
    .call (.custom (.text .base "namesake") (.func anything)) (.start {})
  have htwo : Course _ [namesake .base, namesake (.derived "MyStr")] :=
    hone.call (.custom (.text (.derived "MyStr") "namesake") (.func anything))
  have hthree : Course _ [namesake .base, namesake (.derived "MyStr"), hollow 0] :=
    htwo.call (.record (.ofString "hollow") (.ofFields []) [])
  exact ⟨_, hthree.call (.enumeration (.ofString "buried") (.list .base buriedElems))⟩

/-- No constructor calls its verifiers so. -/
theorem custom_of_verifier {t : Schema} (h : t.verifier = anything) :
    ∃ n, t = .custom n anything := by
  cases t with
  | custom n f =>
    cases h
    exact ⟨n, rfl⟩
  | primitive p => cases p <;> exact absurd h (by decide)
  | _ => simp [Schema.verifier, Schema.verifierId, Schema.verifierName, anything] at h

theorem samples_foreign : Foreign (known samples) := by
  rintro a ha n f rfl b - hverifier
  have hgiven : n = ⟨.base, "namesake"⟩ ∧ f = anything ∨
      n = ⟨.derived "MyStr", "namesake"⟩ ∧ f = anything := by
    simpa [known, Primitive.all, samples, namesake, hollow, buried] using ha
  obtain rfl : f = anything := hgiven.elim And.right And.right
  exact custom_of_verifier hverifier

def sizes : Hasher where
  null := 0
  place p := match p with
    | .finite units => units
    | .nowhere | .below | .above => 0
  nan mark := mark
  text s := s.length
  octets data := data.length
  func f := f.stamp
  object stamp := stamp
  tuple hashes := hashes.foldl (31 * · + ·) 7
  frozen hashes := hashes.card

/-- A name from a subclass makes no difference, an override without knobs does, and the list is
found within the tuple. -/
theorem equal_schemas_agree_samples :
    (namesake .base).Agree sizes (namesake (.derived "MyStr")) ∧
    raised? (Value.schemaHash? sizes buried) = some (refusal "list") ∧
    ∃ forge, (override (.schema (hollow 0)) [] forge).1 = .ok (hollow forge.next) ∧
      (hollow 0).same (hollow forge.next) = false := by
  obtain ⟨forge, hcourse⟩ := samples_course
  obtain ⟨-, -, hagree, -, hoverride, hhash⟩ :=
    hcourse.equal_schemas_agree samples_foreign sizes
  have hmem {t : Schema} (h : t ∈ samples) : t ∈ known samples := List.mem_append_right _ h
  refine ⟨hagree _ (hmem ?_) _ (hmem ?_) rfl, (hhash buried).1, forge, rfl, ?_⟩
  · exact .head _
  · exact .tail _ (.head _)
  · exact hoverride _ (hmem (.tail _ (.tail _ (.head _)))) [] _ rfl

end Samples

end Construct

end Conformance

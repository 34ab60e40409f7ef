/- Schemas with a hole. Of what is put into the hole nothing counts but the values that it accepts,
   so the whole accepts no less where the part does. A record with a looser policy accepts no less
   than the record, and so does everything around it. -/
import Conformance.Proofs.Conformity
import Conformance.Proofs.Judging
namespace Conformance

variable {σ : Type}

/-- A schema with one hole, at any depth. -/
inductive Context
  | hole
  | optional (inner : Context)
  | listOf (inner : Context)
  | mapOf (inner : Context)
  | union (before : List Schema) (inner : Context) (after : List Schema)
  | record (name : Name) (before : List (Name × Schema)) (key : Name) (inner : Context)
      (after : List (Name × Schema)) (policy : Policy)

/-- The second schema is the context with the first one in its hole. Stamps are left open, for each
schema around the hole is made anew. -/
inductive Fills (t : Schema) : Context → Schema → Prop
  | hole : Fills t .hole t
  | optional {c u} (s) : Fills t c u → Fills t (.optional c) (.optional s u)
  | listOf {c u} (s) : Fills t c u → Fills t (.listOf c) (.listOf s u)
  | mapOf {c u} (s) : Fills t c u → Fills t (.mapOf c) (.mapOf s u)
  | union {before c after u} (s) : Fills t c u →
      Fills t (.union before c after) (.union s (before ++ u :: after))
  | record {n before key c after policy u} (s) : Fills t c u →
      Fills t (.record n before key c after policy)
        (.record s n (before ++ (key, u) :: after) policy)

/-- The functions of the schema have one answer to each value, and it can be shown. -/
structure Schema.Plain (h : Host σ) (answer : Func → Value → Value) (t : Schema) : Prop where
  steady : ∀ f ∈ t.funcs, ∀ v, Settles (h.call f v) (.ok (answer f v))
  shown : ∀ f ∈ t.funcs, ∀ v, (answer f v).HasText

def Schema.Accepts (h : Host σ) (t : Schema) (v : Value) (s : σ) : Prop :=
  (t.verify h v s).1 = .ok none

/-- The second schema has all the values of the first. -/
def Wider (answer : Func → Value → Value) (t u : Schema) : Prop :=
  ∀ v, v.keysShown = true → Conforms answer t v → Conforms answer u v

section Wider

variable {answer : Func → Value → Value}

theorem Wider.refl (t : Schema) : Wider answer t t := fun _ _ h => h

/-- Where one item of a list gives way to another, each item comes from one of before. -/
theorem exists_mem_of_replaced {α : Type} {R : α → α → Prop} (hrefl : ∀ x, R x x) {a b : α}
    (hR : R a b) {before after : List α} {y : α} (hy : y ∈ before ++ b :: after) :
    ∃ x ∈ before ++ a :: after, R x y := by
  rcases List.mem_append.mp hy with hbefore | hrest
  · exact ⟨y, List.mem_append_left _ hbefore, hrefl y⟩
  · rcases List.mem_cons.mp hrest with rfl | hafter
    · exact ⟨a, by simp, hR⟩
    · exact ⟨y, by simp [hafter], hrefl y⟩

variable {t u : Schema} (h : Wider answer t u) (s s' : Nat)
include h

theorem Wider.optional : Wider answer (.optional s t) (.optional s' u) := by
  intro v hv hconforms
  cases hconforms with
  | absent => exact .absent
  | present hinner => exact .present (h v hv hinner)

theorem Wider.listOf : Wider answer (.listOf s t) (.listOf s' u) := by
  intro v hv hconforms
  cases hconforms with
  | listOf hitems hall =>
    exact .listOf hitems fun x hx => h x (Value.keysShown_item hv hitems hx) (hall x hx)

theorem Wider.mapOf : Wider answer (.mapOf s t) (.mapOf s' u) := by
  intro v hv hconforms
  cases hconforms with
  | mapOf hentries hall =>
    exact .mapOf hentries fun e he => h e.2 (Value.keysShown_entry hv hentries he).2 (hall e he)

theorem Wider.union (before after : List Schema) :
    Wider answer (.union s (before ++ t :: after)) (.union s' (before ++ u :: after)) := by
  intro v hv hconforms
  cases hconforms with
  | union hmem hpart =>
    obtain ⟨w, hw, hwider⟩ := exists_mem_of_replaced (R := fun w w' => Wider answer w' w)
      .refl h hmem
    exact .union hw (hwider v hv hpart)

theorem Wider.record (n key : Name) (before after : List (Name × Schema)) (policy : Policy) :
    Wider answer (.record s n (before ++ (key, t) :: after) policy)
      (.record s' n (before ++ (key, u) :: after) policy) := by
  -- Every member has a counterpart of the same name, whichever way one looks.
  have hold : ∀ m ∈ before ++ (key, u) :: after, ∃ m' ∈ before ++ (key, t) :: after,
      m'.1 = m.1 ∧ Wider answer m'.2 m.2 := fun m hm =>
    exists_mem_of_replaced (a := (key, t)) (R := fun m' m => m'.1 = m.1 ∧ Wider answer m'.2 m.2)
      (fun m => ⟨rfl, .refl m.2⟩) ⟨rfl, h⟩ hm
  have hnew : ∀ m ∈ before ++ (key, t) :: after, ∃ m' ∈ before ++ (key, u) :: after,
      m'.1 = m.1 := fun m hm =>
    exists_mem_of_replaced (a := (key, u)) (R := fun m' m => m'.1 = m.1) (fun _ => rfl) rfl hm
  intro v hv hconforms
  cases hconforms with
  | record hentries hmembers htotal hkeys hextra =>
    refine .record hentries ?_ ?_ ?_ hextra
    · intro m hm x hx
      obtain ⟨m', hm', hname, hwider⟩ := hold m hm
      rw [← hname] at hx
      obtain ⟨k, he⟩ := lookup?_mem hx
      exact hwider x (Value.keysShown_entry hv hentries he).2 (hmembers m' hm' x hx)
    · intro hall m hm
      obtain ⟨m', hm', hname, -⟩ := hold m hm
      rw [← hname]
      exact htotal hall m' hm'
    · intro hclosed e he
      obtain ⟨m, hm, l, hkey⟩ := hkeys hclosed e he
      obtain ⟨m', hm', hname⟩ := hnew m hm
      exact ⟨m', hm', l, hname ▸ hkey⟩

end Wider

theorem Fills.wider {answer : Func → Value → Value} {c : Context} {t t' u u' : Schema}
    (hu : Fills t c u) (hu' : Fills t' c u') (h : Wider answer t t') : Wider answer u u' := by
  induction hu generalizing u' with
  | hole =>
    cases hu'
    exact h
  | optional s _ ih =>
    cases hu' with
    | optional s' hu' => exact (ih hu').optional s s'
  | listOf s _ ih =>
    cases hu' with
    | listOf s' hu' => exact (ih hu').listOf s s'
  | mapOf s _ ih =>
    cases hu' with
    | mapOf s' hu' => exact (ih hu').mapOf s s'
  | union s _ ih =>
    cases hu' with
    | union s' hu' => exact (ih hu').union s s' _ _
  | record s _ ih =>
    cases hu' with
    | record s' hu' => exact (ih hu').record s s' _ _ _ _ _

theorem Fills.mem_funcs {c : Context} {t u : Schema} (hu : Fills t c u) {f : Func}
    (hf : f ∈ t.funcs) : f ∈ u.funcs := by
  induction hu with
  | hole => exact hf
  | optional _ _ ih => exact ih
  | listOf _ _ ih => exact ih
  | mapOf _ _ ih => exact ih
  | union _ _ ih => exact Schema.mem_funcs_union (by simp) ih
  | @record _ _ key _ _ _ u _ _ ih => exact Schema.mem_funcs_member (m := (key, u)) (by simp) ih

namespace Schema

variable {h : Host σ} {answer : Func → Value → Value} {t u : Schema} {c : Context}

theorem Plain.part (hu : u.Plain h answer) (hfills : Fills t c u) : t.Plain h answer where
  steady f hf := hu.steady f (hfills.mem_funcs hf)
  shown f hf := hu.shown f (hfills.mem_funcs hf)

theorem Plain.accepts_iff (ht : t.Plain h answer) {v : Value} (hv : v.keysShown = true) (s : σ) :
    t.Accepts h v s ↔ Conforms answer t v := by
  have hverify : (t.verify h v s).1 = t.evaluate (.total answer) v := settles_verify ht.steady v s
  unfold Accepts
  rw [hverify, evaluate_eq_none_iff ht.shown hv]

theorem Plain.accepts_of_wider (ht : t.Plain h answer) (hu : u.Plain h answer)
    (hwider : Wider answer t u) {v : Value} {s : σ} (hv : v.keysShown = true)
    (haccepts : t.Accepts h v s) : u.Accepts h v s :=
  (hu.accepts_iff hv s).mpr (hwider v hv ((ht.accepts_iff hv s).mp haccepts))

end Schema

namespace Policy

/-- The knobs that ask for less: absent members, undeclared keys, and no function on the whole. -/
def loosening : Knobs := [("total", .bool false), ("unknown", .bool true), ("extra", .null)]

/-- The second policy asks for nothing that the first does not ask for. -/
structure Looser (p q : Policy) : Prop where
  total : q.total = true → p.total = true
  unknown : q.unknown = false → p.unknown = false
  extra : ∀ f, q.extra = some f → p.extra = some f

variable {p q : Policy} {knobs : Knobs}

theorem Replaces.looser (h : p.Replaces knobs q) (hknobs : ∀ k ∈ knobs, k ∈ loosening) :
    Looser p q := by
  -- A field has the value it had, or one that asks for less.
  have hfield : ∀ k ∈ p.toKnobs,
      k ∈ q.toKnobs ∨ ∃ v, (k.1, v) ∈ q.toKnobs ∧ (k.1, v) ∈ loosening := by
    intro k hk
    by_cases hname : k.1 ∈ knobs.map (·.1)
    · obtain ⟨given, hmem, hsame⟩ := List.mem_map.mp hname
      exact .inr ⟨given.2, hsame ▸ h.given given hmem, hsame ▸ hknobs given hmem⟩
    · exact .inl (h.kept k hk hname)
  constructor
  · intro htotal
    rcases hfield ("total", .bool p.total) (by simp [toKnobs]) with hsame | ⟨v, hv, hloose⟩
    · simpa [toKnobs, htotal] using hsame
    · have hfalse : v = .bool false := by simpa [loosening] using hloose
      simp [toKnobs, hfalse, htotal] at hv
  · intro hunknown
    rcases hfield ("unknown", .bool p.unknown) (by simp [toKnobs]) with hsame | ⟨v, hv, hloose⟩
    · simpa [toKnobs, hunknown] using hsame
    · have htrue : v = .bool true := by simpa [loosening] using hloose
      simp [toKnobs, htrue, hunknown] at hv
  · intro f hf
    rcases hfield ("extra", extraValue p.extra) (by simp [toKnobs]) with hsame | ⟨v, hv, hloose⟩
    · cases hp : p.extra with
      | none => simp [toKnobs, extraValue, hp, hf] at hsame
      | some g => simpa [toKnobs, extraValue, hp, hf] using hsame
    · have hnull : v = .null := by simpa [loosening] using hloose
      simp [toKnobs, extraValue, hnull, hf] at hv

theorem not_faulty_of_loosening {k : String × Value} (hk : k ∈ loosening) (finding : Finding) :
    ¬ Faulty k finding := by
  simp only [loosening, List.mem_cons, List.not_mem_nil, or_false] at hk
  rcases hk with rfl | rfl | rfl
  · exact not_faulty_of_known (by decide) (not_badKnob_bool (.inl rfl) false) finding
  · exact not_faulty_of_known (by decide) (not_badKnob_bool (.inr rfl) true) finding
  · exact not_faulty_of_known (by decide) not_badKnob_null finding

theorem Looser.wider (h : Looser p q) (answer : Func → Value → Value) (s s' : Nat) (n : Name)
    (members : List (Name × Schema)) :
    Wider answer (.record s n members p) (.record s' n members q) := by
  intro v _ hconforms
  cases hconforms with
  | record hentries hmembers htotal hkeys hextra =>
    exact .record hentries hmembers (fun hq => htotal (h.total hq))
      (fun hq => hkeys (h.unknown hq)) fun f hf => hextra f (h.extra f hf)

end Policy

/-- A declared record can be overridden by knobs that ask for less, and is none the narrower. -/
theorem Declared.loosened {r : Schema} (hdeclared : Declared r) {knobs : Knobs}
    (hdistinct : knobs.Distinct) (hknobs : ∀ k ∈ knobs, k ∈ Policy.loosening) (forge : Forge) :
    ∃ r', (Construct.override (.schema r) knobs forge).1 = .ok r' ∧
      ∀ answer, Wider answer r r' := by
  obtain ⟨s, n, members, policy, rfl, -⟩ := hdeclared.names_nodup
  have hself : "self" ∉ knobs.map (·.1) := by
    intro hmem
    obtain ⟨k, hk, hname⟩ := List.mem_map.mp hmem
    have hloose := hknobs k hk
    simp only [Policy.loosening, List.mem_cons, List.not_mem_nil, or_false] at hloose
    rcases hloose with rfl | rfl | rfl <;> simp at hname
  have hjudges := Policy.judges_override (fun f hf => hdeclared.extra_fits hf) hdistinct
  obtain ⟨hrun, -⟩ := Construct.override_apply hself s n members forge
  cases houtcome : policy.override knobs with
  | error fault =>
    obtain ⟨k, hk, finding, hfaulty⟩ := hjudges.refused_iff.mp ⟨fault, houtcome⟩
    exact absurd hfaulty (Policy.not_faulty_of_loosening (hknobs k hk) finding)
  | ok after =>
    have hlooser := (hjudges.replaced after houtcome).looser hknobs
    rw [houtcome] at hrun
    exact ⟨_, hrun, fun answer => hlooser.wider answer s _ n members⟩

/-- What is around a part accepts no less where the part accepts no less, and a record does so where
its policy is overridden to ask for less. -/
theorem accepts_of_part_wider (h : Host σ) (answer : Func → Value → Value) :
    (∀ c t t' u u', Fills t c u → Fills t' c u' → u.Plain h answer → u'.Plain h answer →
      (∀ v s, v.keysShown = true → t.Accepts h v s → t'.Accepts h v s) →
      ∀ v s, v.keysShown = true → u.Accepts h v s → u'.Accepts h v s) ∧
    ∀ r knobs forge, Declared r → knobs.Distinct → (∀ k ∈ knobs, k ∈ Policy.loosening) →
      ∃ r', (Construct.override (.schema r) knobs forge).1 = .ok r' ∧
        ∀ c u u', Fills r c u → Fills r' c u' → u.Plain h answer → u'.Plain h answer →
          ∀ v s, v.keysShown = true → u.Accepts h v s → u'.Accepts h v s := by
  constructor
  · intro c t t' u u' hu hu' hplain hplain' hparts v s hv haccepts
    have hwider : Wider answer t t' := by
      intro w hw hconforms
      have ht := (hplain.part hu).accepts_iff hw s
      have ht' := (hplain'.part hu').accepts_iff hw s
      exact ht'.mp (hparts w s hw (ht.mpr hconforms))
    exact hplain.accepts_of_wider hplain' (hu.wider hu' hwider) hv haccepts
  · intro r knobs forge hdeclared hdistinct hknobs
    obtain ⟨r', hr', hwider⟩ := hdeclared.loosened hdistinct hknobs forge
    refine ⟨r', hr', fun c u u' hu hu' hplain hplain' v s hv haccepts => ?_⟩
    exact hplain.accepts_of_wider hplain' (hu.wider hu' (hwider answer)) hv haccepts

def quietly : Func → Value → Value := fun _ _ => .null

theorem plain_of_sample {t : Schema} (ht : ∀ f ∈ t.funcs, f = Schema.sample 0) :
    t.Plain (Host.ofAnswers (.total quietly)) quietly where
  steady f hf := by
    rw [ht f hf]
    exact Host.ofAnswers_steady (.total quietly) (by decide)
  shown _ _ _ := ⟨_, rfl⟩

/-- A list under the only member of a record, and a function on the whole. -/
def boxOfList : Context :=
  .record "box" [] "x" (.listOf .hole) [] { extra := some (Schema.sample 0) }

/-- Whole numbers are numbers, and an undeclared key does no harm where it is allowed. -/
theorem accepts_of_part_wider_box :
    (∀ u', Fills (.primitive .number) boxOfList u' → (∀ f ∈ u'.funcs, f = Schema.sample 0) →
      u'.Accepts (Host.ofAnswers (.total quietly))
        (.ofFields [("x", .list .base [.ofInt 1])]) ()) ∧
    ∃ r', (Construct.override (.schema Schema.strictPair) [("unknown", .bool true)] {}).1 = .ok r' ∧
      (Schema.mapOf 1 r').Accepts (Host.ofAnswers (.total quietly))
        (.ofFields [("k", Schema.wholeOnly)]) () := by
  obtain ⟨hpart, hlooser⟩ :=
    accepts_of_part_wider (Host.ofAnswers (.total quietly)) quietly
  constructor
  · intro u' hu' hfuncs
    have hu : Fills (.primitive .int) boxOfList
        (.record 1 "box" [("x", .listOf 0 (.primitive .int))] { extra := some (Schema.sample 0) }) :=
      .record 1 (.listOf 0 .hole)
    refine hpart _ _ _ _ _ hu hu' (plain_of_sample fun f hf => List.mem_singleton.mp hf)
      (plain_of_sample hfuncs) ?_ _ _ rfl rfl
    intro v s _ haccepts
    cases v with
    | int l n => rfl
    | _ => cases haccepts
  · obtain ⟨r', hr', haccepts⟩ := hlooser _ [("unknown", .bool true)] {}
      Schema.strictPair_declared (List.nodup_singleton _) (by simp [Policy.loosening])
    have hmade : (Construct.override (.schema Schema.strictPair) [("unknown", .bool true)] {}).1 =
        .ok (.record 0 "S" Schema.strictMembers { extra := some (Schema.sample 0) }) := rfl
    cases hr'.symm.trans hmade
    refine ⟨_, hr', haccepts (.mapOf .hole) _ _ (.mapOf 0 .hole) (.mapOf 1 .hole) ?_ ?_ _ _ rfl rfl⟩
    · exact plain_of_sample fun f hf => List.mem_singleton.mp hf
    · exact plain_of_sample fun f hf => List.mem_singleton.mp hf

end Conformance

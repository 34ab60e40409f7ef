/- Calls of the constructors as data, what each of them makes, and the schemas that come about by
   such calls. -/
import Conformance.Proofs.Overriding
namespace Conformance

section OfExcept

variable {σ α β : Type} {f : α → CallM σ β} {s : σ}

theorem ofExcept_ok_bind_apply {a : α} : ((ofExcept (.ok a) : CallM σ α) >>= f) s = f a s := rfl

theorem ofExcept_error_bind_apply {fault : Fault} :
    ((ofExcept (.error fault) : CallM σ α) >>= f) s = (.error fault, s) := rfl

end OfExcept

namespace Construct

/-- A call of a constructor. -/
inductive Request
  | custom (name verifier : Value)
  | predicate (name test : Value)
  | optional (inner : Value)
  | listOf (inner : Value)
  | mapOf (inner : Value)
  | union (members : Value)
  | enumeration (name elems : Value)
  | record (name members : Value) (knobs : Knobs)
  | override (target : Value) (knobs : Knobs)

namespace Request

def build : Request → Build Schema
  | .custom name verifier => Construct.custom name verifier
  | .predicate name test => Construct.predicate name test
  | .optional inner => Construct.optional inner
  | .listOf inner => Construct.listOf inner
  | .mapOf inner => Construct.mapOf inner
  | .union members => Construct.union members
  | .enumeration name elems => Construct.enumeration name elems
  | .record name members knobs => Construct.record name members knobs
  | .override target knobs => Construct.override target knobs

/-- The values that are given to become parts. -/
def given : Request → List Value
  | .custom _ _ | .predicate _ _ | .enumeration _ _ => []
  | .optional inner | .listOf inner | .mapOf inner => [inner]
  | .union members => members.items?.getD []
  | .record _ members _ => (members.entries?.getD []).map (·.2)
  | .override target _ => [target]

/-- What a call makes, and under which conditions. Nothing is asked of the function of a
predicate. -/
inductive Makes : Request → Schema → Prop
  | custom {name n f} : schemaName? name = .ok n → f.misfit? = none →
      Makes (.custom name (.func f)) (.custom n f)
  | predicate {name n f} (s) : schemaName? name = .ok n →
      Makes (.predicate name (.func f)) (.predicate s n f)
  | optional (s t) : Makes (.optional (.schema t)) (.optional s t)
  | listOf (s t) : Makes (.listOf (.schema t)) (.listOf s t)
  | mapOf (s t) : Makes (.mapOf (.schema t)) (.mapOf s t)
  | union {members ts} (s) : members.items? = some (ts.map .schema) →
      Makes (.union members) (.union s ts)
  | enumeration {name elems n items} (s) : collection? elems = some items → items ≠ [] →
      schemaName? name = .ok n → Makes (.enumeration name elems) (.enumeration s n items)
  | record {name members knobs n fields policy} (s) : Reads name members n fields →
      Policy.validate knobs = .ok policy →
      Makes (.record name members knobs) (.record s n fields policy)
  | override {n fields policy knobs policy'} (s s') : policy.override knobs = .ok policy' →
      Makes (.override (.schema (.record s n fields policy)) knobs) (.record s' n fields policy')

end Request

theorem requireSchema_eq_ok {what : String} {v : Value} {t : Schema}
    (h : requireSchema what v = .ok t) : v = .schema t := by
  cases v with
  | schema u =>
    cases h
    rfl
  | _ => cases h

theorem requireSchemas_eq_ok {index : Nat} {items : List Value} {ts : List Schema}
    (h : requireSchemas index items = .ok ts) : items = ts.map .schema := by
  induction items generalizing index ts with
  | nil =>
    cases h
    rfl
  | cons v items ih =>
    obtain ⟨t, hv, h⟩ := bind_eq_ok_iff.mp h
    obtain ⟨rest, hrest, h⟩ := bind_eq_ok_iff.mp h
    cases h
    rw [requireSchema_eq_ok hv, ih hrest]
    rfl

theorem requireMembers_values {name : Value} {entries : List (Value × Value)}
    {fields : List (Name × Schema)} (h : requireMembers name entries = .ok fields) :
    entries.map (·.2) = fields.map fun m => .schema m.2 := by
  induction entries generalizing fields with
  | nil =>
    cases h
    rfl
  | cons e entries ih =>
    obtain ⟨key, v⟩ := e
    cases key with
    | text l k =>
      obtain ⟨n, _, h⟩ := bind_eq_ok_iff.mp h
      obtain ⟨t, hv, h⟩ := bind_eq_ok_iff.mp h
      obtain ⟨rest, hrest, h⟩ := bind_eq_ok_iff.mp h
      cases h
      rw [List.map_cons, requireSchema_eq_ok hv, ih hrest]
      rfl
    | _ =>
      obtain ⟨n, _, h⟩ := bind_eq_ok_iff.mp h
      obtain ⟨shown, _, h⟩ := bind_eq_ok_iff.mp h
      cases h

variable {forge : Forge} {t : Schema}

/-- The constructors around one schema differ in what they make of it, and in their words. -/
theorem around_eq_ok {what : String} {inner : Value} {former : Nat → Schema → Schema}
    (h : ((do
      let u ← ofExcept (requireSchema what inner)
      return former (← Build.fresh) u : Build Schema) forge).1 = .ok t) :
    ∃ s u, inner = .schema u ∧ t = former s u := by
  obtain ⟨u, _, hu, h⟩ := bind_eq_ok_from h
  obtain ⟨s, _, _, h⟩ := bind_eq_ok_from h
  have hinner := requireSchema_eq_ok (ofExcept_run_eq_ok_iff.mp hu).1
  exact ⟨s, u, hinner, (Except.ok.inj h).symm⟩

namespace Request

theorem makes_custom {name verifier : Value}
    (h : (Construct.custom name verifier forge).1 = .ok t) : (custom name verifier).Makes t := by
  obtain ⟨n, _, hn, h⟩ := bind_eq_ok_from h
  have hn := (ofExcept_run_eq_ok_iff.mp hn).1
  cases verifier with
  | func f =>
    dsimp only at h
    split at h
    next hone =>
      cases h
      exact .custom hn (Option.isNone_iff_eq_none.mp hone)
    next => cases h
  | _ => cases h

theorem makes_predicate {name test : Value}
    (h : (Construct.predicate name test forge).1 = .ok t) : (predicate name test).Makes t := by
  cases test with
  | func f =>
    obtain ⟨n, _, hn, h⟩ := bind_eq_ok_from h
    obtain ⟨s, _, _, h⟩ := bind_eq_ok_from h
    cases h
    exact .predicate s (ofExcept_run_eq_ok_iff.mp hn).1
  | _ =>
    obtain ⟨text, _, _, h⟩ := bind_eq_ok_from h
    cases h

theorem makes_union {members : Value} (h : (Construct.union members forge).1 = .ok t) :
    (union members).Makes t := by
  unfold Construct.union at h
  cases hitems : members.items? with
  | none =>
    rw [hitems] at h
    cases h
  | some items =>
    rw [hitems] at h
    obtain ⟨ts, _, hts, h⟩ := bind_eq_ok_from h
    obtain ⟨s, _, _, h⟩ := bind_eq_ok_from h
    cases h
    rw [requireSchemas_eq_ok (ofExcept_run_eq_ok_iff.mp hts).1] at hitems
    exact .union s hitems

theorem makes_enumeration {name elems : Value}
    (h : (Construct.enumeration name elems forge).1 = .ok t) :
    (enumeration name elems).Makes t := by
  unfold Construct.enumeration at h
  cases hitems : collection? elems with
  | none =>
    rw [hitems] at h
    cases h
  | some items =>
    rw [hitems] at h
    cases items with
    | nil =>
      obtain ⟨text, _, _, h⟩ := bind_eq_ok_from h
      cases h
    | cons item items =>
      obtain ⟨n, _, hn, h⟩ := bind_eq_ok_from h
      obtain ⟨s, _, _, h⟩ := bind_eq_ok_from h
      cases h
      exact .enumeration s hitems (List.cons_ne_nil _ _) (ofExcept_run_eq_ok_iff.mp hn).1

theorem makes_override {target : Value} {knobs : Knobs}
    (h : (Construct.override target knobs forge).1 = .ok t) :
    (override target knobs).Makes t := by
  cases target with
  | schema u =>
    cases u with
    | record s n fields policy =>
      obtain ⟨s', policy', hpolicy, rfl⟩ := override_eq_ok h
      exact .override s s' hpolicy
    | _ => cases h
  | _ => cases h

/-- A call that succeeds makes what it should, and had to satisfy its conditions. -/
theorem build_makes {q : Request} (h : (q.build forge).1 = .ok t) : q.Makes t := by
  cases q with
  | custom name verifier => exact makes_custom h
  | predicate name test => exact makes_predicate h
  | optional inner =>
    obtain ⟨s, u, rfl, rfl⟩ := around_eq_ok h
    exact .optional s u
  | listOf inner =>
    obtain ⟨s, u, rfl, rfl⟩ := around_eq_ok h
    exact .listOf s u
  | mapOf inner =>
    obtain ⟨s, u, rfl, rfl⟩ := around_eq_ok h
    exact .mapOf s u
  | union members => exact makes_union h
  | enumeration name elems => exact makes_enumeration h
  | record name members knobs =>
    obtain ⟨s, n, fields, policy, hreads, hpolicy, rfl⟩ := record_eq_ok h
    exact .record s hreads hpolicy
  | override target knobs => exact makes_override h

end Request

end Construct

/-- Schemas that are there from the start, and those that calls make from parts that came about
so. -/
inductive Built : Schema → Prop
  | primitive (p) : Built (.primitive p)
  | made {q : Construct.Request} {forge t} : (∀ u, .schema u ∈ q.given → Built u) →
      (q.build forge).1 = .ok t → Built t

end Conformance

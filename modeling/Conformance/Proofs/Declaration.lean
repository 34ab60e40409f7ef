/- Records as they come about: by a declaration from a mapping, and by any number of overrides. All
   are of that form, and no member is there twice. -/
import Conformance.Construct
import Conformance.Proofs.Settling
namespace Conformance

variable {σ α β : Type}

theorem bind_eq_ok_from {x : CallM σ α} {f : α → CallM σ β} {s : σ} {b : β}
    (h : ((x >>= f) s).1 = .ok b) : ∃ a s', x s = (.ok a, s') ∧ (f a s').1 = .ok b := by
  obtain ⟨a, s', hx, hf⟩ := bind_run_eq_ok_iff.mp (Prod.ext h rfl)
  exact ⟨a, s', hx, congrArg Prod.fst hf⟩

def KeysDiffer (entries : List (Value × Value)) : Prop :=
  (entries.map (·.1)).Pairwise fun k l => k.same l = false

/-- Records made by a declaration, from some state of the constructors, or from another record by an
override. -/
inductive Declared : Schema → Prop
  | record {name members knobs entries forge t} : members.entries? = some entries →
      KeysDiffer entries → (Construct.record name members knobs forge).1 = .ok t → Declared t
  | override {t u knobs forge} : Declared t →
      (Construct.override (.schema t) knobs forge).1 = .ok u → Declared u

namespace Construct

theorem requireMembers_keys {name : Value} {entries : List (Value × Value)}
    {members : List (Name × Schema)} (h : requireMembers name entries = .ok members) :
    entries.map (·.1) = members.map fun m => .ofName m.1 := by
  induction entries generalizing members with
  | nil =>
    cases h
    rfl
  | cons e entries ih =>
    obtain ⟨key, v⟩ := e
    cases key with
    | text l k =>
      obtain ⟨n, _, h⟩ := bind_eq_ok_iff.mp h
      obtain ⟨t, _, h⟩ := bind_eq_ok_iff.mp h
      obtain ⟨rest, hrest, h⟩ := bind_eq_ok_iff.mp h
      cases h
      rw [List.map_cons, ih hrest]
      rfl
    | _ =>
      obtain ⟨n, _, h⟩ := bind_eq_ok_iff.mp h
      obtain ⟨shown, _, h⟩ := bind_eq_ok_iff.mp h
      cases h

/-- Name and mapping of a declaration, as they are read. -/
def Reads (name members : Value) (n : Name) (fields : List (Name × Schema)) : Prop :=
  schemaName? name = .ok n ∧
    ∃ entries, members.entries? = some entries ∧ requireMembers name entries = .ok fields

theorem record_eq_ok {name members : Value} {knobs : Knobs} {forge : Forge} {t : Schema}
    (h : (record name members knobs forge).1 = .ok t) :
    ∃ s n fields policy, Reads name members n fields ∧ Policy.validate knobs = .ok policy ∧
      t = .record s n fields policy := by
  unfold record at h
  cases hentries : members.entries? with
  | none =>
    rw [hentries] at h
    obtain ⟨_, _, _, h⟩ := bind_eq_ok_from h
    cases h
  | some entries =>
    rw [hentries] at h
    obtain ⟨fields, _, hfields, h⟩ := bind_eq_ok_from h
    obtain ⟨policy, _, hpolicy, h⟩ := bind_eq_ok_from h
    obtain ⟨shown, _, _, h⟩ := bind_eq_ok_from h
    obtain ⟨_, _, _, h⟩ := bind_eq_ok_from h
    obtain ⟨n, _, hn, h⟩ := bind_eq_ok_from h
    obtain ⟨s, _, _, h⟩ := bind_eq_ok_from h
    have hfields := (ofExcept_run_eq_ok_iff.mp hfields).1
    have hreads : Reads name members n fields :=
      ⟨(ofExcept_run_eq_ok_iff.mp hn).1, entries, hentries, hfields⟩
    have hpolicy := (ofExcept_run_eq_ok_iff.mp hpolicy).1
    exact ⟨s, n, fields, policy, hreads, hpolicy, (Except.ok.inj h).symm⟩

theorem Reads.record {name members : Value} {n : Name} {fields : List (Name × Schema)}
    (h : Reads name members n fields) {knobs : Knobs} {policy : Policy}
    (hpolicy : Policy.validate knobs = .ok policy) (forge : Forge) :
    ∃ s, (record name members knobs forge).1 = .ok (.record s n fields policy) := by
  obtain ⟨hn, entries, hentries, hfields⟩ := h
  cases name with
  | text l text =>
    unfold Construct.record
    rw [hentries, hn]
    simp only [hfields, hpolicy]
    exact ⟨forge.next, rfl⟩
  | _ => cases hn

theorem override_eq_ok {s : Nat} {n : Name} {members : List (Name × Schema)} {policy : Policy}
    {knobs : Knobs} {forge : Forge} {t : Schema}
    (h : (override (.schema (.record s n members policy)) knobs forge).1 = .ok t) :
    ∃ s' policy', policy.override knobs = .ok policy' ∧ t = .record s' n members policy' := by
  unfold override at h
  dsimp only at h
  split at h
  next => cases h
  next =>
    obtain ⟨policy', _, hpolicy, h⟩ := bind_eq_ok_from h
    obtain ⟨_, _, _, h⟩ := bind_eq_ok_from h
    obtain ⟨s', _, _, h⟩ := bind_eq_ok_from h
    exact ⟨s', policy', (ofExcept_run_eq_ok_iff.mp hpolicy).1, (Except.ok.inj h).symm⟩

end Construct

theorem Declared.names_nodup {t : Schema} (h : Declared t) :
    ∃ s n members policy, t = .record s n members policy ∧ (members.map (·.1.text)).Nodup := by
  induction h with
  | @record name members knobs entries forge t hentries hdiffer hok =>
    obtain ⟨s, n, fields, policy, ⟨-, entries', hentries', hfields⟩, -, rfl⟩ :=
      Construct.record_eq_ok hok
    cases hentries.symm.trans hentries'
    refine ⟨s, n, fields, policy, rfl, ?_⟩
    unfold KeysDiffer at hdiffer
    rw [Construct.requireMembers_keys hfields, List.pairwise_map] at hdiffer
    refine List.pairwise_map.mpr (hdiffer.imp fun hsame => ?_)
    exact beq_eq_false_iff_ne.mp hsame
  | override _ hok ih =>
    obtain ⟨s, n, members, policy, rfl, hnodup⟩ := ih
    obtain ⟨s', policy', -, rfl⟩ := Construct.override_eq_ok hok
    exact ⟨s', n, members, policy', rfl, hnodup⟩

end Conformance

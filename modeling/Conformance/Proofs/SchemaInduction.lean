/- Induction over schemas with the parts of unions and records in it, and the functions that the
   verifier of a schema may call. -/
import Conformance.Verification.Verify
namespace Conformance

variable {σ : Type}

namespace Schema

section Induction

variable {motive : Schema → Prop}
  (primitive : ∀ p, motive (.primitive p))
  (custom : ∀ n f, motive (.custom n f))
  (predicate : ∀ s n f, motive (.predicate s n f))
  (optional : ∀ s t, motive t → motive (.optional s t))
  (listOf : ∀ s t, motive t → motive (.listOf s t))
  (mapOf : ∀ s t, motive t → motive (.mapOf s t))
  (union : ∀ s ts, (∀ t ∈ ts, motive t) → motive (.union s ts))
  (enumeration : ∀ s n elems, motive (.enumeration s n elems))
  (record : ∀ s n members policy, (∀ m ∈ members, motive m.2) →
    motive (.record s n members policy))
-- The mutual theorems use them through each other only.
set_option linter.unusedSectionVars false
include primitive custom predicate optional listOf mapOf union enumeration record

mutual

/-- What holds of a schema whenever it holds of its parts holds of every schema. Elements of an
enumeration are values, and no parts. -/
@[elab_as_elim, induction_eliminator]
theorem induct : ∀ t, motive t
  | .primitive p => primitive p
  | .custom n f => custom n f
  | .predicate s n f => predicate s n f
  | .optional s t => optional s t (induct t)
  | .listOf s t => listOf s t (induct t)
  | .mapOf s t => mapOf s t (induct t)
  | .union s ts => union s ts (inductAll ts)
  | .enumeration s n elems => enumeration s n elems
  | .record s n members policy => record s n members policy (inductMembers members)
termination_by structural t => t

theorem inductAll : ∀ (ts : List Schema), ∀ t ∈ ts, motive t
  | [] => by simp
  | t :: ts => List.forall_mem_cons.mpr ⟨induct t, inductAll ts⟩
termination_by structural ts => ts

theorem inductMembers : ∀ (members : List (Name × Schema)), ∀ m ∈ members, motive m.2
  | [] => by simp
  | (_, t) :: members => List.forall_mem_cons.mpr ⟨induct t, inductMembers members⟩
termination_by structural members => members

end

end Induction

theorem verifiers_eq_map (h : Host σ) (ts : List Schema) :
    verifiers h ts = ts.map (verify h) := by
  induction ts with
  | nil => rfl
  | cons t ts ih => exact congrArg (verify h t :: ·) ih

theorem memberVerifiers_eq_map (h : Host σ) (members : List (Name × Schema)) :
    memberVerifiers h members = members.map (fun m => (m.1.text, verify h m.2)) := by
  induction members with
  | nil => rfl
  | cons m members ih => exact congrArg ((m.1.text, verify h m.2) :: ·) ih

mutual

/-- The functions that were given for a schema and its parts. Primitives and enumerations call
none. -/
def funcs : Schema → List Func
  | .primitive _ | .enumeration _ _ _ => []
  | .custom _ f | .predicate _ _ f => [f]
  | .optional _ t | .listOf _ t | .mapOf _ t => funcs t
  | .union _ ts => funcsOfAll ts
  | .record _ _ members policy => funcsOfMembers members ++ policy.extra.toList
termination_by structural t => t

def funcsOfAll : List Schema → List Func
  | [] => []
  | t :: ts => funcs t ++ funcsOfAll ts
termination_by structural ts => ts

def funcsOfMembers : List (Name × Schema) → List Func
  | [] => []
  | (_, t) :: members => funcs t ++ funcsOfMembers members
termination_by structural members => members

end

theorem mem_funcs_union {s : Nat} {ts : List Schema} {t : Schema} (ht : t ∈ ts) {f : Func}
    (hf : f ∈ t.funcs) : f ∈ (Schema.union s ts).funcs := by
  change f ∈ funcsOfAll ts
  induction ts with
  | nil => cases ht
  | cons u ts ih =>
    cases ht with
    | head => exact List.mem_append_left _ hf
    | tail _ ht => exact List.mem_append_right _ (ih ht)

theorem mem_funcs_member {s : Nat} {n : Name} {members : List (Name × Schema)} {policy : Policy}
    {m : Name × Schema} (hm : m ∈ members) {f : Func} (hf : f ∈ m.2.funcs) :
    f ∈ (Schema.record s n members policy).funcs := by
  refine List.mem_append_left _ ?_
  induction members with
  | nil => cases hm
  | cons k members ih =>
    cases hm with
    | head => exact List.mem_append_left _ hf
    | tail _ hm => exact List.mem_append_right _ (ih hm)

theorem mem_funcs_extra {s : Nat} {n : Name} {members : List (Name × Schema)} {policy : Policy}
    {f : Func} (hf : policy.extra = some f) : f ∈ (Schema.record s n members policy).funcs :=
  List.mem_append_right _ (by simp [hf])

theorem exists_of_mem_funcs_union {s : Nat} {ts : List Schema} {f : Func}
    (hf : f ∈ (Schema.union s ts).funcs) : ∃ t ∈ ts, f ∈ t.funcs := by
  change f ∈ funcsOfAll ts at hf
  induction ts with
  | nil => cases hf
  | cons t ts ih =>
    rcases List.mem_append.mp hf with hhere | hlater
    · exact ⟨t, List.mem_cons_self, hhere⟩
    · obtain ⟨u, hu, hf⟩ := ih hlater
      exact ⟨u, List.mem_cons_of_mem _ hu, hf⟩

theorem member_or_extra_of_mem_funcs {s : Nat} {n : Name} {members : List (Name × Schema)}
    {policy : Policy} {f : Func} (hf : f ∈ (Schema.record s n members policy).funcs) :
    (∃ m ∈ members, f ∈ m.2.funcs) ∨ policy.extra = some f := by
  rcases List.mem_append.mp hf with hmembers | hextra
  · refine .inl ?_
    induction members with
    | nil => cases hmembers
    | cons m members ih =>
      rcases List.mem_append.mp hmembers with hhere | hlater
      · exact ⟨m, List.mem_cons_self, hhere⟩
      · obtain ⟨k, hk, hf⟩ := ih (List.mem_append_left _ hlater) hlater
        exact ⟨k, List.mem_cons_of_mem _ hk, hf⟩
  · exact .inr (Option.mem_toList.mp hextra)

end Schema

end Conformance

/- The hashes of values and schemas. A hash is refused exactly where something that can change is
   found on the way: in tuples, and among the elements of enumerations. -/
import Mathlib.Data.Multiset.Defs
import Conformance.Fault
import Conformance.Value.Hashing
namespace Conformance

/-- The hashes of what has no parts, and how those of parts are put together. Numbers hash by their
places, and what is no number by its mark. -/
structure Hasher where
  null : Int
  place : Place → Int
  nan : Nat → Int
  text : String → Int
  octets : List UInt8 → Int
  func : Func → Int
  object : Nat → Int
  tuple : List Int → Int
  frozen : Multiset Int → Int

def refusal (got : String) : Fault := .operand (.unhashable got)

def raised? {α : Type} : Except Fault α → Option Fault
  | .ok _ => none
  | .error fault => some fault

theorem raised?_map {α β : Type} (f : α → β) (x : Except Fault α) :
    raised? (x.map f) = raised? x := by
  cases x <;> rfl

namespace Value

mutual

/-- The hash of a value. The items of a frozen set had one when they were put there. -/
def hash? (k : Hasher) : Value → Except Fault Int
  | .null => .ok k.null
  | .bool b => .ok (k.place (.ofInt (if b then 1 else 0)))
  | .int _ n => .ok (k.place (.ofInt n))
  | .float _ (.nan mark) => .ok (k.nan mark)
  | .float _ x => .ok (k.place (.ofBinary64 x))
  | .text _ s => .ok (k.text s)
  | .octets false data => .ok (k.octets data)
  | .octets true data => .error (refusal (Value.octets true data).operandClass)
  | .list l items => .error (refusal (Value.list l items).operandClass)
  | .loopList stamp => .error (refusal (Value.loopList stamp).operandClass)
  | .tuple _ items => (itemHashes? k items).map k.tuple
  | .set true items => .ok (k.frozen (Multiset.ofList (heldHashes k items)))
  | .set false items => .error (refusal (Value.set false items).operandClass)
  | .mapping kind entries => .error (refusal (Value.mapping kind entries).operandClass)
  | .loopMapping stamp => .error (refusal (Value.loopMapping stamp).operandClass)
  | .func f => .ok (k.func f)
  | .object _ _ stamp => .ok (k.object stamp)
  | .schema t => schemaHash? k t
termination_by structural v => v

def itemHashes? (k : Hasher) : List Value → Except Fault (List Int)
  | [] => .ok []
  | v :: vs => do
    let n ← hash? k v
    return n :: (← itemHashes? k vs)
termination_by structural vs => vs

def heldHashes (k : Hasher) : List Value → List Int
  | [] => []
  | v :: vs => (hash? k v).toOption.toList ++ heldHashes k vs
termination_by structural vs => vs

/-- A schema hashes by its name and verifier, an enumeration by its elements too. Members and
policies are left out, as they are when schemas are compared. -/
def schemaHash? (k : Hasher) : Schema → Except Fault Int
  | .enumeration s n elems =>
    (itemHashes? k elems).map fun hashes =>
      k.tuple [k.text n.text, k.func (Schema.enumeration s n elems).verifier, k.tuple hashes]
  | t => .ok (k.tuple [k.text t.name, k.func t.verifier])
termination_by structural t => t

end

/-- Values that can change, and those that come to such a value through tuples and enumerations. -/
inductive Unhashable : Value → Prop
  | list (l items) : Unhashable (.list l items)
  | loopList (stamp) : Unhashable (.loopList stamp)
  | set (items) : Unhashable (.set false items)
  | octets (data) : Unhashable (.octets true data)
  | mapping (kind entries) : Unhashable (.mapping kind entries)
  | loopMapping (stamp) : Unhashable (.loopMapping stamp)
  | tuple {l items x} : x ∈ items → Unhashable x → Unhashable (.tuple l items)
  | enumeration {s n elems x} : x ∈ elems → Unhashable x →
      Unhashable (.schema (.enumeration s n elems))

mutual

/-- A hash fails by the first part that cannot be hashed. -/
theorem raised?_hash (k : Hasher) : ∀ v : Value, raised? (v.hash? k) = v.unhashable?.map refusal
  | .null | .bool _ | .int _ _ | .text _ _ | .octets false _ | .octets true _ | .list _ _
  | .loopList _ | .set false _ | .set true _ | .mapping _ _ | .loopMapping _ | .func _
  | .object _ _ _ => rfl
  | .float _ x => by cases x <;> rfl
  | .tuple _ items => (raised?_map k.tuple _).trans (raised?_itemHashes k items)
  | .schema t => raised?_schemaHash k t
termination_by structural v => v

theorem raised?_itemHashes (k : Hasher) : ∀ vs : List Value,
    raised? (itemHashes? k vs) = (unhashableItem? vs).map refusal
  | [] => rfl
  | v :: vs => by
    have hv := raised?_hash k v
    have hvs := raised?_itemHashes k vs
    rw [itemHashes?, unhashableItem?]
    cases hash : v.hash? k with
    | error fault =>
      rw [hash] at hv
      cases hgot : v.unhashable? with
      | none =>
        rw [hgot] at hv
        cases hv
      | some got =>
        rw [hgot] at hv
        exact hv
    | ok n =>
      rw [hash] at hv
      rw [Option.map_eq_none_iff.mp hv.symm]
      exact (raised?_map (n :: ·) _).trans hvs
termination_by structural vs => vs

theorem raised?_schemaHash (k : Hasher) : ∀ t : Schema,
    raised? (schemaHash? k t) = (unhashableSchema? t).map refusal
  | .enumeration _ _ elems => (raised?_map _ _).trans (raised?_itemHashes k elems)
  | .primitive _ | .custom _ _ | .predicate _ _ _ | .optional _ _ | .listOf _ _ | .mapOf _ _
  | .union _ _ | .record _ _ _ _ => rfl
termination_by structural t => t

end

mutual

theorem unhashable?_isSome_iff : ∀ v : Value, v.unhashable?.isSome ↔ Unhashable v
  | .null | .bool _ | .int _ _ | .float _ _ | .text _ _ | .octets false _ | .set true _ | .func _
  | .object _ _ _ => ⟨nofun, nofun⟩
  | .octets true data => ⟨fun _ => .octets data, fun _ => rfl⟩
  | .list l items => ⟨fun _ => .list l items, fun _ => rfl⟩
  | .loopList stamp => ⟨fun _ => .loopList stamp, fun _ => rfl⟩
  | .set false items => ⟨fun _ => .set items, fun _ => rfl⟩
  | .mapping kind entries => ⟨fun _ => .mapping kind entries, fun _ => rfl⟩
  | .loopMapping stamp => ⟨fun _ => .loopMapping stamp, fun _ => rfl⟩
  | .tuple l items => by
    rw [unhashable?, unhashableItem?_isSome_iff items]
    constructor
    · rintro ⟨x, hx, hself⟩
      exact .tuple hx hself
    · intro h
      cases h with
      | tuple hx hself => exact ⟨_, hx, hself⟩
  | .schema t => unhashableSchema?_isSome_iff t
termination_by structural v => v

theorem unhashableItem?_isSome_iff : ∀ vs : List Value,
    (unhashableItem? vs).isSome ↔ ∃ x ∈ vs, Unhashable x
  | [] => by simp [unhashableItem?]
  | v :: vs => by
    rw [List.exists_mem_cons_iff, ← unhashable?_isSome_iff v, ← unhashableItem?_isSome_iff vs,
      unhashableItem?]
    cases v.unhashable? with
    | none => simp
    | some got => simp
termination_by structural vs => vs

theorem unhashableSchema?_isSome_iff : ∀ t : Schema,
    (unhashableSchema? t).isSome ↔ Unhashable (.schema t)
  | .enumeration s n elems => by
    rw [unhashableSchema?, unhashableItem?_isSome_iff elems]
    constructor
    · rintro ⟨x, hx, hself⟩
      exact .enumeration hx hself
    · intro h
      cases h with
      | enumeration hx hself => exact ⟨_, hx, hself⟩
  | .primitive _ | .custom _ _ | .predicate _ _ _ | .optional _ _ | .listOf _ _ | .mapOf _ _
  | .union _ _ | .record _ _ _ _ => ⟨nofun, nofun⟩
termination_by structural t => t

end

/-- Only enumerations can be without a hash; what a record is made of does not matter. -/
theorem unhashable?_schema_iff {t : Schema} : (Value.schema t).unhashable?.isSome ↔
    ∃ s n elems, t = .enumeration s n elems ∧ ∃ x ∈ elems, Unhashable x := by
  rw [unhashable?_isSome_iff]
  constructor
  · intro h
    cases h with
    | enumeration hx hself => exact ⟨_, _, _, rfl, _, hx, hself⟩
  · rintro ⟨s, n, elems, rfl, x, hx, hself⟩
    exact .enumeration hx hself

end Value

end Conformance

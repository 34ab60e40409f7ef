/- Where the one pass gets to. Its faults come from the points that it reaches, and answers at other
   points do not matter to it; so they do not matter to verification. -/
import Conformance.Proofs.Refinement
import Conformance.Proofs.Texts
namespace Conformance

variable {σ : Type} {out out' : Answers}

/-- Where a fault can come from: a call, or the keys that a message lists. -/
inductive Point
  | call (f : Func) (v : Value)
  | listing (keys : List Value)

def Point.Raises (out : Answers) (fault : Fault) : Point → Prop
  | .call f v => out f v = .error fault
  | .listing keys => Record.joinKeys? keys = .error fault

namespace Schema

/-- The one pass over a schema and a value gets to a point: every element, value or member before it
passes, and every alternative before it rejects. -/
inductive Reaches (out : Answers) : Schema → Value → Point → Prop
  | custom (n : Name) (f : Func) (v : Value) : Reaches out (.custom n f) v (.call f v)
  | predicate (s : Nat) (n : Name) (f : Func) (v : Value) :
      Reaches out (.predicate s n f) v (.call f v)
  | optional {s t v p} : v ≠ .null → Reaches out t v p → Reaches out (.optional s t) v p
  | element {s t v before x after p} : v.items? = some (before ++ x :: after) →
      (∀ y ∈ before, t.evaluate out y = .ok none) → Reaches out t x p →
      Reaches out (.listOf s t) v p
  | entry {s t v entries before x after p} : v.entries? = some entries →
      entries.map (·.2) = before ++ x :: after → (∀ y ∈ before, t.evaluate out y = .ok none) →
      Reaches out t x p → Reaches out (.mapOf s t) v p
  | alternative {s before t after v p} :
      (∀ u ∈ before, ∃ reason, u.evaluate out v = .ok (some reason)) → Reaches out t v p →
      Reaches out (.union s (before ++ t :: after)) v p
  | member {s n before m after policy v entries x p} : v.entries? = some entries →
      (∀ k ∈ before, memberCheck out policy.total entries k = .ok none) →
      lookup? (.ofString m.1.text) entries = some x → Reaches out m.2 x p →
      Reaches out (.record s n (before ++ m :: after) policy) v p
  | listing {s n members policy v entries keys} : v.entries? = some entries →
      (∀ m ∈ members, memberCheck out policy.total entries m = .ok none) →
      policy.unknown = false →
      Record.undeclaredKeys (members.map (·.1.text)) entries = keys → keys ≠ [] →
      Reaches out (.record s n members policy) v (.listing keys)
  | invariant {s n members policy v entries f} : v.entries? = some entries →
      (∀ m ∈ members, memberCheck out policy.total entries m = .ok none) →
      (policy.unknown = false → Record.undeclaredKeys (members.map (·.1.text)) entries = []) →
      policy.extra = some f → Reaches out (.record s n members policy) v (.call f v)

end Schema

namespace Schema

theorem memberCheck_eq_error_iff {total : Bool} {entries : List (Value × Value)}
    {m : Name × Schema} {fault : Fault} (hspeaks : ∀ f ∈ m.2.funcs, out.Speaks f) :
    memberCheck out total entries m = .error fault ↔
      ∃ x, lookup? (.ofString m.1.text) entries = some x ∧ m.2.evaluate out x = .error fault := by
  unfold memberCheck Record.memberVerdict
  cases hx : lookup? (.ofString m.1.text) entries with
  | none => simp
  | some x =>
    change (m.2.evaluate out x >>= under _) = .error fault ↔ _
    rw [bind_under_eq_error_iff fun reason => evaluate_hasText hspeaks]
    simp

theorem Reaches.raises {t : Schema} {v : Value} {p : Point} (h : Reaches out t v p)
    {fault : Fault} (hp : p.Raises out fault) : t.evaluate out v = .error fault := by
  induction h with
  | custom n f v => exact bind_eq_error_iff.mpr (.inl hp)
  | predicate s n f v => exact bind_eq_error_iff.mpr (.inl hp)
  | optional hv _ ih =>
    rw [evaluate_optional hv]
    exact bind_eq_error_iff.mpr (.inl (ih hp))
  | element hv hbefore _ ih =>
    rw [evaluate_listOf hv]
    refine bind_eq_error_iff.mpr (.inl ?_)
    exact (firstReason_eq_iff (by simp)).mpr ⟨_, _, _, rfl, hbefore, ih hp⟩
  | entry hv hsplit hbefore _ ih =>
    rw [evaluate_mapOf hv]
    refine bind_eq_error_iff.mpr (.inl ?_)
    exact (firstReason_eq_iff (by simp)).mpr ⟨_, _, _, hsplit, hbefore, ih hp⟩
  | alternative hbefore _ ih =>
    rw [evaluate_union]
    refine bind_eq_error_iff.mpr (.inl ?_)
    exact somePasses_eq_error_iff.mpr ⟨_, _, _, rfl, hbefore, ih hp⟩
  | member hv hbefore hx _ ih =>
    rw [evaluate_record hv]
    refine bind_eq_error_iff.mpr (.inl ?_)
    refine (followedBy_eq_iff (by simp)).mpr (.inl ?_)
    refine (firstReason_eq_iff (by simp)).mpr ⟨_, _, _, rfl, hbefore, ?_⟩
    rw [memberCheck, Record.memberVerdict, hx]
    exact bind_eq_error_iff.mpr (.inl (ih hp))
  | listing hv hmembers hunknown hkeys hne =>
    rw [evaluate_record hv]
    refine bind_eq_error_iff.mpr (.inl ?_)
    refine (followedBy_eq_iff (by simp)).mpr (.inr ⟨firstReason_eq_none_iff.mpr hmembers, ?_⟩)
    subst hkeys
    exact Record.restVerdict_eq_error_iff.mpr (.inl ⟨hunknown, hne, hp⟩)
  | invariant hv hmembers hkeys hf =>
    rw [evaluate_record hv]
    refine bind_eq_error_iff.mpr (.inl ?_)
    refine (followedBy_eq_iff (by simp)).mpr (.inr ⟨firstReason_eq_none_iff.mpr hmembers, ?_⟩)
    exact Record.restVerdict_eq_error_iff.mpr (.inr ⟨hkeys, _, hf, hp⟩)

theorem exists_reaches_of_error {t : Schema} {v : Value} {fault : Fault}
    (hspeaks : ∀ f ∈ t.funcs, out.Speaks f) (h : t.evaluate out v = .error fault) :
    ∃ p, Reaches out t v p ∧ p.Raises out fault := by
  induction t generalizing v with
  | primitive p => cases h
  | custom n f =>
    rcases bind_eq_error_iff.mp h with hcall | ⟨a, _, ha⟩
    · exact ⟨.call f v, .custom n f v, hcall⟩
    · cases ha
  | predicate s n f =>
    rcases bind_eq_error_iff.mp h with hcall | ⟨a, _, ha⟩
    · exact ⟨.call f v, .predicate s n f v, hcall⟩
    · cases ha
  | optional s t ih =>
    have hfuncs : ∀ f ∈ t.funcs, out.Speaks f := hspeaks
    by_cases hv : v = .null
    · rw [hv] at h
      cases h
    · rw [evaluate_optional hv, bind_under_eq_error_iff fun _ => evaluate_hasText hfuncs] at h
      obtain ⟨p, hreach, hp⟩ := ih hfuncs h
      exact ⟨p, .optional hv hreach, hp⟩
  | listOf s t ih =>
    have hfuncs : ∀ f ∈ t.funcs, out.Speaks f := hspeaks
    cases hv : v.items? with
    | none =>
      rw [evaluate, hv] at h
      cases h
    | some items =>
      rw [evaluate_listOf hv, bind_under_eq_error_iff fun _ =>
        firstReason_hasText fun x _ _ => evaluate_hasText hfuncs] at h
      -- The fault comes from the first item that does not pass.
      obtain ⟨before, x, after, rfl, hbefore, hx⟩ := (firstReason_eq_iff (by simp)).mp h
      obtain ⟨p, hreach, hp⟩ := ih hfuncs hx
      exact ⟨p, .element hv hbefore hreach, hp⟩
  | mapOf s t ih =>
    have hfuncs : ∀ f ∈ t.funcs, out.Speaks f := hspeaks
    cases hv : v.entries? with
    | none =>
      rw [evaluate, hv] at h
      cases h
    | some entries =>
      rw [evaluate_mapOf hv, bind_under_eq_error_iff fun _ =>
        firstReason_hasText fun x _ _ => evaluate_hasText hfuncs] at h
      obtain ⟨before, x, after, hsplit, hbefore, hx⟩ := (firstReason_eq_iff (by simp)).mp h
      obtain ⟨p, hreach, hp⟩ := ih hfuncs hx
      exact ⟨p, .entry hv hsplit hbefore hreach, hp⟩
  | union s ts ih =>
    rw [evaluate_union] at h
    rcases bind_eq_error_iff.mp h with hsome | ⟨passes, _, hpasses⟩
    · obtain ⟨before, t, after, rfl, hbefore, ht⟩ := somePasses_eq_error_iff.mp hsome
      have hmem : t ∈ before ++ t :: after := by simp
      obtain ⟨p, hreach, hp⟩ := ih t hmem (fun f hf => hspeaks f (mem_funcs_union hmem hf)) ht
      exact ⟨p, .alternative hbefore hreach, hp⟩
    · cases hpasses
  | enumeration s n elems => cases h
  | record s n members policy ih =>
    cases hv : v.entries? with
    | none =>
      rw [evaluate_record_mismatch hv] at h
      cases h
    | some entries =>
      rw [evaluate_record hv, bind_under_eq_error_iff fun _ =>
        record_hasText fun f hf => hspeaks f (mem_funcs_extra hf)] at h
      rcases (followedBy_eq_iff (by simp)).mp h with hmember | ⟨hmembers, hrest⟩
      · obtain ⟨before, m, after, rfl, hbefore, hm⟩ := (firstReason_eq_iff (by simp)).mp hmember
        have hmem : m ∈ before ++ m :: after := by simp
        have hfuncs : ∀ f ∈ m.2.funcs, out.Speaks f :=
          fun f hf => hspeaks f (mem_funcs_member hmem hf)
        obtain ⟨x, hx, hfault⟩ := (memberCheck_eq_error_iff hfuncs).mp hm
        obtain ⟨p, hreach, hp⟩ := ih m hmem hfuncs hfault
        exact ⟨p, .member hv hbefore hx hreach, hp⟩
      · have hmembers := firstReason_eq_none_iff.mp hmembers
        rcases Record.restVerdict_eq_error_iff.mp hrest with
          ⟨hunknown, hne, hlist⟩ | ⟨hkeys, f, hf, hcall⟩
        · exact ⟨.listing _, .listing hv hmembers hunknown rfl hne, hlist⟩
        · exact ⟨.call f v, .invariant hv hmembers hkeys hf, hcall⟩

theorem Reaches.call_mem {t : Schema} {v : Value} {f : Func} {w : Value}
    (h : Reaches out t v (.call f w)) : f ∈ t.funcs := by
  generalize hp : Point.call f w = p at h
  induction h with
  | custom n g v =>
    cases hp
    exact List.mem_cons_self
  | predicate s n g v =>
    cases hp
    exact List.mem_cons_self
  | optional _ _ ih => exact ih hp
  | element _ _ _ ih => exact ih hp
  | entry _ _ _ _ ih => exact ih hp
  | alternative _ _ ih => exact mem_funcs_union (by simp) (ih hp)
  | member _ _ _ _ ih => exact mem_funcs_member (by simp) (ih hp)
  | listing _ _ _ _ _ => cases hp
  | invariant _ _ _ hf =>
    cases hp
    exact mem_funcs_extra hf

theorem evaluate_eq_error_iff {t : Schema} {v : Value} {fault : Fault}
    (hspeaks : ∀ f ∈ t.funcs, out.Speaks f) :
    t.evaluate out v = .error fault ↔ ∃ p, Reaches out t v p ∧ p.Raises out fault := by
  constructor
  · exact exists_reaches_of_error hspeaks
  · rintro ⟨p, hreach, hp⟩
    exact hreach.raises hp

theorem Reaches.listing_shown {t : Schema} {v : Value} {keys : List Value}
    (h : Reaches out t v (.listing keys)) (hv : v.keysShown = true) :
    ∃ text, Record.joinKeys? keys = .ok text := by
  -- The keys are generalized, for the induction goes along the way to them.
  generalize hp : Point.listing keys = p at h
  induction h with
  | custom n f v => cases hp
  | predicate s n f v => cases hp
  | optional _ _ ih => exact ih hv hp
  | element hitems _ _ ih => exact ih (Value.keysShown_item hv hitems (by simp)) hp
  | @entry s t v entries before x after p hentries hsplit hbefore hreach ih =>
    have hx : x ∈ entries.map (·.2) := hsplit ▸ by simp
    obtain ⟨e, he, rfl⟩ := List.mem_map.mp hx
    exact ih (Value.keysShown_entry hv hentries he).2 hp
  | alternative _ _ ih => exact ih hv hp
  | member hentries _ hx _ ih =>
    obtain ⟨k, hmem⟩ := lookup?_mem hx
    exact ih (Value.keysShown_entry hv hentries hmem).2 hp
  | listing hentries _ _ hkeys _ =>
    cases hp
    refine Record.joinKeys?_of_shown fun key hkey => ?_
    obtain ⟨e, he, rfl⟩ := Record.mem_of_mem_undeclaredKeys (hkeys ▸ hkey)
    exact (Value.keysShown_entry hv hentries he).1
  | invariant _ _ _ _ => cases hp

def sample (stamp : Nat) : Func := ⟨.function "sample", some [⟨"v", .positional, true⟩], stamp⟩

def quietOrLoud : Answers := fun f _ =>
  if f.stamp = 0 then .ok .null else .error (.raised .value "boom")

/-- Where a schema has no functions, what is raised comes from a key that a message lists and that
cannot be shown. All else is a verdict, with a message if something is wrong. -/
theorem verify_function_free {h : Host σ} {t : Schema} (hfree : t.funcs = []) (out : Answers)
    (v : Value) (s : σ) :
    (∀ fault, (t.verify h v s).1 = .error fault ↔
      ∃ before key after, Reaches out t v (.listing (before ++ key :: after)) ∧
        (∀ k ∈ before, ∃ text, Value.line? false k = .ok text) ∧
        Value.line? false key = .error fault) ∧
    ∀ reason, (t.verify h v s).1 = .ok (some reason) → reason.IsMessage := by
  have hnone : ∀ f, f ∉ t.funcs := fun f => hfree ▸ List.not_mem_nil
  have hverify : (t.verify h v s).1 = t.evaluate out v :=
    settles_verify (fun f hf => absurd hf (hnone f)) v s
  rw [hverify]
  constructor
  · intro fault
    rw [evaluate_eq_error_iff fun f hf => absurd hf (hnone f)]
    constructor
    · rintro ⟨p, hreach, hp⟩
      cases p with
      | call f w => exact absurd hreach.call_mem (hnone f)
      | listing keys =>
        obtain ⟨before, key, after, rfl, hbefore, hkey⟩ := Record.joinKeys?_eq_error_iff.mp hp
        exact ⟨before, key, after, hreach, hbefore, hkey⟩
    · rintro ⟨before, key, after, hreach, hbefore, hkey⟩
      have hjoin := Record.joinKeys?_eq_error_iff.mpr ⟨before, key, after, rfl, hbefore, hkey⟩
      exact ⟨_, hreach, hjoin⟩
  · intro reason hreason
    rcases evaluate_reason hreason with hmessage | ⟨n, f, rfl, _⟩
    · exact hmessage
    · cases hfree

/-- A schema as a key has no text where an element that it lists has none. -/
example : (Schema.record 0 "s" [] { unknown := false }).verify (.ofAnswers quietOrLoud)
    (.mapping (.plain .base)
      [(.schema (.enumeration 1 "E" [.object "Broken" .refused 0]), .ofInt 1)]) () =
    (.error .noText, ()) := by rfl

/-- Anything, or before that a record without members that allows no other keys. -/
def closedOrAny : Schema := .union 1 [.record 0 "s" [] { unknown := false }, .primitive .any]

def refusedKey : Value := .mapping (.plain .base) [(.object "Broken" .refused 0, .ofInt 1)]

/-- The second alternative would accept, but listing the key for the first one raises. -/
theorem verify_function_free_refused :
    (closedOrAny.verify (.ofAnswers quietOrLoud) refusedKey ()).1 = .error .noText := by
  have hkeys : Reaches quietOrLoud (.record 0 "s" [] { unknown := false }) refusedKey
      (.listing ([] ++ [.object "Broken" .refused 0])) :=
    .listing rfl nofun rfl rfl nofun
  have hbefore : ∀ u ∈ ([] : List Schema),
      ∃ reason, u.evaluate quietOrLoud refusedKey = .ok (some reason) := nofun
  have hreach : Reaches quietOrLoud closedOrAny refusedKey
      (.listing ([] ++ [.object "Broken" .refused 0])) := .alternative hbefore hkeys
  exact ((verify_function_free rfl quietOrLoud refusedKey ()).1 .noText).mpr
    ⟨[], _, [], hreach, nofun, rfl⟩

end Schema

end Conformance

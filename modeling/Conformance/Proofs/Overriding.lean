/- Chains of overrides. Each knob of the policy is the last value that was given for it, whatever
   the order and the number of the steps that gave it. -/
import Conformance.Proofs.Declaration
namespace Conformance

namespace Knobs

/-- The last value given for a knob by any of these sets. -/
def last? : List Knobs → String → Option Value
  | [], _ => none
  | given :: sets, name => (last? sets name).or (given.lookup name)

/-- The sets put over each other, in their order. -/
def merged (sets : List Knobs) : Knobs := sets.foldl merge []

/-- No knob is given twice, as by named arguments. -/
def Distinct (knobs : Knobs) : Prop := (knobs.map (·.1)).Nodup

theorem last?_append (sets more : List Knobs) (name : String) :
    last? (sets ++ more) name = (last? more name).or (last? sets name) := by
  induction sets with
  | nil => rw [List.nil_append, last?, Option.or_none]
  | cons given sets ih => rw [List.cons_append, last?, last?, ih, Option.or_assoc]

theorem lookup_cons_ite (k : String × Value) (knobs : Knobs) (name : String) :
    List.lookup name (k :: knobs) = if name = k.1 then some k.2 else knobs.lookup name := by
  rw [List.lookup_cons]
  by_cases h : name = k.1
  · simp [h]
  · rw [beq_eq_false_iff_ne.mpr h, if_neg h]

theorem lookup_replace (knobs : Knobs) (name : String) (value : Value) (other : String) :
    (knobs.map fun k => if k.1 == name then (name, value) else k).lookup other =
      if other = name then (knobs.lookup name).map (fun _ => value) else knobs.lookup other := by
  induction knobs with
  | nil => simp
  | cons k knobs ih =>
    rw [List.map_cons, lookup_cons_ite, lookup_cons_ite, lookup_cons_ite, ih]
    by_cases hkey : k.1 = name
    · by_cases hother : other = name
      · simp [hkey, hother]
      · simp [hkey, hother]
    · by_cases hother : other = name
      · simp [hkey, hother, Ne.symm hkey]
      · simp [hkey, hother]

theorem lookup_isSome_iff {knobs : Knobs} {name : String} :
    (knobs.lookup name).isSome ↔ name ∈ knobs.map (·.1) := by
  induction knobs with
  | nil => simp
  | cons k knobs ih =>
    rw [lookup_cons_ite, List.map_cons, List.mem_cons, ← ih]
    by_cases h : name = k.1
    · simp [h]
    · simp [h]

theorem any_name_iff {knobs : Knobs} {name : String} :
    knobs.any (·.1 == name) = true ↔ name ∈ knobs.map (·.1) := by
  simp [List.any_eq_true]

theorem lookup_put (knobs : Knobs) (name : String) (value : Value) (other : String) :
    (knobs.put name value).lookup other =
      if other = name then some value else knobs.lookup other := by
  unfold put
  by_cases hthere : name ∈ knobs.map (·.1)
  · obtain ⟨old, hold⟩ := Option.isSome_iff_exists.mp (lookup_isSome_iff.mpr hthere)
    rw [if_pos (any_name_iff.mpr hthere), lookup_replace, hold]
    rfl
  · have hnone : knobs.lookup name = none :=
      Option.not_isSome_iff_eq_none.mp (mt lookup_isSome_iff.mp hthere)
    rw [if_neg (mt any_name_iff.mp hthere), List.lookup_append, lookup_cons_ite]
    by_cases hother : other = name
    · simp [hother, hnone]
    · simp [hother]

/-- The names stay where they are, and a new one comes last. -/
theorem names_put (knobs : Knobs) (name : String) (value : Value) :
    (knobs.put name value).map (·.1) =
      if name ∈ knobs.map (·.1) then knobs.map (·.1) else knobs.map (·.1) ++ [name] := by
  unfold put
  by_cases hthere : name ∈ knobs.map (·.1)
  · rw [if_pos (any_name_iff.mpr hthere), if_pos hthere, List.map_map]
    apply List.map_congr_left
    intro k _
    by_cases hk : k.1 = name
    · simp [hk]
    · simp [hk]
  · rw [if_neg (mt any_name_iff.mp hthere), if_neg hthere, List.map_append]
    rfl

theorem lookup_merge {given : Knobs} (hgiven : given.Distinct) (knobs : Knobs) (name : String) :
    (knobs.merge given).lookup name = (given.lookup name).or (knobs.lookup name) := by
  unfold merge
  induction given generalizing knobs with
  | nil => rfl
  | cons k given ih =>
    obtain ⟨hfresh, hgiven⟩ := List.nodup_cons.mp hgiven
    rw [List.foldl_cons, ih hgiven, lookup_put, lookup_cons_ite]
    by_cases hname : name = k.1
    · have hlast : given.lookup name = none := by
        rw [← Option.not_isSome_iff_eq_none, lookup_isSome_iff, hname]
        exact hfresh
      rw [hlast, if_pos hname, if_pos hname]
      rfl
    · rw [if_neg hname, if_neg hname]

theorem merge_distinct {knobs : Knobs} (h : knobs.Distinct) (given : Knobs) :
    (knobs.merge given).Distinct := by
  unfold merge
  induction given generalizing knobs with
  | nil => exact h
  | cons k given ih =>
    rw [List.foldl_cons]
    apply ih
    unfold Distinct at h ⊢
    rw [names_put]
    split
    next => exact h
    next hfresh => exact List.nodup_append.mpr ⟨h, by simp, by grind⟩

theorem mem_names_merge {knobs given : Knobs} {name : String}
    (h : name ∈ (knobs.merge given).map (·.1)) :
    name ∈ knobs.map (·.1) ∨ name ∈ given.map (·.1) := by
  unfold merge at h
  induction given generalizing knobs with
  | nil => exact .inl h
  | cons k given ih =>
    rw [List.foldl_cons] at h
    rw [List.map_cons, List.mem_cons]
    rcases ih h with hput | hgiven
    · rw [names_put] at hput
      split at hput
      next => exact .inl hput
      next =>
        rcases List.mem_append.mp hput with hknobs | hname
        · exact .inl hknobs
        · exact .inr (.inl (List.mem_singleton.mp hname))
    · exact .inr (.inr hgiven)

theorem lookup_merged {sets : List Knobs} (hsets : ∀ k ∈ sets, k.Distinct) (name : String) :
    (merged sets).lookup name = last? sets name := by
  have hfold : ∀ knobs : Knobs, (sets.foldl merge knobs).lookup name =
      (last? sets name).or (knobs.lookup name) := by
    induction sets with
    | nil => intro knobs; rfl
    | cons given sets ih =>
      intro knobs
      obtain ⟨hgiven, hsets⟩ := List.forall_mem_cons.mp hsets
      rw [List.foldl_cons, ih hsets, lookup_merge hgiven, last?, Option.or_assoc]
  exact (hfold []).trans Option.or_none

theorem merged_distinct (sets : List Knobs) : (merged sets).Distinct := by
  have hfold : ∀ knobs : Knobs, knobs.Distinct → (sets.foldl merge knobs).Distinct := by
    induction sets with
    | nil => exact fun knobs h => h
    | cons given sets ih => exact fun knobs h => ih _ (merge_distinct h given)
  exact hfold [] List.nodup_nil

end Knobs

namespace Policy

/-- The policy in which each knob is what these sets gave last, and else its default. -/
def ofLast (sets : List Knobs) : Policy where
  total := switchValue (Knobs.last? sets "total")
  unknown := switchValue (Knobs.last? sets "unknown")
  extra := extraFunc (Knobs.last? sets "extra")

/-- Nothing is wrong with the knobs. -/
def Sound (knobs : Knobs) : Prop := findings knobs = []

theorem validate_eq_ok_iff {knobs : Knobs} {p : Policy} :
    validate knobs = .ok p ↔ Sound knobs ∧ ofKnobs knobs = p := by
  unfold validate Sound
  cases findings knobs with
  | nil => simp
  | cons finding found => simp

/-- Whatever is found, all of it is reported. -/
theorem validate_of_findings {knobs : Knobs} (hne : findings knobs ≠ []) :
    validate knobs = .error (.reported ⟨reportTitle, findings knobs, hne⟩) := by
  unfold validate
  generalize findings knobs = found at hne
  cases found with
  | nil => exact absurd rfl hne
  | cons first rest => rfl

theorem sound_iff {knobs : Knobs} :
    Sound knobs ↔ switchFindings "total" (knobs.lookup "total") = [] ∧
      switchFindings "unknown" (knobs.lookup "unknown") = [] ∧
      extraFindings (knobs.lookup "extra") = [] ∧
      ∀ name ∈ knobs.map (·.1), name ∈ fieldNames := by
  simp [Sound, findings]

theorem Sound.name_mem {knobs : Knobs} (h : Sound knobs) {name : String}
    (hname : name ∈ knobs.map (·.1)) : name ∈ fieldNames :=
  (sound_iff.mp h).2.2.2 name hname

theorem Sound.merge {knobs given : Knobs} (h : Sound knobs) (hgiven : Sound given)
    (hdistinct : given.Distinct) : Sound (knobs.merge given) := by
  have hor : ∀ {found : Option Value → List Finding} {name : String},
      found (knobs.lookup name) = [] → found (given.lookup name) = [] →
      found ((knobs.merge given).lookup name) = [] := by
    intro found name hold hnew
    rw [Knobs.lookup_merge hdistinct]
    cases hvalue : given.lookup name with
    | none => exact hold
    | some value =>
      rw [hvalue] at hnew
      exact hnew
  obtain ⟨htotal, hunknown, hextra, hnames⟩ := sound_iff.mp h
  obtain ⟨htotal', hunknown', hextra', hnames'⟩ := sound_iff.mp hgiven
  refine sound_iff.mpr ⟨hor htotal htotal', hor hunknown hunknown', hor hextra hextra', ?_⟩
  intro name hname
  rcases Knobs.mem_names_merge hname with hold | hnew
  · exact hnames name hold
  · exact hnames' name hnew

theorem sound_merged {sets : List Knobs} (hsets : ∀ k ∈ sets, k.Distinct ∧ Sound k) :
    Sound (Knobs.merged sets) := by
  have hfold : ∀ knobs, Sound knobs → Sound (sets.foldl Knobs.merge knobs) := by
    induction sets with
    | nil => exact fun knobs h => h
    | cons given sets ih =>
      obtain ⟨⟨hdistinct, hgiven⟩, hsets⟩ := List.forall_mem_cons.mp hsets
      exact fun knobs h => ih hsets _ (h.merge hgiven hdistinct)
  exact hfold [] rfl

theorem ofKnobs_merged {sets : List Knobs} (hsets : ∀ k ∈ sets, k.Distinct) :
    ofKnobs (Knobs.merged sets) = ofLast sets := by
  simp only [ofKnobs, ofLast, Knobs.lookup_merged hsets]

/-- A policy that was valid once is valid when it is carried over. -/
theorem Sound.toKnobs {knobs : Knobs} (h : Sound knobs) : Sound (ofKnobs knobs).toKnobs := by
  obtain ⟨-, -, hextra, -⟩ := sound_iff.mp h
  refine sound_iff.mpr ⟨rfl, rfl, ?_, by simp [Policy.toKnobs, fieldNames]⟩
  change extraFindings (some (extraValue (extraFunc (knobs.lookup "extra")))) = []
  cases hvalue : knobs.lookup "extra" with
  | none => rfl
  | some value =>
    rw [hvalue] at hextra
    cases value with
    | func f => exact hextra
    | _ => rfl

theorem switchValue_or (given before : Option Value) :
    switchValue (given.or (some (.bool (switchValue before)))) = switchValue (given.or before) := by
  cases given <;> rfl

theorem extraFunc_or (given before : Option Value) :
    extraFunc (given.or (some (extraValue (extraFunc before)))) = extraFunc (given.or before) := by
  cases given with
  | some value => rfl
  | none =>
    change extraFunc (some (extraValue (extraFunc before))) = extraFunc before
    cases extraFunc before <;> rfl

theorem ofKnobs_toKnobs_merge (sets : List Knobs) {given : Knobs} (h : given.Distinct) :
    ofKnobs ((ofLast sets).toKnobs.merge given) = ofLast (sets ++ [given]) := by
  have hlast : ∀ name, Knobs.last? (sets ++ [given]) name =
      (given.lookup name).or (Knobs.last? sets name) := Knobs.last?_append sets [given]
  have hlookup := Knobs.lookup_merge h (ofLast sets).toKnobs
  have htotal : switchValue (((ofLast sets).toKnobs.merge given).lookup "total") =
      switchValue (Knobs.last? (sets ++ [given]) "total") := by
    rw [hlookup, hlast]
    exact switchValue_or _ _
  have hunknown : switchValue (((ofLast sets).toKnobs.merge given).lookup "unknown") =
      switchValue (Knobs.last? (sets ++ [given]) "unknown") := by
    rw [hlookup, hlast]
    exact switchValue_or _ _
  have hextra : extraFunc (((ofLast sets).toKnobs.merge given).lookup "extra") =
      extraFunc (Knobs.last? (sets ++ [given]) "extra") := by
    rw [hlookup, hlast]
    exact extraFunc_or _ _
  unfold ofKnobs
  rw [htotal, hunknown, hextra]
  rfl

/-- One more set of knobs over those that were given so far. -/
theorem override_ofLast {sets : List Knobs} (hsets : ∀ k ∈ sets, k.Distinct ∧ Sound k)
    {given : Knobs} (hdistinct : given.Distinct) (hgiven : Sound given) :
    (ofLast sets).override given = .ok (ofLast (sets ++ [given])) := by
  have hcarried : Sound (ofLast sets).toKnobs := by
    rw [← ofKnobs_merged fun k hk => (hsets k hk).1]
    exact (sound_merged hsets).toKnobs
  refine validate_eq_ok_iff.mpr ⟨hcarried.merge hgiven hdistinct, ?_⟩
  exact ofKnobs_toKnobs_merge sets hdistinct

theorem ofLast_congr {sets sets' : List Knobs}
    (h : ∀ name, Knobs.last? sets name = Knobs.last? sets' name) : ofLast sets = ofLast sets' := by
  simp only [ofLast, h]

end Policy

namespace Construct

/-- Overrides one after another: the record that the chain starts from, and those that it makes. -/
def overrides : Schema → List Knobs → Build (List Schema)
  | t, [] => return [t]
  | t, knobs :: chain => do
    let u ← override (.schema t) knobs
    return t :: (← overrides u chain)

variable (n : Name) (fields : List (Name × Schema))

theorem override_record {policy policy' : Policy} {knobs : Knobs} (hsound : Policy.Sound knobs)
    (hpolicy : policy.override knobs = .ok policy') (s : Nat) (forge : Forge) :
    ∃ s' forge', override (.schema (.record s n fields policy)) knobs forge =
      (.ok (.record s' n fields policy'), forge') := by
  have hreceiver : ¬ knobs.any (·.1 == "self") = true := by
    intro hself
    have hfield := hsound.name_mem (Knobs.any_name_iff.mp hself)
    simp [Policy.fieldNames] at hfield
  unfold override
  dsimp only
  rw [if_neg hreceiver, hpolicy]
  exact ⟨_, _, rfl⟩

/-- Each record of the chain has the policy of the knobs given up to it. -/
theorem overrides_run {sets chain : List Knobs}
    (hsets : ∀ k ∈ sets ++ chain, k.Distinct ∧ Policy.Sound k) (s : Nat) (forge : Forge) :
    ∃ made, (overrides (.record s n fields (.ofLast sets)) chain forge).1 = .ok made ∧
      made.length = chain.length + 1 ∧
      made[0]? = some (.record s n fields (.ofLast sets)) ∧
      ∀ (i : Nat) (u : Schema), made[i]? = some u →
        ∃ s', u = .record s' n fields (.ofLast (sets ++ chain.take i)) := by
  induction chain generalizing sets s forge with
  | nil =>
    refine ⟨[_], rfl, rfl, rfl, ?_⟩
    intro i u hu
    cases i with
    | zero => exact ⟨s, by simpa using hu.symm⟩
    | succ i => simp at hu
  | cons given chain ih =>
    -- The record that this step makes starts the rest of the chain, with one set of knobs more.
    obtain ⟨hdistinct, hsound⟩ := hsets given (by simp)
    have hstep := Policy.override_ofLast
      (fun k hk => hsets k (List.mem_append_left _ hk)) hdistinct hsound
    obtain ⟨s', forge', hu⟩ := override_record n fields hsound hstep s forge
    have hsets' : ∀ k ∈ (sets ++ [given]) ++ chain, k.Distinct ∧ Policy.Sound k := by
      simpa using hsets
    obtain ⟨made, hmade, hlength, -, hpolicies⟩ := ih hsets' s' forge'
    refine ⟨_ :: made, ?_, congrArg (· + 1) hlength, rfl, ?_⟩
    · rw [overrides, bind_apply, hu]
      dsimp only
      rw [bind_apply]
      cases hrun : overrides (.record s' n fields (.ofLast (sets ++ [given]))) chain forge' with
      | mk result forge'' =>
        rw [hrun] at hmade
        cases hmade
        rfl
    · intro i u hi
      cases i with
      | zero =>
        rw [List.take_zero, List.append_nil]
        exact ⟨s, (Option.some.inj hi).symm⟩
      | succ i =>
        obtain ⟨s'', hpolicy⟩ := hpolicies i u hi
        rw [List.append_assoc] at hpolicy
        exact ⟨s'', hpolicy⟩

/-- Records that differ in nothing but the verifier that was made for each. -/
def Twins (t u : Schema) : Prop :=
  ∃ s s' n fields policy, t = .record s n fields policy ∧ u = .record s' n fields policy

theorem Twins.verify_eq {t u : Schema} (h : Twins t u) {σ : Type} (host : Host σ) (v : Value) :
    t.verify host v = u.verify host v := by
  obtain ⟨s, s', n, fields, policy, rfl, rfl⟩ := h
  rfl

/-- All knobs at once, over the record that has the first of them. -/
theorem override_merged {knobs : Knobs} {later sets : List Knobs}
    (hsets : ∀ k ∈ knobs :: later, k.Distinct ∧ Policy.Sound k)
    (hmerged : sets = knobs :: later ∨ sets = later) (s : Nat) (forge : Forge) :
    ∃ s', (override (.schema (.record s n fields (.ofLast [knobs]))) (Knobs.merged sets) forge).1 =
      .ok (.record s' n fields (.ofLast (knobs :: later))) := by
  have hparts : ∀ k ∈ sets, k.Distinct ∧ Policy.Sound k := by
    rcases hmerged with rfl | rfl
    · exact hsets
    · exact (List.forall_mem_cons.mp hsets).2
  have hfirst : ∀ k ∈ [knobs], k.Distinct ∧ Policy.Sound k := by
    intro k hk
    exact hsets k (List.mem_cons.mpr (.inl (List.mem_singleton.mp hk)))
  have hsound := Policy.sound_merged hparts
  have hstep := Policy.override_ofLast hfirst (Knobs.merged_distinct sets) hsound
  have hlast : Policy.ofLast ([knobs] ++ [Knobs.merged sets]) = .ofLast (knobs :: later) := by
    apply Policy.ofLast_congr
    intro x
    rw [Knobs.last?_append]
    change ((Knobs.merged sets).lookup x).or (knobs.lookup x) = _
    rw [Knobs.lookup_merged fun k hk => (hparts k hk).1]
    rcases hmerged with rfl | rfl
    · rw [Knobs.last?, Option.or_assoc, Option.or_self]
    · rfl
  obtain ⟨s', forge', hrun⟩ := override_record n fields hsound hstep s forge
  rw [hrun, hlast]
  exact ⟨s', rfl⟩

/-- A chain of overrides goes through. Each record of it, first to last, has the name and the
members of the first, and of each knob the last value given up to there. It is no other record than
one that is declared with all these knobs at once, or that one override with all of them makes. -/
theorem overrides_last_given {name members : Value} {knobs : Knobs} {chain : List Knobs}
    {forge : Forge} {t : Schema} (hdistinct : ∀ k ∈ knobs :: chain, k.Distinct)
    (ht : (record name members knobs forge).1 = .ok t)
    (hvalid : ∀ k ∈ chain, ∃ p, Policy.validate k = .ok p) (start : Forge) :
    ∃ n fields made, (overrides t chain start).1 = .ok made ∧ made.length = chain.length + 1 ∧
      made[0]? = some t ∧ ∀ (i : Nat) (u : Schema), made[i]? = some u →
        (∃ s, u = .record s n fields (.ofLast (knobs :: chain.take i))) ∧
        ∀ forge',
          (∃ d, (record name members (Knobs.merged (knobs :: chain.take i)) forge').1 = .ok d ∧
            Twins d u ∧ ∀ (σ : Type) (h : Host σ) v, d.verify h v = u.verify h v) ∧
          ∀ sets, sets = knobs :: chain.take i ∨ sets = chain.take i →
            ∃ d, (override (.schema t) (Knobs.merged sets) forge').1 = .ok d ∧
              Twins d u ∧ ∀ (σ : Type) (h : Host σ) v, d.verify h v = u.verify h v := by
  obtain ⟨s, n, fields, policy, hreads, hpolicy, rfl⟩ := record_eq_ok ht
  obtain ⟨hsound, rfl⟩ := Policy.validate_eq_ok_iff.mp hpolicy
  have hsets : ∀ k ∈ [knobs] ++ chain, k.Distinct ∧ Policy.Sound k := by
    intro k hk
    refine ⟨hdistinct k hk, ?_⟩
    rcases List.mem_cons.mp hk with rfl | hchain
    · exact hsound
    · obtain ⟨p, hp⟩ := hvalid k hchain
      exact (Policy.validate_eq_ok_iff.mp hp).1
  obtain ⟨made, hmade, hlength, hfirst, hpolicies⟩ :=
    overrides_run n fields hsets s start
  refine ⟨n, fields, made, hmade, hlength, hfirst, ?_⟩
  intro i u hu
  obtain ⟨s', rfl⟩ := hpolicies i u hu
  have hgiven : ∀ k ∈ knobs :: chain.take i, k.Distinct ∧ Policy.Sound k := by
    intro k hk
    apply hsets k
    rcases List.mem_cons.mp hk with rfl | htake
    · exact List.mem_cons_self
    · exact List.mem_cons_of_mem _ (List.mem_of_mem_take htake)
  have htwins : ∀ s'', Twins (.record s'' n fields (.ofLast (knobs :: chain.take i)))
      (.record s' n fields (.ofLast (knobs :: chain.take i))) :=
    fun s'' => ⟨s'', s', n, fields, _, rfl, rfl⟩
  refine ⟨⟨s', rfl⟩, fun forge' => ⟨?_, fun sets hmerged => ?_⟩⟩
  · have hmerged : Policy.validate (Knobs.merged (knobs :: chain.take i)) =
        .ok (.ofLast (knobs :: chain.take i)) :=
      Policy.validate_eq_ok_iff.mpr
        ⟨Policy.sound_merged hgiven, Policy.ofKnobs_merged fun k hk => (hgiven k hk).1⟩
    obtain ⟨s'', hdirect⟩ := hreads.record hmerged forge'
    exact ⟨_, hdirect, htwins s'', fun _ h v => (htwins s'').verify_eq h v⟩
  · obtain ⟨s'', hsingle⟩ := override_merged n fields hgiven hmerged s forge'
    exact ⟨_, hsingle, htwins s'', fun _ h v => (htwins s'').verify_eq h v⟩

def pointMembers : Value := .mapping (.plain .base) [(.ofString "x", .schema (.primitive .int))]

/-- Both switches are set back to what they were by default, one of them by hand. -/
def backAndForth : List Knobs :=
  [[("total", .bool true), ("unknown", .bool false)], [("extra", .null), ("unknown", .bool true)]]

theorem overrides_last_given_back :
    ∃ t made, (record (.ofString "point") pointMembers [("total", .bool false)] {}).1 = .ok t ∧
      (overrides t backAndForth {}).1 = .ok made ∧
      ∃ s n fields u, made[2]? = some u ∧ u = .record s n fields {} := by
  have ht : (record (.ofString "point") pointMembers [("total", .bool false)] {}).1 =
      .ok (.record 0 "point" [("x", .primitive .int)] { total := false }) := rfl
  have hdistinct : ∀ k ∈ [("total", Value.bool false)] :: backAndForth, Knobs.Distinct k := by
    unfold backAndForth Knobs.Distinct
    decide
  have hvalid : ∀ k ∈ backAndForth, ∃ p, Policy.validate k = .ok p := by
    intro k hk
    simp only [backAndForth, List.mem_cons, List.not_mem_nil, or_false] at hk
    rcases hk with rfl | rfl
    · exact ⟨_, rfl⟩
    · exact ⟨_, rfl⟩
  obtain ⟨n, fields, made, hmade, hlength, -, hrecords⟩ :=
    overrides_last_given hdistinct ht hvalid {}
  obtain ⟨u, hu⟩ : ∃ u, made[2]? = some u :=
    ⟨_, List.getElem?_eq_getElem (by rw [hlength]; decide)⟩
  obtain ⟨⟨s, hrecord⟩, -⟩ := hrecords 2 u hu
  exact ⟨_, made, ht, hmade, s, n, fields, u, hu, hrecord⟩

end Construct

end Conformance

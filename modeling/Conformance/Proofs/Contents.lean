/- What a mapping contains, apart from the order of its keys and the classes of the containers in it.
   A copy of plain data contains the same, and so do the fields that a model hands to its
   invariant. -/
import Mathlib.Data.List.Nodup
import Conformance.Model
namespace Conformance

namespace Value

mutual

/-- Plain data: no schemas, no container within itself, and only keys and elements of sets that can
be such. -/
def isPlain : Value → Bool
  | .list _ items | .tuple _ items => arePlain items
  | .set _ items => arePlain items && (unhashableItem? items).isNone
  | .mapping _ entries => entriesPlain entries
  | .loopList _ | .loopMapping _ | .schema _ => false
  | _ => true
termination_by structural v => v

def arePlain : List Value → Bool
  | [] => true
  | v :: vs => isPlain v && arePlain vs
termination_by structural vs => vs

def entriesPlain : List (Value × Value) → Bool
  | [] => true
  | (k, v) :: rest =>
    isPlain k && (unhashable? k).isNone && isPlain v && entriesPlain rest
termination_by structural es => es

end

mutual

/-- The value with all its containers of the base classes. -/
def contents : Value → Value
  | .list _ items => .list .base (contentsOfItems items)
  | .tuple _ items => .tuple .base (contentsOfItems items)
  | .set frozen items => .set frozen (contentsOfItems items)
  | .mapping _ entries => .mapping (.plain .base) (contentsOfEntries entries)
  | v => v
termination_by structural v => v

def contentsOfItems : List Value → List Value
  | [] => []
  | v :: vs => contents v :: contentsOfItems vs
termination_by structural vs => vs

def contentsOfEntries : List (Value × Value) → List (Value × Value)
  | [] => []
  | (k, v) :: rest => (contents k, contents v) :: contentsOfEntries rest
termination_by structural es => es

end

def fieldContents : Value × Value → Value × Value
  | (.text _ s, v) => (.ofString s, v.contents)
  | (k, v) => (k.contents, v.contents)

/-- Mappings with the same contents, in some order. -/
def SameContents (v w : Value) : Prop :=
  ∃ entries entries', v.entries? = some entries ∧ w.entries? = some entries' ∧
    (entries.map fieldContents).Perm (entries'.map fieldContents)

mutual

/-- Plain data can be copied. The copy contains the same, and can be a key if the original can. -/
theorem dump?_contents : ∀ v : Value, v.isPlain = true →
    ∃ w, v.dump? = .ok w ∧ w.contents = v.contents ∧ (v.unhashable? = none → w.unhashable? = none)
  | .null, _ | .bool _, _ | .int _ _, _ | .float _ _, _ | .text _ _, _ | .octets _ _, _
  | .func _, _ | .object _ _ _, _ => ⟨_, rfl, rfl, id⟩
  | .list l items, h => by
    obtain ⟨ws, hdump, hcontents, _⟩ := dumps?_contents items h
    refine ⟨.list .base ws, ?_, ?_, nofun⟩
    · rw [dump?, hdump]
      rfl
    · rw [contents, contents, hcontents]
  | .tuple l items, h => by
    obtain ⟨ws, hdump, hcontents, hhash⟩ := dumps?_contents items h
    refine ⟨.tuple .base ws, ?_, ?_, hhash⟩
    · rw [dump?, hdump]
      rfl
    · rw [contents, contents, hcontents]
  | .set frozen items, h => by
    obtain ⟨hplain, hkeys⟩ := (Bool.and_eq_true _ _).mp h
    obtain ⟨ws, hdump, hcontents, hhash⟩ := dumps?_contents items hplain
    refine ⟨.set frozen ws, ?_, ?_, ?_⟩
    · rw [dump?, hdump]
      change copiedSet frozen ws = _
      rw [copiedSet, hhash (Option.isNone_iff_eq_none.mp hkeys)]
    · rw [contents, contents, hcontents]
    · cases frozen with
      | false => exact nofun
      | true => exact fun _ => rfl
  | .mapping kind entries, h => by
    obtain ⟨es, hdump, hcontents⟩ := dumpEntries?_contents entries h
    cases kind with
    | plain l =>
      refine ⟨.mapping (.plain .base) es, ?_, ?_, nofun⟩
      · rw [dump?, hdump]
        rfl
      · rw [contents, contents, hcontents]
    | ordered =>
      refine ⟨.mapping .ordered es, ?_, ?_, nofun⟩
      · rw [dump?, hdump]
        rfl
      · rw [contents, contents, hcontents]
    | readOnly => exact ⟨_, rfl, rfl, id⟩
  | .loopList _, h | .loopMapping _, h | .schema _, h => nomatch h
termination_by structural v => v

theorem dumps?_contents : ∀ vs : List Value, arePlain vs = true →
    ∃ ws, dumps? vs = .ok ws ∧ contentsOfItems ws = contentsOfItems vs ∧
      (unhashableItem? vs = none → unhashableItem? ws = none)
  | [], _ => ⟨[], rfl, rfl, id⟩
  | v :: vs, h => by
    obtain ⟨hv, hvs⟩ := (Bool.and_eq_true _ _).mp h
    obtain ⟨w, hdump, hcontents, hhash⟩ := dump?_contents v hv
    obtain ⟨ws, hdumps, hrest, hhashes⟩ := dumps?_contents vs hvs
    refine ⟨w :: ws, ?_, ?_, ?_⟩
    · rw [dumps?, hdump, hdumps]
      rfl
    · rw [contentsOfItems, contentsOfItems, hcontents, hrest]
    · intro hnone
      rw [unhashableItem?] at hnone ⊢
      split at hnone
      next => cases hnone
      next hkey =>
        rw [hhash hkey]
        exact hhashes hnone
termination_by structural vs => vs

theorem dumpEntries?_contents : ∀ entries : List (Value × Value), entriesPlain entries = true →
    ∃ es, dumpEntries? entries = .ok es ∧ contentsOfEntries es = contentsOfEntries entries
  | [], _ => ⟨[], rfl, rfl⟩
  | (k, v) :: rest, h => by
    obtain ⟨hentry, hrest⟩ := (Bool.and_eq_true _ _).mp h
    obtain ⟨hkey, hv⟩ := (Bool.and_eq_true _ _).mp hentry
    obtain ⟨hk, hhashable⟩ := (Bool.and_eq_true _ _).mp hkey
    obtain ⟨l, hdumpKey, hcontentsKey, hhash⟩ := dump?_contents k hk
    obtain ⟨w, hdump, hcontents, _⟩ := dump?_contents v hv
    obtain ⟨es, hdumps, hcontentsRest⟩ := dumpEntries?_contents rest hrest
    have hcopied : copiedKey l = .ok l := by
      rw [copiedKey, hhash (Option.isNone_iff_eq_none.mp hhashable)]
    refine ⟨(l, w) :: es, ?_, ?_⟩
    · rw [dumpEntries?, hdumpKey]
      change (copiedKey l >>= _) = _
      rw [hcopied, hdump, hdumps]
      rfl
    · rw [contentsOfEntries, contentsOfEntries, hcontentsKey, hcontents, hcontentsRest]
termination_by structural es => es

end

end Value

/-- Named data: the content of a mapping, or the arguments that a model is made an instance from. -/
abbrev Data := List (Name × Value)

namespace Data

def mapping (kind : MappingKind) (d : Data) : Value :=
  .mapping kind (d.map fun e => (.ofName e.1, e.2))

def arguments (d : Data) : List (String × Value) := d.map fun e => (e.1.text, e.2)

def Distinct (d : Data) : Prop := (d.map (·.1.text)).Nodup

instance (d : Data) : Decidable d.Distinct :=
  inferInstanceAs (Decidable (d.map (·.1.text)).Nodup)

/-- Names with the contents of their values. -/
def shown (d : Data) : List (String × Value) := d.map fun e => (e.1.text, e.2.contents)

theorem shown_eq (d : Data) : d.shown = d.arguments.map fun g => (g.1, g.2.contents) := by
  rw [shown, arguments, List.map_map]
  rfl

theorem mapping_sameContents {d given : Data} (h : given.shown.Perm d.shown)
    (kind kind' : MappingKind) : (d.mapping kind).SameContents (given.mapping kind') := by
  have hfields : ∀ d : Data, (d.map fun e => (Value.ofName e.1, e.2)).map Value.fieldContents =
      d.shown.map fun e => (.ofString e.1, e.2) := by
    intro d
    rw [shown, List.map_map, List.map_map]
    rfl
  refine ⟨_, _, rfl, rfl, ?_⟩
  rw [hfields, hfields]
  exact (h.map _).symm

/-- A copy of plain named data has their names, and values with the contents of theirs. -/
theorem dump?_mapping {d : Data} (hplain : ∀ e ∈ d, e.2.isPlain = true) :
    ∃ given : Data, (d.mapping (.plain .base)).dump? = .ok (given.mapping (.plain .base)) ∧
      given.map (·.1) = d.map (·.1) ∧ given.shown = d.shown := by
  have hentries : ∃ given : Data,
      Value.dumpEntries? (d.map fun e => (.ofName e.1, e.2)) =
        .ok (given.map fun e => (.ofName e.1, e.2)) ∧
      given.map (·.1) = d.map (·.1) ∧ given.shown = d.shown := by
    induction d with
    | nil => exact ⟨[], rfl, rfl, rfl⟩
    | cons e d ih =>
      obtain ⟨he, hd⟩ := List.forall_mem_cons.mp hplain
      obtain ⟨w, hdump, hcontents, -⟩ := Value.dump?_contents e.2 he
      obtain ⟨given, hdumps, hnames, hshown⟩ := ih hd
      refine ⟨(e.1, w) :: given, ?_, congrArg (e.1 :: ·) hnames, ?_⟩
      · rw [List.map_cons, Value.dumpEntries?, hdump, hdumps]
        rfl
      · change (e.1.text, w.contents) :: given.shown = (e.1.text, e.2.contents) :: shown d
        rw [hcontents, hshown]
  obtain ⟨given, hdumps, hgiven⟩ := hentries
  refine ⟨given, ?_, hgiven⟩
  rw [mapping, Value.dump?, hdumps]
  rfl

theorem arguments_keys (d : Data) : d.arguments.map (·.1) = d.map (·.1.text) := by
  rw [arguments, List.map_map]
  rfl

theorem lookup?_mapping (d : Data) (key : String) :
    lookup? (.ofString key) (d.map fun e => (.ofName e.1, e.2)) = d.arguments.lookup key := by
  induction d with
  | nil => rfl
  | cons e d ih =>
    have hsame : (Value.ofName e.1).same (.ofString key) = (key == e.1.text) := Bool.beq_comm
    unfold lookup? at ih ⊢
    rw [arguments, List.map_cons, List.map_cons, List.find?_cons, List.lookup_cons, hsame]
    cases key == e.1.text with
    | true => rfl
    | false => exact ih

end Data

/-- With no key twice, what is found is what is there. -/
theorem lookup_eq_some_iff_mem {given : List (String × Value)} (h : (given.map (·.1)).Nodup)
    {key : String} {v : Value} : given.lookup key = some v ↔ (key, v) ∈ given := by
  induction given with
  | nil => simp
  | cons g given ih =>
    obtain ⟨hfresh, hrest⟩ := List.nodup_cons.mp h
    rw [List.lookup_cons, List.mem_cons]
    by_cases hkey : key = g.1
    · subst hkey
      have hnot : (g.1, v) ∉ given := fun hmem => hfresh (List.mem_map.mpr ⟨_, hmem, rfl⟩)
      simp [hnot, Prod.ext_iff, eq_comm]
    · have hne : (key, v) ≠ g := fun heq => hkey (congrArg Prod.fst heq)
      simp only [beq_false_of_ne hkey, hne, false_or]
      exact ih hrest

namespace Model

/-- All that is given, as the invariant is handed it: the fields first, with the names of the
model. -/
def handed (m : Model) (given : List (String × Value)) : Data :=
  m.givenFields given ++ (m.surplus given).map fun g => (⟨.base, g.1⟩, g.2)

theorem invariantArgument?_eq (m : Model) (given : List (String × Value)) :
    m.invariantArgument? given = ((m.handed given).mapping (.plain .base)).dump? := by
  rw [invariantArgument?, Data.mapping, handed, List.map_append, List.map_map]
  rfl

theorem givenFields_sublist (m : Model) (given : List (String × Value)) :
    ((m.givenFields given).map (·.1.text)).Sublist (m.fields.map (·.1.text)) := by
  unfold givenFields
  induction m.fields with
  | nil => exact .slnil
  | cons f fields ih =>
    rw [List.filterMap_cons, List.map_cons]
    cases given.lookup f.1.text with
    | none => exact ih.cons _
    | some v => exact ih.cons_cons _

theorem mem_givenFields {m : Model} {given : List (String × Value)} {key : String} {v : Value} :
    (key, v) ∈ Data.arguments (m.givenFields given) ↔
      given.lookup key = some v ∧ ∃ f ∈ m.fields, f.1.text = key := by
  simp only [Data.arguments, givenFields, List.mem_map, List.mem_filterMap,
    Option.map_eq_some_iff]
  constructor
  · rintro ⟨_, ⟨f, hf, w, hw, rfl⟩, heq⟩
    cases heq
    exact ⟨hw, f, hf, rfl⟩
  · rintro ⟨hv, f, hf, rfl⟩
    exact ⟨_, ⟨f, hf, v, hv, rfl⟩, rfl⟩

/-- Nothing that is given gets lost on the way to the invariant, and nothing is added. -/
theorem handed_perm {m : Model} {given : List (String × Value)}
    (hfields : (m.fields.map (·.1.text)).Nodup) (hgiven : (given.map (·.1)).Nodup) :
    (m.handed given).arguments.Perm given := by
  have hknown : (Data.arguments (m.givenFields given)).Perm
      (given.filter fun g => m.fields.any (·.1.text == g.1)) := by
    have hnodup : (Data.arguments (m.givenFields given)).Nodup := by
      refine .of_map Prod.fst ?_
      rw [Data.arguments_keys]
      exact hfields.sublist (m.givenFields_sublist given)
    refine (List.perm_ext_iff_of_nodup hnodup (hgiven.of_map.filter _)).mpr ?_
    rintro ⟨key, v⟩
    rw [mem_givenFields, List.mem_filter, lookup_eq_some_iff_mem hgiven]
    simp
  have hrest : (m.handed given).arguments =
      Data.arguments (m.givenFields given) ++ m.surplus given := by
    rw [handed, Data.arguments, List.map_append, List.map_map]
    exact congrArg _ (List.map_id _)
  rw [hrest]
  exact (hknown.append_right _).trans (List.filter_append_perm _ given)

/-- The invariant is asked about what was given, under the names that are handed over. -/
theorem invariantArgument?_given {m : Model} (hfields : (m.fields.map (·.1.text)).Nodup)
    {d : Data} (hdistinct : d.Distinct) (hplain : ∀ e ∈ d, e.2.isPlain = true) :
    ∃ given : Data, m.invariantArgument? d.arguments = .ok (given.mapping (.plain .base)) ∧
      given.map (·.1) = (m.handed d.arguments).map (·.1) ∧ given.shown.Perm d.shown := by
  have hkeys : (d.arguments.map (·.1)).Nodup := by
    rw [Data.arguments_keys]
    exact hdistinct
  have hperm := handed_perm hfields hkeys
  have hhanded : ∀ e ∈ m.handed d.arguments, e.2.isPlain = true := by
    intro f hf
    obtain ⟨e, he, heq⟩ := List.mem_map.mp (hperm.subset (List.mem_map_of_mem hf))
    rw [← (Prod.mk.inj heq).2]
    exact hplain e he
  obtain ⟨given, hdump, hnames, hshown⟩ := Data.dump?_mapping hhanded
  refine ⟨given, (invariantArgument?_eq m d.arguments).trans hdump, hnames, ?_⟩
  rw [hshown, Data.shown_eq, Data.shown_eq]
  exact hperm.map _

theorem invariantArgument?_sameContents {m : Model} (hfields : (m.fields.map (·.1.text)).Nodup)
    {d : Data} (hdistinct : d.Distinct) (hplain : ∀ e ∈ d, e.2.isPlain = true)
    (kind : MappingKind) :
    ∃ w, m.invariantArgument? d.arguments = .ok w ∧ (d.mapping kind).SameContents w := by
  obtain ⟨given, hargument, -, hshown⟩ := invariantArgument?_given hfields hdistinct hplain
  exact ⟨_, hargument, Data.mapping_sameContents hshown kind _⟩

end Model

end Conformance

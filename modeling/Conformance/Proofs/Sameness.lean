/- Equality of values is an equivalence on those in which nothing is no number and no mapping is
   ordered. So an enumeration of such values depends on their classes only. -/
import Mathlib.Data.List.Forall2
import Conformance.Proofs.Reaching
namespace Conformance

variable {σ : Type}

namespace Place

theorem same_iff {p q : Place} : p.same q = true ↔ p = q ∧ p ≠ .nowhere := by
  cases p <;> cases q <;> simp [same]

end Place

namespace Value

/-- Values of the built-in classes whose equality is one: nothing is no number, no mapping is
ordered, and what a set or a mapping holds differs, as do its keys. -/
inductive Ordinary : Value → Prop
  | null : Ordinary .null
  | bool (b) : Ordinary (.bool b)
  | int (l n) : Ordinary (.int l n)
  | float {l x} : (∀ mark, x ≠ .nan mark) → Ordinary (.float l x)
  | text (l s) : Ordinary (.text l s)
  | octets (m data) : Ordinary (.octets m data)
  | list {items} (l) : (∀ x ∈ items, Ordinary x) → Ordinary (.list l items)
  | tuple {items} (l) : (∀ x ∈ items, Ordinary x) → Ordinary (.tuple l items)
  | set {items} (frozen) : (∀ x ∈ items, Ordinary x) →
      items.Pairwise (fun x y => x.same y = false) → Ordinary (.set frozen items)
  | mapping {kind entries} : kind ≠ .ordered → (∀ e ∈ entries, Ordinary e.1) →
      (∀ e ∈ entries, Ordinary e.2) → entries.Pairwise (fun d e => d.1.same e.1 = false) →
      Ordinary (.mapping kind entries)

/-- What containers ask of their parts: to be equal, or to be the same one that is no number. -/
def alike (x y : Value) : Bool := sameNan x y || same x y

def entryAlike (d e : Value × Value) : Bool := d.1.alike e.1 && d.2.alike e.2

theorem Ordinary.alike_eq {x : Value} (h : Ordinary x) (y : Value) : x.alike y = x.same y := by
  have hnan : sameNan x y = false := by
    cases h with
    | float hx =>
      unfold sameNan
      split
      next mark _ _ heq =>
        cases heq
        exact absurd rfl (hx mark)
      next => rfl
    | _ => rfl
  rw [alike, hnan, Bool.false_or]

section Inversion

variable {w : Value}

theorem null_same_iff : null.same w = true ↔ w = .null := by
  cases w <;> simp [same]

theorem text_same_iff {l : Lineage} {s : String} :
    (text l s).same w = true ↔ ∃ l', .text l' s = w := by
  cases w <;> simp [same]

theorem octets_same_iff {m : Bool} {data : List UInt8} :
    (octets m data).same w = true ↔ ∃ m', .octets m' data = w := by
  cases w <;> simp [same]

/-- Numbers of all kinds go by their places. -/
theorem same_iff_place {v : Value} {p : Place} (hv : v.place? = some p) :
    v.same w = true ↔ w.place? = some p ∧ p ≠ .nowhere := by
  have hsame : v.same w = w.place?.any p.same := by
    cases v with
    | bool b =>
      cases hv
      rfl
    | int l n =>
      cases hv
      rfl
    | float l x =>
      cases hv
      rfl
    | _ => cases hv
  rw [hsame, Option.any_eq_true]
  constructor
  · rintro ⟨q, hq, hpq⟩
    obtain ⟨rfl, hp⟩ := Place.same_iff.mp hpq
    exact ⟨hq, hp⟩
  · rintro ⟨hw, hp⟩
    exact ⟨p, hw, Place.same_iff.mpr ⟨rfl, hp⟩⟩

theorem sameItems_iff {xs ys : List Value} :
    sameItems xs ys = true ↔ List.Forall₂ (fun x y => x.alike y = true) xs ys := by
  induction xs generalizing ys with
  | nil => cases ys <;> simp [sameItems]
  | cons x xs ih => cases ys <;> simp [sameItems, ih, alike]

theorem itemsAmong_iff {xs ys : List Value} :
    itemsAmong xs ys = true ↔ ∀ x ∈ xs, ∃ y ∈ ys, x.alike y = true := by
  induction xs with
  | nil => simp [itemsAmong]
  | cons x xs ih => simp [itemsAmong, ih, alike]

theorem entriesAmong_iff {ds es : List (Value × Value)} :
    entriesAmong ds es = true ↔ ∀ d ∈ ds, ∃ e ∈ es, entryAlike d e = true := by
  induction ds with
  | nil => simp [entriesAmong]
  | cons d ds ih => simp [entriesAmong, ih, entryAlike, alike]

theorem list_same_iff {l : Lineage} {xs : List Value} : (list l xs).same w = true ↔
    ∃ l' ys, w = .list l' ys ∧ List.Forall₂ (fun x y => x.alike y = true) xs ys := by
  cases w <;> simp [same, sameItems_iff]

theorem tuple_same_iff {l : Lineage} {xs : List Value} : (tuple l xs).same w = true ↔
    ∃ l' ys, w = .tuple l' ys ∧ List.Forall₂ (fun x y => x.alike y = true) xs ys := by
  cases w <;> simp [same, sameItems_iff]

theorem set_same_iff {frozen : Bool} {xs : List Value} : (set frozen xs).same w = true ↔
    ∃ frozen' ys, w = .set frozen' ys ∧ xs.length = ys.length ∧
      ∀ x ∈ xs, ∃ y ∈ ys, x.alike y = true := by
  cases w <;> simp [same, itemsAmong_iff]

theorem mapping_same_iff {kind : MappingKind} (hkind : kind ≠ .ordered)
    {ds : List (Value × Value)} : (mapping kind ds).same w = true ↔
      ∃ kind' es, w = .mapping kind' es ∧ ds.length = es.length ∧
        ∀ d ∈ ds, ∃ e ∈ es, entryAlike d e = true := by
  cases w <;> simp [same, entriesAmong_iff, hkind]

end Inversion

section Partners

variable {α : Type} {R : α → α → Prop} {xs ys : List α}

/-- Where each of these has a partner among as many others, and no two of them the same one, none of
the others is left without. -/
theorem exists_partner (hlength : xs.length = ys.length)
    (hapart : xs.Pairwise fun x x' => ∀ y ∈ ys, R x y → ¬ R x' y)
    (hpartner : ∀ x ∈ xs, ∃ y ∈ ys, R x y) : ∀ y ∈ ys, ∃ x ∈ xs, R x y := by
  induction xs generalizing ys with
  | nil =>
    rw [List.eq_nil_of_length_eq_zero hlength.symm]
    simp
  | cons x xs ih =>
    obtain ⟨hx, hxs⟩ := List.pairwise_cons.mp hapart
    obtain ⟨⟨y, hy, hxy⟩, hrest⟩ := List.forall_mem_cons.mp hpartner
    -- The partner of the first is taken out; it is no partner of the rest.
    obtain ⟨before, after, rfl⟩ := List.append_of_mem hy
    have hmem : ∀ z, z ∈ before ++ y :: after ↔ z = y ∨ z ∈ before ++ after := by grind
    have hothers : ∀ x' ∈ xs, ∃ z ∈ before ++ after, R x' z := by
      intro x' hx'
      obtain ⟨z, hz, hxz⟩ := hrest x' hx'
      rcases (hmem z).mp hz with rfl | hz
      · exact absurd hxz (hx x' hx' z hy hxy)
      · exact ⟨z, hz, hxz⟩
    have hfewer : xs.length = (before ++ after).length := by
      simp only [List.length_cons, List.length_append] at hlength ⊢
      omega
    have hxs' : xs.Pairwise fun x x' => ∀ z ∈ before ++ after, R x z → ¬ R x' z :=
      hxs.imp fun happart z hz => happart z ((hmem z).mpr (.inr hz))
    intro z hz
    rcases (hmem z).mp hz with rfl | hz
    · exact ⟨x, List.mem_cons_self, hxy⟩
    · obtain ⟨x', hx', hxz⟩ := ih hfewer hxs' hothers z hz
      exact ⟨x', List.mem_cons_of_mem x hx', hxz⟩

end Partners

/-- That this value is alike another can be turned round, and passed on. -/
structure Turns (v : Value) : Prop where
  symm : ∀ {w}, Ordinary w → v.alike w = true → w.alike v = true
  trans : ∀ {w u}, Ordinary w → Ordinary u → v.alike w = true → w.alike u = true →
    v.alike u = true

namespace Turns

theorem ofSame {v : Value} (hv : Ordinary v)
    (hsymm : ∀ w, Ordinary w → v.same w = true → w.same v = true)
    (htrans : ∀ w u, Ordinary w → Ordinary u → v.same w = true → w.same u = true →
      v.same u = true) : Turns v where
  symm := by
    intro w hw
    rw [hv.alike_eq, hw.alike_eq]
    exact hsymm w hw
  trans := by
    intro w u hw hu
    rw [hv.alike_eq, hw.alike_eq, hv.alike_eq]
    exact htrans w u hw hu

theorem ofPlace {v : Value} (hv : Ordinary v) {p : Place} (hp : v.place? = some p) : Turns v := by
  refine .ofSame hv (fun w _ hvw => ?_) (fun w u _ _ hvw hwu => ?_)
  · obtain ⟨hw, hnumber⟩ := (same_iff_place hp).mp hvw
    exact (same_iff_place hw).mpr ⟨hp, hnumber⟩
  · obtain ⟨hw, _⟩ := (same_iff_place hp).mp hvw
    exact (same_iff_place hp).mpr ((same_iff_place hw).mp hwu)

/-- What differs from this is not alike the same thing. -/
theorem apart {x x' y : Value} (hx : Turns x) (hx' : Turns x') (hordinary : Ordinary x')
    (hy : Ordinary y) (hdiffer : x.alike x' = false) (hxy : x.alike y = true) :
    x'.alike y ≠ true := by
  intro hxy'
  have halike := hx.trans hy hordinary hxy (hx'.symm hy hxy')
  exact nomatch hdiffer.symm.trans halike

section Items

variable {xs ys zs : List Value}

theorem items_symm (hxs : ∀ x ∈ xs, Turns x) (hys : ∀ y ∈ ys, Ordinary y)
    (h : List.Forall₂ (fun x y => x.alike y = true) xs ys) :
    List.Forall₂ (fun y x => y.alike x = true) ys xs := by
  induction h with
  | nil => exact .nil
  | cons hxy _ ih =>
    obtain ⟨hx, hxs⟩ := List.forall_mem_cons.mp hxs
    obtain ⟨hy, hys⟩ := List.forall_mem_cons.mp hys
    exact .cons (hx.symm hy hxy) (ih hxs hys)

theorem items_trans (hxs : ∀ x ∈ xs, Turns x) (hys : ∀ y ∈ ys, Ordinary y)
    (hzs : ∀ z ∈ zs, Ordinary z) (hxy : List.Forall₂ (fun x y => x.alike y = true) xs ys)
    (hyz : List.Forall₂ (fun y z => y.alike z = true) ys zs) :
    List.Forall₂ (fun x z => x.alike z = true) xs zs := by
  induction hxy generalizing zs with
  | nil => exact hyz
  | cons hxy _ ih =>
    cases hyz with
    | cons hyz hrest =>
      obtain ⟨hx, hxs⟩ := List.forall_mem_cons.mp hxs
      obtain ⟨hy, hys⟩ := List.forall_mem_cons.mp hys
      obtain ⟨hz, hzs⟩ := List.forall_mem_cons.mp hzs
      exact .cons (hx.trans hy hz hxy hyz) (ih hxs hys hzs hrest)

theorem list (l : Lineage) (hordinary : ∀ x ∈ xs, Ordinary x) (hxs : ∀ x ∈ xs, Turns x) :
    Turns (.list l xs) := by
  refine .ofSame (.list l hordinary) (fun w hw hsame => ?_) (fun w u hw hu hsame hnext => ?_)
  · obtain ⟨l', ys, rfl, hxy⟩ := list_same_iff.mp hsame
    cases hw with
    | list _ hys => exact list_same_iff.mpr ⟨l, xs, rfl, items_symm hxs hys hxy⟩
  · obtain ⟨_, ys, rfl, hxy⟩ := list_same_iff.mp hsame
    obtain ⟨l', zs, rfl, hyz⟩ := list_same_iff.mp hnext
    cases hw with
    | list _ hys =>
      cases hu with
      | list _ hzs => exact list_same_iff.mpr ⟨l', zs, rfl, items_trans hxs hys hzs hxy hyz⟩

theorem tuple (l : Lineage) (hordinary : ∀ x ∈ xs, Ordinary x) (hxs : ∀ x ∈ xs, Turns x) :
    Turns (.tuple l xs) := by
  refine .ofSame (.tuple l hordinary) (fun w hw hsame => ?_) (fun w u hw hu hsame hnext => ?_)
  · obtain ⟨l', ys, rfl, hxy⟩ := tuple_same_iff.mp hsame
    cases hw with
    | tuple _ hys => exact tuple_same_iff.mpr ⟨l, xs, rfl, items_symm hxs hys hxy⟩
  · obtain ⟨_, ys, rfl, hxy⟩ := tuple_same_iff.mp hsame
    obtain ⟨l', zs, rfl, hyz⟩ := tuple_same_iff.mp hnext
    cases hw with
    | tuple _ hys =>
      cases hu with
      | tuple _ hzs => exact tuple_same_iff.mpr ⟨l', zs, rfl, items_trans hxs hys hzs hxy hyz⟩

/-- What a set holds differs, so a set of the same size that has it all has nothing else. -/
theorem set (frozen : Bool) (hordinary : ∀ x ∈ xs, Ordinary x)
    (hdiffer : xs.Pairwise fun x y => x.same y = false) (hxs : ∀ x ∈ xs, Turns x) :
    Turns (.set frozen xs) := by
  refine .ofSame (.set frozen hordinary hdiffer) (fun w hw hsame => ?_)
    (fun w u hw hu hsame hnext => ?_)
  · obtain ⟨frozen', ys, rfl, hlength, hamong⟩ := set_same_iff.mp hsame
    cases hw with
    | set _ hys _ =>
      have hapart : xs.Pairwise fun x x' => ∀ y ∈ ys, x.alike y = true → x'.alike y ≠ true := by
        refine hdiffer.imp_of_mem fun {x x'} hx hx' hne y hy => ?_
        rw [← (hordinary x hx).alike_eq] at hne
        exact (hxs x hx).apart (hxs x' hx') (hordinary x' hx') (hys y hy) hne
      refine set_same_iff.mpr ⟨frozen, xs, rfl, hlength.symm, fun y hy => ?_⟩
      obtain ⟨x, hx, hxy⟩ := exists_partner hlength hapart hamong y hy
      exact ⟨x, hx, (hxs x hx).symm (hys y hy) hxy⟩
  · obtain ⟨_, ys, rfl, hlength, hamong⟩ := set_same_iff.mp hsame
    obtain ⟨frozen', zs, rfl, hlength', hamong'⟩ := set_same_iff.mp hnext
    cases hw with
    | set _ hys _ =>
      cases hu with
      | set _ hzs _ =>
        refine set_same_iff.mpr ⟨frozen', zs, rfl, hlength.trans hlength', fun x hx => ?_⟩
        obtain ⟨y, hy, hxy⟩ := hamong x hx
        obtain ⟨z, hz, hyz⟩ := hamong' y hy
        exact ⟨z, hz, (hxs x hx).trans (hys y hy) (hzs z hz) hxy hyz⟩

end Items

theorem mapping {kind : MappingKind} {ds : List (Value × Value)} (hkind : kind ≠ .ordered)
    (hkeys : ∀ d ∈ ds, Ordinary d.1) (hvalues : ∀ d ∈ ds, Ordinary d.2)
    (hdiffer : ds.Pairwise fun d e => d.1.same e.1 = false) (hds : ∀ d ∈ ds, Turns d.1)
    (hds' : ∀ d ∈ ds, Turns d.2) : Turns (.mapping kind ds) := by
  refine .ofSame (.mapping hkind hkeys hvalues hdiffer) (fun w hw hsame => ?_)
    (fun w u hw hu hsame hnext => ?_)
  · obtain ⟨kind', es, rfl, hlength, hamong⟩ := (mapping_same_iff hkind).mp hsame
    cases hw with
    | mapping hkind' hkeys' hvalues' _ =>
      have hapart : ds.Pairwise fun d d' => ∀ e ∈ es,
          entryAlike d e = true → entryAlike d' e ≠ true := by
        refine hdiffer.imp_of_mem fun {d d'} hd hd' hne e he hde hde' => ?_
        rw [← (hkeys d hd).alike_eq] at hne
        simp only [entryAlike, Bool.and_eq_true] at hde hde'
        exact (hds d hd).apart (hds d' hd') (hkeys d' hd') (hkeys' e he) hne hde.1 hde'.1
      refine (mapping_same_iff hkind').mpr ⟨kind, ds, rfl, hlength.symm, fun e he => ?_⟩
      obtain ⟨d, hd, hde⟩ := exists_partner hlength hapart hamong e he
      refine ⟨d, hd, ?_⟩
      simp only [entryAlike, Bool.and_eq_true] at hde ⊢
      exact ⟨(hds d hd).symm (hkeys' e he) hde.1, (hds' d hd).symm (hvalues' e he) hde.2⟩
  · obtain ⟨_, es, rfl, hlength, hamong⟩ := (mapping_same_iff hkind).mp hsame
    cases hw with
    | mapping hkind' hkeys' hvalues' _ =>
      obtain ⟨kind', gs, rfl, hlength', hamong'⟩ := (mapping_same_iff hkind').mp hnext
      cases hu with
      | mapping _ hkeys'' hvalues'' _ =>
        refine (mapping_same_iff hkind).mpr
          ⟨kind', gs, rfl, hlength.trans hlength', fun d hd => ?_⟩
        obtain ⟨e, he, hde⟩ := hamong d hd
        obtain ⟨g, hg, heg⟩ := hamong' e he
        refine ⟨g, hg, ?_⟩
        simp only [entryAlike, Bool.and_eq_true] at hde heg ⊢
        exact ⟨(hds d hd).trans (hkeys' e he) (hkeys'' g hg) hde.1 heg.1,
          (hds' d hd).trans (hvalues' e he) (hvalues'' g hg) hde.2 heg.2⟩

end Turns

namespace Ordinary

variable {u v w : Value}

theorem turns (h : Ordinary v) : Turns v := by
  induction h with
  | null =>
    refine .ofSame .null (fun w _ hsame => ?_) (fun w u _ _ hsame hnext => ?_)
    · rw [null_same_iff.mp hsame]
      rfl
    · rwa [null_same_iff.mp hsame] at hnext
  | bool b => exact .ofPlace (.bool b) rfl
  | int l n => exact .ofPlace (.int l n) rfl
  | float hx => exact .ofPlace (.float hx) rfl
  | text l s =>
    refine .ofSame (.text l s) (fun w _ hsame => ?_) (fun w u _ _ hsame hnext => ?_)
    · obtain ⟨l', rfl⟩ := text_same_iff.mp hsame
      exact text_same_iff.mpr ⟨l, rfl⟩
    · obtain ⟨l', rfl⟩ := text_same_iff.mp hsame
      exact text_same_iff.mpr (text_same_iff.mp hnext)
  | octets m data =>
    refine .ofSame (.octets m data) (fun w _ hsame => ?_) (fun w u _ _ hsame hnext => ?_)
    · obtain ⟨m', rfl⟩ := octets_same_iff.mp hsame
      exact octets_same_iff.mpr ⟨m, rfl⟩
    · obtain ⟨m', rfl⟩ := octets_same_iff.mp hsame
      exact octets_same_iff.mpr (octets_same_iff.mp hnext)
  | list l hitems ih => exact .list l hitems ih
  | tuple l hitems ih => exact .tuple l hitems ih
  | set frozen hitems hdiffer ih => exact .set frozen hitems hdiffer ih
  | mapping hkind hkeys hvalues hdiffer ihkeys ihvalues =>
    exact .mapping hkind hkeys hvalues hdiffer ihkeys ihvalues

theorem same_self (h : Ordinary v) : v.same v = true := by
  induction h with
  | null => rfl
  | bool b => exact (same_iff_place rfl).mpr ⟨rfl, nofun⟩
  | int l n => exact (same_iff_place rfl).mpr ⟨rfl, nofun⟩
  | @float l x hx =>
    refine (same_iff_place rfl).mpr ⟨rfl, ?_⟩
    cases x with
    | nan mark => exact absurd rfl (hx mark)
    | infinity negative => cases negative <;> nofun
    | finite negative units => nofun
  | text l s => exact text_same_iff.mpr ⟨l, rfl⟩
  | octets m data => exact octets_same_iff.mpr ⟨m, rfl⟩
  | @list items l hitems ih =>
    refine list_same_iff.mpr ⟨l, items, rfl, List.forall₂_same.mpr fun x hx => ?_⟩
    rw [(hitems x hx).alike_eq]
    exact ih x hx
  | @tuple items l hitems ih =>
    refine tuple_same_iff.mpr ⟨l, items, rfl, List.forall₂_same.mpr fun x hx => ?_⟩
    rw [(hitems x hx).alike_eq]
    exact ih x hx
  | @set items frozen hitems _ ih =>
    refine set_same_iff.mpr ⟨frozen, items, rfl, rfl, fun x hx => ⟨x, hx, ?_⟩⟩
    rw [(hitems x hx).alike_eq]
    exact ih x hx
  | @mapping kind entries hkind hkeys hvalues _ ihkeys ihvalues =>
    refine (mapping_same_iff hkind).mpr ⟨kind, entries, rfl, rfl, fun e he => ⟨e, he, ?_⟩⟩
    rw [entryAlike, (hkeys e he).alike_eq, (hvalues e he).alike_eq, ihkeys e he, ihvalues e he]
    rfl

theorem same_symm (hv : Ordinary v) (hw : Ordinary w) (h : v.same w = true) :
    w.same v = true := by
  rw [← hv.alike_eq] at h
  rw [← hw.alike_eq]
  exact hv.turns.symm hw h

theorem same_trans (hu : Ordinary u) (hv : Ordinary v) (hw : Ordinary w) (h : u.same v = true)
    (h' : v.same w = true) : u.same w = true := by
  rw [← hu.alike_eq] at h ⊢
  rw [← hv.alike_eq] at h'
  exact hu.turns.trans hv hw h h'

/-- Items that are put in one by one differ. -/
theorem set_put {frozen : Bool} {items : List Value} (h : Ordinary (.set frozen items))
    (hv : Ordinary v) : Ordinary (.set frozen (putItem items v)) := by
  cases h with
  | set _ hitems hdiffer =>
    unfold putItem
    by_cases hthere : items.any (fun x => x.same v) = true
    · rw [if_pos hthere]
      exact .set frozen hitems hdiffer
    · rw [if_neg hthere]
      have hfresh : ∀ x ∈ items, x.same v = false := by simpa using hthere
      refine .set frozen ?_ (List.pairwise_append.mpr ⟨hdiffer, by simp, by simpa using hfresh⟩)
      simpa [or_imp, forall_and] using ⟨hitems, hv⟩

/-- So do the keys of entries, of which an equal key keeps its place and takes the later value. -/
theorem mapping_put {kind : MappingKind} {entries : List (Value × Value)} {key : Value}
    (h : Ordinary (.mapping kind entries)) (hkey : Ordinary key) (hv : Ordinary v) :
    Ordinary (.mapping kind (putEntry entries key v)) := by
  cases h with
  | mapping hkind hkeys hvalues hdiffer =>
    unfold putEntry
    by_cases hthere : entries.any (fun e => e.1.same key) = true
    · rw [if_pos hthere]
      have hkept : ∀ e : Value × Value, (if e.1.same key then (e.1, v) else e).1 = e.1 := by grind
      refine .mapping hkind ?_ ?_ ?_
      · refine List.forall_mem_map.mpr fun e he => ?_
        rw [hkept]
        exact hkeys e he
      · refine List.forall_mem_map.mpr fun e he => ?_
        split
        next => exact hv
        next => exact hvalues e he
      · refine List.pairwise_map.mpr (hdiffer.imp fun hde => ?_)
        rw [hkept, hkept]
        exact hde
    · rw [if_neg hthere]
      have hfresh : ∀ e ∈ entries, e.1.same key = false := by simpa using hthere
      refine .mapping hkind ?_ ?_ (List.pairwise_append.mpr ⟨hdiffer, by simp, ?_⟩)
      · exact List.forall_mem_append.mpr ⟨hkeys, List.forall_mem_singleton.mpr hkey⟩
      · exact List.forall_mem_append.mpr ⟨hvalues, List.forall_mem_singleton.mpr hv⟩
      · simpa using fun k w he => hfresh (k, w) he

end Ordinary

theorem sameMember_iff {v w : Value} :
    v.sameMember w = true ↔ v.isBool = w.isBool ∧ v.same w = true := by
  simp [sameMember]

namespace Ordinary

variable {u v w : Value}

theorem sameMember_symm (hv : Ordinary v) (hw : Ordinary w) (h : v.sameMember w = true) :
    w.sameMember v = true := by
  obtain ⟨hbool, hsame⟩ := sameMember_iff.mp h
  exact sameMember_iff.mpr ⟨hbool.symm, hv.same_symm hw hsame⟩

theorem sameMember_trans (hu : Ordinary u) (hv : Ordinary v) (hw : Ordinary w)
    (h : u.sameMember v = true) (h' : v.sameMember w = true) : u.sameMember w = true := by
  obtain ⟨hbool, hsame⟩ := sameMember_iff.mp h
  obtain ⟨hbool', hsame'⟩ := sameMember_iff.mp h'
  exact sameMember_iff.mpr ⟨hbool.trans hbool', hu.same_trans hv hw hsame hsame'⟩

end Ordinary

/-- To be the same member is an equivalence on ordinary values. -/
theorem sameMember_equivalence :
    Equivalence fun v w : { v : Value // Ordinary v } => v.1.sameMember w.1 = true where
  refl v := sameMember_iff.mpr ⟨rfl, v.2.same_self⟩
  symm {v w} h := v.2.sameMember_symm w.2 h
  trans {u v w} h h' := u.2.sameMember_trans v.2 w.2 h h'

end Value

open Value

/-- Another order, an element once more, or another one of its class in place of an element. -/
inductive Rearranged : List Value → List Value → Prop
  | permuted {es es'} : es.Perm es' → Rearranged es es'
  | repeated {es e} : e ∈ es → Rearranged es (e :: es)
  | replaced {e e'} (before after) : Ordinary e' → e.sameMember e' = true →
      Rearranged (before ++ e :: after) (before ++ e' :: after)
  | trans {es es' es''} : Rearranged es es' → Rearranged es' es'' → Rearranged es es''

namespace Rearranged

variable {es es' : List Value}

theorem ordinary (h : Rearranged es es') (hes : ∀ e ∈ es, Ordinary e) :
    ∀ e ∈ es', Ordinary e := by
  induction h with
  | permuted hperm => exact fun e he => hes e (hperm.mem_iff.mpr he)
  | repeated hmem => exact List.forall_mem_cons.mpr ⟨hes _ hmem, hes⟩
  | replaced before after he' _ =>
    intro x hx
    rcases List.mem_append.mp hx with hx | hx
    · exact hes x (List.mem_append_left _ hx)
    · rcases List.mem_cons.mp hx with rfl | hx
      · exact he'
      · exact hes x (List.mem_append_right _ (List.mem_cons_of_mem _ hx))
  | trans _ _ ih ih' => exact ih' (ih hes)

/-- The same values have their like among the elements. -/
theorem exists_iff (h : Rearranged es es') (hes : ∀ e ∈ es, Ordinary e) {v : Value}
    (hv : Ordinary v) :
    (∃ e ∈ es', v.sameMember e = true) ↔ ∃ e ∈ es, v.sameMember e = true := by
  induction h with
  | permuted hperm => exact exists_congr fun e => and_congr_left fun _ => hperm.mem_iff.symm
  | @repeated es e hmem =>
    rw [List.exists_mem_cons_iff]
    exact or_iff_right_of_imp fun hsame => ⟨e, hmem, hsame⟩
  | @replaced e e' before after he' hsame =>
    have he : Ordinary e := hes e (by simp)
    have hiff : v.sameMember e' = true ↔ v.sameMember e = true := by
      constructor
      · intro h
        exact hv.sameMember_trans he' he h (he.sameMember_symm he' hsame)
      · intro h
        exact hv.sameMember_trans he he' h hsame
    simp only [List.mem_append, List.mem_cons, or_and_right, exists_or, exists_eq_left, hiff]
  | trans h _ ih ih' => exact (ih' (h.ordinary hes)).trans (ih hes)

end Rearranged

namespace Schema

/-- Verification has nothing to say against the value. -/
def Passes (h : Host σ) (s : σ) (t : Schema) (v : Value) : Prop := (t.verify h v s).1 = .ok none

theorem passes_enumeration_iff {h : Host σ} {state : σ} {s : Nat} {n : Name} {elems : List Value}
    {v : Value} : Passes h state (.enumeration s n elems) v ↔
      ∃ e ∈ elems, v.sameMember e = true := by
  change (Except.ok (if elems.any (v.sameMember ·) then none else some _) :
    Except Fault Verdict) = .ok none ↔ _
  rw [Except.ok.injEq, ite_eq_left_iff, ← List.any_eq_true]
  simp

theorem enumeration_passes_or_tells (h : Host σ) (state : σ) (s : Nat) (n : Name)
    (elems : List Value) (v : Value) : Passes h state (.enumeration s n elems) v ∨
      ∃ text, ((Schema.enumeration s n elems).verify h v state).1 = .ok (.because text) := by
  by_cases hany : elems.any (v.sameMember ·) = true
  · exact .inl (congrArg Except.ok (if_pos hany))
  · exact .inr ⟨_, congrArg Except.ok (if_neg hany)⟩

/-- To be the same member of an enumeration is an equivalence, and an enumeration is a test for the
classes of its elements: it passes a value or has a message; it passes each element; of two values
in one class it passes both or neither; and changes that keep the classes of the elements do not
matter. In a class are truth values only, or none. -/
theorem enumeration_by_classes :
    (Equivalence fun v w : { v : Value // Ordinary v } => v.1.sameMember w.1 = true) ∧
    ∀ (h : Host σ) (state : σ) (s : Nat) (n : Name) (elems : List Value),
      (∀ e ∈ elems, Ordinary e) →
      (∀ v, Passes h state (.enumeration s n elems) v ∨
        ∃ text, ((Schema.enumeration s n elems).verify h v state).1 = .ok (.because text)) ∧
      (∀ e ∈ elems, Passes h state (.enumeration s n elems) e) ∧
      (∀ v w, Ordinary v → Ordinary w → v.sameMember w = true →
        (Passes h state (.enumeration s n elems) v ↔
          Passes h state (.enumeration s n elems) w)) ∧
      (∀ s' n' elems', Rearranged elems elems' → ∀ v, Ordinary v →
        (Passes h state (.enumeration s' n' elems') v ↔
          Passes h state (.enumeration s n elems) v)) ∧
      ∀ v, Passes h state (.enumeration s n elems) v →
        ∃ e ∈ elems, v.sameMember e = true ∧ e.isBool = v.isBool := by
  refine ⟨sameMember_equivalence, fun h state s n elems helems =>
    ⟨enumeration_passes_or_tells h state s n elems, ?_, ?_, ?_, ?_⟩⟩
  · intro e he
    exact passes_enumeration_iff.mpr ⟨e, he, sameMember_equivalence.refl ⟨e, helems e he⟩⟩
  · intro v w hv hw hsame
    rw [passes_enumeration_iff, passes_enumeration_iff]
    refine exists_congr fun e => and_congr_right fun he => ⟨fun hve => ?_, fun hwe => ?_⟩
    · exact hw.sameMember_trans hv (helems e he) (hv.sameMember_symm hw hsame) hve
    · exact hv.sameMember_trans hw (helems e he) hsame hwe
  · intro s' n' elems' hchange v hv
    rw [passes_enumeration_iff, passes_enumeration_iff]
    exact hchange.exists_iff helems hv
  · intro v hpass
    obtain ⟨e, he, hsame⟩ := passes_enumeration_iff.mp hpass
    exact ⟨e, he, hsame, (sameMember_iff.mp hsame).1.symm⟩

def oneExactly : Value := .float .base (.finite false Binary64.unitsPerOne)

def nestedElems : List Value :=
  [.list .base [.bool true], .set true [.ofInt 1, .octets false [0]], .bool false]

/-- The elements in another order, and the set with another number and no longer frozen. -/
def nestedChanged : List Value :=
  [.bool false, .set false [.octets false [0], oneExactly], .list .base [.bool true]]

theorem oneExactly_ordinary : Ordinary oneExactly := .float nofun

theorem nestedElems_ordinary : ∀ e ∈ nestedElems, Ordinary e := by
  simp only [nestedElems, List.forall_mem_cons]
  refine ⟨.list _ ?_, .set _ ?_ (List.pairwise_pair.mpr rfl), .bool _, by simp⟩
  · simpa using Ordinary.bool true
  · simpa using ⟨Ordinary.int .base 1, Ordinary.octets false [0]⟩

theorem nestedChanged_rearranged : Rearranged nestedElems nestedChanged := by
  have hordinary : Ordinary (.set false [.octets false [0], oneExactly]) := by
    refine .set _ ?_ (List.pairwise_pair.mpr rfl)
    simpa using ⟨Ordinary.octets false [0], oneExactly_ordinary⟩
  have hreversed : Rearranged nestedElems nestedElems.reverse :=
    .permuted (List.reverse_perm nestedElems).symm
  have hsame : sameMember (.set true [.ofInt 1, .octets false [0]])
      (.set false [.octets false [0], oneExactly]) = true := by
    decide +kernel
  exact hreversed.trans (.replaced [.bool false] [.list .base [.bool true]] hordinary hsame)

/-- Within a list a truth value counts as the number; at the top it does not. -/
theorem enumeration_by_classes_nested :
    Passes (.ofAnswers quietOrLoud) () (.enumeration 1 "changed" nestedChanged)
      (.list .base [oneExactly]) ∧
    ¬ Passes (.ofAnswers quietOrLoud) () (.enumeration 1 "changed" nestedChanged) (.ofInt 0) := by
  obtain ⟨-, htests⟩ := enumeration_by_classes (σ := Unit)
  obtain ⟨-, hself, hclasses, hchanges, hbools⟩ :=
    htests (.ofAnswers quietOrLoud) () 0 "nested" nestedElems nestedElems_ordinary
  have hchanged := hchanges 1 "changed" _ nestedChanged_rearranged
  constructor
  · have hlist : Ordinary (.list .base [oneExactly]) :=
      .list _ (List.forall_mem_singleton.mpr oneExactly_ordinary)
    have htrue : Ordinary (.list .base [.bool true]) :=
      .list _ (List.forall_mem_singleton.mpr (.bool true))
    have hsame : sameMember (.list .base [.bool true]) (.list .base [oneExactly]) = true := by
      decide +kernel
    rw [hchanged _ hlist, ← hclasses _ _ htrue hlist hsame]
    exact hself _ List.mem_cons_self
  · rw [hchanged _ (.int .base 0)]
    intro hpass
    obtain ⟨e, he, hsame, hbool⟩ := hbools _ hpass
    simp only [nestedElems, List.mem_cons, List.not_mem_nil, or_false] at he
    rcases he with rfl | rfl | rfl
    · cases hsame
    · cases hsame
    · cases hbool

/-- Ordered mappings are equal in their order to each other, and in any order to others. -/
example :
    let forth := [(ofInt 1, null), (ofInt 2, null)]
    let back := [(ofInt 2, null), (ofInt 1, null)]
    (mapping .ordered forth).same (mapping (.plain .base) back) = true ∧
    (mapping (.plain .base) back).same (mapping .ordered back) = true ∧
    (mapping .ordered forth).same (mapping .ordered back) = false := by
  decide +kernel

end Schema

end Conformance

/- The names of schemas that are made of primitives alone tell how they were made. A reader with a
   stack of open brackets gets the expression back from the name, letter by letter. -/
import Conformance.Proofs.Refusing
namespace Conformance

def bracketed (word : String) (letters : List Char) : List Char :=
  word.toList ++ '<' :: (letters ++ ['>'])

/-- The constructors around one schema. -/
inductive Wrapper
  | optional
  | listOf
  | mapOf
  deriving DecidableEq

namespace Wrapper

def build : Wrapper → Value → Build Schema
  | .optional => Construct.optional
  | .listOf => Construct.listOf
  | .mapOf => Construct.mapOf

def word : Wrapper → String
  | .optional => "option"
  | .listOf => "listOf"
  | .mapOf => "attrsOf"

theorem name_of_build {w : Wrapper} {u t : Schema} {forge : Forge}
    (h : (w.build (.schema u) forge).1 = .ok t) :
    t.name.toList = bracketed w.word u.name.toList := by
  cases w <;>
    · cases h
      rw [Schema.name, String.toList_append, String.toList_append]
      rfl

end Wrapper

inductive TypeExpr
  | primitive (p : Primitive)
  | around (w : Wrapper) (inner : TypeExpr)
  | union (members : List TypeExpr)

namespace TypeExpr

section Induction

variable {motive : TypeExpr → Prop}
  (primitive : ∀ p, motive (.primitive p))
  (around : ∀ w e, motive e → motive (.around w e))
  (union : ∀ es, (∀ e ∈ es, motive e) → motive (.union es))
-- The mutual theorems use them through each other only.
set_option linter.unusedSectionVars false
include primitive around union

mutual

@[elab_as_elim, induction_eliminator]
theorem induct : ∀ e, motive e
  | .primitive p => primitive p
  | .around w e => around w e (induct e)
  | .union es => union es (inductAll es)
termination_by structural e => e

theorem inductAll : ∀ (es : List TypeExpr), ∀ e ∈ es, motive e
  | [] => by simp
  | e :: es => List.forall_mem_cons.mpr ⟨induct e, inductAll es⟩
termination_by structural es => es

end

end Induction

/-- The schemas that the constructors make for an expression, whatever sequence holds the members of
a union, and whatever was made before. -/
inductive Expresses : TypeExpr → Schema → Prop
  | primitive (p) : Expresses (.primitive p) (.primitive p)
  | around {w e u forge t} : Expresses e u → (w.build (.schema u) forge).1 = .ok t →
      Expresses (.around w e) t
  | union {pairs : List (TypeExpr × Schema)} {members forge t} :
      (∀ p ∈ pairs, Expresses p.1 p.2) → members.items? = some (pairs.map fun p => .schema p.2) →
      (Construct.union members forge).1 = .ok t → Expresses (.union (pairs.map (·.1))) t

section Letters

mutual

def letters : TypeExpr → List Char
  | .primitive p => p.name.toList
  | .around w e => bracketed w.word e.letters
  | .union es => bracketed "union" (joined es)
termination_by structural e => e

def joined : List TypeExpr → List Char
  | [] => []
  | [e] => e.letters
  | e :: es => e.letters ++ ',' :: joined es
termination_by structural es => es

end

theorem letters_of_joinNames {pairs : List (TypeExpr × Schema)}
    (h : ∀ p ∈ pairs, p.2.name.toList = p.1.letters) :
    (Schema.joinNames (pairs.map (·.2))).toList = joined (pairs.map (·.1)) := by
  induction pairs with
  | nil => rfl
  | cons p pairs ih =>
    obtain ⟨hp, hpairs⟩ := List.forall_mem_cons.mp h
    cases pairs with
    | nil => exact hp
    | cons q pairs =>
      have hrest := ih hpairs
      simp only [List.map_cons] at hrest ⊢
      rw [Schema.joinNames, joined, ← hp, ← hrest, String.toList_append, String.toList_append,
        List.append_assoc]
      · rfl
      · nofun
      · nofun

/-- The name depends on the expression only. -/
theorem Expresses.letters_eq {e : TypeExpr} {t : Schema} (h : Expresses e t) :
    t.name.toList = e.letters := by
  induction h with
  | primitive p => rfl
  | @around w e u forge t _ hbuild ih =>
    exact (Wrapper.name_of_build hbuild).trans (congrArg (bracketed w.word) ih)
  | @union pairs members forge t _ hitems hbuild ih =>
    cases Construct.Request.makes_union hbuild with
    | @union _ ts s hmade =>
      have hparts : pairs.map (·.2) = ts := by
        have hvalues : (pairs.map (·.2)).map Value.schema = ts.map .schema := by
          rw [List.map_map]
          exact Option.some.inj (hitems.symm.trans hmade)
        exact List.map_injective_iff.mpr (fun _ _ => Value.schema.inj) hvalues
      have hname : (Schema.union s ts).name.toList =
          bracketed "union" (Schema.joinNames ts).toList := by
        rw [Schema.name, String.toList_append, String.toList_append]
        rfl
      rw [hname, ← hparts]
      exact congrArg (bracketed "union") (letters_of_joinNames ih)

end Letters

section Reading

/-- What was read since the last bracket or comma: letters of a word, or a whole expression. -/
inductive Item
  | word (letters : List Char)
  | made (e : TypeExpr)

/-- An open bracket: what it will make, and the members of a union that are behind it so far. -/
inductive Bracket
  | around (w : Wrapper)
  | union (before : List TypeExpr)

/-- Where reading is: the last item, and the stack of open brackets, the innermost on top. -/
abbrev Position := Item × List Bracket

def primitives : List Primitive :=
  [.string, .int, .float, .number, .bool, .attrs, .list, .function, .any]

/-- A word with nothing behind it is a primitive. -/
def Item.expr? : Item → Option TypeExpr
  | .word letters => (primitives.find? (·.name.toList == letters)).map .primitive
  | .made e => some e

/-- The bracket that a word opens. -/
def Bracket.opened? (letters : List Char) : Option Bracket :=
  if letters = "union".toList then some (.union [])
  else ([Wrapper.optional, .listOf, .mapOf].find? (·.word.toList == letters)).map .around

/-- What a bracket makes when it closes behind an item. Only a union may be empty. -/
def Bracket.closed? : Bracket → Item → Option TypeExpr
  | .union [], .word [] => some (.union [])
  | .union before, item => item.expr?.map fun e => .union (before ++ [e])
  | .around w, item => item.expr?.map (.around w)

def step? : Position → Char → Option Position
  | (.word letters, stack), '<' => (Bracket.opened? letters).map fun b => (.word [], b :: stack)
  | (item, .union before :: stack), ',' =>
    item.expr?.map fun e => (.word [], .union (before ++ [e]) :: stack)
  | (item, b :: stack), '>' => (b.closed? item).map fun e => (.made e, stack)
  | (.word letters, stack), c => some (.word (letters ++ [c]), stack)
  | _, _ => none

def read? (name : String) : Option TypeExpr := do
  match ← name.toList.foldlM step? (.word [], []) with
  | (item, []) => item.expr?
  | _ => none

def item : TypeExpr → Item
  | .primitive p => .word p.name.toList
  | e => .made e

theorem item_expr? (e : TypeExpr) : e.item.expr? = some e := by
  cases e with
  | primitive p => cases p <;> rfl
  | around w e => rfl
  | union es => rfl

theorem closed?_union (before : List TypeExpr) (e : TypeExpr) :
    (Bracket.union before).closed? e.item = some (.union (before ++ [e])) := by
  have hitem : (Bracket.union before).closed? e.item =
      e.item.expr?.map fun e => .union (before ++ [e]) := by
    cases e with
    | primitive p => cases before <;> cases p <;> rfl
    | around w e => cases before <;> rfl
    | union es => cases before <;> rfl
  rw [hitem, item_expr?]
  rfl

variable {stack : List Bracket} {rest : List Char}

theorem foldlM_step?_cons {here there : Position} {c : Char} (h : step? here c = some there) :
    (c :: rest).foldlM step? here = rest.foldlM step? there := by
  rw [List.foldlM_cons, h]
  rfl

def isLetter (c : Char) : Bool := c != '<' && c != ',' && c != '>'

/-- Letters that are no brackets or commas are put to the word. -/
theorem read_word {cs : List Char} (hcs : cs.all isLetter = true) (letters : List Char) :
    (cs ++ rest).foldlM step? (.word letters, stack) =
      rest.foldlM step? (.word (letters ++ cs), stack) := by
  induction cs generalizing letters with
  | nil => rw [List.nil_append, List.append_nil]
  | cons c cs ih =>
    obtain ⟨hc, hcs⟩ := Bool.and_eq_true_iff.mp hcs
    have hstep : step? (.word letters, stack) c = some (.word (letters ++ [c]), stack) := by
      unfold step?
      split <;> first | rfl | simp_all [isLetter]
    rw [List.cons_append, foldlM_step?_cons hstep, ih hcs, List.append_assoc]
    rfl

theorem read_primitive (p : Primitive) :
    (p.name.toList ++ rest).foldlM step? (.word [], stack) =
      rest.foldlM step? (.word p.name.toList, stack) := by
  have hplain : p.name.toList.all isLetter = true := by
    cases p <;> rfl
  exact read_word hplain []

theorem read_opening {word : String} {letters : List Char} {b : Bracket}
    (hword : word.toList.all isLetter = true)
    (hb : Bracket.opened? word.toList = some b) :
    (bracketed word letters ++ rest).foldlM step? (.word [], stack) =
      (letters ++ '>' :: rest).foldlM step? (.word [], b :: stack) := by
  have hstep : step? (.word word.toList, stack) '<' = some (.word [], b :: stack) := by
    change (Bracket.opened? word.toList).map _ = _
    rw [hb]
    rfl
  rw [bracketed, List.append_assoc, read_word hword [], List.nil_append, List.cons_append,
    foldlM_step?_cons hstep, List.append_assoc, List.singleton_append]

theorem read_closing {b : Bracket} {last : Item} {e : TypeExpr}
    (hb : b.closed? last = some e) :
    ('>' :: rest).foldlM step? (last, b :: stack) = rest.foldlM step? (.made e, stack) := by
  refine foldlM_step?_cons ?_
  have hstep : step? (last, b :: stack) '>' = (b.closed? last).map fun e => (.made e, stack) := by
    cases last <;> cases b <;> rfl
  rw [hstep, hb]
  rfl

theorem read_comma {before : List TypeExpr} (e : TypeExpr) :
    (',' :: rest).foldlM step? (e.item, .union before :: stack) =
      rest.foldlM step? (.word [], .union (before ++ [e]) :: stack) := by
  refine foldlM_step?_cons ?_
  have hstep : step? (e.item, .union before :: stack) ',' =
      e.item.expr?.map fun e => (.word [], .union (before ++ [e]) :: stack) := by
    cases e.item <;> rfl
  rw [hstep, item_expr?]
  rfl

theorem read_members {es : List TypeExpr} (hne : es ≠ [])
    (h : ∀ e ∈ es, ∀ (rest : List Char) (stack : List Bracket),
      (e.letters ++ rest).foldlM step? (.word [], stack) = rest.foldlM step? (e.item, stack))
    (before : List TypeExpr) :
    (joined es ++ '>' :: rest).foldlM step? (.word [], .union before :: stack) =
      rest.foldlM step? (.made (.union (before ++ es)), stack) := by
  induction es generalizing before with
  | nil => exact absurd rfl hne
  | cons e es ih =>
    obtain ⟨he, hes⟩ := List.forall_mem_cons.mp h
    cases es with
    | nil => rw [joined, he, read_closing (closed?_union before e)]
    | cons e' es =>
      have hjoined : joined (e :: e' :: es) = e.letters ++ ',' :: joined (e' :: es) := rfl
      rw [hjoined, List.append_assoc, he, List.cons_append, read_comma,
        ih (List.cons_ne_nil _ _) hes, List.append_assoc]
      rfl

/-- The letters of an expression are read as that expression, whatever is around it. -/
theorem read_letters (e : TypeExpr) (rest : List Char) (stack : List Bracket) :
    (e.letters ++ rest).foldlM step? (.word [], stack) = rest.foldlM step? (e.item, stack) := by
  induction e generalizing rest stack with
  | primitive p => exact read_primitive p
  | around w e ih =>
    have hword : w.word.toList.all isLetter = true := by
      cases w <;> rfl
    have hopened : Bracket.opened? w.word.toList = some (.around w) := by
      cases w <;> rfl
    have hclosed : (Bracket.around w).closed? e.item = some (.around w e) := by
      change e.item.expr?.map _ = _
      rw [item_expr?]
      rfl
    rw [letters, read_opening hword hopened, ih, read_closing hclosed]
    rfl
  | union es ih =>
    have hword : "union".toList.all isLetter = true := rfl
    have hopened : Bracket.opened? "union".toList = some (.union []) := if_pos rfl
    rw [letters, read_opening hword hopened]
    by_cases hes : es = []
    · rw [hes]
      exact read_closing rfl
    · exact read_members hes ih []

theorem Expresses.read_name {e : TypeExpr} {t : Schema} (h : Expresses e t) :
    read? t.name = some e := by
  have hread := e.read_letters [] []
  rw [List.append_nil] at hread
  unfold read?
  rw [h.letters_eq, hread]
  exact item_expr? e

end Reading

/-- The constructors make a schema for every expression. -/
theorem exists_expresses (e : TypeExpr) : ∃ t, Expresses e t := by
  induction e with
  | primitive p => exact ⟨_, .primitive p⟩
  | around w e ih =>
    obtain ⟨u, hu⟩ := ih
    have hmade : ∃ t, (w.build (.schema u) {}).1 = .ok t := by
      cases w <;> exact ⟨_, rfl⟩
    obtain ⟨t, ht⟩ := hmade
    exact ⟨t, .around hu ht⟩
  | union es ih =>
    have hpairs : ∃ pairs : List (TypeExpr × Schema), pairs.map (·.1) = es ∧
        ∀ p ∈ pairs, Expresses p.1 p.2 := by
      induction es with
      | nil => exact ⟨[], rfl, nofun⟩
      | cons e es ihes =>
        obtain ⟨⟨t, ht⟩, hes⟩ := List.forall_mem_cons.mp ih
        obtain ⟨pairs, rfl, hpairs⟩ := ihes hes
        exact ⟨(e, t) :: pairs, rfl, List.forall_mem_cons.mpr ⟨ht, hpairs⟩⟩
    obtain ⟨pairs, rfl, hpairs⟩ := hpairs
    let items := pairs.map fun p => Value.schema p.2
    have hitems : ∀ v ∈ items, ∃ t, v = .schema t := by
      intro v hv
      obtain ⟨p, -, rfl⟩ := List.mem_map.mp hv
      exact ⟨p.2, rfl⟩
    obtain ⟨ts, hts⟩ := Construct.requireSchemas_of_schemas hitems 0
    have hmade : (Construct.union (.list .base items) {}).1 = .ok (.union 0 ts) := by
      change ((ofExcept (Construct.requireSchemas 0 items) >>= _ : Build Schema) _).1 = _
      rw [hts]
      rfl
    exact ⟨_, .union hpairs rfl hmade⟩

/-- Every expression has schemas, and their name can be read back as it. So the names of two schemas
are equal if and only if they were made in the same way. -/
theorem name_identifies :
    (∀ e, ∃ t, Expresses e t) ∧
    (∀ e t, Expresses e t → read? t.name = some e) ∧
    ∀ e e' t t', Expresses e t → Expresses e' t' → (t.name = t'.name ↔ e = e') := by
  refine ⟨exists_expresses, fun e t h => h.read_name, fun e e' t t' h h' => ⟨?_, ?_⟩⟩
  · intro hname
    have hread := h.read_name
    rw [hname, h'.read_name] at hread
    exact (Option.some.inj hread).symm
  · rintro rfl
    exact String.toList_inj.mp (h.letters_eq.trans h'.letters_eq.symm)

/-- A word that is the start of another, and a union of nothing. -/
def listsOrNothing : TypeExpr :=
  .union [.primitive .list, .around .listOf (.primitive .list), .union []]

/-- The name is read back whole, and not taken for the union of nothing at its end. -/
theorem name_identifies_nested :
    ∃ t, Expresses listsOrNothing t ∧ t.name = "union<list,listOf<list>,union<>>" ∧
      read? "union<list,listOf<list>,union<>>" = some listsOrNothing ∧
      t.name ≠ (Schema.union 0 []).name := by
  obtain ⟨hexists, hread, hnames⟩ := name_identifies
  have hempty : Expresses (.union []) (.union 0 []) :=
    @Expresses.union [] (.tuple .base []) {} _ nofun rfl rfl
  obtain ⟨t, ht⟩ := hexists listsOrNothing
  have hname : t.name = "union<list,listOf<list>,union<>>" := by
    rw [← String.toList_inj, ht.letters_eq]
    decide
  have hback := hread _ _ ht
  rw [hname] at hback
  refine ⟨t, ht, hname, hback, fun heq => ?_⟩
  have hsame := (hnames _ _ _ _ ht hempty).mp heq
  cases hsame

end TypeExpr

end Conformance

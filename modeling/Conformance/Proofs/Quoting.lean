/- A quoted text is a string literal of JSON that reads back, and nothing else shows as one. So a
   message about a text tells which text it is. -/
import Conformance.Proofs.Settling
import Conformance.Text.Octets
import Conformance.Catalogue
namespace Conformance

namespace Text

section Reading

/-- The code of the character that a letter behind a backslash stands for. -/
def shortEscape? : Char → Option Nat
  | '"' => some 34
  | '\\' => some 92
  | '/' => some 47
  | 'b' => some 8
  | 'f' => some 12
  | 'n' => some 10
  | 'r' => some 13
  | 't' => some 9
  | _ => none

def unit? (a b c d : Char) : Option Nat := do
  return 4096 * (← hexDigit? a) + 256 * (← hexDigit? b) + 16 * (← hexDigit? c) + (← hexDigit? d)

def spelled (n : Nat) (read : List Nat × List Char) : List Nat × List Char := (n :: read.1, read.2)

/-- The codes that a string literal spells behind its opening quote, and what is behind the closing
one. No character below the space stands as it is. -/
def readCodes? : List Char → Option (List Nat × List Char)
  | [] => none
  | '"' :: rest => some ([], rest)
  | '\\' :: 'u' :: a :: b :: c :: d :: rest =>
    (unit? a b c d).bind fun n => (readCodes? rest).map (spelled n)
  | '\\' :: letter :: rest =>
    (shortEscape? letter).bind fun n => (readCodes? rest).map (spelled n)
  | c :: rest => if c.toNat < 32 then none else (readCodes? rest).map (spelled c.toNat)

def charOfCode? (n : Nat) : Option Char := if n.isValidChar then some (Char.ofNat n) else none

/-- The code behind a pair of surrogates. -/
def pairCode? (n m : Nat) : Option Nat :=
  if 0xD800 ≤ n ∧ n < 0xDC00 ∧ 0xDC00 ≤ m ∧ m < 0xE000 then
    some (0x10000 + 0x400 * (n - 0xD800) + (m - 0xDC00))
  else none

/-- The characters of codes. A surrogate that is not one of a pair is no character. -/
def ofCodes? : List Nat → Option (List Char)
  | [] => some []
  | [n] => (charOfCode? n).map ([·])
  | n :: m :: rest =>
    match pairCode? n m with
    | some code => (charOfCode? code).bind fun c => (ofCodes? rest).map (c :: ·)
    | none => (charOfCode? n).bind fun c => (ofCodes? (m :: rest)).map (c :: ·)

/-- The text that a string literal of JSON stands for. -/
def readQuoted? : List Char → Option (List Char)
  | '"' :: rest =>
    match readCodes? rest with
    | some (codes, []) => ofCodes? codes
    | _ => none
  | _ => none

end Reading

example : readQuoted? ['"', '\\', 'u', 'd', '8', '3', 'd', '\\', 'u', 'D', 'E', '0', '0', '"'] =
    some ['😀'] := by
  decide +kernel

theorem charOfCode?_toNat (c : Char) : charOfCode? c.toNat = some c := by
  have hvalid : c.toNat.isValidChar := c.valid
  rw [charOfCode?, if_pos hvalid, Char.ofNat_toNat]

theorem pairCode?_toNat (c : Char) (m : Nat) : pairCode? c.toNat m = none := by
  have hvalid : c.toNat.isValidChar := c.valid
  unfold Nat.isValidChar at hvalid
  exact if_neg (by omega)

theorem ofCodes?_toNat (s : List Char) : ofCodes? (s.map Char.toNat) = some s := by
  induction s with
  | nil => rfl
  | cons c s ih =>
    cases s with
    | nil => rw [List.map_cons, List.map_nil, ofCodes?, charOfCode?_toNat, Option.map_some]
    | cons d s =>
      rw [List.map_cons] at ih
      rw [List.map_cons, List.map_cons, ofCodes?, pairCode?_toNat]
      dsimp only
      rw [charOfCode?_toNat, ih]
      rfl

theorem hexadecimal_control {n : Nat} (h : n < 32) :
    hexadecimal 4 n = ['0', '0', (n / 16).digitChar, (n % 16).digitChar] := by
  have digits : ∀ n : Fin 32,
      hexadecimal 4 n.val = ['0', '0', (n.val / 16).digitChar, (n.val % 16).digitChar] := by
    decide +kernel
  exact digits ⟨n, h⟩

theorem unit?_control {n : Nat} (h : n < 32) :
    unit? '0' '0' (n / 16).digitChar (n % 16).digitChar = some n := by
  have hhigh := hexDigit_digitChar (n := n / 16) (by omega)
  have hlow := hexDigit_digitChar (n := n % 16) (by omega)
  have hzero : hexDigit? '0' = some 0 := rfl
  have hsum : 4096 * 0 + 256 * 0 + 16 * (n / 16) + n % 16 = n := by omega
  rw [unit?, hzero, hhigh, hlow]
  exact congrArg some hsum

theorem toNat_injective : Function.Injective Char.toNat :=
  Function.LeftInverse.injective Char.ofNat_toNat

/-- A character stands as it is, behind a backslash as a letter, or as a number. -/
theorem quotedChar_kinds (c : Char) :
    (∃ letter, quotedChar c = ['\\', letter] ∧ shortEscape? letter = some c.toNat) ∨
    (quotedChar c = '\\' :: 'u' :: hexadecimal 4 c.toNat ∧ c.toNat < 32) ∨
    (quotedChar c = [c] ∧ c ≠ '"' ∧ c ≠ '\\' ∧ 32 ≤ c.toNat) := by
  have hof {d : Char} (h : c.toNat = d.toNat) : c = d := toNat_injective h
  by_cases hshort : c ∈ ['"', '\\', '\n', '\r', '\t', '\x08', '\x0c']
  · refine .inl ?_
    simp only [List.mem_cons, List.not_mem_nil, or_false] at hshort
    rcases hshort with rfl | rfl | rfl | rfl | rfl | rfl | rfl <;> exact ⟨_, rfl, rfl⟩
  · simp only [List.mem_cons, List.not_mem_nil, or_false, not_or] at hshort
    obtain ⟨hquote, hbackslash, hfeed, hreturn, htab, hback, hform⟩ := hshort
    have hback : c.toNat ≠ 8 := fun h => hback (hof h)
    have hform : c.toNat ≠ 12 := fun h => hform (hof h)
    by_cases hcontrol : c.toNat < 32
    · exact .inr (.inl ⟨by simp [quotedChar, *], hcontrol⟩)
    · exact .inr (.inr ⟨by simp [quotedChar, *], hquote, hbackslash, Nat.not_lt.mp hcontrol⟩)

theorem readCodes?_quotedChar (c : Char) (tail : List Char) :
    readCodes? (quotedChar c ++ tail) = (readCodes? tail).map (spelled c.toNat) := by
  rcases quotedChar_kinds c with ⟨letter, hc, hletter⟩ | ⟨hc, hcontrol⟩ | ⟨hc, hquote, hslash, hc'⟩
  · have hu : letter ≠ 'u' := by
      rintro rfl
      cases hletter
    rw [hc, List.cons_append, List.singleton_append, readCodes?, hletter]
    · rfl
    · exact fun _ _ _ _ _ heq _ => hu heq
  · rw [hc, hexadecimal_control hcontrol]
    change (unit? _ _ _ _).bind _ = _
    rw [unit?_control hcontrol]
    rfl
  · rw [hc, List.singleton_append, readCodes?, if_neg (Nat.not_lt.mpr hc')]
    · exact hquote
    · exact fun _ _ _ _ _ heq _ => hslash heq
    · exact fun _ _ heq _ => hslash heq

/-- A text is read back from in front of whatever follows its literal. -/
theorem readCodes?_quoted (s rest : List Char) :
    readCodes? (s.flatMap quotedChar ++ '"' :: rest) = some (s.map Char.toNat, rest) := by
  induction s with
  | nil => rfl
  | cons c s ih =>
    rw [List.flatMap_cons, List.append_assoc, readCodes?_quotedChar, ih]
    rfl

theorem readQuoted?_quoted (s : List Char) : readQuoted? (quoted s) = some s := by
  unfold quoted
  rw [List.cons_append, readQuoted?, readCodes?_quoted]
  exact ofCodes?_toNat s

/-- Literals end where they end: neither text can go on into what follows the other. -/
theorem quoted_append_inj {s t rest rest' : List Char}
    (h : quoted s ++ rest = quoted t ++ rest') : s = t ∧ rest = rest' := by
  simp only [quoted, List.cons_append, List.append_assoc, List.cons.injEq, true_and,
    List.nil_append] at h
  have hread := readCodes?_quoted s rest
  rw [h, readCodes?_quoted] at hread
  obtain ⟨hcodes, hrest⟩ := Prod.mk.inj (Option.some.inj hread)
  exact ⟨((List.map_inj_right fun _ _ h => toNat_injective h).mp hcodes).symm, hrest.symm⟩

end Text

/-- The text begins, and not with a double quote. -/
def Opens (s : String) : Prop := ∃ c rest, s.toList = c :: rest ∧ c ≠ '"'

/-- The text does not begin with a double quote. -/
def Unquoted (s : String) : Prop := s.toList.head? ≠ some '"'

theorem Opens.append {s : String} (h : Opens s) (t : String) : Opens (s ++ t) := by
  obtain ⟨c, rest, hs, hc⟩ := h
  refine ⟨c, rest ++ t.toList, ?_, hc⟩
  rw [String.toList_append, hs]
  rfl

theorem Opens.unquoted {s : String} (h : Opens s) : Unquoted s := by
  obtain ⟨c, rest, hs, hc⟩ := h
  rw [Unquoted, hs]
  simpa using hc

theorem unquoted_of_line {α : Type} {parts : Except Fault α} {f : α → String} {text : String}
    (hf : ∀ a, Opens (f a)) (h : (do return f (← parts)) = Except.ok text) : Unquoted text := by
  obtain ⟨a, -, h⟩ := bind_eq_ok_iff.mp h
  cases h
  exact (hf a).unquoted

section Numbers

def Bare (s : List Char) : Prop := ∀ c ∈ s, c ≠ '"'

theorem Bare.unquoted {s : List Char} (h : Bare s) : Unquoted (String.ofList s) := by
  rw [Unquoted, String.toList_ofList]
  intro hhead
  exact h _ (List.mem_of_mem_head? hhead) rfl

theorem Bare.append {s t : List Char} (hs : Bare s) (ht : Bare t) : Bare (s ++ t) :=
  List.forall_mem_append.mpr ⟨hs, ht⟩

theorem toDigits_bare (n : Nat) : Bare (Nat.toDigits 10 n) := by
  rintro c hc rfl
  cases Nat.isDigit_of_mem_toDigits (by decide) (by decide) hc

theorem toString_unquoted (n : Int) : Unquoted (toString n) := by
  cases n with
  | ofNat n => exact (toDigits_bare n).unquoted
  | negSucc n => exact (Opens.append ⟨'-', _, rfl, by decide⟩ _).unquoted

namespace Binary64

variable {digits : List Char}

theorem dropTrailingZeros_bare (h : Bare digits) : Bare (dropTrailingZeros digits) := by
  intro c hc
  have hc := (List.dropWhile_sublist _).mem (List.mem_reverse.mp hc)
  exact h c (List.mem_reverse.mp hc)

theorem positional_bare (h : Bare digits) (point : Int) : Bare (positional digits point) := by
  intro c hc
  unfold positional at hc
  split at hc
  next =>
    simp only [List.mem_cons, List.mem_append, List.mem_replicate] at hc
    grind [Bare]
  next =>
    simp only [List.mem_cons, List.mem_append, List.mem_replicate] at hc
    grind [Bare, List.mem_of_mem_take, List.mem_of_mem_drop]

theorem scientific_bare (h : Bare digits) (exponent : Int) : Bare (scientific digits exponent) := by
  intro c hc
  have hmark : (if exponent < 0 then '-' else '+') ≠ '"' := by split <;> decide
  simp only [scientific, List.mem_append, List.mem_cons, List.mem_replicate] at hc
  rcases hc with hc | rfl | rfl | hc | hc
  · split at hc <;> grind [Bare]
  · decide
  · exact hmark
  · grind
  · exact toDigits_bare _ c hc

theorem finiteText_bare (units : Nat) : Bare (finiteText units) := by
  unfold finiteText
  split
  next => simp [Bare]
  next =>
    cases shortest units with
    | mk number exponent =>
      have hkept := dropTrailingZeros_bare (toDigits_bare number)
      dsimp only
      split
      next => exact positional_bare hkept _
      next => exact scientific_bare hkept _

theorem text_bare (x : Binary64) : Bare x.text := by
  have hsign (negative : Bool) : Bare (signText negative) := by
    cases negative <;> simp [Bare, signText]
  cases x with
  | nan mark => simp [Bare, text]
  | infinity negative => exact (hsign negative).append (by simp [Bare])
  | finite negative units => exact (hsign negative).append (finiteText_bare units)

end Binary64

end Numbers

namespace Value

/-- The text that an object has of its own. A callable one shows by the name of its class. -/
def ownText? : Value → Option String
  | .object _ (.text s) _ => some s
  | .func f =>
    match f.kind with
    | .object _ => some f.display
    | _ => none
  | _ => none

section Display

variable {v : Value} {text : String}

theorem objectText_opens (v : Value) : Opens v.objectText :=
  (((Opens.append ⟨'<', _, rfl, by decide⟩ _).append _).append _).append _

theorem bracketed_opens {opening : String} (h : Opens opening) (parts : List String)
    (closing : String) : Opens (bracketed opening parts closing) := (h.append _).append _

theorem tupleText_opens (parts : List String) : Opens (tupleText parts) := by
  unfold tupleText
  split
  next => exact (Opens.append ⟨'(', _, rfl, by decide⟩ _).append _
  next => exact bracketed_opens ⟨'(', _, rfl, by decide⟩ _ _

theorem setText_opens (frozen : Bool) (parts : List String) : Opens (setText frozen parts) := by
  unfold setText
  split
  next => exact ⟨'s', _, rfl, by decide⟩
  next => exact bracketed_opens ⟨'\x7b', _, rfl, by decide⟩ _ _
  next => exact ⟨'f', _, rfl, by decide⟩
  next => exact bracketed_opens ⟨'f', _, rfl, by decide⟩ _ _

theorem tableText_opens (rows : List (String × String)) : Opens (tableText rows) :=
  bracketed_opens ⟨'\x7b', _, rfl, by decide⟩ _ _

theorem mappingText_opens (kind : MappingKind) (rows : List (String × String)) :
    Opens (mappingText kind rows) := by
  unfold mappingText
  split
  next => exact tableText_opens _
  next => exact ⟨'O', _, rfl, by decide⟩
  next => exact bracketed_opens ⟨'O', _, rfl, by decide⟩ _ _
  next => exact (Opens.append ⟨'m', _, rfl, by decide⟩ _).append _

theorem display_unquoted (f : Func)
    (hown : ∀ text, (Value.func f).ownText? = some text → Unquoted text) : Unquoted f.display := by
  cases hkind : f.kind with
  | object className => exact hown _ (by simp [ownText?, hkind])
  | function name =>
    rw [Func.display, hkind]
    exact ((((Opens.append ⟨'<', _, rfl, by decide⟩ _).append _).append _).append _).unquoted
  | builtin name =>
    rw [Func.display, hkind]
    exact ((Opens.append ⟨'<', _, rfl, by decide⟩ _).append _).unquoted
  | classObject name =>
    rw [Func.display, hkind]
    exact ((Opens.append ⟨'<', _, rfl, by decide⟩ _).append _).unquoted

theorem className_opens (t : Schema) : Opens t.className := by
  have hclass : t.className = "TypeDef" ∨ t.className = "EnumDef" ∨ t.className = "StructDef" := by
    cases t <;> simp [Schema.className]
  rcases hclass with h | h | h <;> rw [h]
  · exact ⟨'T', _, rfl, by decide⟩
  · exact ⟨'E', _, rfl, by decide⟩
  · exact ⟨'S', _, rfl, by decide⟩

theorem schemaText_opens (t : Schema) (more : List (String × String)) :
    Opens (schemaText t more) :=
  bracketed_opens ((className_opens t).append _) _ _

theorem schemaLine?_unquoted {t : Schema} (h : schemaLine? t = .ok text) : Unquoted text := by
  cases t with
  | enumeration s n elems => exact unquoted_of_line (fun _ => schemaText_opens _ _) h
  | record s n members policy => exact unquoted_of_line (fun _ => schemaText_opens _ _) h
  | _ =>
    cases h
    exact (schemaText_opens _ _).unquoted

/-- On one line only a text may begin with a double quote, and what has a text of its own. -/
theorem line?_unquoted (hv : ∀ l s, v ≠ .text l s)
    (hown : ∀ text, v.ownText? = some text → Unquoted text) {guarded : Bool}
    (h : line? guarded v = .ok text) : Unquoted text := by
  cases v with
  | null =>
    cases h
    exact Opens.unquoted ⟨'N', _, rfl, by decide⟩
  | bool b =>
    cases h
    cases b with
    | true => exact Opens.unquoted ⟨'T', _, rfl, by decide⟩
    | false => exact Opens.unquoted ⟨'F', _, rfl, by decide⟩
  | int l n =>
    rw [line?, intText?] at h
    split at h
    next =>
      cases h
      exact toString_unquoted n
    next => cases h
  | float l x =>
    cases h
    exact x.text_bare.unquoted
  | text l s => exact absurd rfl (hv l s)
  | octets isMutable data =>
    cases isMutable with
    | false =>
      cases h
      exact Opens.unquoted ⟨'b', _, String.toList_ofList, by decide⟩
    | true =>
      cases h
      exact ((Opens.append ⟨'b', _, rfl, by decide⟩ _).append _).unquoted
  | list l items => exact unquoted_of_line (bracketed_opens ⟨'[', _, rfl, by decide⟩ · _) h
  | tuple l items => exact unquoted_of_line tupleText_opens h
  | set frozen items => exact unquoted_of_line (setText_opens frozen) h
  | mapping kind entries =>
    cases kind with
    | plain l => exact unquoted_of_line (mappingText_opens (.plain l)) h
    | ordered => exact unquoted_of_line (mappingText_opens .ordered) h
    | readOnly => exact unquoted_of_line (mappingText_opens .readOnly) h
  | func f =>
    cases h
    exact display_unquoted f hown
  | object className shown stamp =>
    cases shown with
    | plain =>
      cases h
      exact (objectText_opens _).unquoted
    | refused => cases h
    | text s =>
      cases h
      exact hown _ rfl
  | loopList stamp =>
    cases h
    exact (bracketed_opens ⟨'[', _, rfl, by decide⟩ _ _).unquoted
  | loopMapping stamp =>
    cases h
    exact (tableText_opens _).unquoted
  | schema t => exact schemaLine?_unquoted h

end Display

end Value

/-- Neither the text of a document nor what opens its layout begins with a double quote. -/
def Doc.Unquoted : Doc → Prop
  | .atom text | .table text _ => Conformance.Unquoted text
  | .literal _ => False
  | .octets _ => True
  | .items text opening _ _ | .fields text opening _ | .enclosed text opening _ =>
    Conformance.Unquoted text ∧ Opens opening

theorem octetText_opens (data : List UInt8) : Opens (octetText data) :=
  ⟨'b', _, String.toList_ofList, by decide⟩

theorem Doc.Unquoted.render {d : Doc} (h : d.Unquoted) : Conformance.Unquoted d.render := by
  cases d with
  | atom text => exact h
  | literal s => cases h
  | octets data =>
    rw [Doc.render]
    split
    next => exact (octetText_opens data).unquoted
    next => exact ((Opens.append ⟨'(', _, rfl, by decide⟩ _).append _).unquoted
  | items text opening closing children =>
    change Conformance.Unquoted (layout 0 0 _)
    unfold layout
    split
    next => exact h.1
    next => exact ((h.2.append _).append _).unquoted
  | table text rows =>
    change Conformance.Unquoted (layout 0 0 _)
    unfold layout
    split
    next => exact h
    next => exact ((Opens.append ⟨'\x7b', _, rfl, by decide⟩ _).append _).unquoted
  | fields text opening rows =>
    change Conformance.Unquoted (layout 0 0 _)
    unfold layout
    split
    next => exact h.1
    next => exact ((h.2.append _).append _).unquoted
  | enclosed text opening child =>
    change Conformance.Unquoted (layout 0 0 _)
    unfold layout
    split
    next => exact h.1
    next => exact ((h.2.append _).append _).unquoted

namespace Value

variable {v : Value}

theorem schemaDoc?_unquoted {t : Schema} {d : Doc} (h : schemaDoc? t = .ok d) : d.Unquoted := by
  cases t with
  | enumeration s n elems =>
    obtain ⟨text, htext, h⟩ := bind_eq_ok_iff.mp h
    obtain ⟨shown, -, h⟩ := bind_eq_ok_iff.mp h
    obtain ⟨children, -, h⟩ := bind_eq_ok_iff.mp h
    cases h
    exact ⟨schemaLine?_unquoted htext, (className_opens _).append _⟩
  | record s n members policy =>
    obtain ⟨text, htext, h⟩ := bind_eq_ok_iff.mp h
    obtain ⟨rows, -, h⟩ := bind_eq_ok_iff.mp h
    obtain ⟨docs, -, h⟩ := bind_eq_ok_iff.mp h
    cases h
    exact ⟨schemaLine?_unquoted htext, (className_opens _).append _⟩
  | _ =>
    cases h
    exact ⟨(schemaText_opens _ _).unquoted, (className_opens _).append _⟩

theorem doc?_unquoted (hv : ∀ l s, v ≠ .text l s)
    (hown : ∀ text, v.ownText? = some text → Unquoted text) {d : Doc} (h : v.doc? = .ok d) :
    d.Unquoted := by
  have hline {text : String} : line? true v = .ok text → Unquoted text := line?_unquoted hv hown
  have hatom (h : (do return .atom (← line? true v)) = Except.ok d) : d.Unquoted := by
    obtain ⟨text, htext, h⟩ := bind_eq_ok_iff.mp h
    cases h
    exact hline htext
  cases v with
  | text l s => exact absurd rfl (hv l s)
  | octets isMutable data =>
    cases isMutable with
    | false =>
      cases h
      trivial
    | true =>
      cases h
      exact ⟨hline rfl, 'b', _, rfl, by decide⟩
  | list l items =>
    obtain ⟨text, htext, h⟩ := bind_eq_ok_iff.mp h
    obtain ⟨children, -, h⟩ := bind_eq_ok_iff.mp h
    cases h
    exact ⟨hline htext, '[', _, rfl, by decide⟩
  | tuple l items =>
    obtain ⟨text, htext, h⟩ := bind_eq_ok_iff.mp h
    obtain ⟨children, -, h⟩ := bind_eq_ok_iff.mp h
    cases h
    exact ⟨hline htext, '(', _, rfl, by decide⟩
  | set frozen items =>
    obtain ⟨text, htext, h⟩ := bind_eq_ok_iff.mp h
    obtain ⟨children, -, h⟩ := bind_eq_ok_iff.mp h
    dsimp only at h
    split at h
    next =>
      cases h
      exact hline htext
    next =>
      split at h
      next =>
        cases h
        exact ⟨hline htext, 'f', _, rfl, by decide⟩
      next =>
        cases h
        exact ⟨hline htext, '\x7b', _, rfl, by decide⟩
  | mapping kind entries =>
    obtain ⟨text, htext, h⟩ := bind_eq_ok_iff.mp h
    obtain ⟨rows, -, h⟩ := bind_eq_ok_iff.mp h
    cases kind with
    | plain l =>
      cases h
      exact hline htext
    | ordered =>
      dsimp only at h
      split at h
      next =>
        cases h
        exact hline htext
      next =>
        obtain ⟨shown, -, h⟩ := bind_eq_ok_iff.mp h
        obtain ⟨pairs, -, h⟩ := bind_eq_ok_iff.mp h
        cases h
        exact ⟨hline htext, 'O', _, rfl, by decide⟩
    | readOnly =>
      obtain ⟨shown, -, h⟩ := bind_eq_ok_iff.mp h
      cases h
      exact ⟨hline htext, 'm', _, rfl, by decide⟩
  | loopList stamp =>
    cases h
    exact ⟨hline rfl, '[', _, rfl, by decide⟩
  | loopMapping stamp =>
    cases h
    exact hline rfl
  | schema t => exact schemaDoc?_unquoted h
  | _ => exact hatom h

theorem pretty_unquoted (hv : ∀ l s, v ≠ .text l s)
    (hown : ∀ text, v.ownText? = some text → Unquoted text) : Unquoted v.pretty := by
  unfold pretty
  split
  next l s => exact absurd rfl (hv l s)
  next =>
    split
    next d hdoc => exact (doc?_unquoted hv hown hdoc).render
    next => exact v.objectText_opens.unquoted

section Message

theorem mismatch_toList (name : String) (v : Value) : (v.mismatch name).toList =
    "Expected type '".toList ++ name.toList ++ "' but value '".toList ++
      (v.pretty.toList ++ ("' is of type '".toList ++ v.className.toList ++ "'".toList)) := by
  have hparts : v.mismatch name = "Expected type '" ++ name ++ "' but value '" ++ v.pretty ++
      "' is of type '" ++ v.className ++ "'" := rfl
  rw [hparts]
  simp only [String.toList_append, List.append_assoc]

theorem pretty_text_toList (l : Lineage) (s : String) :
    (text l s).pretty.toList = Text.quoted s.toList := String.toList_ofList

/-- What begins a message decides whether it is about a text. -/
theorem exists_text_of_append {l : Lineage} {s : String}
    (hown : ∀ text, v.ownText? = some text → Unquoted text) (rest rest' : List Char)
    (hrest : rest.head? ≠ some '"')
    (h : v.pretty.toList ++ rest = (text l s).pretty.toList ++ rest') :
    (∃ l', v = .text l' s) ∧ rest = rest' := by
  rw [pretty_text_toList] at h
  by_cases hv : ∃ l' s', v = .text l' s'
  · obtain ⟨l', s', rfl⟩ := hv
    rw [pretty_text_toList] at h
    obtain ⟨hs, hrest⟩ := Text.quoted_append_inj h
    rw [String.toList_injective hs]
    exact ⟨⟨l', rfl⟩, hrest⟩
  · have hquote : (Text.quoted s.toList ++ rest').head? = some '"' := rfl
    have hhead : v.pretty.toList.head? ≠ some '"' :=
      pretty_unquoted (fun l s hv' => hv ⟨l, s, hv'⟩) hown
    rw [← h, List.head?_append] at hquote
    cases hlist : v.pretty.toList.head? with
    | none =>
      rw [hlist] at hquote
      exact absurd hquote hrest
    | some c =>
      rw [hlist] at hquote hhead
      exact absurd hquote hhead

end Message

end Value

namespace Catalogue

/-- No object of the catalogue shows as a literal. -/
theorem object?_unquoted {stamp : Nat} {name : String} {v : Value}
    (h : object? stamp name = some v) : ∀ text, v.ownText? = some text → Unquoted text := by
  have hno {w : Value} (hw : w.ownText? = none) :
      ∀ text, w.ownText? = some text → Unquoted text := by
    intro text htext
    cases hw.symm.trans htext
  have hopens {w : Value} {shown : String} (hw : w.ownText? = some shown) (hshown : Opens shown) :
      ∀ text, w.ownText? = some text → Unquoted text := by
    intro text htext
    cases hw.symm.trans htext
    exact hshown.unquoted
  have hcall {className : String} (hname : Opens className) : Opens s!"{className}()" :=
    hname.append _
  unfold object? at h
  split at h <;> cases h
  · exact hno rfl
  · exact hno rfl
  · exact hopens rfl ⟨'<', _, rfl, by decide⟩
  · exact hopens rfl ⟨'l', _, rfl, by decide⟩
  · exact hopens rfl (hcall ⟨'C', _, rfl, by decide⟩)
  · exact hopens rfl (hcall ⟨'C', _, rfl, by decide⟩)
  · exact hno rfl
  · exact hno rfl

end Catalogue

namespace Value

/-- A text shows as a string literal of JSON that reads back. No other value shows as that literal,
nor does a message about another one read the same, as long as what an object shows as by itself
does not begin with a double quote. -/
theorem pretty_identifies_texts (l : Lineage) (s : String) :
    Text.readQuoted? (text l s).pretty.toList = some s.toList ∧
    ∀ v : Value, (∀ text, v.ownText? = some text → Unquoted text) →
      (v.pretty = (text l s).pretty ↔ ∃ l', v = .text l' s) ∧
      ∀ name, v.mismatch name = (text l s).mismatch name ↔
        ∃ l', v = .text l' s ∧ l'.className "str" = l.className "str" := by
  refine ⟨?_, fun v hown => ⟨⟨fun h => ?_, ?_⟩, fun name => ⟨fun h => ?_, ?_⟩⟩⟩
  · rw [pretty_text_toList]
    exact Text.readQuoted?_quoted s.toList
  · have h : v.pretty.toList ++ [] = (text l s).pretty.toList ++ [] := by rw [h]
    exact (exists_text_of_append hown [] [] nofun h).1
  · rintro ⟨l', rfl⟩
    rfl
  · have h := congrArg String.toList h
    rw [mismatch_toList, mismatch_toList] at h
    obtain ⟨⟨l', rfl⟩, hclass⟩ :=
      exists_text_of_append hown _ _ (by simp) (List.append_cancel_left h)
    have hclass := List.append_cancel_left (List.append_cancel_right hclass)
    exact ⟨l', rfl, String.toList_injective hclass⟩
  · rintro ⟨l', rfl, hclass⟩
    unfold mismatch
    change _ ++ toString (l'.className "str") ++ _ = _ ++ toString (l.className "str") ++ _
    rw [hclass]
    rfl

/-- An object whose own text is a literal shows as that text. -/
example : (object "Odd" (.text "\"a\"") 0).pretty = (ofString "a").pretty := by decide +kernel

/-- A quote, a backslash, a line feed, a control character and one beyond the first plane. -/
def motley : String := "\"\\\n\x01😀"

def fixedObject : Value := .object "Fixed" (.text "<fixed>") 0

theorem pretty_identifies_texts_motley :
    Text.readQuoted? (ofString motley).pretty.toList = some motley.toList ∧
    fixedObject.mismatch "int" ≠ (ofString "<fixed>").mismatch "int" := by
  have hfixed : Catalogue.object? 0 "fixed" = some fixedObject := rfl
  refine ⟨(pretty_identifies_texts .base motley).1, fun h => ?_⟩
  obtain ⟨-, hseparates⟩ := pretty_identifies_texts .base "<fixed>"
  obtain ⟨-, hmessage⟩ := hseparates fixedObject (Catalogue.object?_unquoted hfixed)
  obtain ⟨l', htext, -⟩ := (hmessage "int").mp h
  cases htext

end Value

end Conformance

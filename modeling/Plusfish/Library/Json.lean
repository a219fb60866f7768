import Mathlib.Data.List.Basic
import Mathlib.Tactic.Common

/-! The grammar of JSON texts, over the bytes of their UTF-8 encoding. -/

namespace json

/-- A byte of insignificant white space. -/
def IsSpace (c : UInt8) : Prop := c = 0x20 ∨ c = 0x09 ∨ c = 0x0A ∨ c = 0x0D

def IsDigit (c : UInt8) : Prop := 0x30 ≤ c ∧ c ≤ 0x39

instance : DecidablePred IsSpace := fun c =>
  inferInstanceAs (Decidable (c = 0x20 ∨ c = 0x09 ∨ c = 0x0A ∨ c = 0x0D))

instance : DecidablePred IsDigit := fun c => inferInstanceAs (Decidable (0x30 ≤ c ∧ c ≤ 0x39))

def IsHexDigit (c : UInt8) : Prop :=
  IsDigit c ∨ (0x41 ≤ c ∧ c ≤ 0x46) ∨ (0x61 ≤ c ∧ c ≤ 0x66)

/-- What may stand between the quotation marks of a string for one character. -/
inductive IsChar : List UInt8 → Prop
  | unescaped {char : Char} (hcontrol : 0x20 ≤ char.toNat) (hquote : char.toNat ≠ 0x22)
      (hbackslash : char.toNat ≠ 0x5C) : IsChar (String.utf8EncodeChar char)
  | escaped {c : UInt8} (hescape : c ∈ [0x22, 0x5C, 0x2F, 0x62, 0x66, 0x6E, 0x72, 0x74]) :
      IsChar [0x5C, c]
  | codePoint {digits : List UInt8} (hlength : digits.length = 4)
      (hdigits : ∀ c ∈ digits, IsHexDigit c) : IsChar (0x5C :: 0x75 :: digits)

inductive IsString : List UInt8 → Prop
  | quoted {chars : List (List UInt8)} (hchars : ∀ char ∈ chars, IsChar char) :
      IsString (0x22 :: chars.flatten ++ [0x22])

inductive IsInt : List UInt8 → Prop
  | zero : IsInt [0x30]
  | digits {first : UInt8} {rest : List UInt8} (hfirst : 0x31 ≤ first ∧ first ≤ 0x39)
      (hrest : ∀ c ∈ rest, IsDigit c) : IsInt (first :: rest)

inductive IsFraction : List UInt8 → Prop
  | none : IsFraction []
  | point {digits : List UInt8} (hne : digits ≠ []) (hdigits : ∀ c ∈ digits, IsDigit c) :
      IsFraction (0x2E :: digits)

inductive IsExponent : List UInt8 → Prop
  | none : IsExponent []
  | exponent {e : UInt8} {sign digits : List UInt8} (he : e = 0x65 ∨ e = 0x45)
      (hsign : sign ∈ [[], [0x2B], [0x2D]]) (hne : digits ≠ [])
      (hdigits : ∀ c ∈ digits, IsDigit c) :
      IsExponent (e :: sign ++ digits)

inductive IsNumber : List UInt8 → Prop
  | number {minus int fraction exponent : List UInt8} (hminus : minus = [] ∨ minus = [0x2D])
      (hint : IsInt int) (hfraction : IsFraction fraction) (hexponent : IsExponent exponent) :
      IsNumber (minus ++ int ++ fraction ++ exponent)

/-- A piece of a text with the white space around it. -/
structure Padded where
  before : List UInt8 := []
  core : List UInt8
  after : List UInt8 := []
  before_space : ∀ c ∈ before, IsSpace c
  after_space : ∀ c ∈ after, IsSpace c

def Padded.text (padded : Padded) : List UInt8 := padded.before ++ padded.core ++ padded.after

/-- A member of an object. -/
structure Member where
  name : Padded
  value : Padded

def Member.text (member : Member) : List UInt8 := member.name.text ++ 0x3A :: member.value.text

/-- The pieces of an array or an object, with commas between them. -/
def commaSeparated (pieces : List (List UInt8)) : List UInt8 := List.intercalate [0x2C] pieces

inductive IsValue : List UInt8 → Prop
  | true : IsValue [0x74, 0x72, 0x75, 0x65]
  | false : IsValue [0x66, 0x61, 0x6C, 0x73, 0x65]
  | null : IsValue [0x6E, 0x75, 0x6C, 0x6C]
  | number {text : List UInt8} (h : IsNumber text) : IsValue text
  | string {text : List UInt8} (h : IsString text) : IsValue text
  | emptyArray {space : List UInt8} (hspace : ∀ c ∈ space, IsSpace c) :
      IsValue (0x5B :: space ++ [0x5D])
  | array {elements : List Padded} (hne : elements ≠ [])
      (hvalues : ∀ element ∈ elements, IsValue element.core) :
      IsValue (0x5B :: commaSeparated (elements.map Padded.text) ++ [0x5D])
  | emptyObject {space : List UInt8} (hspace : ∀ c ∈ space, IsSpace c) :
      IsValue (0x7B :: space ++ [0x7D])
  | object {members : List Member} (hne : members ≠ [])
      (hnames : ∀ member ∈ members, IsString member.name.core)
      (hvalues : ∀ member ∈ members, IsValue member.value.core) :
      IsValue (0x7B :: commaSeparated (members.map Member.text) ++ [0x7D])

/-- A JSON text is a value with white space around it. -/
def IsText (text : List UInt8) : Prop := ∃ padded : Padded, IsValue padded.core ∧ padded.text = text

theorem IsString.of_chars {chars : List Char}
    (h : ∀ char ∈ chars, 0x20 ≤ char.toNat ∧ char.toNat ≠ 0x22 ∧ char.toNat ≠ 0x5C) :
    IsString (0x22 :: (chars.map String.utf8EncodeChar).flatten ++ [0x22]) := by
  refine .quoted (List.forall_mem_map.mpr fun char hchar => ?_)
  obtain ⟨hcontrol, hquote, hbackslash⟩ := h char hchar
  exact .unescaped hcontrol hquote hbackslash

theorem commaSeparated_concat {pieces : List (List UInt8)} (hne : pieces ≠ [])
    (piece : List UInt8) :
    commaSeparated (pieces ++ [piece]) = commaSeparated pieces ++ [0x2C] ++ piece := by
  unfold commaSeparated
  induction pieces with
  | nil => exact absurd rfl hne
  | cons first pieces ih =>
    by_cases hlast : pieces = []
    · subst hlast
      simp [List.intercalate_cons_cons]
    · rw [List.cons_append, List.intercalate_cons_of_ne_nil (by simp), ih hlast,
        List.intercalate_cons_of_ne_nil hlast]
      simp

/-- A piece with no white space around it. -/
def bare (core : List UInt8) : Padded := ⟨[], core, [], by simp, by simp⟩

theorem bare_text (core : List UInt8) : (bare core).text = core := by
  simp [bare, Padded.text]

theorem IsValue.isText {value : List UInt8} (h : IsValue value) : IsText value :=
  ⟨bare value, h, bare_text value⟩

/-- White space may stand before a text. -/
theorem IsText.cons {c : UInt8} {text : List UInt8} (hc : IsSpace c) (h : IsText text) :
    IsText (c :: text) := by
  obtain ⟨padded, hvalue, rfl⟩ := h
  refine ⟨⟨c :: padded.before, padded.core, padded.after, ?_, padded.after_space⟩, hvalue, rfl⟩
  exact List.forall_mem_cons.mpr ⟨hc, padded.before_space⟩

/-- A padded value for each of some texts. -/
theorem exists_elements {texts : List (List UInt8)} (h : ∀ text ∈ texts, IsText text) :
    ∃ elements : List Padded, elements.map Padded.text = texts ∧
      ∀ element ∈ elements, IsValue element.core := by
  induction texts with
  | nil => exact ⟨[], rfl, by simp⟩
  | cons text texts ih =>
    obtain ⟨⟨element, hvalue, htext⟩, hrest⟩ := List.forall_mem_cons.mp h
    obtain ⟨elements, htexts, hvalues⟩ := ih hrest
    exact ⟨element :: elements, by rw [List.map_cons, htext, htexts],
      List.forall_mem_cons.mpr ⟨hvalue, hvalues⟩⟩

theorem IsValue.array_of_texts {texts : List (List UInt8)} (h : ∀ text ∈ texts, IsText text) :
    IsValue (0x5B :: commaSeparated texts ++ [0x5D]) := by
  obtain ⟨elements, rfl, hvalues⟩ := exists_elements h
  by_cases hne : elements = []
  · have hempty : IsValue (0x5B :: [] ++ [0x5D]) := emptyArray fun _ hc => by cases hc
    rw [hne]
    exact hempty
  · exact array hne hvalues

/-- A member for each of some names with their texts. -/
theorem exists_members {entries : List (List UInt8 × List UInt8)}
    (h : ∀ entry ∈ entries, IsString entry.1 ∧ IsText entry.2) :
    ∃ members : List Member,
      members.map Member.text = entries.map (fun entry => entry.1 ++ 0x3A :: entry.2) ∧
      (∀ member ∈ members, IsString member.name.core) ∧
      ∀ member ∈ members, IsValue member.value.core := by
  induction entries with
  | nil => exact ⟨[], rfl, by simp, by simp⟩
  | cons entry entries ih =>
    obtain ⟨⟨hname, value, hvalue, htext⟩, hrest⟩ := List.forall_mem_cons.mp h
    obtain ⟨members, htexts, hnames, hvalues⟩ := ih hrest
    refine ⟨⟨bare entry.1, value⟩ :: members, ?_, List.forall_mem_cons.mpr ⟨hname, hnames⟩,
      List.forall_mem_cons.mpr ⟨hvalue, hvalues⟩⟩
    rw [List.map_cons, List.map_cons, htexts, Member.text, bare_text, htext]

theorem IsValue.object_of_texts {entries : List (List UInt8 × List UInt8)} (hne : entries ≠ [])
    (h : ∀ entry ∈ entries, IsString entry.1 ∧ IsText entry.2) :
    IsValue (0x7B :: commaSeparated (entries.map fun entry => entry.1 ++ 0x3A :: entry.2) ++
      [0x7D]) := by
  obtain ⟨members, htexts, hnames, hvalues⟩ := exists_members h
  rw [← htexts]
  refine object (fun hnil => hne ?_) hnames hvalues
  rw [hnil] at htexts
  exact List.map_eq_nil_iff.mp htexts.symm

/-! What a text ends in. A comma is followed by a further element or member. -/

/-- The last byte of a text satisfies a predicate. -/
def EndsIn (p : UInt8 → Prop) (text : List UInt8) : Prop := ∃ init c, text = init ++ [c] ∧ p c

theorem EndsIn.append {p : UInt8 → Prop} {text : List UInt8} (h : EndsIn p text)
    (before : List UInt8) : EndsIn p (before ++ text) := by
  obtain ⟨init, c, rfl, hc⟩ := h
  exact ⟨before ++ init, c, (List.append_assoc _ _ _).symm, hc⟩

theorem EndsIn.cons {p : UInt8 → Prop} {text : List UInt8} (h : EndsIn p text) (c : UInt8) :
    EndsIn p (c :: text) :=
  h.append [c]

theorem EndsIn.imp {p q : UInt8 → Prop} {text : List UInt8} (h : EndsIn p text)
    (himp : ∀ c, p c → q c) : EndsIn q text := by
  obtain ⟨init, c, htext, hc⟩ := h
  exact ⟨init, c, htext, himp c hc⟩

theorem EndsIn.of_forall {p : UInt8 → Prop} {text : List UInt8} (hne : text ≠ [])
    (h : ∀ c ∈ text, p c) : EndsIn p text := by
  exact ⟨text.dropLast, text.getLast hne, (List.dropLast_append_getLast hne).symm,
    h _ (List.getLast_mem hne)⟩

theorem endsIn_append_singleton {p : UInt8 → Prop} {text : List UInt8} {c : UInt8} :
    EndsIn p (text ++ [c]) ↔ p c := by
  constructor
  · rintro ⟨init, last, heq, hlast⟩
    rwa [(List.append_inj' heq rfl).2 |> List.singleton_inj.mp]
  · exact fun hc => ⟨text, c, rfl, hc⟩

/-- What every piece ends in, all pieces together end in. -/
theorem commaSeparated_of_append {P : List UInt8 → Prop}
    (happend : ∀ before text, P text → P (before ++ text)) {pieces : List (List UInt8)}
    (hne : pieces ≠ []) (h : ∀ piece ∈ pieces, P piece) : P (commaSeparated pieces) := by
  unfold commaSeparated
  induction pieces with
  | nil => exact absurd rfl hne
  | cons piece pieces ih =>
    obtain ⟨hpiece, hrest⟩ := List.forall_mem_cons.mp h
    by_cases hlast : pieces = []
    · rwa [hlast, List.intercalate_singleton]
    · rw [List.intercalate_cons_of_ne_nil hlast]
      exact happend _ _ (ih hlast hrest)

theorem IsInt.digits_only {text : List UInt8} (h : IsInt text) :
    text ≠ [] ∧ ∀ c ∈ text, IsDigit c := by
  cases h with
  | zero => exact ⟨by simp, by simp [IsDigit]⟩
  | digits hfirst hrest =>
    have hdigit : (0x30 : UInt8) ≤ 0x31 := by decide
    exact ⟨by simp, List.forall_mem_cons.mpr ⟨⟨UInt8.le_trans hdigit hfirst.1, hfirst.2⟩, hrest⟩⟩

theorem IsNumber.endsIn_digit {text : List UInt8} (h : IsNumber text) : EndsIn IsDigit text := by
  cases h with
  | number hminus hint hfraction hexponent =>
    cases hexponent with
    | exponent he hsign hne hdigits =>
      exact ((EndsIn.of_forall hne hdigits).append _).append _
    | none =>
      rw [List.append_nil]
      cases hfraction with
      | point hne hdigits => exact ((EndsIn.of_forall hne hdigits).cons _).append _
      | none =>
        rw [List.append_nil]
        obtain ⟨hne, hdigits⟩ := hint.digits_only
        exact (EndsIn.of_forall hne hdigits).append _

/-- The last byte of a value is no white space and no comma. -/
theorem IsValue.endsIn {value : List UInt8} (h : IsValue value) :
    EndsIn (fun c => ¬ IsSpace c ∧ c ≠ 0x2C) value := by
  have hbyte (init : List UInt8) {c : UInt8} (hc : ¬ IsSpace c ∧ c ≠ 0x2C) :
      EndsIn (fun c => ¬ IsSpace c ∧ c ≠ 0x2C) (init ++ [c]) := endsIn_append_singleton.mpr hc
  cases h with
  | true => exact hbyte [0x74, 0x72, 0x75] (by decide)
  | false => exact hbyte [0x66, 0x61, 0x6C, 0x73] (by decide)
  | null => exact hbyte [0x6E, 0x75, 0x6C] (by decide)
  | number hnumber =>
    refine hnumber.endsIn_digit.imp fun c hc => ⟨?_, ?_⟩
    · rintro (rfl | rfl | rfl | rfl) <;> exact absurd hc (by decide)
    · rintro rfl
      exact absurd hc (by decide)
  | string hstring =>
    cases hstring
    exact hbyte _ (by decide)
  | emptyArray => exact hbyte _ (by decide)
  | array => exact hbyte _ (by decide)
  | emptyObject => exact hbyte _ (by decide)
  | object => exact hbyte _ (by decide)

theorem IsText.endsIn {text : List UInt8} (h : IsText text) : EndsIn (· ≠ 0x2C) text := by
  obtain ⟨padded, hvalue, rfl⟩ := h
  by_cases hafter : padded.after = []
  · rw [Padded.text, hafter, List.append_nil]
    exact (hvalue.endsIn.imp fun _ hc => hc.2).append _
  · refine EndsIn.append (EndsIn.of_forall hafter fun c hc => ?_) _
    rintro rfl
    exact absurd (padded.after_space _ hc) (by decide)

/-- A bracket at the end of the text does not come after a comma. -/
def NoTrailingComma (text : List UInt8) : Prop :=
  EndsIn (· ≠ 0x5D) text ∨ ∃ init, text = init ++ [0x5D] ∧ EndsIn (· ≠ 0x2C) init

theorem NoTrailingComma.append (before text : List UInt8) (h : NoTrailingComma text) :
    NoTrailingComma (before ++ text) := by
  rcases h with hother | ⟨init, rfl, hinit⟩
  · exact .inl (hother.append before)
  · exact .inr ⟨before ++ init, (List.append_assoc _ _ _).symm, hinit.append before⟩

theorem not_noTrailingComma (text : List UInt8) : ¬ NoTrailingComma (text ++ [0x2C] ++ [0x5D]) := by
  rintro (hother | ⟨init, heq, hinit⟩)
  · exact endsIn_append_singleton.mp hother rfl
  · rw [← (List.append_inj' heq rfl).1] at hinit
    exact endsIn_append_singleton.mp hinit rfl

theorem noTrailingComma_of_space {space : List UInt8} (hspace : ∀ c ∈ space, IsSpace c)
    {first : UInt8} (hfirst : first ≠ 0x5D) : NoTrailingComma (first :: space) := by
  refine .inl (EndsIn.of_forall (List.cons_ne_nil _ _) (List.forall_mem_cons.mpr ⟨hfirst, ?_⟩))
  rintro c hc rfl
  exact absurd (hspace _ hc) (by decide)

theorem IsValue.noTrailingComma {value : List UInt8} (h : IsValue value) :
    NoTrailingComma value := by
  have hbyte (init : List UInt8) {c : UInt8} (hc : c ≠ 0x5D) : NoTrailingComma (init ++ [c]) :=
    .inl (endsIn_append_singleton.mpr hc)
  cases h with
  | true => exact hbyte [0x74, 0x72, 0x75] (by decide)
  | false => exact hbyte [0x66, 0x61, 0x6C, 0x73] (by decide)
  | null => exact hbyte [0x6E, 0x75, 0x6C] (by decide)
  | number hnumber =>
    refine .inl (hnumber.endsIn_digit.imp fun c hc => ?_)
    rintro rfl
    exact absurd hc (by decide)
  | string hstring =>
    cases hstring
    exact hbyte _ (by decide)
  | emptyArray hspace =>
    refine .inr ⟨_, rfl, EndsIn.of_forall (List.cons_ne_nil _ _)
      (List.forall_mem_cons.mpr ⟨by decide, ?_⟩)⟩
    rintro c hc rfl
    exact absurd (hspace _ hc) (by decide)
  | array hne hvalues =>
    refine .inr ⟨_, rfl, EndsIn.cons ?_ _⟩
    refine commaSeparated_of_append (fun before _ hpiece => hpiece.append before)
      (fun hnil => hne (List.map_eq_nil_iff.mp hnil))
      (List.forall_mem_map.mpr fun element hmem => ?_)
    exact IsText.endsIn ⟨element, hvalues element hmem, rfl⟩
  | emptyObject => exact hbyte _ (by decide)
  | object => exact hbyte _ (by decide)

theorem IsText.noTrailingComma {text : List UInt8} (h : IsText text) : NoTrailingComma text := by
  obtain ⟨padded, hvalue, rfl⟩ := h
  by_cases hafter : padded.after = []
  · rw [Padded.text, hafter, List.append_nil]
    exact hvalue.noTrailingComma.append _ _
  · refine NoTrailingComma.append _ _ (.inl (EndsIn.of_forall hafter fun c hc => ?_))
    rintro rfl
    exact absurd (padded.after_space _ hc) (by decide)

/-- Before the brace that ends an object there is no bracket that comes after a comma. -/
theorem IsValue.noTrailingComma_of_brace {body : List UInt8} (h : IsValue (body ++ [0x7D])) :
    NoTrailingComma body := by
  have hother (init : List UInt8) {c : UInt8} (heq : body ++ [0x7D] = init ++ [c])
      (hc : c ≠ 0x7D) : NoTrailingComma body :=
    absurd (List.singleton_inj.mp (List.append_inj' heq rfl).2).symm hc
  generalize hvalue : body ++ [0x7D] = value at h
  cases h with
  | true => exact hother [0x74, 0x72, 0x75] hvalue (by decide)
  | false => exact hother [0x66, 0x61, 0x6C, 0x73] hvalue (by decide)
  | null => exact hother [0x6E, 0x75, 0x6C] hvalue (by decide)
  | number hnumber =>
    obtain ⟨init, c, rfl, hc⟩ := hnumber.endsIn_digit
    refine hother init hvalue ?_
    rintro rfl
    exact absurd hc (by decide)
  | string hstring =>
    cases hstring
    exact hother _ hvalue (by decide)
  | emptyArray => exact hother _ hvalue (by decide)
  | array => exact hother _ hvalue (by decide)
  | emptyObject hspace =>
    rw [(List.append_inj' hvalue rfl).1]
    exact noTrailingComma_of_space hspace (by decide)
  | object hne hnames hvalues =>
    rw [(List.append_inj' hvalue rfl).1]
    refine NoTrailingComma.append [0x7B] _ (commaSeparated_of_append NoTrailingComma.append
      (fun hnil => hne (List.map_eq_nil_iff.mp hnil))
      (List.forall_mem_map.mpr fun member hmem => ?_))
    have htext : IsText member.value.text := ⟨member.value, hvalues member hmem, rfl⟩
    exact NoTrailingComma.append _ _ (htext.noTrailingComma.append [0x3A] _)

/-- No JSON text ends with a comma before the brackets that close an array and an object. -/
theorem not_isText_of_trailing_comma (text : List UInt8) :
    ¬ IsText (text ++ [0x2C, 0x5D, 0x7D]) := by
  rintro ⟨padded, hvalue, htext⟩
  have hsplit : padded.before ++ padded.core ++ padded.after =
      text ++ [0x2C] ++ [0x5D] ++ [0x7D] := by
    rw [← Padded.text, htext]
    simp
  have hafter : padded.after = [] := by
    by_contra hne
    obtain ⟨init, c, heq, hspace⟩ := EndsIn.of_forall hne padded.after_space
    rw [heq, ← List.append_assoc] at hsplit
    rw [List.singleton_inj.mp (List.append_inj' hsplit rfl).2] at hspace
    exact absurd hspace (by decide)
  obtain ⟨init, c, hcore, _⟩ := hvalue.endsIn
  rw [hafter, List.append_nil, hcore, ← List.append_assoc] at hsplit
  obtain ⟨hbody, hbrace⟩ := List.append_inj' hsplit rfl
  rw [hcore, hbrace] at hvalue
  have hinit := hvalue.noTrailingComma_of_brace.append padded.before
  rw [hbody] at hinit
  exact not_noTrailingComma text hinit

end json

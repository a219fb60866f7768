import Plusfish.Library.Matching
import Plusfish.Parsers.ScrapeUtil

open matching

namespace plusfish

namespace util

/-- What a small letter of a pattern stands for where case does not matter: the letter in either
    case, and for an s the long s as well, in UTF-8. -/
def letterForms (letter : UInt8) : List Bytes :=
  [[letter], [letter - 32]] ++ if letter = 115 then [[197, 191]] else []

/-- The text is a word, apart from case. -/
inductive Spells : (word text : Bytes) → Prop
  | nil : Spells [] []
  | cons {letter : UInt8} {word form text : Bytes} (hform : form ∈ letterForms letter)
      (htext : Spells word text) : Spells (letter :: word) (form ++ text)

def decimalValue (digits : Bytes) : ℕ :=
  digits.foldl (fun value digit => value * 10 + (digit.toNat - 48)) 0

/-- The text is `plus`, a number and `fish`. -/
def IsPayload (text : Bytes) (number : ℕ) : Prop :=
  ∃ plus digits fish, text = plus ++ digits ++ fish ∧ Spells (ascii "plus") plus ∧
    (digits ≠ [] ∧ ∀ c ∈ digits, isDigit c = true) ∧ Spells (ascii "fish") fish ∧
      decimalValue digits = number

/-- The text is a tag that is a payload. -/
def IsPayloadTag (text : Bytes) (number : ℕ) : Prop :=
  ∃ payload, text = 60 :: (payload ++ [62]) ∧ IsPayload payload number

def PayloadTag (text : Bytes) : Prop := ∃ number, IsPayloadTag text number

/-- The number in the first payload tag of a text. -/
def FirstPayloadTag (text : Bytes) (number : ℕ) : Prop :=
  ∃ before tag, First PayloadTag text before tag ∧ IsPayloadTag tag number

/-- The regular expressions match the payloads, and give their numbers if these fit into an
    `int64`: one matches a whole text, and the other takes the first tag of a text. -/
structure FindsPayloads (regexes : ScrapeRegexes) : Prop where
  xssPayload : ∀ text reqId, regexes.xssPayload text = some reqId ↔
    ∃ number : ℕ, IsPayload text number ∧ number < 2 ^ 63 ∧ reqId = number
  tagXssPayload : ∀ text reqId, regexes.tagXssPayload text = some reqId ↔
    ∃ number : ℕ, FirstPayloadTag text number ∧ number < 2 ^ 63 ∧ reqId = number

/-- Neither a digit nor a bracket of a tag. -/
def isPlain (c : UInt8) : Bool := !isDigit c && c != 60 && c != 62

theorem Spells.plain {word text : Bytes} (h : Spells word text)
    (hword : word.all fun letter => (letterForms letter).all fun form => form.all isPlain) :
    ∀ c ∈ text, isPlain c = true := by
  induction h with
  | nil => exact fun c hc => absurd hc List.not_mem_nil
  | cons hform _ ih =>
    rw [List.all_cons, Bool.and_eq_true] at hword
    intro c hc
    rcases List.mem_append.mp hc with hc | hc
    · exact List.all_eq_true.mp (List.all_eq_true.mp hword.1 _ hform) c hc
    · exact ih hword.2 c hc

theorem plus_plain {text : Bytes} (h : Spells (ascii "plus") text) : ∀ c ∈ text, isPlain c = true :=
  h.plain (by decide)

theorem fish_plain {text : Bytes} (h : Spells (ascii "fish") text) : ∀ c ∈ text, isPlain c = true :=
  h.plain (by decide)

theorem filter_isDigit_eq_nil {text : Bytes} (h : ∀ c ∈ text, isPlain c = true) :
    text.filter isDigit = [] := by
  apply List.filter_eq_nil_iff.mpr
  intro c hc hdigit
  have hplain := h c hc
  rw [isPlain, hdigit] at hplain
  cases hplain

/-- The digits of a payload are its number. -/
theorem IsPayload.number_eq {text : Bytes} {number : ℕ} (h : IsPayload text number) :
    decimalValue (text.filter isDigit) = number := by
  obtain ⟨plus, digits, fish, rfl, hplus, ⟨_, hdigits⟩, hfish, hvalue⟩ := h
  have hall : digits.filter isDigit = digits := List.filter_eq_self.mpr hdigits
  rw [List.filter_append, List.filter_append, filter_isDigit_eq_nil (plus_plain hplus),
    filter_isDigit_eq_nil (fish_plain hfish), hall, List.nil_append, List.append_nil, hvalue]

theorem IsPayload.number_unique {text : Bytes} {number number' : ℕ} (h : IsPayload text number)
    (h' : IsPayload text number') : number = number' := by
  rw [← h.number_eq, h'.number_eq]

theorem IsPayload.any_isDigit {text : Bytes} {number : ℕ} (h : IsPayload text number) :
    text.any isDigit = true := by
  obtain ⟨plus, digits, fish, rfl, _, ⟨hne, hdigits⟩, _⟩ := h
  obtain ⟨digit, hmem⟩ := List.exists_mem_of_ne_nil digits hne
  exact List.any_eq_true.mpr ⟨digit,
    List.mem_append_left _ (List.mem_append_right _ hmem), hdigits digit hmem⟩

theorem IsPayload.no_bracket {text : Bytes} {number : ℕ} (h : IsPayload text number) :
    ∀ c ∈ text, c ≠ 60 ∧ c ≠ 62 := by
  obtain ⟨plus, digits, fish, rfl, hplus, ⟨_, hdigits⟩, hfish, _⟩ := h
  have hplain {c : UInt8} (hc : isPlain c = true) : c ≠ 60 ∧ c ≠ 62 := by
    simp only [isPlain, Bool.and_eq_true, bne_iff_ne] at hc
    exact ⟨hc.1.2, hc.2⟩
  intro c hc
  rcases List.mem_append.mp hc with hc | hc
  · rcases List.mem_append.mp hc with hc | hc
    · exact hplain (plus_plain hplus c hc)
    · have hdigit := hdigits c hc
      constructor
      · rintro rfl
        cases hdigit
      · rintro rfl
        cases hdigit
  · exact hplain (fish_plain hfish c hc)

theorem IsPayloadTag.number_unique {text : Bytes} {number number' : ℕ}
    (h : IsPayloadTag text number) (h' : IsPayloadTag text number') : number = number' := by
  obtain ⟨payload, rfl, hpayload⟩ := h
  obtain ⟨payload', heq, hpayload'⟩ := h'
  rw [List.cons.injEq] at heq
  obtain rfl := List.append_cancel_right heq.2
  exact hpayload.number_unique hpayload'

/-- No payload tag starts within another. -/
theorem payloadTag_apart : Apart PayloadTag where
  unique := by
    rintro text _ _ ⟨number, payload, rfl, hpayload⟩ ⟨number', payload', rfl, hpayload'⟩
      ⟨rest, hrest⟩ ⟨rest', hrest'⟩
    have hheads := hrest.trans hrest'.symm
    simp only [List.cons_append, List.append_assoc, List.nil_append, List.cons.injEq,
      true_and] at hheads
    have hend {payload : Bytes} (h : ∀ c ∈ payload, c ≠ 60 ∧ c ≠ 62) (rest : Bytes) :
        (payload ++ 62 :: rest).takeWhile (· ≠ 62) = payload := by
      rw [List.takeWhile_append_of_pos fun c hc => by simpa using (h c hc).2]
      simp
    have hsame := congrArg (List.takeWhile (· ≠ 62)) hheads
    rw [hend hpayload.no_bracket, hend hpayload'.no_bracket] at hsame
    rw [hsame]
  apart := by
    rintro text before _ before' _ ⟨⟨number, payload, rfl, hpayload⟩, rest, rfl⟩
      ⟨⟨number', payload', rfl, _⟩, rest', hrest'⟩ hlt
    by_contra hwithin
    -- The byte at which the later tag starts is one of the earlier one, and not its first.
    have hbyte : (before ++ 60 :: (payload ++ [62]) ++ rest)[before'.length]? = some 60 := by
      rw [← hrest', List.append_assoc, List.getElem?_append_right (Nat.le_refl _)]
      simp
    rw [List.getElem?_append_left (Nat.lt_of_not_le hwithin),
      List.getElem?_append_right (Nat.le_of_lt hlt)] at hbyte
    obtain ⟨i, hi⟩ : ∃ i, before'.length - before.length = i + 1 :=
      Nat.exists_eq_succ_of_ne_zero (by omega)
    rw [hi, List.getElem?_cons_succ] at hbyte
    rcases List.mem_append.mp (List.mem_of_getElem? hbyte) with hmem | hmem
    · exact (hpayload.no_bracket 60 hmem).1 rfl
    · cases List.mem_singleton.mp hmem

theorem FirstPayloadTag.number_unique {text : Bytes} {number number' : ℕ}
    (h : FirstPayloadTag text number) (h' : FirstPayloadTag text number') : number = number' := by
  obtain ⟨before, tag, hfirst, hnumber⟩ := h
  obtain ⟨before', tag', hfirst', hnumber'⟩ := h'
  obtain ⟨rfl, rfl⟩ := hfirst.eq payloadTag_apart hfirst'
  exact hnumber.number_unique hnumber'

section
variable {found : Option Int} {condition : ℕ → Prop}

/-- What a regular expression finds whose match has one number. -/
theorem found_eq
    (hfound : ∀ reqId, found = some reqId ↔
      ∃ number : ℕ, condition number ∧ number < 2 ^ 63 ∧ reqId = number)
    (hunique : ∀ number number', condition number → condition number' → number = number')
    {number : ℕ} (hnumber : condition number) :
    found = if number < 2 ^ 63 then some (number : Int) else none := by
  split
  · rename_i hfits
    exact (hfound _).mpr ⟨number, hnumber, hfits, rfl⟩
  · rename_i hlarge
    rw [Option.eq_none_iff_forall_ne_some]
    intro reqId heq
    obtain ⟨number', hnumber', hfits, _⟩ := (hfound _).mp heq
    rw [hunique _ _ hnumber' hnumber] at hfits
    exact hlarge hfits

theorem found_eq_none
    (hfound : ∀ reqId, found = some reqId ↔
      ∃ number : ℕ, condition number ∧ number < 2 ^ 63 ∧ reqId = number)
    (hnone : ¬ ∃ number, condition number) : found = none := by
  rw [Option.eq_none_iff_forall_ne_some]
  intro reqId heq
  obtain ⟨number, hnumber, _⟩ := (hfound _).mp heq
  exact hnone ⟨number, hnumber⟩

end

theorem FirstPayloadTag.not_nil {number : ℕ} : ¬ FirstPayloadTag [] number := by
  rintro ⟨before, tag, hfirst, payload, rfl, _⟩
  have hlength := hfirst.1.2.length_le
  simp at hlength

section
variable {text before tag : Bytes} {number : ℕ}

/-- A text that is cut off keeps its first payload tag or has none. -/
theorem firstPayloadTag_take_iff (hfirst : First PayloadTag text before tag)
    (hnumber : IsPayloadTag tag number) (n number' : ℕ) :
    FirstPayloadTag (text.take n) number' ↔ (before ++ tag).length ≤ n ∧ number' = number := by
  constructor
  · rintro ⟨before', tag', hfirst', hnumber'⟩
    have hle := (hfirst.occurs_take_iff payloadTag_apart n).mp ⟨before', tag', hfirst'.1⟩
    obtain ⟨rfl, rfl⟩ := hfirst'.eq payloadTag_apart (hfirst.take hle)
    exact ⟨hle, hnumber'.number_unique hnumber⟩
  · rintro ⟨hle, rfl⟩
    exact ⟨before, tag, hfirst.take hle, hnumber⟩

theorem FindsPayloads.of_first {regexes : ScrapeRegexes} (hfinds : FindsPayloads regexes)
    (hfirst : First PayloadTag text before tag) (hnumber : IsPayloadTag tag number) :
    regexes.tagXssPayload text = if number < 2 ^ 63 then some (number : Int) else none :=
  found_eq (hfinds.tagXssPayload text) (fun _ _ h h' => h.number_unique h')
    ⟨before, tag, hfirst, hnumber⟩

theorem FindsPayloads.of_none {regexes : ScrapeRegexes} (hfinds : FindsPayloads regexes)
    (hnone : ¬ ∃ before tag, First PayloadTag text before tag) :
    regexes.tagXssPayload text = none := by
  apply found_eq_none (hfinds.tagXssPayload text)
  rintro ⟨number, before, tag, hfirst, _⟩
  exact hnone ⟨before, tag, hfirst⟩

theorem FindsPayloads.of_payload {regexes : ScrapeRegexes} (hfinds : FindsPayloads regexes)
    (hpayload : IsPayload text number) :
    regexes.xssPayload text = if number < 2 ^ 63 then some (number : Int) else none :=
  found_eq (hfinds.xssPayload text) (fun _ _ h h' => h.number_unique h') hpayload

theorem FindsPayloads.of_other {regexes : ScrapeRegexes} (hfinds : FindsPayloads regexes)
    (hother : ¬ ∃ number, IsPayload text number) : regexes.xssPayload text = none :=
  found_eq_none (hfinds.xssPayload text) hother

end

/-- A tag starts here that has a digit in it. -/
def startsWithDigitTag (text : Bytes) : Bool :=
  text.head? == some 60 && (text.takeWhile (· ≠ 62)).any isDigit

theorem startsWithDigitTag_of_occurs {text before tag : Bytes}
    (h : Occurs PayloadTag text before tag) :
    startsWithDigitTag (text.drop before.length) = true := by
  obtain ⟨⟨number, payload, rfl, hpayload⟩, rest, rfl⟩ := h
  have hdrop : (before ++ 60 :: (payload ++ [62]) ++ rest).drop before.length =
      60 :: (payload ++ 62 :: rest) := by simp
  have hword : (60 :: (payload ++ 62 :: rest)).takeWhile (· ≠ 62) = 60 :: payload := by
    rw [List.takeWhile_cons_of_pos (by decide), List.takeWhile_append_of_pos fun c hc => by
      simpa using (hpayload.no_bracket c hc).2]
    simp
  rw [hdrop, startsWithDigitTag, hword, List.any_cons, hpayload.any_isDigit, Bool.or_true]
  rfl

/-- Where no such tag starts in the first part of a text, no payload tag does. -/
theorem le_length_of_occurs {text before tag : Bytes} {n : ℕ}
    (hnone : ∀ i < n, startsWithDigitTag (text.drop i) = false)
    (h : Occurs PayloadTag text before tag) : n ≤ before.length := by
  by_contra hearlier
  have hstarts := startsWithDigitTag_of_occurs h
  rw [hnone before.length (Nat.lt_of_not_le hearlier)] at hstarts
  cases hstarts

theorem spells_self (word : Bytes) : Spells word word := by
  induction word with
  | nil => exact .nil
  | cons letter word ih =>
    have hform : [letter] ∈ letterForms letter := List.mem_cons_self
    exact .cons hform ih

section
open Classical

/-- The number that satisfies a condition, where it fits into an `int64`. -/
noncomputable def fittingNumber (condition : ℕ → Prop) : Option Int :=
  if h : ∃ number, condition number ∧ number < 2 ^ 63 then some h.choose else none

theorem fittingNumber_eq_some_iff {condition : ℕ → Prop}
    (hunique : ∀ number number', condition number → condition number' → number = number')
    (reqId : Int) : fittingNumber condition = some reqId ↔
      ∃ number : ℕ, condition number ∧ number < 2 ^ 63 ∧ reqId = number := by
  unfold fittingNumber
  split
  · rename_i h
    obtain ⟨hnumber, hfits⟩ := h.choose_spec
    constructor
    · intro heq
      exact ⟨h.choose, hnumber, hfits, (Option.some.inj heq).symm⟩
    · rintro ⟨number, hnumber', _, rfl⟩
      rw [hunique _ _ hnumber hnumber']
  · rename_i h
    constructor
    · intro heq
      cases heq
    · rintro ⟨number, hnumber, hfits, _⟩
      exact absurd ⟨number, hnumber, hfits⟩ h

/-- Regular expressions that match the payloads, and no URLs. -/
noncomputable def payloadRegexes : ScrapeRegexes where
  xssPayload text := fittingNumber (IsPayload text)
  tagXssPayload text := fittingNumber (FirstPayloadTag text)
  isRelativeUrl _ := false
  isAbsoluteUrl _ := false
  absoluteUrls _ := []

theorem payloadRegexes_finds : FindsPayloads payloadRegexes where
  xssPayload _ _ := fittingNumber_eq_some_iff (fun _ _ h h' => h.number_unique h') _
  tagXssPayload _ _ := fittingNumber_eq_some_iff (fun _ _ h h' => h.number_unique h') _

end

end util

end plusfish

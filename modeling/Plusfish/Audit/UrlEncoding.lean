import Plusfish.Audit.GenericGenerator
import Plusfish.Library.PercentEncoding

open percent_encoding

namespace plusfish

namespace util

theorem encodeUrlToken_cons (c : UInt8) (token : Bytes) :
    encodeUrlToken (c :: token) =
      (if !isAlnum c && !kUrlEncodeIgnoreChars.contains c then 37 :: hexChar c else [c]) ++
        encodeUrlToken token := by
  rw [encodeUrlToken, encodeUrlToken, encodeUrlTokenPartial, List.flatMap_cons]
  rfl

/-! How a byte is written depends on where it is between 0 and 255. -/

theorem hexChar_control : ∀ c < 16, isAlnum c = false ∧ kUrlEncodeIgnoreChars.contains c = false ∧
    hexChar c = [hexDigit c] :=
  forall_byte (by decide +kernel)

theorem hexChar_ascii : ∀ c, 16 ≤ c → c < 128 →
    hexChar c = [hexDigit (c / 16), hexDigit (c % 16)] ∧ 16 * (c / 16) + c % 16 = c :=
  forall_byte (by decide +kernel)

theorem hexChar_high : ∀ c, 128 ≤ c → isAlnum c = false ∧
    kUrlEncodeIgnoreChars.contains c = false ∧
    hexChar c = ascii "ffffff" ++ [hexDigit (c / 16), hexDigit (c % 16)] :=
  forall_byte (by decide +kernel)

theorem byte_cases : ∀ c : UInt8, c < 16 ∨ (16 ≤ c ∧ c < 128) ∨ 128 ≤ c :=
  forall_byte (by decide +kernel)

theorem digits_lt : ∀ c : UInt8, c / 16 < 16 ∧ c % 16 < 16 :=
  forall_byte (by decide +kernel)

theorem hexDigit_ne_percent : ∀ n < 16, hexDigit n ≠ 37 :=
  forall_byte (by decide +kernel)

section
variable {c : UInt8} {token decoded : Bytes}

/-- A byte that is written with two digits, or as it is, is decoded to itself. -/
theorem decode_encode_ascii (hne : c ≠ 37) (hlow : 16 ≤ c) (hhigh : c < 128) :
    decode (encodeUrlToken (c :: token)) = (decode (encodeUrlToken token)).map (c :: ·) := by
  rw [encodeUrlToken_cons]
  split
  · obtain ⟨hchar, hvalue⟩ := hexChar_ascii c hlow hhigh
    obtain ⟨hdiv, hmod⟩ := digits_lt c
    rw [hchar]
    refine (decode_escape (hexValue_hexDigit _ hdiv) (hexValue_hexDigit _ hmod)
      (encodeUrlToken token)).trans ?_
    rw [hvalue]
  · exact decode_cons hne _

/-- The one digit of a control character takes the byte after it as its second one. -/
theorem decode_encode_control (hc : c < 16)
    (hdecoded : decode (encodeUrlToken (c :: token)) = some decoded) :
    ∃ digit value rest decodedRest, token = digit :: rest ∧ hexValue digit = some value ∧
      decode (encodeUrlToken rest) = some decodedRest ∧
      decoded = (16 * c + value) :: decodedRest := by
  obtain ⟨halnum, hignore, hchar⟩ := hexChar_control c hc
  rw [encodeUrlToken_cons, halnum, hignore, hchar] at hdecoded
  have hescaped : decode (37 :: hexDigit c :: encodeUrlToken token) = some decoded := hdecoded
  obtain ⟨_, low, h, value, rest, decodedRest, htext, hhigh, hlow, hrest, rfl⟩ :=
    decode_percent_eq_some hescaped
  obtain ⟨rfl, hafter⟩ := List.cons.inj htext
  rw [hexValue_hexDigit c hc] at hhigh
  cases hhigh
  cases token with
  | nil => cases hafter
  | cons digit token =>
    rw [encodeUrlToken_cons] at hafter
    split at hafter
    · obtain ⟨rfl, _⟩ := List.cons.inj hafter
      cases hlow
    · obtain ⟨rfl, rfl⟩ := List.cons.inj hafter
      exact ⟨digit, value, token, decodedRest, rfl, hlow, hrest, rfl⟩

/-- A byte that is not ASCII is decoded to seven bytes. -/
theorem decode_encode_high (hc : 128 ≤ c) :
    decode (encodeUrlToken (c :: token)) = (decode (encodeUrlToken token)).map
      (255 :: ascii "ffff" ++ [hexDigit (c / 16), hexDigit (c % 16)] ++ ·) := by
  obtain ⟨halnum, hignore, hchar⟩ := hexChar_high c hc
  obtain ⟨hdiv, hmod⟩ := digits_lt c
  have hplain : 37 ∉ ascii "ffff" ++ [hexDigit (c / 16), hexDigit (c % 16)] := by
    have hfirst := hexDigit_ne_percent _ hdiv
    have hsecond := hexDigit_ne_percent _ hmod
    simp only [List.mem_append, List.mem_cons, List.not_mem_nil, or_false, not_or]
    exact ⟨by decide, hfirst.symm, hsecond.symm⟩
  rw [encodeUrlToken_cons, halnum, hignore, hchar]
  have hf : hexValue 102 = some 15 := rfl
  have hescape := decode_escape hf hf
    ((ascii "ffff" ++ [hexDigit (c / 16), hexDigit (c % 16)]) ++ encodeUrlToken token)
  rw [decode_append hplain, Option.map_map] at hescape
  exact hescape

/-- Where the decoded text is ahead by the six digits of a byte 255, it stays ahead. -/
theorem decode_encode_ne_of_ahead
    (hdecoded : decode (encodeUrlToken token) = some decoded) :
    token ≠ ascii "ffffff" ++ decoded := by
  induction token generalizing decoded with
  | nil => exact fun heq => by cases heq
  | cons c token ih =>
    intro heq
    obtain ⟨rfl, htoken⟩ := List.cons.inj heq
    rw [decode_encode_ascii (by decide) (by decide) (by decide)] at hdecoded
    obtain ⟨rest, hrest, rfl⟩ := Option.map_eq_some_iff.mp hdecoded
    exact ih hrest htoken

/-- Where the decoded text has fallen behind by some bytes, it stays behind. -/
theorem decode_encode_ne_of_behind (hpercent : 37 ∉ token) {behind : Bytes} (hne : behind ≠ [])
    (hbehind : 255 ∉ behind) (hdecoded : decode (encodeUrlToken token) = some decoded) :
    decoded ≠ behind ++ token := by
  induction hlength : token.length using Nat.strong_induction_on
    generalizing token decoded behind with
  | h _ ih =>
    subst hlength
    intro heq
    obtain ⟨first, behind, rfl⟩ := List.exists_cons_of_ne_nil hne
    obtain ⟨hfirst, hbehind⟩ := not_or.mp (List.mem_cons.not.mp hbehind)
    cases token with
    | nil => simp_all [encodeUrlToken, encodeUrlTokenPartial]
    | cons c token =>
      obtain ⟨hc, hpercent⟩ := not_or.mp (List.mem_cons.not.mp hpercent)
      rcases byte_cases c with hcontrol | ⟨hlow, hascii⟩ | hhigh
      · obtain ⟨digit, value, rest, decodedRest, rfl, hdigit, hrest, rfl⟩ :=
          decode_encode_control hcontrol hdecoded
        obtain ⟨_, heq⟩ := List.cons.inj heq
        have hlater : 255 ∉ behind ++ [c, digit] := by
          simp only [List.mem_append, List.mem_cons, List.not_mem_nil, or_false, not_or]
          refine ⟨hbehind, ?_, ?_⟩
          · rintro rfl
            exact absurd hcontrol (by decide)
          · rintro rfl
            cases hdigit
        have hshorter : rest.length < (c :: digit :: rest).length := by
          simp only [List.length_cons]
          omega
        refine ih rest.length hshorter (fun hmem => hpercent (List.mem_cons_of_mem _ hmem))
          (by simp) hlater hrest rfl ?_
        rw [heq, List.append_assoc]
        rfl
      · rw [decode_encode_ascii (Ne.symm hc) hlow hascii] at hdecoded
        obtain ⟨decodedRest, hrest, rfl⟩ := Option.map_eq_some_iff.mp hdecoded
        obtain ⟨_, heq⟩ := List.cons.inj heq
        have hlater : 255 ∉ behind ++ [c] := by
          simp only [List.mem_append, List.mem_singleton, not_or]
          refine ⟨hbehind, ?_⟩
          rintro rfl
          exact absurd hascii (by decide)
        refine ih token.length (Nat.lt_succ_self _) hpercent (by simp) hlater hrest rfl ?_
        rw [heq, List.append_assoc]
        rfl
      · rw [decode_encode_high hhigh] at hdecoded
        obtain ⟨decodedRest, _, rfl⟩ := Option.map_eq_some_iff.mp hdecoded
        exact hfirst (List.cons.inj heq).1

end

/-- A payload that is encoded for a URL decodes to itself if it is of ASCII characters that are
    written with two digits. -/
theorem decode_encodeUrlToken_iff {s : Bytes} (hpercent : 37 ∉ s) :
    decode (encodeUrlToken s) = some s ↔ ∀ c ∈ s, 16 ≤ c ∧ c < 128 := by
  induction s with
  | nil => simp [encodeUrlToken, encodeUrlTokenPartial]
  | cons c s ih =>
    obtain ⟨hc, hpercent⟩ := not_or.mp (List.mem_cons.not.mp hpercent)
    rw [List.forall_mem_cons]
    rcases byte_cases c with hcontrol | ⟨hlow, hascii⟩ | hhigh
    · refine ⟨fun hdecoded => ?_, fun h => absurd hcontrol (UInt8.not_lt.mpr h.1.1)⟩
      obtain ⟨digit, value, rest, decodedRest, rfl, hdigit, hrest, heq⟩ :=
        decode_encode_control hcontrol hdecoded
      have hplain : 255 ∉ [digit] := by
        rw [List.mem_singleton]
        rintro rfl
        cases hdigit
      exact absurd (List.cons.inj heq).2.symm (decode_encode_ne_of_behind
        (fun hmem => hpercent (List.mem_cons_of_mem _ hmem)) (List.cons_ne_nil _ _) hplain hrest)
    · rw [decode_encode_ascii (Ne.symm hc) hlow hascii]
      simp [← ih hpercent, hlow, hascii]
    · refine ⟨fun hdecoded => ?_, fun h => absurd hhigh (UInt8.not_le.mpr h.1.2)⟩
      rw [decode_encode_high hhigh] at hdecoded
      obtain ⟨decodedRest, hrest, heq⟩ := Option.map_eq_some_iff.mp hdecoded
      obtain ⟨rfl, heq⟩ := List.cons.inj heq
      exact absurd heq.symm (decode_encode_ne_of_ahead hrest)

theorem decode_encodeUrlToken_quoted :
    decode (encodeUrlToken (ascii "' or 1=1")) = some (ascii "' or 1=1") :=
  (decode_encodeUrlToken_iff (by decide)).mpr (by decide +kernel)

/-- A line feed is written with one digit. -/
theorem not_decode_encodeUrlToken :
    ¬ ∀ s : Bytes, 37 ∉ s → decode (encodeUrlToken s) = some s := by
  intro h
  have hundecodable : decode (encodeUrlToken [10]) = none := by decide +kernel
  have hdecoded := h [10] (by decide)
  rw [hundecodable] at hdecoded
  cases hdecoded

end util

end plusfish

import Mathlib.Data.List.Basic
import Mathlib.Tactic.Common

/-! Percent-encoding: a percent sign and two hexadecimal digits stand for a byte. -/

namespace percent_encoding

/-- The value of a hexadecimal digit. -/
def hexValue (c : UInt8) : Option UInt8 :=
  if 48 ≤ c ∧ c ≤ 57 then some (c - 48)
  else if 65 ≤ c ∧ c ≤ 70 then some (c - 55)
  else if 97 ≤ c ∧ c ≤ 102 then some (c - 87)
  else none

/-- The digit with a value, in lower case. -/
def hexDigit (n : UInt8) : UInt8 := if n < 10 then 48 + n else 87 + n

/-- The text that is encoded. There is none where a percent sign is not followed by two digits. -/
def decode : List UInt8 → Option (List UInt8)
  | [] => some []
  | c :: text =>
    if c = 37 then
      match text with
      | high :: low :: text =>
        match hexValue high, hexValue low with
        | some high, some low => (decode text).map ((16 * high + low) :: ·)
        | _, _ => none
      | _ => none
    else (decode text).map (c :: ·)

/-- What holds of all bytes is decided byte by byte. -/
theorem forall_byte {P : UInt8 → Prop} (h : ∀ n : Fin 256, P (UInt8.ofFin n)) (c : UInt8) : P c :=
  h c.toFin

theorem hexValue_hexDigit : ∀ n < 16, hexValue (hexDigit n) = some n :=
  forall_byte (by decide +kernel)

@[simp] theorem decode_nil : decode [] = some [] := rfl

theorem decode_cons {c : UInt8} (hc : c ≠ 37) (text : List UInt8) :
    decode (c :: text) = (decode text).map (c :: ·) := by
  cases text with
  | nil => simp [decode, hc]
  | cons c' text => rw [decode.eq_def]; simp [hc]

theorem decode_append {start : List UInt8} (hstart : 37 ∉ start) (text : List UInt8) :
    decode (start ++ text) = (decode text).map (start ++ ·) := by
  induction start with
  | nil => simp
  | cons c start ih =>
    rw [List.mem_cons, not_or] at hstart
    rw [List.cons_append, decode_cons (Ne.symm hstart.1), ih hstart.2, Option.map_map]
    rfl

theorem decode_escape {high low h l : UInt8} (hhigh : hexValue high = some h)
    (hlow : hexValue low = some l) (text : List UInt8) :
    decode (37 :: high :: low :: text) = (decode text).map ((16 * h + l) :: ·) := by
  rw [decode.eq_def]
  simp [hhigh, hlow]

/-- What is decoded after a percent sign starts with two digits. -/
theorem decode_percent_eq_some {text decoded : List UInt8}
    (hdecoded : decode (37 :: text) = some decoded) :
    ∃ high low h l rest decodedRest, text = high :: low :: rest ∧ hexValue high = some h ∧
      hexValue low = some l ∧ decode rest = some decodedRest ∧
      decoded = (16 * h + l) :: decodedRest := by
  match text with
  | [] | [_] => simp [decode] at hdecoded
  | high :: low :: rest =>
    cases hhigh : hexValue high with
    | none => simp [decode, hhigh] at hdecoded
    | some h =>
      cases hlow : hexValue low with
      | none => simp [decode, hhigh, hlow] at hdecoded
      | some l =>
        rw [decode_escape hhigh hlow] at hdecoded
        obtain ⟨decodedRest, hrest, rfl⟩ := Option.map_eq_some_iff.mp hdecoded
        exact ⟨high, low, h, l, rest, decodedRest, rfl, hhigh, hlow, hrest, rfl⟩

end percent_encoding

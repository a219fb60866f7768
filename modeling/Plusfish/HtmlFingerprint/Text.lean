import Mathlib.Data.List.Basic
import Plusfish.HtmlFingerprint
import Plusfish.Library.Splitting

namespace plusfish

theorem ofUInt8_toUInt8 {c : Char} (hc : c.toNat < 256) : Char.ofUInt8 c.toUInt8 = c := by
  apply Char.toNat_inj.mp
  have hval : c.val.toUInt8.toNat = c.toNat := by
    rw [UInt32.toNat_toUInt8]
    exact Nat.mod_eq_of_lt hc
  exact hval

theorem isDigit_of_mem_toDigits {n : ℕ} {c : Char} (hc : c ∈ Nat.toDigits 10 n) :
    48 ≤ c.toNat ∧ c.toNat ≤ 57 :=
  Char.isDigit_iff_toNat.mp (Nat.isDigit_of_mem_toDigits (by decide) (by decide) hc)

theorem decimal_natCast (n : ℕ) : decimal n = (Nat.toDigits 10 n).map Char.toUInt8 := by
  rw [decimal, if_neg (by omega), Int.natAbs_natCast]

/-- The digits of a number lead back to it. -/
theorem ofDigitChars_decimal (n : ℕ) :
    Nat.ofDigitChars 10 ((decimal n).map Char.ofUInt8) 0 = n := by
  have hback : (Nat.toDigits 10 n).map (Char.ofUInt8 ∘ Char.toUInt8) = Nat.toDigits 10 n := by
    rw [List.map_congr_left (g := id) fun c hc => ?_, List.map_id]
    have hdigit := isDigit_of_mem_toDigits hc
    exact ofUInt8_toUInt8 (by omega)
  rw [decimal_natCast, List.map_map, hback, Nat.ofDigitChars_ten_toDigits]

theorem decimal_injective {m n : ℕ} (h : decimal m = decimal n) : m = n := by
  rw [← ofDigitChars_decimal m, h, ofDigitChars_decimal]

theorem space_not_mem_decimal (n : ℕ) : (32 : UInt8) ∉ decimal n := by
  rw [decimal_natCast, List.mem_map]
  rintro ⟨c, hc, heq⟩
  have hdigit := isDigit_of_mem_toDigits hc
  have hval : c.toUInt8.toNat = c.toNat := by
    rw [Char.toUInt8, UInt32.toNat_toUInt8]
    exact Nat.mod_eq_of_lt (show c.toNat < 2 ^ 8 by omega)
  rw [heq] at hval
  have hspace : (32 : UInt8).toNat = 32 := rfl
  omega

namespace HtmlFingerprint

/-- The text has the counters as words, each with a space after it. -/
theorem toString_eq (fp : HtmlFingerprint) :
    fp.toString =
      (fp.wordSizeCnt.toList.map fun count => decimal count.toNat).flatMap (· ++ [32]) := by
  rw [toString, List.flatMap_map]
  rfl

theorem toString_injective {a b : HtmlFingerprint} (h : a.toString = b.toString) :
    a.wordSizeCnt = b.wordSizeCnt := by
  have hplain (fp : HtmlFingerprint) : ∀ word ∈
      fp.wordSizeCnt.toList.map (fun count => decimal count.toNat), (32 : UInt8) ∉ word := by
    intro word hword
    obtain ⟨count, _, rfl⟩ := List.mem_map.mp hword
    exact space_not_mem_decimal _
  rw [toString_eq, toString_eq] at h
  have hwords := splitting.terminated_injective (hplain a) (hplain b) h
  have hcounts : Function.Injective fun count : UInt32 => decimal count.toNat := by
    intro count count' heq
    exact UInt32.toNat_inj.mp (decimal_injective heq)
  exact Vector.toList_inj.mp (List.map_injective_iff.mpr hcounts hwords)

end HtmlFingerprint

end plusfish

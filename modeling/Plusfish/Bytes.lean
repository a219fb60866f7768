import Mathlib.Algebra.Ring.Int.Defs
import Mathlib.Data.UInt
import Plusfish.Library.Splitting

open splitting

namespace plusfish

/-- A `std::string`: any bytes, a zero byte included. -/
abbrev Bytes := List UInt8

/-- The bytes of a string literal of the source, all of which are ASCII. -/
def ascii (literal : String) : Bytes := literal.toList.map Char.toUInt8

/-- What remains of a string that passes through `c_str()` into a function that
    takes it as terminated by a zero byte. -/
def cStr (s : Bytes) : Bytes := s.takeWhile (· ≠ 0)

theorem cStr_eq_self {s : Bytes} (h : 0 ∉ s) : cStr s = s := by
  unfold cStr
  rw [List.takeWhile_eq_self_iff]
  intro c hc
  have hne : c ≠ 0 := fun heq => h (heq ▸ hc)
  simpa using hne

theorem cStr_append_of_not_mem {before : Bytes} (hbefore : 0 ∉ before) (after : Bytes) :
    cStr (before ++ after) = before ++ cStr after := by
  apply List.takeWhile_append_of_pos
  intro c hc
  have hne : c ≠ 0 := fun heq => hbefore (heq ▸ hc)
  simpa using hne

theorem cStr_append_of_mem {before : Bytes} (hbefore : 0 ∈ before) (after : Bytes) :
    cStr (before ++ after) = cStr before := by
  unfold cStr
  have hshort : (before.takeWhile (· ≠ 0)).length ≠ before.length := by
    intro hlength
    have hall := List.takeWhile_eq_self_iff.mp
      ((List.takeWhile_prefix _).eq_of_length hlength) 0 hbefore
    simp at hall
  rw [List.takeWhile_append, if_neg hshort]

theorem cStr_isPrefix (s : Bytes) : cStr s <+: s := List.takeWhile_prefix _

theorem zero_not_mem_cStr (s : Bytes) : (0 : UInt8) ∉ cStr s := by
  intro hmem
  have hpos := List.mem_takeWhile_imp hmem
  simp at hpos

theorem length_cStr_lt {s : Bytes} (hs : 0 ∈ s) : (cStr s).length < s.length := by
  apply lt_of_le_of_ne (cStr_isPrefix s).length_le
  intro hlength
  have hmem : 0 ∈ cStr s := by
    rw [(cStr_isPrefix s).eq_of_length hlength]
    exact hs
  exact zero_not_mem_cStr s hmem

/-- The conversion of an `int32_t` to `size_t` in a comparison with a size. -/
def sizeT (n : Int32) : Nat := (n.toInt % 2 ^ 64).toNat

theorem sizeT_of_nonneg {n : Int32} (h : 0 ≤ n.toInt) : (sizeT n : Int) = n.toInt := by
  have hbound := n.toInt_lt
  rw [sizeT, Int.emod_eq_of_lt h (by omega), Int.toNat_of_nonneg h]

theorem sizeT_pos {n : Int32} (h : 1 ≤ n.toInt) : 0 < sizeT n := by
  have heq := sizeT_of_nonneg (n := n) (by omega)
  omega

/-- `std::to_string`, `%d` and the like. -/
def decimal (n : Int) : Bytes :=
  let digits := (Nat.toDigits 10 n.natAbs).map Char.toUInt8
  if n < 0 then ascii "-" ++ digits else digits

/-- `tolower` in the C locale. -/
def toLower (c : UInt8) : UInt8 := if 65 ≤ c ∧ c ≤ 90 then c + 32 else c

theorem toLower_eq_zero_iff (c : UInt8) : toLower c = 0 ↔ c = 0 := by
  unfold toLower
  split
  · rename_i hupper
    constructor
    · intro h
      have hbound := UInt8.le_iff_toNat_le.mp hupper.2
      have hsum := congrArg UInt8.toNat h
      rw [UInt8.toNat_add] at hsum
      simp at hsum hbound
      omega
    · rintro rfl
      exact absurd hupper.1 (by decide)
  · rfl

theorem map_toLower_cStr (s : Bytes) : (cStr s).map toLower = cStr (s.map toLower) := by
  rw [cStr, cStr, List.takeWhile_map]
  congr 2
  funext c
  simp [toLower_eq_zero_iff]

/-- `isalnum` in the C locale. -/
def isAlnum (c : UInt8) : Bool :=
  (48 ≤ c && c ≤ 57) || (65 ≤ c && c ≤ 90) || (97 ≤ c && c ≤ 122)

/-- `isspace` in the C locale. -/
def isSpace (c : UInt8) : Bool := c == 32 || (9 ≤ c && c ≤ 13)

/-- The two names are the same, apart from the case of their letters. -/
def SameName (name name' : Bytes) : Prop := name.map toLower = name'.map toLower

instance (name name' : Bytes) : Decidable (SameName name name') :=
  inferInstanceAs (Decidable (_ = _))

/-- `strcasecmp(a, b) == 0`. -/
def strCaseEq (a b : Bytes) : Bool := (cStr a).map toLower == (cStr b).map toLower

/-- `strncasecmp(a, b, n) == 0`. -/
def strNCaseEq (a b : Bytes) (n : Nat) : Bool :=
  ((cStr a).take n).map toLower == ((cStr b).take n).map toLower

/-- `strcmp(a, b) == 0`. -/
def strEq (a b : Bytes) : Bool := cStr a == cStr b

/-- `strncmp(a, b, n) == 0`. -/
def strNEq (a b : Bytes) (n : Nat) : Bool := (cStr a).take n == (cStr b).take n

theorem strNEq_iff_isPrefix {start : Bytes} (hstart : 0 ∉ start) (s : Bytes) :
    strNEq start s start.length = true ↔ start <+: s := by
  have hwhole : (cStr start).take start.length = start := by
    rw [cStr_eq_self hstart, List.take_length]
  rw [strNEq, hwhole, beq_iff_eq]
  constructor
  · intro heq
    rw [heq]
    exact (List.take_prefix _ _).trans (cStr_isPrefix _)
  · rintro ⟨rest, rfl⟩
    rw [cStr_append_of_not_mem hstart, List.take_left]

/-- `strstr(haystack, needle) != nullptr`. -/
def strStr (haystack needle : Bytes) : Bool :=
  (cStr haystack).tails.any (cStr needle).isPrefixOf

/-- `strcasestr(haystack, needle) != nullptr`. -/
def strCaseStr (haystack needle : Bytes) : Bool :=
  ((cStr haystack).map toLower).tails.any ((cStr needle).map toLower).isPrefixOf

/-- `absl::StrSplit(s, c)`. -/
def strSplit (s : Bytes) (c : UInt8) : List Bytes := s.splitOn c

/-- `absl::StrSplit(s, absl::ByAnyChar(chars), absl::SkipEmpty())`. -/
def strSplitAnySkipEmpty (s chars : Bytes) : List Bytes :=
  (s.splitOnP (chars.contains ·)).filter (· ≠ [])

theorem strSplitAnySkipEmpty_cons {line chars : Bytes} (hline : ∀ c ∈ line, c ∉ chars)
    (hne : line ≠ []) {c : UInt8} (hc : c ∈ chars) (rest : Bytes) :
    strSplitAnySkipEmpty (line ++ c :: rest) chars = line :: strSplitAnySkipEmpty rest chars :=
  runs_append_cons (by simpa using hline) hne (by simpa using hc) rest

theorem strSplitAnySkipEmpty_single {line chars : Bytes} (hline : ∀ c ∈ line, c ∉ chars)
    (hne : line ≠ []) : strSplitAnySkipEmpty line chars = [line] :=
  runs_eq_singleton (by simpa using hline) hne

theorem strSplitAnySkipEmpty_skip {chars : Bytes} {c : UInt8} (hc : c ∈ chars) (rest : Bytes) :
    strSplitAnySkipEmpty (c :: rest) chars = strSplitAnySkipEmpty rest chars :=
  runs_skip (by simpa using hc) rest

theorem strSplitAnySkipEmpty_eq_nil_iff {s chars : Bytes} :
    strSplitAnySkipEmpty s chars = [] ↔ ∀ c ∈ s, c ∈ chars := by
  rw [strSplitAnySkipEmpty, ← runs, runs_eq_nil_iff]
  simp

end plusfish

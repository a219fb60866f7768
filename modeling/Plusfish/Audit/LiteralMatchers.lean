import Mathlib.Data.List.Infix
import Plusfish.Audit.Matchers

namespace plusfish

theorem any_tails_isPrefixOf_iff (haystack needle : Bytes) :
    haystack.tails.any needle.isPrefixOf = true ↔ needle <:+: haystack := by
  simp only [List.any_eq_true, List.mem_tails, List.isPrefixOf_iff_prefix,
    List.infix_iff_prefix_suffix]
  constructor
  · rintro ⟨tail, hsuffix, hinitial⟩
    exact ⟨tail, hinitial, hsuffix⟩
  · rintro ⟨tail, hinitial, hsuffix⟩
    exact ⟨tail, hsuffix, hinitial⟩

namespace MatchRule.Match

/-- A text as the matchers compare it: in lower case where case does not matter. -/
def folded (match_ : Match) (s : Bytes) : Bytes :=
  if match_.caseInsensitive then s.map toLower else s

/-- Some value is a substring of the content. -/
def Contained (match_ : Match) (content : Bytes) : Prop :=
  ∃ value ∈ match_.value, match_.folded value <:+: match_.folded content

/-- Some value is the content. -/
def Equal (match_ : Match) (content : Bytes) : Prop :=
  ∃ value ∈ match_.value, match_.folded value = match_.folded content

/-- Some value is a prefix of the content. -/
def Starts (match_ : Match) (content : Bytes) : Prop :=
  ∃ value ∈ match_.value, match_.folded value <+: match_.folded content

theorem cStr_folded (match_ : Match) (s : Bytes) :
    cStr (match_.folded s) = match_.folded (cStr s) := by
  unfold folded
  split
  · exact (map_toLower_cStr s).symm
  · rfl

theorem zero_mem_folded (match_ : Match) (s : Bytes) : 0 ∈ match_.folded s ↔ 0 ∈ s := by
  unfold folded
  split
  · simp [toLower_eq_zero_iff]
  · rfl

end MatchRule.Match

open MatchRule (Match)

theorem ContainsMatcher.matchSingle_iff (match_ : Match) (value content : Bytes) :
    matchSingle match_ value content = true ↔
      cStr (match_.folded value) <:+: cStr (match_.folded content) := by
  rw [match_.cStr_folded, match_.cStr_folded, ← any_tails_isPrefixOf_iff, matchSingle,
    Match.folded, Match.folded]
  split
  · rfl
  · rfl

theorem EqualsMatcher.matchSingle_iff (match_ : Match) (value content : Bytes) :
    matchSingle match_ value content = true ↔
      cStr (match_.folded value) = cStr (match_.folded content) := by
  rw [match_.cStr_folded, match_.cStr_folded, matchSingle, Match.folded, Match.folded]
  split
  · exact beq_iff_eq
  · exact beq_iff_eq

theorem PrefixMatcher.matchSingle_iff (match_ : Match) (value content : Bytes) :
    matchSingle match_ value content = true ↔
      (cStr (match_.folded content)).take value.length = cStr (match_.folded value) := by
  have htake : (cStr value).take value.length = cStr value :=
    List.take_of_length_le (cStr_isPrefix value).length_le
  rw [match_.cStr_folded, match_.cStr_folded, matchSingle, Match.folded, Match.folded]
  split
  · rw [strNCaseEq, htake, List.map_take]
    exact beq_iff_eq
  · rw [strNEq, htake]
    exact beq_iff_eq

namespace MatchRule.Match

/-- Some value stands in the content from a position that its first zero byte is not
    before. -/
def StandsEarly (match_ : Match) (content : Bytes) : Prop :=
  ∃ value ∈ match_.value, ∃ before after,
    match_.folded content = before ++ match_.folded value ++ after ∧ 0 ∉ before

/-- Some value stands in the content past its first zero byte. -/
def StandsLate (match_ : Match) (content : Bytes) : Prop :=
  ∃ value ∈ match_.value, ∃ before after,
    match_.folded content = before ++ match_.folded value ++ after ∧ 0 ∈ before

/-- What some value has before a zero byte in it is a substring of what the content has
    before its own. -/
def ContainedCut (match_ : Match) (content : Bytes) : Prop :=
  ∃ value ∈ match_.value, 0 ∈ value ∧
    cStr (match_.folded value) <:+: cStr (match_.folded content)

/-- Some value and the content agree up to the first zero byte of each. -/
def AgreesCut (match_ : Match) (content : Bytes) : Prop :=
  ∃ value ∈ match_.value, cStr (match_.folded value) = cStr (match_.folded content)

/-- Some value with a zero byte in it and the content agree up to the first zero byte of
    each. -/
def ZeroAgreesCut (match_ : Match) (content : Bytes) : Prop :=
  ∃ value ∈ match_.value, 0 ∈ value ∧
    cStr (match_.folded value) = cStr (match_.folded content)

variable (match_ : Match) (content : Bytes)

theorem contained_iff :
    match_.Contained content ↔ match_.StandsEarly content ∨ match_.StandsLate content := by
  constructor
  · rintro ⟨value, hvalue, before, after, heq⟩
    by_cases hzero : 0 ∈ before
    · exact Or.inr ⟨value, hvalue, before, after, heq.symm, hzero⟩
    · exact Or.inl ⟨value, hvalue, before, after, heq.symm, hzero⟩
  · rintro (⟨value, hvalue, before, after, heq, _⟩ | ⟨value, hvalue, before, after, heq, _⟩)
    · exact ⟨value, hvalue, before, after, heq.symm⟩
    · exact ⟨value, hvalue, before, after, heq.symm⟩

theorem any_contains_iff :
    match_.value.any (ContainsMatcher.matchSingle match_ · content) = true ↔
      match_.StandsEarly content ∨ match_.ContainedCut content := by
  simp only [List.any_eq_true, ContainsMatcher.matchSingle_iff]
  constructor
  · rintro ⟨value, hvalue, hinfix⟩
    by_cases hzero : 0 ∈ value
    · exact Or.inr ⟨value, hvalue, hzero, hinfix⟩
    · -- The value is whole, and lies before the first zero byte.
      have hwhole : cStr (match_.folded value) = match_.folded value :=
        cStr_eq_self (mt (match_.zero_mem_folded value).mp hzero)
      rw [hwhole] at hinfix
      obtain ⟨before, after, heq⟩ := hinfix
      obtain ⟨rest, hrest⟩ := cStr_isPrefix (match_.folded content)
      refine Or.inl ⟨value, hvalue, before, after ++ rest, ?_, fun hmem => ?_⟩
      · rw [← hrest, ← heq, List.append_assoc]
      · apply zero_not_mem_cStr (match_.folded content)
        rw [← heq, List.append_assoc]
        exact List.mem_append_left _ hmem
  · rintro (⟨value, hvalue, before, after, heq, hzero⟩ | ⟨value, hvalue, _, hinfix⟩)
    · refine ⟨value, hvalue, ?_⟩
      rw [heq, List.append_assoc, cStr_append_of_not_mem hzero]
      refine List.IsInfix.trans ?_ (List.suffix_append before _).isInfix
      by_cases hmem : 0 ∈ match_.folded value
      · rw [cStr_append_of_mem hmem]
      · rw [cStr_append_of_not_mem hmem, cStr_eq_self hmem]
        exact (List.prefix_append _ _).isInfix
    · exact ⟨value, hvalue, hinfix⟩

theorem any_equals_iff :
    match_.value.any (EqualsMatcher.matchSingle match_ · content) = true ↔
      match_.AgreesCut content := by
  simp only [List.any_eq_true, EqualsMatcher.matchSingle_iff, AgreesCut]

theorem agreesCut_of_equal (h : match_.Equal content) : match_.AgreesCut content := by
  obtain ⟨value, hvalue, heq⟩ := h
  exact ⟨value, hvalue, by rw [heq]⟩

theorem any_prefix_iff :
    match_.value.any (PrefixMatcher.matchSingle match_ · content) = true ↔
      match_.Starts content ∨ match_.ZeroAgreesCut content := by
  have hlength (value : Bytes) : (match_.folded value).length = value.length := by
    unfold folded
    split
    · exact List.length_map _
    · rfl
  simp only [List.any_eq_true, PrefixMatcher.matchSingle_iff]
  constructor
  · rintro ⟨value, hvalue, htake⟩
    by_cases hzero : 0 ∈ value
    · -- What the value has before its zero byte is too short to have been cut off.
      have hshort := length_cStr_lt ((match_.zero_mem_folded value).mpr hzero)
      have hsize := congrArg List.length htake
      rw [List.length_take] at hsize
      rw [hlength] at hshort
      rw [List.take_of_length_le (by omega)] at htake
      exact Or.inr ⟨value, hvalue, hzero, htake.symm⟩
    · have hwhole : cStr (match_.folded value) = match_.folded value :=
        cStr_eq_self (mt (match_.zero_mem_folded value).mp hzero)
      rw [hwhole] at htake
      have hinitial : match_.folded value <+: cStr (match_.folded content) := by
        rw [← htake]
        exact List.take_prefix _ _
      exact Or.inl ⟨value, hvalue, hinitial.trans (cStr_isPrefix _)⟩
  · rintro (⟨value, hvalue, after, heq⟩ | ⟨value, hvalue, hzero, hagree⟩)
    · refine ⟨value, hvalue, ?_⟩
      rw [← heq]
      by_cases hmem : 0 ∈ match_.folded value
      · have hshort := length_cStr_lt hmem
        rw [hlength] at hshort
        rw [cStr_append_of_mem hmem, List.take_of_length_le (by omega)]
      · rw [cStr_append_of_not_mem hmem, cStr_eq_self hmem, ← hlength, List.take_left]
    · have hshort := length_cStr_lt ((match_.zero_mem_folded value).mpr hzero)
      rw [hlength] at hshort
      exact ⟨value, hvalue, by rw [← hagree, List.take_of_length_le (by omega)]⟩

end MatchRule.Match

namespace Matcher

/-- The literal matchers look at whole texts exactly where nothing hangs on what follows
    the first zero byte of a value or of the content. -/
theorem matchAny_literal_iff (re2 : RE2) (getRequestMeta : RequestMetaCallback)
    (request : Request) (match_ : Match) (content : Bytes) :
    (((contains match_).matchAny re2 getRequestMeta request content = true ↔
        match_.Contained content) ↔
      match_.StandsEarly content ∨
        (match_.StandsLate content ↔ match_.ContainedCut content)) ∧
    (((equals match_).matchAny re2 getRequestMeta request content = true ↔
        match_.Equal content) ↔
      match_.Equal content ∨ ¬ match_.AgreesCut content) ∧
    (((prefixed match_).matchAny re2 getRequestMeta request content = true ↔
        match_.Starts content) ↔
      match_.Starts content ∨ ¬ match_.ZeroAgreesCut content) := by
  refine ⟨?_, ?_, ?_⟩
  · rw [matchAny, match_.any_contains_iff, match_.contained_iff]
    tauto
  · have hcut := match_.agreesCut_of_equal content
    rw [matchAny, match_.any_equals_iff]
    tauto
  · rw [matchAny, match_.any_prefix_iff]
    tauto

/-- What a matcher says of a content, where no time and no expression is looked up. -/
def answer (matcher : Matcher) (content : Bytes) : Bool :=
  matcher.matchAny { ok := fun _ => true, partialMatch := fun _ _ => false } (fun _ _ => none) {}
    content

/-- Past a zero byte, text is not found, and different texts pass for the same. -/
theorem not_literal_past_zero :
    answer (contains { value := [ascii "SQL"] }) (ascii "ab" ++ 0 :: ascii "SQL") = false ∧
    Match.Contained { value := [ascii "SQL"] } (ascii "ab" ++ 0 :: ascii "SQL") ∧
    answer (equals { value := [ascii "ab"] }) (ascii "ab" ++ 0 :: ascii "SQL") = true ∧
    ¬ Match.Equal { value := [ascii "ab"] } (ascii "ab" ++ 0 :: ascii "SQL") ∧
    answer (prefixed { value := [ascii "ab" ++ 0 :: ascii "x"] })
      (ascii "ab" ++ 0 :: ascii "SQL") = true ∧
    ¬ Match.Starts { value := [ascii "ab" ++ 0 :: ascii "x"] }
      (ascii "ab" ++ 0 :: ascii "SQL") := by
  refine ⟨by decide, ⟨ascii "SQL", List.mem_singleton_self _, ascii "ab" ++ [0], [], by decide⟩,
    by decide, ?_, by decide, ?_⟩
  · rintro ⟨value, hvalue, heq⟩
    cases List.mem_singleton.mp hvalue
    exact absurd heq (by decide)
  · rintro ⟨value, hvalue, hinitial⟩
    cases List.mem_singleton.mp hvalue
    exact absurd (List.isPrefixOf_iff_prefix.mpr hinitial) (by decide)

end Matcher

end plusfish

import Plusfish.Library.Checked
import Plusfish.Parsers.UrlAttributes
import Plusfish.Parsers.WaitingKeyword

open checked

namespace plusfish

namespace util

/-! `ScrapeJs` on the `int`s of the source. -/

/-- What `ScrapeJs` works on, the positions at which it takes a text out of the content, and the
    literals that it skips, each from its first quote to where it is taken to end. -/
structure IntScan where
  lastKeywordStart : Int := 0
  lastKeyword : Bytes := []
  anchors : List Bytes := []
  issues : List IssueDetails := []
  substrStarts : List Int := []
  literals : List (Int × Int) := []

namespace IntScan

/-- The loop of `GetQuotedTextSize`. -/
def quotedTextSizeLoop (content : Bytes) (quote : UInt8) (offset : Int) :
    (rounds : ℕ) → (charIndex : Int) → Except Fault Int
  | 0, _ => .error .rounds
  | rounds + 1, charIndex =>
    if toSize charIndex < toSize (content.length - offset) then do
      let c ← checked.get content (← int32 (offset + charIndex))
      if c = 92 then
        let charIndex ← int32 (charIndex + 1)
        quotedTextSizeLoop content quote offset rounds (← int32 (charIndex + 1))
      else if c = quote then int32 (charIndex - 1)
      else quotedTextSizeLoop content quote offset rounds (← int32 (charIndex + 1))
    else int32 (toSize (content.length - offset))

/-- `GetQuotedTextSize`, where its loop is given this many rounds. -/
def getQuotedTextSize (content : Bytes) (rounds : ℕ) (offset : Int) : Except Fault Int := do
  let quote ← checked.get content offset
  quotedTextSizeLoop content quote offset rounds 1

section
variable (regexes : ScrapeRegexes) (content : Bytes)

/-- A quoted text, which the scan skips. -/
def quotedText (self : IntScan) (charIndex quotedTextSize : Int) : Except Fault IntScan :=
  if self.lastKeyword = [] ∨ quotedTextSize = 0 then .ok self
  else do
    let start ← int32 (charIndex + 1)
    let quotedText ← substr content start quotedTextSize
    let self := { self with substrStarts := self.substrStarts ++ [start] }
    if jsKeywordSuffixMatch self.lastKeyword ∧ quotedText ≠ [] then
      .ok { self with anchors := insertAnchor self.anchors quotedText, lastKeyword := [] }
    else if regexes.isRelativeUrl quotedText || regexes.isAbsoluteUrl quotedText then
      .ok { self with anchors := insertAnchor self.anchors quotedText }
    else .ok self

/-- A character outside of quotes. -/
def char (self : IntScan) (charIndex : Int) (c : UInt8) : Except Fault IntScan :=
  if isAlnum c || c == 46 then
    if self.lastKeywordStart = -1 then .ok { self with lastKeywordStart := charIndex }
    else .ok self
  else if self.lastKeywordStart ≠ -1 then do
    let lastKeyword ← substr content self.lastKeywordStart
      (← int32 (charIndex - self.lastKeywordStart))
    let issues := match regexes.xssPayload lastKeyword with
      | none => self.issues
      | some reqId => self.issues ++ [xssInJavascript reqId]
    .ok { self with
      lastKeywordStart := -1
      lastKeyword
      issues
      substrStarts := self.substrStarts ++ [self.lastKeywordStart] }
  else .ok self

/-- The loop of `ScrapeJs`. -/
def scrapeJsLoop (sizeRounds : ℕ) :
    (rounds : ℕ) → (charIndex : Int) → IntScan → Except Fault IntScan
  | 0, _, _ => .error .rounds
  | rounds + 1, charIndex, self =>
    if toSize charIndex < content.length then do
      let c ← checked.get content charIndex
      if c = 39 ∨ c = 34 then
        let quotedTextSize ← getQuotedTextSize content sizeRounds charIndex
        let self ← self.quotedText regexes content charIndex quotedTextSize
        let last ← int32 (charIndex + (← int32 (quotedTextSize + 1)))
        let self := { self with literals := self.literals ++ [(charIndex, last)] }
        scrapeJsLoop sizeRounds rounds (← int32 (last + 1)) self
      else
        let self ← self.char regexes content charIndex c
        scrapeJsLoop sizeRounds rounds (← int32 (charIndex + 1)) self
    else .ok self

/-- `ScrapeJs`, where each loop is given this many rounds. -/
def scrapeJs (rounds : ℕ) (issues : List IssueDetails) : Except Fault IntScan :=
  scrapeJsLoop regexes content rounds rounds 0 { issues }

end

end IntScan

/-! Where a literal ends. -/

/-- The number of backslashes that are directly before a position of a literal. -/
def backslashesBefore (content : Bytes) (first : ℕ) : ℕ → ℕ
  | 0 => 0
  | i + 1 =>
    if first < i ∧ content[i]? = some 92 then backslashesBefore content first i + 1 else 0

/-- The number of backslashes before an escaped character is odd. -/
def IsEscaped (content : Bytes) (first i : ℕ) : Prop := backslashesBefore content first i % 2 = 1

/-- The closing quote of a literal is the first that is the same as the one at its start, and is
    not escaped. -/
structure Closes (content : Bytes) (first last : ℕ) : Prop where
  after : first < last
  within : last < content.length
  same : content[last]? = content[first]?
  plain : ¬ IsEscaped content first last
  earliest : ∀ i, first < i → i < last → content[i]? = content[first]? → IsEscaped content first i

/-- A literal is skipped up to its closing quote, or past the end of the content if it has none. -/
def SkippedExactly (content : Bytes) (literal : Int × Int) : Prop :=
  ∃ first : ℕ, literal.1 = first ∧ (∃ quote ∈ content[first]?, isQuote quote = true) ∧
    ((∃ last : ℕ, literal.2 = last ∧ Closes content first last) ∨
      content.length ≤ literal.2 ∧ ∀ last, ¬ Closes content first last)

/-- A position within the content, or its end where a quote is its last byte. -/
def StartsWithin (content : Bytes) (start : Int) : Prop :=
  0 ≤ start ∧ (start < content.length ∨
    start = content.length ∧ ∃ quote ∈ content.getLast?, isQuote quote = true)

/-- Each text that a scan takes starts within the content. -/
def TakesWithin (content : Bytes) (scan : IntScan) : Prop :=
  ∀ start ∈ scan.substrStarts, start < content.length

/-- A scan takes no text from outside of the content, and skips each literal exactly. -/
structure InBounds (content : Bytes) (scan : IntScan) : Prop where
  substrs : ∀ start ∈ scan.substrStarts, StartsWithin content start
  literals : ∀ literal ∈ scan.literals, SkippedExactly content literal

section
variable {content : Bytes} {quote : UInt8} {first charIndex : ℕ}

theorem isEscaped_succ {i : ℕ} (hfirst : first < i) :
    IsEscaped content first (i + 1) ↔ content[i]? = some 92 ∧ ¬ IsEscaped content first i := by
  unfold IsEscaped
  rw [backslashesBefore]
  by_cases hbackslash : content[i]? = some 92
  · rw [if_pos ⟨hfirst, hbackslash⟩, and_iff_right hbackslash]
    omega
  · rw [if_neg fun h => hbackslash h.2]
    exact iff_of_false (by omega) fun h => hbackslash h.1

theorem not_isEscaped_first : ¬ IsEscaped content first (first + 1) := by
  unfold IsEscaped
  rw [backslashesBefore, if_neg fun h => absurd h.1 (Nat.lt_irrefl first)]
  omega

/-- One round of the loop of `GetQuotedTextSize`. -/
theorem quotedTextLoop_drop {i : ℕ} (hi : i < content.length) :
    quotedTextLoop quote (content.drop i) charIndex =
      if content[i] = 92 then quotedTextLoop quote (content.drop (i + 2)) (charIndex + 2)
      else if content[i] = quote then some (charIndex - 1)
      else quotedTextLoop quote (content.drop (i + 1)) (charIndex + 1) := by
  have hskip : content.drop (i + 2) = (content.drop (i + 1)).drop 1 := by rw [List.drop_drop]
  rw [List.drop_eq_getElem_cons hi, hskip]
  cases content.drop (i + 1) with
  | nil =>
    rw [quotedTextLoop]
    rfl
  | cons next rest =>
    rw [quotedTextLoop]
    rfl

/-- Up to a position of a literal its closing quote has not come, and that position is not
    escaped. -/
structure StillOpen (content : Bytes) (first i : ℕ) : Prop where
  plain : ¬ IsEscaped content first i
  earliest : ∀ j, first < j → j < i → content[j]? = content[first]? → IsEscaped content first j

theorem StillOpen.succ {i : ℕ} (h : StillOpen content first i)
    (hother : content[i]? ≠ some 92) (hquote : content[i]? ≠ content[first]?) (hfirst : first < i) :
    StillOpen content first (i + 1) := by
  refine ⟨fun hescaped => hother ((isEscaped_succ hfirst).mp hescaped).1, fun j hj hlt hsame => ?_⟩
  rcases Nat.lt_succ_iff_lt_or_eq.mp hlt with hold | rfl
  · exact h.earliest j hj hold hsame
  · exact absurd hsame hquote

theorem StillOpen.skip {i : ℕ} (h : StillOpen content first i)
    (hbackslash : content[i]? = some 92) (hquote : content[i]? ≠ content[first]?)
    (hfirst : first < i) : StillOpen content first (i + 2) := by
  have hescaped : IsEscaped content first (i + 1) :=
    (isEscaped_succ hfirst).mpr ⟨hbackslash, h.plain⟩
  refine ⟨fun hnext => ((isEscaped_succ (by omega)).mp hnext).2 hescaped, fun j hj hlt hsame => ?_⟩
  rcases Nat.lt_succ_iff_lt_or_eq.mp hlt with hbefore | rfl
  · rcases Nat.lt_succ_iff_lt_or_eq.mp hbefore with hold | rfl
    · exact h.earliest j hj hold hsame
    · exact absurd hsame hquote
  · exact hescaped

/-- The loop of `GetQuotedTextSize` finds the closing quote, if there is one. -/
theorem closes_quotedTextLoop (hfirst : content[first]? = some quote) (hquote : quote ≠ 92)
    (hindex : 1 ≤ charIndex) (hopen : StillOpen content first (first + charIndex)) :
    match quotedTextLoop quote (content.drop (first + charIndex)) charIndex with
    | some size => Closes content first (first + size + 1)
    | none => ∀ last, ¬ Closes content first last := by
  induction hleft : content.length - (first + charIndex) using Nat.strong_induction_on
    generalizing charIndex with
  | _ left ih =>
    subst hleft
    by_cases hi : first + charIndex < content.length
    · have hget := List.getElem?_eq_getElem hi
      rw [quotedTextLoop_drop hi]
      by_cases hbackslash : content[first + charIndex] = 92
      · rw [if_pos hbackslash]
        rw [hbackslash] at hget
        have hother : content[first + charIndex]? ≠ content[first]? := by
          rw [hget, hfirst]
          exact fun h => hquote (Option.some.inj h).symm
        have hnext : StillOpen content first (first + (charIndex + 2)) :=
          hopen.skip hget hother (by omega)
        exact ih _ (by omega) (by omega) hnext rfl
      rw [if_neg hbackslash]
      by_cases hend : content[first + charIndex] = quote
      · rw [if_pos hend]
        have hlast : first + (charIndex - 1) + 1 = first + charIndex := by omega
        dsimp only
        rw [hlast]
        exact ⟨by omega, hi, by rw [hget, hend, hfirst], hopen.plain, hopen.earliest⟩
      · rw [if_neg hend]
        have hplain : content[first + charIndex]? ≠ some 92 := by
          rw [hget]
          exact fun h => hbackslash (Option.some.inj h)
        have hother : content[first + charIndex]? ≠ content[first]? := by
          rw [hget, hfirst]
          exact fun h => hend (Option.some.inj h)
        have hnext : StillOpen content first (first + (charIndex + 1)) :=
          hopen.succ hplain hother (by omega)
        exact ih _ (by omega) (by omega) hnext rfl
    · rw [List.drop_eq_nil_of_le (by omega)]
      intro last hcloses
      have hwithin := hcloses.within
      exact hcloses.plain (hopen.earliest last hcloses.after (by omega) hcloses.same)

/-- The text of a literal ends directly before its closing quote, and one that has none is taken
    to be as long as what is left of the content. -/
theorem getQuotedTextSize_closes (hfirst : content[first]? = some quote) (hquote : quote ≠ 92) :
    Closes content first (first + getQuotedTextSize content quote first + 1) ∨
      getQuotedTextSize content quote first = content.length - first ∧
        ∀ last, ¬ Closes content first last := by
  have hopen : StillOpen content first (first + 1) :=
    ⟨not_isEscaped_first, fun j hj hlt => absurd hlt (by omega)⟩
  have hloop := closes_quotedTextLoop hfirst hquote (Nat.le_refl 1) hopen
  rw [getQuotedTextSize]
  cases hsize : quotedTextLoop quote (content.drop (first + 1)) 1 with
  | none =>
    rw [hsize] at hloop
    exact .inr ⟨rfl, hloop⟩
  | some size =>
    rw [hsize] at hloop
    exact .inl hloop

/-- The loop of `GetQuotedTextSize` ends within its rounds, and neither overflows nor leaves the
    content. -/
theorem quotedTextSizeLoop_eq {rounds : ℕ} (charIndex : ℕ) (hlength : content.length < 2 ^ 30)
    (hoffset : first ≤ content.length) (hindex : 1 ≤ charIndex)
    (hbound : charIndex ≤ content.length + 1)
    (hrounds : content.length - (first + charIndex) < rounds) :
    IntScan.quotedTextSizeLoop content quote first rounds charIndex =
      .ok ((quotedTextLoop quote (content.drop (first + charIndex)) charIndex).getD
        (content.length - first) : ℕ) := by
  induction rounds generalizing charIndex with
  | zero => exact absurd hrounds (Nat.not_lt_zero _)
  | succ rounds ih =>
    have hleft : toSize ((content.length : Int) - first) = content.length - first :=
      toSize_of_eq (by omega) (by omega)
    rw [IntScan.quotedTextSizeLoop, toSize_of_eq rfl (by omega), hleft]
    by_cases hmore : charIndex < content.length - first
    · have hi : first + charIndex < content.length := by omega
      have hsum : int32 ((first : Int) + charIndex) = .ok ((first + charIndex : ℕ) : Int) :=
        int32_of_eq rfl (by omega)
      have hnext : int32 ((charIndex : Int) + 1) = .ok ((charIndex + 1 : ℕ) : Int) :=
        int32_of_eq rfl (by omega)
      rw [if_pos hmore, quotedTextLoop_drop hi, hsum, ok_bind, get_natCast hi (by omega), ok_bind,
        hnext, ok_bind]
      by_cases hbackslash : content[first + charIndex] = 92
      · have hskip : int32 (((charIndex + 1 : ℕ) : Int) + 1) = .ok ((charIndex + 2 : ℕ) : Int) :=
          int32_of_eq rfl (by omega)
        rw [if_pos hbackslash, if_pos hbackslash, hskip, ok_bind]
        exact ih _ (by omega) (by omega) (by omega)
      rw [if_neg hbackslash, if_neg hbackslash]
      by_cases hend : content[first + charIndex] = quote
      · rw [if_pos hend, if_pos hend]
        exact int32_of_eq (by rw [Option.getD_some]; omega) (by rw [Option.getD_some]; omega)
      · rw [if_neg hend, if_neg hend]
        exact ih _ (by omega) (by omega) (by omega)
    · rw [if_neg hmore, List.drop_eq_nil_of_le (by omega), quotedTextLoop, Option.getD_none]
      exact int32_of_eq rfl (by omega)

theorem getQuotedTextSize_eq {rounds : ℕ} (hlength : content.length < 2 ^ 30)
    (hfirst : first < content.length) (hrounds : content.length < rounds) :
    IntScan.getQuotedTextSize content rounds first =
      .ok (getQuotedTextSize content content[first] first : ℕ) := by
  rw [IntScan.getQuotedTextSize, get_natCast hfirst (by omega), ok_bind]
  exact quotedTextSizeLoop_eq 1 hlength (by omega) (Nat.le_refl 1) (by omega) (by omega)

end

section
variable {regexes : ScrapeRegexes} {content : Bytes} {charIndex : ℕ} {self : IntScan}
  {scan : JsScan}

/-- Where a keyword has started, as an `int`. -/
def startInt : Option ℕ → Int
  | none => -1
  | some start => start

/-- A scan on `int`s that has stayed in bounds up to a position, and what it is a scan of. -/
structure Agrees (content : Bytes) (charIndex : ℕ) (ints : IntScan) (scan : JsScan) : Prop where
  lastKeywordStart : ints.lastKeywordStart = startInt scan.lastKeywordStart
  before : ∀ start ∈ scan.lastKeywordStart, start ≤ charIndex
  lastKeyword : ints.lastKeyword = scan.lastKeyword
  anchors : ints.anchors = scan.anchors
  issues : ints.issues = scan.issues
  inBounds : InBounds content ints

theorem InBounds.substr (h : InBounds content self) {start : Int}
    (hstart : StartsWithin content start) :
    ∀ other ∈ self.substrStarts ++ [start], StartsWithin content other := by
  rw [List.forall_mem_append, List.forall_mem_singleton]
  exact ⟨h.substrs, hstart⟩

theorem Agrees.quotedText {quote : UInt8} (regexes : ScrapeRegexes)
    (h : Agrees content charIndex self scan) (hlength : content.length < 2 ^ 30)
    (hget : content[charIndex]? = some quote) (hquote : isQuote quote = true)
    {quotedTextSize : ℕ} (hsize : quotedTextSize ≤ content.length) :
    ∃ next, self.quotedText regexes content charIndex quotedTextSize = .ok next ∧
      Agrees content charIndex next (scan.quotedText regexes quotedTextSize
        ((content.drop (charIndex + 1)).take quotedTextSize)) ∧
      (TakesWithin content next ↔ TakesWithin content self ∧
        ¬ (charIndex + 1 = content.length ∧ scan.lastKeyword ≠ [] ∧ quotedTextSize ≠ 0)) := by
  obtain ⟨hindex, _⟩ := List.getElem?_eq_some_iff.mp hget
  unfold IntScan.quotedText JsScan.quotedText
  simp only [h.lastKeyword, Int.natCast_eq_zero]
  by_cases hskip : scan.lastKeyword = [] ∨ quotedTextSize = 0
  · rw [if_pos hskip, if_pos hskip]
    refine ⟨self, rfl, h, (and_iff_left ?_).symm⟩
    rintro ⟨_, hkeyword, hsize⟩
    exact hskip.elim hkeyword hsize
  have hstart : int32 ((charIndex : Int) + 1) = .ok ((charIndex + 1 : ℕ) : Int) :=
    int32_of_eq rfl (by omega)
  have hwithin : StartsWithin content ((charIndex + 1 : ℕ) : Int) := by
    refine ⟨Int.natCast_nonneg _, ?_⟩
    by_cases hend : charIndex + 1 = content.length
    · refine .inr ⟨by omega, quote, ?_, hquote⟩
      rw [List.getLast?_eq_getElem?, ← hend]
      exact hget
    · exact .inl (by omega)
  have hsubstrs := h.inBounds.substr hwithin
  have htakes : (∀ start ∈ self.substrStarts ++ [((charIndex + 1 : ℕ) : Int)],
      start < content.length) ↔ TakesWithin content self ∧
        ¬ (charIndex + 1 = content.length ∧ scan.lastKeyword ≠ [] ∧ quotedTextSize ≠ 0) := by
    rw [List.forall_mem_append, List.forall_mem_singleton]
    refine and_congr_right fun _ => ?_
    rw [not_or] at hskip
    rw [and_iff_left hskip]
    omega
  rw [if_neg hskip, if_neg hskip, hstart, ok_bind,
    substr_natCast (by omega) (by omega) (by omega), ok_bind, h.anchors]
  split_ifs
  all_goals
    exact ⟨_, rfl, ⟨h.lastKeywordStart, h.before, rfl, rfl, h.issues, hsubstrs,
      h.inBounds.literals⟩, htakes⟩

theorem Agrees.char (regexes : ScrapeRegexes) (h : Agrees content charIndex self scan)
    (hlength : content.length < 2 ^ 30) (hindex : charIndex < content.length) (c : UInt8) :
    ∃ next, self.char regexes content charIndex c = .ok next ∧
      Agrees content (charIndex + 1) next (scan.char regexes content charIndex c) ∧
      (TakesWithin content next ↔ TakesWithin content self) := by
  have hsame : Agrees content (charIndex + 1) self scan :=
    ⟨h.lastKeywordStart, fun start hmem => Nat.le_succ_of_le (h.before start hmem), h.lastKeyword,
      h.anchors, h.issues, h.inBounds⟩
  unfold IntScan.char JsScan.char
  rw [h.lastKeywordStart]
  by_cases hkeyword : (isAlnum c || c == 46) = true
  · rw [if_pos hkeyword, if_pos hkeyword]
    cases hstart : scan.lastKeywordStart with
    | none =>
      refine ⟨_, if_pos rfl, ⟨rfl, ?_, h.lastKeyword, h.anchors, h.issues, h.inBounds.substrs,
        h.inBounds.literals⟩, Iff.rfl⟩
      rintro _ ⟨⟩
      exact Nat.le_succ charIndex
    | some start =>
      rw [startInt, if_neg (by omega)]
      exact ⟨self, rfl, hsame, Iff.rfl⟩
  · rw [if_neg hkeyword, if_neg hkeyword]
    cases hstart : scan.lastKeywordStart with
    | none =>
      rw [startInt, if_neg (fun hne => hne rfl)]
      exact ⟨self, rfl, hsame, Iff.rfl⟩
    | some start =>
      have hle := h.before start hstart
      have hcount : int32 ((charIndex : Int) - start) = .ok ((charIndex - start : ℕ) : Int) :=
        int32_of_eq (by omega) (by omega)
      have hsubstrs := h.inBounds.substr ⟨Int.natCast_nonneg start, .inl (by omega)⟩
      rw [startInt, if_pos (by omega), hcount, ok_bind,
        substr_natCast (by omega) (by omega) (by omega), ok_bind, h.issues]
      refine ⟨_, rfl, ⟨rfl, ?_, rfl, h.anchors, rfl, hsubstrs, h.inBounds.literals⟩, ?_⟩
      · rintro _ ⟨⟩
      · refine List.forall_mem_append.trans (and_iff_left ?_)
        rw [List.forall_mem_singleton]
        omega

theorem ne_backslash_of_isQuote {c : UInt8} (h : isQuote c = true) : c ≠ 92 := by
  rintro rfl
  cases h

/-- A literal is skipped to where its text is taken to end. -/
theorem Agrees.literal {quote : UInt8} (h : Agrees content charIndex self scan)
    (hget : content[charIndex]? = some quote) (hquote : isQuote quote = true) {last next : ℕ}
    (hlast : last = charIndex + (getQuotedTextSize content quote charIndex + 1))
    (hnext : charIndex ≤ next) :
    Agrees content next
      { self with literals := self.literals ++ [((charIndex : Int), (last : Int))] } scan := by
  have hskipped : SkippedExactly content (charIndex, last) := by
    refine ⟨charIndex, rfl, ⟨quote, hget, hquote⟩, ?_⟩
    rcases getQuotedTextSize_closes hget (ne_backslash_of_isQuote hquote) with
      hcloses | ⟨hsize, hnone⟩
    · exact .inl ⟨last, rfl, by rwa [hlast]⟩
    · refine .inr ⟨?_, hnone⟩
      dsimp only
      omega
  refine ⟨h.lastKeywordStart, fun start hmem => Nat.le_trans (h.before start hmem) hnext,
    h.lastKeyword, h.anchors, h.issues, h.inBounds.substrs, ?_⟩
  rw [List.forall_mem_append, List.forall_mem_singleton]
  exact ⟨h.inBounds.literals, hskipped⟩

theorem getQuotedTextSize_le {quote : UInt8} (hget : content[charIndex]? = some quote)
    (hquote : isQuote quote = true) :
    getQuotedTextSize content quote charIndex ≤ content.length - charIndex := by
  rcases getQuotedTextSize_closes hget (ne_backslash_of_isQuote hquote) with hcloses | ⟨hsize, _⟩
  · have hwithin := hcloses.within
    omega
  · exact hsize.le

/-- The keyword that has started at a position, and the one that waits for a literal. -/
def scanState (content : Bytes) (charIndex : ℕ) (scan : JsScan) : Option Bytes × Bytes :=
  (pendingText content charIndex scan.lastKeywordStart, scan.lastKeyword)

theorem scanState_char (regexes : ScrapeRegexes) (hindex : charIndex < content.length)
    (hstart : ∀ start ∈ scan.lastKeywordStart, start ≤ charIndex) :
    scanState content (charIndex + 1) (scan.char regexes content charIndex content[charIndex]) =
      afterPart (scanState content charIndex scan) (.char content[charIndex]) := by
  rw [scanState, scanState, afterPart]
  by_cases hkeyword : isKeywordChar content[charIndex] = true
  · rw [if_pos hkeyword, char_of_isKeywordChar hkeyword, pendingText_succ hindex hstart]
  · rw [if_neg hkeyword]
    cases hold : scan.lastKeywordStart with
    | none =>
      rw [char_of_none hkeyword hold, hold]
      rfl
    | some start =>
      rw [char_of_some hkeyword hold]
      rfl

/-- The part of a character is not the last one where a literal takes a text at the end. -/
theorem endsWaiting_char (regexes : ScrapeRegexes) (hindex : charIndex < content.length)
    (hquote : ¬ isQuote content[charIndex] = true)
    (hstart : ∀ start ∈ scan.lastKeywordStart, start ≤ charIndex) :
    EndsWaiting (scanState content charIndex scan) (scriptParts none (content.drop charIndex)) ↔
      EndsWaiting
        (scanState content (charIndex + 1) (scan.char regexes content charIndex content[charIndex]))
        (scriptParts none (content.drop (charIndex + 1))) := by
  rw [List.drop_eq_getElem_cons hindex, scriptParts, if_neg hquote,
    scanState_char regexes hindex hstart]
  by_cases hlast : scriptParts none (content.drop (charIndex + 1)) = []
  · rw [hlast, endsWaiting_singleton]
    refine iff_of_false ?_ not_endsWaiting_nil
    rintro ⟨⟨_, heq⟩, _⟩
    cases heq
  · exact endsWaiting_cons hlast

theorem getQuotedTextSize_last {quote : UInt8} (hlast : charIndex + 1 = content.length) :
    getQuotedTextSize content quote charIndex = 1 := by
  rw [getQuotedTextSize, List.drop_eq_nil_of_le (by omega), quotedTextLoop, Option.getD_none]
  omega

theorem scriptParts_ne_nil {content : Bytes} (hne : content ≠ []) :
    scriptParts none content ≠ [] := by
  cases content with
  | nil => exact absurd rfl hne
  | cons c content =>
    rw [scriptParts]
    split
    · rw [scriptParts_literal (Nat.le_refl 1)]
      cases quotedTextLoop c content 1 <;> exact List.cons_ne_nil _ _
    · exact List.cons_ne_nil _ _

theorem scanState_quotedText (regexes : ScrapeRegexes)
    (hstart : ∀ start ∈ scan.lastKeywordStart, start ≤ charIndex) {size : ℕ}
    (hmore : charIndex + size + 2 < content.length) :
    scanState content (charIndex + size + 2)
      (scan.quotedText regexes size ((content.drop (charIndex + 1)).take size)) =
      afterPart (scanState content charIndex scan)
        (.literal ((content.drop charIndex).take (size + 2))) := by
  have hlength : ((content.drop charIndex).take (size + 2)).length = size + 2 := by
    simp
    omega
  have htext : (content.drop (charIndex + 1)).take size = [] ↔ size = 0 := by
    rw [← List.length_eq_zero_iff, List.length_take, List.length_drop]
    omega
  have hwaiting : (scan.quotedText regexes size
      ((content.drop (charIndex + 1)).take size)).lastKeyword =
        if jsKeywordSuffixMatch scan.lastKeyword = true ∧ 2 < size + 2 then [] else
          scan.lastKeyword := by
    unfold JsScan.quotedText
    by_cases hnone : scan.lastKeyword = [] ∨ size = 0
    · rw [if_pos hnone]
      rcases hnone with hnone | rfl
      · rw [hnone, ite_self]
      · rw [if_neg fun h => absurd h.2 (Nat.lt_irrefl 2)]
    · rw [if_neg hnone]
      obtain ⟨_, hsize⟩ := not_or.mp hnone
      have hlong : 2 < size + 2 := by omega
      simp only [ne_eq, htext, hsize, not_false_eq_true, and_true, hlong]
      split_ifs <;> rfl
  rw [scanState, scanState, afterPart, (quotedText_keeps _ _).1, Nat.add_assoc,
    pendingText_add hstart, hlength, ← hwaiting]

/-- A literal takes a text at the end of the content where its quote is the last byte and a keyword
    waits, or one after it does. -/
theorem endsWaiting_quote (regexes : ScrapeRegexes) (hindex : charIndex < content.length)
    (hquote : isQuote content[charIndex] = true)
    (hstart : ∀ start ∈ scan.lastKeywordStart, start ≤ charIndex) {size : ℕ}
    (hsize : getQuotedTextSize content content[charIndex] charIndex = size) :
    EndsWaiting (scanState content charIndex scan) (scriptParts none (content.drop charIndex)) ↔
      (charIndex + 1 = content.length ∧ scan.lastKeyword ≠ [] ∧ size ≠ 0) ∨
      EndsWaiting
        (scanState content (charIndex + size + 2)
          (scan.quotedText regexes size ((content.drop (charIndex + 1)).take size)))
        (scriptParts none (content.drop (charIndex + size + 2))) := by
  rw [scriptParts_quote (List.getElem?_eq_getElem hindex) hquote, hsize]
  by_cases hmore : charIndex + size + 2 < content.length
  · have hrest : scriptParts none (content.drop (charIndex + size + 2)) ≠ [] :=
      scriptParts_ne_nil (by simp; omega)
    have hnotLast : ¬ (charIndex + 1 = content.length ∧ scan.lastKeyword ≠ [] ∧ size ≠ 0) :=
      fun h => by omega
    rw [endsWaiting_cons hrest, or_iff_right hnotLast, scanState_quotedText regexes hstart hmore]
  · have hend : content.drop (charIndex + size + 2) = [] := List.drop_eq_nil_of_le (by omega)
    rw [hend, scriptParts, endsWaiting_singleton, or_iff_left not_endsWaiting_nil]
    have hone : (∃ quote, ScriptPart.literal ((content.drop charIndex).take (size + 2)) =
        .literal [quote]) ↔ charIndex + 1 = content.length := by
      simp only [ScriptPart.literal.injEq, ← List.length_eq_one_iff, List.length_take,
        List.length_drop]
      omega
    rw [hone]
    refine and_congr_right fun hlast => (and_iff_left ?_).symm
    rw [← hsize, getQuotedTextSize_last hlast]
    exact one_ne_zero

/-- The loop of `ScrapeJs` ends within its rounds, and neither overflows nor leaves the content. -/
theorem scrapeJsLoop_eq {sizeRounds rounds rounds' : ℕ} (regexes : ScrapeRegexes) (charIndex : ℕ)
    (hlength : content.length < 2 ^ 30) (hsizeRounds : content.length < sizeRounds)
    (hbound : charIndex ≤ content.length + 2) (hrounds : content.length - charIndex < rounds)
    (hrounds' : content.length - charIndex ≤ rounds') (h : Agrees content charIndex self scan) :
    ∃ last, self.scrapeJsLoop regexes content sizeRounds rounds charIndex = .ok last ∧
      (∃ position, Agrees content position last
        (scrapeJsLoop regexes content rounds' charIndex scan)) ∧
      (TakesWithin content last ↔ TakesWithin content self ∧
        ¬ EndsWaiting (scanState content charIndex scan)
          (scriptParts none (content.drop charIndex))) := by
  induction rounds generalizing charIndex self scan rounds' with
  | zero => exact absurd hrounds (Nat.not_lt_zero _)
  | succ rounds ih =>
    rw [IntScan.scrapeJsLoop, toSize_of_eq rfl (by omega)]
    by_cases hmore : charIndex < content.length
    · obtain ⟨rounds', rfl⟩ : ∃ n, rounds' = n + 1 := ⟨rounds' - 1, by omega⟩
      have hget := List.getElem?_eq_getElem hmore
      rw [if_pos hmore, get_natCast hmore (by omega), ok_bind, scrapeJsLoop, hget]
      dsimp only
      have hstep : int32 ((charIndex : Int) + 1) = .ok ((charIndex + 1 : ℕ) : Int) :=
        int32_of_eq rfl (by omega)
      by_cases hquote : content[charIndex] = 39 ∨ content[charIndex] = 34
      · have hisQuote : isQuote content[charIndex] = true := by
          rcases hquote with hquote | hquote <;> rw [hquote] <;> rfl
        have hsize := getQuotedTextSize_le hget hisQuote
        obtain ⟨quoted, hquoted, hagrees, htakes⟩ :=
          h.quotedText regexes hlength hget hisQuote (Nat.le_trans hsize (Nat.sub_le _ _))
        rw [if_pos hquote, if_pos hquote, getQuotedTextSize_eq hlength hmore hsizeRounds, ok_bind,
          hquoted, ok_bind]
        generalize heq : getQuotedTextSize content content[charIndex] charIndex = quotedTextSize
          at hsize hagrees htakes ⊢
        have hskip : int32 ((quotedTextSize : Int) + 1) = .ok ((quotedTextSize + 1 : ℕ) : Int) :=
          int32_of_eq rfl (by omega)
        have hlast : int32 ((charIndex : Int) + ((quotedTextSize + 1 : ℕ) : Int)) =
            .ok ((charIndex + (quotedTextSize + 1) : ℕ) : Int) := int32_of_eq rfl (by omega)
        have hnext : int32 (((charIndex + (quotedTextSize + 1) : ℕ) : Int) + 1) =
            .ok ((charIndex + quotedTextSize + 2 : ℕ) : Int) := int32_of_eq rfl (by omega)
        rw [hskip, ok_bind, hlast, ok_bind, hnext, ok_bind]
        have hleft : content.length - (charIndex + quotedTextSize + 2) ≤ rounds' := by omega
        obtain ⟨last, hloop, hposition, hwithin⟩ := ih (charIndex + quotedTextSize + 2)
          (by omega) (by omega) hleft
          (hagrees.literal hget hisQuote (by rw [heq]) (by omega))
        refine ⟨last, hloop, hposition, hwithin.trans ?_⟩
        rw [endsWaiting_quote regexes hmore hisQuote h.before heq, not_or, ← and_assoc]
        exact and_congr_left fun _ => htakes
      · obtain ⟨next, hchar, hagrees, htakes⟩ := h.char regexes hlength hmore content[charIndex]
        have hnotQuote : ¬ isQuote content[charIndex] = true := by simpa [isQuote] using hquote
        rw [if_neg hquote, if_neg hquote, hchar, ok_bind, hstep, ok_bind,
          endsWaiting_char regexes hmore hnotQuote h.before, ← htakes]
        exact ih _ (by omega) (by omega) (by omega) hagrees
    · have hend : content.drop charIndex = [] := List.drop_eq_nil_of_le (by omega)
      rw [if_neg hmore, hend, scriptParts]
      refine ⟨self, rfl, ⟨charIndex, ?_⟩, (and_iff_left not_endsWaiting_nil).symm⟩
      have hnone : content[charIndex]? = none := List.getElem?_eq_none (by omega)
      cases rounds' with
      | zero => exact h
      | succ rounds' =>
        rw [scrapeJsLoop, hnone]
        exact h

/-- For every content of less than 2^30 bytes, the loops end after no more rounds than it has
    bytes, no computation of an index overflows, and the scan stays in bounds. The texts that it
    takes start within the content exactly if the content does not end with the quote of a literal
    for which a keyword waits. -/
theorem scrapeJs_inBounds {rounds : ℕ} (hlength : content.length < 2 ^ 30)
    (hrounds : content.length < rounds) (regexes : ScrapeRegexes) (issues : List IssueDetails) :
    (∀ offset (hoffset : offset < content.length), IntScan.getQuotedTextSize content rounds offset =
      .ok (getQuotedTextSize content content[offset] offset : ℕ)) ∧
    ∃ last, IntScan.scrapeJs regexes content rounds issues = .ok last ∧
      (last.anchors, last.issues) = scrapeJs regexes content issues ∧ InBounds content last ∧
      (TakesWithin content last ↔ ¬ EndsInQuote content) := by
  refine ⟨fun offset hoffset => getQuotedTextSize_eq hlength hoffset hrounds, ?_⟩
  have hstart : Agrees content 0 { issues } { issues } := by
    refine ⟨rfl, ?_, rfl, rfl, rfl, ⟨?_, ?_⟩⟩
    · rintro _ ⟨⟩
      exact Nat.le_refl 0
    · exact fun _ hmem => absurd hmem List.not_mem_nil
    · exact fun _ hmem => absurd hmem List.not_mem_nil
  obtain ⟨last, hlast, ⟨_, hagrees⟩, hwithin⟩ := scrapeJsLoop_eq regexes 0 hlength hrounds
    (Nat.zero_le _) (by omega) (Nat.sub_le _ _) hstart
  have hnone : TakesWithin content { issues } := fun _ hmem => absurd hmem List.not_mem_nil
  refine ⟨last, hlast, ?_, hagrees.inBounds, ?_⟩
  · rw [hagrees.anchors, hagrees.issues, scrapeJs]
  · rw [hwithin, and_iff_right hnone, endsInQuote_iff]
    rfl

/-- A literal that is not closed, with a backslash at its end. -/
theorem scrapeJs_inBounds_backslash : ∃ last,
    IntScan.scrapeJs GumboUrlFilter.noRegexes (ascii "a = 'b\\") 8 [] = .ok last ∧
      (last.anchors, last.issues) = scrapeJs GumboUrlFilter.noRegexes (ascii "a = 'b\\") [] ∧
      InBounds (ascii "a = 'b\\") last ∧ TakesWithin (ascii "a = 'b\\") last := by
  have hnot : ¬ EndsInQuote (ascii "a = 'b\\") := by
    rintro ⟨parts, quote, heq, _⟩
    have hparts : scriptParts none (ascii "a = 'b\\") =
        [.char 97, .char 32, .char 61, .char 32, .literal [39, 98, 92]] := rfl
    have hlast := congrArg List.getLast? (hparts.symm.trans heq)
    simp at hlast
  have hlength : (ascii "a = 'b\\").length < 2 ^ 30 := by decide
  have hrounds : (ascii "a = 'b\\").length < 8 := by decide
  obtain ⟨last, hlast, hsame, hbounds, hwithin⟩ :=
    (scrapeJs_inBounds hlength hrounds GumboUrlFilter.noRegexes []).2
  exact ⟨last, hlast, hsame, hbounds, hwithin.mpr hnot⟩

/-- After a quote that is the last byte, a text is taken from the end of the content: the size of
    the literal, which is empty, counts its quote. -/
theorem scrapeJs_startsAtEnd :
    IntScan.getQuotedTextSize (ascii "a '") 4 2 = .ok 1 ∧ ∃ last,
      IntScan.scrapeJs GumboUrlFilter.noRegexes (ascii "a '") 4 [] = .ok last ∧
        ¬ TakesWithin (ascii "a '") last := by
  have hcontent : ascii "a '" = [97, 32, 39] := by decide
  have hrun : IntScan.scrapeJs GumboUrlFilter.noRegexes [97, 32, 39] 4 [] =
      .ok { lastKeywordStart := -1, lastKeyword := [97], substrStarts := [0, 3],
            literals := [(2, 4)] } := rfl
  rw [hcontent]
  refine ⟨rfl, _, hrun, fun h => ?_⟩
  exact absurd (h 3 (by decide)) (by decide)

end

end util

end plusfish

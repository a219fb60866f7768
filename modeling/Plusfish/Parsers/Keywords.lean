import Plusfish.Library.Splitting
import Plusfish.Parsers.Payloads

open splitting

namespace plusfish

namespace util

/-! What `ScrapeJs` takes for the keywords of a script. -/

section
variable (regexes : ScrapeRegexes)

/-- The loop of `ScrapeJs`, which notes each keyword that a character ends. -/
def scrapeJsLoopNoting (content : Bytes) : (rounds : Nat) → (charIndex : Nat) → JsScan →
    (keywords : List Bytes) → JsScan × List Bytes
  | 0, _, scan, keywords => (scan, keywords)
  | rounds + 1, charIndex, scan, keywords =>
    match content[charIndex]? with
    | none => (scan, keywords)
    | some c =>
      if c = 39 ∨ c = 34 then
        let quotedTextSize := getQuotedTextSize content c charIndex
        scrapeJsLoopNoting content rounds (charIndex + quotedTextSize + 2)
          (scan.quotedText regexes quotedTextSize
            ((content.drop (charIndex + 1)).take quotedTextSize)) keywords
      else
        let next := scan.char regexes content charIndex c
        let ended := scan.lastKeywordStart.isSome && next.lastKeywordStart.isNone
        scrapeJsLoopNoting content rounds (charIndex + 1) next
          (if ended then keywords ++ [next.lastKeyword] else keywords)

/-- The keywords that `ScrapeJs` considers. A script that starts with a delimiter gives an empty
    text first, which is no keyword. -/
def consideredKeywords (content : Bytes) : List Bytes :=
  (scrapeJsLoopNoting regexes content content.length 0 {} []).2.filter (· ≠ [])

variable {regexes} {content : Bytes} {rounds charIndex : Nat} {scan : JsScan}
  {keywords : List Bytes}

theorem scrapeJsLoopNoting_fst : (scrapeJsLoopNoting regexes content rounds charIndex scan
    keywords).1 = scrapeJsLoop regexes content rounds charIndex scan := by
  induction rounds generalizing charIndex scan keywords with
  | zero => rfl
  | succ rounds ih =>
    rw [scrapeJsLoopNoting, scrapeJsLoop]
    cases content[charIndex]? with
    | none => rfl
    | some c =>
      dsimp only
      split
      · exact ih
      · exact ih

end

/-! What the keywords of a script are. -/

def isQuote (c : UInt8) : Bool := c == 39 || c == 34

def isKeywordChar (c : UInt8) : Bool := isAlnum c || c == 46

/-- A part of a script. -/
inductive ScriptPart
  | char (c : UInt8)
  | literal (text : Bytes)

/-- The quoted literals of a script, and the characters between them. A literal goes up to the
    next quote that is the one at its start, or up to the end of the script, and a backslash
    within it takes the next character along. -/
def scriptParts : (literal : Option (UInt8 × Bytes)) → Bytes → List ScriptPart
  | none, [] => []
  | none, c :: content =>
    if isQuote c then scriptParts (some (c, [c])) content
    else .char c :: scriptParts none content
  | some (_, text), [] => [.literal text]
  | some (_, text), [c] => [.literal (text ++ [c])]
  | some (quote, text), c :: next :: content =>
    if c = 92 then scriptParts (some (quote, text ++ [c, next])) content
    else if c = quote then .literal (text ++ [c]) :: scriptParts none (next :: content)
    else scriptParts (some (quote, text ++ [c])) (next :: content)

/-- What is left of a part where only the quotes of the literals count. -/
def ScriptPart.outside : ScriptPart → UInt8
  | .char c => c
  | .literal _ => 34

/-- A script in which a single quote stands for each literal. -/
def outsideLiterals (content : Bytes) : Bytes := (scriptParts none content).map ScriptPart.outside

/-- The longest runs of letters, digits and dots that are outside of the literals. -/
def scriptKeywords (content : Bytes) : List Bytes :=
  runs (! isKeywordChar ·) (outsideLiterals content)

/-- There is one issue for each keyword that is a payload. -/
inductive Reported : (keywords : List Bytes) → (issues : List IssueDetails) → Prop
  | nil : Reported [] []
  | payload {keyword : Bytes} {number : ℕ} {keywords : List Bytes} {issues : List IssueDetails}
      (hpayload : IsPayload keyword number) (hrest : Reported keywords issues) :
      Reported (keyword :: keywords) (xssInJavascript number :: issues)
  | other {keyword : Bytes} {keywords : List Bytes} {issues : List IssueDetails}
      (hother : ¬ ∃ number, IsPayload keyword number) (hrest : Reported keywords issues) :
      Reported (keyword :: keywords) issues

/-- `ScrapeJs` considers the keywords of a script, and reports those that are payloads. -/
def FindsKeywords (regexes : ScrapeRegexes) (content : Bytes) : Prop :=
  consideredKeywords regexes content = scriptKeywords content ∧
    ∀ issues, ∃ found, (scrapeJs regexes content issues).2 = issues ++ found ∧
      Reported (scriptKeywords content) found

/-- After each keyword of a text is a character that is no quote. -/
def Delimited (text : Bytes) : Prop :=
  ∀ before c after, text = before ++ c :: after → isKeywordChar c = true →
    ∃ next ∈ after.head?, isQuote next = false

/-- A text that starts with a quote is quotes alone. -/
def LiteralsAlone (text : Bytes) : Prop :=
  ∀ first ∈ text.head?, isQuote first = true → ∀ c ∈ text, isQuote c = true

/-! How the keywords come about, part by part. -/

/-- What the keyword that has started consists of so far. -/
def pendingText (content : Bytes) (charIndex : Nat) (lastKeywordStart : Option Nat) :
    Option Bytes :=
  lastKeywordStart.map fun start => (content.drop start).take (charIndex - start)

/-- The keywords that are considered in the parts of a script. Nothing but a character outside of
    quotes ends one. -/
def takenKeywords : (pending : Option Bytes) → List ScriptPart → List Bytes
  | _, [] => []
  | pending, .literal text :: parts => takenKeywords (pending.map (· ++ text)) parts
  | pending, .char c :: parts =>
    if isKeywordChar c then takenKeywords (some (pending.getD [] ++ [c])) parts
    else pending.toList.filter (· ≠ []) ++ takenKeywords none parts

theorem pendingText_add {content : Bytes} {charIndex : Nat} {lastKeywordStart : Option Nat}
    (hstart : ∀ start ∈ lastKeywordStart, start ≤ charIndex) (n : Nat) :
    pendingText content (charIndex + n) lastKeywordStart =
      (pendingText content charIndex lastKeywordStart).map
        (· ++ (content.drop charIndex).take n) := by
  cases lastKeywordStart with
  | none => rfl
  | some start =>
    have hle := hstart start rfl
    rw [pendingText, pendingText, Option.map_some, Option.map_some, Option.map_some]
    congr 1
    rw [Nat.sub_add_comm hle, List.take_add, List.drop_drop, Nat.add_sub_cancel' hle]

theorem pendingText_succ {content : Bytes} {charIndex : Nat} {lastKeywordStart : Option Nat}
    (hindex : charIndex < content.length)
    (hstart : ∀ start ∈ lastKeywordStart, start ≤ charIndex) :
    pendingText content (charIndex + 1) (some (lastKeywordStart.getD charIndex)) =
      some ((pendingText content charIndex lastKeywordStart).getD [] ++ [content[charIndex]]) := by
  have hnext : (content.drop charIndex).take 1 = [content[charIndex]] := by
    rw [List.drop_eq_getElem_cons hindex]
    rfl
  cases lastKeywordStart with
  | none =>
    rw [pendingText, Option.map_some, Option.getD_none, Nat.add_sub_cancel_left, hnext]
    rfl
  | some start =>
    rw [Option.getD_some, pendingText_add hstart, hnext]
    rfl

section
variable {quote c : UInt8} {content text : Bytes}

theorem le_of_quotedTextLoop {charIndex size : Nat}
    (h : quotedTextLoop quote content charIndex = some size) : charIndex ≤ size + 1 := by
  induction content, charIndex using quotedTextLoop.induct quote with
  | case1 charIndex => cases h
  | case2 charIndex =>
    rw [quotedTextLoop, if_pos rfl] at h
    cases h
  | case3 charIndex hescape =>
    rw [quotedTextLoop, if_neg hescape, if_pos rfl, Option.some.injEq] at h
    omega
  | case4 c charIndex hescape hquote =>
    rw [quotedTextLoop, if_neg hescape, if_neg hquote] at h
    cases h
  | case5 next content charIndex ih =>
    rw [quotedTextLoop, if_pos rfl] at h
    have hle := ih h
    omega
  | case6 next content charIndex hescape =>
    rw [quotedTextLoop, if_neg hescape, if_pos rfl, Option.some.injEq] at h
    omega
  | case7 c next content charIndex hescape hquote ih =>
    rw [quotedTextLoop, if_neg hescape, if_neg hquote] at h
    have hle := ih h
    omega

/-- The rest of a literal is what the loop of `GetQuotedTextSize` goes through. -/
theorem scriptParts_literal {charIndex : Nat} (hindex : 1 ≤ charIndex) :
    scriptParts (some (quote, text)) content =
      match quotedTextLoop quote content charIndex with
      | none => [.literal (text ++ content)]
      | some size => .literal (text ++ content.take (size + 2 - charIndex)) ::
          scriptParts none (content.drop (size + 2 - charIndex)) := by
  have hend : charIndex - 1 + 2 - charIndex = 1 := by omega
  induction content, charIndex using quotedTextLoop.induct quote generalizing text with
  | case1 charIndex => simp [quotedTextLoop, scriptParts]
  | case2 charIndex => simp [quotedTextLoop, scriptParts]
  | case3 charIndex hescape =>
    rw [quotedTextLoop, if_neg hescape, if_pos rfl]
    simp [scriptParts, hend]
  | case4 c charIndex hescape hquote =>
    rw [quotedTextLoop, if_neg hescape, if_neg hquote]
    rfl
  | case5 next content charIndex ih =>
    rw [scriptParts, if_pos rfl, ih (by omega) (by omega), quotedTextLoop, if_pos rfl]
    cases hsize : quotedTextLoop quote content (charIndex + 2) with
    | none => simp
    | some size =>
      have hle := le_of_quotedTextLoop hsize
      have hskip : size + 2 - charIndex = size + 2 - (charIndex + 2) + 2 := by omega
      simp [hskip]
  | case6 next content charIndex hescape =>
    rw [scriptParts, if_neg hescape, if_pos rfl, quotedTextLoop, if_neg hescape, if_pos rfl]
    simp [hend]
  | case7 c next content charIndex hescape hquote ih =>
    rw [scriptParts, if_neg hescape, if_neg hquote, ih (by omega) (by omega), quotedTextLoop,
      if_neg hescape, if_neg hquote]
    cases hsize : quotedTextLoop quote (next :: content) (charIndex + 1) with
    | none => simp
    | some size =>
      have hle := le_of_quotedTextLoop hsize
      have hskip : size + 2 - charIndex = size + 2 - (charIndex + 1) + 1 := by omega
      simp [hskip]

/-- The next part of a script at a quote. -/
theorem scriptParts_quote {charIndex : Nat} (hc : content[charIndex]? = some c)
    (hquote : isQuote c = true) :
    scriptParts none (content.drop charIndex) =
      .literal ((content.drop charIndex).take (getQuotedTextSize content c charIndex + 2)) ::
        scriptParts none
          (content.drop (charIndex + getQuotedTextSize content c charIndex + 2)) := by
  obtain ⟨hindex, hget⟩ := List.getElem?_eq_some_iff.mp hc
  have hdrop : content.drop charIndex = c :: content.drop (charIndex + 1) := by
    rw [List.drop_eq_getElem_cons hindex, hget]
  rw [hdrop, scriptParts, if_pos hquote, scriptParts_literal (Nat.le_refl 1), getQuotedTextSize]
  cases quotedTextLoop c (content.drop (charIndex + 1)) 1 with
  | none =>
    have hall : content.length ≤ charIndex + (content.length - charIndex) + 2 := by omega
    rw [Option.getD_none, List.drop_eq_nil_of_le hall, List.take_of_length_le]
    · rfl
    · rw [← hdrop, List.length_drop]
      omega
  | some size =>
    have hadd : charIndex + 1 + (size + 2 - 1) = charIndex + size + 2 := by omega
    dsimp only
    rw [List.drop_drop, hadd]
    rfl

end

section
variable {regexes : ScrapeRegexes} {content : Bytes} {rounds charIndex : Nat} {scan : JsScan}
  {keywords : List Bytes} {c : UInt8}

/-- A quoted text does not end a keyword, and is not checked for a payload. -/
theorem quotedText_keeps (quotedTextSize : Nat) (quotedText : Bytes) :
    (scan.quotedText regexes quotedTextSize quotedText).lastKeywordStart =
        scan.lastKeywordStart ∧
      (scan.quotedText regexes quotedTextSize quotedText).issues = scan.issues := by
  unfold JsScan.quotedText
  split
  · exact ⟨rfl, rfl⟩
  · split
    · exact ⟨rfl, rfl⟩
    · split <;> exact ⟨rfl, rfl⟩

/-- The issues of the keywords that the regular expression takes for payloads. -/
def keywordIssues (regexes : ScrapeRegexes) (keywords : List Bytes) : List IssueDetails :=
  keywords.filterMap fun keyword => (regexes.xssPayload keyword).map xssInJavascript

theorem char_of_isKeywordChar (hkeyword : isKeywordChar c = true) :
    scan.char regexes content charIndex c =
      { scan with lastKeywordStart := some (scan.lastKeywordStart.getD charIndex) } := by
  rw [isKeywordChar] at hkeyword
  rw [JsScan.char, if_pos hkeyword]
  cases scan with
  | mk lastKeywordStart _ _ _ => cases lastKeywordStart <;> rfl

theorem char_of_none (hkeyword : ¬ isKeywordChar c = true) (hstart : scan.lastKeywordStart = none) :
    scan.char regexes content charIndex c = scan := by
  rw [isKeywordChar] at hkeyword
  rw [JsScan.char, if_neg hkeyword, hstart]

theorem char_of_some {start : Nat} (hkeyword : ¬ isKeywordChar c = true)
    (hstart : scan.lastKeywordStart = some start) :
    scan.char regexes content charIndex c =
      { scan with
        lastKeywordStart := none
        lastKeyword := (content.drop start).take (charIndex - start)
        issues := scan.issues ++
          keywordIssues regexes [(content.drop start).take (charIndex - start)] } := by
  rw [isKeywordChar] at hkeyword
  rw [JsScan.char, if_neg hkeyword, hstart, keywordIssues, List.filterMap_cons]
  cases hpayload : regexes.xssPayload ((content.drop start).take (charIndex - start)) with
  | none => simp [hpayload]
  | some reqId => simp [hpayload]

/-- Each keyword that is noted is checked for a payload. -/
theorem scrapeJsLoopNoting_issues {issues : List IssueDetails}
    (hscan : scan.issues = issues ++ keywordIssues regexes keywords) :
    (scrapeJsLoopNoting regexes content rounds charIndex scan keywords).1.issues = issues ++
      keywordIssues regexes
        (scrapeJsLoopNoting regexes content rounds charIndex scan keywords).2 := by
  induction rounds generalizing charIndex scan keywords with
  | zero => exact hscan
  | succ rounds ih =>
    rw [scrapeJsLoopNoting]
    cases content[charIndex]? with
    | none => exact hscan
    | some c =>
      dsimp only
      split
      · apply ih
        rw [(quotedText_keeps _ _).2, hscan]
      · apply ih
        by_cases hkeyword : isKeywordChar c = true
        · rw [char_of_isKeywordChar hkeyword]
          simpa using hscan
        · cases hstart : scan.lastKeywordStart with
          | none =>
            rw [char_of_none hkeyword hstart]
            simpa [hstart] using hscan
          | some start =>
            rw [char_of_some hkeyword hstart]
            simp [hscan, keywordIssues]

/-- A character outside of quotes starts, continues or ends a keyword. -/
theorem char_takenKeywords (hindex : charIndex < content.length)
    (hstart : ∀ start ∈ scan.lastKeywordStart, start ≤ charIndex) {next : JsScan}
    (hnext : scan.char regexes content charIndex content[charIndex] = next)
    (keywords : List Bytes) (parts : List ScriptPart) :
    (∀ start ∈ next.lastKeywordStart, start ≤ charIndex + 1) ∧
      (if scan.lastKeywordStart.isSome && next.lastKeywordStart.isNone then
          keywords ++ [next.lastKeyword] else keywords).filter (· ≠ []) ++
          takenKeywords (pendingText content (charIndex + 1) next.lastKeywordStart) parts =
        keywords.filter (· ≠ []) ++
          takenKeywords (pendingText content charIndex scan.lastKeywordStart)
            (.char content[charIndex] :: parts) := by
  subst hnext
  rw [takenKeywords]
  by_cases hkeyword : isKeywordChar content[charIndex] = true
  · rw [char_of_isKeywordChar hkeyword, if_pos hkeyword]
    constructor
    · rintro start ⟨⟩
      cases hold : scan.lastKeywordStart with
      | none => exact Nat.le_succ charIndex
      | some old => exact Nat.le_succ_of_le (hstart old hold)
    · rw [pendingText_succ hindex hstart]
      simp
  · rw [if_neg hkeyword]
    cases hold : scan.lastKeywordStart with
    | none =>
      rw [char_of_none hkeyword hold, hold]
      refine ⟨(fun _ h => by cases h), ?_⟩
      simp [pendingText]
    | some start =>
      rw [char_of_some hkeyword hold]
      refine ⟨(fun _ h => by cases h), ?_⟩
      simp [pendingText]

/-- The keywords that the loop notes are those that are taken from the parts of the script. -/
theorem scrapeJsLoopNoting_keywords (hrounds : content.length ≤ charIndex + rounds)
    (hstart : ∀ start ∈ scan.lastKeywordStart, start ≤ charIndex) :
    (scrapeJsLoopNoting regexes content rounds charIndex scan keywords).2.filter (· ≠ []) =
      keywords.filter (· ≠ []) ++
        takenKeywords (pendingText content charIndex scan.lastKeywordStart)
          (scriptParts none (content.drop charIndex)) := by
  induction rounds generalizing charIndex scan keywords with
  | zero =>
    rw [List.drop_eq_nil_of_le (show content.length ≤ charIndex from hrounds), scriptParts,
      takenKeywords, List.append_nil]
    rfl
  | succ rounds ih =>
    rw [scrapeJsLoopNoting]
    cases hc : content[charIndex]? with
    | none =>
      have hend := List.getElem?_eq_none_iff.mp hc
      rw [List.drop_eq_nil_of_le hend, scriptParts, takenKeywords, List.append_nil]
    | some c =>
      obtain ⟨hindex, rfl⟩ := List.getElem?_eq_some_iff.mp hc
      dsimp only
      by_cases hquote : isQuote content[charIndex] = true
      · have hchar : content[charIndex] = 39 ∨ content[charIndex] = 34 := by
          simpa [isQuote] using hquote
        rw [if_pos hchar, ih (by omega), (quotedText_keeps _ _).1, Nat.add_assoc,
          pendingText_add hstart, scriptParts_quote hc hquote, takenKeywords, Nat.add_assoc]
        intro start hmem
        rw [(quotedText_keeps _ _).1] at hmem
        have hle := hstart start hmem
        omega
      · have hchar : ¬ (content[charIndex] = 39 ∨ content[charIndex] = 34) := by
          simpa [isQuote] using hquote
        obtain ⟨hnext, htaken⟩ := char_takenKeywords hindex hstart
          (rfl : scan.char regexes content charIndex content[charIndex] = _) keywords
          (scriptParts none (content.drop (charIndex + 1)))
        rw [if_neg hchar, List.drop_eq_getElem_cons hindex, scriptParts, if_neg hquote,
          ih (by omega) hnext]
        exact htaken

end

section
variable {content : Bytes} {parts : List ScriptPart} {keyword : Bytes}

theorem isQuote_of_isKeywordChar {c : UInt8} (h : isKeywordChar c = true) : isQuote c = false := by
  rw [Bool.eq_false_iff]
  intro hquote
  simp only [isQuote, Bool.or_eq_true, beq_iff_eq] at hquote
  rcases hquote with rfl | rfl
  · cases h
  · cases h

theorem not_isKeywordChar_of_isQuote {c : UInt8} (h : isQuote c = true) :
    isKeywordChar c = false := by
  rw [Bool.eq_false_iff]
  intro hkeyword
  rw [isQuote_of_isKeywordChar hkeyword] at h
  cases h

/-- The quotes of a script are at the starts of its literals and in them. -/
def ScriptPart.Formed : ScriptPart → Prop
  | .char c => isQuote c = false
  | .literal text => ∃ c ∈ text, isQuote c = true

theorem scriptParts_formed {literal : Option (UInt8 × Bytes)}
    (hliteral : ∀ start ∈ literal, ∃ c ∈ start.2, isQuote c = true) :
    ∀ part ∈ scriptParts literal content, part.Formed := by
  have hadd {text : Bytes} (h : ∃ c ∈ text, isQuote c = true) (more : Bytes) :
      ∃ c ∈ text ++ more, isQuote c = true := by
    obtain ⟨c, hc, hquote⟩ := h
    exact ⟨c, List.mem_append_left _ hc, hquote⟩
  fun_induction scriptParts literal content with
  | case1 => exact fun _ h => absurd h List.not_mem_nil
  | case2 c content hquote ih =>
    apply ih
    rintro _ ⟨⟩
    exact ⟨c, List.mem_singleton_self c, hquote⟩
  | case3 c content hquote ih =>
    rw [List.forall_mem_cons]
    exact ⟨Bool.eq_false_iff.mpr hquote, ih fun _ h => by cases h⟩
  | case4 _ text => exact List.forall_mem_singleton.mpr (hliteral _ rfl)
  | case5 _ text c => exact List.forall_mem_singleton.mpr (hadd (hliteral _ rfl) [c])
  | case6 _ text next content ih =>
    apply ih
    rintro _ ⟨⟩
    exact hadd (hliteral _ rfl) [92, next]
  | case7 text c next content _ ih =>
    rw [List.forall_mem_cons]
    exact ⟨hadd (hliteral _ rfl) [c], ih fun _ h => by cases h⟩
  | case8 _ text c next content _ _ ih =>
    apply ih
    rintro _ ⟨⟩
    exact hadd (hliteral _ rfl) [c]

theorem delimited_nil : Delimited [] := by
  intro before c after h
  simp at h

theorem delimited_cons {c : UInt8} {text : Bytes} : Delimited (c :: text) ↔
    (isKeywordChar c = true → ∃ next ∈ text.head?, isQuote next = false) ∧ Delimited text := by
  constructor
  · intro h
    refine ⟨h [] c text rfl, fun before d after heq => ?_⟩
    exact h (c :: before) d after (by rw [heq, List.cons_append])
  · rintro ⟨hfirst, hrest⟩ before d after heq
    cases before with
    | nil =>
      rw [List.nil_append, List.cons.injEq] at heq
      obtain ⟨rfl, rfl⟩ := heq
      exact hfirst
    | cons _ before =>
      rw [List.cons_append, List.cons.injEq] at heq
      exact hrest before d after heq.2

instance decidableDelimited : DecidablePred Delimited
  | [] => isTrue delimited_nil
  | _ :: text =>
    have : Decidable (Delimited text) := decidableDelimited text
    decidable_of_iff _ delimited_cons.symm

theorem delimited_of_quotes {text : Bytes} (h : ∀ c ∈ text, isQuote c = true) :
    Delimited text := by
  rintro before c after rfl hkeyword
  have hquote := h c (List.mem_append_right _ List.mem_cons_self)
  rw [isQuote_of_isKeywordChar hkeyword] at hquote
  cases hquote

/-- A text that has a literal in it goes on up to the end of the next keyword. -/
theorem takenKeywords_quoted (hquoted : ∃ c ∈ keyword, isQuote c = true) :
    ∀ first ∈ (takenKeywords (some keyword) parts).head?, ∃ c ∈ first, isQuote c = true := by
  induction parts generalizing keyword with
  | nil =>
    intro first h
    cases h
  | cons part parts ih =>
    have hadd (more : Bytes) : ∃ c ∈ keyword ++ more, isQuote c = true := by
      obtain ⟨c, hc, hquote⟩ := hquoted
      exact ⟨c, List.mem_append_left _ hc, hquote⟩
    cases part with
    | literal text => exact ih (hadd text)
    | char c =>
      rw [takenKeywords]
      split
      · exact ih (hadd [c])
      · have hne : keyword ≠ [] := by
          rintro rfl
          obtain ⟨c, hc, _⟩ := hquoted
          cases hc
        intro first h
        simp [hne] at h
        rwa [← h]

theorem takenKeywords_ne (hquoted : ∃ c ∈ keyword, isQuote c = true) {first : Bytes}
    (hfirst : ∀ c ∈ first, isKeywordChar c = true) {rest : List Bytes} :
    takenKeywords (some keyword) parts ≠ first :: rest := by
  intro heq
  obtain ⟨c, hc, hquote⟩ := takenKeywords_quoted hquoted first (by rw [heq]; rfl)
  rw [isQuote_of_isKeywordChar (hfirst c hc)] at hquote
  cases hquote

theorem takenKeywords_eq_nil_iff (hne : keyword ≠ []) :
    takenKeywords (some keyword) parts = [] ↔
      ∀ c, ScriptPart.char c ∈ parts → isKeywordChar c = true := by
  induction parts generalizing keyword with
  | nil => simp [takenKeywords]
  | cons part parts ih =>
    cases part with
    | literal text =>
      rw [takenKeywords, Option.map_some, ih (List.append_ne_nil_of_left_ne_nil hne text)]
      simp
    | char c =>
      rw [takenKeywords]
      split
      · rename_i hkeyword
        rw [Option.getD_some, ih (List.append_ne_nil_of_left_ne_nil hne [c])]
        simp [hkeyword]
      · rename_i hkeyword
        simp [hne, hkeyword]

/-- With no keyword or with one that has started, the keywords that are considered are the runs
    exactly where these are delimited. -/
def TakesRuns (parts : List ScriptPart) : Prop :=
  (takenKeywords none parts = runs (! isKeywordChar ·) (parts.map ScriptPart.outside) ↔
      Delimited (parts.map ScriptPart.outside)) ∧
    ∀ keyword, keyword ≠ [] → (∀ c ∈ keyword, isKeywordChar c = true) →
      (takenKeywords (some keyword) parts =
          runs (! isKeywordChar ·) (keyword ++ parts.map ScriptPart.outside) ↔
        (∃ next ∈ (parts.map ScriptPart.outside).head?, isQuote next = false) ∧
          Delimited (parts.map ScriptPart.outside))

theorem not_delimiter (h : ∀ c ∈ keyword, isKeywordChar c = true) :
    ∀ c ∈ keyword, (! isKeywordChar c) = false := by simpa using h

theorem takesRuns_nil : TakesRuns [] := by
  constructor
  · exact iff_of_true rfl delimited_nil
  · intro keyword hne hkeyword
    rw [List.map_nil, List.append_nil, runs_eq_singleton (not_delimiter hkeyword) hne]
    refine iff_of_false (List.cons_ne_nil _ _).symm ?_
    rintro ⟨⟨next, hnext, _⟩, _⟩
    cases hnext

theorem takesRuns_literal {text : Bytes} (htext : (ScriptPart.literal text).Formed)
    (hparts : TakesRuns parts) : TakesRuns (.literal text :: parts) := by
  have hdelimiter : (! isKeywordChar (ScriptPart.literal text).outside) = true := rfl
  rw [TakesRuns, List.map_cons]
  constructor
  · rw [takenKeywords, Option.map_none, runs_skip (p := (! isKeywordChar ·)) hdelimiter, hparts.1,
      delimited_cons]
    exact (and_iff_right fun h => by cases h).symm
  · intro keyword hne hkeyword
    refine iff_of_false (fun heq => ?_) ?_
    · -- What is considered next is a text with the literal in it.
      rw [takenKeywords, Option.map_some,
        runs_append_cons (p := (! isKeywordChar ·)) (not_delimiter hkeyword) hne hdelimiter] at heq
      obtain ⟨c, hc, hquote⟩ := htext
      exact takenKeywords_ne ⟨c, List.mem_append_right keyword hc, hquote⟩ hkeyword heq
    · rintro ⟨⟨next, hnext, hquote⟩, _⟩
      rw [List.head?_cons, Option.mem_some_iff] at hnext
      rw [← hnext] at hquote
      cases hquote

theorem takesRuns_char {c : UInt8} (hchar : (ScriptPart.char c).Formed) (hparts : TakesRuns parts) :
    TakesRuns (.char c :: parts) := by
  obtain ⟨hnone, hsome⟩ := hparts
  have hhead : ∃ next ∈ ((ScriptPart.char c).outside :: parts.map ScriptPart.outside).head?,
      isQuote next = false := ⟨c, rfl, hchar⟩
  rw [TakesRuns, List.map_cons, delimited_cons]
  by_cases hc : isKeywordChar c = true
  · constructor
    · rw [takenKeywords, if_pos hc]
      refine (hsome [c] (List.cons_ne_nil _ _) (List.forall_mem_singleton.mpr hc)).trans ?_
      exact and_congr_left fun _ => ⟨fun h _ => h, fun h => h hc⟩
    · intro keyword hne hkeyword
      have hmore : ∀ d ∈ keyword ++ [c], isKeywordChar d = true := by
        rw [List.forall_mem_append]
        exact ⟨hkeyword, List.forall_mem_singleton.mpr hc⟩
      have happend : keyword ++ (ScriptPart.char c).outside :: parts.map ScriptPart.outside =
          keyword ++ [c] ++ parts.map ScriptPart.outside := by simp [ScriptPart.outside]
      rw [takenKeywords, if_pos hc, Option.getD_some, happend,
        hsome _ (List.append_ne_nil_of_left_ne_nil hne [c]) hmore, and_iff_right hhead]
      exact and_congr_left fun _ => ⟨fun h _ => h, fun h => h hc⟩
  · have hdelimiter : (! isKeywordChar (ScriptPart.char c).outside) = true := by
      simpa [ScriptPart.outside] using hc
    have hrest : (isKeywordChar (ScriptPart.char c).outside = true →
        ∃ next ∈ (parts.map ScriptPart.outside).head?, isQuote next = false) :=
      fun h => absurd h hc
    rw [and_iff_right hrest]
    constructor
    · rw [takenKeywords, if_neg hc, runs_skip (p := (! isKeywordChar ·)) hdelimiter]
      exact hnone
    · intro keyword hne hkeyword
      rw [takenKeywords, if_neg hc,
        runs_append_cons (p := (! isKeywordChar ·)) (not_delimiter hkeyword) hne hdelimiter,
        and_iff_right hhead, ← hnone]
      simp [hne]

theorem takesRuns (hparts : ∀ part ∈ parts, part.Formed) : TakesRuns parts := by
  induction parts with
  | nil => exact takesRuns_nil
  | cons part parts ih =>
    rw [List.forall_mem_cons] at hparts
    obtain ⟨hpart, hparts⟩ := hparts
    cases part with
    | literal text => exact takesRuns_literal hpart (ih hparts)
    | char c => exact takesRuns_char hpart (ih hparts)

/-- Literals alone are the parts in which there is no keyword, and in which none is taken where one
    has started. -/
theorem takesNothing_iff (hparts : ∀ part ∈ parts, part.Formed) (hne : keyword ≠ []) :
    (takenKeywords (some keyword) parts = [] ∧
        runs (! isKeywordChar ·) (parts.map ScriptPart.outside) = []) ↔
      ∀ c ∈ parts.map ScriptPart.outside, isQuote c = true := by
  rw [takenKeywords_eq_nil_iff hne, runs_eq_nil_iff]
  constructor
  · rintro ⟨hkeyword, hother⟩
    rw [List.forall_mem_map]
    intro part hpart
    cases part with
    | literal text => rfl
    | char c =>
      have h := hother c (List.mem_map_of_mem hpart)
      rw [hkeyword c hpart] at h
      cases h
  · intro hall
    refine ⟨fun c hc => ?_, fun c hc => ?_⟩
    · have hchar : isQuote c = false := hparts _ hc
      have hquote := hall c (List.mem_map_of_mem hc)
      rw [hchar] at hquote
      cases hquote
    · rw [not_isKeywordChar_of_isQuote (hall c hc)]
      rfl

/-- At the start of a script, where a keyword has started before the first character. -/
theorem takenKeywords_start_iff (hparts : ∀ part ∈ parts, part.Formed) :
    takenKeywords (some []) parts = runs (! isKeywordChar ·) (parts.map ScriptPart.outside) ↔
      LiteralsAlone (parts.map ScriptPart.outside) ∧
        Delimited (parts.map ScriptPart.outside) := by
  cases parts with
  | nil => exact iff_of_true rfl ⟨(fun _ h => by cases h), delimited_nil⟩
  | cons part parts =>
    cases part with
    | char c =>
      have hhead : LiteralsAlone ((ScriptPart.char c :: parts).map ScriptPart.outside) := by
        rintro _ ⟨⟩ hquote
        have hchar : isQuote c = false := hparts _ List.mem_cons_self
        rw [ScriptPart.outside, hchar] at hquote
        cases hquote
      have hsame : takenKeywords (some []) (.char c :: parts) =
          takenKeywords none (.char c :: parts) := by
        rw [takenKeywords, takenKeywords]
        rfl
      rw [and_iff_right hhead, hsame]
      exact (takesRuns hparts).1
    | literal text =>
      rw [List.forall_mem_cons] at hparts
      obtain ⟨⟨quote, hmem, hquote⟩, hparts⟩ := hparts
      have hdelimiter : (! isKeywordChar (ScriptPart.literal text).outside) = true := rfl
      have hnothing := takesNothing_iff hparts (List.ne_nil_of_mem hmem)
      rw [takenKeywords, Option.map_some, List.nil_append, List.map_cons,
        runs_skip (p := (! isKeywordChar ·)) hdelimiter]
      constructor
      · intro heq
        have hnone : runs (! isKeywordChar ·) (parts.map ScriptPart.outside) = [] := by
          cases hruns : runs (! isKeywordChar ·) (parts.map ScriptPart.outside) with
          | nil => rfl
          | cons first rest =>
            have hfirst : first ∈ runs (! isKeywordChar ·) (parts.map ScriptPart.outside) := by
              rw [hruns]
              exact List.mem_cons_self
            rw [hruns] at heq
            refine absurd heq (takenKeywords_ne ⟨quote, hmem, hquote⟩ fun c hc => ?_)
            have hplain : (! isKeywordChar c) = false := (mem_runs hfirst).2 c hc
            simpa using hplain
        have hall : ∀ c ∈ (ScriptPart.literal text).outside :: parts.map ScriptPart.outside,
            isQuote c = true :=
          List.forall_mem_cons.mpr ⟨rfl, hnothing.mp ⟨heq.trans hnone, hnone⟩⟩
        exact ⟨fun _ _ _ => hall, delimited_of_quotes hall⟩
      · rintro ⟨hliterals, _⟩
        have hall := (List.forall_mem_cons.mp (hliterals _ rfl rfl)).2
        obtain ⟨htaken, hruns⟩ := hnothing.mpr hall
        rw [htaken, hruns]

end

section
variable {regexes : ScrapeRegexes} {content : Bytes} {keywords : List Bytes}
  {issues : List IssueDetails}

theorem not_isPayload_nil {number : ℕ} : ¬ IsPayload [] number := by
  intro h
  cases h.any_isDigit

theorem keywordIssues_cons (keyword : Bytes) :
    keywordIssues regexes (keyword :: keywords) =
      ((regexes.xssPayload keyword).map xssInJavascript).toList ++
        keywordIssues regexes keywords := by
  rw [keywordIssues, List.filterMap_cons]
  cases regexes.xssPayload keyword <;> rfl

/-- The empty text is no payload. -/
theorem keywordIssues_filter (hfinds : FindsPayloads regexes) :
    keywordIssues regexes (keywords.filter (· ≠ [])) = keywordIssues regexes keywords := by
  induction keywords with
  | nil => rfl
  | cons keyword keywords ih =>
    by_cases hnil : keyword = []
    · subst hnil
      have hother : ¬ ∃ number, IsPayload [] number := fun ⟨_, h⟩ => not_isPayload_nil h
      rw [List.filter_cons_of_neg (by simp), ih, keywordIssues_cons, hfinds.of_other hother]
      rfl
    · rw [List.filter_cons_of_pos (by simpa using hnil), keywordIssues_cons, keywordIssues_cons, ih]

theorem Reported.of_payload {keyword : Bytes} {number : ℕ}
    (h : Reported (keyword :: keywords) issues) (hpayload : IsPayload keyword number) :
    ∃ rest, issues = xssInJavascript number :: rest ∧ Reported keywords rest := by
  cases h with
  | payload hpayload' hrest =>
    rw [hpayload.number_unique hpayload']
    exact ⟨_, rfl, hrest⟩
  | other hother _ => exact absurd ⟨number, hpayload⟩ hother

theorem reported_cons_iff_of_other {keyword : Bytes}
    (hother : ¬ ∃ number, IsPayload keyword number) :
    Reported (keyword :: keywords) issues ↔ Reported keywords issues := by
  constructor
  · intro h
    cases h with
    | payload hpayload _ => exact absurd ⟨_, hpayload⟩ hother
    | other _ hrest => exact hrest
  · exact .other hother

theorem consideredKeywords_eq : consideredKeywords regexes content =
    takenKeywords (some []) (scriptParts none content) :=
  scrapeJsLoopNoting_keywords (by omega) (by simp)

theorem scrapeJs_issues (hfinds : FindsPayloads regexes) (issues : List IssueDetails) :
    (scrapeJs regexes content issues).2 =
      issues ++ keywordIssues regexes (takenKeywords (some []) (scriptParts none content)) := by
  have htaken : (scrapeJsLoopNoting regexes content content.length 0 { issues } []).2.filter
      (· ≠ []) = takenKeywords (some []) (scriptParts none content) :=
    scrapeJsLoopNoting_keywords (by omega) (by simp)
  rw [← htaken, keywordIssues_filter hfinds,
    ← scrapeJsLoopNoting_issues (by simp [keywordIssues]), scrapeJsLoopNoting_fst, scrapeJs]

/-- No issue is added for what is no payload. -/
theorem Reported.length_le (hfinds : FindsPayloads regexes) (h : Reported keywords issues) :
    (keywordIssues regexes keywords).length ≤ issues.length := by
  induction h with
  | nil => exact Nat.le_refl 0
  | @payload keyword _ _ _ _ _ ih =>
    have hone : ((regexes.xssPayload keyword).map xssInJavascript).toList.length ≤ 1 := by
      cases regexes.xssPayload keyword <;> simp
    rw [keywordIssues_cons, List.length_append, List.length_cons]
    omega
  | other hother _ ih =>
    rw [keywordIssues_cons, hfinds.of_other hother]
    exact ih

theorem reported_iff (hfinds : FindsPayloads regexes) :
    Reported keywords (keywordIssues regexes keywords) ↔
      ∀ keyword ∈ keywords, ∀ number, IsPayload keyword number → number < 2 ^ 63 := by
  induction keywords with
  | nil => exact iff_of_true .nil fun _ h => absurd h List.not_mem_nil
  | cons keyword keywords ih =>
    rw [List.forall_mem_cons, ← ih, keywordIssues_cons]
    by_cases hother : ∃ number, IsPayload keyword number
    · obtain ⟨number, hpayload⟩ := hother
      have hnumber : (∀ number, IsPayload keyword number → number < 2 ^ 63) ↔ number < 2 ^ 63 := by
        refine ⟨fun h => h number hpayload, fun hfits number' hpayload' => ?_⟩
        rwa [hpayload'.number_unique hpayload]
      rw [hfinds.of_payload hpayload, hnumber]
      by_cases hfits : number < 2 ^ 63
      · rw [if_pos hfits, and_iff_right hfits]
        constructor
        · intro h
          obtain ⟨rest, heq, hrest⟩ := h.of_payload hpayload
          have hsame : keywordIssues regexes keywords = rest := (List.cons.inj heq).2
          rwa [hsame]
        · exact .payload hpayload
      · rw [if_neg hfits]
        refine iff_of_false (fun h => ?_) fun h => hfits h.1
        obtain ⟨rest, heq, hrest⟩ := h.of_payload hpayload
        have hlength := hrest.length_le hfinds
        have hsame := congrArg List.length heq
        rw [Option.map_none, Option.toList_none, List.nil_append, List.length_cons] at hsame
        omega
    · have hnone : ∀ number, IsPayload keyword number → number < 2 ^ 63 :=
        fun number h => absurd ⟨number, h⟩ hother
      rw [hfinds.of_other hother, and_iff_right hnone]
      exact reported_cons_iff_of_other hother

end

/-- The keywords of a script are found exactly where none ends at a literal or at the end of the
    script, the script does not start with a literal unless it has nothing else, and the numbers
    of its payloads fit into an `int64`. -/
theorem findsKeywords_iff {regexes : ScrapeRegexes} (hfinds : FindsPayloads regexes)
    (content : Bytes) : FindsKeywords regexes content ↔
      LiteralsAlone (outsideLiterals content) ∧ Delimited (outsideLiterals content) ∧
        ∀ keyword ∈ scriptKeywords content, ∀ number, IsPayload keyword number →
          number < 2 ^ 63 := by
  have hformed : ∀ part ∈ scriptParts none content, part.Formed :=
    scriptParts_formed fun _ h => by cases h
  have hstart := takenKeywords_start_iff hformed
  rw [FindsKeywords, consideredKeywords_eq, ← and_assoc, outsideLiterals, ← hstart,
    scriptKeywords, outsideLiterals]
  apply and_congr_right
  intro heq
  rw [← heq, ← reported_iff hfinds]
  constructor
  · intro h
    obtain ⟨found, hfound, hreported⟩ := h []
    rw [scrapeJs_issues hfinds, List.append_cancel_left_eq] at hfound
    rwa [hfound]
  · intro h issues
    exact ⟨_, scrapeJs_issues hfinds issues, h⟩

theorem findsKeywords_statement :
    FindsKeywords payloadRegexes (ascii "x='a'; y = plus1fish;") := by
  apply (findsKeywords_iff payloadRegexes_finds _).mpr
  have houtside : outsideLiterals (ascii "x='a'; y = plus1fish;") =
      ascii "x=\"; y = plus1fish;" := by decide
  have hkeywords : scriptKeywords (ascii "x='a'; y = plus1fish;") =
      ["x", "y", "plus1fish"].map ascii := by decide
  rw [houtside, hkeywords]
  refine ⟨?_, by decide, ?_⟩
  · rintro _ ⟨⟩ hquote
    cases hquote
  · intro keyword hmem number hpayload
    rw [← hpayload.number_eq]
    clear hpayload
    revert keyword
    decide

/-- A payload at the end of a script is missed. -/
theorem keywordAtEnd_missed : FindsPayloads payloadRegexes ∧
    ¬ FindsKeywords payloadRegexes (ascii "x=plus1fish") ∧
      (scrapeJs payloadRegexes (ascii "x=plus1fish") []).2 = [] := by
  have htaken : takenKeywords (some []) (scriptParts none (ascii "x=plus1fish")) = [ascii "x"] := by
    decide
  refine ⟨payloadRegexes_finds, ?_, ?_⟩
  · rintro ⟨heq, _⟩
    rw [consideredKeywords_eq, htaken] at heq
    revert heq
    decide
  · have hother : ¬ ∃ number, IsPayload (ascii "x") number := by
      rintro ⟨number, h⟩
      cases h.any_isDigit
    rw [scrapeJs_issues payloadRegexes_finds, htaken, keywordIssues_cons,
      payloadRegexes_finds.of_other hother]
    rfl

end util

end plusfish

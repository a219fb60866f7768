import Plusfish.Proto

namespace plusfish

namespace util

/-- What the regular expressions of the scrapers find, which a library decides that is not part
    of the repository. -/
structure ScrapeRegexes where
  /-- The number in a value that is an XSS payload. -/
  xssPayload : Bytes → Option Int
  /-- The number in the first tag of a value that is an XSS payload. -/
  tagXssPayload : Bytes → Option Int
  isRelativeUrl : Bytes → Bool
  isAbsoluteUrl : Bytes → Bool
  /-- The absolute URLs of a text, as they are found one after the other. -/
  absoluteUrls : Bytes → List Bytes

/-- `isdigit` in the C locale. -/
def isDigit (c : UInt8) : Bool := 48 ≤ c && c ≤ 57

/-- `isupper` in the C locale. -/
def isUpper (c : UInt8) : Bool := 65 ≤ c && c ≤ 90

/-- `strchr(s, c) != nullptr`, which finds the zero byte at the end as well. -/
def strChr (s : Bytes) (c : UInt8) : Bool := s.contains c || c == 0

/-- `insert` into a set of strings, whose elements are in the order of their insertion. -/
def insertAnchor (anchors : List Bytes) (anchor : Bytes) : List Bytes :=
  if anchors.contains anchor then anchors else anchors ++ [anchor]

def kJsKeywordSuffixes : List Bytes :=
  [".href", ".src", ".action", "location", "location.assign", "window.open"].map ascii

def jsKeywordSuffixMatch (keyword : Bytes) : Bool :=
  kJsKeywordSuffixes.any fun suffix => suffix.isSuffixOf keyword

def kXsrfBase16MinLength : Nat := 8
def kXsrfBase16MaxLength : Nat := 45
def kXsrfBase16MinDigits : Nat := 2
def kXsrfBase64MinLength : Nat := 6
def kXsrfBase64MaxLength : Nat := 52
def kXsrfBase64MinDigits : Nat := 1
def kXsrfBase64MinUpperCase : Nat := 2
def kXsrfBase64AltMinDigits : Nat := 3
def kXsrfBase64MaxSlash : Nat := 2
def kBase16Chars : Bytes := ascii "abcdef"
def kBase64Chars : Bytes := ascii "=+/"

/-- The loop of `IsPotentialBase16Token`, which gives nothing for a value that is too long. -/
def base16TokenLoop : Bytes → (digitCount currentOffset : Nat) → Option (Nat × Nat)
  | [], digitCount, currentOffset => some (digitCount, currentOffset)
  | c :: value, digitCount, currentOffset =>
    if !isDigit c && !strChr kBase16Chars (toLower c) then some (digitCount, currentOffset)
    else if currentOffset + 1 > kXsrfBase16MaxLength then none
    else base16TokenLoop value (if isDigit c then digitCount + 1 else digitCount)
      (currentOffset + 1)

def isPotentialBase16Token (value : Bytes) : Bool :=
  match base16TokenLoop value 0 0 with
  | none => false
  | some (digitCount, currentOffset) =>
    currentOffset ≥ kXsrfBase16MinLength && digitCount ≥ kXsrfBase16MinDigits

/-- What `IsPotentialBase64Token` counts. -/
structure Base64Counts where
  slashCount : Nat := 0
  upperCount : Nat := 0
  digitCount : Nat := 0
  currentOffset : Nat := 0

def Base64Counts.count (self : Base64Counts) (c : UInt8) : Base64Counts :=
  let counts := { self with currentOffset := self.currentOffset + 1 }
  if isUpper c then { counts with upperCount := self.upperCount + 1 }
  else if isDigit c then { counts with digitCount := self.digitCount + 1 }
  else if c = 47 then { counts with slashCount := self.slashCount + 1 }
  else counts

def base64TokenLoop : Bytes → Base64Counts → Option Base64Counts
  | [], counts => some counts
  | c :: value, counts =>
    if !isAlnum c && !strChr kBase64Chars c then some counts
    else if counts.currentOffset + 1 > kXsrfBase64MaxLength then none
    else base64TokenLoop value (counts.count c)

def isPotentialBase64Token (value : Bytes) : Bool :=
  match base64TokenLoop value {} with
  | none => false
  | some counts =>
    counts.currentOffset ≥ kXsrfBase64MinLength && counts.slashCount ≤ kXsrfBase64MaxSlash &&
      (counts.digitCount ≥ kXsrfBase64AltMinDigits ||
        (counts.digitCount ≥ kXsrfBase64MinDigits && counts.upperCount ≥ kXsrfBase64MinUpperCase))

def isPotentialXSRFToken (value : Bytes) : Bool :=
  isPotentialBase16Token value || isPotentialBase64Token value

/-- The loop of `GetQuotedTextSize` from a position of the content on. It gives the position
    before the end quote, if there is one. A backslash skips the character after it. -/
def quotedTextLoop (quote : UInt8) : Bytes → (charIndex : Nat) → Option Nat
  | [], _ => none
  | [c], charIndex => if c = 92 then none else if c = quote then some (charIndex - 1) else none
  | c :: next :: content, charIndex =>
    if c = 92 then quotedTextLoop quote content (charIndex + 2)
    else if c = quote then some (charIndex - 1)
    else quotedTextLoop quote (next :: content) (charIndex + 1)

/-- `GetQuotedTextSize`, for an offset at which there is a quote. -/
def getQuotedTextSize (content : Bytes) (quote : UInt8) (offset : Nat) : Nat :=
  (quotedTextLoop quote (content.drop (offset + 1)) 1).getD (content.length - offset)

/-- What `ScrapeJs` works on. Where no keyword has started, `lastKeywordStart` is the -1 of the
    source. -/
structure JsScan where
  lastKeywordStart : Option Nat := some 0
  lastKeyword : Bytes := []
  anchors : List Bytes := []
  issues : List IssueDetails := []

section
variable (regexes : ScrapeRegexes)

/-- A quoted text, which the scan skips. -/
def JsScan.quotedText (self : JsScan) (quotedTextSize : Nat) (quotedText : Bytes) : JsScan :=
  if self.lastKeyword = [] ∨ quotedTextSize = 0 then self
  else if jsKeywordSuffixMatch self.lastKeyword ∧ quotedText ≠ [] then
    { self with anchors := insertAnchor self.anchors quotedText, lastKeyword := [] }
  else if regexes.isRelativeUrl quotedText || regexes.isAbsoluteUrl quotedText then
    { self with anchors := insertAnchor self.anchors quotedText }
  else self

/-- The issue of a payload that stands in a script. -/
def xssInJavascript (reqId : Int) : IssueDetails :=
  { severityField := some .high
    typeField := some .xssReflectedJavascript
    issueName := some (ascii "Reflected XSS")
    extraInfo := some (ascii "Found payload in javascript context")
    requestId := some reqId }

/-- A character outside of quotes. -/
def JsScan.char (self : JsScan) (content : Bytes) (charIndex : Nat) (c : UInt8) : JsScan :=
  if isAlnum c || c == 46 then
    match self.lastKeywordStart with
    | none => { self with lastKeywordStart := some charIndex }
    | some _ => self
  else
    match self.lastKeywordStart with
    | none => self
    | some start =>
      let lastKeyword := (content.drop start).take (charIndex - start)
      let issues := match regexes.xssPayload lastKeyword with
        | none => self.issues
        | some reqId => self.issues ++ [xssInJavascript reqId]
      { self with lastKeywordStart := none, lastKeyword, issues }

/-- The loop of `ScrapeJs`. In each round the position goes up. -/
def scrapeJsLoop (content : Bytes) : (rounds : Nat) → (charIndex : Nat) → JsScan → JsScan
  | 0, _, scan => scan
  | rounds + 1, charIndex, scan =>
    match content[charIndex]? with
    | none => scan
    | some c =>
      if c = 39 ∨ c = 34 then
        let quotedTextSize := getQuotedTextSize content c charIndex
        scrapeJsLoop content rounds (charIndex + quotedTextSize + 2)
          (scan.quotedText regexes quotedTextSize
            ((content.drop (charIndex + 1)).take quotedTextSize))
      else scrapeJsLoop content rounds (charIndex + 1) (scan.char regexes content charIndex c)

/-- `ScrapeJs`: the anchors of a script, and the issues with those that are found in it. -/
def scrapeJs (content : Bytes) (issues : List IssueDetails) : List Bytes × List IssueDetails :=
  let scan := scrapeJsLoop regexes content content.length 0 { issues }
  (scan.anchors, scan.issues)

/-- `ScrapeUrl`. -/
def scrapeUrl (content : Bytes) : List Bytes :=
  (regexes.absoluteUrls content).foldl insertAnchor []

/-- Every anchor of a script is a text within it. -/
theorem scrapeJsLoop_length {content : Bytes} {rounds charIndex : Nat} {scan : JsScan}
    (hscan : ∀ anchor ∈ scan.anchors, anchor.length < content.length) :
    ∀ anchor ∈ (scrapeJsLoop regexes content rounds charIndex scan).anchors,
      anchor.length < content.length := by
  have hinsert {anchors : List Bytes} {text : Bytes} (htext : text.length < content.length)
      (h : ∀ anchor ∈ anchors, anchor.length < content.length) :
      ∀ anchor ∈ insertAnchor anchors text, anchor.length < content.length := by
    unfold insertAnchor
    split
    · exact h
    · intro anchor hmem
      rcases List.mem_append.mp hmem with hold | hnew
      · exact h anchor hold
      · rwa [List.mem_singleton.mp hnew]
  induction rounds generalizing charIndex scan with
  | zero => exact hscan
  | succ rounds ih =>
    rw [scrapeJsLoop]
    split
    · exact hscan
    · rename_i c hc
      obtain ⟨hindex, _⟩ := List.getElem?_eq_some_iff.mp hc
      dsimp only
      split
      · apply ih
        have htext : ((content.drop (charIndex + 1)).take
            (getQuotedTextSize content c charIndex)).length < content.length := by
          simp only [List.length_take, List.length_drop]
          omega
        unfold JsScan.quotedText
        split
        · exact hscan
        · split
          · exact hinsert htext hscan
          · split
            · exact hinsert htext hscan
            · exact hscan
      · apply ih
        unfold JsScan.char
        split
        · split <;> exact hscan
        · split
          · exact hscan
          · exact hscan

theorem scrapeJs_length {content : Bytes} {issues : List IssueDetails} :
    ∀ anchor ∈ (scrapeJs regexes content issues).1, anchor.length < content.length :=
  scrapeJsLoop_length regexes fun _ hmem => absurd hmem List.not_mem_nil

end

end util

end plusfish

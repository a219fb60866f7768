import Plusfish.Parsers.GumboFingerprintFilter
import Plusfish.Parsers.GumboFormFilter
import Plusfish.Parsers.GumboUrlFilter
import Plusfish.Parsers.GumboXssFilter

open visitors

namespace plusfish

open GumboParser

/-- The libraries that the parsers rest on: the one that makes document trees, and the one that
    matches regular expressions. -/
structure ParserEnv where
  gumboParse : Bytes → Option GumboNode
  regexes : util.ScrapeRegexes

/-- What the four filters of `HtmlScraper::Parse` work on. -/
structure HtmlScraping where
  anchors : List Bytes := []
  requests : List Request := []
  issues : List IssueDetails := []
  fingerprint : HtmlFingerprint := {}
  lastElement : Option GumboElement := none
  formHasPasswordField : Bool := false
  formHasXsrfToken : Bool := false

namespace HtmlScraping

/-- The URL filter and the form filter share the issues with the XSS filter. -/
def url (self : HtmlScraping) : GumboUrlFilter where
  anchors := self.anchors
  issues := self.issues
  lastElement := self.lastElement

def setUrl (self : HtmlScraping) (part : GumboUrlFilter) : HtmlScraping :=
  { self with anchors := part.anchors, issues := part.issues, lastElement := part.lastElement }

def form (self : HtmlScraping) : GumboFormFilter where
  requests := self.requests
  issues := self.issues
  formHasPasswordField := self.formHasPasswordField
  formHasXsrfToken := self.formHasXsrfToken

def setForm (self : HtmlScraping) (part : GumboFormFilter) : HtmlScraping :=
  { self with
    requests := part.requests
    issues := part.issues
    formHasPasswordField := part.formHasPasswordField
    formHasXsrfToken := part.formHasXsrfToken }

def scraped (self : HtmlScraping) : Scraped where
  fingerprint := self.fingerprint
  anchors := self.anchors
  requests := self.requests
  issues := self.issues

end HtmlScraping

namespace ParserEnv

section
variable (self : ParserEnv) (env : RequestEnv) (baseRequest : Nat × Request)

def urlFilter : GumboFilter HtmlScraping :=
  (GumboUrlFilter.filter self.regexes).within HtmlScraping.url HtmlScraping.setUrl

def xssFilter : GumboFilter HtmlScraping :=
  (GumboXssFilter.filter self.regexes baseRequest.2).within HtmlScraping.issues
    fun state issues => { state with issues }

def formFilter : GumboFilter HtmlScraping :=
  (GumboFormFilter.filter env baseRequest).within HtmlScraping.form HtmlScraping.setForm

def fpFilter : GumboFilter HtmlScraping :=
  GumboFingerprintFilter.filter.within HtmlScraping.fingerprint
    fun state fingerprint => { state with fingerprint }

/-- `HtmlScraper::Parse`. -/
def scrapeHtml (address : Nat) (request : Request) (htmlContent : Bytes) : Option Scraped :=
  (self.gumboParse (cStr htmlContent)).map fun root =>
    (filterDocument [self.urlFilter, self.xssFilter (address, request),
      formFilter env (address, request), fpFilter] root {}).scraped

/-- The fingerprint that `NotFoundDetector::RequestCallback` and
    `HiddenObjectsFinder::RequestCallback` make of a page. -/
def parseFingerprint (body : Bytes) : Option HtmlFingerprint :=
  (self.gumboParse (cStr body)).map fun root =>
    filterDocument [GumboFingerprintFilter.filter] root {}

end

variable {self : ParserEnv} {env : RequestEnv} {baseRequest : Nat × Request}

/-- Only the fingerprint filter changes the fingerprint. -/
theorem fingerprint_receive {other : GumboFilter HtmlScraping}
    (hother : other ∈ [self.urlFilter, self.xssFilter baseRequest, formFilter env baseRequest])
    (event : GumboEvent) (state : HtmlScraping) :
    (other.receive event state).fingerprint = state.fingerprint := by
  simp only [List.mem_cons, List.not_mem_nil, or_false] at hother
  rcases hother with rfl | rfl | rfl
  all_goals
    refine GumboFilter.apart_receive_within ?_ _ event state
    exact fun _ _ => rfl

/-- The scraper makes the same fingerprint of a page as a fingerprint filter alone. -/
theorem scrapeHtml_fingerprint (address : Nat) (request : Request) (htmlContent : Bytes) :
    (self.scrapeHtml env address request htmlContent).map (·.fingerprint) =
      self.parseFingerprint htmlContent := by
  unfold scrapeHtml parseFingerprint
  rw [Option.map_map]
  refine congrFun (congrArg Option.map (funext fun root => ?_)) _
  let others : List (GumboFilter HtmlScraping) :=
    [self.urlFilter, self.xssFilter (address, request), formFilter env (address, request)]
  have hothers : ∀ other ∈ others ++ [], ∀ event state,
      (other.receive event state).fingerprint = state.fingerprint := by
    rw [List.append_nil]
    exact fun other hmem => fingerprint_receive hmem
  exact filterDocument_within (fun _ _ => rfl) hothers root {}

end ParserEnv

end plusfish

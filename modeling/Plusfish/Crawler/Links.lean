import Plusfish.Crawler.Callback
import Plusfish.Parsers.GumboFormFilter

open memory Relation

namespace plusfish

/-- The two have one URL, and what was received for them says the same. -/
structure Request.SameContent (request request' : Request) : Prop where
  googleUrl : request'.googleUrl = request.googleUrl
  response : request'.response.map (·.proto) = request.response.map (·.proto)

theorem Request.SameContent.refl (request : Request) : SameContent request request := ⟨rfl, rfl⟩

theorem Request.SameContent.trans (a b c : Request) (hab : SameContent a b)
    (hbc : SameContent b c) : SameContent a c :=
  ⟨hbc.googleUrl.trans hab.googleUrl, hbc.response.trans hab.response⟩

/-- A request for a link depends on the page only through the URL of the page. -/
theorem Request.ofUrl_congr (env : RequestEnv) (url : Bytes) (address : Nat) {page page' : Request}
    (h : page'.googleUrl = page.googleUrl) :
    ofUrl env url (some (address, page')) = ofUrl env url (some (address, page)) := by
  simp only [ofUrl, parseUrl, Option.map_some, Option.bind_some, h]

theorem GumboFormFilter.formRequests_congr (env : RequestEnv) (address : Nat) {page page' : Request}
    (h : page'.googleUrl = page.googleUrl) (root : GumboNode) :
    formRequests env (address, page') root = formRequests env (address, page) root := by
  rw [formRequests_eq_flatMap, formRequests_eq_flatMap]
  refine congrArg (fun f => List.flatMap f (GumboParser.preorder root)) (funext fun event => ?_)
  cases event with
  | element element children =>
    simp only [eventRequests, parseElement, Request.ofUrl_congr env _ address h]
  | comment | text => rfl

namespace Crawler

section
variable (env : ScanEnv) (req : Nat) (page : Request)

/-- The request for a link of a page. -/
def linkRequest (url : Bytes) : Request := Request.ofUrl env.request url (some (req, page))

/-- The request for the page that a page redirects to. -/
def locationLinks : List Request :=
  if env.extractLinks then
    (page.response.bind (·.getHeader HTTPHeaders.kLocation)).toList.map (linkRequest env req page)
  else []

/-- The requests for the anchors of a page, and those of its forms. -/
def scrapedLinks (scraped : Scraped) : List Request :=
  (if env.extractLinks then scraped.anchors.map (linkRequest env req page) else []) ++
    scraped.requests

/-- The requests that `ScrapeWithLinks` makes for a page. -/
def links : List Request :=
  match page.response with
  | none => []
  | some response =>
    if scrapeMimeType response = .ascHtml ∨ scrapeMimeType response = .xmlXhtml then
      match env.scrapeHtml req page response.body with
      | none => []
      | some scraped => scrapedLinks env req page scraped ++ locationLinks env req page
    else locationLinks env req page

end

variable {env : ScanEnv} {req : Nat} {page page' : Request}

theorem linkRequest_congr (h : Request.SameContent page page') (url : Bytes) :
    linkRequest env req page' url = linkRequest env req page url :=
  Request.ofUrl_congr env.request url req h.googleUrl

theorem locationLinks_congr (h : Request.SameContent page page') :
    locationLinks env req page' = locationLinks env req page := by
  have hheader : page'.response.bind (·.getHeader HTTPHeaders.kLocation) =
      page.response.bind (·.getHeader HTTPHeaders.kLocation) := by
    have hresponse := h.response
    cases hpage : page.response <;> cases hpage' : page'.response <;>
      simp_all [Response.getHeader]
  have hlink : linkRequest env req page' = linkRequest env req page :=
    funext (linkRequest_congr h)
  rw [locationLinks, locationLinks, hheader, hlink]

/-- The links of a page depend on its URL and on what was received for it. -/
theorem links_congr (scraper : HtmlScraper) (h : Request.SameContent page page') :
    links (env.withScraper scraper) req page' = links (env.withScraper scraper) req page := by
  have hlocation : locationLinks (env.withScraper scraper) req page' =
      locationLinks (env.withScraper scraper) req page := locationLinks_congr h
  have hlink : linkRequest (env.withScraper scraper) req page' =
      linkRequest (env.withScraper scraper) req page := funext (linkRequest_congr h)
  have hforms := GumboFormFilter.formRequests_congr env.request req h.googleUrl
  have hresponse := h.response
  unfold links
  cases hpage : page.response with
  | none =>
    rw [hpage, Option.map_none, Option.map_eq_none_iff] at hresponse
    rw [hresponse]
  | some response =>
    rw [hpage, Option.map_some] at hresponse
    obtain ⟨response', hpage', hproto⟩ := Option.map_eq_some_iff.mp hresponse
    have hbody : response'.body = response.body := by rw [Response.body, hproto, Response.body]
    have htype : response'.mimeType = response.mimeType := by
      rw [Response.mimeType, hproto, Response.mimeType]
    have hmime : scrapeMimeType response' = scrapeMimeType response := by
      rw [scrapeMimeType, htype, hbody, scrapeMimeType]
    have hparse (page : Request) : (env.withScraper scraper).scrapeHtml req page response.body =
        scraper.parse env.request req page response.body := rfl
    rw [hpage']
    dsimp only
    rw [hmime, hbody, hlocation, hparse, hparse, HtmlScraper.parse, HtmlScraper.parse]
    cases scraper.gumboParse (cStr response.body) with
    | none => rfl
    | some root => simp only [Option.map_some, scrapedLinks, hforms, hlink]

end Crawler

/-- Looking at a page changes neither what was received nor where from. -/
theorem PageEffect.content {env : StoreEnv} {newRequest : Request → Prop}
    {before after : Heap Request × DataStore} (h : PageEffect env newRequest before after) :
    Heap.Frame Request.SameContent before.1 after.1 := by
  cases h with
  | add mem store request =>
    rcases DataStore.addRequest_cases env store (mem.alloc request).2 mem.next with
      ⟨_, heq⟩ | ⟨_, _, heq⟩ | ⟨_, _, heq⟩
    · rw [heq]
      exact .alloc Request.SameContent.refl mem request
    · rw [heq]
      exact .alloc Request.SameContent.refl mem request
    · rw [heq]
      exact .alloc_modify Request.SameContent.refl mem request _
  | issue mem store requestId issue =>
    have houtcome := DataStore.addIssueDetails_outcome env mem store requestId issue
    generalize store.addIssueDetails env mem requestId issue = result at houtcome
    cases houtcome with
    | refused => exact .refl Request.SameContent.refl mem
    | stored => exact .modify Request.SameContent.refl mem _ fun _ => ⟨rfl, rfl⟩
  | fingerprint mem store requestId fingerprint =>
    unfold DataStore.addResponseFingerprintToRequest
    split
    · exact .refl Request.SameContent.refl mem
    · refine .modify Request.SameContent.refl mem _ fun request => ⟨rfl, ?_⟩
      cases hresponse : request.response <;> simp [Request.setResponseHtmlFingerprint, hresponse]

theorem PageEffects.content {env : StoreEnv} {newRequest : Request → Prop}
    {before after : Heap Request × DataStore} (h : PageEffects env newRequest before after) :
    Heap.Frame Request.SameContent before.1 after.1 := by
  induction h with
  | refl => exact .refl Request.SameContent.refl _
  | tail _ hstep ih => exact ih.trans Request.SameContent.trans hstep.content

end plusfish

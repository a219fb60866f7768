import Plusfish.Scan

open memory

namespace plusfish

namespace util

def kContentBufferSize : Nat := 1024

/-- The type that the content looks like, where `SniffMimeType` recognizes one. -/
def sniffMimeType (content : Bytes) : Option MimeType :=
  let sniffBuf := content.take kContentBufferSize
  let contains (needle : String) := strCaseStr sniffBuf (ascii needle)
  if contains "<?xml " then
    if contains "<!DOCTYPE html" || contains "http://www.w3.org/1999/xhtml" then some .xmlXhtml
    else some .xmlGeneric
  else if ["<!DOCTYPE html", "<html", "<title", "<head>", "<body", "<table", "<form", "<p>",
      "<foo"].any contains then
    some .ascHtml
  else none

end util

namespace PassiveAuditor

/-- `Check`, with the issue callback that `main` sets. -/
def check (env : ScanEnv) (self : PassiveAuditor) (mem : Heap Request) (store : DataStore)
    (req : Nat) : Heap Request × DataStore :=
  if (deref mem req).response.isNone then (mem, store)
  else
    self.responseMatchers.foldl (fun (mem, store) (matcher, test) =>
      if matcher.matchSingle store.getRequestMetadata (deref mem req) then
        (store.addIssue env.store mem (deref mem req).id test.issueType test.severity
          (deref mem req)).2
      else (mem, store)) (mem, store)

end PassiveAuditor

namespace Crawler

/-- Types whose responses are optionally discarded. -/
def binaryMimeTypes : List MimeType :=
  [.binCab, .binZip, .binGzip, .imgGif, .imgAni, .imgBmp, .imgPng, .imgTiff, .extJar, .extPdf,
   .extClass]

def noTestingResponseCodes : List HttpResponse.ResponseCode :=
  [.notFound, .forbidden, .badRequest, .methodNotAllowed, .proxyAuthenticationRequired]

/-- Types whose content is sniffed, as browsers do. -/
def sniffedMimeTypes : List MimeType :=
  [.ascGeneric, .ascJavascript, .ascJson, .appJson, .appJavascript, .appXjavascript]

def scrapeMimeType (response : Response) : MimeType :=
  if sniffedMimeTypes.contains response.mimeType then
    (util.sniffMimeType response.body).getD response.mimeType
  else response.mimeType

section
variable (env : ScanEnv)

/-- Gives a new request object to the datastore. -/
def addNewRequest (mem : Heap Request) (store : DataStore) (request : Request) :
    Heap Request × DataStore :=
  let (req, mem) := mem.alloc request
  (store.addRequest env.store mem req).2

def maybeAddUrl (mem : Heap Request) (store : DataStore) (ref : Nat) (url : Bytes) :
    Heap Request × DataStore :=
  addNewRequest env mem store (Request.ofUrl env.request url (some (ref, deref mem ref)))

def addScrapedIssue (mem : Heap Request) (store : DataStore) (req : Nat) (issue : IssueDetails) :
    Heap Request × DataStore :=
  let request := deref mem req
  let reqId := if request.id = kInvalidId then request.parentId else request.id
  let newIssue := { issue with
    request := some request.proto
    response := match request.response with
      | some response => some response.proto
      | none => issue.response }
  (store.addIssueDetails env.store mem reqId newIssue).2

/-- What `ScrapeRequest` does with a page that was parsed. -/
def addScraped (mem : Heap Request) (store : DataStore) (req : Nat) (scraped : Scraped)
    (alsoExtractLinks storeFingerprint : Bool) : Heap Request × DataStore :=
  let mem := if storeFingerprint then
      (store.addResponseFingerprintToRequest mem (deref mem req).id scraped.fingerprint).2
    else mem
  let (mem, store) := if alsoExtractLinks then
      scraped.anchors.foldl (fun (mem, store) anchor => maybeAddUrl env mem store req anchor)
        (mem, store)
    else (mem, store)
  let (mem, store) :=
    scraped.requests.foldl (fun (mem, store) request => addNewRequest env mem store request)
      (mem, store)
  scraped.issues.foldl (fun (mem, store) issue => addScrapedIssue env mem store req issue)
    (mem, store)

def addLocation (mem : Heap Request) (store : DataStore) (req : Nat) : Heap Request × DataStore :=
  match (deref mem req).response.bind (·.getHeader HTTPHeaders.kLocation) with
  | some locationValue => maybeAddUrl env mem store req locationValue
  | none => (mem, store)

def scrapeRequest (mem : Heap Request) (store : DataStore) (req : Nat)
    (extractLinks storeFingerprint : Bool) : Bool × Heap Request × DataStore :=
  let alsoExtractLinks := env.extractLinks && extractLinks
  match (deref mem req).response with
  | none => (false, mem, store)
  | some response =>
    let mime := scrapeMimeType response
    if mime = .ascHtml ∨ mime = .xmlXhtml then
      match env.scrapeHtml req (deref mem req) response.body with
      | none => (false, mem, store)
      | some scraped =>
        let (mem, store) := addScraped env mem store req scraped alsoExtractLinks storeFingerprint
        (true, if alsoExtractLinks then addLocation env mem store req else (mem, store))
    else (true, if alsoExtractLinks then addLocation env mem store req else (mem, store))

def scrape (mem : Heap Request) (store : DataStore) (req : Nat) :
    Bool × Heap Request × DataStore :=
  scrapeRequest env mem store req false false

def scrapeWithLinks (mem : Heap Request) (store : DataStore) (req : Nat) :
    Bool × Heap Request × DataStore :=
  scrapeRequest env mem store req true true

/-- The request with an id and a response that is equal to the given one, where the id
    is not 0. -/
def sameResponse (mem : Heap Request) (store : DataStore) (id : Int) (response : Response) :
    Option Request :=
  if id = 0 then none
  else
    (store.getRequestById id).bind fun req =>
      if (deref mem req).response.any (·.equals response) then some (deref mem req) else none

/-- Whether the parent and its parent have the same response. -/
def isCrawlerLoop (mem : Heap Request) (store : DataStore) (request : Request)
    (response : Response) : Bool :=
  match sameResponse mem store request.parentId response with
  | none => false
  | some parent => (sameResponse mem store parent.parentId response).isSome

/-- Whether a page is not worth testing, by its code or as a page for missing files. -/
def skipsTesting (store : DataStore) (response : Response) : Bool :=
  noTestingResponseCodes.contains response.proto.code ||
    store.isFileNotFoundHtmlFingerprint response.htmlFingerprint

def requestCallback (passiveAuditor : PassiveAuditor) (mem : Heap Request) (store : DataStore)
    (req : Nat) : Heap Request × DataStore :=
  match (deref mem req).response with
  | none => (mem, store)
  | some response =>
    if isCrawlerLoop mem store (deref mem req) response then (mem, store)
    else
      let (mem, store) :=
        if env.hasAuditors then passiveAuditor.check env mem store req else (mem, store)
      let store :=
        if skipsTesting store response then store
        else if env.hasAuditors then store.addRequestToAuditQueue req
        else store
      let (_, mem, store) := scrapeWithLinks env mem store req
      if env.discardBinaryResponses && binaryMimeTypes.contains response.mimeType then
        (mem.modify req (·.truncateResponseBody), store)
      else (mem, store)

/-- `Crawler::Crawl`. -/
def crawl (scan : Scan) (req : Nat) : Bool × Scan :=
  scan.scheduleWith env .crawler req .crawler

end

end Crawler

end plusfish

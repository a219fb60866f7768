import Plusfish.Audit.SecurityCheck
import Plusfish.DataStore

open memory ordered_map

namespace plusfish

/-- What `HtmlScraper` collects from a page: the requests are those of its forms. -/
structure Scraped where
  fingerprint : HtmlFingerprint := {}
  anchors : List Bytes := []
  requests : List Request := []
  issues : List IssueDetails := []

/-- The flags, which of the optional components `main` creates, and what the scan depends
    on: the answer to each call of `Schedule`, by its position in the scan, and the HTML
    parsers, whose document trees come from a library that is not part of the
    repository. -/
structure ScanEnv where
  store : StoreEnv
  request : RequestEnv
  maxAuditorRunners : Int
  extractLinks : Bool
  discardBinaryResponses : Bool
  hasAuditors : Bool
  hasObjectsFinder : Bool
  accepts : Nat → Bool
  scrapeHtml : (address : Nat) → Request → Bytes → Option Scraped
  parseFingerprint : Bytes → Option HtmlFingerprint

/-- What the HTTP client stores in a request that it has fetched, before it calls the
    handler of the request. -/
structure Transfer where
  response : Response := {}
  primaryIp : Option Bytes := none
  /-- The application, the total and the completion time. -/
  times : Option (Int × Int × Int) := none

def Request.withTransfer (self : Request) (transfer : Transfer) : Request :=
  let located := match transfer.primaryIp with
    | some ip => self.setIp ip
    | none => self
  let timed := match transfer.times with
    | some (application, total, completion) =>
      { located with
        proto := { located.proto with
          clientTimeApplicationUsec := some application
          clientTimeTotalUsec := some total
          clientCompletionTimeMs := some completion } }
    | none => located
  { timed with response := some transfer.response, rawResponse := [] }

/-- A runner refers to the check it runs and, through it, to the checks that come after
    it. The tested request and the requests of the check are given by their addresses. -/
structure SecurityCheckRunner where
  finished : Bool := false
  requestsCompleted : Nat := 0
  testedRequest : Nat := 0
  securityCheck : SecurityCheck := .responseTime ⟨0, 0⟩
  nextChecks : List SecurityCheck := []
  requests : List Nat := []
  issueCallback : Bool := false

structure SelectiveAuditor where
  checks : List SecurityCheck := []
  runners : List Nat := []
  crawlerScrapeCb : Bool := true
  issueCallback : Bool := true

structure PassiveAuditor where
  responseMatchers : List (ResponseMatcher × SecurityTest) := []

structure NotFoundDetector where
  requests : OrderedMap Bytes Nat := []
  probedUrls : List Bytes := []
  numCompletedRequests : Nat := 0

/-- The word list and the extensions are in the order in which they are iterated. -/
structure HiddenObjectsFinder where
  wordlist : List (Bytes × Bool) := []
  extensions : List Bytes := []
  requests : OrderedMap Bytes Nat := []
  probedUrls : List Bytes := []
  pendingUrls : List Bytes := []
  testUrlsQueue : List Bytes := []
  numCompletedRequests : Nat := 0
  numObjectsFound : Nat := 0

/-- Who calls `Schedule`. A runner calls it for a check that is evaluated in serial or
    in batch. -/
inductive ScheduleCaller where
  | crawler
  | notFoundDetector
  | hiddenObjectsFinder
  | securityCheckRunner (address : Nat) (serial : Bool)
deriving DecidableEq

structure ScheduleCall where
  caller : ScheduleCaller
  req : Nat
  url : Bytes
  accepted : Bool

/-- The components of a scan with the objects they refer to, the requests that the HTTP
    client has accepted and not finished, and the history of the calls of `Schedule`.
    Objects are never moved: one that has been destroyed, but that somebody still refers
    to, is found with its last contents. -/
structure Scan where
  mem : Heap Request := {}
  store : DataStore := {}
  outstanding : List Nat := []
  calls : List ScheduleCall := []
  runnerMem : Heap SecurityCheckRunner := {}
  selectiveAuditor : SelectiveAuditor := {}
  passiveAuditor : PassiveAuditor := {}
  notFoundDetector : NotFoundDetector := {}
  objectsFinder : HiddenObjectsFinder := {}

namespace Scan

def runnerAt (scan : Scan) (p : Nat) : SecurityCheckRunner := (scan.runnerMem.get? p).getD {}

/-- `HttpClientInterface::Schedule`. -/
def schedule (env : ScanEnv) (scan : Scan) (caller : ScheduleCaller) (req : Nat) : Bool × Scan :=
  let accepted := env.accepts scan.calls.length
  (accepted, { scan with
    calls := scan.calls ++ [{ caller, req, url := (deref scan.mem req).url, accepted }]
    outstanding := if accepted then scan.outstanding ++ [req] else scan.outstanding })

/-- The HTTP client is done with a request that it has fetched. -/
def receive (scan : Scan) (req : Nat) (transfer : Transfer) : Scan :=
  { scan with
    outstanding := scan.outstanding.erase req
    mem := scan.mem.modify req (·.withTransfer transfer) }

def setRequestHandler (scan : Scan) (req : Nat) (handler : RequestHandler) : Scan :=
  { scan with mem := scan.mem.modify req ({ · with requestHandler := some handler }) }

/-- `Schedule` with a handler for the request. -/
def scheduleWith (env : ScanEnv) (scan : Scan) (caller : ScheduleCaller) (req : Nat)
    (handler : RequestHandler) : Bool × Scan :=
  (scan.setRequestHandler req handler).schedule env caller req

end Scan

end plusfish

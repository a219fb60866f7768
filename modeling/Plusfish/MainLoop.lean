import Plusfish.Audit.SelectiveAuditor
import Plusfish.HiddenObjectsFinder

open memory

namespace plusfish

/-- Amount of hidden object test URLs to schedule per loop iteration. -/
def kMaxHiddenObjectsUrlsToSchedule : Nat := 100

/-- What `main` gives to the components before the scan starts. -/
structure ScanConfig where
  includeRegexes : List Bytes := []
  excludeRegexes : List Bytes := []
  checks : List SecurityCheck := []
  responseMatchers : List (ResponseMatcher × SecurityTest) := []
  wordlist : List (Bytes × Bool) := []
  extensions : List Bytes := []

/-- The state of `Plusfish::Run`: the scan, and what `KeepRunningOrShutdown` answered when
    the loop was left. -/
structure MainLoop where
  scan : Scan := {}
  exit : Option Bool := none

/-- The events of a scan. Seeds are added, the HTTP client calls the handler of a request
    back or gives the request up, and the rest of the loop body runs after these calls,
    with the number that the detector draws and the answer of `KeepRunningOrShutdown`. -/
inductive ScanOp where
  | addUrl (url : Bytes)
  | addRequest (proto : HttpRequest)
  | requestCallback (req : Nat) (transfer : Transfer)
  | giveUp (req : Nat)
  | iterate (number : ProbeNumber) (keepRunning : Bool)

namespace Scan

section
variable (env : ScanEnv)

def configured (config : ScanConfig) : Scan where
  store :=
    config.excludeRegexes.foldl (fun store regex => (store.addBlacklistRegex env.store regex).2)
      (config.includeRegexes.foldl (fun store regex => (store.addWhitelistRegex env.store regex).2)
        {})
  selectiveAuditor := { checks := config.checks }
  passiveAuditor := { responseMatchers := config.responseMatchers }
  objectsFinder := { wordlist := config.wordlist, extensions := config.extensions }

def addNewRequest (scan : Scan) (request : Request) : Scan :=
  let (mem, store) := Crawler.addNewRequest env scan.mem scan.store request
  { scan with mem, store }

/-- `Plusfish::AddURL`. -/
def addUrl (scan : Scan) (url : Bytes) : Bool × Scan :=
  let newRequest := Request.ofUrl env.request url none
  if !newRequest.urlIsValid then (false, scan)
  else
    let scan := { scan with store := scan.store.addHost newRequest.host }
    (true, scan.addNewRequest env newRequest)

/-- The call of the handler of a request that has been fetched. The result is `none` where
    no scheduled request has the address, and where the source uses a null pointer. -/
def requestCallback (scan : Scan) (req : Nat) (transfer : Transfer) : Option Scan :=
  if req ∉ scan.outstanding then none
  else
    let scan := scan.receive req transfer
    match (deref scan.mem req).requestHandler with
    | none => none
    | some .crawler =>
      let (mem, store) := Crawler.requestCallback env scan.passiveAuditor scan.mem scan.store req
      some { scan with mem, store }
    | some (.securityCheckRunner p) => some (scan.runnerCallback env p req)
    | some .notFoundDetector => some (scan.notFoundCallback env req)
    | some .hiddenObjectsFinder => scan.hiddenObjectCallback env req

/-- The HTTP client is done with a request without calling its handler. -/
def giveUp (scan : Scan) (req : Nat) : Option Scan :=
  if req ∉ scan.outstanding then none
  else some { scan with outstanding := scan.outstanding.erase req }

/-- The number of runners is below the limit. -/
def hasFreeRunner (scan : Scan) : Bool :=
  (scan.selectiveAuditor.runners.length : Int) < env.maxAuditorRunners

/-- The hidden objects finder is given a URL, where the detector makes requests for it. -/
def offerUrl (scan : Scan) (probed : Bool) (url : Bytes) : Scan :=
  if probed && env.hasObjectsFinder then
    { scan with objectsFinder := scan.objectsFinder.addUrl url }
  else scan

/-- The loop body's step for the probe queue. This and the next steps give `none` where the
    source uses a null pointer. -/
def serveProbeQueue (scan : Scan) (number : ProbeNumber) : Option Scan :=
  match scan.store.probeQueue with
  | [] => some scan
  | req :: _ =>
    let scan := { scan with store := scan.store.getRequestFromProbeQueue.2 }
    let url := (deref scan.mem req).url
    let (probed, scan) := scan.addProbeUrl env url number
    let scan := scan.offerUrl env probed url
    (scan.store.getRequestById (deref scan.mem req).id).map fun stored =>
      { scan with store := scan.store.addRequestToCrawlQueue stored }

def serveCrawlQueue (scan : Scan) : Option Scan :=
  match scan.store.crawlQueue with
  | [] => some scan
  | req :: _ =>
    let scan := { scan with store := scan.store.getRequestFromCrawlQueue.2 }
    (scan.store.getRequestById (deref scan.mem req).id).map fun stored =>
      (Crawler.crawl env scan stored).2

def serveObjectsFinder (scan : Scan) : Option Scan :=
  if env.hasObjectsFinder then
    some (scan.scheduleObjectRequests env kMaxHiddenObjectsUrlsToSchedule)
  else none

def serveAuditQueue (scan : Scan) : Scan :=
  if env.hasAuditors && scan.hasFreeRunner env then
    match scan.store.auditQueue with
    | [] => scan
    | req :: _ =>
      let scan := { scan with store := scan.store.getRequestFromAuditQueue.2 }
      (scan.scheduleFirst env req).2
  else scan

/-- The loop body of `Plusfish::Run` after the calls of the HTTP client. -/
def iterate (scan : Scan) (number : ProbeNumber) : Option Scan :=
  (scan.serveProbeQueue env number).bind fun scan =>
    (scan.serveCrawlQueue env).bind fun scan =>
      (scan.serveObjectsFinder env).map fun scan => scan.serveAuditQueue env

end

end Scan

namespace MainLoop

/-- One event. Nothing happens any more once the loop has been left. -/
def step (env : ScanEnv) (self : MainLoop) (op : ScanOp) : Option MainLoop :=
  if self.exit.isSome then none
  else
    match op with
    | .addUrl url => some { self with scan := (self.scan.addUrl env url).2 }
    | .addRequest proto =>
      some { self with scan := self.scan.addNewRequest env (Request.ofProto env.request proto) }
    | .requestCallback req transfer =>
      (self.scan.requestCallback env req transfer).map fun scan => { self with scan }
    | .giveUp req => (self.scan.giveUp req).map fun scan => { self with scan }
    | .iterate number keepRunning =>
      (self.scan.iterate env number).map fun scan =>
        { self with
          scan
          exit := if keepRunning && !scan.outstanding.isEmpty then none else some keepRunning }

end MainLoop

end plusfish

import Plusfish.Pivot

open memory ordered_map

namespace plusfish

/-- A `DataStore` object. Requests are referred to by their addresses. The counts of the issues of
    a severity, each a `uint32_t` in the source, are read as numbers without a bound. -/
structure DataStore where
  allowedHosts : List Bytes := []
  urlBlacklistRegexes : List Bytes := []
  urlWhitelistRegexes : List Bytes := []
  sitePivots : OrderedMap Bytes Pivot := []
  requestsById : OrderedMap Int Nat := []
  issuePerId : OrderedMap Int (OrderedMap IssueDetails.IssueType (List IssueDetails)) := []
  issueCountPerSeverity : OrderedMap Severity Nat :=
    [(.unknown, 0), (.critical, 0), (.high, 0), (.moderate, 0), (.low, 0), (.minimal, 0)]
  requestMeta : OrderedMap Int (OrderedMap MetaDataType Int) := []
  requestId : Nat := 0
  checkIssueCounters : OrderedMap IssueDetails.IssueType Int := []
  auditQueue : List Nat := []
  crawlQueue : List Nat := []
  probeQueue : List Nat := []
  notFoundFingerprints : List Bytes := []

namespace DataStore

variable (env : StoreEnv)

def addHost (self : DataStore) (domainOrIp : Bytes) : DataStore :=
  { self with allowedHosts :=
      if self.allowedHosts.contains domainOrIp then self.allowedHosts
      else self.allowedHosts ++ [domainOrIp] }

def addBlacklistRegex (self : DataStore) (urlRegex : Bytes) : Bool × DataStore :=
  if !env.regexOk urlRegex then (false, self)
  else (true, { self with urlBlacklistRegexes := self.urlBlacklistRegexes ++ [urlRegex] })

def addWhitelistRegex (self : DataStore) (urlRegex : Bytes) : Bool × DataStore :=
  if !env.regexOk urlRegex then (false, self)
  else (true, { self with urlWhitelistRegexes := self.urlWhitelistRegexes ++ [urlRegex] })

def addRequestToProbeQueue (self : DataStore) (req : Nat) : DataStore :=
  { self with probeQueue := self.probeQueue ++ [req] }

def addRequestToCrawlQueue (self : DataStore) (req : Nat) : DataStore :=
  { self with crawlQueue := self.crawlQueue ++ [req] }

def addRequestToAuditQueue (self : DataStore) (req : Nat) : DataStore :=
  { self with auditQueue := self.auditQueue ++ [req] }

def getRequestFromProbeQueue (self : DataStore) : Option Nat × DataStore :=
  (self.probeQueue.head?, { self with probeQueue := self.probeQueue.tail })

def getRequestFromCrawlQueue (self : DataStore) : Option Nat × DataStore :=
  (self.crawlQueue.head?, { self with crawlQueue := self.crawlQueue.tail })

def getRequestFromAuditQueue (self : DataStore) : Option Nat × DataStore :=
  (self.auditQueue.head?, { self with auditQueue := self.auditQueue.tail })

def addRequestToIdMap (mem : Heap Request) (self : DataStore) (req : Nat) :
    Int × Heap Request × DataStore :=
  let requestId := self.requestId + 1
  let self := { self with
    requestId
    requestsById := assign self.requestsById (requestId : Int) req }
  (requestId, mem.modify req ({ · with id := requestId }), self.addRequestToProbeQueue req)

def addRequestToPivot (mem : Heap Request) (self : DataStore) (req : Nat) :
    Int × Heap Request × DataStore :=
  let name := (deref mem req).host
  let sitePivots := match find self.sitePivots name with
    | some _ => self.sitePivots
    | none => emplace self.sitePivots name (Pivot.new env name)
  let root := (find sitePivots name).getD (Pivot.new env name)
  let path := (deref mem req).proto.path.map (·.value)
  let (stored, root) := root.insert env mem req path
  let self := { self with sitePivots := adjust sitePivots name fun _ => root }
  if stored then self.addRequestToIdMap mem req else (kInvalidId, mem, self)

/-- `DataStore::AddRequest`, given the address of the request it takes over. A
    request that is refused is owned by nobody afterwards. -/
def addRequest (mem : Heap Request) (self : DataStore) (req : Nat) :
    Int × Heap Request × DataStore :=
  let request := deref mem req
  if !self.allowedHosts.contains request.host then (kInvalidId, mem, self)
  else if self.urlWhitelistRegexes.any fun regex => !env.partialMatch request.url regex then
    (kInvalidId, mem, self)
  else if self.urlBlacklistRegexes.any fun regex => env.partialMatch request.url regex then
    (kInvalidId, mem, self)
  else if !request.urlIsValid then (kInvalidId, mem, self)
  else self.addRequestToPivot env mem req

def getRequestById (self : DataStore) (id : Int) : Option Nat := find self.requestsById id

def checkAndUpdateIssueCounters (self : DataStore) (issueType : IssueDetails.IssueType) :
    Bool × DataStore :=
  match find self.checkIssueCounters issueType with
  | none => (true, { self with checkIssueCounters := assign self.checkIssueCounters issueType 1 })
  | some count =>
    if count = env.maxIssuesPerCheck.toInt then (false, self)
    else
      (true, { self with
        checkIssueCounters := assign self.checkIssueCounters issueType (count + 1) })

/-- The issues recorded for a request id, by issue type. -/
def issueMap (self : DataStore) (requestId : Int) :
    OrderedMap IssueDetails.IssueType (List IssueDetails) :=
  (find self.issuePerId requestId).getD []

/-- The last part of `DataStore::AddIssueDetails`, past the limits per URL. -/
def registerIssue (mem : Heap Request) (self : DataStore) (requestId : Int) (req : Nat)
    (issue : IssueDetails) : Bool × Heap Request × DataStore :=
  match self.checkAndUpdateIssueCounters env issue.type with
  | (false, self) => (false, mem, self)
  | (true, self) =>
    let severityCount := (find self.issueCountPerSeverity issue.severity).getD 0
    let issueMap := self.issueMap requestId
    let issues := (find issueMap issue.type).getD []
    (true, mem.modify req (·.addIssue issue), { self with
      issueCountPerSeverity :=
        assign self.issueCountPerSeverity issue.severity (severityCount + 1)
      issuePerId :=
        assign self.issuePerId requestId (assign issueMap issue.type (issues ++ [issue])) })

def addIssueDetails (mem : Heap Request) (self : DataStore) (requestId : Int)
    (issue : IssueDetails) : Bool × Heap Request × DataStore :=
  match self.getRequestById requestId with
  | none => (false, mem, self)
  | some req =>
    if (deref mem req).issues.length = sizeT env.maxIssuesPerUrl then (false, mem, self)
    else
      match find self.issuePerId requestId with
      | none => self.registerIssue env mem requestId req issue
      | some issueMap =>
        let issues := (find issueMap issue.type).getD []
        if issues.any fun entry => env.messageDifferencerEquals entry issue then (false, mem, self)
        else
          -- Asking for the size of the set creates the set where it is missing.
          let issuePerId := assign self.issuePerId requestId (assign issueMap issue.type issues)
          let self := { self with issuePerId }
          if issues.length = sizeT env.maxIssuesPerCheckPerUrl then (false, mem, self)
          else self.registerIssue env mem requestId req issue

/-- The details that `AddIssue` and `AddIssueById` fill in from a request. -/
def issueDetailsFor (testRequest : Request) (issueType : IssueDetails.IssueType)
    (severity : Severity) : IssueDetails :=
  { request := some testRequest.proto
    typeField := some issueType
    severityField := some severity
    response := testRequest.response.map (·.proto) }

def addIssue (mem : Heap Request) (self : DataStore) (requestId : Int)
    (issueType : IssueDetails.IssueType) (severity : Severity) (testRequest : Request) :
    Bool × Heap Request × DataStore :=
  self.addIssueDetails env mem requestId (issueDetailsFor testRequest issueType severity)

/-- `DataStore::AddIssueById`, with `none` where no request has the id: the source
    then reads through a null pointer. -/
def addIssueById (mem : Heap Request) (self : DataStore) (requestId : Int)
    (issueType : IssueDetails.IssueType) (severity : Severity) :
    Option (Bool × Heap Request × DataStore) :=
  (self.getRequestById requestId).map fun req =>
    self.addIssueDetails env mem requestId (issueDetailsFor (deref mem req) issueType severity)

def addRequestMetadata (self : DataStore) (requestId : Int) (type : MetaDataType) (value : Int) :
    Bool × DataStore :=
  let metadata := (find self.requestMeta requestId).getD []
  if (find metadata type).isSome then (false, self)
  else
    (true, { self with
      requestMeta := assign self.requestMeta requestId (assign metadata type value) })

def getRequestMetadata (self : DataStore) (requestId : Int) (type : MetaDataType) : Option Int :=
  (find self.requestMeta requestId).bind fun metadata => find metadata type

def addResponseFingerprintToRequest (mem : Heap Request) (self : DataStore) (requestId : Int)
    (fingerprint : HtmlFingerprint) : Bool × Heap Request :=
  match self.getRequestById requestId with
  | none => (false, mem)
  | some req => (true, mem.modify req (·.setResponseHtmlFingerprint fingerprint))

def addFileNotFoundHtmlFingerprint (self : DataStore) (fingerprint : HtmlFingerprint) :
    DataStore :=
  { self with notFoundFingerprints :=
      if self.notFoundFingerprints.contains fingerprint.toString then self.notFoundFingerprints
      else self.notFoundFingerprints ++ [fingerprint.toString] }

def isFileNotFoundHtmlFingerprint (self : DataStore) (fingerprint : Option HtmlFingerprint) :
    Bool :=
  match fingerprint with
  | none => false
  | some fingerprint => self.notFoundFingerprints.contains fingerprint.toString

end DataStore

end plusfish

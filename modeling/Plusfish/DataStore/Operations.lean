import Plusfish.DataStore.Insert
import Plusfish.DataStore.Issues
import Plusfish.Library.Run

open memory ordered_map transition

namespace plusfish

/-- A request that is handed to the datastore. Only the datastore attaches issues to
    requests, so it has none yet. -/
structure FreshRequest where
  request : Request
  noIssues : request.issues = []

/-- A call of a public method of the datastore, or of one of the two callbacks by
    which the HTTP client hands the response to a stored request. -/
inductive StoreOp where
  | addHost (domainOrIp : Bytes)
  | addBlacklistRegex (urlRegex : Bytes)
  | addWhitelistRegex (urlRegex : Bytes)
  | addRequest (req : FreshRequest)
  | responseCb (requestId : Int) (data : Bytes)
  | doneCb (requestId : Int)
  | addIssue (requestId : Int) (issueType : IssueDetails.IssueType) (severity : Severity)
      (testRequest : Request)
  | addIssueById (requestId : Int) (issueType : IssueDetails.IssueType) (severity : Severity)
  | addIssueDetails (requestId : Int) (issue : IssueDetails)
  | addRequestMetadata (requestId : Int) (type : MetaDataType) (value : Int)
  | addResponseFingerprintToRequest (requestId : Int) (fingerprint : HtmlFingerprint)
  | addFileNotFoundHtmlFingerprint (fingerprint : HtmlFingerprint)
  | addRequestToCrawlQueue (requestId : Int)
  | addRequestToAuditQueue (requestId : Int)
  | getRequestFromProbeQueue
  | getRequestFromCrawlQueue
  | getRequestFromAuditQueue

/-- A datastore with the requests it refers to, and the history of the requests it
    accepted, with the ids it returned for them, and of those taken from its probe
    queue. -/
structure Site where
  mem : Heap Request := {}
  store : DataStore := {}
  accepted : List (Int × Nat) := []
  probed : List Nat := []

namespace Site

variable (env : StoreEnv)

/-- `AddRequest`, which takes over a new object. -/
def addRequest (site : Site) (fresh : FreshRequest) : Site :=
  let (req, mem) := site.mem.alloc fresh.request
  let (id, mem, store) := site.store.addRequest env mem req
  { site with
    mem
    store
    accepted := if id ≠ kInvalidId then site.accepted ++ [(id, req)] else site.accepted }

def ofIssueResult (site : Site) (result : Bool × Heap Request × DataStore) : Site :=
  { site with mem := result.2.1, store := result.2.2 }

/-- One call. A call is not possible where it refers to a request that does not
    exist, or where parsing the response reads out of range. -/
def step (site : Site) : StoreOp → Option Site
  | .addHost domainOrIp => some { site with store := site.store.addHost domainOrIp }
  | .addBlacklistRegex urlRegex =>
    some { site with store := (site.store.addBlacklistRegex env urlRegex).2 }
  | .addWhitelistRegex urlRegex =>
    some { site with store := (site.store.addWhitelistRegex env urlRegex).2 }
  | .addRequest fresh => some (site.addRequest env fresh)
  | .responseCb requestId data => (site.store.getRequestById requestId).map fun req =>
    { site with mem := site.mem.modify req (·.responseCb data) }
  | .doneCb requestId => (site.store.getRequestById requestId).bind fun req =>
    (deref site.mem req).doneCb.map fun (_, done) =>
      { site with mem := site.mem.modify req fun _ => done }
  | .addIssue requestId issueType severity testRequest =>
    some (site.ofIssueResult
      (site.store.addIssue env site.mem requestId issueType severity testRequest))
  | .addIssueById requestId issueType severity =>
    (site.store.addIssueById env site.mem requestId issueType severity).map site.ofIssueResult
  | .addIssueDetails requestId issue =>
    some (site.ofIssueResult (site.store.addIssueDetails env site.mem requestId issue))
  | .addRequestMetadata requestId type value =>
    some { site with store := (site.store.addRequestMetadata requestId type value).2 }
  | .addResponseFingerprintToRequest requestId fingerprint =>
    some { site with
      mem := (site.store.addResponseFingerprintToRequest site.mem requestId fingerprint).2 }
  | .addFileNotFoundHtmlFingerprint fingerprint =>
    some { site with store := site.store.addFileNotFoundHtmlFingerprint fingerprint }
  | .addRequestToCrawlQueue requestId => (site.store.getRequestById requestId).map fun req =>
    { site with store := site.store.addRequestToCrawlQueue req }
  | .addRequestToAuditQueue requestId => (site.store.getRequestById requestId).map fun req =>
    { site with store := site.store.addRequestToAuditQueue req }
  | .getRequestFromProbeQueue =>
    some { site with
      store := site.store.getRequestFromProbeQueue.2
      probed := site.probed ++ site.store.getRequestFromProbeQueue.1.toList }
  | .getRequestFromCrawlQueue => some { site with store := site.store.getRequestFromCrawlQueue.2 }
  | .getRequestFromAuditQueue => some { site with store := site.store.getRequestFromAuditQueue.2 }

/-- The issue that a call reports, with the id of the request it is reported for. -/
def report (site : Site) : StoreOp → Option (Int × IssueDetails)
  | .addIssue requestId issueType severity testRequest =>
    some (requestId, DataStore.issueDetailsFor testRequest issueType severity)
  | .addIssueById requestId issueType severity =>
    (site.store.getRequestById requestId).map fun req =>
    (requestId, DataStore.issueDetailsFor (deref site.mem req) issueType severity)
  | .addIssueDetails requestId issue => some (requestId, issue)
  | _ => none

end Site

/-- The requests differ at most in their responses, handlers and issues. -/
structure Request.SameRecord (request request' : Request) : Prop where
  id : request'.id = request.id
  url : request'.url = request.url
  googleUrl : request'.googleUrl = request.googleUrl
  proto : request'.proto = request.proto

namespace Request.SameRecord

theorem refl (request : Request) : SameRecord request request := ⟨rfl, rfl, rfl, rfl⟩

theorem trans (a b c : Request) (hab : SameRecord a b) (hbc : SameRecord b c) : SameRecord a c :=
  ⟨hbc.id.trans hab.id, hbc.url.trans hab.url, hbc.googleUrl.trans hab.googleUrl,
    hbc.proto.trans hab.proto⟩

theorem place {request request' : Request} (h : SameRecord request request') :
    request'.place = request.place := by
  simp only [Request.place, Request.host, h.proto]

theorem equals {a a' b b' : Request} (ha : SameRecord a a') (hb : SameRecord b b') :
    a'.equals b' = a.equals b := by
  simp only [Request.equals, ha.proto, hb.proto]

end Request.SameRecord

def Request.SameAttached (request request' : Request) : Prop := request'.issues = request.issues

theorem Request.SameAttached.refl (request : Request) : SameAttached request request := rfl

theorem Request.doneCb_keeps {request done : Request} {called : Bool}
    (h : request.doneCb = some (called, done)) :
    request.SameRecord done ∧ request.SameAttached done := by
  unfold Request.doneCb at h
  split at h
  · cases h
    exact ⟨SameRecord.refl _, rfl⟩
  · split at h
    · cases h
    · cases h
      exact ⟨⟨rfl, rfl, rfl, rfl⟩, rfl⟩
    · cases h
      exact ⟨⟨rfl, rfl, rfl, rfl⟩, rfl⟩

namespace Site

/-- A step that stores no request and forgets none. -/
structure Keeps (env : StoreEnv) (site site' : Site) : Prop where
  mem : Heap.Frame Request.SameRecord site.mem site'.mem
  requestsById : site'.store.requestsById = site.store.requestsById
  requestId : site'.store.requestId = site.store.requestId
  siteMap : site'.store.siteMap = site.store.siteMap
  stored : site'.store.stored.Perm site.store.stored
  valid : site.store.Valid env → site'.store.Valid env
  accepted : site'.accepted = site.accepted
  probes : site'.probed ++ site'.store.probeQueue = site.probed ++ site.store.probeQueue

/-- A step that stores a new request under the next id, at its place. -/
structure Accepts (env : StoreEnv) (site : Site) (fresh : FreshRequest) (site' : Site) : Prop where
  mem : Heap.Frame Request.SameRecord site.mem site'.mem
  new : site'.mem.get? site.mem.next =
    some { fresh.request with id := (site.store.requestId + 1 : Nat) }
  inScope : site.store.inScope env fresh.request = true
  differs : ∀ sample ∈ site.store.siteMap fresh.request.place,
    ¬ (deref (site.mem.alloc fresh.request).2 sample).equals fresh.request
  requestsById : site'.store.requestsById =
    assign site.store.requestsById ((site.store.requestId + 1 : Nat) : Int) site.mem.next
  requestId : site'.store.requestId = site.store.requestId + 1
  siteMap : site'.store.siteMap =
    site.store.siteMap.store fresh.request.place site.mem.next
  stored : site'.store.stored.Perm (site.mem.next :: site.store.stored)
  valid : site.store.Valid env → site'.store.Valid env
  accepted : site'.accepted =
    site.accepted ++ [(((site.store.requestId + 1 : Nat) : Int), site.mem.next)]
  probes : site'.probed ++ site'.store.probeQueue =
    (site.probed ++ site.store.probeQueue) ++ [site.mem.next]

/-- The step attaches no issue to a request. -/
abbrev KeepsAttached (site site' : Site) : Prop :=
  Heap.Frame Request.SameAttached site.mem site'.mem

theorem KeepsAttached.of_mem_eq {site site' : Site} (h : site'.mem = site.mem) :
    KeepsAttached site site' := by
  intro p request hget
  exact ⟨request, by rw [h, hget], rfl⟩

/-- What one call can do. -/
inductive StepOutcome (env : StoreEnv) (site : Site) : StoreOp → Site → Prop
  | kept {op : StoreOp} {site' : Site} (hkeeps : Keeps env site site')
      (hattached : KeepsAttached site site') (hissues : site.store.SameIssues site'.store)
      (hreport : ∀ requestId issue, site.report op = some (requestId, issue) →
        ∀ req, site.store.getRequestById requestId = some req →
          site.store.issueRefused env site.mem requestId req issue) :
      StepOutcome env site op site'
  | accepted {site' : Site} (fresh : FreshRequest) (haccepts : Accepts env site fresh site')
      (hattached : KeepsAttached site site') (hissues : site.store.SameIssues site'.store) :
      StepOutcome env site (.addRequest fresh) site'
  | issued {op : StoreOp} {site' : Site} (requestId : Int) (issue : IssueDetails) (req : Nat)
      (hreport : site.report op = some (requestId, issue)) (hkeeps : Keeps env site site')
      (hreq : site.store.getRequestById requestId = some req)
      (hadmitted : ¬ site.store.issueRefused env site.mem requestId req issue)
      (hmem : site'.mem = site.mem.modify req (·.addIssue issue))
      (hissues : site.store.RecordsIssue requestId issue site'.store) :
      StepOutcome env site op site'

section
variable {env : StoreEnv} {site site' : Site}

/-- A step that changes neither the tree, the id index nor the history keeps what it
    should if it keeps the objects. -/
theorem Keeps.of_sameRequests (hmem : Heap.Frame Request.SameRecord site.mem site'.mem)
    (hstore : site.store.SameRequests site'.store) (haccepted : site'.accepted = site.accepted)
    (hprobed : site'.probed = site.probed) : Keeps env site site' where
  mem := hmem
  requestsById := hstore.requestsById
  requestId := hstore.requestId
  siteMap := by
    funext place
    simp only [DataStore.siteMap, hstore.sitePivots]
  stored := List.Perm.of_eq (by simp only [DataStore.stored, hstore.sitePivots])
  valid := fun h =>
    ⟨by simpa only [hstore.sitePivots] using h.keys_nodup,
      by simpa only [hstore.sitePivots] using h.pivots⟩
  accepted := haccepted
  probes := by rw [hprobed, hstore.probeQueue]

/-- A call that changes neither the objects nor what is known about requests and
    issues. -/
theorem StepOutcome.of_store {op : StoreOp} {store : DataStore}
    (hrequests : site.store.SameRequests store) (hissues : site.store.SameIssues store)
    (hreport : site.report op = none) : StepOutcome env site op { site with store } := by
  refine .kept (.of_sameRequests (Heap.Frame.refl Request.SameRecord.refl _) hrequests rfl rfl)
    (.of_mem_eq rfl) hissues (fun requestId issue h => ?_)
  rw [hreport] at h
  cases h

/-- A call that changes an object in a way that the datastore does not look at. -/
theorem StepOutcome.of_modify {op : StoreOp} {req : Nat} {f : Request → Request}
    (hrecord : ∀ request, site.mem.get? req = some request →
      request.SameRecord (f request) ∧ request.SameAttached (f request))
    (hreport : site.report op = none) :
    StepOutcome env site op { site with mem := site.mem.modify req f } := by
  have hframe : Heap.Frame (fun request request' => request.SameRecord request' ∧
      request.SameAttached request') site.mem (site.mem.modify req f) := by
    intro p request hget
    by_cases heq : req = p
    · subst heq
      exact ⟨f request, by simp [Heap.get?_modify, hget], hrecord request hget⟩
    · exact ⟨request, by simp [Heap.get?_modify, heq, hget], Request.SameRecord.refl _, rfl⟩
  refine .kept (.of_sameRequests (hframe.mono fun _ _ h => h.1) ⟨rfl, rfl, rfl, rfl⟩ rfl rfl)
    (hframe.mono fun _ _ h => h.2) (DataStore.SameIssues.refl _) (fun requestId issue h => ?_)
  rw [hreport] at h
  cases h

theorem report_outcome {op : StoreOp} {requestId : Int} {issue : IssueDetails}
    (hreport : site.report op = some (requestId, issue)) : StepOutcome env site op
      (site.ofIssueResult (site.store.addIssueDetails env site.mem requestId issue)) := by
  have houtcome := DataStore.addIssueDetails_outcome env site.mem site.store requestId issue
  generalize site.store.addIssueDetails env site.mem requestId issue = result at houtcome
  cases houtcome with
  | refused store' hrefused hissues hrequests =>
    refine .kept (.of_sameRequests (Heap.Frame.refl Request.SameRecord.refl _) hrequests rfl rfl)
      (.of_mem_eq rfl) hissues (fun requestId' issue' h req hreq => ?_)
    cases hreport.symm.trans h
    exact hrefused req hreq
  | stored req store' hreq hadmitted hissues hrequests =>
    have hframe : Heap.Frame Request.SameRecord site.mem
        (site.mem.modify req (·.addIssue issue)) :=
      Heap.Frame.modify Request.SameRecord.refl _ _ fun _ => ⟨rfl, rfl, rfl, rfl⟩
    exact .issued requestId issue req hreport (.of_sameRequests hframe hrequests rfl rfl) hreq
      hadmitted rfl hissues

theorem addRequest_outcome (fresh : FreshRequest) :
    StepOutcome env site (.addRequest fresh) (site.addRequest env fresh) := by
  have hnew : deref (site.mem.alloc fresh.request).2 site.mem.next = fresh.request := by
    simp [deref]
  have hmem : Heap.Frame Request.SameRecord site.mem (site.mem.alloc fresh.request).2 :=
    Heap.Frame.alloc Request.SameRecord.refl _ _
  have hattached : Heap.Frame Request.SameAttached site.mem (site.mem.alloc fresh.request).2 :=
    Heap.Frame.alloc Request.SameAttached.refl _ _
  have hsiteMap := DataStore.placed_siteMap env site.store (site.mem.alloc fresh.request).2
    site.mem.next
  have hstored := DataStore.placed_stored env site.store (site.mem.alloc fresh.request).2
    site.mem.next
  rcases DataStore.addRequest_cases env site.store (site.mem.alloc fresh.request).2
    site.mem.next with
    ⟨_, heq⟩ | ⟨_, htakes, heq⟩ | ⟨hscope, htakes, heq⟩
  · have hsite : site.addRequest env fresh =
        { site with mem := (site.mem.alloc fresh.request).2 } := by
      simp [addRequest, heq]
    rw [hsite]
    exact .kept (.of_sameRequests hmem ⟨rfl, rfl, rfl, rfl⟩ rfl rfl) hattached
      (DataStore.SameIssues.refl _) (fun _ _ h => by cases h)
  · have hsite : site.addRequest env fresh =
        { site with
          mem := (site.mem.alloc fresh.request).2
          store := site.store.placed env (site.mem.alloc fresh.request).2 site.mem.next } := by
      simp [addRequest, heq]
    rw [hsite]
    rw [htakes] at hsiteMap hstored
    exact .kept ⟨hmem, rfl, rfl, hsiteMap, hstored, DataStore.placed_valid, rfl, rfl⟩ hattached
      (.of_eq rfl rfl rfl) (fun _ _ h => by cases h)
  · have hid : ((site.store.requestId + 1 : Nat) : Int) ≠ kInvalidId := by
      simp only [kInvalidId]
      omega
    have hsite : site.addRequest env fresh =
        { site with
          mem := (site.mem.alloc fresh.request).2.modify site.mem.next
            ({ · with id := (site.store.requestId + 1 : Nat) })
          store := ((site.store.placed env (site.mem.alloc fresh.request).2
            site.mem.next).addRequestToIdMap (site.mem.alloc fresh.request).2 site.mem.next).2.2
          accepted := site.accepted ++
            [(((site.store.requestId + 1 : Nat) : Int), site.mem.next)] } := by
      simp only [addRequest, Heap.alloc_fst, heq]
      simp only [DataStore.addRequestToIdMap, DataStore.placed, ne_eq, hid, not_false_eq_true,
        if_true]
    have hfit := ((DataStore.takes_iff _ _ _ _).mp htakes).2
    rw [htakes, hnew] at hsiteMap
    rw [htakes] at hstored
    rw [hnew] at hscope hfit
    rw [hsite]
    refine .accepted fresh ⟨?_, ?_, hscope, hfit, rfl, rfl, hsiteMap, hstored,
      fun h => ⟨(DataStore.placed_valid h).keys_nodup, (DataStore.placed_valid h).pivots⟩, rfl, ?_⟩
      ?_ (.of_eq rfl rfl rfl)
    · exact Heap.Frame.alloc_modify Request.SameRecord.refl _ _ _
    · simp [Heap.get?_modify]
    · simp [DataStore.addRequestToIdMap, DataStore.addRequestToProbeQueue, DataStore.placed]
    · exact Heap.Frame.alloc_modify Request.SameAttached.refl _ _ _

/-- Every call does one of the three things. -/
theorem step_outcome {op : StoreOp} (hstep : site.step env op = some site') :
    StepOutcome env site op site' := by
  cases op with
  | addHost domainOrIp =>
    cases hstep
    exact .of_store ⟨rfl, rfl, rfl, rfl⟩ (.of_eq rfl rfl rfl) rfl
  | addBlacklistRegex urlRegex =>
    cases hstep
    unfold DataStore.addBlacklistRegex
    split
    · exact .of_store ⟨rfl, rfl, rfl, rfl⟩ (.of_eq rfl rfl rfl) rfl
    · exact .of_store ⟨rfl, rfl, rfl, rfl⟩ (.of_eq rfl rfl rfl) rfl
  | addWhitelistRegex urlRegex =>
    cases hstep
    unfold DataStore.addWhitelistRegex
    split
    · exact .of_store ⟨rfl, rfl, rfl, rfl⟩ (.of_eq rfl rfl rfl) rfl
    · exact .of_store ⟨rfl, rfl, rfl, rfl⟩ (.of_eq rfl rfl rfl) rfl
  | addRequest fresh =>
    cases hstep
    exact addRequest_outcome fresh
  | responseCb requestId data =>
    obtain ⟨req, _, rfl⟩ := Option.map_eq_some_iff.mp hstep
    exact .of_modify (fun _ _ => ⟨⟨rfl, rfl, rfl, rfl⟩, rfl⟩) rfl
  | doneCb requestId =>
    obtain ⟨req, _, hdone⟩ := Option.bind_eq_some_iff.mp hstep
    obtain ⟨⟨called, done⟩, hcalled, rfl⟩ := Option.map_eq_some_iff.mp hdone
    refine .of_modify (fun request hget => ?_) rfl
    rw [deref_of_get? hget] at hcalled
    exact Request.doneCb_keeps hcalled
  | addIssue requestId issueType severity testRequest =>
    cases hstep
    exact report_outcome rfl
  | addIssueById requestId issueType severity =>
    simp only [step, DataStore.addIssueById, Option.map_map, Option.map_eq_some_iff] at hstep
    obtain ⟨req, hreq, rfl⟩ := hstep
    exact report_outcome (by simp [report, hreq])
  | addIssueDetails requestId issue =>
    cases hstep
    exact report_outcome rfl
  | addRequestMetadata requestId type value =>
    cases hstep
    simp only [DataStore.addRequestMetadata]
    split
    · exact .of_store ⟨rfl, rfl, rfl, rfl⟩ (.of_eq rfl rfl rfl) rfl
    · exact .of_store ⟨rfl, rfl, rfl, rfl⟩ (.of_eq rfl rfl rfl) rfl
  | addResponseFingerprintToRequest requestId fingerprint =>
    cases hstep
    unfold DataStore.addResponseFingerprintToRequest
    split
    · exact .of_store ⟨rfl, rfl, rfl, rfl⟩ (.of_eq rfl rfl rfl) rfl
    · exact .of_modify (fun _ _ => ⟨⟨rfl, rfl, rfl, rfl⟩, rfl⟩) rfl
  | addFileNotFoundHtmlFingerprint fingerprint =>
    cases hstep
    exact .of_store ⟨rfl, rfl, rfl, rfl⟩ (.of_eq rfl rfl rfl) rfl
  | addRequestToCrawlQueue requestId =>
    obtain ⟨req, _, rfl⟩ := Option.map_eq_some_iff.mp hstep
    exact .of_store ⟨rfl, rfl, rfl, rfl⟩ (.of_eq rfl rfl rfl) rfl
  | addRequestToAuditQueue requestId =>
    obtain ⟨req, _, rfl⟩ := Option.map_eq_some_iff.mp hstep
    exact .of_store ⟨rfl, rfl, rfl, rfl⟩ (.of_eq rfl rfl rfl) rfl
  | getRequestFromProbeQueue =>
    cases hstep
    -- What leaves the queue enters the history of what left it.
    have hprobes : site.probed ++ site.store.probeQueue.head?.toList ++
        site.store.probeQueue.tail = site.probed ++ site.store.probeQueue := by
      cases site.store.probeQueue <;> simp
    refine .kept ⟨Heap.Frame.refl Request.SameRecord.refl _, rfl, rfl, rfl, List.Perm.refl _,
      fun h => ⟨h.keys_nodup, h.pivots⟩, rfl, hprobes⟩ (.of_mem_eq rfl) (.of_eq rfl rfl rfl)
      (fun _ _ h => by cases h)
  | getRequestFromCrawlQueue =>
    cases hstep
    exact .of_store ⟨rfl, rfl, rfl, rfl⟩ (.of_eq rfl rfl rfl) rfl
  | getRequestFromAuditQueue =>
    cases hstep
    exact .of_store ⟨rfl, rfl, rfl, rfl⟩ (.of_eq rfl rfl rfl) rfl

end

end Site

end plusfish

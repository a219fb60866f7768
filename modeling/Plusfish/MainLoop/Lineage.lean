import Plusfish.Audit.Events
import Plusfish.Crawler.Callback
import Plusfish.MainLoop.Exclusion
import Plusfish.Parsers.GumboFormFilter

open memory ordered_map transition Relation

namespace plusfish

/-- The two have one parent. -/
def Request.SameParent (request request' : Request) : Prop := request'.parentId = request.parentId

theorem Request.SameParent.refl (request : Request) : SameParent request request := rfl

theorem PageEffects.sameParent {env : StoreEnv} {newRequest : Request → Prop}
    {before after : Heap Request × DataStore} (h : PageEffects env newRequest before after) :
    Heap.Frame Request.SameParent before.1 after.1 :=
  h.lineage.mono fun _ _ hsame => hsame.parentId

/-- The request at an address has no parent. -/
structure Unparented (mem : Heap Request) (p : Nat) : Prop where
  allocated : p < mem.next
  parentId : (deref mem p).parentId = kInvalidId

theorem Unparented.of_frame {mem mem' : Heap Request} {p : Nat} (h : Unparented mem p)
    (hframe : Heap.Frame Request.SameParent mem mem') : Unparented mem' p := by
  obtain ⟨request, hget⟩ := Heap.get?_of_lt_next h.allocated
  obtain ⟨_, hget', _⟩ := hframe p request hget
  exact ⟨Heap.lt_next_of_get? hget', (Frame.deref hframe h.allocated).trans h.parentId⟩

theorem Unparented.alloc {request : Request} (hrequest : request.parentId = kInvalidId)
    (mem : Heap Request) : Unparented (mem.alloc request).2 mem.next :=
  ⟨by simp, by simpa [deref] using hrequest⟩

namespace DataStore

/-- The requests in the id index have positive ids and no parents. -/
def Unparented (mem : Heap Request) (store : DataStore) : Prop :=
  ∀ id p, store.getRequestById id = some p → 0 < id ∧ plusfish.Unparented mem p

section
variable {env : StoreEnv} {mem mem' : Heap Request} {store : DataStore}

theorem Unparented.of_frame {store' : DataStore} (h : store.Unparented mem)
    (hframe : Heap.Frame Request.SameParent mem mem')
    (hindex : store'.requestsById = store.requestsById) : store'.Unparented mem' := by
  intro id p hfind
  rw [getRequestById, hindex] at hfind
  obtain ⟨hid, hp⟩ := h id p hfind
  exact ⟨hid, hp.of_frame hframe⟩

/-- A request without a parent joins the index, under a positive id, or nothing changes. -/
theorem Unparented.addRequest (env : StoreEnv) (h : store.Unparented mem) {req : Nat}
    (hreq : plusfish.Unparented mem req) :
    (store.addRequest env mem req).2.2.Unparented (store.addRequest env mem req).2.1 ∧
      Heap.Frame Request.SameParent mem (store.addRequest env mem req).2.1 := by
  have hsame := Heap.Frame.refl Request.SameParent.refl mem
  rcases addRequest_cases env store mem req with ⟨_, heq⟩ | ⟨_, _, heq⟩ | ⟨_, _, heq⟩
  · rw [heq]
    exact ⟨h, hsame⟩
  · rw [heq]
    exact ⟨h.of_frame hsame rfl, hsame⟩
  · have hframe : Heap.Frame Request.SameParent mem
        (mem.modify req ({ · with id := (store.requestId + 1 : Nat) })) :=
      .modify Request.SameParent.refl mem req fun _ => rfl
    rw [heq]
    refine ⟨fun id p hfind => ?_, hframe⟩
    have hassign : find (assign store.requestsById ((store.requestId + 1 : Nat) : Int) req) id =
      some p := hfind
    rw [find_assign] at hassign
    split at hassign
    · rename_i hid
      cases hassign
      exact ⟨by omega, hreq.of_frame hframe⟩
    · obtain ⟨hid, hp⟩ := h id p hassign
      exact ⟨hid, hp.of_frame hframe⟩

end

end DataStore

/-- Looking at a page puts no request with a parent into the index. -/
theorem PageEffects.unparented {env : StoreEnv} {newRequest : Request → Prop}
    {before after : Heap Request × DataStore} (h : PageEffects env newRequest before after)
    (hnew : ∀ request, newRequest request → request.parentId = kInvalidId)
    (hbefore : before.2.Unparented before.1) : after.2.Unparented after.1 := by
  induction h with
  | refl => exact hbefore
  | tail _ hstep ih =>
    cases hstep with
    | add mem store request hrequest =>
      have hframe : Heap.Frame Request.SameParent mem (mem.alloc request).2 :=
        .alloc Request.SameParent.refl mem request
      exact ((ih.of_frame hframe rfl).addRequest env (.alloc (hnew request hrequest) mem)).1
    | issue mem store requestId issue =>
      obtain ⟨_, _, _, hstore⟩ := DataStore.addIssueDetails_sameButIssues env mem store requestId
        issue
      have hissue : PageEffects env newRequest (mem, store)
        (store.addIssueDetails env mem requestId issue).2 :=
          .single (.issue mem store requestId issue)
      exact ih.of_frame hissue.sameParent (by rw [hstore])
    | fingerprint mem store requestId fingerprint =>
      have hkept : PageEffects env newRequest (mem, store)
          ((store.addResponseFingerprintToRequest mem requestId fingerprint).2, store) :=
        .single (.fingerprint mem store requestId fingerprint)
      exact ih.of_frame hkept.sameParent rfl

/-- The forms of a page have no parents. -/
def ScanEnv.FormsUnparented (env : ScanEnv) : Prop :=
  ∀ p request body scraped, env.scrapeHtml p request body = some scraped →
    ∀ form ∈ scraped.requests, form.parentId = kInvalidId

theorem ScanEnv.withScraper_formsUnparented (env : ScanEnv) (scraper : HtmlScraper) :
    (env.withScraper scraper).FormsUnparented :=
  fun _ _ _ _ hscraped => HtmlScraper.parse_parentId hscraped

namespace Crawler

variable {env : ScanEnv} (hforms : env.FormsUnparented)

include hforms

theorem Discovers.parentId {mem : Heap Request} {req : Nat} {request : Request}
    (h : Discovers env mem req request) : request.parentId = kInvalidId := by
  rcases h with ⟨url, ref, rfl⟩ | ⟨scraped, hscraped, hmem⟩
  · exact Request.ofUrl_parentId env.request url _
  · obtain ⟨response, _, hpage⟩ := Option.bind_eq_some_iff.mp hscraped
    split at hpage
    · exact hforms _ _ _ scraped hpage request hmem
    · cases hpage

theorem perform_unparented (passiveAuditor : PassiveAuditor) (req : Nat)
    (state : Heap Request × DataStore) (action : CallbackAction)
    (hstate : state.2.Unparented state.1) :
    (perform env passiveAuditor req state action).2.Unparented
        (perform env passiveAuditor req state action).1 ∧
      Heap.Frame Request.SameParent state.1 (perform env passiveAuditor req state action).1 := by
  cases action with
  | passiveCheck =>
    have hcheck := PassiveAuditor.check_pageEffects env (fun _ => False) passiveAuditor state.1
      state.2 req
    exact ⟨hcheck.unparented (fun _ h => h.elim) hstate, hcheck.sameParent⟩
  | addToAuditQueue =>
    have hsame := Heap.Frame.refl Request.SameParent.refl state.1
    exact ⟨hstate.of_frame hsame rfl, hsame⟩
  | scrapeWithLinks =>
    have hscrape := scrapeRequest_pageEffects env state.1 state.2 req true true
    exact ⟨hscrape.unparented (fun _ h => h.parentId hforms) hstate, hscrape.sameParent⟩
  | truncateResponseBody =>
    have htruncate : Heap.Frame Request.SameParent state.1
        (state.1.modify req (·.truncateResponseBody)) :=
      .modify Request.SameParent.refl state.1 req fun _ => rfl
    exact ⟨hstate.of_frame htruncate rfl, htruncate⟩

/-- The callback of the crawler puts no request with a parent into the index. -/
theorem requestCallback_unparented (passiveAuditor : PassiveAuditor) {mem : Heap Request}
    {store : DataStore} (req : Nat) (hstore : store.Unparented mem) :
    (requestCallback env passiveAuditor mem store req).2.Unparented
        (requestCallback env passiveAuditor mem store req).1 ∧
      Heap.Frame Request.SameParent mem (requestCallback env passiveAuditor mem store req).1 := by
  rw [requestCallback_eq_perform]
  generalize callbackActions env mem store req = actions
  suffices h : ∀ state : Heap Request × DataStore, state.2.Unparented state.1 →
      (actions.foldl (perform env passiveAuditor req) state).2.Unparented
          (actions.foldl (perform env passiveAuditor req) state).1 ∧
        Heap.Frame Request.SameParent state.1
          (actions.foldl (perform env passiveAuditor req) state).1 from h (mem, store) hstore
  induction actions with
  | nil => exact fun state hstate => ⟨hstate, .refl Request.SameParent.refl state.1⟩
  | cons action actions ih =>
    intro state hstate
    obtain ⟨hfirst, hframe⟩ := perform_unparented hforms passiveAuditor req state action hstate
    obtain ⟨hrest, hframe'⟩ := ih _ hfirst
    exact ⟨hrest, hframe.trans (fun _ _ _ hab hbc => hbc.trans hab) hframe'⟩

end Crawler

namespace Scan

/-- Neither the datastore nor the finder keeps a request that has a parent. -/
structure Unparented (scan : Scan) : Prop where
  index : scan.store.Unparented scan.mem
  finder : ∀ entry ∈ scan.objectsFinder.requests, plusfish.Unparented scan.mem entry.2

section
variable {env : ScanEnv} {caller : ScheduleCaller → Prop} {scan scan' : Scan}

theorem Unparented.of_frame (h : scan.Unparented)
    (hframe : Heap.Frame Request.SameParent scan.mem scan'.mem)
    (hindex : scan'.store.requestsById = scan.store.requestsById)
    (hfinder : ∀ entry ∈ scan'.objectsFinder.requests, entry ∈ scan.objectsFinder.requests) :
    scan'.Unparented :=
  ⟨h.index.of_frame hframe hindex, fun entry hmem =>
    (h.finder entry (hfinder entry hmem)).of_frame hframe⟩

theorem Unparented.setStore (h : scan.Unparented) {mem : Heap Request} {store : DataStore}
    (hstore : store.Unparented mem) (hframe : Heap.Frame Request.SameParent scan.mem mem) :
    ({ scan with mem, store } : Scan).Unparented :=
  ⟨hstore, fun entry hmem => (h.finder entry hmem).of_frame hframe⟩

theorem Unparented.looksAtPages (h : scan.Unparented) {newRequest : Request → Prop}
    (hlooks : LooksAtPages env newRequest scan scan')
    (hnew : ∀ request, newRequest request → request.parentId = kInvalidId) : scan'.Unparented := by
  obtain ⟨mem, store, rfl, heffects⟩ := hlooks
  exact h.setStore (heffects.unparented hnew h.index) heffects.sameParent

theorem Scheduling.sameParent (h : Scheduling env caller scan scan') :
    Heap.Frame Request.SameParent scan.mem scan'.mem := by
  cases h with
  | alloc requests =>
    exact fun p request hget =>
      ⟨request, (Heap.get?_allocAll_of_lt requests (Heap.lt_next_of_get? hget)).trans hget, rfl⟩
  | schedule c hc req handler => exact .modify Request.SameParent.refl scan.mem req fun _ => rfl
  | _ => exact .refl Request.SameParent.refl scan.mem

theorem Schedulings.sameParent (h : Schedulings env caller scan scan') :
    Heap.Frame Request.SameParent scan.mem scan'.mem := by
  induction h with
  | refl => exact .refl Request.SameParent.refl scan.mem
  | tail _ hstep ih =>
    exact ih.trans (fun _ _ _ hab hbc => hbc.trans hab) hstep.sameParent

/-- What is done to schedule requests gives neither of them a request, unless the finder does
    it. -/
theorem Unparented.schedulings (h : scan.Unparented) (hcaller : ¬ caller .hiddenObjectsFinder)
    (hscheduled : Schedulings env caller scan scan') : scan'.Unparented :=
  h.of_frame hscheduled.sameParent (by rw [hscheduled.store]) fun entry hmem => by
    rwa [hscheduled.objectsFinder hcaller] at hmem

/-! The callbacks. -/

theorem Unparented.receive (h : scan.Unparented) (req : Nat) (transfer : Transfer) :
    (scan.receive req transfer).Unparented := by
  refine h.of_frame (.modify Request.SameParent.refl scan.mem req fun request => ?_) rfl
    fun _ hmem => hmem
  simp only [Request.SameParent, Request.withTransfer]
  split <;> split <;> rfl

theorem Unparented.setRequestMeta (h : scan.Unparented) (entry : Option (Int × Int)) :
    (scan.setRequestMeta entry).Unparented := by
  unfold Scan.setRequestMeta
  split
  · exact h
  · rename_i requestId value
    refine h.setStore (h.index.of_frame (.refl Request.SameParent.refl scan.mem) ?_)
      (.refl Request.SameParent.refl scan.mem)
    unfold DataStore.addRequestMetadata
    dsimp only
    split <;> rfl

theorem Unparented.evaluateCallback (h : scan.Unparented) (p req : Nat) :
    (scan.evaluateCallback env p req).Unparented := by
  have hreport {scan : Scan} (h : scan.Unparented) : (scan.reportIssue env p req).Unparented :=
    h.looksAtPages (reportIssue_looksAtPages env (fun _ => False) scan p req)
      fun _ hnone => hnone.elim
  rw [evaluateCallback_eq]
  split
  · exact hreport (h.setRequestMeta _)
  · exact h.setRequestMeta _

theorem Unparented.runnerCallback (hforms : env.FormsUnparented) (h : scan.Unparented)
    (p req : Nat) : (scan.runnerCallback env p req).Unparented := by
  have hcount : Schedulings env isRunner scan
      (scan.setRunner p (scan.runnerAt p).countCallback) := setRunner_schedulings scan p _
  have hevaluated : ((scan.setRunner p (scan.runnerAt p).countCallback).evaluateCallback env p
    req).Unparented := (h.schedulings id hcount).evaluateCallback p req
  unfold Scan.runnerCallback
  dsimp only
  generalize Scan.evaluateCallback env _ p req = evaluated at hevaluated
  split
  · have hscraped := hevaluated.looksAtPages (scrapeRequests_looksAtPages env evaluated p)
      fun request ⟨mem, q, hfound⟩ => hfound.parentId hforms
    have hfinished : Schedulings env isRunner (evaluated.scrapeRequests env p)
        (evaluated.finishedCheckCb env p) := finishedCheckCb_schedulings evaluated p
    exact hscraped.schedulings id hfinished
  · exact hevaluated

theorem Unparented.notFoundCallback (h : scan.Unparented) (req : Nat) :
    (scan.notFoundCallback env req).Unparented := by
  have hsame := Heap.Frame.refl Request.SameParent.refl scan.mem
  unfold Scan.notFoundCallback
  dsimp only
  split
  · exact h.of_frame hsame rfl fun _ hmem => hmem
  · refine h.of_frame hsame ?_ fun _ hmem => hmem
    dsimp only
    split <;> rfl

theorem Unparented.eraseTest (h : scan.Unparented) (url : Bytes) :
    (scan.eraseTest url).Unparented :=
  h.of_frame (.refl Request.SameParent.refl scan.mem) rfl fun _ hmem => mem_of_mem_erase hmem

theorem Unparented.recount (h : scan.Unparented) (completed found : Nat) :
    (scan.recount completed found).Unparented :=
  h.of_frame (.refl Request.SameParent.refl scan.mem) rfl fun _ hmem => hmem

theorem Unparented.addFoundObject {next : Scan} {req : Nat} (h : scan.Unparented)
    (hfound : scan.addFoundObject env req = some next) : next.Unparented := by
  obtain ⟨added, mem, store, mem', store', completed, found, hfind, hadd, hissue, rfl⟩ :=
    addFoundObject_cases hfound
  have hadded := h.index.addRequest env.store (h.finder _ (mem_of_find hfind))
  rw [hadd] at hadded
  obtain ⟨hindex, hframe⟩ := hadded
  have hreported : PageEffects env.store (fun _ => False) (mem, store) (mem', store') := by
    rcases hissue with heq | ⟨requestId, issue, heq⟩
    · rw [heq]
    · rw [heq]
      exact .single (.issue mem store requestId issue)
  have hstored := (h.setStore hindex hframe).setStore
    (hreported.unparented (fun _ hnone => hnone.elim) hindex) hreported.sameParent
  exact (hstored.eraseTest _).recount completed found

theorem Unparented.hiddenObjectCallback {next : Scan} {req : Nat} (h : scan.Unparented)
    (hcallback : scan.hiddenObjectCallback env req = some next) : next.Unparented := by
  rcases hiddenObjectCallback_cases env scan req with ⟨_, completed, heq⟩ | ⟨_, heq⟩
  · rw [heq] at hcallback
    cases hcallback
    exact (h.eraseTest _).recount completed _
  · rw [heq] at hcallback
    exact (h.recount _ _).addFoundObject hcallback

theorem Unparented.requestCallback (hforms : env.FormsUnparented) {next : Scan} {req : Nat}
    {transfer : Transfer} (h : scan.Unparented)
    (hcallback : scan.requestCallback env req transfer = some next) : next.Unparented := by
  have hreceived := h.receive req transfer
  unfold Scan.requestCallback at hcallback
  split at hcallback
  · cases hcallback
  · dsimp only at hcallback
    split at hcallback
    · cases hcallback
    · cases hcallback
      obtain ⟨hindex, hframe⟩ := Crawler.requestCallback_unparented hforms
        (scan.receive req transfer).passiveAuditor req hreceived.index
      exact hreceived.setStore hindex hframe
    · rename_i p _
      cases hcallback
      exact hreceived.runnerCallback hforms p req
    · cases hcallback
      exact hreceived.notFoundCallback req
    · exact hreceived.hiddenObjectCallback hcallback

/-! The loop body. -/

theorem Unparented.testObject (h : scan.Unparented) (testUrl : Bytes) :
    (scan.testObject env testUrl).Unparented := by
  have halloc : Heap.Frame Request.SameParent scan.mem (scan.newRequest env testUrl).2.mem :=
    .alloc Request.SameParent.refl scan.mem _
  have hnew : plusfish.Unparented (scan.newRequest env testUrl).2.mem scan.mem.next :=
    .alloc (Request.ofUrl_parentId env.request testUrl none) scan.mem
  have hschedule : Heap.Frame Request.SameParent (scan.newRequest env testUrl).2.mem
      ((scan.newRequest env testUrl).2.scheduleWith env .hiddenObjectsFinder
        (scan.newRequest env testUrl).1 .hiddenObjectsFinder).2.mem :=
    .modify Request.SameParent.refl _ _ fun _ => rfl
  have hmade : (scan.newRequest env testUrl).2.Unparented :=
    h.of_frame halloc rfl fun _ hmem => hmem
  have hscheduled : ((scan.newRequest env testUrl).2.scheduleWith env .hiddenObjectsFinder
      (scan.newRequest env testUrl).1 .hiddenObjectsFinder).2.Unparented :=
    hmade.of_frame hschedule rfl fun _ hmem => hmem
  unfold Scan.testObject
  dsimp only
  split
  · refine ⟨hscheduled.index, fun entry hmem => ?_⟩
    rcases List.mem_cons.mp ((perm_assign _ _ _).mem_iff.mp hmem) with rfl | hold
    · exact hnew.of_frame hschedule
    · exact hscheduled.finder entry (mem_of_mem_erase hold)
  · exact hscheduled

theorem Unparented.scheduleTests (amount : Nat) (h : scan.Unparented) :
    (scan.scheduleTests env amount).Unparented := by
  induction amount generalizing scan with
  | zero => exact h
  | succ amount ih =>
    rw [Scan.scheduleTests]
    split
    · exact h
    · have hpopped : scan.popTestUrl.Unparented :=
        h.of_frame (.refl Request.SameParent.refl scan.mem) rfl fun _ hmem => hmem
      exact ih (hpopped.testObject _)

theorem Unparented.offerUrl (h : scan.Unparented) (probed : Bool) (url : Bytes) :
    (scan.offerUrl env probed url).Unparented := by
  unfold Scan.offerUrl
  split
  · exact h.of_frame (.refl Request.SameParent.refl scan.mem) rfl fun _ hmem => hmem
  · exact h

theorem Unparented.iterate {next : Scan} {number : ProbeNumber} (h : scan.Unparented)
    (hiterate : scan.iterate env number = some next) : next.Unparented := by
  obtain ⟨probed, crawled, tested, hprobe, hcrawl, htest, rfl⟩ := (iterate_eq_some env).mp hiterate
  have hsame (scan : Scan) := Heap.Frame.refl Request.SameParent.refl scan.mem
  have hprobed : probed.Unparented := by
    unfold serveProbeQueue at hprobe
    split at hprobe
    · cases hprobe
      exact h
    · rename_i req rest hqueue
      dsimp only at hprobe
      obtain ⟨stored, _, rfl⟩ := Option.map_eq_some_iff.mp hprobe
      have hpopped : ({ scan with store := scan.store.getRequestFromProbeQueue.2 } :
          Scan).Unparented := h.of_frame (hsame scan) rfl fun _ hmem => hmem
      have hsearched := hpopped.schedulings (fun hc => by cases hc)
        (addProbeUrl_schedulings env _ (deref scan.mem req).url number)
      exact (hsearched.offerUrl _ _).of_frame (hsame _) rfl fun _ hmem => hmem
  have hcrawled : crawled.Unparented := by
    unfold serveCrawlQueue at hcrawl
    split at hcrawl
    · cases hcrawl
      exact hprobed
    · obtain ⟨stored, _, rfl⟩ := Option.map_eq_some_iff.mp hcrawl
      have hpopped : ({ probed with store := probed.store.getRequestFromCrawlQueue.2 } :
          Scan).Unparented := hprobed.of_frame (hsame probed) rfl fun _ hmem => hmem
      exact hpopped.schedulings (fun hc => by cases hc) (crawl_schedulings env _ stored)
  have htested : tested.Unparented := by
    unfold serveObjectsFinder at htest
    split at htest
    · cases htest
      refine Unparented.scheduleTests _ (hcrawled.of_frame (hsame crawled) rfl fun entry hmem => ?_)
      rwa [← refill_requests]
    · cases htest
  unfold serveAuditQueue
  split
  · split
    · exact htested
    · have hpopped : ({ tested with store := tested.store.getRequestFromAuditQueue.2 } :
          Scan).Unparented := htested.of_frame (hsame tested) rfl fun _ hmem => hmem
      exact hpopped.schedulings id (scheduleFirst_schedulings env _ _)
  · exact htested

theorem Unparented.addNewRequest (env : ScanEnv) (h : scan.Unparented) {request : Request}
    (hrequest : request.parentId = kInvalidId) : (scan.addNewRequest env request).Unparented := by
  have hadd : PageEffects env.store (·.parentId = kInvalidId) (scan.mem, scan.store)
      (Crawler.addNewRequest env scan.mem scan.store request) :=
    .single (.add scan.mem scan.store request hrequest)
  exact h.setStore (hadd.unparented (fun _ hnew => hnew) h.index) hadd.sameParent

theorem Unparented.addUrl (env : ScanEnv) (h : scan.Unparented) (url : Bytes) :
    (scan.addUrl env url).2.Unparented := by
  have hhost : ({ scan with
      store := scan.store.addHost (Request.ofUrl env.request url none).host } : Scan).Unparented :=
    h.of_frame (.refl Request.SameParent.refl scan.mem) rfl fun _ hmem => hmem
  unfold Scan.addUrl
  dsimp only
  split
  · exact h
  · exact hhost.addNewRequest env (Request.ofUrl_parentId env.request url none)

theorem configured_unparented (env : ScanEnv) (config : ScanConfig) :
    (configured env config).Unparented := by
  refine ⟨fun id p hfind => ?_, fun entry hmem => by cases hmem⟩
  rw [DataStore.getRequestById, (configured_index env config).1] at hfind
  cases hfind

end

end Scan

namespace MainLoop

variable {env : ScanEnv}

theorem step_unparented (hforms : env.FormsUnparented) {loop next : MainLoop} {op : ScanOp}
    (h : loop.scan.Unparented) (hstep : loop.step env op = some next) : next.scan.Unparented := by
  unfold step at hstep
  split at hstep
  · cases hstep
  · cases op with
    | addUrl url =>
      cases hstep
      exact h.addUrl env url
    | addRequest proto =>
      cases hstep
      exact h.addNewRequest env rfl
    | requestCallback req transfer =>
      obtain ⟨scan, hcallback, rfl⟩ := Option.map_eq_some_iff.mp hstep
      exact h.requestCallback hforms hcallback
    | giveUp req =>
      obtain ⟨scan, hgiveUp, rfl⟩ := Option.map_eq_some_iff.mp hstep
      unfold Scan.giveUp at hgiveUp
      split at hgiveUp
      · cases hgiveUp
      · cases hgiveUp
        exact h.of_frame (.refl Request.SameParent.refl loop.scan.mem) rfl fun _ hmem => hmem
    | iterate number keepRunning =>
      obtain ⟨scan, hiterate, rfl⟩ := Option.map_eq_some_iff.mp hstep
      exact h.iterate hiterate

end MainLoop

namespace Crawler

/-- The callback drops the page of a request: it is neither scraped for links nor queued for the
    audit. -/
def Dropped (env : ScanEnv) (mem : Heap Request) (store : DataStore) (req : Nat) : Prop :=
  .scrapeWithLinks ∉ callbackActions env mem store req ∧
    .addToAuditQueue ∉ callbackActions env mem store req

/-- The callback of a request whose parent id is that of no request goes past the prevention of
    crawler loops. -/
theorem not_dropped_of_unparented {env : ScanEnv} {mem : Heap Request} {store : DataStore}
    {req : Nat} {id : Int} {response : Response} (hstore : store.Unparented mem)
    (hreq : store.getRequestById id = some req)
    (hresponse : (deref mem req).response = some response) : ¬ Dropped env mem store req := by
  have hparent : (deref mem req).parentId = kInvalidId := (hstore id req hreq).2.parentId
  have hnone : store.getRequestById kInvalidId = none := by
    cases hfind : store.getRequestById kInvalidId with
    | none => rfl
    | some found => exact absurd (hstore kInvalidId found hfind).1 (by decide)
  have hloop : isCrawlerLoop mem store (deref mem req) response = false := by
    simp [isCrawlerLoop, sameResponse, hparent, hnone]
  rintro ⟨hnotScraped, _⟩
  apply hnotScraped
  simp [callbackActions, hresponse, hloop]

/-- The two have the same status, MIME type and body. -/
structure SamePage (one two : Response) : Prop where
  code : one.proto.code = two.proto.code
  mimeType : one.mimeType = two.mimeType
  body : one.body = two.body

/-- Three requests with the same page, the second of which was made from the page of the first,
    and the third from that of the second. All are in the datastore. -/
structure LoopChain (mem : Heap Request) (store : DataStore) (r0 r1 r2 : Nat) : Prop where
  stored : ∀ r ∈ [r0, r1, r2], ∃ id, store.getRequestById id = some r
  parent : (deref mem r2).origin = some r1
  grandparent : (deref mem r1).origin = some r0
  pages : ∃ page0 page1 page2, (deref mem r0).response = some page0 ∧
    (deref mem r1).response = some page1 ∧ (deref mem r2).response = some page2 ∧
    SamePage page0 page1 ∧ SamePage page1 page2

end Crawler

namespace MainLoop

open Crawler

/-- In no run is the last request of a chain of three equal pages dropped by its callback, which
    runs after the HTTP client has stored the response: scraping does not record parents. -/
theorem loopChain_not_dropped (env : ScanEnv) (scraper : HtmlScraper) {config : ScanConfig}
    {ops : List ScanOp} {last : MainLoop}
    (hrun : run (step (env.withScraper scraper)) (start (env.withScraper scraper) config) ops =
      some last) {r0 r1 r2 : Nat} {transfer : Transfer}
    (hchain : LoopChain (last.scan.receive r2 transfer).mem last.scan.store r0 r1 r2) :
    ¬ Dropped (env.withScraper scraper) (last.scan.receive r2 transfer).mem last.scan.store r2 := by
  have hlast : last.scan.Unparented :=
    run_preserves (P := fun loop : MainLoop => loop.scan.Unparented)
      (fun _ _ _ h => step_unparented (env.withScraper_formsUnparented scraper) h)
      (Scan.configured_unparented _ config) hrun
  obtain ⟨id, hid⟩ := hchain.stored r2 (by simp)
  obtain ⟨_, _, page2, _, _, hpage, _, _⟩ := hchain.pages
  exact not_dropped_of_unparented (hlast.receive r2 transfer).index hid hpage

/-- A scraper that parses nothing. -/
def noScraper : HtmlScraper where
  gumboParse := fun _ => none
  anchors := fun _ => []
  issues := fun _ _ => []
  fingerprint := fun _ => {}

def loopEnv : ScanEnv := siteEnv.withScraper noScraper

/-- A plain text page with a redirection. -/
def pageTo (location : String) : Response :=
  { proto :=
    { codeField := some .ok
      mimeTypeField := some .ascGeneric
      header := [{ nameField := some HTTPHeaders.kLocation, valueField := some (ascii location) }]
      responseBodyField := some (ascii "loop") } }

theorem samePage_pageTo (location location' : String) :
    SamePage (pageTo location) (pageTo location') := ⟨rfl, rfl, rfl⟩

/-- Every page of a site redirects to a new one, and two of them have been fetched. -/
def redirections : List ScanOp :=
  [.addUrl (ascii "http://site/a"), .iterate fixedNumber true,
    .requestCallback 0 { response := pageTo "http://site/b" }, .iterate fixedNumber true,
    .requestCallback 10 { response := pageTo "http://site/c" }, .iterate fixedNumber true]

/-- The transfer of the third page. -/
def thirdPage : Transfer := { response := pageTo "http://site/d" }

/-- What a chain of requests is made of, and whether the last one is scraped for links. -/
def chainView (scan : Scan) (r0 r1 r2 : Nat) :
    List (Option Nat) × List (Option Nat) × List (Option Response) × Bool :=
  ([1, 2, 3].map scan.store.getRequestById, [r2, r1].map fun r => (deref scan.mem r).origin,
    [r0, r1, r2].map fun r => (deref scan.mem r).response,
    decide (.scrapeWithLinks ∈ callbackActions loopEnv scan.mem scan.store r2))

theorem redirections_loopChain : ∃ last, run (step loopEnv) (start loopEnv {}) redirections =
    some last ∧ LoopChain (last.scan.receive 11 thirdPage).mem last.scan.store 0 10 11 ∧
      .scrapeWithLinks ∈ callbackActions loopEnv (last.scan.receive 11 thirdPage).mem
        last.scan.store 11 := by
  have hrun : (run (step loopEnv) (start loopEnv {}) redirections).map (fun last =>
      chainView (last.scan.receive 11 thirdPage) 0 10 11) =
      some ([some 0, some 10, some 11], [some 10, some 0],
        ["http://site/b", "http://site/c", "http://site/d"].map fun url => some (pageTo url),
        true) := by decide +kernel
  obtain ⟨last, hlast, hall⟩ := Option.map_eq_some_iff.mp hrun
  simp only [chainView, Prod.mk.injEq, List.map_cons, List.map_nil, List.cons.injEq, and_true,
    decide_eq_true_eq] at hall
  obtain ⟨⟨h0, h10, h11⟩, ⟨hparent, hgrandparent⟩, ⟨hpage0, hpage1, hpage2⟩, hscraped⟩ := hall
  refine ⟨last, hlast, ⟨fun r hr => ?_, hparent, hgrandparent, _, _, _, hpage0, hpage1, hpage2,
    samePage_pageTo _ _, samePage_pageTo _ _⟩, hscraped⟩
  simp only [List.mem_cons, List.not_mem_nil, or_false] at hr
  rcases hr with rfl | rfl | rfl
  · exact ⟨1, h0⟩
  · exact ⟨2, h10⟩
  · exact ⟨3, h11⟩

theorem loopChain_not_dropped_redirections : ∃ last,
    run (step loopEnv) (start loopEnv {}) redirections = some last ∧
      LoopChain (last.scan.receive 11 thirdPage).mem last.scan.store 0 10 11 ∧
      ¬ Dropped loopEnv (last.scan.receive 11 thirdPage).mem last.scan.store 11 := by
  obtain ⟨last, hrun, hchain, _⟩ := redirections_loopChain
  exact ⟨last, hrun, hchain, loopChain_not_dropped siteEnv noScraper hrun hchain⟩

/-- The third of three equal pages in a row is scraped for links. -/
theorem thirdPage_scraped : ∃ last,
    run (step loopEnv) (start loopEnv {}) redirections = some last ∧
      LoopChain (last.scan.receive 11 thirdPage).mem last.scan.store 0 10 11 ∧
      ¬ Dropped loopEnv (last.scan.receive 11 thirdPage).mem last.scan.store 11 := by
  obtain ⟨last, hrun, hchain, hscraped⟩ := redirections_loopChain
  exact ⟨last, hrun, hchain, fun hdropped => hdropped.1 hscraped⟩

end MainLoop

end plusfish

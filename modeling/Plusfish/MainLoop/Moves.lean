import Plusfish.MainLoop.Lineage
import Plusfish.MainLoop.Handlers
import Plusfish.MainLoop.Records

open memory ordered_map Relation

namespace plusfish

theorem PageEffects.records {env : StoreEnv} {newRequest newRequest' : Request → Prop}
    {before after : Heap Request × DataStore} (h : PageEffects env newRequest before after)
    (hnew : ∀ request, newRequest request → newRequest' request) :
    DataStore.Records env newRequest' before after := by
  induction h with
  | refl => exact .refl
  | tail _ hstep ih =>
    refine ih.tail ?_
    cases hstep with
    | add mem store request hrequest => exact .add mem store request (hnew request hrequest)
    | issue mem store requestId issue => exact .issue mem store requestId issue
    | fingerprint mem store requestId fingerprint =>
      unfold DataStore.addResponseFingerprintToRequest
      split
      · exact .objects store (.refl Request.SameEntry.refl mem)
          (.refl Request.SameAttached.refl mem)
      · exact .objects store (.modify Request.SameEntry.refl mem _ fun _ => ⟨rfl, rfl⟩)
          (.modify Request.SameAttached.refl mem _ fun _ => rfl)

/-- The requests that are made for the datastore: those of the command line, those for links and
    those of forms. -/
def ScanEnv.Makes (env : ScanEnv) (request : Request) : Prop :=
  (∃ url parent, request = Request.ofUrl env.request url parent) ∨
    (∃ proto, request = Request.ofProto env.request proto) ∨
    ∃ address page body scraped, env.scrapeHtml address page body = some scraped ∧
      request ∈ scraped.requests

theorem Crawler.Discovers.makes {env : ScanEnv} {mem : Heap Request} {req : Nat}
    {request : Request} (h : Discovers env mem req request) : env.Makes request := by
  rcases h with ⟨url, ref, heq⟩ | ⟨scraped, hscraped, hmem⟩
  · exact Or.inl ⟨url, _, heq⟩
  · obtain ⟨response, _, hpage⟩ := Option.bind_eq_some_iff.mp hscraped
    split at hpage
    · exact Or.inr (Or.inr ⟨_, _, _, scraped, hpage, hmem⟩)
    · cases hpage

/-- What the crawler does with a page. -/
theorem Crawler.perform_records (env : ScanEnv) (passiveAuditor : PassiveAuditor)
    (state : Heap Request × DataStore) (req : Nat) (action : CallbackAction) :
    DataStore.Records env.store env.Makes state (perform env passiveAuditor req state action) := by
  cases action with
  | passiveCheck =>
    exact (PassiveAuditor.check_pageEffects env (fun _ => False) passiveAuditor state.1 state.2
      req).records fun _ => False.elim
  | addToAuditQueue =>
    exact .single (.keep _ ⟨rfl, rfl, rfl, rfl⟩ (.of_eq rfl rfl rfl) rfl ⟨rfl, rfl, rfl⟩)
  | scrapeWithLinks =>
    exact (scrapeRequest_pageEffects env state.1 state.2 req true true).records
      fun _ => Discovers.makes
  | truncateResponseBody =>
    exact .single (.objects _ (.modify Request.SameEntry.refl _ req fun _ => ⟨rfl, rfl⟩)
      (.modify Request.SameAttached.refl _ req fun _ => rfl))

theorem Crawler.foldl_perform_records (env : ScanEnv) (passiveAuditor : PassiveAuditor)
    (state : Heap Request × DataStore) (req : Nat) (actions : List CallbackAction) :
    DataStore.Records env.store env.Makes state
      (actions.foldl (perform env passiveAuditor req) state) := by
  induction actions generalizing state with
  | nil => exact .refl
  | cons action actions ih =>
    exact ReflTransGen.trans (perform_records env passiveAuditor state req action)
      (ih (perform env passiveAuditor req state action))

theorem Crawler.requestCallback_records (env : ScanEnv) (passiveAuditor : PassiveAuditor)
    (mem : Heap Request) (store : DataStore) (req : Nat) :
    DataStore.Records env.store env.Makes (mem, store)
      (requestCallback env passiveAuditor mem store req) := by
  rw [requestCallback_eq_perform]
  exact foldl_perform_records env passiveAuditor (mem, store) req _

namespace Scan

/-- The requests that the crawler has handed to the HTTP client. -/
def crawled (scan : Scan) : List Nat :=
  (scan.calls.filter fun call => call.caller = .crawler).map (·.req)

section
variable {env : ScanEnv} {caller : ScheduleCaller → Prop} {scan next : Scan}

theorem crawled_of_calls {made : List ScheduleCall} (hcalls : next.calls = scan.calls ++ made) :
    next.crawled =
      scan.crawled ++ (made.filter fun call => call.caller = .crawler).map (·.req) := by
  rw [crawled, hcalls, List.filter_append, List.map_append, ← crawled]

theorem Schedulings.crawled (h : Schedulings env caller scan next) (hcaller : ¬ caller .crawler) :
    next.crawled = scan.crawled := by
  obtain ⟨made, hhands, hmade⟩ := h.effects.hands
  have hnone : made.filter (fun call => call.caller = .crawler) = [] := by
    refine List.filter_eq_nil_iff.mpr fun call hmem => ?_
    rw [decide_eq_true_eq]
    exact fun heq => hcaller (heq ▸ hmade call hmem)
  rw [crawled_of_calls hhands.calls, hnone, List.map_nil, List.append_nil]

/-- Callers of the HTTP client leave the datastore alone. -/
theorem Schedulings.record (h : Schedulings env caller scan next) :
    DataStore.Record env.store env.Makes (scan.mem, scan.store) (next.mem, next.store) := by
  have hframes : Heap.Frame Request.SameEntry scan.mem next.mem ∧
      Heap.Frame Request.SameAttached scan.mem next.mem := by
    induction h with
    | refl => exact ⟨.refl Request.SameEntry.refl _, .refl Request.SameAttached.refl _⟩
    | tail _ hstep ih =>
      refine ⟨ih.1.trans Request.SameEntry.trans ?_, ih.2.trans Request.SameAttached.trans ?_⟩
      · cases hstep with
        | alloc requests =>
          exact fun p request hget => ⟨request, (Heap.get?_allocAll_of_lt requests
            (Heap.lt_next_of_get? hget)).trans hget, .refl request⟩
        | schedule c hc req handler =>
          exact .modify Request.SameEntry.refl _ req fun _ => ⟨rfl, rfl⟩
        | _ => exact .refl Request.SameEntry.refl _
      · cases hstep with
        | alloc requests =>
          exact fun p request hget => ⟨request, (Heap.get?_allocAll_of_lt requests
            (Heap.lt_next_of_get? hget)).trans hget, .refl request⟩
        | schedule c hc req handler => exact .modify Request.SameAttached.refl _ req fun _ => rfl
        | _ => exact .refl Request.SameAttached.refl _
  rw [Schedulings.store h]
  exact .objects scan.store hframes.1 hframes.2

/-- One thing that happens in a scan, where no request of a queue is handed on, no check is run
    and the finder gives no request away. -/
inductive Move (env : ScanEnv) : Scan → Scan → Prop
  | site (scan : Scan) {mem : Heap Request} {store : DataStore}
      (htarget : Heap.Frame Request.SameTarget scan.mem mem)
      (hrecords : DataStore.Records env.store env.Makes (scan.mem, scan.store) (mem, store))
      (haudit : ∀ req ∈ store.auditQueue, req ∈ scan.store.auditQueue) :
      Move env scan { scan with mem, store }
  | done (scan : Scan) (req : Nat) :
      Move env scan { scan with outstanding := scan.outstanding.erase req }
  | probe (scan : Scan) (url : Bytes) :
      Move env scan ((scan.newRequest env url).2.scheduleWith env .notFoundDetector scan.mem.next
        .notFoundDetector).2
  | detector (scan : Scan) (notFoundDetector : NotFoundDetector) :
      Move env scan { scan with notFoundDetector }
  | finder (scan : Scan) (objectsFinder : HiddenObjectsFinder)
      (hkept : objectsFinder.requests.Sublist scan.objectsFinder.requests) :
      Move env scan { scan with objectsFinder }

abbrev Moves (env : ScanEnv) := ReflTransGen (Move env)

/-- A change of the datastore that concerns no request. -/
theorem Move.keep (scan : Scan) {store : DataStore} (hrequests : scan.store.SameRequests store)
    (hissues : scan.store.SameIssues store) (hcrawl : store.crawlQueue = scan.store.crawlQueue)
    (hfilters : scan.store.SameFilters store)
    (haudit : ∀ req ∈ store.auditQueue, req ∈ scan.store.auditQueue) :
    Move env scan { scan with store } :=
  .site scan (.refl Request.SameTarget.refl scan.mem)
    (.single (.keep scan.mem hrequests hissues hcrawl hfilters)) haudit

theorem LooksAtPages.moves {newRequest : Request → Prop}
    (h : LooksAtPages env newRequest scan next)
    (hnew : ∀ request, newRequest request → env.Makes request) : Moves env scan next := by
  obtain ⟨mem, store, rfl, heffects⟩ := h
  refine .single (.site scan heffects.storeEffects.frame (heffects.records hnew) fun req hmem => ?_)
  rwa [← heffects.samePlans.auditQueue]

theorem receive_moves (env : ScanEnv) (scan : Scan) (req : Nat) (transfer : Transfer) :
    Moves env scan (scan.receive req transfer) := by
  have hentry (request : Request) : Request.SameEntry request (request.withTransfer transfer) := by
    constructor
    · simp only [Request.withTransfer]
      split <;> split <;> rfl
    · simp only [Request.SameAsked, Request.asked, Request.withTransfer]
      split <;> split <;> rfl
  have htarget (request : Request) :
      Request.SameTarget request (request.withTransfer transfer) := by
    constructor
    · simp only [Request.withTransfer]
      split <;> split <;> rfl
    · simp only [Request.withTransfer]
      split <;> split <;> rfl
  have hattached (request : Request) :
      Request.SameAttached request (request.withTransfer transfer) := by
    simp only [Request.SameAttached, Request.withTransfer]
    split <;> split <;> rfl
  have hreceived : Move env scan
      { scan with mem := scan.mem.modify req (·.withTransfer transfer) } :=
    .site scan (.modify Request.SameTarget.refl scan.mem req htarget)
      (.single (.objects scan.store (.modify Request.SameEntry.refl scan.mem req hentry)
        (.modify Request.SameAttached.refl scan.mem req hattached))) fun _ hmem => hmem
  exact (ReflTransGen.single hreceived).tail (.done _ req)

theorem setRequestMeta_moves (env : ScanEnv) (scan : Scan) (entry : Option (Int × Int)) :
    Moves env scan (scan.setRequestMeta entry) := by
  unfold setRequestMeta
  split
  · exact .refl
  · rename_i requestId value
    have hmeta : (scan.store.addRequestMetadata requestId .averageApplicationTimeUsec value).2 =
        { scan.store with requestMeta := (scan.store.addRequestMetadata requestId
          .averageApplicationTimeUsec value).2.requestMeta } := by
      simp only [DataStore.addRequestMetadata]
      split <;> rfl
    rw [hmeta]
    exact .single (.keep scan ⟨rfl, rfl, rfl, rfl⟩
      (.of_eq rfl rfl rfl) rfl ⟨rfl, rfl, rfl⟩ fun _ hmem => hmem)

theorem evaluateCallback_moves (env : ScanEnv) (scan : Scan) (p req : Nat) :
    Moves env scan (scan.evaluateCallback env p req) := by
  have hreport (scan : Scan) : Moves env scan (scan.reportIssue env p req) :=
    (reportIssue_looksAtPages env (fun _ => False) scan p req).moves fun _ => False.elim
  rw [evaluateCallback_eq]
  split
  · exact (setRequestMeta_moves env scan _).trans (hreport _)
  · exact setRequestMeta_moves env scan _

theorem scrapeRequests_moves (env : ScanEnv) (scan : Scan) (p : Nat) :
    Moves env scan (scan.scrapeRequests env p) := by
  refine (scrapeRequests_looksAtPages env scan p).moves fun request hrequest => ?_
  obtain ⟨_, _, hdiscovers⟩ := hrequest
  exact hdiscovers.makes

theorem notFoundCallback_moves (env : ScanEnv) (scan : Scan) (req : Nat) :
    Moves env scan (scan.notFoundCallback env req) := by
  unfold notFoundCallback
  dsimp only
  split
  · exact .single (.detector scan _)
  · rename_i response _
    cases env.parseFingerprint response.body with
    | none => exact .single (.detector scan _)
    | some fingerprint =>
      have hlearnt : Move env scan
          { scan with store := scan.store.addFileNotFoundHtmlFingerprint fingerprint } :=
        .keep scan ⟨rfl, rfl, rfl, rfl⟩ (.of_eq rfl rfl rfl) rfl ⟨rfl, rfl, rfl⟩ fun _ hmem => hmem
      exact (ReflTransGen.single hlearnt).tail (.detector _ _)

theorem offerUrl_moves (env : ScanEnv) (scan : Scan) (probed : Bool) (url : Bytes) :
    Moves env scan (scan.offerUrl env probed url) := by
  unfold offerUrl
  split
  · exact .single (.finder scan _ (.refl _))
  · exact .refl

theorem addProbeUrl_moves (env : ScanEnv) (scan : Scan) (url : Bytes) (number : ProbeNumber) :
    Moves env scan (scan.addProbeUrl env url number).2 := by
  have hprobe (baseUrl : Bytes) (scan : Scan) (ext : Bytes) :
      Moves env scan (probe env baseUrl number scan ext) := by
    have hscheduled : Move env scan _ :=
      .probe scan (NotFoundDetector.targetUrl baseUrl number ext)
    unfold probe
    dsimp only
    split
    · exact (ReflTransGen.single hscheduled).tail (.detector _ _)
    · exact .single hscheduled
  have hfold (baseUrl : Bytes) (exts : List Bytes) (scan : Scan) :
      Moves env scan (exts.foldl (probe env baseUrl number) scan) := by
    induction exts generalizing scan with
    | nil => exact .refl
    | cons ext exts ih => exact (hprobe baseUrl scan ext).trans (ih _)
  unfold addProbeUrl
  dsimp only
  split
  · exact .refl
  · exact hfold _ _ scan

theorem addNewRequest_moves {request : Request} (hrequest : env.Makes request) (scan : Scan) :
    Moves env scan (scan.addNewRequest env request) := by
  have hadded : PageEffect env.store (fun request' => request' = request) (scan.mem, scan.store)
      (scan.store.addRequest env.store (scan.mem.alloc request).2 scan.mem.next).2 :=
    .add scan.mem scan.store request rfl
  have heffects : PageEffects env.store (fun request' => request' = request) (scan.mem, scan.store)
      (scan.store.addRequest env.store (scan.mem.alloc request).2 scan.mem.next).2 := .single hadded
  exact LooksAtPages.moves ⟨_, _, rfl, heffects⟩ fun _ heq => heq ▸ hrequest

theorem getRequestFromAuditQueue_move (env : ScanEnv) (scan : Scan) :
    Move env scan { scan with store := scan.store.getRequestFromAuditQueue.2 } :=
  .keep scan ⟨rfl, rfl, rfl, rfl⟩ (.of_eq rfl rfl rfl) rfl ⟨rfl, rfl, rfl⟩ fun _ hmem =>
    List.mem_of_mem_tail hmem

theorem eraseTest_move (env : ScanEnv) (scan : Scan) (url : Bytes) :
    Move env scan (scan.eraseTest url) :=
  .finder scan _ (erase_sublist _ url)

theorem recount_move (env : ScanEnv) (scan : Scan) (completed found : Nat) :
    Move env scan (scan.recount completed found) := .finder scan _ (.refl _)

theorem giveUp_move (env : ScanEnv) {req : Nat} (hgiveUp : scan.giveUp req = some next) :
    Move env scan next := by
  unfold giveUp at hgiveUp
  split at hgiveUp
  · cases hgiveUp
  · cases hgiveUp
    exact .done scan req

end

end Scan

end plusfish

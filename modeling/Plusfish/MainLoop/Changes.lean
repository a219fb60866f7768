import Plusfish.Audit.Attended
import Plusfish.Crawler.Callback
import Plusfish.DataStore.Exclusion
import Plusfish.HiddenObjectsFinder.Callback

open memory ordered_map Relation

namespace plusfish

/-- The handler of the requests for which somebody calls `Schedule`. -/
def ScheduleCaller.handler : ScheduleCaller → RequestHandler
  | .crawler => .crawler
  | .notFoundDetector => .notFoundDetector
  | .hiddenObjectsFinder => .hiddenObjectsFinder
  | .securityCheckRunner p _ => .securityCheckRunner p

/-- The datastore refers to a request by its id, or in one of the queues of the main loop that
    hold ids. -/
def DataStore.RefersTo (self : DataStore) (req : Nat) : Prop :=
  req ∈ self.probeQueue ∨ req ∈ self.crawlQueue ∨ ∃ id, self.getRequestById id = some req

/-- The datastore has a request under the id of this one. -/
structure DataStore.Knows (store : DataStore) (mem : Heap Request) (req : Nat) : Prop where
  allocated : req < mem.next
  stored : ∃ found, store.getRequestById (deref mem req).id = some found

/-- The two have one id. -/
def Request.SameId (request request' : Request) : Prop := request'.id = request.id

theorem Request.SameId.refl (request : Request) : SameId request request := rfl

/-- One thing that happens to the requests and the datastore. -/
inductive SiteChange (env : StoreEnv) : Heap Request × DataStore → Heap Request × DataStore → Prop
  | alloc (mem : Heap Request) (store : DataStore) (requests : List Request) :
      SiteChange env (mem, store) ((mem.allocAll requests).2, store)
  | add (mem : Heap Request) (store : DataStore) (req : Nat) (hreq : req < mem.next) :
      SiteChange env (mem, store) (store.addRequest env mem req).2
  | issue (mem : Heap Request) (store : DataStore) (requestId : Int) (issue : IssueDetails) :
      SiteChange env (mem, store) (store.addIssueDetails env mem requestId issue).2
  | modify (mem : Heap Request) (store : DataStore) (req : Nat) (f : Request → Request)
      (htarget : ∀ request, Request.SameTarget request (f request))
      (hid : ∀ request, (f request).id = request.id) :
      SiteChange env (mem, store) (mem.modify req f, store)
  | keep (mem : Heap Request) (store store' : DataStore)
      (hindex : store'.requestsById = store.requestsById)
      (hrefers : ∀ req, store'.RefersTo req → store.RefersTo req) :
      SiteChange env (mem, store) (mem, store')

abbrev SiteChanges (env : StoreEnv) := ReflTransGen (SiteChange env)

/-- A datastore with the same index and the same queues refers to the same requests. -/
theorem SiteChange.keep_of_eq {env : StoreEnv} (mem : Heap Request) {store store' : DataStore}
    (hindex : store'.requestsById = store.requestsById)
    (hprobe : store'.probeQueue = store.probeQueue)
    (hcrawl : store'.crawlQueue = store.crawlQueue) :
    SiteChange env (mem, store) (mem, store') := by
  refine .keep mem store store' hindex fun req hreq => ?_
  simpa only [DataStore.RefersTo, DataStore.getRequestById, hindex, hprobe, hcrawl] using hreq

section
variable {env : StoreEnv} {before after : Heap Request × DataStore}

/-- The requests that exist keep their URLs and their handlers. -/
theorem SiteChange.frame (h : SiteChange env before after) :
    Heap.Frame Request.SameTarget before.1 after.1 := by
  cases h with
  | alloc mem store requests =>
    exact fun p request hget => ⟨request,
      (Heap.get?_allocAll_of_lt requests (Heap.lt_next_of_get? hget)).trans hget, .refl request⟩
  | add mem store req => exact DataStore.addRequest_frame env mem store req
  | issue mem store requestId issue => exact DataStore.addIssueDetails_frame env mem store _ _
  | modify mem store req f htarget => exact .modify Request.SameTarget.refl mem req htarget
  | keep mem => exact .refl Request.SameTarget.refl mem

theorem DataStore.Knows.of_frame {mem mem' : Heap Request} {store store' : DataStore} {req : Nat}
    (h : store.Knows mem req)
    (hframe : Heap.Frame Request.SameId mem mem')
    (hindex : store'.requestsById = store.requestsById) : store'.Knows mem' req := by
  obtain ⟨found, hfound⟩ := h.stored
  refine ⟨Nat.lt_of_lt_of_le h.allocated hframe.next_le, found, ?_⟩
  have hid : (deref mem' req).id = (deref mem req).id := Frame.deref hframe h.allocated
  rw [hid, getRequestById, hindex]
  exact hfound

/-- A request that the datastore accepts is known to it, and the others are known as before. -/
theorem DataStore.addRequest_knows {mem : Heap Request} {store : DataStore} {req : Nat}
    (hreq : req < mem.next) :
    (∀ q, store.Knows mem q →
      (store.addRequest env mem req).2.2.Knows (store.addRequest env mem req).2.1 q) ∧
    ∀ q, (store.addRequest env mem req).2.2.RefersTo q → store.RefersTo q ∨
      (store.addRequest env mem req).2.2.Knows (store.addRequest env mem req).2.1 q := by
  rcases addRequest_cases env store mem req with ⟨_, heq⟩ | ⟨_, _, heq⟩ | ⟨_, _, heq⟩
  · rw [heq]
    exact ⟨fun _ => id, fun _ => Or.inl⟩
  · rw [heq]
    exact ⟨fun _ h => ⟨h.allocated, h.stored⟩, fun _ => Or.inl⟩
  · let id : Int := (store.requestId + 1 : Nat)
    let mem' := mem.modify req ({ · with id })
    have hfind (found : Int) : (store.addRequest env mem req).2.2.getRequestById found =
        if id = found then some req else store.getRequestById found := by
      rw [heq]
      exact find_assign store.requestsById id found req
    have hmem : (store.addRequest env mem req).2.1 = mem' := by rw [heq]; rfl
    have hprobe : (store.addRequest env mem req).2.2.probeQueue = store.probeQueue ++ [req] := by
      rw [heq]
      rfl
    have hcrawl : (store.addRequest env mem req).2.2.crawlQueue = store.crawlQueue := by
      rw [heq]
      rfl
    have hown : (store.addRequest env mem req).2.2.Knows mem' req := by
      obtain ⟨request, hget⟩ := Heap.get?_of_lt_next hreq
      refine ⟨by simpa [mem'] using hreq, req, ?_⟩
      rw [hfind]
      simp [mem', deref, Heap.get?_modify, hget]
    rw [hmem]
    constructor
    · intro q hq
      by_cases hqr : q = req
      · exact hqr ▸ hown
      · obtain ⟨found, hfound⟩ := hq.stored
        refine ⟨by simpa [mem'] using hq.allocated, ?_⟩
        have hsame : deref mem' q = deref mem q := by
          simp [mem', deref, Heap.get?_modify, Ne.symm hqr]
        rw [hsame, hfind]
        split
        · exact ⟨req, rfl⟩
        · exact ⟨found, hfound⟩
    · intro q hq
      by_cases hqr : q = req
      · exact Or.inr (hqr ▸ hown)
      · rcases hq with hq | hq | ⟨found, hq⟩
        · rw [hprobe] at hq
          exact Or.inl (Or.inl ((List.mem_append.mp hq).resolve_right fun hmem =>
            hqr (List.mem_singleton.mp hmem)))
        · exact Or.inl (Or.inr (Or.inl (hcrawl ▸ hq)))
        · rw [hfind] at hq
          split at hq
          · exact absurd (Option.some.inj hq).symm hqr
          · exact Or.inl (Or.inr (Or.inr ⟨found, hq⟩))

/-- The datastore goes on to know what it knows. -/
theorem SiteChange.knows (h : SiteChange env before after) {req : Nat}
    (hknows : before.2.Knows before.1 req) : after.2.Knows after.1 req := by
  cases h with
  | alloc mem store requests =>
    exact hknows.of_frame (fun p request hget => ⟨request,
      (Heap.get?_allocAll_of_lt requests (Heap.lt_next_of_get? hget)).trans hget, rfl⟩) rfl
  | add mem store added hreq => exact (DataStore.addRequest_knows hreq).1 req hknows
  | issue mem store requestId issue =>
    have hissue : PageEffect env (fun _ => True) (mem, store)
      (store.addIssueDetails env mem requestId issue).2 := .issue mem store requestId issue
    obtain ⟨_, _, _, hstore⟩ :=
      DataStore.addIssueDetails_sameButIssues env mem store requestId issue
    exact hknows.of_frame (hissue.lineage.mono fun _ _ hsame => hsame.id) (by rw [hstore])
  | modify mem store q f _ hid =>
    exact hknows.of_frame (.modify Request.SameId.refl mem q hid) rfl
  | keep mem store store' hindex => exact hknows.of_frame (.refl Request.SameId.refl mem) hindex

theorem SiteChange.refersTo (h : SiteChange env before after) {req : Nat}
    (hrefers : after.2.RefersTo req) : before.2.RefersTo req ∨ after.2.Knows after.1 req := by
  cases h with
  | add mem store added hreq => exact (DataStore.addRequest_knows hreq).2 req hrefers
  | issue mem store requestId issue =>
    obtain ⟨_, _, _, hstore⟩ :=
      DataStore.addIssueDetails_sameButIssues env mem store requestId issue
    rw [hstore] at hrefers
    exact Or.inl hrefers
  | keep mem store store' _ hkeeps => exact Or.inl (hkeeps req hrefers)
  | alloc | modify => exact Or.inl hrefers

theorem PageEffects.siteChanges {newRequest : Request → Prop}
    (h : PageEffects env newRequest before after) : SiteChanges env before after := by
  induction h with
  | refl => exact .refl
  | tail _ hstep ih =>
    apply ih.trans
    cases hstep with
    | add mem store request =>
      exact (ReflTransGen.single (.alloc mem store [request])).tail
        (.add (mem.alloc request).2 store mem.next (by simp))
    | issue mem store requestId issue => exact .single (.issue mem store requestId issue)
    | fingerprint mem store requestId fingerprint =>
      unfold DataStore.addResponseFingerprintToRequest
      split
      · exact .refl
      · exact .single (.modify mem store _ _ (fun _ => ⟨rfl, rfl⟩) fun _ => rfl)

/-- The actions of the crawler for a page. -/
theorem Crawler.requestCallback_siteChanges (env : ScanEnv) (passiveAuditor : PassiveAuditor)
    (mem : Heap Request) (store : DataStore) (req : Nat) :
    SiteChanges env.store (mem, store) (requestCallback env passiveAuditor mem store req) := by
  rw [requestCallback_eq_perform]
  generalize callbackActions env mem store req = actions
  generalize (mem, store) = state
  induction actions generalizing state with
  | nil => exact .refl
  | cons action actions ih =>
    refine ReflTransGen.trans ?_ (ih (perform env passiveAuditor req state action))
    cases action with
    | passiveCheck =>
      exact (PassiveAuditor.check_pageEffects env (fun _ => False) passiveAuditor state.1 state.2
        req).siteChanges
    | addToAuditQueue => exact .single (.keep_of_eq state.1 rfl rfl rfl)
    | scrapeWithLinks =>
      exact (scrapeRequest_pageEffects env state.1 state.2 req true true).siteChanges
    | truncateResponseBody =>
      exact .single (.modify state.1 state.2 req _ (fun _ => ⟨rfl, rfl⟩) fun _ => rfl)

end

namespace Scan

/-- One thing that happens in a scan, where no other code calls `Schedule` than these callers. -/
inductive Change (env : ScanEnv) (caller : ScheduleCaller → Prop) : Scan → Scan → Prop
  | site (scan : Scan) {mem : Heap Request} {store : DataStore}
      (h : SiteChange env.store (scan.mem, scan.store) (mem, store)) :
      Change env caller scan { scan with mem, store }
  | done (scan : Scan) (req : Nat) :
      Change env caller scan { scan with outstanding := scan.outstanding.erase req }
  | schedule (scan : Scan) (c : ScheduleCaller) (hc : caller c) (req : Nat)
      (hreq : req < scan.mem.next) :
      Change env caller scan (scan.scheduleWith env c req c.handler).2
  | auditor (scan : Scan) (hc : ∀ p serial, caller (.securityCheckRunner p serial))
      (runnerMem : Heap SecurityCheckRunner) (selectiveAuditor : SelectiveAuditor) :
      Change env caller scan { scan with runnerMem, selectiveAuditor }
  | detector (scan : Scan) (notFoundDetector : NotFoundDetector) :
      Change env caller scan { scan with notFoundDetector }
  | finder (scan : Scan) (hc : caller .hiddenObjectsFinder) (objectsFinder : HiddenObjectsFinder) :
      Change env caller scan { scan with objectsFinder }

abbrev Changes (env : ScanEnv) (caller : ScheduleCaller → Prop) :=
  ReflTransGen (Change env caller)

section
variable {env : ScanEnv} {caller : ScheduleCaller → Prop} {scan next : Scan}

theorem Changes.of_site {mem : Heap Request} {store : DataStore}
    (h : SiteChanges env.store (scan.mem, scan.store) (mem, store)) :
    Changes env caller scan { scan with mem, store } := by
  suffices hall : ∀ after, SiteChanges env.store (scan.mem, scan.store) after →
      Changes env caller scan { scan with mem := after.1, store := after.2 } from hall _ h
  intro after hafter
  induction hafter with
  | refl => exact .refl
  | tail _ hstep ih => exact ih.tail (.site _ hstep)

theorem LooksAtPages.changes {newRequest : Request → Prop}
    (h : LooksAtPages env newRequest scan next) : Changes env caller scan next := by
  obtain ⟨mem, store, rfl, heffects⟩ := h
  exact .of_site heffects.siteChanges

theorem Changes.mono {caller' : ScheduleCaller → Prop} (h : Changes env caller scan next)
    (himp : ∀ c, caller c → caller' c) : Changes env caller' scan next := by
  refine h.lift id fun _ _ hstep => ?_
  cases hstep with
  | site h => exact .site _ h
  | done req => exact .done _ req
  | schedule c hc req hreq => exact .schedule _ c (himp c hc) req hreq
  | auditor hc => exact .auditor _ (fun p serial => himp _ (hc p serial)) _ _
  | detector => exact .detector _ _
  | finder hc => exact .finder _ (himp _ hc) _

theorem receive_changes (scan : Scan) (req : Nat) (transfer : Transfer) :
    Changes env caller scan (scan.receive req transfer) := by
  refine (ReflTransGen.single (.done scan req)).tail (.site _ ?_)
  refine .modify scan.mem scan.store req (·.withTransfer transfer) (fun request => ?_)
    fun request => ?_
  · constructor <;>
    · simp only [Request.withTransfer]
      split <;> split <;> rfl
  · simp only [Request.withTransfer]
    split <;> split <;> rfl

/-- The datastore knows the requests that it refers to. -/
def Indexed (scan : Scan) : Prop := ∀ req, scan.store.RefersTo req → scan.store.Knows scan.mem req

theorem scheduleWith_knows (scan : Scan) (c : ScheduleCaller) (q : Nat) (handler : RequestHandler)
    {req : Nat} (h : scan.store.Knows scan.mem req) :
    (scan.scheduleWith env c q handler).2.store.Knows (scan.scheduleWith env c q handler).2.mem
      req :=
  h.of_frame (.modify Request.SameId.refl scan.mem q fun _ => rfl) rfl

theorem Change.knows (h : Change env caller scan next) {req : Nat}
    (hknows : scan.store.Knows scan.mem req) : next.store.Knows next.mem req := by
  cases h with
  | site hsite => exact hsite.knows hknows
  | schedule c _ q => exact scheduleWith_knows scan c q c.handler hknows
  | _ => exact hknows

theorem Changes.knows (h : Changes env caller scan next) {req : Nat}
    (hknows : scan.store.Knows scan.mem req) : next.store.Knows next.mem req := by
  induction h with
  | refl => exact hknows
  | tail _ hstep ih => exact hstep.knows ih

theorem Changes.indexed (h : Changes env caller scan next) (hindexed : scan.Indexed) :
    next.Indexed := by
  induction h with
  | refl => exact hindexed
  | tail _ hstep ih =>
    intro req hrefers
    cases hstep with
    | site hsite =>
      rcases hsite.refersTo hrefers with hrefers | hknows
      · exact hsite.knows (ih req hrefers)
      · exact hknows
    | schedule c _ q => exact scheduleWith_knows _ c q c.handler (ih req hrefers)
    | _ => exact ih req hrefers

/-- The requests that are under way, with a handler that satisfies `g`. -/
def underWay (scan : Scan) (g : Option RequestHandler → Bool) : List Nat :=
  scan.outstanding.filter fun req => g (deref scan.mem req).requestHandler

/-- A request that is handed over with another handler is not among these requests. -/
theorem scheduleWith_underWay (g : Option RequestHandler → Bool) (c : ScheduleCaller)
    {handler : RequestHandler} (hg : g (some handler) = false) {req : Nat}
    (hreq : req < scan.mem.next) :
    ((scan.scheduleWith env c req handler).2.underWay g).Sublist (scan.underWay g) := by
  have hother (q : Nat)
      (hq : g (deref (scan.scheduleWith env c req handler).2.mem q).requestHandler = true) :
      q ≠ req ∧ g (deref scan.mem q).requestHandler = true := by
    by_cases heq : q = req
    · rw [heq, deref_scheduleWith env hreq, hg] at hq
      cases hq
    · refine ⟨heq, ?_⟩
      rwa [deref, (scheduleWith_schedules env scan c req handler).requests q
        (fun hmem => heq (List.mem_singleton.mp hmem)), ← deref] at hq
  have hnew : (if env.accepts scan.calls.length then [req] else []).filter (fun q =>
      g (deref (scan.scheduleWith env c req handler).2.mem q).requestHandler) = [] := by
    refine List.filter_eq_nil_iff.mpr fun q hq hown => ?_
    split at hq
    · exact (hother q hown).1 (List.mem_singleton.mp hq)
    · cases hq
  rw [underWay, outstanding_scheduleWith, List.filter_append, hnew, List.append_nil]
  exact List.monotone_filter_right _ fun q hq => (hother q hq).2

/-- Only the callers of `Schedule` add requests that are under way, and only with their own
    handlers. -/
theorem Change.underWay (h : Change env caller scan next) (hallocated : scan.Allocated) :
    next.Allocated ∧ ∀ g : Option RequestHandler → Bool,
      (∀ c, caller c → g (some c.handler) = false) →
        (next.underWay g).Sublist (scan.underWay g) := by
  cases h with
  | @site mem store hsite =>
    have hframe := hsite.frame
    refine ⟨fun req hreq => Nat.lt_of_lt_of_le (hallocated req hreq) hframe.next_le, fun g _ => ?_⟩
    have hsame : ({ scan with mem, store } : Scan).underWay g = scan.underWay g :=
      List.filter_congr fun req hreq => by
        rw [(Frame.deref hframe (hallocated req hreq)).requestHandler]
    rw [hsame]
  | done req =>
    exact ⟨fun q hq => hallocated q (List.mem_of_mem_erase hq),
      fun g _ => List.Sublist.filter _ List.erase_sublist⟩
  | schedule c hc req hreq =>
    refine ⟨fun q hq => ?_, fun g hg => scheduleWith_underWay g c (hg c hc) hreq⟩
    rw [outstanding_scheduleWith] at hq
    rw [(scheduleWith_schedules env scan c req c.handler).next]
    rcases List.mem_append.mp hq with hq | hq
    · exact hallocated q hq
    · split at hq
      · rwa [List.mem_singleton.mp hq]
      · cases hq
  | auditor | detector | finder => exact ⟨hallocated, fun _ _ => .refl _⟩

theorem Changes.underWay (h : Changes env caller scan next) (hallocated : scan.Allocated) :
    next.Allocated ∧ ∀ g : Option RequestHandler → Bool,
      (∀ c, caller c → g (some c.handler) = false) →
        (next.underWay g).Sublist (scan.underWay g) := by
  induction h with
  | refl => exact ⟨hallocated, fun _ _ => .refl _⟩
  | tail _ hstep ih =>
    obtain ⟨hlast, hsublist⟩ := hstep.underWay ih.1
    exact ⟨hlast, fun g hg => (hsublist g hg).trans (ih.2 g hg)⟩

/-- No component changes the URL of a request. -/
theorem Changes.sameUrl (h : Changes env caller scan next) :
    Heap.Frame Request.SameUrl scan.mem next.mem := by
  induction h with
  | refl => exact .refl Request.SameUrl.refl scan.mem
  | tail _ hstep ih =>
    refine ih.trans (fun _ _ _ hab hbc => hbc.trans hab) ?_
    cases hstep with
    | site hsite => exact hsite.frame.mono fun _ _ htarget => htarget.url
    | schedule c _ req => exact .modify Request.SameUrl.refl _ req fun _ => rfl
    | _ => exact .refl Request.SameUrl.refl _

/-- What the components other than the runners leave alone. -/
theorem Changes.runners (h : Changes env caller scan next)
    (hcaller : ∀ p serial, ¬ caller (.securityCheckRunner p serial)) :
    next.runnerMem = scan.runnerMem ∧ next.selectiveAuditor = scan.selectiveAuditor := by
  induction h with
  | refl => exact ⟨rfl, rfl⟩
  | tail _ hstep ih =>
    cases hstep with
    | auditor hc => exact absurd (hc 0 true) (hcaller 0 true)
    | _ => exact ih

/-- What the components other than the finder leave alone. -/
theorem Changes.objectsFinder (h : Changes env caller scan next)
    (hcaller : ¬ caller .hiddenObjectsFinder) : next.objectsFinder = scan.objectsFinder := by
  induction h with
  | refl => rfl
  | tail _ hstep ih =>
    cases hstep with
    | finder hc => exact absurd hc hcaller
    | _ => exact ih

/-! What the components do. -/

theorem addNewRequest_changes (scan : Scan) (request : Request) :
    Changes env caller scan (scan.addNewRequest env request) := by
  have hadd : PageEffects env.store (fun _ => True) (scan.mem, scan.store)
      (Crawler.addNewRequest env scan.mem scan.store request) :=
    .single (.add scan.mem scan.store request trivial)
  exact .of_site hadd.siteChanges

theorem addUrl_changes (scan : Scan) (url : Bytes) :
    Changes env caller scan (scan.addUrl env url).2 := by
  unfold addUrl
  dsimp only
  split
  · exact .refl
  · have hhost : Change env caller scan { scan with
        store := scan.store.addHost (Request.ofUrl env.request url none).host } :=
      .site scan (.keep_of_eq scan.mem rfl rfl rfl)
    exact (ReflTransGen.single hhost).trans (addNewRequest_changes _ _)

/-- A new request is handed to the HTTP client. -/
theorem newRequest_scheduleWith_changes (scan : Scan) {c : ScheduleCaller} (hc : caller c)
    (url : Bytes) : Changes env caller scan
      ((scan.newRequest env url).2.scheduleWith env c scan.mem.next c.handler).2 := by
  have hnew : Change env caller scan (scan.newRequest env url).2 :=
    .site scan (.alloc scan.mem scan.store [Request.ofUrl env.request url none])
  exact (ReflTransGen.single hnew).tail (.schedule _ c hc scan.mem.next (by simp [newRequest]))

theorem probe_changes (hc : caller .notFoundDetector) (baseUrl : Bytes) (number : ProbeNumber)
    (scan : Scan) (ext : Bytes) :
    Changes env caller scan (probe env baseUrl number scan ext) := by
  have hscheduled : Changes env caller scan _ := newRequest_scheduleWith_changes scan hc
    (NotFoundDetector.targetUrl baseUrl number ext)
  unfold probe
  dsimp only
  split
  · exact hscheduled.tail (.detector _ _)
  · exact hscheduled

theorem addProbeUrl_changes (hc : caller .notFoundDetector) (scan : Scan) (url : Bytes)
    (number : ProbeNumber) : Changes env caller scan (scan.addProbeUrl env url number).2 := by
  have hfold (baseUrl : Bytes) (exts : List Bytes) (scan : Scan) :
      Changes env caller scan (exts.foldl (probe env baseUrl number) scan) := by
    induction exts generalizing scan with
    | nil => exact .refl
    | cons ext exts ih => exact (probe_changes hc baseUrl number scan ext).trans (ih _)
  unfold addProbeUrl
  dsimp only
  split
  · exact .refl
  · exact hfold _ _ scan

theorem notFoundCallback_changes (scan : Scan) (req : Nat) :
    Changes env caller scan (scan.notFoundCallback env req) := by
  unfold notFoundCallback
  dsimp only
  split
  · exact .single (.detector scan _)
  · rename_i response _
    cases env.parseFingerprint response.body with
    | none => exact .single (.detector scan _)
    | some fingerprint =>
      have hkeep : Change env caller scan
          { scan with store := scan.store.addFileNotFoundHtmlFingerprint fingerprint } :=
        .site scan (.keep_of_eq scan.mem rfl rfl rfl)
      exact (ReflTransGen.single hkeep).tail (.detector _ _)

theorem testObject_changes (hc : caller .hiddenObjectsFinder) (scan : Scan) (testUrl : Bytes) :
    Changes env caller scan (scan.testObject env testUrl) := by
  have hscheduled : Changes env caller scan _ := newRequest_scheduleWith_changes scan hc testUrl
  unfold testObject
  dsimp only
  split
  · exact hscheduled.tail (.finder _ hc _)
  · exact hscheduled

theorem scheduleObjectRequests_changes (hc : caller .hiddenObjectsFinder) (scan : Scan)
    (amount : Nat) : Changes env caller scan (scan.scheduleObjectRequests env amount) := by
  have htests (scan : Scan) : Changes env caller scan (scan.scheduleTests env amount) := by
    induction amount generalizing scan with
    | zero => exact .refl
    | succ amount ih =>
      rw [scheduleTests]
      split
      · exact .refl
      · exact (ReflTransGen.single (.finder scan hc _)).trans
          ((testObject_changes hc scan.popTestUrl _).trans (ih _))
  exact (ReflTransGen.single (.finder scan hc _)).trans (htests _)

theorem addFoundObject_changes (hc : caller .hiddenObjectsFinder) {req : Nat}
    (hkept : ∀ entry ∈ scan.objectsFinder.requests, entry.2 < scan.mem.next)
    (h : scan.addFoundObject env req = some next) : Changes env caller scan next := by
  obtain ⟨added, mem, store, mem', store', completed, found, hfound, hadd, hissue, rfl⟩ :=
    addFoundObject_cases h
  have hadded : SiteChanges env.store (scan.mem, scan.store) (mem, store) := by
    rw [← hadd]
    exact .single (.add scan.mem scan.store added (hkept _ (mem_of_find hfound)))
  have hreported : SiteChanges env.store (scan.mem, scan.store) (mem', store') := by
    rcases hissue with heq | ⟨requestId, issue, heq⟩
    · rwa [heq]
    · rw [heq]
      exact hadded.tail (.issue mem store requestId issue)
  exact (Changes.of_site hreported).tail (.finder _ hc _)

/-- The finder gives away requests that exist. -/
theorem hiddenObjectCallback_changes (hc : caller .hiddenObjectsFinder) {req : Nat}
    (hkept : ∀ entry ∈ scan.objectsFinder.requests, entry.2 < scan.mem.next)
    (h : scan.hiddenObjectCallback env req = some next) : Changes env caller scan next := by
  rcases hiddenObjectCallback_cases env scan req with ⟨_, completed, heq⟩ | ⟨_, heq⟩
  · rw [heq] at h
    cases h
    exact .single (.finder scan hc _)
  · rw [heq] at h
    have hcounted : Change env caller scan (scan.recount
        (scan.objectsFinder.numCompletedRequests + 1) scan.objectsFinder.numObjectsFound) :=
      .finder scan hc _
    exact (ReflTransGen.single hcounted).trans (addFoundObject_changes hc hkept h)

theorem offerUrl_changes (hc : caller .hiddenObjectsFinder) (scan : Scan) (probed : Bool)
    (url : Bytes) : Changes env caller scan (scan.offerUrl env probed url) := by
  unfold offerUrl
  split
  · exact .single (.finder scan hc _)
  · exact .refl

/-! The steps of the loop body. -/

theorem getRequestFromProbeQueue_change (scan : Scan) : Change env caller scan
    { scan with store := scan.store.getRequestFromProbeQueue.2 } := by
  refine .site scan (.keep scan.mem scan.store _ rfl fun q hq => ?_)
  exact hq.imp_left fun hmem => List.mem_of_mem_tail hmem

theorem getRequestFromCrawlQueue_change (scan : Scan) : Change env caller scan
    { scan with store := scan.store.getRequestFromCrawlQueue.2 } := by
  refine .site scan (.keep scan.mem scan.store _ rfl fun q hq => ?_)
  exact hq.imp_right fun hq => hq.imp_left fun hmem => List.mem_of_mem_tail hmem

theorem getRequestFromAuditQueue_change (scan : Scan) : Change env caller scan
    { scan with store := scan.store.getRequestFromAuditQueue.2 } :=
  .site scan (.keep_of_eq scan.mem rfl rfl rfl)

/-- The step for the probe queue: the detector is given a URL, and then the finder, and the
    request is put in the crawl queue. -/
theorem serveProbeQueue_cases {number : ProbeNumber}
    (h : scan.serveProbeQueue env number = some next) :
    next = scan ∨ ∃ middle probed url id stored,
      Changes env (· = .notFoundDetector) scan middle ∧
      (middle.offerUrl env probed url).store.getRequestById id = some stored ∧
      next = { middle.offerUrl env probed url with
        store := (middle.offerUrl env probed url).store.addRequestToCrawlQueue stored } := by
  unfold serveProbeQueue at h
  split at h
  · exact Or.inl (Option.some.inj h).symm
  · rename_i req rest hqueue
    let popped : Scan := { scan with store := scan.store.getRequestFromProbeQueue.2 }
    have hpopped : Change env (· = .notFoundDetector) scan popped :=
      getRequestFromProbeQueue_change scan
    dsimp only at h
    obtain ⟨stored, hstored, rfl⟩ := Option.map_eq_some_iff.mp h
    exact Or.inr ⟨_, _, _, _, stored, (ReflTransGen.single hpopped).trans
      (addProbeUrl_changes (by rfl) popped (deref scan.mem req).url number), hstored, rfl⟩

theorem addRequestToCrawlQueue_change (scan : Scan) {id : Int} {stored : Nat}
    (hstored : scan.store.getRequestById id = some stored) :
    Change env caller scan { scan with store := scan.store.addRequestToCrawlQueue stored } := by
  refine .site scan (.keep scan.mem scan.store _ rfl fun q hq => ?_)
  rcases hq with hq | hq | hq
  · exact Or.inl hq
  · rcases List.mem_append.mp hq with hq | hq
    · exact Or.inr (Or.inl hq)
    · rw [List.mem_singleton.mp hq]
      exact Or.inr (Or.inr ⟨id, hstored⟩)
  · exact Or.inr (Or.inr hq)

theorem serveProbeQueue_changes (hdetector : caller .notFoundDetector)
    (hfinder : caller .hiddenObjectsFinder) {number : ProbeNumber}
    (h : scan.serveProbeQueue env number = some next) : Changes env caller scan next := by
  rcases serveProbeQueue_cases h with rfl | ⟨middle, probed, url, id, stored, hfirst, hstored, rfl⟩
  · exact .refl
  · have hprobed : Changes env caller scan middle := hfirst.mono fun _ hc => hc ▸ hdetector
    exact (hprobed.trans (offerUrl_changes hfinder middle probed url)).tail
      (addRequestToCrawlQueue_change _ hstored)

theorem serveCrawlQueue_changes (hcrawler : caller .crawler) (hindexed : scan.Indexed)
    (h : scan.serveCrawlQueue env = some next) : Changes env caller scan next := by
  unfold serveCrawlQueue at h
  split at h
  · cases h
    exact .refl
  · rename_i req rest hqueue
    let popped : Scan := { scan with store := scan.store.getRequestFromCrawlQueue.2 }
    have hpopped : Change env caller scan popped := getRequestFromCrawlQueue_change scan
    obtain ⟨stored, hstored, rfl⟩ := Option.map_eq_some_iff.mp h
    have hallocated := (hindexed stored (Or.inr (Or.inr ⟨_, hstored⟩))).allocated
    exact (ReflTransGen.single hpopped).tail (.schedule popped .crawler hcrawler stored hallocated)

theorem serveObjectsFinder_changes (hfinder : caller .hiddenObjectsFinder)
    (h : scan.serveObjectsFinder env = some next) : Changes env caller scan next := by
  unfold serveObjectsFinder at h
  split at h
  · cases h
    exact scheduleObjectRequests_changes hfinder scan _
  · cases h

/-! What the runners do. -/

theorem setRunner_change (scan : Scan) (p : Nat) (runner : SecurityCheckRunner) :
    Change env isRunner scan (scan.setRunner p runner) :=
  .auditor scan (fun _ _ => trivial) _ scan.selectiveAuditor

theorem scheduleRequests_changes (p : Nat) (check : SecurityCheck) {reqs : List Nat}
    {scan : Scan} (hreqs : ∀ req ∈ reqs, req < scan.mem.next) :
    Changes env isRunner scan (scheduleRequests env p check reqs scan).2 := by
  induction reqs generalizing scan with
  | nil => exact .refl
  | cons req reqs ih =>
    let first := (scan.scheduleWith env (.securityCheckRunner p check.canEvaluateInSerial) req
      (.securityCheckRunner p)).2
    have hfirst : Changes env isRunner scan first :=
      .single (.schedule scan (.securityCheckRunner p check.canEvaluateInSerial) trivial req
        (hreqs req List.mem_cons_self))
    rw [scheduleRequests_cons]
    split
    · exact hfirst
    · refine hfirst.trans (ih fun q hq => ?_)
      rw [(scheduleWith_schedules env scan _ req _).next]
      exact hreqs q (List.mem_cons_of_mem _ hq)

theorem Fresh.run_changes {p : Nat} {nextChecks : List SecurityCheck}
    (h : scan.Fresh p nextChecks) : Changes env isRunner scan (scan.run env p).2 := by
  have hmade : Change env isRunner scan
      { scan with mem := (scan.mem.allocAll (scan.newRequests env p).2).2 } :=
    .site scan (.alloc scan.mem scan.store _)
  have hcreated : Changes env isRunner scan (scan.createRequests env p).2 :=
    (ReflTransGen.single hmade).tail (setRunner_change _ p _)
  have hrunner := createRequests_runnerAt env h.allocated
  rw [h.requests, List.nil_append] at hrunner
  rcases run_cases env scan p with heq | ⟨_, heq⟩
  · rw [heq]
    exact hcreated
  · rw [heq, hrunner]
    refine hcreated.trans (scheduleRequests_changes p _ fun req hreq => ?_)
    have hnew := ((mem_newAddresses env).mp hreq).2
    simpa [createRequests, setRunner, newRequests] using hnew

theorem Scheduled.changes {p : Nat} {nextChecks : List SecurityCheck} {last : Scan}
    {events : List AuditEvent} {done : Bool}
    (h : Scheduled env p nextChecks scan events done last) : Changes env isRunner scan last := by
  induction h with
  | @ran _ scan _ hfresh hrun | @last scan _ hfresh hrun =>
    have hchanges : Changes env isRunner scan _ := hfresh.run_changes
    rwa [hrun] at hchanges
  | @skipped _ _ scan after _ runner _ _ hfresh hrun _ _ ih =>
    have hchanges : Changes env isRunner scan _ := hfresh.run_changes
    rw [hrun] at hchanges
    exact (hchanges.tail (setRunner_change after p runner)).trans ih

theorem scheduleFirst_changes (scan : Scan) (req : Nat) :
    Changes env isRunner scan (scan.scheduleFirst env req).2 := by
  have hallocated (check : SecurityCheck) (checks : List SecurityCheck) :
      Change env isRunner scan (scan.allocRunner req check checks) :=
    .auditor scan (fun _ _ => trivial) _ scan.selectiveAuditor
  have houtcome := scheduleFirst_outcome env scan req
  generalize scan.scheduleFirstEvents env req = events at houtcome
  generalize (scan.scheduleFirst env req).2 = after at houtcome ⊢
  cases houtcome with
  | noChecks => exact .refl
  | nothing _ hscheduled => exact (ReflTransGen.single (hallocated _ _)).trans hscheduled.changes
  | started _ hscheduled =>
    exact ((ReflTransGen.single (hallocated _ _)).trans hscheduled.changes).tail
      (.auditor _ (fun _ _ => trivial) _ _)

theorem evaluateCallback_changes (scan : Scan) (p req : Nat) :
    Changes env caller scan (scan.evaluateCallback env p req) := by
  have hreport (scan : Scan) : Changes env caller scan (scan.reportIssue env p req) :=
    (reportIssue_looksAtPages env (fun _ => False) scan p req).changes
  have hmeta (scan : Scan) (entry : Option (Int × Int)) :
      Changes env caller scan (scan.setRequestMeta entry) := by
    unfold setRequestMeta
    split
    · exact .refl
    · refine .single (.site scan (.keep_of_eq scan.mem ?_ ?_ ?_))
      all_goals
        simp only [DataStore.addRequestMetadata]
        split <;> rfl
  rw [evaluateCallback_eq]
  split
  · exact (hmeta scan _).trans (hreport _)
  · exact hmeta scan _

theorem runnerCallback_changes (scan : Scan) (p req : Nat) :
    Changes env isRunner scan (scan.runnerCallback env p req) := by
  have hevaluated : Changes env isRunner scan
      ((scan.counted p).evaluateCallback env p req) :=
    (ReflTransGen.single (setRunner_change scan p _)).trans (evaluateCallback_changes _ p req)
  obtain ⟨events, houtcome, _⟩ := runnerCallback_outcome env scan p req
  generalize (scan.counted p).evaluateCallback env p req = evaluated at hevaluated houtcome
  generalize scan.runnerCallback env p req = after at houtcome ⊢
  have hscraped : Changes env isRunner scan (evaluated.scrapeRequests env p) :=
    hevaluated.trans (scrapeRequests_looksAtPages env evaluated p).changes
  have herase (after : Scan) : Change env isRunner after (after.eraseRunner p) :=
    .auditor after (fun _ _ => trivial) after.runnerMem _
  cases houtcome with
  | waiting => exact hevaluated
  | ended => exact hscraped.tail (herase _)
  | goesOn _ _ hscheduled => exact (hscraped.tail (setRunner_change _ p _)).trans hscheduled.changes
  | exhausted _ _ hscheduled =>
    exact ((hscraped.tail (setRunner_change _ p _)).trans hscheduled.changes).tail (herase _)

end

end Scan

end plusfish

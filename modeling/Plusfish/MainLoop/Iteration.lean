import Plusfish.MainLoop.Phases

open memory Relation

namespace plusfish

namespace Scan

/-- A component that schedules requests of its own making, to see what a site answers. -/
def isSearch (caller : ScheduleCaller) : Prop :=
  caller = .notFoundDetector ∨ caller = .hiddenObjectsFinder

section
variable (env : ScanEnv)

/-- The URLs that the next iteration has the detector request. -/
def nextProbes (scan : Scan) (number : ProbeNumber) : List Bytes :=
  match scan.store.probeQueue with
  | [] => []
  | req :: _ => scan.probeTargets env (deref scan.mem req).url number

/-- The finder in the next iteration, when it schedules test URLs: it may have been given
    the URL for which the detector makes requests, and it may have generated test URLs. -/
def nextFinder (scan : Scan) : HiddenObjectsFinder :=
  match scan.store.probeQueue with
  | [] => scan.objectsFinder.refill
  | req :: _ =>
    let url := (deref scan.mem req).url
    if !scan.notFoundDetector.probedUrls.contains (util.stripUrlFileSuffix url) &&
        env.hasObjectsFinder then
      (scan.objectsFinder.addUrl url).refill
    else scan.objectsFinder.refill

/-- The URLs that the next iteration has the finder request. -/
def nextTests (scan : Scan) : List Bytes :=
  ((scan.nextFinder env).testUrlsQueue.take kMaxHiddenObjectsUrlsToSchedule).map (requestUrl env)

/-- What the loop body's step for the probe queue does. -/
structure ProbeServed (scan : Scan) (number : ProbeNumber) (next : Scan) : Prop where
  effects : Effects env isSearch scan next
  calls : Calls ((scan.nextProbes env number).map (.notFoundDetector, ·)) scan next
  probeQueue : next.store.probeQueue = scan.store.probeQueue.tail
  crawlQueue : next.store.crawlQueue.length =
    scan.store.crawlQueue.length + min 1 scan.store.probeQueue.length
  auditQueue : next.store.auditQueue = scan.store.auditQueue
  objectsFinder : next.objectsFinder.refill = scan.nextFinder env
  selectiveAuditor : next.selectiveAuditor = scan.selectiveAuditor

theorem offerUrl_schedulings (scan : Scan) (probed : Bool) (url : Bytes) :
    Schedulings env (· = .hiddenObjectsFinder) scan (scan.offerUrl env probed url) := by
  unfold offerUrl
  split
  · exact .single (.finder scan (by rfl) _)
  · exact .refl

theorem offerUrl_calls (scan : Scan) (probed : Bool) (url : Bytes) :
    (scan.offerUrl env probed url).calls = scan.calls := by
  unfold offerUrl
  split <;> rfl

/-- What the requests of the detector for a URL, and the URL given to the finder, change. -/
theorem addProbeUrl_offerUrl_spec (scan : Scan) (url : Bytes) (number : ProbeNumber) :
    let result := scan.addProbeUrl env url number
    let next := result.2.offerUrl env result.1 url
    Effects env isSearch scan next ∧
      Calls ((scan.probeTargets env url number).map (.notFoundDetector, ·)) scan next ∧
      next.store = scan.store ∧ next.selectiveAuditor = scan.selectiveAuditor ∧
      next.objectsFinder = (scan.offerUrl env
        (!scan.notFoundDetector.probedUrls.contains (util.stripUrlFileSuffix url))
        url).objectsFinder := by
  have hfst := addProbeUrl_fst env scan url number
  have hschedulings := addProbeUrl_schedulings env scan url number
  obtain ⟨calls, hcalls, htargets⟩ := addProbeUrl_calls env scan url number
  generalize scan.addProbeUrl env url number = result at hfst hschedulings hcalls
  obtain ⟨probed, after⟩ := result
  dsimp only at hfst hschedulings hcalls ⊢
  have hoffered := offerUrl_schedulings env after probed url
  have hfinder : after.objectsFinder = scan.objectsFinder :=
    Schedulings.objectsFinder hschedulings (fun h => by cases h)
  refine ⟨?_, ⟨calls, ?_, htargets⟩, ?_, ?_, ?_⟩
  · exact ((Schedulings.effects hschedulings).mono fun _ hc => Or.inl hc).trans
      ((Schedulings.effects hoffered).mono fun _ hc => Or.inr hc)
  · rw [offerUrl_calls, hcalls]
  · exact (Schedulings.store hoffered).trans (Schedulings.store hschedulings)
  · rw [Schedulings.selectiveAuditor hoffered (fun hall => by cases hall 0 true),
      Schedulings.selectiveAuditor hschedulings (fun hall => by cases hall 0 true)]
  · rw [← hfst]
    unfold offerUrl
    split
    · simp only [hfinder]
    · exact hfinder

theorem serveProbeQueue_spec {scan next : Scan} {number : ProbeNumber}
    (h : scan.serveProbeQueue env number = some next) : ProbeServed env scan number next := by
  unfold serveProbeQueue at h
  split at h
  · rename_i hempty
    cases h
    refine ⟨.refl, ?_, ?_, ?_, rfl, ?_, rfl⟩
    · simp only [nextProbes, hempty]
      exact .refl scan
    · simp [hempty]
    · simp [hempty]
    · simp only [nextFinder, hempty]
  · rename_i req rest hqueue
    let popped : Scan := { scan with store := scan.store.getRequestFromProbeQueue.2 }
    have hpopped : Effects env isSearch scan popped :=
      .single (.same ⟨scan.mem, _, rfl, .single (.keep scan.mem scan.store _ rfl rfl)⟩)
    have hsearched := addProbeUrl_offerUrl_spec env popped (deref scan.mem req).url number
    dsimp only [popped] at h hsearched
    generalize offerUrl env _ _ _ = searched at h hsearched
    obtain ⟨stored, _, rfl⟩ := Option.map_eq_some_iff.mp h
    obtain ⟨heffects, ⟨calls, hcalls, htargets⟩, hstore, hauditor, hfinder⟩ := hsearched
    refine ⟨?_, ⟨calls, hcalls, ?_⟩, ?_, ?_, ?_, ?_, hauditor⟩
    · exact (hpopped.trans heffects).tail
        (.same ⟨_, _, rfl, .single (.keep _ _ _ rfl rfl)⟩)
    · rw [htargets]
      simp only [nextProbes, hqueue]
      rfl
    · simp [DataStore.addRequestToCrawlQueue, hstore, DataStore.getRequestFromProbeQueue]
    · simp [DataStore.addRequestToCrawlQueue, hstore, DataStore.getRequestFromProbeQueue, hqueue]
    · simp [DataStore.addRequestToCrawlQueue, hstore, DataStore.getRequestFromProbeQueue]
    · simp only [hfinder, nextFinder, hqueue, offerUrl]
      split <;> rfl

/-- What the step for the crawl queue does: it hands a request of the datastore to the HTTP
    client, where there is one in the queue. -/
structure Crawled (scan : Scan) (stored : Nat) (next : Scan) : Prop where
  effects : Effects env (· = .crawler) scan next
  calls : Calls [(.crawler, (deref scan.mem stored).url)] scan next
  store : next.store = { scan.store with crawlQueue := scan.store.crawlQueue.tail }
  objectsFinder : next.objectsFinder = scan.objectsFinder
  selectiveAuditor : next.selectiveAuditor = scan.selectiveAuditor

theorem serveCrawlQueue_cases {scan next : Scan} (h : scan.serveCrawlQueue env = some next) :
    (scan.store.crawlQueue = [] ∧ next = scan) ∨
    (scan.store.crawlQueue ≠ [] ∧ ∃ id stored, scan.store.getRequestById id = some stored ∧
      Crawled env scan stored next) := by
  unfold serveCrawlQueue at h
  split at h
  · rename_i hempty
    cases h
    exact Or.inl ⟨hempty, rfl⟩
  · rename_i req rest hqueue
    let popped : Scan := { scan with store := scan.store.getRequestFromCrawlQueue.2 }
    have hpopped : Effects env (· = .crawler) scan popped :=
      .single (.same ⟨scan.mem, _, rfl, .single (.keep scan.mem scan.store _ rfl rfl)⟩)
    dsimp only at h
    obtain ⟨stored, hstored, rfl⟩ := Option.map_eq_some_iff.mp h
    have hschedulings := crawl_schedulings env popped stored
    have hfinder := Schedulings.objectsFinder hschedulings (fun h => by cases h)
    have hauditor := Schedulings.selectiveAuditor hschedulings (fun hall => by cases hall 0 true)
    exact Or.inr ⟨by simp [hqueue], _, stored, hstored,
      hpopped.trans (Schedulings.effects hschedulings), crawl_calls env popped stored,
      Schedulings.store hschedulings, hfinder, hauditor⟩

/-- What the step for the hidden objects finder does. -/
structure Tested (scan next : Scan) : Prop where
  effects : Effects env (· = .hiddenObjectsFinder) scan next
  calls : Calls ((scan.objectsFinder.refill.testUrlsQueue.take
    kMaxHiddenObjectsUrlsToSchedule).map fun testUrl =>
      (.hiddenObjectsFinder, requestUrl env testUrl)) scan next
  store : next.store = scan.store
  selectiveAuditor : next.selectiveAuditor = scan.selectiveAuditor
  testUrlsQueue : next.objectsFinder.testUrlsQueue =
    scan.objectsFinder.refill.testUrlsQueue.drop kMaxHiddenObjectsUrlsToSchedule
  pendingUrls : next.objectsFinder.pendingUrls = scan.objectsFinder.refill.pendingUrls

theorem serveObjectsFinder_spec {scan next : Scan} (h : scan.serveObjectsFinder env = some next) :
    Tested env scan next := by
  unfold serveObjectsFinder at h
  split at h
  · cases h
    let refilled : Scan := { scan with objectsFinder := scan.objectsFinder.refill }
    have hrefilled : Schedulings env (· = .hiddenObjectsFinder) scan refilled :=
      .single (.finder scan (by rfl) _)
    obtain ⟨hschedulings, hcalls, htests, hpending⟩ :=
      scheduleTests_spec env kMaxHiddenObjectsUrlsToSchedule refilled
    have hall := hrefilled.trans hschedulings
    have hauditor := Schedulings.selectiveAuditor hall (fun hall => by cases hall 0 true)
    exact ⟨Schedulings.effects hall, hcalls, Schedulings.store hall, hauditor, htests, hpending⟩
  · cases h

/-- What the step for the audit queue does. -/
structure Audited (scan next : Scan) : Prop where
  effects : Effects env isRunner scan next
  store : next.store = { scan.store with
    auditQueue :=
      if env.hasAuditors && scan.hasFreeRunner env then scan.store.auditQueue.tail
      else scan.store.auditQueue }
  objectsFinder : next.objectsFinder = scan.objectsFinder

theorem serveAuditQueue_spec (scan : Scan) : Audited env scan (scan.serveAuditQueue env) := by
  unfold serveAuditQueue
  split
  · rename_i hfree
    split
    · rename_i hempty
      refine ⟨.refl, ?_, rfl⟩
      rw [if_pos hfree, hempty, List.tail_nil, ← hempty]
    · rename_i req rest hqueue
      let popped : Scan := { scan with store := scan.store.getRequestFromAuditQueue.2 }
      have hpopped : Effects env isRunner scan popped :=
        .single (.same ⟨scan.mem, _, rfl, .single (.keep scan.mem scan.store _ rfl rfl)⟩)
      have hschedulings := scheduleFirst_schedulings env popped req
      have hfinder := Schedulings.objectsFinder hschedulings id
      refine ⟨hpopped.trans (Schedulings.effects hschedulings), ?_, ?_⟩
      · rw [if_pos hfree]
        exact Schedulings.store hschedulings
      · exact hfinder
  · rename_i hfull
    refine ⟨.refl, ?_, rfl⟩
    rw [if_neg hfull]

theorem iterate_eq_some {scan next : Scan} {number : ProbeNumber} :
    scan.iterate env number = some next ↔
      ∃ probed crawled tested, scan.serveProbeQueue env number = some probed ∧
        probed.serveCrawlQueue env = some crawled ∧
        crawled.serveObjectsFinder env = some tested ∧ tested.serveAuditQueue env = next := by
  simp only [iterate, Option.bind_eq_some_iff, Option.map_eq_some_iff]
  constructor
  · rintro ⟨probed, hprobed, crawled, hcrawled, tested, htested, hnext⟩
    exact ⟨probed, crawled, tested, hprobed, hcrawled, htested, hnext⟩
  · rintro ⟨probed, crawled, tested, hprobed, hcrawled, htested, hnext⟩
    exact ⟨probed, hprobed, crawled, hcrawled, tested, htested, hnext⟩

end

end Scan

end plusfish

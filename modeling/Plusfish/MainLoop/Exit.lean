import Plusfish.Audit.Runners
import Plusfish.MainLoop.Iteration

open memory transition

namespace plusfish

namespace Scan

section
variable (env : ScanEnv)

/-- Nothing is left to be done but what the HTTP client is doing. -/
structure Drained (scan : Scan) : Prop where
  probeQueue : scan.store.probeQueue = []
  crawlQueue : scan.store.crawlQueue = []
  auditQueue : env.hasAuditors = true → scan.store.auditQueue = []
  pendingUrls : scan.objectsFinder.pendingUrls = []
  testUrlsQueue : scan.objectsFinder.testUrlsQueue = []

/-- The next iteration audits a request for which a check makes a request. -/
def Audits (scan : Scan) : Prop :=
  (env.hasAuditors && scan.hasFreeRunner env) = true ∧
    ∃ req ∈ scan.store.auditQueue.head?, req < scan.mem.next ∧
      firstTests env scan.selectiveAuditor.checks scan req ≠ []

/-- The next iteration has a request for the HTTP client. -/
def HasWork (scan : Scan) : Prop :=
  scan.store.probeQueue ≠ [] ∨ scan.store.crawlQueue ≠ [] ∨
    (scan.nextFinder env).testUrlsQueue ≠ [] ∨ scan.Audits env

/-- The next iteration takes all that is queued. -/
structure LastRound (scan : Scan) : Prop where
  crawls : scan.store.probeQueue.length + scan.store.crawlQueue.length ≤ 1
  audits : env.hasAuditors = true →
    scan.store.auditQueue.length ≤ if scan.hasFreeRunner env then 1 else 0
  pendingUrls : (scan.nextFinder env).pendingUrls = []
  tests : (scan.nextFinder env).testUrlsQueue.length ≤ kMaxHiddenObjectsUrlsToSchedule

/-- The HTTP client holds a request, or it is enabled and gets one in the next iteration, or
    there is nothing to come back for. -/
def Continues (scan : Scan) : Prop :=
  scan.outstanding ≠ [] ∨ (env.accepts scan.calls.length = true ∧ scan.HasWork env) ∨
    scan.LastRound env

instance (scan : Scan) : Decidable (scan.HasWork env) :=
  inferInstanceAs (Decidable (_ ∨ _ ∨ _ ∨ _ ∧ ∃ req ∈ scan.store.auditQueue.head?, _))

instance (scan : Scan) : Decidable (scan.LastRound env) :=
  decidable_of_iff (scan.store.probeQueue.length + scan.store.crawlQueue.length ≤ 1 ∧
    (env.hasAuditors = true →
      scan.store.auditQueue.length ≤ if scan.hasFreeRunner env then 1 else 0) ∧
    (scan.nextFinder env).pendingUrls = [] ∧
    (scan.nextFinder env).testUrlsQueue.length ≤ kMaxHiddenObjectsUrlsToSchedule)
    ⟨fun ⟨hcrawls, haudits, hpending, htests⟩ => ⟨hcrawls, haudits, hpending, htests⟩,
      fun hlast => ⟨hlast.crawls, hlast.audits, hlast.pendingUrls, hlast.tests⟩⟩

instance (scan : Scan) : Decidable (scan.Continues env) := inferInstanceAs (Decidable (_ ∨ _ ∨ _))

variable {env}

/-- The step for the crawl queue, in terms of what the main loop looks at. -/
theorem serveCrawlQueue_spec {scan next : Scan} (h : scan.serveCrawlQueue env = some next) :
    next.store = { scan.store with crawlQueue := scan.store.crawlQueue.tail } ∧
      next.objectsFinder = scan.objectsFinder ∧ next.selectiveAuditor = scan.selectiveAuditor ∧
      Effects env (· = .crawler) scan next := by
  rcases serveCrawlQueue_cases env h with ⟨hempty, rfl⟩ | ⟨_, _, stored, _, hcrawled⟩
  · refine ⟨?_, rfl, rfl, .refl⟩
    rw [hempty, List.tail_nil, ← hempty]
  · exact ⟨hcrawled.store, hcrawled.objectsFinder, hcrawled.selectiveAuditor, hcrawled.effects⟩

/-- What an iteration leaves in the queues. -/
structure QueuesServed (env : ScanEnv) (scan next : Scan) : Prop where
  probeQueue : next.store.probeQueue = scan.store.probeQueue.tail
  crawlQueue : next.store.crawlQueue.length =
    scan.store.crawlQueue.length + min 1 scan.store.probeQueue.length - 1
  auditQueue : next.store.auditQueue =
    if env.hasAuditors && scan.hasFreeRunner env then scan.store.auditQueue.tail
    else scan.store.auditQueue
  pendingUrls : next.objectsFinder.pendingUrls = (scan.nextFinder env).pendingUrls
  testUrlsQueue : next.objectsFinder.testUrlsQueue =
    (scan.nextFinder env).testUrlsQueue.drop kMaxHiddenObjectsUrlsToSchedule

theorem iterate_queues {scan next : Scan} {number : ProbeNumber}
    (h : scan.iterate env number = some next) : QueuesServed env scan next := by
  obtain ⟨probed, crawled, tested, hprobe, hcrawl, htest, rfl⟩ := (iterate_eq_some env).mp h
  have hprobed := serveProbeQueue_spec env hprobe
  obtain ⟨hstore, hfinder, hauditor, _⟩ := serveCrawlQueue_spec hcrawl
  have htested := serveObjectsFinder_spec env htest
  have haudited := serveAuditQueue_spec env tested
  have hfree : tested.hasFreeRunner env = scan.hasFreeRunner env := by
    simp only [hasFreeRunner, htested.selectiveAuditor, hauditor, hprobed.selectiveAuditor]
  have hrefill : crawled.objectsFinder.refill = scan.nextFinder env := by
    rw [hfinder, hprobed.objectsFinder]
  refine ⟨?_, ?_, ?_, ?_, ?_⟩
  · simp only [haudited.store, htested.store, hstore, hprobed.probeQueue]
  · simp only [haudited.store, htested.store, hstore, List.length_tail, hprobed.crawlQueue]
  · simp only [haudited.store, htested.store, hstore, hfree, hprobed.auditQueue]
  · rw [haudited.objectsFinder, htested.pendingUrls, hrefill]
  · rw [haudited.objectsFinder, htested.testUrlsQueue, hrefill]

theorem QueuesServed.lastRound {scan next : Scan} (h : QueuesServed env scan next)
    (hdrained : next.Drained env) : scan.LastRound env := by
  have hprobe := congrArg List.length h.probeQueue
  have hcrawl := h.crawlQueue
  have haudit := h.auditQueue
  have htests := h.testUrlsQueue
  rw [hdrained.probeQueue, List.length_nil, List.length_tail] at hprobe
  rw [hdrained.crawlQueue, List.length_nil] at hcrawl
  rw [hdrained.testUrlsQueue] at htests
  refine ⟨by omega, fun hauditors => ?_, ?_, List.drop_eq_nil_iff.mp htests.symm⟩
  · rw [hdrained.auditQueue hauditors, hauditors, Bool.true_and] at haudit
    have hlength := congrArg List.length haudit
    cases hfree : scan.hasFreeRunner env with
    | true =>
      simp only [hfree, if_true, List.length_nil, List.length_tail] at hlength ⊢
      omega
    | false =>
      simp only [hfree, Bool.false_eq_true, if_false, List.length_nil] at hlength ⊢
      omega
  · rw [← h.pendingUrls, hdrained.pendingUrls]

theorem QueuesServed.drained {scan next : Scan} (h : QueuesServed env scan next)
    (hlast : scan.LastRound env) : next.Drained env := by
  have hcrawls := hlast.crawls
  refine ⟨?_, ?_, fun hauditors => ?_, ?_, ?_⟩
  · apply List.eq_nil_of_length_eq_zero
    rw [h.probeQueue, List.length_tail]
    omega
  · apply List.eq_nil_of_length_eq_zero
    rw [h.crawlQueue]
    omega
  · have hlength := hlast.audits hauditors
    apply List.eq_nil_of_length_eq_zero
    rw [h.auditQueue, hauditors, Bool.true_and]
    split at hlength
    · rename_i hfree
      rw [if_pos hfree, List.length_tail]
      omega
    · rename_i hbusy
      rw [if_neg hbusy]
      omega
  · rw [h.pendingUrls, hlast.pendingUrls]
  · rw [h.testUrlsQueue]
    exact List.drop_eq_nil_iff.mpr hlast.tests

/-- An iteration drains the queues exactly where it takes all that is queued. -/
theorem iterate_drained_iff {scan next : Scan} {number : ProbeNumber}
    (h : scan.iterate env number = some next) : next.Drained env ↔ scan.LastRound env :=
  ⟨(iterate_queues h).lastRound, (iterate_queues h).drained⟩

theorem iterate_effects {scan next : Scan} {number : ProbeNumber}
    (h : scan.iterate env number = some next) : Effects env (fun _ => True) scan next := by
  obtain ⟨probed, crawled, tested, hprobe, hcrawl, htest, rfl⟩ := (iterate_eq_some env).mp h
  obtain ⟨_, _, _, hcrawled⟩ := serveCrawlQueue_spec hcrawl
  have hprobed := (serveProbeQueue_spec env hprobe).effects.mono fun _ _ => trivial
  have htested := (serveObjectsFinder_spec env htest).effects.mono fun _ _ => trivial
  have haudited := (serveAuditQueue_spec env tested).effects.mono fun _ _ => trivial
  exact hprobed.trans ((hcrawled.mono fun _ _ => trivial).trans (htested.trans haudited))

theorem Effects.calls_length_le {caller : ScheduleCaller → Prop} {scan next : Scan}
    (h : Effects env caller scan next) : scan.calls.length ≤ next.calls.length := by
  obtain ⟨made, hhands, _⟩ := h.hands
  rw [hhands.calls, List.length_append]
  exact Nat.le_add_right _ _

theorem Calls.length {targets : List (ScheduleCaller × Bytes)} {scan next : Scan}
    (h : Calls targets scan next) : next.calls.length = scan.calls.length + targets.length := by
  obtain ⟨made, hmade, rfl⟩ := h
  rw [hmade, List.length_append, List.length_map]

/-- Where the first three steps of an iteration have nothing to do, they do nothing but
    refill the test URLs of the finder. -/
theorem steps_of_idle {scan probed crawled tested : Scan} {number : ProbeNumber}
    (hprobes : scan.store.probeQueue = []) (hcrawls : scan.store.crawlQueue = [])
    (htests : (scan.nextFinder env).testUrlsQueue = [])
    (hprobe : scan.serveProbeQueue env number = some probed)
    (hcrawl : probed.serveCrawlQueue env = some crawled)
    (htest : crawled.serveObjectsFinder env = some tested) :
    tested = { scan with objectsFinder := scan.nextFinder env } := by
  have hfinder : scan.nextFinder env = scan.objectsFinder.refill := by
    simp only [nextFinder, hprobes]
  rw [hfinder] at htests ⊢
  simp only [serveProbeQueue, hprobes, Option.some.injEq] at hprobe
  subst hprobe
  simp only [serveCrawlQueue, hcrawls, Option.some.injEq] at hcrawl
  subst hcrawl
  unfold serveObjectsFinder scheduleObjectRequests at htest
  split at htest
  · cases htest
    simp only [kMaxHiddenObjectsUrlsToSchedule, scheduleTests, htests]
  · cases htest

/-- The step for the audit queue calls `Schedule` where it audits a request for which a
    check makes a request. -/
theorem serveAuditQueue_calls (scan : Scan)
    (hallocated : ∀ req ∈ scan.store.auditQueue.head?, req < scan.mem.next) :
    scan.calls.length < (scan.serveAuditQueue env).calls.length ↔ scan.Audits env := by
  unfold serveAuditQueue Audits
  split
  · rename_i hfree
    cases hqueue : scan.store.auditQueue with
    | nil => simp
    | cons req rest =>
      have hreq : req < scan.mem.next := hallocated req (by simp [hqueue])
      let popped : Scan := { scan with store := scan.store.getRequestFromAuditQueue.2 }
      have hpopped : req < popped.mem.next := hreq
      have hcalls := scheduleFirst_calls env hpopped
      have htests : firstTests env popped.selectiveAuditor.checks popped req =
          firstTests env scan.selectiveAuditor.checks scan req := rfl
      rw [htests] at hcalls
      apply hcalls.trans
      simp [hfree, hreq]
  · rename_i hbusy
    simp [hbusy]

/-- An iteration that has a request for the HTTP client calls `Schedule`. -/
theorem iterate_calls_of_hasWork {scan next : Scan} {number : ProbeNumber}
    (h : scan.iterate env number = some next) (hwork : scan.HasWork env) :
    scan.calls.length < next.calls.length := by
  obtain ⟨probed, crawled, tested, hprobe, hcrawl, htest, rfl⟩ := (iterate_eq_some env).mp h
  have hprobed := serveProbeQueue_spec env hprobe
  obtain ⟨_, hfinder, _, hcrawled⟩ := serveCrawlQueue_spec hcrawl
  have htested := serveObjectsFinder_spec env htest
  have haudited := serveAuditQueue_spec env tested
  have hfirst := hprobed.effects.calls_length_le
  have hsecond := hcrawled.calls_length_le
  have hthird := htested.effects.calls_length_le
  have hlast := haudited.effects.calls_length_le
  by_cases hcrawls : probed.store.crawlQueue = []
  · have hlength := hprobed.crawlQueue
    rw [hcrawls, List.length_nil] at hlength
    have hnoCrawl : scan.store.crawlQueue = [] := List.eq_nil_of_length_eq_zero (by omega)
    have hnoProbe : scan.store.probeQueue = [] := List.eq_nil_of_length_eq_zero (by omega)
    by_cases htests : (scan.nextFinder env).testUrlsQueue = []
    · have haudits : scan.Audits env := by
        rcases hwork with hne | hne | hne | haudits
        · exact absurd hnoProbe hne
        · exact absurd hnoCrawl hne
        · exact absurd htests hne
        · exact haudits
      obtain ⟨hfree, req, hhead, hreq, hmakes⟩ := haudits
      have hidle := steps_of_idle hnoProbe hnoCrawl htests hprobe hcrawl htest
      rw [hidle]
      refine (serveAuditQueue_calls { scan with objectsFinder := scan.nextFinder env }
        fun req' hhead' => ?_).mpr ⟨hfree, req, hhead, hreq, hmakes⟩
      obtain rfl : req = req' := Option.some.inj (hhead.symm.trans hhead')
      exact hreq
    · have hcalls := htested.calls.length
      rw [hfinder, hprobed.objectsFinder, List.length_map, List.length_take] at hcalls
      have hpos := List.length_pos_of_ne_nil htests
      have hmin : 0 < min kMaxHiddenObjectsUrlsToSchedule
          (scan.nextFinder env).testUrlsQueue.length := by
        rw [Nat.lt_min]
        exact ⟨by decide, hpos⟩
      omega
  · rcases serveCrawlQueue_cases env hcrawl with ⟨hempty, _⟩ | ⟨_, _, stored, _, hcrawl⟩
    · exact absurd hempty hcrawls
    · have hcalls := hcrawl.calls.length
      rw [List.length_singleton] at hcalls
      omega

/-- An iteration without a request for the HTTP client does not call `Schedule`. -/
theorem hasWork_of_iterate_calls {scan next : Scan} {number : ProbeNumber}
    (h : scan.iterate env number = some next)
    (hallocated : ∀ req ∈ scan.store.auditQueue.head?, req < scan.mem.next)
    (hcalls : scan.calls.length < next.calls.length) : scan.HasWork env := by
  by_contra hidle
  obtain ⟨hprobes, hcrawls, htests, haudits⟩ : scan.store.probeQueue = [] ∧
      scan.store.crawlQueue = [] ∧ (scan.nextFinder env).testUrlsQueue = [] ∧
      ¬ scan.Audits env := by simpa [HasWork] using hidle
  obtain ⟨probed, crawled, tested, hprobe, hcrawl, htest, rfl⟩ := (iterate_eq_some env).mp h
  rw [steps_of_idle hprobes hcrawls htests hprobe hcrawl htest] at hcalls
  exact haudits ((serveAuditQueue_calls { scan with objectsFinder := scan.nextFinder env }
    hallocated).mp hcalls)

/-- A client that is enabled takes the first request it is given. -/
theorem outstanding_ne_nil_of_calls {caller : ScheduleCaller → Prop} {scan next : Scan}
    (h : Effects env caller scan next) (hcalls : scan.calls.length < next.calls.length)
    (haccepts : env.accepts scan.calls.length = true) : next.outstanding ≠ [] := by
  obtain ⟨made, hhands, _⟩ := h.hands
  rw [hhands.calls, List.length_append] at hcalls
  cases made with
  | nil => exact absurd hcalls (by simp)
  | cons call made =>
    have haccepted : call.accepted = true := by
      rw [hhands.answers 0 call rfl, Nat.add_zero, haccepts]
    simp [hhands.outstanding, haccepted]

/-- The loop leaves nothing behind where the condition holds. -/
theorem drained_of_continues {scan next : Scan} {number : ProbeNumber}
    (h : scan.iterate env number = some next) (hok : scan.Continues env)
    (hidle : next.outstanding = []) : next.Drained env := by
  have heffects := iterate_effects h
  rcases hok with hholds | ⟨haccepts, hwork⟩ | hlast
  · obtain ⟨made, hhands, _⟩ := heffects.hands
    rw [hhands.outstanding] at hidle
    exact absurd (List.append_eq_nil_iff.mp hidle).1 hholds
  · have hcalls := iterate_calls_of_hasWork h hwork
    exact absurd hidle (outstanding_ne_nil_of_calls heffects hcalls haccepts)
  · exact (iterate_drained_iff h).mpr hlast

/-- A client that has refused a request refuses all later ones. -/
def StaysDisabled (env : ScanEnv) : Prop :=
  ∀ m n, m ≤ n → env.accepts n = true → env.accepts m = true

/-- Where the client stays disabled once it has been, the condition is exact. -/
theorem drained_iff_continues {scan next : Scan} {number : ProbeNumber}
    (h : scan.iterate env number = some next) (hstays : StaysDisabled env)
    (hallocated : ∀ req ∈ scan.store.auditQueue.head?, req < scan.mem.next) :
    (next.outstanding = [] → next.Drained env) ↔ scan.Continues env := by
  refine ⟨fun hdrained => ?_, fun hok => drained_of_continues h hok⟩
  by_contra hstops
  obtain ⟨hholds, hrefuses, hleaves⟩ := by simpa only [Continues, not_or] using hstops
  obtain ⟨made, hhands, _⟩ := (iterate_effects h).hands
  have hidle : next.outstanding = [] := by
    rw [hhands.outstanding, not_not.mp hholds, List.nil_append, List.map_eq_nil_iff,
      List.filter_eq_nil_iff]
    intro call hcall haccepted
    obtain ⟨i, hi⟩ := List.mem_iff_getElem?.mp hcall
    rw [hhands.answers i call hi] at haccepted
    have haccepts := hstays _ _ (Nat.le_add_right _ i) haccepted
    refine hrefuses ⟨haccepts, hasWork_of_iterate_calls h hallocated ?_⟩
    rw [hhands.calls, List.length_append]
    exact Nat.lt_add_of_pos_right (List.length_pos_of_mem hcall)
  exact hleaves ((iterate_drained_iff h).mp (hdrained hidle))

end

end Scan

namespace MainLoop

def start (env : ScanEnv) (config : ScanConfig) : MainLoop := { scan := Scan.configured env config }

/-- Where `KeepRunningOrShutdown` answers true after an iteration, there is more to do for
    the HTTP client, or there is nothing left to do. -/
def Continues (env : ScanEnv) (loop : MainLoop) : ScanOp → Prop
  | .iterate _ true => loop.scan.Continues env
  | _ => True

instance (env : ScanEnv) (loop : MainLoop) (op : ScanOp) : Decidable (loop.Continues env op) :=
  match op with
  | .iterate _ true => inferInstanceAs (Decidable (loop.scan.Continues env))
  | .iterate _ false | .addUrl _ | .addRequest _ | .requestCallback _ _ | .giveUp _ =>
    .isTrue trivial

/-- What one event does to the loop: it goes on, or it is left after an iteration. -/
theorem step_cases {env : ScanEnv} {loop next : MainLoop} {op : ScanOp}
    (hstep : loop.step env op = some next) :
    next.exit = none ∨ ∃ number keepRunning, op = .iterate number keepRunning ∧
      next.exit = some keepRunning ∧ loop.scan.iterate env number = some next.scan ∧
      (keepRunning = true → next.scan.outstanding = []) := by
  unfold step at hstep
  split at hstep
  · cases hstep
  · rename_i hexit
    have hnone : loop.exit = none := by simpa using hexit
    cases op with
    | addUrl url =>
      cases hstep
      exact Or.inl hnone
    | addRequest proto =>
      cases hstep
      exact Or.inl hnone
    | requestCallback req transfer =>
      obtain ⟨scan, _, rfl⟩ := Option.map_eq_some_iff.mp hstep
      exact Or.inl hnone
    | giveUp req =>
      obtain ⟨scan, _, rfl⟩ := Option.map_eq_some_iff.mp hstep
      exact Or.inl hnone
    | iterate number keepRunning =>
      obtain ⟨scan, hiterate, rfl⟩ := Option.map_eq_some_iff.mp hstep
      dsimp only
      split
      · exact Or.inl rfl
      · rename_i hleft
        refine Or.inr ⟨number, keepRunning, rfl, rfl, hiterate, fun hkeep => ?_⟩
        simpa [hkeep] using hleft

/-- In every run in which each iteration after which the scanner is to keep running meets
    the condition, the loop is left with nothing in any of the queues. -/
theorem exit_drained_of_run {env : ScanEnv} {config : ScanConfig} {ops : List ScanOp}
    {last : MainLoop} (hok : Along (step env) (Continues env) (start env config) ops)
    (hrun : run (step env) (start env config) ops = some last) (hexit : last.exit = some true) :
    last.scan.Drained env := by
  refine run_preserves_along (P := fun loop : MainLoop => loop.exit = some true →
    loop.scan.Drained env) (fun loop op next _ hcontinues hstep hexit => ?_) ?_ hok hrun hexit
  · rcases step_cases hstep with hnone | ⟨number, keepRunning, rfl, hleft, hiterate, hidle⟩
    · rw [hnone] at hexit
      cases hexit
    · obtain rfl : keepRunning = true := Option.some.inj (hleft.symm.trans hexit)
      exact Scan.drained_of_continues hiterate hcontinues (hidle rfl)
  · intro hexit
    cases hexit

/-- An environment in which every text is a URL of one host, with the path that the text
    gives. -/
def paths (host : Bytes) : RequestEnv :=
  { RequestEnv.single host with
    gurl := fun url =>
      { isValid := true
        host
        effectiveIntPort := 80
        schemeIsSecure := false
        path := ascii "/" ++ ((url.drop 7).dropWhile (· ≠ 47)).tail
        hasQuery := false
        query := [] } }

def siteEnv : ScanEnv := { Scan.plainEnv true with request := paths (ascii "site") }

def fixedNumber : ProbeNumber := ⟨42, by decide, by decide⟩

/-- A configuration with a response time check alone. -/
def timed (measurements : Int) : ScanConfig := { checks := [.responseTime ⟨measurements, 8000⟩] }

/-- A page is scanned, all of whose requests but those for missing files are answered. -/
def onePage : List ScanOp :=
  [.addUrl (ascii "http://site/a"), .iterate fixedNumber true] ++ (List.range' 1 9).map .giveUp ++
    [.requestCallback 0 {}, .iterate fixedNumber true, .requestCallback 10 {},
      .iterate fixedNumber true]

theorem exit_drained_of_run_onePage : ∃ last,
    run (step siteEnv) (start siteEnv (timed 1)) onePage = some last ∧ last.exit = some true ∧
      last.scan.Drained siteEnv := by
  have hok : Along (step siteEnv) (Continues siteEnv) (start siteEnv (timed 1)) onePage := by
    decide +kernel
  have hleft : (run (step siteEnv) (start siteEnv (timed 1)) onePage).map (·.exit) =
      some (some true) := by decide +kernel
  obtain ⟨last, hrun, hexit⟩ := Option.map_eq_some_iff.mp hleft
  exact ⟨last, hrun, hexit, exit_drained_of_run hok hrun hexit⟩

/-- Two pages of a directory are scanned, with a check that makes no request. -/
def twoPages : List ScanOp :=
  [.addUrl (ascii "http://site/a"), .addUrl (ascii "http://site/b"), .iterate fixedNumber true,
    .iterate fixedNumber true] ++ (List.range' 2 9).map .giveUp ++
    [.requestCallback 0 {}, .requestCallback 1 {}, .iterate fixedNumber true]

/-- The loop is left although the second page waits for its audit. -/
theorem twoPages_exit_not_drained : ∃ last,
    run (step siteEnv) (start siteEnv (timed 0)) twoPages = some last ∧ last.exit = some true ∧
      ¬ last.scan.Drained siteEnv := by
  have hleft : (run (step siteEnv) (start siteEnv (timed 0)) twoPages).map
      (fun last => (last.exit, last.scan.store.auditQueue)) = some (some true, [1]) := by
    decide +kernel
  obtain ⟨last, hrun, hlast⟩ := Option.map_eq_some_iff.mp hleft
  obtain ⟨hexit, haudit⟩ := Prod.ext_iff.mp hlast
  refine ⟨last, hrun, hexit, fun hdrained => ?_⟩
  have hempty := hdrained.auditQueue rfl
  simp_all

end MainLoop

end plusfish

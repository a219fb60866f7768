import Plusfish.MainLoop.Abandonment

open memory transition Relation

namespace plusfish

namespace Scan

/-- The component to which a request goes back when it completes is there. A runner is there as
    long as the auditor holds it. -/
def Holds (env : ScanEnv) (scan : Scan) : RequestHandler → Prop
  | .crawler | .notFoundDetector => True
  | .hiddenObjectsFinder => env.hasObjectsFinder = true
  | .securityCheckRunner p => env.hasAuditors = true ∧ p ∈ scan.selectiveAuditor.runners

/-- What the scanner uses is there. The loop body and the callbacks have no result where they
    would use a null pointer: the finder, the request that `GetRequestById` looks up for one
    from a queue or for an id from `AddRequest`, or a request that is given to the datastore. -/
structure Present (env : ScanEnv) (scan : Scan) : Prop where
  iterates : ∀ number, scan.iterate env number ≠ none
  queued : ∀ req, req ∈ scan.store.probeQueue ∨ req ∈ scan.store.crawlQueue →
    ∃ found, scan.store.getRequestById (deref scan.mem req).id = some found
  handler : ∀ req ∈ scan.outstanding, ∃ handler,
    (deref scan.mem req).requestHandler = some handler ∧ scan.Holds env handler
  completes : ∀ req ∈ scan.outstanding, ∀ transfer, scan.requestCallback env req transfer ≠ none

/-- The tests that the finder schedules in the next iteration are spelled apart. -/
def TestsApart (env : ScanEnv) (scan : Scan) (number : ProbeNumber) : Prop :=
  let crawled := (scan.serveProbeQueue env number).bind fun scan => scan.serveCrawlQueue env
  ∀ scan ∈ crawled, SpelledApart env scan (scan.acceptedTests env kMaxHiddenObjectsUrlsToSchedule)

instance (env : ScanEnv) (scan : Scan) (number : ProbeNumber) :
    Decidable (scan.TestsApart env number) :=
  inferInstanceAs (Decidable (∀ scan ∈ Option.bind _ _, SpelledApart env scan _))

section
variable {env : ScanEnv} {scan next : Scan}

/-- The request in front of the probe queue is found under its id after the probes. -/
theorem serveProbeQueue_ne_none (h : scan.Indexed) (number : ProbeNumber) :
    scan.serveProbeQueue env number ≠ none := by
  unfold serveProbeQueue
  split
  · exact Option.some_ne_none _
  · rename_i req rest hqueue
    have hknown : scan.store.Knows scan.mem req := h req (Or.inl (hqueue ▸ List.mem_cons_self))
    have hchanges (popped : Scan) (hpopped : Change env NotRunner scan popped) (probed : Bool)
        (url : Bytes) : Changes env NotRunner scan
          ((popped.addProbeUrl env url number).2.offerUrl env probed url) :=
      ((ReflTransGen.single hpopped).trans (addProbeUrl_changes id popped url number)).trans
        (offerUrl_changes id _ probed url)
    obtain ⟨found, hfound⟩ := ((hchanges _ (getRequestFromProbeQueue_change scan) _ _).knows
      hknown).stored
    dsimp only
    rw [hfound]
    exact Option.some_ne_none _

/-- The request in front of the crawl queue is found under its id. -/
theorem serveCrawlQueue_ne_none (h : scan.Indexed) : scan.serveCrawlQueue env ≠ none := by
  unfold serveCrawlQueue
  split
  · exact Option.some_ne_none _
  · rename_i req rest hqueue
    have hknown : scan.store.Knows scan.mem req :=
      h req (Or.inr (Or.inl (hqueue ▸ List.mem_cons_self)))
    have hpopped : Change env NotRunner scan _ := getRequestFromCrawlQueue_change scan
    obtain ⟨found, hfound⟩ := (hpopped.knows hknown).stored
    dsimp only at hfound ⊢
    rw [hfound]
    exact Option.some_ne_none _

theorem serveObjectsFinder_ne_none_iff :
    scan.serveObjectsFinder env ≠ none ↔ env.hasObjectsFinder = true := by
  unfold serveObjectsFinder
  split
  · rename_i hfinder
    exact iff_of_true (Option.some_ne_none _) hfinder
  · rename_i hfinder
    exact iff_of_false (fun h => h rfl) hfinder

/-- The loop body uses a null pointer exactly where there is no finder. -/
theorem iterate_ne_none_iff (h : scan.InOrder) (number : ProbeNumber) :
    scan.iterate env number ≠ none ↔ env.hasObjectsFinder = true := by
  have hprobes : scan.serveProbeQueue env number ≠ none := serveProbeQueue_ne_none h.indexed number
  obtain ⟨probed, hprobe⟩ := Option.ne_none_iff_exists'.mp hprobes
  have hprobed := (serveProbeQueue_inOrder h hprobe).1
  have hcrawls : probed.serveCrawlQueue env ≠ none := serveCrawlQueue_ne_none hprobed.indexed
  obtain ⟨crawled, hcrawl⟩ := Option.ne_none_iff_exists'.mp hcrawls
  rw [iterate, hprobe, Option.bind_some, hcrawl, Option.bind_some, ne_eq, Option.map_eq_none_iff]
  exact serveObjectsFinder_ne_none_iff

/-- What keeps everything in place that the scanner uses. -/
structure Sound (env : ScanEnv) (scan : Scan) : Prop where
  inOrder : scan.InOrder
  attended : scan.Attended
  bookkept : scan.Bookkept
  handled : scan.underWay Option.isNone = []
  auditors : env.hasAuditors = false → scan.selectiveAuditor.runners = []
  finder : env.hasObjectsFinder = false → scan.outstanding = []

/-- In a sound scan nothing is missing, provided that there is a finder. -/
theorem Sound.present_iff (h : scan.Sound env) :
    scan.Present env ↔ env.hasObjectsFinder = true := by
  have hsome : ∀ req ∈ scan.outstanding, ∃ handler,
      (deref scan.mem req).requestHandler = some handler := by
    intro req hreq
    cases hhandler : (deref scan.mem req).requestHandler with
    | some handler => exact ⟨handler, rfl⟩
    | none =>
      have hmem : req ∈ scan.underWay Option.isNone :=
        List.mem_filter.mpr ⟨hreq, by simp [hhandler]⟩
      rw [h.handled] at hmem
      cases hmem
  refine ⟨fun hpresent => (iterate_ne_none_iff h.inOrder MainLoop.fixedNumber).mp
    (hpresent.iterates MainLoop.fixedNumber), fun hfinder => ⟨fun number =>
      (iterate_ne_none_iff h.inOrder number).mpr hfinder, fun req hreq => ?_, fun req hreq => ?_,
    fun req hreq transfer => ?_⟩⟩
  · exact (h.inOrder.indexed req (hreq.imp_right Or.inl)).stored
  · obtain ⟨handler, hhandler⟩ := hsome req hreq
    refine ⟨handler, hhandler, ?_⟩
    cases handler with
    | crawler | notFoundDetector => trivial
    | hiddenObjectsFinder => exact hfinder
    | securityCheckRunner p =>
      have hheld := h.attended.held p (List.ne_nil_of_mem (mem_pending.mpr ⟨hreq, hhandler⟩))
      refine ⟨?_, hheld⟩
      by_contra hnone
      rw [h.auditors (by simpa using hnone)] at hheld
      cases hheld
  · obtain ⟨handler, hhandler⟩ := hsome req hreq
    unfold requestCallback
    rw [if_neg (not_not.mpr hreq)]
    dsimp only
    rw [receive_requestHandler, hhandler]
    cases handler with
    | crawler | notFoundDetector | securityCheckRunner => exact Option.some_ne_none _
    | hiddenObjectsFinder =>
      have htest : req ∈ scan.testRequests := List.mem_filter.mpr ⟨hreq, by simp [hhandler]⟩
      obtain ⟨next, hnext, _⟩ := h.bookkept.completes env h.inOrder.tidy htest (some transfer)
      rw [finderStep, if_neg (not_not.mpr htest)] at hnext
      exact Option.ne_none_iff_exists'.mpr ⟨next, hnext⟩

theorem configured_sound (env : ScanEnv) (config : ScanConfig) :
    (configured env config).Sound env :=
  ⟨configured_inOrder env config, (configured_attended env config).1,
    fun _ hreq => absurd hreq List.not_mem_nil, rfl, fun _ => rfl, fun _ => rfl⟩

/-- An iteration keeps the books of the finder where its tests are spelled apart. -/
theorem search_bookkept {number : ProbeNumber} (h : scan.InOrder) (hbooks : scan.Bookkept)
    (hapart : scan.TestsApart env number) (hsearch : scan.search env number = some next) :
    next.Bookkept := by
  obtain ⟨probed, crawled, hprobe, hcrawl, htest⟩ := search_eq_some.mp hsearch
  obtain ⟨hprobed, hkept⟩ := serveProbeQueue_inOrder h hprobe
  obtain ⟨hcrawled, hkept'⟩ := serveCrawlQueue_inOrder hprobed hcrawl
  exact (finderStep_bookkept hcrawled.tidy (hkept' (hkept hbooks))
    (serveObjectsFinder_eq htest)).mpr (hapart crawled (by simp [hprobe, hcrawl]))

end

end Scan

namespace MainLoop

/-- The tests that the finder schedules in an event are spelled apart. -/
def TestsApart (env : ScanEnv) (loop : MainLoop) : ScanOp → Prop
  | .iterate number _ => loop.scan.TestsApart env number
  | _ => True

/-- No check is abandoned, and the tests of the finder are spelled apart. -/
structure Careful (env : ScanEnv) (loop : MainLoop) (op : ScanOp) : Prop where
  noneAbandoned : loop.NoneAbandoned env op
  testsApart : loop.TestsApart env op

instance (env : ScanEnv) (loop : MainLoop) (op : ScanOp) : Decidable (loop.TestsApart env op) :=
  match op with
  | .iterate number _ => inferInstanceAs (Decidable (loop.scan.TestsApart env number))
  | .addUrl _ | .addRequest _ | .requestCallback _ _ | .giveUp _ => .isTrue trivial

instance (env : ScanEnv) (loop : MainLoop) (op : ScanOp) : Decidable (loop.Careful env op) :=
  decidable_of_iff (loop.NoneAbandoned env op ∧ loop.TestsApart env op)
    ⟨fun ⟨hnone, hapart⟩ => ⟨hnone, hapart⟩, fun h => ⟨h.noneAbandoned, h.testsApart⟩⟩

section
variable {env : ScanEnv} {loop next : MainLoop} {op : ScanOp}

/-- Whatever happens, requests that are under way are requests with a handler. -/
theorem step_changes (h : loop.scan.InOrder) (hstep : loop.step env op = some next) :
    Scan.Changes env (fun _ => True) loop.scan next.scan := by
  rcases step_scan hstep with
    ⟨_, hchanges⟩ | ⟨req, transfer, _, hcallback⟩ | ⟨number, _, _, hiterate⟩
  · exact hchanges.mono fun _ _ => trivial
  · rcases (Scan.requestCallback_outcome h hcallback).2 with ⟨p, _, heq⟩ | ⟨_, hcalled⟩
    · rw [heq]
      exact (Scan.receive_changes loop.scan req transfer).trans
        ((Scan.runnerCallback_changes _ p req).mono fun _ _ => trivial)
    · exact hcalled.changes.mono fun _ _ => trivial
  · rw [Scan.iterate_eq_search] at hiterate
    obtain ⟨tested, hsearch, heq⟩ := Option.map_eq_some_iff.mp hiterate
    rw [← heq]
    exact ((Scan.search_inOrder h hsearch).2.mono fun _ _ => trivial).trans
      ((Scan.serveAuditQueue_changes tested).mono fun _ _ => trivial)

theorem step_bookkept (h : loop.scan.InOrder) (hbooks : loop.scan.Bookkept)
    (hapart : loop.TestsApart env op) (hstep : loop.step env op = some next) :
    next.scan.Bookkept := by
  rcases step_scan hstep with
    ⟨_, hchanges⟩ | ⟨req, transfer, _, hcallback⟩ | ⟨number, _, rfl, hiterate⟩
  · exact (hchanges.tidy id h.tidy).2 hbooks
  · rcases (Scan.requestCallback_outcome h hcallback).2 with ⟨p, _, heq⟩ | ⟨_, hcalled⟩
    · rw [heq]
      exact (Scan.runnerCallback_inOrder h req transfer p).2 hbooks
    · exact hcalled.bookkept hbooks
  · rw [Scan.iterate_eq_search] at hiterate
    obtain ⟨tested, hsearch, heq⟩ := Option.map_eq_some_iff.mp hiterate
    rw [← heq]
    exact (Scan.serveAuditQueue_inOrder (Scan.search_inOrder h hsearch).1).2
      (Scan.search_bookkept h hbooks hapart hsearch)

/-- Without auditors there are no runners. -/
theorem step_runners (h : loop.scan.InOrder) (hattended : loop.scan.Attended)
    (hnone : env.hasAuditors = false) (hrunners : loop.scan.selectiveAuditor.runners = [])
    (hstep : loop.step env op = some next) : next.scan.selectiveAuditor.runners = [] := by
  rcases step_scan hstep with
    ⟨_, hchanges⟩ | ⟨req, transfer, _, hcallback⟩ | ⟨number, _, _, hiterate⟩
  · rw [(hchanges.runners fun _ _ => id).2]
    exact hrunners
  · obtain ⟨hout, ⟨p, hhandler, _⟩ | ⟨_, hcalled⟩⟩ := Scan.requestCallback_outcome h hcallback
    · have hheld := hattended.held p
        (List.ne_nil_of_mem (Scan.mem_pending.mpr ⟨hout, hhandler⟩))
      rw [hrunners] at hheld
      cases hheld
    · rw [(hcalled.changes.runners Scan.not_notRunner).2]
      exact hrunners
  · rw [Scan.iterate_eq_search] at hiterate
    obtain ⟨tested, hsearch, heq⟩ := Option.map_eq_some_iff.mp hiterate
    rw [← heq, Scan.serveAuditQueue, hnone, Bool.false_and, if_neg Bool.false_ne_true,
      ((Scan.search_inOrder h hsearch).2.runners Scan.not_notRunner).2]
    exact hrunners

/-- Without a finder no iteration comes to its end, and no request is ever scheduled. -/
theorem step_outstanding (h : loop.scan.InOrder) (hnone : env.hasObjectsFinder = false)
    (hout : loop.scan.outstanding = []) (hstep : loop.step env op = some next) :
    next.scan.outstanding = [] := by
  rcases step_scan hstep with
    ⟨_, hchanges⟩ | ⟨req, transfer, _, hcallback⟩ | ⟨number, _, _, hiterate⟩
  · have hsublist : (next.scan.underWay fun _ => true).Sublist (loop.scan.underWay fun _ => true) :=
      (hchanges.underWay h.tidy.allocated).2 (fun _ => true) fun _ hc => hc.elim
    simp only [Scan.underWay, List.filter_true, hout] at hsublist
    exact List.sublist_nil.mp hsublist
  · have hmem := (Scan.requestCallback_outcome h hcallback).1
    rw [hout] at hmem
    cases hmem
  · have hfinder := (Scan.iterate_ne_none_iff h number).mp
      (Option.ne_none_iff_exists'.mpr ⟨_, hiterate⟩)
    rw [hnone] at hfinder
    cases hfinder

theorem step_sound (h : loop.scan.Sound env) (hcareful : loop.Careful env op)
    (hstep : loop.step env op = some next) : next.scan.Sound env := by
  have hleaves := (leavesNothing_iff h.inOrder h.attended).mpr hcareful.noneAbandoned
  refine ⟨step_inOrder h.inOrder hstep, (step_attended h.inOrder h.attended hleaves hstep).1,
    step_bookkept h.inOrder h.bookkept hcareful.testsApart hstep, ?_,
    fun hnone => step_runners h.inOrder h.attended hnone (h.auditors hnone) hstep,
    fun hnone => step_outstanding h.inOrder hnone (h.finder hnone) hstep⟩
  have hsublist := ((step_changes h.inOrder hstep).underWay h.inOrder.tidy.allocated).2
    Option.isNone fun _ _ => rfl
  rw [h.handled] at hsublist
  exact List.sublist_nil.mp hsublist

/-- In every state that a careful run reaches, nothing is missing exactly if there is a
    finder. -/
theorem present_iff_hasObjectsFinder {config : ScanConfig} {ops : List ScanOp} {last : MainLoop}
    (hok : Along (step env) (Careful env) (start env config) ops)
    (hrun : run (step env) (start env config) ops = some last) :
    last.scan.Present env ↔ env.hasObjectsFinder = true := by
  have hsound : last.scan.Sound env := run_preserves_along (P := fun loop : MainLoop =>
    loop.scan.Sound env) (fun _ _ _ h hcareful hstep => step_sound h hcareful hstep)
    (Scan.configured_sound env config) hok hrun
  exact hsound.present_iff

end

/-- A configuration with a response time check, and a word to look for. -/
def searched (word : String) : ScanConfig :=
  { timed 1 with wordlist := [(ascii word, false)] }

/-- A page is scanned, and a page is found for the word. -/
def pageFound : List ScanOp :=
  [.addUrl (ascii "http://site/a"), .iterate fixedNumber true] ++ (List.range' 1 9).map .giveUp ++
    [.requestCallback 0 {}, .requestCallback 10 {}, .iterate fixedNumber true,
      .requestCallback 11 {}]

theorem present_of_pageFound : ∃ last,
    run (step Scan.pagesEnv) (start Scan.pagesEnv (searched "word")) pageFound = some last ∧
      last.scan.objectsFinder.numObjectsFound = 1 ∧ last.scan.Present Scan.pagesEnv := by
  have hok : Along (step Scan.pagesEnv) (Careful Scan.pagesEnv)
      (start Scan.pagesEnv (searched "word")) pageFound := by decide +kernel
  have hfound : (run (step Scan.pagesEnv) (start Scan.pagesEnv (searched "word")) pageFound).map
      (·.scan.objectsFinder.numObjectsFound) = some 1 := by decide +kernel
  obtain ⟨last, hrun, hlast⟩ := Option.map_eq_some_iff.mp hfound
  exact ⟨last, hrun, hlast, (present_iff_hasObjectsFinder hok hrun).mpr rfl⟩

/-- A scan without a word list. -/
def unlistedEnv : ScanEnv := { siteEnv with hasObjectsFinder := false }

/-- Without a word list the first iteration uses the finder that is not there, and the request
    of a check that was abandoned comes back to a runner that is gone. -/
theorem not_present :
    (∃ last, run (step unlistedEnv) (start unlistedEnv (timed 1))
        [.addUrl (ascii "http://site/a")] = some last ∧
      last.scan.iterate unlistedEnv fixedNumber = none ∧ ¬ last.scan.Present unlistedEnv) ∧
    ∃ last, run (step refusingEnv) (start refusingEnv (timed 2)) (auditedPage.take 13) =
        some last ∧ 10 ∈ last.scan.outstanding ∧
      (deref last.scan.mem 10).requestHandler = some (.securityCheckRunner 0) ∧
      last.scan.selectiveAuditor.runners = [] ∧ ¬ last.scan.Present refusingEnv := by
  constructor
  · have hstuck : (run (step unlistedEnv) (start unlistedEnv (timed 1))
        [.addUrl (ascii "http://site/a")]).map (fun last =>
          (last.scan.iterate unlistedEnv fixedNumber).isNone) = some true := by decide +kernel
    obtain ⟨last, hrun, hlast⟩ := Option.map_eq_some_iff.mp hstuck
    have hnone := Option.isNone_iff_eq_none.mp hlast
    exact ⟨last, hrun, hnone, fun hpresent => hpresent.iterates fixedNumber hnone⟩
  · have hgone : (run (step refusingEnv) (start refusingEnv (timed 2))
        (auditedPage.take 13)).map (fun last => (last.scan.outstanding,
          (deref last.scan.mem 10).requestHandler, last.scan.selectiveAuditor.runners)) =
        some ([10], some (.securityCheckRunner 0), []) := by decide +kernel
    obtain ⟨last, hrun, hlast⟩ := Option.map_eq_some_iff.mp hgone
    simp only [Prod.mk.injEq] at hlast
    obtain ⟨hout, hhandler, hrunners⟩ := hlast
    have hmem : 10 ∈ last.scan.outstanding := hout ▸ List.mem_singleton_self 10
    refine ⟨last, hrun, hmem, hhandler, hrunners, fun hpresent => ?_⟩
    obtain ⟨handler, heq, hheld⟩ := hpresent.handler 10 hmem
    rw [hhandler] at heq
    obtain rfl := Option.some.inj heq
    have hmem' := hheld.2
    rw [hrunners] at hmem'
    cases hmem'

end MainLoop

end plusfish

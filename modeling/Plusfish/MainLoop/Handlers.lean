import Plusfish.HiddenObjectsFinder.Bookkeeping
import Plusfish.MainLoop.Changes
import Plusfish.MainLoop.Exclusion

open memory transition Relation

namespace plusfish

namespace Scan

section
variable {env : ScanEnv} {caller : ScheduleCaller → Prop} {scan next : Scan}

/-- Code that knows no runner keeps the invariant where it gives no request to one. -/
theorem Attended.of_pending (h : scan.Attended) (hrunnerMem : next.runnerMem = scan.runnerMem)
    (hauditor : next.selectiveAuditor = scan.selectiveAuditor) (hallocated : next.Allocated)
    (hpending : ∀ p, (next.pending p).Sublist (scan.pending p)) : next.Attended := by
  have hrunner (p : Nat) : next.runnerAt p = scan.runnerAt p := by
    rw [runnerAt, hrunnerMem, ← runnerAt]
  refine ⟨hallocated, fun p hmem => ?_, fun p => ⟨fun req hreq => ?_, ?_, fun hfinished => ?_⟩,
    fun p hsome => ?_⟩
  · rw [hrunnerMem]
    exact h.runners p (hauditor ▸ hmem)
  · rw [hrunner]
    exact (h.current p).pending req ((hpending p).subset hreq)
  · rw [hrunner]
    exact Nat.le_trans (Nat.add_le_add_left (hpending p).length_le _) (h.current p).room
  · rw [hrunner] at hfinished
    exact List.sublist_nil.mp ((h.current p).finished hfinished ▸ hpending p)
  · rw [hauditor]
    exact h.held p fun hnone => hsome (List.sublist_nil.mp (hnone ▸ hpending p))

theorem Counts.of_runnerMem {callbacks : List (Nat × Nat)} (h : scan.Counts callbacks)
    (hrunnerMem : next.runnerMem = scan.runnerMem) (hnext : scan.mem.next ≤ next.mem.next) :
    next.Counts callbacks := by
  have hrunner (p : Nat) : next.runnerAt p = scan.runnerAt p := by
    rw [runnerAt, hrunnerMem, ← runnerAt]
  exact h.of_runner hnext (fun q (_ : q ≠ 0) => hrunner q) (Or.inl (hrunner 0))

/-- What other components than the runners do to the requests that are under way for a runner. -/
theorem Changes.attended (h : Changes env caller scan next)
    (hcaller : ∀ p serial, ¬ caller (.securityCheckRunner p serial)) (hattended : scan.Attended) :
    next.Attended ∧ ∀ callbacks, scan.Counts callbacks → next.Counts callbacks := by
  obtain ⟨hallocated, hsublist⟩ := h.underWay hattended.allocated
  obtain ⟨hrunnerMem, hauditor⟩ := h.runners hcaller
  refine ⟨hattended.of_pending hrunnerMem hauditor hallocated fun p => ?_,
    fun callbacks hcounts => hcounts.of_runnerMem hrunnerMem h.sameUrl.next_le⟩
  refine hsublist (fun handler => handler = some (.securityCheckRunner p)) fun c hc => ?_
  refine decide_eq_false fun hp => ?_
  cases c with
  | securityCheckRunner q serial => exact hcaller q serial hc
  | crawler | notFoundDetector | hiddenObjectsFinder => cases hp

/-- What other components than the finder do to the test requests that are under way. -/
theorem Changes.tidy (h : Changes env caller scan next) (hcaller : ¬ caller .hiddenObjectsFinder)
    (htidy : scan.TidyTests) : next.TidyTests ∧ (scan.Bookkept → next.Bookkept) := by
  obtain ⟨hallocated, hsublist⟩ := h.underWay htidy.allocated
  have hframe := h.sameUrl
  have hfinder := h.objectsFinder hcaller
  have htests : next.testRequests.Sublist scan.testRequests := by
    refine hsublist (fun handler => handler == some .hiddenObjectsFinder) fun c hc => ?_
    cases c with
    | hiddenObjectsFinder => exact absurd hc hcaller
    | crawler | notFoundDetector | securityCheckRunner => rfl
  refine ⟨⟨htests.nodup htidy.nodup, hallocated, fun entry hmem => ?_, ?_⟩,
    fun hbooks req hreq => ?_⟩
  · rw [hfinder] at hmem
    exact Nat.lt_of_lt_of_le (htidy.kept entry hmem) hframe.next_le
  · rw [hfinder]
    exact htidy.keys
  · have hold := htests.subset hreq
    have hurl : (deref next.mem req).url = (deref scan.mem req).url :=
      Frame.deref hframe (htidy.allocated req (List.mem_filter.mp hold).1)
    rw [hfinder, hurl]
    exact hbooks req hold

/-- What keeps the datastore and the finder in order, whatever requests are made. -/
structure InOrder (scan : Scan) : Prop where
  indexed : scan.Indexed
  tidy : scan.TidyTests

theorem InOrder.of_changes (h : scan.InOrder) (hchanges : Changes env caller scan next)
    (hcaller : ¬ caller .hiddenObjectsFinder) : next.InOrder :=
  ⟨hchanges.indexed h.indexed, (hchanges.tidy hcaller h.tidy).1⟩

/-- A runner does not make the call. -/
abbrev NotRunner (c : ScheduleCaller) : Prop := ¬ isRunner c

theorem not_notRunner (p : Nat) (serial : Bool) : ¬ NotRunner (.securityCheckRunner p serial) :=
  fun h => h trivial

/-- The finder is given a URL, which it does not look at before it makes test URLs. -/
theorem offerUrl_tidy (h : scan.TidyTests) (probed : Bool) (url : Bytes) :
    (scan.offerUrl env probed url).TidyTests ∧
      (scan.Bookkept → (scan.offerUrl env probed url).Bookkept) := by
  unfold offerUrl
  split
  · exact ⟨⟨h.nodup, h.allocated, h.kept, h.keys⟩, id⟩
  · exact ⟨h, id⟩

theorem serveProbeQueue_inOrder {number : ProbeNumber} (h : scan.InOrder)
    (hserve : scan.serveProbeQueue env number = some next) :
    next.InOrder ∧ (scan.Bookkept → next.Bookkept) := by
  have hall : Changes env NotRunner scan next := serveProbeQueue_changes id id hserve
  rcases serveProbeQueue_cases hserve with
    rfl | ⟨middle, probed, url, id, stored, hfirst, hstored, rfl⟩
  · exact ⟨h, fun hbooks => hbooks⟩
  · have hfinder : ¬ ScheduleCaller.hiddenObjectsFinder = .notFoundDetector := by simp
    obtain ⟨hmiddle, hbooks⟩ := hfirst.tidy hfinder h.tidy
    have hoffers : (middle.offerUrl env probed url).TidyTests ∧ _ :=
      offerUrl_tidy hmiddle probed url
    obtain ⟨hoffered, hbooks'⟩ := hoffers
    have hqueued : Changes env (fun _ => False) (middle.offerUrl env probed url) _ :=
      .single (addRequestToCrawlQueue_change _ hstored)
    obtain ⟨hnext, hbooks''⟩ := hqueued.tidy (fun h => h) hoffered
    exact ⟨⟨hall.indexed h.indexed, hnext⟩, fun hold => hbooks'' (hbooks' (hbooks hold))⟩

theorem serveCrawlQueue_inOrder (h : scan.InOrder)
    (hserve : scan.serveCrawlQueue env = some next) :
    next.InOrder ∧ (scan.Bookkept → next.Bookkept) := by
  have hchanges : Changes env (· = .crawler) scan next :=
    serveCrawlQueue_changes rfl h.indexed hserve
  have hfinder : ¬ ScheduleCaller.hiddenObjectsFinder = .crawler := by simp
  exact ⟨h.of_changes hchanges hfinder, (hchanges.tidy hfinder h.tidy).2⟩

theorem serveObjectsFinder_eq (h : scan.serveObjectsFinder env = some next) :
    scan.finderStep env (.scheduleRequests kMaxHiddenObjectsUrlsToSchedule) = some next := by
  unfold serveObjectsFinder at h
  split at h
  · exact h
  · cases h

theorem serveObjectsFinder_inOrder (h : scan.InOrder)
    (hserve : scan.serveObjectsFinder env = some next) : next.InOrder := by
  have hchanges : Changes env NotRunner scan next := serveObjectsFinder_changes id hserve
  exact ⟨hchanges.indexed h.indexed, finderStep_tidy h.tidy (serveObjectsFinder_eq hserve)⟩

/-- The loop body of `Plusfish::Run` up to the audit queue. -/
def search (env : ScanEnv) (scan : Scan) (number : ProbeNumber) : Option Scan :=
  (scan.serveProbeQueue env number).bind fun scan =>
    (scan.serveCrawlQueue env).bind fun scan => scan.serveObjectsFinder env

theorem iterate_eq_search (number : ProbeNumber) :
    scan.iterate env number = (scan.search env number).map (·.serveAuditQueue env) := by
  simp only [iterate, search, Option.map_bind, Function.comp_def]

theorem search_eq_some {number : ProbeNumber} {tested : Scan} :
    scan.search env number = some tested ↔ ∃ probed crawled,
      scan.serveProbeQueue env number = some probed ∧ probed.serveCrawlQueue env = some crawled ∧
        crawled.serveObjectsFinder env = some tested := by
  simp only [search, Option.bind_eq_some_iff]
  constructor
  · rintro ⟨probed, hprobe, crawled, hcrawl, htest⟩
    exact ⟨probed, crawled, hprobe, hcrawl, htest⟩
  · rintro ⟨probed, crawled, hprobe, hcrawl, htest⟩
    exact ⟨probed, hprobe, crawled, hcrawl, htest⟩

/-- What the loop body does before the audits. -/
theorem search_inOrder {number : ProbeNumber} (h : scan.InOrder)
    (hsearch : scan.search env number = some next) :
    next.InOrder ∧ Changes env NotRunner scan next := by
  obtain ⟨probed, crawled, hprobe, hcrawl, htest⟩ := search_eq_some.mp hsearch
  have hprobed := (serveProbeQueue_inOrder h hprobe).1
  have hcrawled := (serveCrawlQueue_inOrder hprobed hcrawl).1
  exact ⟨serveObjectsFinder_inOrder hcrawled htest, (serveProbeQueue_changes id id hprobe).trans
    ((serveCrawlQueue_changes id hprobed.indexed hcrawl).trans
      (serveObjectsFinder_changes id htest))⟩

theorem serveAuditQueue_changes (scan : Scan) :
    Changes env isRunner scan (scan.serveAuditQueue env) := by
  unfold serveAuditQueue
  split
  · split
    · exact .refl
    · exact (ReflTransGen.single (getRequestFromAuditQueue_change scan)).trans
        (scheduleFirst_changes _ _)
  · exact .refl

theorem serveAuditQueue_inOrder (h : scan.InOrder) :
    (scan.serveAuditQueue env).InOrder ∧ (scan.Bookkept → (scan.serveAuditQueue env).Bookkept) := by
  have hchanges : Changes env isRunner scan (scan.serveAuditQueue env) :=
    serveAuditQueue_changes scan
  exact ⟨h.of_changes hchanges id, (hchanges.tidy id h.tidy).2⟩

/-- A callback of a component other than the runners. -/
structure CalledBackFor (env : ScanEnv) (scan next : Scan) : Prop where
  changes : Changes env NotRunner scan next
  inOrder : next.InOrder
  bookkept : scan.Bookkept → next.Bookkept

theorem CalledBackFor.of_changes (h : scan.InOrder) {req : Nat} {transfer : Transfer}
    (hchanges : Changes env (fun _ => False) (scan.receive req transfer) next) :
    CalledBackFor env scan next := by
  have hall : Changes env (fun _ => False) scan next :=
    (receive_changes scan req transfer).trans hchanges
  exact ⟨hall.mono fun _ hc => hc.elim, h.of_changes hall id, (hall.tidy id h.tidy).2⟩

/-- The callback of the finder. -/
theorem CalledBackFor.of_finder (h : scan.InOrder) {req : Nat} {transfer : Transfer}
    (hreq : req ∈ scan.testRequests)
    (hcallback : (scan.receive req transfer).hiddenObjectCallback env req = some next) :
    CalledBackFor env scan next := by
  have hreceived : Changes env NotRunner scan (scan.receive req transfer) :=
    receive_changes scan req transfer
  have hall : Changes env NotRunner scan next :=
    hreceived.trans (hiddenObjectCallback_changes id (fun entry hmem =>
      Nat.lt_of_lt_of_le (h.tidy.kept entry hmem) hreceived.sameUrl.next_le) hcallback)
  have hstep : scan.finderStep env (.requestCallback req (some transfer)) = some next := by
    rw [finderStep, if_neg (not_not.mpr hreq)]
    exact hcallback
  exact ⟨hall, ⟨hall.indexed h.indexed, finderStep_tidy h.tidy hstep⟩,
    fun hbooks => (finderStep_bookkept h.tidy hbooks hstep).mpr trivial⟩

/-- A callback is one of a runner, or another component is called. -/
theorem requestCallback_outcome (h : scan.InOrder) {req : Nat} {transfer : Transfer}
    (hcallback : scan.requestCallback env req transfer = some next) :
    req ∈ scan.outstanding ∧
      ((∃ p, (deref scan.mem req).requestHandler = some (.securityCheckRunner p) ∧
        next = (scan.receive req transfer).runnerCallback env p req) ∨
      (∀ p, (deref scan.mem req).requestHandler ≠ some (.securityCheckRunner p)) ∧
        CalledBackFor env scan next) := by
  unfold requestCallback at hcallback
  split at hcallback
  · cases hcallback
  · rename_i hout
    have hout := not_not.mp hout
    refine ⟨hout, ?_⟩
    dsimp only at hcallback
    rw [receive_requestHandler] at hcallback
    cases hhandler : (deref scan.mem req).requestHandler with
    | none =>
      rw [hhandler] at hcallback
      cases hcallback
    | some handler =>
      rw [hhandler] at hcallback
      cases handler with
      | crawler =>
        cases hcallback
        exact Or.inr ⟨fun p hp => (by cases hp), .of_changes h
          (.of_site (Crawler.requestCallback_siteChanges env _ _ _ req))⟩
      | securityCheckRunner p =>
        cases hcallback
        exact Or.inl ⟨p, rfl, rfl⟩
      | notFoundDetector =>
        cases hcallback
        exact Or.inr ⟨fun p hp => (by cases hp), .of_changes h (notFoundCallback_changes _ req)⟩
      | hiddenObjectsFinder =>
        exact Or.inr ⟨fun p hp => (by cases hp), .of_finder h
          (List.mem_filter.mpr ⟨hout, by simp [hhandler]⟩) hcallback⟩

theorem runnerCallback_inOrder (h : scan.InOrder) (req : Nat) (transfer : Transfer) (p : Nat) :
    ((scan.receive req transfer).runnerCallback env p req).InOrder ∧
      (scan.Bookkept → ((scan.receive req transfer).runnerCallback env p req).Bookkept) := by
  have hchanges : Changes env isRunner scan
      ((scan.receive req transfer).runnerCallback env p req) :=
    (receive_changes scan req transfer).trans (runnerCallback_changes _ p req)
  exact ⟨h.of_changes hchanges id, (hchanges.tidy id h.tidy).2⟩

/-- Before the scan there is no request, and no runner. -/
theorem configured_inOrder (env : ScanEnv) (config : ScanConfig) :
    (configured env config).InOrder := by
  obtain ⟨hbyId, hprobe, hcrawl⟩ := configured_index env config
  refine ⟨fun req hrefers => ?_, ⟨.nil, fun _ hmem => ?_, fun _ hmem => ?_, .nil⟩⟩
  · simp only [DataStore.RefersTo, hprobe, hcrawl, DataStore.getRequestById, hbyId] at hrefers
    obtain hmem | hmem | ⟨_, hfound⟩ := hrefers
    · cases hmem
    · cases hmem
    · cases hfound
  · cases hmem
  · cases hmem

end

end Scan

namespace MainLoop

variable {env : ScanEnv} {loop next : MainLoop} {op : ScanOp}

/-- The event does not call a handler, and is not an iteration. -/
def IsQuiet : ScanOp → Prop
  | .addUrl _ | .addRequest _ | .giveUp _ => True
  | .requestCallback _ _ | .iterate _ _ => False

/-- What one event does to the scan. -/
theorem step_scan (hstep : loop.step env op = some next) :
    (IsQuiet op ∧ Scan.Changes env (fun _ => False) loop.scan next.scan) ∨
    (∃ req transfer, op = .requestCallback req transfer ∧
      loop.scan.requestCallback env req transfer = some next.scan) ∨
    ∃ number keepRunning, op = .iterate number keepRunning ∧
      loop.scan.iterate env number = some next.scan := by
  unfold step at hstep
  split at hstep
  · cases hstep
  · cases op with
    | addUrl url =>
      cases hstep
      exact Or.inl ⟨trivial, Scan.addUrl_changes _ url⟩
    | addRequest proto =>
      cases hstep
      exact Or.inl ⟨trivial, Scan.addNewRequest_changes _ _⟩
    | requestCallback req transfer =>
      obtain ⟨scan, hcallback, rfl⟩ := Option.map_eq_some_iff.mp hstep
      exact Or.inr (Or.inl ⟨req, transfer, rfl, hcallback⟩)
    | giveUp req =>
      obtain ⟨scan, hgive, rfl⟩ := Option.map_eq_some_iff.mp hstep
      unfold Scan.giveUp at hgive
      split at hgive
      · cases hgive
      · cases hgive
        exact Or.inl ⟨trivial, .single (.done loop.scan req)⟩
    | iterate number keepRunning =>
      obtain ⟨scan, hiterate, rfl⟩ := Option.map_eq_some_iff.mp hstep
      exact Or.inr (Or.inr ⟨number, keepRunning, rfl, hiterate⟩)

theorem step_inOrder (h : loop.scan.InOrder) (hstep : loop.step env op = some next) :
    next.scan.InOrder := by
  rcases step_scan hstep with
    ⟨_, hchanges⟩ | ⟨req, transfer, _, hcallback⟩ | ⟨number, _, _, hiterate⟩
  · exact h.of_changes hchanges id
  · rcases (Scan.requestCallback_outcome h hcallback).2 with ⟨p, _, heq⟩ | ⟨_, hcalled⟩
    · rw [heq]
      exact (Scan.runnerCallback_inOrder h req transfer p).1
    · exact hcalled.inOrder
  · rw [Scan.iterate_eq_search] at hiterate
    obtain ⟨tested, hsearch, heq⟩ := Option.map_eq_some_iff.mp hiterate
    rw [← heq]
    exact (Scan.serveAuditQueue_inOrder (Scan.search_inOrder h hsearch).1).1

end MainLoop

end plusfish

import Plusfish.Audit.Tested
import Plusfish.Audit.Tally
import Plusfish.Library.History

open memory transition history

namespace plusfish

namespace Scan

section
variable {env : ScanEnv}

/-- The average time has been measured for a runner: it is stored under the id of the tested
    request. -/
def Measured (scan : Scan) (events : List AuditEvent) (p : Nat) : Prop :=
  (∃ value, .measured p (scan.testedId p) value ∈ events) ∧
    (scan.store.getRequestMetadata (scan.testedId p) .averageApplicationTimeUsec).isSome = true

theorem Measured.keeps {scan after : Scan} {events events' : List AuditEvent} {p : Nat}
    (h : Measured scan events p) (hkeeps : Keeps scan after)
    (hid : after.testedId p = scan.testedId p) (hevents : events ⊆ events') :
    Measured after events' p := by
  obtain ⟨⟨value, hmem⟩, hsome⟩ := h
  obtain ⟨stored, hstored⟩ := Option.isSome_iff_exists.mp hsome
  rw [Measured, hid, hkeeps.metadata _ _ _ hstored]
  exact ⟨⟨value, hevents hmem⟩, rfl⟩

/-- A runner measures first: unless its check is still the first one, and is not finished, the
    average time has been measured. -/
structure MeasuresFirst (env : RequestEnv) (first : ResponseTimeCheck) (scan : Scan)
    (events : List AuditEvent) (p : Nat) : Prop where
  tested : (scan.runnerAt p).testedRequest < scan.mem.next
  requests : ∀ q ∈ (scan.runnerAt p).requests,
    q < scan.mem.next ∧ (plusfish.deref scan.mem q).parentId = scan.testedId p
  rules : ∀ check ∈ (scan.runnerAt p).securityCheck :: (scan.runnerAt p).nextChecks,
    check.FromRule env
  baseline : ((scan.runnerAt p).securityCheck = .responseTime first ∧
    (scan.runnerAt p).finished = false) ∨ Measured scan events p

/-- What a runner that runs the same checks for the same request keeps. -/
theorem MeasuresFirst.of_keeps {renv : RequestEnv} {first : ResponseTimeCheck} {scan after : Scan}
    {events events' : List AuditEvent} {p : Nat} (h : MeasuresFirst renv first scan events p)
    (hkeeps : Keeps scan after)
    (htested : (after.runnerAt p).testedRequest = (scan.runnerAt p).testedRequest)
    (hrequests : (after.runnerAt p).requests = (scan.runnerAt p).requests)
    (hchecks : (after.runnerAt p).securityCheck :: (after.runnerAt p).nextChecks =
      (scan.runnerAt p).securityCheck :: (scan.runnerAt p).nextChecks)
    (hbaseline : ((after.runnerAt p).securityCheck = .responseTime first ∧
      (after.runnerAt p).finished = false) ∨ Measured after events' p) :
    MeasuresFirst renv first after events' p := by
  refine ⟨?_, fun q hmem => ?_, ?_, hbaseline⟩
  · rw [htested]
    exact Nat.lt_of_lt_of_le h.tested hkeeps.next
  · rw [hrequests] at hmem
    obtain ⟨hlt, hparent⟩ := h.requests q hmem
    refine ⟨Nat.lt_of_lt_of_le hlt hkeeps.next, ?_⟩
    rw [hkeeps.testedId h.tested htested, (hkeeps.lineage q hlt).parentId, hparent]
  · rw [hchecks]
    exact h.rules

theorem MeasuresFirst.keeps {renv : RequestEnv} {first : ResponseTimeCheck} {scan after : Scan}
    {events events' : List AuditEvent} {p : Nat} (h : MeasuresFirst renv first scan events p)
    (hkeeps : Keeps scan after) (hrunner : after.runnerAt p = scan.runnerAt p)
    (hevents : events ⊆ events') : MeasuresFirst renv first after events' p := by
  have hid : after.testedId p = scan.testedId p := hkeeps.testedId h.tested (by rw [hrunner])
  refine h.of_keeps hkeeps (by rw [hrunner]) (by rw [hrunner]) (by rw [hrunner]) ?_
  rw [hrunner]
  exact h.baseline.imp_right fun hmeasured => hmeasured.keeps hkeeps hid hevents

/-- Where every request is accepted, the response time check is not skipped. -/
theorem Fresh.run_responseTime (haccepts : ∀ i, env.accepts i = true) {scan : Scan} {p : Nat}
    {nextChecks : List SecurityCheck} {first : ResponseTimeCheck} (h : scan.Fresh p nextChecks)
    (hcheck : (scan.runnerAt p).securityCheck = .responseTime first) :
    (scan.run env p).1 = true := by
  refine h.run_done haccepts ?_ ?_
  · rw [newRequests, hcheck]
    rfl
  · rw [hcheck]
    rfl

/-- What one call of `Run` leads to. -/
theorem MeasuresFirst.run (haccepts : ∀ i, env.accepts i = true) {first : ResponseTimeCheck}
    {scan after : Scan} {events : List AuditEvent} {p : Nat} {nextChecks : List SecurityCheck}
    {done : Bool} (hfresh : scan.Fresh p nextChecks) (hrun : scan.run env p = (done, after))
    (htested : (scan.runnerAt p).testedRequest < scan.mem.next)
    (hrules : ∀ check ∈ (scan.runnerAt p).securityCheck :: nextChecks, check.FromRule env.request)
    (hbaseline : (scan.runnerAt p).securityCheck = .responseTime first ∨ Measured scan events p)
    (hallocated : scan.Allocated) (hparented : scan.Parented) :
    MeasuresFirst env.request first after events p ∧ after.Parented ∧
      (done = false → Measured after events p) := by
  have houtcome := hfresh.run_outcome env hrun
  obtain ⟨hout, hhandlers⟩ := hfresh.run_of_accepts haccepts hrun
  have hkeeps : Keeps scan after := houtcome.runs.keeps houtcome.store
  have hid : after.testedId p = scan.testedId p :=
    hkeeps.testedId htested (by rw [houtcome.runner])
  have hparents := run_parentId hrun (hrules _ List.mem_cons_self)
  have hmeasured (h : Measured scan events p) : Measured after events p :=
    h.keeps hkeeps hid (List.Subset.refl _)
  have hlt : (after.runnerAt p).testedRequest < after.mem.next := by
    rw [houtcome.runner]
    exact Nat.lt_of_lt_of_le htested hkeeps.next
  refine ⟨⟨hlt, fun q hmem => ?_, ?_, ?_⟩, fun q hmem => ?_, fun hdone => ?_⟩
  · rw [houtcome.runner] at hmem
    refine ⟨?_, by rw [hid, hparents q hmem]⟩
    rw [houtcome.next]
    exact ((mem_newAddresses env).mp hmem).2
  · rw [houtcome.runner, hfresh.nextChecks]
    exact hrules
  · rw [houtcome.runner]
    exact hbaseline.imp (fun hcheck => ⟨hcheck, hfresh.notFinished⟩) hmeasured
  · rw [hout] at hmem
    rcases List.mem_append.mp hmem with hmem | hmem
    · refine (hparented q hmem).keeps (hallocated q hmem) hkeeps
        (Nat.le_of_eq houtcome.runs.runnerNext.symm) fun q' _ => ?_
      by_cases hq : q' = p
      · rw [hq, houtcome.runner]
      · rw [houtcome.runs.runnerAt hq]
    · intro p' hhandler
      cases done with
      | false => cases hmem
      | true =>
        rw [hhandlers rfl q hmem] at hhandler
        cases hhandler
        refine ⟨?_, hlt, by rw [hid, hparents q hmem]⟩
        rw [houtcome.runs.runnerNext]
        exact hfresh.allocated
  · subst hdone
    rcases hbaseline with hcheck | h
    · have hdone := hfresh.run_responseTime haccepts hcheck
      rw [hrun] at hdone
      cases hdone
    · exact hmeasured h

/-- What `ScheduleNextCheck` leads to. -/
theorem MeasuresFirst.scheduled (haccepts : ∀ i, env.accepts i = true) {first : ResponseTimeCheck}
    {scan last : Scan} {past events : List AuditEvent} {p : Nat} {nextChecks : List SecurityCheck}
    {done : Bool} (h : Scheduled env p nextChecks scan events done last)
    (htested : (scan.runnerAt p).testedRequest < scan.mem.next)
    (hrules : ∀ check ∈ (scan.runnerAt p).securityCheck :: nextChecks, check.FromRule env.request)
    (hbaseline : (scan.runnerAt p).securityCheck = .responseTime first ∨ Measured scan past p)
    (hallocated : scan.Allocated) (hparented : scan.Parented) :
    MeasuresFirst env.request first last past p ∧ last.Parented := by
  induction h with
  | ran hfresh hrun | last hfresh hrun =>
    obtain ⟨hmeasures, hparented, _⟩ := MeasuresFirst.run haccepts hfresh hrun htested hrules
      hbaseline hallocated hparented
    exact ⟨hmeasures, hparented⟩
  | @skipped check checks scan after _ runner _ _ hfresh hrun hnext _ ih =>
    obtain ⟨hmeasures, hparented, hmeasured⟩ := MeasuresFirst.run haccepts hfresh hrun htested
      hrules hbaseline hallocated hparented
    have houtcome := hfresh.run_outcome env hrun
    obtain ⟨runner', hnext', hcheck, hsame, hrunner, hfresh'⟩ :=
      hfresh.moveOn houtcome.runs houtcome.runner
    obtain rfl : runner = runner' := Option.some.inj (hnext.symm.trans hnext')
    have htestedSame : runner.testedRequest = (after.runnerAt p).testedRequest := by
      rw [hsame, houtcome.runner]
    have hset : Keeps after (after.setRunner p runner) :=
      (setRunner_runsFor after p runner).keeps rfl
    have hallocated' := (houtcome.extends hallocated).allocated hallocated
    have hid : (after.setRunner p runner).testedId p = after.testedId p :=
      hset.testedId hmeasures.tested (by rw [hrunner, htestedSame])
    refine ih ?_ ?_ (Or.inr ((hmeasured rfl).keeps hset hid (List.Subset.refl _))) hallocated'
      (hparented.setRunner hallocated' htestedSame)
    · rw [hrunner, htestedSame]
      exact hmeasures.tested
    · rw [hrunner, hcheck]
      exact fun next hmem => hrules next (List.mem_cons_of_mem _ hmem)

/-- What is left of the invariants of a runner after the evaluation of a callback. -/
theorem MeasuresFirst.of_doneOutcome (haccepts : ∀ i, env.accepts i = true)
    {first : ResponseTimeCheck} {scan after : Scan} {past events : List AuditEvent} {p : Nat}
    (houtcome : DoneOutcome env scan p events after)
    (h : MeasuresFirst env.request first scan past p)
    (hallocated : scan.Allocated) (hparented : scan.Parented) :
    MeasuresFirst env.request first after past p ∧ after.Parented := by
  have hscraped := (scrapeRequests_looksAtPages env scan p).keeps
  have hsame := scrapeRequests_sameAudits env scan p
  have hactsFor : ActsFor p scan (scan.scrapeRequests env p) := hsame.actsFor hallocated
  have hrunner := hsame.runnerAt
  have hmeasures : MeasuresFirst env.request first (scan.scrapeRequests env p) past p :=
    h.keeps hscraped (hrunner p) (List.Subset.refl _)
  have hparented' : (scan.scrapeRequests env p).Parented := by
    intro q hmem
    rw [hsame.outstanding] at hmem
    exact (hparented q hmem).keeps (hallocated q hmem) hscraped
      (Nat.le_of_eq (by rw [hsame.runnerMem]))
      fun q' _ => by rw [hrunner]
  -- What the scheduling starts from, where there is a next check.
  have hnext {runner : SecurityCheckRunner} {events : List AuditEvent} {done : Bool}
      {middle : Scan} (hfinished : (scan.runnerAt p).finished = true)
      (hnext : ((scan.scrapeRequests env p).runnerAt p).setNextCheck = some runner)
      (hscheduled : Scheduled env p runner.nextChecks
        ((scan.scrapeRequests env p).setRunner p runner) events done middle) :
      MeasuresFirst env.request first middle past p ∧ middle.Parented := by
    have hp := allocated_scrapeRequests env hfinished
    obtain ⟨_, hcons⟩ := Fresh.of_setNextCheck _ hp hnext
    have hset : Keeps (scan.scrapeRequests env p)
        ((scan.scrapeRequests env p).setRunner p runner) :=
      (setRunner_runsFor _ p runner).keeps rfl
    have hsame := setNextCheck_testedRequest hnext
    have hat := runnerAt_setRunner (scan.scrapeRequests env p) hp runner
    have hmeasured : Measured (scan.scrapeRequests env p) past p := by
      rcases hmeasures.baseline with ⟨_, hunfinished⟩ | hmeasured
      · rw [hrunner, hfinished] at hunfinished
        cases hunfinished
      · exact hmeasured
    have hallocated' : ((scan.scrapeRequests env p).setRunner p runner).Allocated :=
      hactsFor.allocated hallocated
    have hid : ((scan.scrapeRequests env p).setRunner p runner).testedId p =
        (scan.scrapeRequests env p).testedId p :=
      hset.testedId hmeasures.tested (by rw [hat, hsame])
    refine MeasuresFirst.scheduled haccepts hscheduled ?_ ?_
      (Or.inr (hmeasured.keeps hset hid (List.Subset.refl _))) hallocated'
      (hparented'.setRunner (hactsFor.allocated hallocated) hsame)
    · rw [hat, hsame]
      exact hmeasures.tested
    · rw [hat, ← hcons]
      exact fun check hmem => hmeasures.rules check (List.mem_cons_of_mem _ hmem)
  have herase {middle : Scan} (h : MeasuresFirst env.request first middle past p ∧
      middle.Parented) : MeasuresFirst env.request first (middle.eraseRunner p) past p ∧
        (middle.eraseRunner p).Parented := by
    obtain ⟨hmeasures, hparented⟩ := h
    exact ⟨⟨hmeasures.tested, hmeasures.requests, hmeasures.rules, hmeasures.baseline⟩, hparented⟩
  cases houtcome with
  | waiting => exact ⟨h, hparented⟩
  | ended => exact herase ⟨hmeasures, hparented'⟩
  | goesOn hfinished hsome hscheduled => exact hnext hfinished hsome hscheduled
  | exhausted hfinished hsome hscheduled => exact herase (hnext hfinished hsome hscheduled)

/-- The response time check hands the average over under the id of the tested request. -/
theorem evaluation_of_responseTime {scan : Scan} {p : Nat} {check : ResponseTimeCheck}
    (hcheck : (scan.runnerAt p).securityCheck = .responseTime check)
    (hfinished : (scan.runnerAt p).finished = true) (hrequests : (scan.runnerAt p).requests ≠ [])
    (hparents : ∀ q ∈ (scan.runnerAt p).requests,
      (deref scan.mem q).parentId = scan.testedId p) (req : Nat) :
    ∃ value, (scan.evaluation p req).2 = some (scan.testedId p, value) := by
  obtain ⟨q, reqs, hlist⟩ := List.exists_cons_of_ne_nil hrequests
  have hparent := hparents q (by rw [hlist]; exact List.mem_cons_self)
  refine ⟨ResponseTimeCheck.averageDurationUsec
    ((scan.runnerAt p).requests.map (deref scan.mem)), ?_⟩
  simp [evaluation, hcheck, hfinished, SecurityCheck.canEvaluateInSerial, SecurityCheck.evaluate,
    ResponseTimeCheck.evaluate, hlist, hparent]

/-- The evaluation of a finished response time check leaves the average time measured. -/
theorem measured_of_evaluation {scan : Scan} {p req : Nat} {value : Int}
    {events : List AuditEvent} (hentry : (scan.evaluation p req).2 = some (scan.testedId p, value))
    (hid : (scan.evaluateCallback env p req).testedId p = scan.testedId p) :
    Measured (scan.evaluateCallback env p req)
      (events ++ scan.evaluateCallbackEvents p req) p := by
  have hstored : ((scan.setRequestMeta (scan.evaluation p req).2).store.getRequestMetadata
      (scan.testedId p) .averageApplicationTimeUsec).isSome = true := by
    rw [hentry]
    exact DataStore.addRequestMetadata_stores _ _ _ _
  rw [Measured, hid]
  refine ⟨⟨value, List.mem_append_right _ ?_⟩, ?_⟩
  · simp [evaluateCallbackEvents, hentry]
  · rw [evaluateCallback_eq]
    split
    · obtain ⟨stored, hvalue⟩ := Option.isSome_iff_exists.mp hstored
      have hkeeps := (reportIssue_looksAtPages env (fun _ => False)
        (scan.setRequestMeta (scan.evaluation p req).2) p req).keeps
      rw [hkeeps.metadata _ _ _ hvalue, Option.isSome_some]
    · exact hstored

/-- The callback that finishes the response time check leaves the average time measured. -/
theorem MeasuresFirst.measured_of_finished {first : ResponseTimeCheck} {scan : Scan}
    {events : List AuditEvent} {p : Nat} (h : MeasuresFirst env.request first scan events p)
    (hp : p < scan.runnerMem.next) (hcheck : (scan.runnerAt p).securityCheck = .responseTime first)
    (hunfinished : (scan.runnerAt p).finished = false)
    (hfinished : (scan.runnerAt p).countCallback.finished = true) (req : Nat)
    (transfer : Transfer) :
    Measured (((scan.receive req transfer).counted p).evaluateCallback env p req)
      (events ++ .calledBack p req ::
        ((scan.receive req transfer).counted p).evaluateCallbackEvents p req) p := by
  obtain ⟨hrunner, _⟩ := evaluateCallback_runner env req transfer hp
  have hat : ((scan.receive req transfer).counted p).runnerAt p =
      (scan.runnerAt p).countCallback := counted_runnerAt hp
  have hcounted : Keeps scan ((scan.receive req transfer).counted p) :=
    (receive_keeps scan req transfer).trans
      ((setRunner_runsFor (scan.receive req transfer) p _).keeps rfl)
  have hid := hcounted.testedId h.tested (p := p) (by rw [hat]; rfl)
  have hid' := (evaluateCallback_keeps env scan req transfer p).testedId h.tested (p := p)
    (by rw [hrunner]; rfl)
  have hrequests : (scan.runnerAt p).requests ≠ [] := by
    intro hnil
    simp [SecurityCheckRunner.countCallback, hunfinished, hnil] at hfinished
  have hparents : ∀ q ∈ (((scan.receive req transfer).counted p).runnerAt p).requests,
      (deref ((scan.receive req transfer).counted p).mem q).parentId =
        ((scan.receive req transfer).counted p).testedId p := by
    intro q hmem
    rw [hat] at hmem
    obtain ⟨hlt, hparent⟩ := h.requests q hmem
    rw [hid, (hcounted.lineage q hlt).parentId, hparent]
  obtain ⟨value, hentry⟩ := evaluation_of_responseTime (by rw [hat]; exact hcheck)
    (by rw [hat]; exact hfinished) (by rw [hat]; exact hrequests) hparents req
  have hmeasured : Measured (((scan.receive req transfer).counted p).evaluateCallback env p req)
      (events ++ [.calledBack p req] ++ _) p := measured_of_evaluation hentry (hid'.trans hid.symm)
  rwa [List.append_assoc, List.singleton_append] at hmeasured

theorem MeasuresFirst.callback {first : ResponseTimeCheck} {scan : Scan}
    {events : List AuditEvent} {p : Nat} (h : MeasuresFirst env.request first scan events p)
    (hp : p < scan.runnerMem.next) (req : Nat) (transfer : Transfer) :
    MeasuresFirst env.request first
      (((scan.receive req transfer).counted p).evaluateCallback env p req)
      (events ++ .calledBack p req ::
        ((scan.receive req transfer).counted p).evaluateCallbackEvents p req) p := by
  obtain ⟨hrunner, _⟩ := evaluateCallback_runner env req transfer hp
  have hkeeps := evaluateCallback_keeps env scan req transfer p
  have hid := hkeeps.testedId h.tested (p := p) (by rw [hrunner]; rfl)
  refine h.of_keeps hkeeps (by rw [hrunner]; rfl) (by rw [hrunner]; rfl) (by rw [hrunner]; rfl) ?_
  rcases h.baseline with ⟨hcheck, hunfinished⟩ | hmeasured
  · cases hfinished : (scan.runnerAt p).countCallback.finished with
    | false =>
      rw [hrunner]
      exact Or.inl ⟨hcheck, hfinished⟩
    | true => exact Or.inr (h.measured_of_finished hp hcheck hunfinished hfinished req transfer)
  · exact Or.inr (hmeasured.keeps hkeeps hid (List.subset_append_left _ _))

end

end Scan

/-- A check with a rule is evaluated on a request only when the average time of the tested
    request has been measured, and is found where a timing matcher looks it up. -/
def Timed (past : List AuditEvent) : AuditEvent → Prop
  | .evaluated p (.generic _) request getRequestMeta =>
    (∃ value, .measured p request.parentId value ∈ past) ∧
      (TimingMatcher.averageApplicationTimeUsec? getRequestMeta request).isSome = true
  | _ => True

namespace AuditHistory

open Scan (AuditOp)

/-- The requests that are given to the auditor exist. -/
def TestsExisting (history : AuditHistory) : AuditOp → Prop
  | .scheduleFirst req => req < history.scan.mem.next
  | .requestCallback _ _ => True

/-- What holds in a run in which every request is accepted and the time is measured first. -/
structure Baseline (env : RequestEnv) (first : ResponseTimeCheck) (rest : List SecurityCheck)
    (history : AuditHistory) : Prop where
  registered : history.scan.selectiveAuditor.checks = .responseTime first :: rest
  allocated : history.scan.Allocated
  parented : history.scan.Parented
  measures : ∀ p < history.scan.runnerMem.next,
    Scan.MeasuresFirst env first history.scan history.events p
  evaluated : ∀ p check request getRequestMeta,
    .evaluated p (.generic check) request getRequestMeta ∈ history.events →
      p < history.scan.runnerMem.next ∧ request.parentId = history.scan.testedId p
  follows : Follows Timed [] history.events

section
variable {env : ScanEnv} {first : ResponseTimeCheck} {rest : List SecurityCheck}

theorem evaluated_mem_evaluateCallbackEvents {scan : Scan} {p req p' : Nat}
    {check : SecurityCheck} {request : Request} {getRequestMeta : RequestMetaCallback} :
    .evaluated p' check request getRequestMeta ∈ scan.evaluateCallbackEvents p req ↔
      ∃ q ∈ scan.lookedAt p req, p' = p ∧ check = (scan.runnerAt p).securityCheck ∧
        request = deref scan.mem q ∧ getRequestMeta = scan.store.getRequestMetadata := by
  constructor
  · intro hmem
    obtain ⟨q, hq, rfl, rfl, rfl, rfl⟩ := by simpa [Scan.evaluateCallbackEvents] using hmem
    exact ⟨q, hq, rfl, rfl, rfl, rfl⟩
  · rintro ⟨q, hq, rfl, rfl, rfl, rfl⟩
    exact List.mem_append_left _ (List.mem_append_left _ (List.mem_map.mpr ⟨q, hq, rfl⟩))

/-- A request that is looked at has the tested request as its parent. -/
theorem Baseline.lookedAt {history : AuditHistory} {req p q : Nat} {transfer : Transfer}
    (h : history.Baseline env.request first rest) (hout : req ∈ history.scan.outstanding)
    (hhandler : (deref history.scan.mem req).requestHandler = some (.securityCheckRunner p))
    (hq : q ∈ ((history.scan.receive req transfer).counted p).lookedAt p req) :
    (deref ((history.scan.receive req transfer).counted p).mem q).parentId =
      history.scan.testedId p := by
  obtain ⟨hp, _, hparent⟩ := h.parented req hout p hhandler
  have hkeeps := Scan.receive_keeps history.scan req transfer
  have hat : ((history.scan.receive req transfer).counted p).runnerAt p =
      (history.scan.runnerAt p).countCallback := Scan.counted_runnerAt hp
  have hmem : (q < history.scan.mem.next ∧
      (deref history.scan.mem q).parentId = history.scan.testedId p) := by
    rcases Scan.mem_lookedAt hq with rfl | hq
    · exact ⟨h.allocated q hout, hparent⟩
    · rw [hat] at hq
      exact (h.measures p hp).requests q hq
  exact (hkeeps.lineage q hmem.1).parentId.trans hmem.2

theorem timed_of_isScheduling {event : AuditEvent} {p : Nat} (h : event.isScheduling p)
    (past : List AuditEvent) : Timed past event := by
  cases event with
  | evaluated => cases h
  | _ => trivial

/-- What is looked at is looked at in time. -/
theorem Baseline.timed {history : AuditHistory} {req p : Nat} {transfer : Transfer}
    (h : history.Baseline env.request first rest) (hout : req ∈ history.scan.outstanding)
    (hhandler : (deref history.scan.mem req).requestHandler = some (.securityCheckRunner p)) :
    ∀ event ∈ ((history.scan.receive req transfer).counted p).evaluateCallbackEvents p req,
      ∀ later, Timed (history.events ++ later) event := by
  intro event hmem later
  obtain ⟨hp, _, _⟩ := h.parented req hout p hhandler
  have hat : ((history.scan.receive req transfer).counted p).runnerAt p =
      (history.scan.runnerAt p).countCallback := Scan.counted_runnerAt hp
  have hcheck : (((history.scan.receive req transfer).counted p).runnerAt p).securityCheck =
      (history.scan.runnerAt p).securityCheck := by
    rw [hat]
    rfl
  match event with
  | .evaluated p' (.generic check) request getRequestMeta =>
    obtain ⟨q, hq, rfl, hgeneric, rfl, rfl⟩ := evaluated_mem_evaluateCallbackEvents.mp hmem
    have hparent := h.lookedAt hout hhandler hq
    rcases (h.measures p' hp).baseline with ⟨hfirst, _⟩ | ⟨⟨value, hvalue⟩, hsome⟩
    · rw [hcheck, hfirst] at hgeneric
      cases hgeneric
    · rw [Timed, TimingMatcher.averageApplicationTimeUsec?, hparent]
      exact ⟨⟨value, List.mem_append_left _ hvalue⟩, hsome⟩
  | .evaluated _ (.responseTime _) _ _ => trivial
  | .ran .. | .calledBack .. | .measured .. | .reported .. | .stored .. | .erased .. => trivial

theorem Baseline.callback (haccepts : ∀ i, env.accepts i = true) {history next : AuditHistory}
    {req p : Nat} {transfer : Transfer} {events : List AuditEvent}
    (h : history.Baseline env.request first rest) (hout : req ∈ history.scan.outstanding)
    (hhandler : (deref history.scan.mem req).requestHandler = some (.securityCheckRunner p))
    (houtcome : Scan.DoneOutcome env
      (((history.scan.receive req transfer).counted p).evaluateCallback env p req)
        p events next.scan)
    (heq : next.events = history.events ++ (.calledBack p req ::
      ((history.scan.receive req transfer).counted p).evaluateCallbackEvents p req ++ events)) :
    next.Baseline env.request first rest := by
  obtain ⟨hp, _, _⟩ := h.parented req hout p hhandler
  have hevaluated := (Scan.evaluateCallback_actsFor env transfer h.allocated hhandler).1
  have hkept := Scan.evaluateCallback_keeps env history.scan req transfer p
  have hcallback := (h.measures p hp).callback hp req transfer
  have hrunner := (Scan.evaluateCallback_runner env req transfer hp).1
  have hparented := h.parented.evaluateCallback env h.allocated hp hhandler transfer
  obtain ⟨hmeasures, hparented'⟩ := Scan.MeasuresFirst.of_doneOutcome haccepts houtcome hcallback
    (hevaluated.allocated h.allocated) hparented
  have hacts := hevaluated.trans (houtcome.actsFor (hevaluated.allocated h.allocated))
  have hkeeps := hkept.trans houtcome.keeps
  have htested {q : Nat} (hq : q < history.scan.runnerMem.next) :
      next.scan.testedId q = history.scan.testedId q := by
    refine hkeeps.testedId (h.measures q hq).tested ?_
    by_cases hqp : q = p
    · rw [hqp, houtcome.testedRequest, hrunner]
      rfl
    · rw [hacts.runnerAt q hqp]
  have hpast : next.events = history.events ++ .calledBack p req ::
      ((history.scan.receive req transfer).counted p).evaluateCallbackEvents p req ++ events := by
    rw [heq, List.append_assoc]
  refine ⟨hacts.checks.trans h.registered, hacts.allocated h.allocated, hparented',
    fun q hq => ?_, fun p' check request getRequestMeta hmem => ?_, ?_⟩
  · by_cases hqp : q = p
    · rw [hqp, hpast]
      exact hmeasures.keeps (.refl _) rfl (List.subset_append_left _ _)
    · rw [hacts.runnerNext] at hq
      rw [heq]
      exact (h.measures q hq).keeps hkeeps (hacts.runnerAt q hqp) (List.subset_append_left _ _)
  · rw [hacts.runnerNext]
    rw [hpast] at hmem
    rcases List.mem_append.mp hmem with hmem | hmem
    · rcases List.mem_append.mp hmem with hmem | hmem
      · obtain ⟨hp', hparent⟩ := h.evaluated _ _ _ _ hmem
        exact ⟨hp', by rw [htested hp', hparent]⟩
      · rcases List.mem_cons.mp hmem with hmem | hmem
        · cases hmem
        · obtain ⟨q, hq, rfl, _, rfl, _⟩ := evaluated_mem_evaluateCallbackEvents.mp hmem
          exact ⟨hp, by rw [htested hp, h.lookedAt hout hhandler hq]⟩
    · cases houtcome.isScheduling _ hmem
  · rw [hpast, follows_append, follows_append]
    refine ⟨⟨h.follows, trivial, follows_of_forall fun event hmem later => ?_⟩,
      follows_of_forall fun event hmem later => ?_⟩
    · rw [List.append_assoc]
      exact h.timed hout hhandler event hmem _
    · exact timed_of_isScheduling (houtcome.isScheduling event hmem) _

/-- A new runner measures first. -/
theorem Baseline.scheduled (haccepts : ∀ i, env.accepts i = true) {history : AuditHistory}
    {last : Scan} {req : Nat} {events : List AuditEvent} {done : Bool}
    (h : history.Baseline env.request first rest) (hreq : req < history.scan.mem.next)
    (hrules : ∀ check ∈ rest, check.FromRule env.request)
    (hscheduled : Scan.Scheduled env history.scan.runnerMem.next rest
      (history.scan.allocRunner req (.responseTime first) rest) events done last) :
    Baseline env.request first rest ⟨last, history.events ++ events⟩ := by
  have halloc := Scan.allocRunner_keeps history.scan req (.responseTime first) rest
  have hkeeps := halloc.trans (hscheduled.runsFor.keeps hscheduled.store)
  have hruns := hscheduled.runsFor
  have hacts := hscheduled.actsFor h.allocated
  have hfresh := Scan.allocRunner_runnerAt_next history.scan req (.responseTime first) rest
  have hparented : (history.scan.allocRunner req (.responseTime first) rest).Parented :=
    fun q hmem => (h.parented q hmem).keeps (h.allocated q hmem) halloc
      (by simp [Scan.allocRunner])
      fun q' hq' => by rw [Scan.allocRunner_runnerAt _ _ _ _ (Nat.ne_of_lt hq')]
  obtain ⟨hmeasures, hparented'⟩ := Scan.MeasuresFirst.scheduled haccepts hscheduled
    (by rw [hfresh]; exact hreq)
    (by
      rw [hfresh]
      exact List.forall_mem_cons.mpr ⟨trivial, hrules⟩)
    (Or.inl (by rw [hfresh])) h.allocated hparented
  have hnext : last.runnerMem.next = history.scan.runnerMem.next + 1 := by
    rw [hruns.runnerNext]
    simp [Scan.allocRunner]
  have hold {q : Nat} (hq : q < history.scan.runnerMem.next) :
      last.runnerAt q = history.scan.runnerAt q := by
    rw [hruns.runnerAt (Nat.ne_of_lt hq), Scan.allocRunner_runnerAt _ _ _ _ (Nat.ne_of_lt hq)]
  refine ⟨hacts.checks.trans h.registered, hacts.allocated h.allocated, hparented',
    fun q hq => ?_, fun p' check request getRequestMeta hmem => ?_, ?_⟩
  · by_cases hqp : q = history.scan.runnerMem.next
    · rw [hqp]
      exact hmeasures.keeps (.refl _) rfl (List.subset_append_left _ _)
    · have hlt : q < history.scan.runnerMem.next := by
        simp only [hnext] at hq
        omega
      exact (h.measures q hlt).keeps hkeeps (hold hlt) (List.subset_append_left _ _)
  · rcases List.mem_append.mp hmem with hmem | hmem
    · obtain ⟨hp', hparent⟩ := h.evaluated _ _ _ _ hmem
      refine ⟨by simp only [hnext]; omega, ?_⟩
      rw [hparent, hkeeps.testedId (h.measures p' hp').tested (by rw [hold hp'])]
    · cases hscheduled.isScheduling _ hmem
  · exact follows_append.mpr ⟨h.follows, follows_of_forall fun event hmem later =>
      timed_of_isScheduling (hscheduled.isScheduling event hmem) _⟩

theorem Baseline.pushRunner {renv : RequestEnv} {scan : Scan} {events : List AuditEvent}
    (h : Baseline renv first rest ⟨scan, events⟩) (p : Nat) :
    Baseline renv first rest ⟨scan.pushRunner p, events ++ [.stored p]⟩ := by
  refine ⟨h.registered, h.allocated, h.parented, fun q hq => ?_,
    fun p' check request getRequestMeta hmem => ?_,
    follows_append.mpr ⟨h.follows, follows_singleton.mpr trivial⟩⟩
  · have hmeasures := (h.measures q hq).keeps (.refl scan) rfl
      (List.subset_append_left events [.stored p])
    exact ⟨hmeasures.tested, hmeasures.requests, hmeasures.rules, hmeasures.baseline⟩
  · rcases List.mem_append.mp hmem with hmem | hmem
    · exact h.evaluated p' check request getRequestMeta hmem
    · cases List.mem_singleton.mp hmem

theorem Baseline.scheduleFirst (haccepts : ∀ i, env.accepts i = true) {history : AuditHistory}
    {last : Scan} {req : Nat} {events : List AuditEvent}
    (h : history.Baseline env.request first rest) (hreq : req < history.scan.mem.next)
    (hrules : ∀ check ∈ rest, check.FromRule env.request)
    (houtcome : Scan.FirstOutcome env history.scan req events last) :
    Baseline env.request first rest ⟨last, history.events ++ events⟩ := by
  cases houtcome with
  | noChecks =>
    rw [List.append_nil]
    exact h
  | nothing hlist hscheduled =>
    obtain ⟨rfl, rfl⟩ := List.cons.inj (hlist.symm.trans h.registered)
    exact h.scheduled haccepts hreq hrules hscheduled
  | started hlist hscheduled =>
    obtain ⟨rfl, rfl⟩ := List.cons.inj (hlist.symm.trans h.registered)
    rw [← List.append_assoc]
    exact (h.scheduled haccepts hreq hrules hscheduled).pushRunner _

theorem Baseline.step (haccepts : ∀ i, env.accepts i = true) {history next : AuditHistory}
    {op : AuditOp} (h : history.Baseline env.request first rest)
    (hrules : ∀ check ∈ rest, check.FromRule env.request) (hexisting : history.TestsExisting op)
    (hstep : history.step env op = some next) : next.Baseline env.request first rest := by
  rcases step_cases hstep with ⟨req, events, rfl, houtcome, heq⟩ |
    ⟨req, transfer, p, events, rfl, hout, hhandler, houtcome, heq⟩
  · have hfirst := h.scheduleFirst haccepts hexisting hrules houtcome
    rwa [← heq] at hfirst
  · exact h.callback haccepts hout hhandler houtcome heq

theorem baseline_of_unused {renv : RequestEnv} {start : AuditHistory}
    (hunused : start.scan.Unused) (hout : start.scan.outstanding = []) (hevents : start.events = [])
    (hregistered : start.scan.selectiveAuditor.checks = .responseTime first :: rest) :
    start.Baseline renv first rest := by
  have hnone (req : Nat) : req ∉ start.scan.outstanding := by
    rw [hout]
    exact List.not_mem_nil
  refine ⟨hregistered, fun req hmem => absurd hmem (hnone req),
    fun req hmem => absurd hmem (hnone req), fun p hp => ?_, fun _ _ _ _ hmem => ?_, ?_⟩
  · rw [hunused.runnerMem] at hp
    cases hp
  · rw [hevents] at hmem
    cases hmem
  · rw [hevents]
    trivial

/-- A step keeps the stored metadata. -/
theorem step_keeps {history next : AuditHistory} {op : AuditOp}
    (hstep : history.step env op = some next) : Scan.Keeps history.scan next.scan := by
  rcases step_cases hstep with ⟨_, _, _, houtcome, _⟩ | ⟨req, transfer, p, _, _, _, _, houtcome, _⟩
  · exact houtcome.keeps
  · exact (Scan.evaluateCallback_keeps env history.scan req transfer p).trans houtcome.keeps

theorem run_keeps {history last : AuditHistory} {ops : List AuditOp}
    (hrun : transition.run (step env) history ops = some last) :
    Scan.Keeps history.scan last.scan :=
  run_preserves (P := fun state : AuditHistory => Scan.Keeps history.scan state.scan)
    (fun _ _ _ hkeeps hstep => hkeeps.trans (step_keeps hstep)) (.refl _) hrun

/-- The average time is measured before a check with a rule looks at a response. -/
structure MeasuredInTime (env : ScanEnv) (start : AuditHistory) (ops : List AuditOp)
    (last : AuditHistory) : Prop where
  /-- A request that is looked at has the tested request as its parent. The average time of that
      one has been measured before, and is found under the id that is looked up. -/
  measured : ∀ before after p check request getRequestMeta,
    last.events = before ++ .evaluated p (.generic check) request getRequestMeta :: after →
      request.parentId = last.scan.testedId p ∧
      (∃ value, .measured p request.parentId value ∈ before) ∧
      ∃ average, TimingMatcher.averageApplicationTimeUsec? getRequestMeta request = some average
  /-- A value that is stored is never changed. -/
  kept : ∀ before after middle, ops = before ++ after →
    transition.run (step env) start before = some middle → ∀ requestId type value,
      middle.scan.store.getRequestMetadata requestId type = some value →
        last.scan.store.getRequestMetadata requestId type = some value

/-- In every run in which every request is accepted and the response time check comes first, the
    average time is measured before a check with a rule looks at a response. -/
theorem measured_in_time (haccepts : ∀ i, env.accepts i = true) {start last : AuditHistory}
    {ops : List AuditOp} (hunused : start.scan.Unused) (hout : start.scan.outstanding = [])
    (hevents : start.events = []) (hregistered : start.scan.selectiveAuditor.checks =
      ((.responseTime first :: rest).foldl SelectiveAuditor.addSecurityCheck {}).checks)
    (hrules : ∀ check ∈ rest, check.FromRule env.request)
    (hexisting : Along (step env) TestsExisting start ops)
    (hrun : transition.run (step env) start ops = some last) :
    MeasuredInTime env start ops last := by
  rw [SelectiveAuditor.foldl_addSecurityCheck, List.nil_append] at hregistered
  have hbaseline : last.Baseline env.request first rest :=
    run_preserves_along (fun _ _ _ h hok hstep => h.step haccepts hrules hok hstep)
      (baseline_of_unused hunused hout hevents hregistered) hexisting hrun
  refine ⟨fun before after p check request getRequestMeta hsplit => ?_,
    fun before after middle hops hmiddle requestId type value hvalue => ?_⟩
  · have hmem : .evaluated p (.generic check) request getRequestMeta ∈ last.events := by
      rw [hsplit]
      exact List.mem_append_right _ List.mem_cons_self
    obtain ⟨hmeasured, hsome⟩ := hbaseline.follows.of_split hsplit
    exact ⟨(hbaseline.evaluated p check request getRequestMeta hmem).2, hmeasured,
      Option.isSome_iff_exists.mp hsome⟩
  · rw [hops] at hrun
    obtain ⟨middle', hmiddle', hrest⟩ := run_append_eq_some.mp hrun
    obtain rfl := Option.some.inj (hmiddle.symm.trans hmiddle')
    exact (run_keeps hrest).metadata requestId type value hvalue

end

end AuditHistory

namespace Scan

/-- A rule that slow pages satisfy. -/
def slowRule : MatchRule :=
  { condition := [{ targetField := some .responseBody
                    match_ := [{ methodField := some .timing
                                 timingField := some { minDurationMsField := some 1000
                                                       maxDurationMsField := some 2000 } }] }] }

def timedChecks : List SecurityCheck :=
  [.responseTime ⟨1, 8000⟩,
    .generic
      { securityTest := { issueType := .sqlInjection }
        generator := GenericGenerator.generator (plainEnv true).request quoteRule
        matcher := (GenericResponseMatcher.init GenericResponseMatcher.literalRe2 id slowRule).map
          (·.responseMatcher GenericResponseMatcher.literalRe2) }]

end Scan

namespace AuditHistory

open Scan (AuditOp oneAudit plainEnv timedChecks quoteRule pageOf)

/-- One measurement, and then the two requests of the rule. -/
def timedAudit : List AuditOp :=
  [.scheduleFirst 0, .requestCallback 1 (pageOf "ok"), .requestCallback 3 (pageOf "ok"),
    .requestCallback 2 (pageOf "ok")]

theorem timedAudit_outcome :
    (transition.run (step (plainEnv true)) { scan := oneAudit timedChecks } timedAudit).map
      (·.scan.selectiveAuditor.runners) = some [] := by
  decide +kernel

theorem measured_in_time_timedAudit : ∃ last,
    transition.run (step (plainEnv true)) { scan := oneAudit timedChecks } timedAudit = some last ∧
    last.scan.selectiveAuditor.runners = [] ∧
    MeasuredInTime (plainEnv true) { scan := oneAudit timedChecks } timedAudit last := by
  obtain ⟨last, hrun, hrunners⟩ := Option.map_eq_some_iff.mp timedAudit_outcome
  have hrules : ∀ check ∈ timedChecks.tail, check.FromRule (plainEnv true).request := by
    intro check hmem
    rw [List.mem_singleton.mp hmem]
    exact ⟨quoteRule, rfl⟩
  exact ⟨last, hrun, hrunners, measured_in_time (fun _ => rfl) ⟨rfl, rfl⟩ rfl rfl rfl hrules
    ⟨Nat.zero_lt_one, fun _ _ => ⟨trivial, fun _ _ => ⟨trivial, fun _ _ => ⟨trivial, fun _ _ =>
      trivial⟩⟩⟩⟩ hrun⟩

end AuditHistory

end plusfish
